import AtomicDiscDrive.Network.Addressees

/-!
# Failed sends are made up for

A command that could not be sent is kept in `pending_cmds` until its operation is finished,
and is replayed on a reconnection. But there is one entry for each `msg_ident` only, shared
by the operations of this process and the answers to those of others. So the command of one
operation may be overwritten, or removed, by another operation with the same identifier
(`unsent_is_forgotten`). As long as this does not happen to what is still owed to some
process, the next reconnection to a process makes up for every send to it that failed
(`unsent_is_replayed`).

The order of events behind this: an operation never has two failed sends in the hands of
calls at once. The broadcasts of an operation follow each other, and answers to an operation
are all for one process, whose stream is locked from the failure on (`Owes.last`).
-/

namespace AtomicDiscDrive
namespace Network

open Utils

namespace Client

/-! ## The condition -/

/-- Nothing kept under the identifier of `o` is owed to a process on behalf of another
operation that is not finished. -/
def sparesOwed (ident : Operation → Uuid) (s : Client) (o : Operation) : Bool :=
  s.pendingCmds.all fun c =>
    c.cmd.header.msgIdent != ident o || c.operation == o || s.finished.contains c.operation ||
      s.owed.all fun e => e.copy.operation != c.operation

/-- `pending_cmds` loses no command that is still owed for another operation. -/
def SparesOwed (ident : Operation → Uuid) (s : Client) : Action → Prop
  | .call k _ => ∀ task ∈ s.tasks[k]?, task.pc ≠ .ready →
      s.sparesOwed ident task.operation = true
  | .remove o => s.sparesOwed ident o = true
  | _ => True

instance (ident : Operation → Uuid) (s : Client) (a : Action) :
    Decidable (s.SparesOwed ident a) := by
  apply Action.casesOn (motive := fun a => Decidable (s.SparesOwed ident a)) a
  all_goals
    intros
    dsimp only [SparesOwed]
    infer_instance

/-! ## Locks -/

/-- The lock of a stream is held by the monitor or by a call. -/
def Locked (s : Client) : Prop :=
  ∀ target, s.heldByMonitor target = true → s.heldByCall target = false

variable {N self : ℕ} {ident : Operation → Uuid} {s s' : Client} {a : Action}

theorem heldByCall_eq_true {target : ℕ} : s.heldByCall target = true ↔
    ∃ task ∈ s.tasks, task.pc ≠ .ready ∧ task.targets.head? = some target := by
  simp [heldByCall]

/-- A call that waits for nothing holds no lock. -/
theorem heldByCall_set {k : ℕ} {task : Task} (hpc : task.pc = .ready) {tasks : List Task}
    {target : ℕ} (h : (tasks.any fun t => t.pc != .ready && t.targets.head? == some target) = false) :
    ((tasks.set k task).any fun t => t.pc != .ready && t.targets.head? == some target) = false := by
  rw [List.any_eq_false] at h ⊢
  intro t ht
  rcases List.mem_or_eq_of_mem_set ht with ht | rfl
  · exact h t ht
  · simp [hpc]

theorem heldByCall_append {task : Task} (hpc : task.pc = .ready) {tasks : List Task} {target : ℕ}
    (h : (tasks.any fun t => t.pc != .ready && t.targets.head? == some target) = false) :
    ((tasks ++ [task]).any fun t => t.pc != .ready && t.targets.head? == some target) = false := by
  rw [List.any_append, h]
  simp [hpc]

theorem Event.locked (h : Event N self ident s a s') (hlocked : Locked s) : Locked s' := by
  intro target hmonitor
  cases h with
  | send hident => exact heldByCall_append rfl (hlocked target hmonitor)
  | broadcast hident hself hdone => exact heldByCall_append rfl (hlocked target hmonitor)
  | toSelf hk htargets hpc => exact heldByCall_set rfl (hlocked target hmonitor)
  | sent hk htargets hpc hself hfree hstream => exact heldByCall_set rfl (hlocked target hmonitor)
  | @failed k t ok task rest hk htargets hpc hself hfree hstream =>
    -- the call takes the lock of a stream that the monitor does not hold
    have hne : t ≠ target := by
      rintro rfl
      rw [show s.heldByMonitor t = true from hmonitor] at hfree
      exact absurd hfree.2 (by decide)
    have hold := hlocked target hmonitor
    unfold heldByCall at hold ⊢
    rw [List.any_eq_false] at hold ⊢
    intro t' ht'
    rcases List.mem_or_eq_of_mem_set ht' with ht' | rfl
    · exact hold t' ht'
    · simp [htargets, hne]
  | added hk htargets hpc hfree => exact heldByCall_set rfl (hlocked target hmonitor)
  | finish => exact hlocked target hmonitor
  | remove hfinished hself hfree => exact hlocked target hmonitor
  | pass hm => cases hmonitor
  | connect hm hself hfree hstream =>
    rw [← (beq_iff_eq.mp hmonitor : _ = target)]
    exact hfree
  | replay hm hperm =>
    exact hlocked target (by rw [heldByMonitor, hm]; exact hmonitor)
  | replayed hm => exact hlocked target (by rw [heldByMonitor, hm]; exact hmonitor)
  | unreplayed hm => exact hlocked target (by rw [heldByMonitor, hm]; exact hmonitor)
  | dropped hm => cases hmonitor
  | marked hm => cases hmonitor

/-! ## What is owed, and to whom -/

/-- The copy stems from a call that sends to `target`, perhaps among others. -/
def SentTo (p : ℕ) (tasks : List Task) (copy : Copy) (target : ℕ) : Prop :=
  ∃ task, tasks[copy.call]? = some task ∧ task.cmd = copy.cmd ∧
    task.operation = copy.operation ∧
    (task.addressee = none ∧ copy.operation.process = p ∨
      task.addressee = some target ∧ copy.operation.process = target ∧ target ≠ p)

theorem SentTo.mono {p : ℕ} {tasks tasks' : List Task} {copy : Copy} {target : ℕ}
    (h : SentTo p tasks copy target) (hext : Extends tasks tasks') :
    SentTo p tasks' copy target := by
  obtain ⟨task, hk, hcmd, hop, hto⟩ := h
  obtain ⟨task', hk', hcmd', hop', hto'⟩ := hext copy.call task hk
  refine ⟨task', hk', hcmd'.trans hcmd, hop'.trans hop, ?_⟩
  rw [hto']
  exact hto

/-- Two copies of one operation are sent to the same processes. -/
theorem SentTo.of_operation {p : ℕ} {tasks : List Task} {copy copy' : Copy} {target target' : ℕ}
    (h : SentTo p tasks copy target) (h' : SentTo p tasks copy' target')
    (hop : copy'.operation = copy.operation) : SentTo p tasks copy' target := by
  obtain ⟨_, _, _, _, hto⟩ := h
  obtain ⟨task', hk', hcmd', hop', hto'⟩ := h'
  refine ⟨task', hk', hcmd', hop', ?_⟩
  rw [← hop] at hto
  rcases hto' with hto' | ⟨hto', hprocess', hne'⟩
  · exact Or.inl hto'
  · rcases hto with ⟨-, hprocess⟩ | ⟨-, hprocess, hne⟩
    · exact absurd (hprocess'.symm.trans hprocess) hne'
    · have htarget : target' = target := hprocess'.symm.trans hprocess
      exact Or.inr ⟨htarget ▸ hto', hprocess, hne⟩

theorem Calls.sentTo (h : Calls self ident s.tasks s.attempts) {k target stamp : ℕ} {task : Task}
    {rest : List ℕ} (hk : s.tasks[k]? = some task) (htargets : task.targets = target :: rest)
    (hself : target ≠ self) : SentTo self s.tasks (copyOf task k stamp) target := by
  have htask := List.mem_of_getElem? hk
  refine ⟨task, hk, rfl, rfl, ?_⟩
  cases hto : task.addressee with
  | none => exact Or.inl ⟨rfl, h.own task htask hto⟩
  | some t =>
    obtain ⟨hprocess, hall⟩ := h.answer task htask t hto
    have htarget : target = t := hall target (by rw [htargets]; exact List.mem_cons_self)
    subst htarget
    exact Or.inr ⟨rfl, hprocess, hself⟩

/-- The failed sends that are not made up for. -/
structure Owes (p : ℕ) (s : Client) : Prop where
  bound : ∀ e ∈ s.owed, e.copy.stamp < s.attempts
  owed : ∀ e ∈ s.owed, SentTo p s.tasks e.copy e.target
  pending : ∀ c ∈ s.pendingCmds, ∃ target, SentTo p s.tasks c target
  /-- while a call holds a failed send, that is the last one of its operation -/
  last : ∀ (k : ℕ) (task : Task) (stamp : ℕ), s.tasks[k]? = some task → task.pc = .failed stamp →
    ∀ e ∈ s.owed, e.copy.operation = task.operation →
      e.copy = copyOf task k stamp ∨ e.copy.stamp < stamp

theorem owes_init : Owes self init where
  bound := by simp [init]
  owed := by simp [init]
  pending := by simp [init]
  last := by simp [init]

/-- A call that was ready, or is done with its failed send, is not among those with one. -/
theorem last_of_set {k : ℕ} {task task' : Task} (h : Owes self s) (hk : s.tasks[k]? = some task)
    (hpc : task'.pc = .ready) {j stamp : ℕ} {t : Task}
    (hj : (s.tasks.set k task')[j]? = some t) (hfailed : t.pc = .failed stamp) :
    ∀ e ∈ s.owed, e.copy.operation = t.operation →
      e.copy = copyOf t j stamp ∨ e.copy.stamp < stamp := by
  have hlt : k < s.tasks.length := (List.getElem?_eq_some_iff.mp hk).1
  by_cases hjk : k = j
  · subst hjk
    rw [List.getElem?_set_self hlt, Option.some.injEq] at hj
    rw [← hj, hpc] at hfailed
    cases hfailed
  · rw [List.getElem?_set_ne hjk] at hj
    exact h.last j t stamp hj hfailed

theorem last_of_append {new : Task} (h : Owes self s) (hpc : new.pc = .ready) {j stamp : ℕ}
    {t : Task} (hj : (s.tasks ++ [new])[j]? = some t) (hfailed : t.pc = .failed stamp) :
    ∀ e ∈ s.owed, e.copy.operation = t.operation →
      e.copy = copyOf t j stamp ∨ e.copy.stamp < stamp := by
  by_cases hlt : j < s.tasks.length
  · rw [List.getElem?_append_left hlt] at hj
    exact h.last j t stamp hj hfailed
  · have hlen : j = s.tasks.length := by
      have := (List.getElem?_eq_some_iff.mp hj).1
      rw [List.length_append, List.length_singleton] at this
      omega
    subst hlen
    rw [List.getElem?_append_right (le_refl _), Nat.sub_self] at hj
    have heq : new = t := by simpa using hj
    rw [← heq, hpc] at hfailed
    cases hfailed

/-- Only one call at a time can hold a failed send of an operation: a second call would be a
second broadcast of it, or would need the lock of the same stream. -/
theorem Calls.failed_alone (h : Calls self ident s.tasks s.attempts) {j k stamp target : ℕ}
    {t task : Task} {rest : List ℕ} (hj : s.tasks[j]? = some t) (hfailed : t.pc = .failed stamp)
    (hk : s.tasks[k]? = some task) (htargets : task.targets = target :: rest)
    (hne : target ≠ self) (hfree : s.heldByCall target = false) (hjk : k ≠ j) :
    t.operation ≠ task.operation := by
  intro hop
  have ht := List.mem_of_getElem? hj
  have htask := List.mem_of_getElem? hk
  obtain ⟨-, u, hu, hune⟩ := h.failed t ht stamp hfailed
  have humem : u ∈ t.targets := List.mem_of_mem_head? (by rw [hu]; rfl)
  have htmem : target ∈ task.targets := by rw [htargets]; exact List.mem_cons_self
  -- two broadcasts of an operation follow each other, two answers have one addressee, whose client
  -- is locked, and no operation has both
  cases hto : t.addressee with
  | none =>
    cases hto' : task.addressee with
    | none =>
      rcases Nat.lt_or_gt_of_ne hjk with hlt | hlt
      · have := h.sequential k j task t hlt hk hj hto' hto hop.symm
        rw [this] at htmem
        cases htmem
      · have := h.sequential j k t task hlt hj hk hto hto' hop
        rw [this] at humem
        cases humem
    | some b =>
      obtain ⟨hb, hall⟩ := h.answer task htask b hto'
      have hown := h.own t ht hto
      rw [hop, hb, ← hall target htmem] at hown
      exact hne hown
  | some b =>
    obtain ⟨hb, hall⟩ := h.answer t ht b hto
    have hub : u = b := hall u humem
    cases hto' : task.addressee with
    | none =>
      have hown := h.own task htask hto'
      rw [← hop, hb, ← hub] at hown
      exact hune hown
    | some b' =>
      obtain ⟨hb', hall'⟩ := h.answer task htask b' hto'
      have hsame : target = u := by rw [hall' target htmem, hub, ← hb, ← hb', hop]
      have hheld : s.heldByCall target = true :=
        heldByCall_eq_true.mpr ⟨t, ht, by rw [hfailed]; simp, by rw [hu, hsame]⟩
      rw [hheld] at hfree
      cases hfree

/-- No send fails, and nothing is kept that was not kept before. -/
theorem Owes.of_extends (h : Owes self s) (hext : Extends s.tasks s'.tasks)
    (hattempts : s.attempts ≤ s'.attempts) (howed : ∀ e ∈ s'.owed, e ∈ s.owed)
    (hpending : ∀ c ∈ s'.pendingCmds, c ∈ s.pendingCmds ∨ ∃ target, SentTo self s.tasks c target)
    (hlast : ∀ (k : ℕ) (task : Task) (stamp : ℕ), s'.tasks[k]? = some task →
      task.pc = .failed stamp → ∀ e ∈ s.owed, e.copy.operation = task.operation →
        e.copy = copyOf task k stamp ∨ e.copy.stamp < stamp) :
    Owes self s' where
  bound := fun e he => lt_of_lt_of_le (h.bound e (howed e he)) hattempts
  owed := fun e he => (h.owed e (howed e he)).mono hext
  pending := by
    intro c hc
    rcases hpending c hc with hc | ⟨target, hsent⟩
    · obtain ⟨target, hsent⟩ := h.pending c hc
      exact ⟨target, hsent.mono hext⟩
    · exact ⟨target, hsent.mono hext⟩
  last := fun k task stamp hk hpc e he => hlast k task stamp hk hpc e (howed e he)

theorem Owes.fail (h : Owes self s) (hcalls : Calls self ident s.tasks s.attempts)
    {k target : ℕ} {task : Task} {rest : List ℕ} (hk : s.tasks[k]? = some task)
    (htargets : task.targets = target :: rest) (hself : target ≠ self)
    (hfree : s.heldByCall target = false) : Owes self (s.fail k task target) := by
  have hext : Extends s.tasks (s.fail k task target).tasks := .set hk rfl rfl rfl
  have hlt : k < s.tasks.length := (List.getElem?_eq_some_iff.mp hk).1
  have hsent : SentTo self s.tasks (copyOf task k s.attempts) target :=
    hcalls.sentTo hk htargets hself
  refine ⟨?_, ?_, ?_, ?_⟩
  · intro e he
    rcases List.mem_append.mp he with he | he
    · exact Nat.lt_succ_of_lt (h.bound e he)
    · rw [List.mem_singleton.mp he]
      exact Nat.lt_succ_self _
  · intro e he
    rcases List.mem_append.mp he with he | he
    · exact (h.owed e he).mono hext
    · rw [List.mem_singleton.mp he]
      exact hsent.mono hext
  · intro c hc
    obtain ⟨u, hu⟩ := h.pending c hc
    exact ⟨u, hu.mono hext⟩
  · intro j t stamp hj hfailed e he hop
    by_cases hjk : k = j
    · -- the send that just failed is the last of all
      subst hjk
      rw [show (s.fail k task target).tasks[k]? = _ from List.getElem?_set_self hlt,
        Option.some.injEq] at hj
      subst hj
      cases hfailed
      rcases List.mem_append.mp he with he | he
      · exact Or.inr (h.bound e he)
      · rw [List.mem_singleton.mp he]
        exact Or.inl rfl
    · rw [show (s.fail k task target).tasks[j]? = _ from List.getElem?_set_ne hjk] at hj
      rcases List.mem_append.mp he with he | he
      · exact h.last j t stamp hj hfailed e he hop
      · rw [List.mem_singleton.mp he] at hop
        exact absurd hop.symm (hcalls.failed_alone hj hfailed hk htargets hself hfree hjk)

theorem Event.owes (h : Event N self ident s a s') (hcalls : Calls self ident s.tasks s.attempts)
    (howes : Owes self s) : Owes self s' := by
  have hext : Extends s.tasks s'.tasks := h.extends
  have hsame : ∀ c ∈ s.pendingCmds, c ∈ s.pendingCmds ∨ ∃ target, SentTo self s.tasks c target :=
    fun c hc => Or.inl hc
  cases h with
  | send hident =>
    exact howes.of_extends hext le_rfl (fun e he => he) hsame fun j t stamp hj hpc =>
      last_of_append howes rfl hj hpc
  | broadcast hident hself hdone =>
    exact howes.of_extends hext le_rfl (fun e he => he) hsame fun j t stamp hj hpc =>
      last_of_append howes rfl hj hpc
  | toSelf hk htargets hpc =>
    exact howes.of_extends hext (Nat.le_succ _) (fun e he => he) hsame fun j t stamp hj hpc =>
      last_of_set howes hk rfl hj hpc
  | sent hk htargets hpc hself hfree hstream =>
    exact howes.of_extends hext (Nat.le_succ _) (fun e he => he) hsame fun j t stamp hj hpc =>
      last_of_set howes hk rfl hj hpc
  | failed hk htargets hpc hself hfree hstream =>
    exact howes.fail hcalls hk htargets hself hfree.1
  | @added k target stamp ok task rest hk htargets hpc hfree =>
    apply howes.of_extends hext le_rfl (fun e he => he)
    · intro c hc
      rcases List.mem_append.mp hc with hc | hc
      · exact Or.inl (List.mem_of_mem_filter hc)
      · rw [List.mem_singleton.mp hc]
        -- what is kept is a copy of a send that has failed, so it had an addressee
        obtain ⟨-, u, hu, hne⟩ := hcalls.failed task (List.mem_of_getElem? hk) stamp hpc
        rw [htargets, List.head?_cons, Option.some.injEq] at hu
        exact Or.inr ⟨target, hcalls.sentTo hk htargets (hu ▸ hne)⟩
    · exact fun j t stamp hj hpc => last_of_set howes hk rfl hj hpc
  | remove hfinished hself hfree =>
    exact howes.of_extends hext le_rfl (fun e he => he)
      (fun c hc => Or.inl (List.mem_of_mem_filter hc)) howes.last
  | marked hmonitor =>
    exact howes.of_extends hext le_rfl (fun e he => List.mem_of_mem_filter he) hsame howes.last
  | _ => exact howes.of_extends hext le_rfl (fun e he => he) hsame howes.last

/-! ## What is kept -/

/-- The command of `e`, or a later one of its operation, is kept. -/
def Kept (pendingCmds : List Copy) (e : Owed) : Prop :=
  ∃ c ∈ pendingCmds, c.operation = e.copy.operation ∧ (c = e.copy ∨ e.copy.stamp < c.stamp)

/-- The failed send `e` is still in the hands of its call. -/
def InHand (tasks : List Task) (e : Owed) : Prop :=
  ∃ task, tasks[e.copy.call]? = some task ∧ task.pc = .failed e.copy.stamp ∧
    task.targets.head? = some e.target

/-- What is owed for an operation in progress is not lost. -/
def KeepsOwed (s : Client) : Prop :=
  ∀ e ∈ s.owed, e.copy.operation ∉ s.finished → InHand s.tasks e ∨ Kept s.pendingCmds e

theorem InHand.append {tasks new : List Task} {e : Owed} (h : InHand tasks e) :
    InHand (tasks ++ new) e := by
  obtain ⟨task, hk, hpc, hhead⟩ := h
  have hlt : e.copy.call < tasks.length := (List.getElem?_eq_some_iff.mp hk).1
  exact ⟨task, by rw [List.getElem?_append_left hlt, hk], hpc, hhead⟩

theorem InHand.set {tasks : List Task} {k : ℕ} {task task' : Task} {e : Owed} (h : InHand tasks e)
    (hk : tasks[k]? = some task) (hpc : task.pc = .ready) : InHand (tasks.set k task') e := by
  obtain ⟨t, hc, hfailed, hhead⟩ := h
  have hne : k ≠ e.copy.call := by
    rintro rfl
    rw [hk, Option.some.injEq] at hc
    rw [← hc, hpc] at hfailed
    cases hfailed
  exact ⟨t, by rw [List.getElem?_set_ne hne, hc], hfailed, hhead⟩

theorem KeepsOwed.of_same (h : KeepsOwed s) (howed : ∀ e ∈ s'.owed, e ∈ s.owed)
    (hfinished : ∀ o ∈ s.finished, o ∈ s'.finished) (hpending : s'.pendingCmds = s.pendingCmds)
    (hhand : ∀ e, InHand s.tasks e → InHand s'.tasks e) : KeepsOwed s' := by
  intro e he hunfinished
  rw [hpending]
  rcases h e (howed e he) (fun hf => hunfinished (hfinished _ hf)) with hin | hkept
  · exact Or.inl (hhand e hin)
  · exact Or.inr hkept

/-- What is kept for `e` stays when the identifier of another operation is cleared. -/
theorem Kept.filter {e : Owed} {o : Operation} (h : Kept s.pendingCmds e) (he : e ∈ s.owed)
    (hunfinished : e.copy.operation ∉ s.finished) (hne : e.copy.operation ≠ o)
    (hspares : s.sparesOwed ident o = true) :
    Kept (s.pendingCmds.filter fun c => c.cmd.header.msgIdent != ident o) e := by
  obtain ⟨c, hc, hop, hlater⟩ := h
  refine ⟨c, List.mem_filter.mpr ⟨hc, ?_⟩, hop, hlater⟩
  have hall := List.all_eq_true.mp hspares c hc
  simp only [Bool.or_eq_true, bne_iff_ne, beq_iff_eq, List.contains_iff_mem,
    List.all_eq_true] at hall
  rcases hall with ((hident | hop') | hfinished) | hnone
  · exact bne_iff_ne.mpr hident
  · exact absurd (hop.symm.trans hop') hne
  · exact absurd (hop ▸ hfinished) hunfinished
  · exact absurd hop.symm (hnone e he)

/-- A call hands over its failed send. -/
theorem KeepsOwed.added (h : KeepsOwed s) (hcalls : Calls self ident s.tasks s.attempts)
    (howes : Owes self s) {k stamp : ℕ} {task : Task} (hk : s.tasks[k]? = some task)
    (hpc : task.pc = .failed stamp) (hspares : s.sparesOwed ident task.operation = true) :
    KeepsOwed { s.proceed k task with
      pendingCmds := addPendingCmd s.pendingCmds (copyOf task k stamp) } := by
  intro e he hunfinished
  have hident : (copyOf task k stamp).cmd.header.msgIdent = ident task.operation :=
    hcalls.ident task (List.mem_of_getElem? hk)
  by_cases hop : e.copy.operation = task.operation
  · -- the command handed over is the last one of its operation
    right
    refine ⟨copyOf task k stamp, List.mem_append_right _ (List.mem_singleton_self _), hop.symm, ?_⟩
    rcases howes.last k task stamp hk hpc e he hop with heq | hlt
    · exact Or.inl heq.symm
    · exact Or.inr hlt
  · rcases h e he hunfinished with ⟨t, hc, hfailed, hhead⟩ | hkept
    · left
      have hne : k ≠ e.copy.call := by
        rintro rfl
        obtain ⟨t', hc', -, hop', -⟩ := howes.owed e he
        rw [hk, Option.some.injEq] at hc'
        exact hop (hc' ▸ hop').symm
      exact ⟨t, by rw [show (s.proceed k task).tasks[e.copy.call]? = _ from
        List.getElem?_set_ne hne, hc], hfailed, hhead⟩
    · right
      obtain ⟨c, hc, hcop, hlater⟩ := hkept.filter he hunfinished hop hspares
      rw [← hident] at hc
      exact ⟨c, List.mem_append_left _ hc, hcop, hlater⟩

theorem Event.keepsOwed (h : Event N self ident s a s')
    (hcalls : Calls self ident s.tasks s.attempts) (howes : Owes self s)
    (ha : s.SparesOwed ident a) (hkeeps : KeepsOwed s) : KeepsOwed s' := by
  cases h with
  | send hident => exact hkeeps.of_same (fun _ he => he) (fun _ ho => ho) rfl fun _ => .append
  | broadcast hident hself hdone =>
    exact hkeeps.of_same (fun _ he => he) (fun _ ho => ho) rfl fun _ => .append
  | toSelf hk htargets hpc =>
    exact hkeeps.of_same (fun _ he => he) (fun _ ho => ho) rfl fun _ hin => hin.set hk hpc
  | sent hk htargets hpc hself hfree hstream =>
    exact hkeeps.of_same (fun _ he => he) (fun _ ho => ho) rfl fun _ hin => hin.set hk hpc
  | @failed k target ok task rest hk htargets hpc hself hfree hstream =>
    intro e he hunfinished
    rcases List.mem_append.mp he with he | he
    · rcases hkeeps e he hunfinished with hin | hkept
      · exact Or.inl (hin.set hk hpc)
      · exact Or.inr hkept
    · left
      rw [List.mem_singleton.mp he]
      have hlt : k < s.tasks.length := (List.getElem?_eq_some_iff.mp hk).1
      exact ⟨_, List.getElem?_set_self hlt, rfl, by rw [htargets, List.head?_cons]⟩
  | added hk htargets hpc hfree =>
    exact hkeeps.added hcalls howes hk hpc (ha _ hk (by rw [hpc]; simp))
  | finish =>
    exact hkeeps.of_same (fun _ he => he) (fun _ ho => List.mem_append_left _ ho) rfl fun _ => id
  | remove hfinished hself hfree =>
    intro e he hunfinished
    rcases hkeeps e he hunfinished with hin | hkept
    · exact Or.inl hin
    · refine Or.inr (hkept.filter he hunfinished ?_ ha)
      rintro rfl
      exact hunfinished hfinished
  | marked hmonitor =>
    exact hkeeps.of_same (fun _ he => List.mem_of_mem_filter he) (fun _ ho => ho) rfl fun _ => id
  | _ => exact hkeeps.of_same (fun _ he => he) (fun _ ho => ho) rfl fun _ => id

/-! ## Replaying -/

/-- A replay without errors goes through all that is kept. -/
def ReplaysAll (s : Client) : Prop :=
  ∀ target connection rest failed, s.monitor = .replaying target connection rest failed →
    ∀ c ∈ s.pendingCmds, c ∈ rest ∨ failed = true ∨ ⟨target, connection, c⟩ ∈ s.written

theorem isReplaying_of_monitor {target connection : ℕ} {rest : List Copy} {failed : Bool}
    (h : s.monitor = .replaying target connection rest failed) : s.isReplaying = true := by
  rw [isReplaying, h]

theorem ReplaysAll.of_same (h : ReplaysAll s) (hmonitor : s'.monitor = s.monitor)
    (hpending : s'.pendingCmds = s.pendingCmds) (hwritten : ∀ w ∈ s.written, w ∈ s'.written) :
    ReplaysAll s' := by
  intro target connection rest failed hm c hc
  rw [hmonitor] at hm
  rw [hpending] at hc
  rcases h target connection rest failed hm c hc with hrest | hfailed | hw
  · exact Or.inl hrest
  · exact Or.inr (Or.inl hfailed)
  · exact Or.inr (Or.inr (hwritten _ hw))

theorem Event.replaysAll (h : Event N self ident s a s') (hall : ReplaysAll s) :
    ReplaysAll s' := by
  cases h with
  | sent hk htargets hpc hself hfree hstream =>
    exact hall.of_same rfl rfl fun w hw => List.mem_append_left _ hw
  | added hk htargets hpc hfree =>
    -- `pending_cmds` is locked while the monitor replays
    intro target connection rest failed hm
    rw [isReplaying_of_monitor (s := s) hm] at hfree
    cases hfree
  | remove hfinished hself hfree =>
    intro target connection rest failed hm
    rw [isReplaying_of_monitor (s := s) hm] at hfree
    cases hfree
  | replay hmonitor hperm =>
    intro target connection rest failed hm c hc
    cases hm
    exact Or.inl (hperm.mem_iff.mpr hc)
  | replayed hmonitor =>
    intro target connection rest failed hm c hc
    cases hm
    rcases hall _ _ _ _ hmonitor c hc with hrest | hfailed | hw
    · rcases List.mem_cons.mp hrest with rfl | hrest
      · exact Or.inr (Or.inr (List.mem_append_right _ (List.mem_singleton_self _)))
      · exact Or.inl hrest
    · exact Or.inr (Or.inl hfailed)
    · exact Or.inr (Or.inr (List.mem_append_left _ hw))
  | unreplayed hmonitor =>
    intro target connection rest failed hm c hc
    cases hm
    exact Or.inr (Or.inl rfl)
  | pass hmonitor => exact fun _ _ _ _ hm => by cases hm
  | connect hmonitor hself hfree hstream => exact fun _ _ _ _ hm => by cases hm
  | dropped hmonitor => exact fun _ _ _ _ hm => by cases hm
  | marked hmonitor => exact fun _ _ _ _ hm => by cases hm
  | _ => exact hall.of_same rfl rfl fun _ hw => hw

/-! ## Runs -/

/-- What holds whatever identifiers the clients choose. -/
structure Sound (p : ℕ) (ident : Operation → Uuid) (s : Client) : Prop where
  calls : Calls p ident s.tasks s.attempts
  owes : Owes p s
  locked : Locked s
  replaysAll : ReplaysAll s

theorem sound_init : Sound self ident init where
  calls := calls_init
  owes := owes_init
  locked := by intro target h; cases h
  replaysAll := by intro target connection rest failed h; cases h

theorem Event.sound (h : Event N self ident s a s') (hs : Sound self ident s) :
    Sound self ident s' where
  calls := h.calls hs.calls
  owes := h.owes hs.calls hs.owes
  locked := h.locked hs.locked
  replaysAll := h.replaysAll hs.replaysAll

theorem sound_reachable {allowed : Client → Action → Prop}
    (hs : Reachable (step N self ident) allowed init s) : Sound self ident s :=
  hs.invariant (Sound self ident) sound_init fun _ _ _ _ hsound _ h => (step_event h).sound hsound

theorem keepsOwed_reachable (hs : Reachable (step N self ident) (SparesOwed ident) init s) :
    KeepsOwed s :=
  hs.invariant KeepsOwed (by intro e he; cases he) fun _ _ _ hs hkeeps ha h =>
    (step_event h).keepsOwed (sound_reachable hs).calls (sound_reachable hs).owes ha hkeeps

/-- **Failed sends are made up for.** Suppose `pending_cmds` loses no command that is still
owed to some process for another operation in progress. When the monitor has reconnected to
`target`, every send to `target` that has failed since the last reconnection, for an
operation that is not finished, is made up for: that command, or one of the same operation
that was sent later and is for `target` too, has been written to the new stream. -/
theorem unsent_is_replayed (hs : Reachable (step N self ident) (SparesOwed ident) init s)
    {target connection : ℕ} (hmonitor : s.monitor = .replaying target connection [] false) :
    ∀ e ∈ s.owed, e.target = target → e.copy.operation ∉ s.finished →
      ∃ w ∈ s.written, w.target = target ∧ w.connection = connection ∧
        w.copy.operation = e.copy.operation ∧
        (w.copy = e.copy ∨ e.copy.stamp < w.copy.stamp) ∧
        SentTo self s.tasks w.copy target := by
  intro e he htarget hunfinished
  have hsound := sound_reachable hs
  rcases keepsOwed_reachable hs e he hunfinished with ⟨task, hk, hpc, hhead⟩ | hkept
  · -- the call would hold the lock that the monitor holds
    have hcall : s.heldByCall target = true :=
      heldByCall_eq_true.mpr ⟨task, List.mem_of_getElem? hk, by rw [hpc]; simp, htarget ▸ hhead⟩
    have hfree := hsound.locked target (by simp [heldByMonitor, hmonitor])
    rw [hcall] at hfree
    cases hfree
  · obtain ⟨c, hc, hop, hlater⟩ := hkept
    have hw : ⟨target, connection, c⟩ ∈ s.written := by
      rcases hsound.replaysAll target connection [] false hmonitor c hc with hnil | hfailed | hw
      · cases hnil
      · cases hfailed
      · exact hw
    obtain ⟨u, hsent⟩ := hsound.owes.pending c hc
    have hsent' : SentTo self s.tasks c target :=
      (htarget ▸ hsound.owes.owed e he).of_operation hsent hop
    exact ⟨_, hw, rfl, rfl, hop, hlater, hsent'⟩

/-! ## Two operations, one identifier -/

/-- The commands of all operations carry the identifier 7. -/
def sharedIdent (_ : Operation) : Uuid := 7

def sampleReadProc : SystemRegisterCommand := ⟨⟨1, 7, 1, 0⟩, .readProc⟩

def sharedAck : SystemRegisterCommand := ⟨⟨1, 7, 4, 1⟩, .ack⟩

/-- Process 1 of two broadcasts before there is a connection. -/
def broadcastUnsent : List Action :=
  [.broadcast ⟨1, 0⟩ sampleReadProc, .call 0 true, .call 0 true, .call 0 true]

theorem readProc_is_replayed :
    ∃ s, Reachable (step 2 1 sharedIdent) (SparesOwed sharedIdent) init s ∧
      s.monitor = .replaying 2 0 [] false ∧ s.finished = [] ∧
      s.owed = [⟨2, ⟨sampleReadProc, ⟨1, 0⟩, 0, 1⟩⟩] ∧
      ∃ w ∈ s.written, w.target = 2 ∧ w.connection = 0 ∧ w.copy.operation = ⟨1, 0⟩ := by
  have hrun : ∃ s, Reachable (step 2 1 sharedIdent) (SparesOwed sharedIdent) init s ∧
      s.monitor = .replaying 2 0 [] false ∧ s.finished = [] ∧
      s.owed = [⟨2, ⟨sampleReadProc, ⟨1, 0⟩, 0, 1⟩⟩] :=
    exists_of_exec (broadcastUnsent ++ [.visit true, .visit true,
      .replay [⟨sampleReadProc, ⟨1, 0⟩, 0, 1⟩], .replayStep true]) (by decide +kernel)
  obtain ⟨s, hs, hmonitor, hfinished, howed⟩ := hrun
  obtain ⟨w, hw, htarget, hconnection, hop, -⟩ := unsent_is_replayed hs hmonitor
    ⟨2, ⟨sampleReadProc, ⟨1, 0⟩, 0, 1⟩⟩ (by rw [howed]; exact List.mem_singleton_self _) rfl
    (by rw [hfinished]; exact List.not_mem_nil)
  exact ⟨s, hs, hmonitor, hfinished, howed, w, hw, htarget, hconnection, hop⟩

/-- Process 1 of three could not send its `ReadProc` to process 2. Then it could not send an
`Ack` to process 3, for an operation of that process with the same identifier. On the
reconnection to process 2 nothing is written for the operation of process 1. -/
theorem unsent_is_forgotten :
    ∃ s, Reachable (step 3 1 sharedIdent) (fun _ _ => True) init s ∧
      s.monitor = .replaying 2 0 [] false ∧ s.finished = [] ∧
      (∃ e ∈ s.owed, e.target = 2 ∧ e.copy.operation = ⟨1, 0⟩) ∧
      ∀ w ∈ s.written, w.copy.operation ≠ ⟨1, 0⟩ :=
  exists_of_exec ([.broadcast ⟨1, 0⟩ sampleReadProc, .call 0 true, .call 0 true, .call 0 true,
    .call 0 true, .call 0 true, .send ⟨3, 0⟩ sharedAck, .call 1 true, .call 1 true,
    .visit true, .visit true, .replay [⟨sharedAck, ⟨3, 0⟩, 1, 3⟩], .replayStep true])
    (by decide +kernel)

end Client

end Network
end AtomicDiscDrive
