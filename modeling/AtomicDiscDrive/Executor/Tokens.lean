import AtomicDiscDrive.Executor.Places

/-!
# Where the indices in the ready queue come from

A thread puts the index of its register on the ready queue when it starts and after every
message, also while the register is busy. Client commands take indices, and so do `ReadProc`
and `WriteProc`; `Value` and `Ack` do not. So there may be any number of indices of one
register in the queue, announced long ago.

`Tokens` is a history of the queue: it notes with each index which client command its thread
had taken last when it announced the register, and when client commands have received an
index of the register. If the command an index was announced after has been answered, and no
other client command has received an index of the register since, then the register is free
(`Provenance.takesFree`). Of older indices nothing can be said, unless no client command is
in progress at all.
-/

namespace AtomicDiscDrive
namespace Executor

open Utils

structure Tokens where
  process : Process
  /-- the ready queue; with each index the client command that its thread had taken last -/
  ready : List (ℕ × Option Callback)
  /-- the client command that the thread of a register has taken last -/
  latest : ℕ → Option Callback
  /-- the registers whose indices client commands have received, with the client command that
  the thread had taken last at that time -/
  received : List (ℕ × Option Callback)

/-- All client commands that have received an index are answered. -/
def Process.AllAnswered (s : Process) : Prop :=
  ∀ t < s.calls.length, (s.pcs t).taken = true → t ∈ s.bank.fired.map Prod.fst

instance (s : Process) : Decidable s.AllAnswered :=
  inferInstanceAs (Decidable (∀ t < s.calls.length, _ → _))

/-- The `j`-th task of `execute_system_command` waits for an index. -/
def Process.asksReady (s : Process) (j : ℕ) : Bool :=
  (s.systems[j]?).any fun task => task.pc = .start && Process.isRequest task.cmd

namespace Tokens

/-- What the history gains in a step of the process. -/
def record (q : Tokens) (a : Action) (process : Process) : Tokens :=
  match a with
  | .announce i => { q with process, ready := q.ready ++ [(i, q.latest i)] }
  | .receive i _ =>
    { q with
      process
      latest := match (q.process.bank.mailboxes i).head? with
        | some (.client _ t) => Function.update q.latest i (some t)
        | _ => q.latest }
  | .client t =>
    if q.process.pcs t = .owner then
      { q with
        process
        ready := q.ready.tail
        received := q.received ++ (q.ready.head?.map fun x => (x.1, q.latest x.1)).toList }
    else { q with process }
  | .system j =>
    { q with process, ready := if q.process.asksReady j then q.ready.tail else q.ready }
  | .crash => ⟨process, [], fun _ => none, []⟩
  | _ => { q with process }

variable (N R : ℕ) (selfIdent : UInt8)

/-- A step of the process; no step depends on the history. -/
def step (q : Tokens) (a : Action) : Option Tokens :=
  (q.process.step N R selfIdent a).map (q.record a)

def init : Tokens := ⟨.init N selfIdent, [], fun _ => none, []⟩

/-- What a client command receives from the queue in a step. -/
def takes (q : Tokens) : Action → Option (ℕ × Option Callback)
  | .client t => if q.process.pcs t = .owner then q.ready.head? else none
  | _ => none

/-- The index that a client command receives was announced after a command that has been
answered, if any, and since the thread took this command no client command has received an
index of the register; or else no client command is in progress. -/
def TakesReady (q : Tokens) (a : Action) : Prop :=
  ∀ x ∈ q.takes a,
    ((∀ t ∈ x.2, t ∈ q.process.bank.fired.map Prod.fst) ∧ x ∉ q.received) ∨
      q.process.AllAnswered

instance (q : Tokens) (a : Action) : Decidable (q.TakesReady a) :=
  inferInstanceAs (Decidable (∀ x ∈ q.takes a, (_ ∧ _) ∨ _))

end Tokens

variable {N R : ℕ} {selfIdent : UInt8} {s s' : Process} {a : Action} {q : Tokens}

/-! ## The queue -/

/-- A client command that is the owner of its sector receives an index. -/
theorem readyRegisters_clientStep {t : Callback} (h : s.clientStep t = some s') :
    s'.readyRegisters =
      if s.pcs t = .owner then s.readyRegisters.tail else s.readyRegisters := by
  unfold Process.clientStep at h
  split at h
  · cases h
  cases hpc : s.pcs t with
  | owner =>
    rw [hpc] at h
    dsimp only at h
    split at h
    · cases h
    · rename_i i rest hready
      cases h
      rw [if_pos rfl, hready]
      rfl
  | _ =>
    rw [hpc] at h
    dsimp only at h
    repeat' split at h
    all_goals cases h
    all_goals rfl

/-- A `ReadProc` or `WriteProc` that is at its start receives an index. -/
theorem readyRegisters_systemStep {j : ℕ} (h : s.systemStep j = some s') :
    s'.readyRegisters =
      if s.asksReady j then s.readyRegisters.tail else s.readyRegisters := by
  unfold Process.systemStep at h
  split at h
  · cases h
  rename_i task htask
  have hasks : s.asksReady j = (task.pc = .start && Process.isRequest task.cmd) := by
    rw [Process.asksReady, htask, Option.any_some]
  rw [hasks]
  cases hpc : task.pc with
  | start =>
    rw [hpc] at h
    dsimp only at h
    by_cases hkind : Process.isRequest task.cmd = true
    · rw [if_pos hkind] at h
      split at h
      · cases h
      · rename_i i rest hready
        cases h
        rw [hready, hkind]
        rfl
    · rw [if_neg hkind] at h
      rw [eq_false_of_ne_true hkind, Bool.and_false]
      repeat' split at h
      all_goals cases h
      all_goals rfl
  | send i =>
    rw [hpc] at h
    cases h
    rfl
  | done =>
    rw [hpc] at h
    cases h

/-- What a step does to the ready queue. -/
theorem readyRegisters_step (h : s.step N R selfIdent a = some s') :
    s'.readyRegisters = match a with
      | .announce i => s.readyRegisters ++ [i]
      | .client t => if s.pcs t = .owner then s.readyRegisters.tail else s.readyRegisters
      | .system j => if s.asksReady j then s.readyRegisters.tail else s.readyRegisters
      | .crash => []
      | _ => s.readyRegisters := by
  rcases run_or_restart h with hrun | ⟨rfl, hrestart⟩
  swap
  · unfold Process.restart at hrestart
    split at hrestart
    · cases hrestart
      rfl
    · cases hrestart
  cases a with
  | client t => exact readyRegisters_clientStep hrun
  | system j => exact readyRegisters_systemStep hrun
  | submit _ | reject _ | dispatch | receive _ _ | call _ | finish _ _ =>
    exact (queues_of_run hrun).1
  | arrive _ _ => exact queues_of_run hrun
  | announce i =>
    simp only [Process.run] at hrun
    split at hrun
    · obtain ⟨bank, -, rfl⟩ := Option.map_eq_some_iff.mp hrun
      rfl
    · cases hrun
  | restart => cases hrun
  | crash =>
    cases hrun
    rfl

theorem Tokens.record_process (q : Tokens) (a : Action) (process : Process) :
    (q.record a process).process = process := by
  cases a with
  | client t =>
    unfold record
    dsimp only
    split <;> rfl
  | _ => rfl

/-- Every run of the process has its history. -/
theorem exists_tokens
    (hs : Reachable (Process.step N R selfIdent) (fun _ _ => True) (.init N selfIdent) s) :
    ∃ q, Reachable (Tokens.step N R selfIdent) (fun _ _ => True) (.init N selfIdent) q ∧
      q.process = s := by
  induction hs with
  | init => exact ⟨.init N selfIdent, .init, rfl⟩
  | @step s s' a _ _ hstep ih =>
    obtain ⟨q, hq, rfl⟩ := ih
    have hnext : q.step N R selfIdent a = some (q.record a s') := by
      rw [Tokens.step, hstep, Option.map_some]
    exact ⟨_, hq.step trivial hnext, q.record_process a s'⟩

/-! ## The invariant -/

/-- **Provenance.** An index in the queue was announced after the last command of its thread,
or else a client command has received an index of the register since. -/
structure Provenance (q : Tokens) : Prop where
  queue : q.ready.map Prod.fst = q.process.readyRegisters
  ready : ∀ x ∈ q.ready, x.2 = q.latest x.1 ∨ x ∈ q.received
  underway : ∀ i t, q.process.grants i t ∨ t ∈ q.process.mail i →
    (i, q.latest i) ∈ q.received
  inHand : ∀ i t, q.process.bank.inHand i = some t → q.latest i = some t

/-- If no client command is in progress, all registers are free. -/
theorem free_of_allAnswered (hocc : Occupied N selfIdent s) (hplaced : Placed s)
    (h : s.AllAnswered) (i : ℕ) : s.Free i := by
  have hhanded : ∀ t, ¬(t ∈ s.mail i ∨ s.bank.inHand i = some t) := by
    intro t ht
    have hpc := hplaced.handed i t ht
    have hlt : t < s.calls.length := by
      by_contra hge
      rw [hocc.lost t (Nat.le_of_not_lt hge)] at hpc
      cases hpc
    obtain ⟨f, hf, rfl⟩ := List.mem_map.mp (h t hlt (by rw [hpc, ClientPc.taken]))
    obtain ⟨hmail, hhand⟩ := (hplaced.fired f hf).2.2 i
    exact ht.elim hmail hhand
  refine ⟨fun t ht hgrant => ?_, fun msg hmsg => ?_, ?_⟩
  · have htaken : (s.pcs t).taken = true := by
      cases hpc : s.pcs t with
      | index j | entered j => rfl
      | _ =>
        rw [hpc] at hgrant
        cases hgrant
    obtain ⟨f, hf, rfl⟩ := List.mem_map.mp (h t ht htaken)
    rcases (hplaced.fired f hf).2.1 with ⟨j, hpc⟩ | hpc
    all_goals
      rw [hpc] at hgrant
      cases hgrant
  · rw [← Option.not_isSome_iff_eq_none]
    intro hsome
    obtain ⟨t, ht⟩ := Option.isSome_iff_exists.mp hsome
    exact hhanded t (.inl (List.mem_filterMap.mpr ⟨msg, hmsg, ht⟩))
  · rw [← Option.not_isSome_iff_eq_none]
    intro hsome
    obtain ⟨t, ht⟩ := Option.isSome_iff_exists.mp hsome
    exact hhanded t (.inr ht)

/-- **The register is free** whose index a client command receives. -/
theorem Provenance.takesFree (h : Provenance q) (hocc : Occupied N selfIdent q.process)
    (hplaced : Placed q.process) (htakes : q.TakesReady a) : q.process.TakesFree a := by
  intro x hx
  cases a with
  | client t =>
    unfold Process.takes at hx
    dsimp only at hx
    split at hx
    swap
    · cases hx
    rename_i hpc
    obtain ⟨i, hi, rfl⟩ := Option.map_eq_some_iff.mp hx
    -- the index was announced after the last command of its thread
    obtain ⟨y, hy, rfl⟩ : ∃ y, q.ready.head? = some y ∧ y.1 = i := by
      rw [← h.queue, List.head?_map] at hi
      exact Option.map_eq_some_iff.mp hi
    have htaken : q.takes (.client t) = some y := (if_pos hpc).trans hy
    rcases htakes y htaken with ⟨hanswered, hfirst⟩ | hall
    swap
    · exact free_of_allAnswered hocc hplaced hall y.1
    have hlatest : y.2 = q.latest y.1 :=
      (h.ready y (List.mem_of_mem_head? hy)).resolve_right hfirst
    have hnone : ∀ u, ¬(q.process.grants y.1 u ∨ u ∈ q.process.mail y.1) := by
      intro u hu
      have hreceived := h.underway y.1 u hu
      rw [← hlatest] at hreceived
      exact hfirst hreceived
    refine ⟨fun u _ hu => hnone u (.inl hu), fun msg hmsg => ?_, ?_⟩
    · rw [← Option.not_isSome_iff_eq_none]
      intro hsome
      obtain ⟨u, hu⟩ := Option.isSome_iff_exists.mp hsome
      exact hnone u (.inr (List.mem_filterMap.mpr ⟨msg, hmsg, hu⟩))
    · rw [← Option.not_isSome_iff_eq_none]
      intro hsome
      -- the command in hand would be the last one, which has been answered
      obtain ⟨u, hu⟩ := Option.isSome_iff_exists.mp hsome
      obtain ⟨f, hf, hfu⟩ := List.mem_map.mp (hanswered u (hlatest.trans (h.inHand y.1 u hu)))
      exact ((hplaced.fired f hf).2.2 y.1).2 (hfu ▸ hu)
  | _ => cases hx

theorem provenance_init : Provenance (.init N selfIdent) := by
  refine ⟨rfl, fun x hx => ?_, fun i t ht => ?_, fun i t ht => ?_⟩
  · cases hx
  · rcases ht with ht | ht <;> cases ht
  · cases ht

/-- Steps in which no client command takes or uses an index, and no thread takes a message. -/
theorem Provenance.frame {q' : Tokens} (h : Provenance q)
    (hqueue : q'.ready.map Prod.fst = q'.process.readyRegisters)
    (hready : ∀ x ∈ q'.ready, x ∈ q.ready ∨ x.2 = q.latest x.1)
    (hlatest : q'.latest = q.latest) (hreceived : q.received ⊆ q'.received)
    (hunderway : ∀ i t, q'.process.grants i t ∨ t ∈ q'.process.mail i →
      ∃ u, q.process.grants i u ∨ u ∈ q.process.mail i)
    (hhand : ∀ i t, q'.process.bank.inHand i = some t → q.process.bank.inHand i = some t) :
    Provenance q' := by
  refine ⟨hqueue, fun x hx => ?_, fun i t ht => ?_, fun i t ht => ?_⟩
  · rw [hlatest]
    rcases hready x hx with hx | hx
    · exact (h.ready x hx).imp_right fun hmem => hreceived hmem
    · exact .inl hx
  · obtain ⟨u, hu⟩ := hunderway i t ht
    rw [hlatest]
    exact hreceived (h.underway i u hu)
  · rw [hlatest]
    exact h.inHand i t (hhand i t ht)

/-- The queue and its history go together. -/
theorem Provenance.queue_step (h : Provenance q) (hstep : q.process.step N R selfIdent a = some s') :
    (q.record a s').ready.map Prod.fst = s'.readyRegisters := by
  rw [readyRegisters_step hstep]
  cases a with
  | announce i => simp only [Tokens.record, List.map_append, h.queue, List.map_cons, List.map_nil]
  | client t =>
    unfold Tokens.record
    dsimp only
    split
    · rw [← h.queue]
      exact List.map_tail
    · exact h.queue
  | system j =>
    unfold Tokens.record
    dsimp only
    split
    · rw [← h.queue]
      exact List.map_tail
    · exact h.queue
  | crash => rfl
  | _ => exact h.queue

/-- Only a thread that takes a message, and a crash, change what the history says of a register. -/
theorem Tokens.record_keeps (q : Tokens) (process : Process) (hreceive : ∀ i iter, a ≠ .receive i iter)
    (hcrash : a ≠ .crash) :
    (q.record a process).latest = q.latest ∧ q.received ⊆ (q.record a process).received ∧
      ∀ x ∈ (q.record a process).ready, x ∈ q.ready ∨ x.2 = q.latest x.1 := by
  cases a with
  | receive i iter => exact absurd rfl (hreceive i iter)
  | crash => exact absurd rfl hcrash
  | announce i =>
    refine ⟨rfl, List.Subset.refl _, fun x hx => ?_⟩
    rcases List.mem_append.mp hx with hx | hx
    · exact .inl hx
    · rw [List.mem_singleton.mp hx]
      exact .inr rfl
  | client t =>
    unfold record
    dsimp only
    split
    · exact ⟨rfl, List.subset_append_left .., fun x hx => .inl (List.mem_of_mem_tail hx)⟩
    · exact ⟨rfl, List.Subset.refl _, fun x hx => .inl hx⟩
  | system j =>
    refine ⟨rfl, List.Subset.refl _, fun x hx => .inl ?_⟩
    unfold record at hx
    dsimp only at hx
    split at hx
    · exact List.mem_of_mem_tail hx
    · exact hx
  | _ => exact ⟨rfl, List.Subset.refl _, fun x hx => .inl hx⟩

/-- A thread takes a message. -/
theorem Provenance.receive (h : Provenance q) (hocc : Occupied N selfIdent q.process) {i : ℕ}
    {iter : IterOrder} {bank : Bank} (hrec : q.process.bank.receive i iter = some bank) :
    Provenance (q.record (.receive i iter) { q.process with bank }) := by
  obtain ⟨msg, mailbox, hr⟩ := hocc.reception hrec
  have hhead : (q.process.bank.mailboxes i).head? = some msg := by
    rw [hr.receives.first]
    rfl
  have hmail : ∀ k t, t ∈ ({ q.process with bank } : Process).mail k → t ∈ q.process.mail k := by
    intro k t ht
    by_cases hk : k = i
    · subst hk
      unfold Process.mail at ht ⊢
      rw [hr.receives.mailbox] at ht
      rw [hr.receives.first, List.filterMap_cons]
      split
      · exact ht
      · exact List.mem_cons_of_mem _ ht
    · rw [mail_congr (hr.receives.others k hk).mailboxes] at ht
      exact ht
  cases msg with
  | system cmd o =>
    have hlatest : (q.record (.receive i iter) { q.process with bank }).latest = q.latest := by
      simp only [Tokens.record, hhead]
    refine h.frame h.queue (fun x hx => .inl hx) hlatest (List.Subset.refl _)
      (fun k t ht => ⟨t, ht.imp_right (hmail k t)⟩) fun k t ht => ?_
    by_cases hk : k = i
    · subst hk
      exact hr.handAfter.symm.trans ht
    · rw [← (hr.receives.others k hk).inHand]
      exact ht
  | client cmd t =>
    have hlatest : (q.record (.receive i iter) { q.process with bank }).latest =
        Function.update q.latest i (some t) := by
      simp only [Tokens.record, hhead]
    -- the command was on its way, and no other is
    have hmailed : t ∈ q.process.mail i := by
      unfold Process.mail
      rw [hr.receives.first]
      exact List.mem_cons_self
    have hused := h.underway i t (.inr hmailed)
    obtain ⟨hgrants, hnil, -⟩ := hr.client cmd t rfl
    refine ⟨h.queue, fun x hx => ?_, fun k u hu => ?_, fun k u hu => ?_⟩
    · rw [hlatest]
      by_cases hk : x.1 = i
      · -- indices announced before are stale now
        rcases h.ready x hx with hx | hx
        · have hxi : x = (i, q.latest i) := Prod.ext hk (hk ▸ hx)
          exact .inr (hxi ▸ hused)
        · exact .inr hx
      · rw [Function.update_of_ne hk]
        exact h.ready x hx
    · rw [hlatest]
      by_cases hk : k = i
      · subst hk
        rcases hu with hu | hu
        · exact absurd hu (hgrants u)
        · change u ∈ (bank.mailboxes k).filterMap WorkerMessage.callback? at hu
          rw [hr.receives.mailbox, hnil] at hu
          cases hu
      · rw [Function.update_of_ne hk]
        exact h.underway k u (hu.imp_right (hmail k u))
    · rw [hlatest]
      by_cases hk : k = i
      · subst hk
        rw [Function.update_self]
        exact hr.handAfter.symm.trans hu
      · rw [Function.update_of_ne hk]
        apply h.inHand k u
        rw [← (hr.receives.others k hk).inHand]
        exact hu

/-- A client command receives an index. -/
theorem Provenance.take (h : Provenance q) {t : Callback} {i : ℕ} {readyRegisters : List ℕ}
    (hpc : q.process.pcs t = .owner)
    (hready : q.process.readyRegisters = i :: readyRegisters)
    (hqueue : (q.record (.client t)
      { q.process.move t (.index i) with readyRegisters }).ready.map Prod.fst = readyRegisters) :
    Provenance (q.record (.client t) { q.process.move t (.index i) with readyRegisters }) := by
  obtain ⟨y, hy, rfl⟩ : ∃ y, q.ready.head? = some y ∧ y.1 = i := by
    rw [← Option.map_eq_some_iff, ← List.head?_map, h.queue, hready]
    rfl
  have hrecord : q.record (.client t) { q.process.move t (.index y.1) with readyRegisters } =
      { q with
        process := { q.process.move t (.index y.1) with readyRegisters }
        ready := q.ready.tail
        received := q.received ++ [(y.1, q.latest y.1)] } := by
    unfold Tokens.record
    dsimp only
    rw [if_pos hpc, hy]
    rfl
  rw [hrecord] at hqueue ⊢
  refine ⟨hqueue, fun x hx => ?_, fun k u hu => ?_, h.inHand⟩
  · exact (h.ready x (List.mem_of_mem_tail hx)).imp_right (List.mem_append_left _)
  · by_cases hut : u = t ∧ k = y.1
    · -- the index is the one that has been received now
      rw [hut.2]
      exact List.mem_append_right _ (List.mem_singleton_self _)
    · apply List.mem_append_left
      apply h.underway k u
      refine hu.imp_left fun hgrants => ?_
      by_cases heq : u = t
      · subst heq
        rw [grants_move_self rfl, ClientPc.grant, Option.some.injEq] at hgrants
        exact absurd ⟨rfl, hgrants.symm⟩ hut
      · exact (grants_move_of_ne rfl heq).mp hgrants

/-- **Provenance, step by step.** -/
theorem Provenance.step {q' : Tokens} (h : Provenance q) (hocc : Occupied N selfIdent q.process)
    (hstep : q.step N R selfIdent a = some q') : Provenance q' := by
  obtain ⟨process, hprocess, rfl⟩ := Option.map_eq_some_iff.mp hstep
  have hqueue := h.queue_step hprocess
  by_cases hreceive : ∃ i iter, a = .receive i iter
  · obtain ⟨i, iter, rfl⟩ := hreceive
    obtain ⟨bank, -, hrec, rfl⟩ := receive_of_step hprocess
    exact h.receive hocc hrec
  by_cases hcrash : a = .crash
  · subst hcrash
    obtain rfl := crash_of_step hprocess
    refine ⟨rfl, fun x hx => ?_, fun i t ht => ?_, fun i t ht => ?_⟩
    · cases hx
    · rcases ht with ht | ht <;> cases ht
    · cases ht
  obtain ⟨hlatest, hreceived, hready⟩ :=
    q.record_keeps process (fun i iter ha => hreceive ⟨i, iter, ha⟩) hcrash
  have heq := q.record_process a process
  -- what is left moves no client command to a register
  have hframe : (∀ i t, process.grants i t ∨ t ∈ process.mail i →
        ∃ u, q.process.grants i u ∨ u ∈ q.process.mail i) →
      (∀ i t, process.bank.inHand i = some t → q.process.bank.inHand i = some t) →
      Provenance (q.record a process) := fun hunderway hhand =>
    h.frame (by rw [heq]; exact hqueue) hready hlatest hreceived (by rw [heq]; exact hunderway)
      (by rw [heq]; exact hhand)
  cases step_event hprocess with
  | shuffle _ hs =>
    refine hframe (fun i t ht => ⟨t, ?_⟩) fun i t ht => hs.bank ▸ ht
    refine ht.imp (fun hgrants => ?_) fun hmail => ?_
    · unfold Process.grants at hgrants ⊢
      exact hs.grant t ▸ hgrants
    · unfold Process.mail at hmail ⊢
      exact hs.bank ▸ hmail
  | submit _ | dispatch _ _ =>
    refine hframe (fun i t ht => ⟨t, ht.imp_left fun hgrants => ?_⟩) fun i t ht => ht
    have hlost : ¬ ClientPc.ticket.grant = some i := by
      intro h
      cases h
    by_cases htn : t = q.process.calls.length
    · subst htn
      exact absurd ((grants_move_self rfl).mp hgrants) hlost
    · exact (grants_move_of_ne rfl htn).mp hgrants
  | take hcall hpc hready' => exact h.take hpc hready' hqueue
  | @hand t call i hcall hpc =>
    have hgrants : q.process.grants i t := by
      unfold Process.grants
      rw [hpc]
      rfl
    refine hframe (fun k u hu => ?_) fun k u hu => hu
    by_cases hk : k = i
    · exact ⟨t, .inl (hk ▸ hgrants)⟩
    · refine ⟨u, hu.imp (fun hgrants' => ?_) fun hmail => ?_⟩
      · by_cases hut : u = t
        · subst hut
          have hnone := (grants_move_self rfl).mp hgrants'
          cases hnone
        · exact (grants_move_of_ne rfl hut).mp hgrants'
      · unfold Process.mail at hmail ⊢
        simp only [Bank.deliver, Function.update_of_ne hk] at hmail
        exact hmail
  | @deliver j i task _ _ =>
    refine hframe (fun k u hu => ⟨u, hu.imp_right fun hmail => ?_⟩) fun k u hu => hu
    have hsame : Process.mail { q.process.setSystem j task .done with
        bank := q.process.bank.deliver i (.system task.cmd task.origin) } k = q.process.mail k :=
      mail_deliver_system rfl k
    exact hsame ▸ hmail
  | announce _ hw =>
    refine hframe (fun k u hu => ⟨u, hu⟩) fun k u hu => ?_
    rw [← Bank.inHand_waiting hw k]
    exact hu
  | receive _ _ => exact absurd ⟨_, _, rfl⟩ hreceive
  | @call i bank finishing _ hcall =>
    have hacts := Bank.call_cases hcall (hocc.register i).steady
    obtain ⟨-, hdeed⟩ := (hocc.register i).call hacts
    refine hframe (fun k u hu => ⟨u, hu.imp_right fun hmail => ?_⟩) fun k u hu => ?_
    · unfold Process.mail at hmail ⊢
      exact hacts.mailboxes ▸ hmail
    · by_cases hk : k = i
      · subst hk
        rcases hdeed.hand with hsame | ⟨hnone, -⟩
        · exact hsame ▸ hu
        · rw [show bank.inHand k = none from hnone] at hu
          cases hu
      · rw [← (hacts.others k hk).inHand]
        exact hu
  | crash => exact absurd rfl hcrash
  | restart hrestart =>
    have hr := hocc.restarted hrestart
    refine hframe (fun k u hu => ?_) fun k u hu => ?_
    · rcases hu with hgrants | hmail
      · unfold Process.grants at hgrants
        rw [hr.pcs] at hgrants
        cases hgrants
      · unfold Process.mail at hmail
        rw [hr.mailboxes] at hmail
        cases hmail
    · rw [hr.inHand] at hu
      cases hu

end Executor
end AtomicDiscDrive
