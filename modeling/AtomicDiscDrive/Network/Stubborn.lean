import AtomicDiscDrive.Network.Cluster

/-!
# Stubborn delivery

The register protocol relies on stubborn links: the command of the current phase of an
operation is sent again and again until it arrives. Here it is sent again only if one of its
writes failed, and a write to a connection that is about to break does not fail
(`phase_is_lost`). What has failed once is kept until its operation is over
(`Unsent.client`), so breaks do harm only to broadcasts none of whose sends have failed: as
long as none of these is under way when a connection breaks, every command of a current
phase is on its way to every process that has not processed it, or is kept to be replayed
(`phase_is_stubborn`).
-/

namespace AtomicDiscDrive
namespace Network

open Utils

namespace Client

/-- The call `k` is the last broadcast of an operation in progress. -/
structure Phase (s : Client) (k : ℕ) (task : Task) : Prop where
  call : s.tasks[k]? = some task
  own : task.addressee = none
  unfinished : task.operation ∉ s.finished
  last : ∀ (j : ℕ) (t : Task), k < j → s.tasks[j]? = some t → t.addressee = none →
    t.operation ≠ task.operation

theorem currentPhase_iff {s : Client} {k : ℕ} :
    s.currentPhase k = true ↔ ∃ task, s.Phase k task := by
  unfold currentPhase
  constructor
  · intro h
    cases hk : s.tasks[k]? with
    | none =>
      rw [hk] at h
      cases h
    | some task =>
      rw [hk] at h
      simp only [Bool.and_eq_true, beq_iff_eq, Bool.not_eq_true', List.all_eq_true,
        Bool.or_eq_true, bne_iff_ne] at h
      obtain ⟨⟨hown, hunfinished⟩, hlast⟩ := h
      refine ⟨task, hk, hown, ?_, fun j t hj ht hto => ?_⟩
      · intro hf
        rw [List.contains_iff_mem.mpr hf] at hunfinished
        cases hunfinished
      · have hmem : t ∈ s.tasks.drop (k + 1) := by
          apply List.mem_of_getElem?
          rw [List.getElem?_drop, show k + 1 + (j - (k + 1)) = j by omega]
          exact ht
        rcases hlast t hmem with hne | hne
        · exact absurd hto hne
        · exact hne
  · rintro ⟨task, hk, hown, hunfinished, hlast⟩
    rw [hk]
    simp only [Bool.and_eq_true, beq_iff_eq, Bool.not_eq_true', List.all_eq_true,
      Bool.or_eq_true, bne_iff_ne]
    refine ⟨⟨hown, by simpa using hunfinished⟩, fun t ht => ?_⟩
    obtain ⟨j, hj⟩ := List.getElem?_of_mem ht
    rw [List.getElem?_drop] at hj
    by_cases hto : t.addressee = none
    · exact Or.inr (hlast (k + 1 + j) t (by omega) hj hto)
    · exact Or.inl hto

/-- The process `q` has had its turn in the call `k`, the last broadcast of an operation in
progress. -/
def SentInPhase (s : Client) (k : ℕ) (cmd : SystemRegisterCommand) (q : ℕ) : Prop :=
  ∃ task, s.Phase k task ∧ task.cmd = cmd ∧ q ∉ task.targets

variable {N self : ℕ} {ident : Operation → Uuid} {s s' : Client} {a : Action}

/-! ## Phases before and after a step -/

theorem Phase.of_append {new : Task} {k : ℕ} {task : Task}
    (h : Phase { s with tasks := s.tasks ++ [new] } k task) (hk : k < s.tasks.length) :
    s.Phase k task := by
  have hcall := h.call
  rw [show ({ s with tasks := s.tasks ++ [new] } : Client).tasks[k]? = s.tasks[k]? from
    List.getElem?_append_left hk] at hcall
  refine ⟨hcall, h.own, h.unfinished, fun j t hj ht => h.last j t hj ?_⟩
  have hlt : j < s.tasks.length := (List.getElem?_eq_some_iff.mp ht).1
  exact (List.getElem?_append_left hlt).trans ht

/-- After a call has gone on, phases are as before; only its own targets are fewer. -/
theorem Phase.of_set {j k : ℕ} {task task' t' : Task} (h : s'.Phase k t')
    (hj : s.tasks[j]? = some task) (htasks : s'.tasks = s.tasks.set j task')
    (hop : task'.operation = task.operation) (hto : task'.addressee = task.addressee)
    (hfinished : s'.finished = s.finished) :
    k ≠ j ∧ s.Phase k t' ∨ k = j ∧ t' = task' ∧ s.Phase k task := by
  have hlen : j < s.tasks.length := (List.getElem?_eq_some_iff.mp hj).1
  obtain ⟨hcall, hown, hunfinished, hlast⟩ := h
  rw [hfinished] at hunfinished
  -- a later broadcast of the operation would still be one
  have hlast' : ∀ (i : ℕ) (t : Task), k < i → s.tasks[i]? = some t → t.addressee = none →
      t.operation ≠ t'.operation := by
    intro i t hi ht htnone
    by_cases hij : j = i
    · subst hij
      rw [hj, Option.some.injEq] at ht
      subst ht
      rw [← hop]
      apply hlast j task' hi
      · rw [htasks, List.getElem?_set_self hlen]
      · rw [hto, htnone]
    · apply hlast i t hi _ htnone
      rw [htasks, List.getElem?_set_ne hij, ht]
  by_cases hkj : j = k
  · subst hkj
    rw [htasks, List.getElem?_set_self hlen, Option.some.injEq] at hcall
    subst hcall
    refine Or.inr ⟨rfl, rfl, hj, hto ▸ hown, hop ▸ hunfinished, ?_⟩
    rw [← hop]
    exact hlast'
  · rw [htasks, List.getElem?_set_ne hkj] at hcall
    exact Or.inl ⟨fun h => hkj h.symm, hcall, hown, hunfinished, hlast'⟩

theorem SentInPhase.of_append {new : Task} {k q : ℕ} {cmd : SystemRegisterCommand}
    (h : SentInPhase { s with tasks := s.tasks ++ [new] } k cmd q)
    (hnew : new.addressee = none → q ∈ new.targets) : s.SentInPhase k cmd q := by
  obtain ⟨task, hphase, hcmd, hq⟩ := h
  by_cases hk : k < s.tasks.length
  · exact ⟨task, hphase.of_append hk, hcmd, hq⟩
  · -- the broadcast that begins has not sent anything
    exfalso
    have hcall := hphase.call
    have hlt := (List.getElem?_eq_some_iff.mp hcall).1
    rw [show ({ s with tasks := s.tasks ++ [new] } : Client).tasks.length = s.tasks.length + 1 from
      List.length_append] at hlt
    have hlen : k = s.tasks.length := by omega
    rw [show ({ s with tasks := s.tasks ++ [new] } : Client).tasks[k]? = _ from
      List.getElem?_append_right (by omega), hlen, Nat.sub_self] at hcall
    have heq : new = task := by simpa using hcall
    subst heq
    exact hq (hnew hphase.own)

/-- The calls are as before, and no operation is taken up again. -/
theorem Phase.of_same {k : ℕ} {task : Task} (h : s'.Phase k task) (htasks : s'.tasks = s.tasks)
    (hfinished : ∀ o ∈ s.finished, o ∈ s'.finished) : s.Phase k task := by
  obtain ⟨hcall, hown, hunfinished, hlast⟩ := h
  rw [htasks] at hcall hlast
  exact ⟨hcall, hown, fun hf => hunfinished (hfinished _ hf), hlast⟩

theorem SentInPhase.of_same {k q : ℕ} {cmd : SystemRegisterCommand} (h : s'.SentInPhase k cmd q)
    (htasks : s'.tasks = s.tasks) (hfinished : ∀ o ∈ s.finished, o ∈ s'.finished) :
    s.SentInPhase k cmd q := by
  obtain ⟨task, hphase, hcmd, hq⟩ := h
  exact ⟨task, hphase.of_same htasks hfinished, hcmd, hq⟩

/-- No call that has been made before gets into a phase by a step. -/
theorem Event.phase_back (h : Event N self ident s a s') {k : ℕ} {task' : Task}
    (hphase : s'.Phase k task') (hk : k < s.tasks.length) :
    ∃ task, s.Phase k task ∧ task'.cmd = task.cmd := by
  cases h with
  | send hident => exact ⟨task', hphase.of_append hk, rfl⟩
  | broadcast hident hself hdone => exact ⟨task', hphase.of_append hk, rfl⟩
  | toSelf hj htargets hpc =>
    rcases hphase.of_set hj rfl rfl rfl rfl with ⟨-, hold⟩ | ⟨-, rfl, hold⟩
    · exact ⟨task', hold, rfl⟩
    · exact ⟨_, hold, rfl⟩
  | sent hj htargets hpc hself hfree hstream =>
    rcases hphase.of_set hj rfl rfl rfl rfl with ⟨-, hold⟩ | ⟨-, rfl, hold⟩
    · exact ⟨task', hold, rfl⟩
    · exact ⟨_, hold, rfl⟩
  | failed hj htargets hpc hself hfree hstream =>
    rcases hphase.of_set hj rfl rfl rfl rfl with ⟨-, hold⟩ | ⟨-, rfl, hold⟩
    · exact ⟨task', hold, rfl⟩
    · exact ⟨_, hold, rfl⟩
  | added hj htargets hpc hfree =>
    rcases hphase.of_set hj rfl rfl rfl rfl with ⟨-, hold⟩ | ⟨-, rfl, hold⟩
    · exact ⟨task', hold, rfl⟩
    · exact ⟨_, hold, rfl⟩
  | finish => exact ⟨task', hphase.of_same rfl fun o ho => List.mem_append_left _ ho, rfl⟩
  | _ => exact ⟨task', hphase.of_same rfl fun o ho => ho, rfl⟩

/-- A call that could not send its command has it kept. -/
theorem Event.putAway (h : Event N self ident s a s') {k : ℕ} {task : Task}
    (hput : s.putAway a = some (k, task)) :
    s.tasks[k]? = some task ∧ s'.Holds k task.cmd := by
  cases h with
  | toSelf hk htargets hpc =>
    rw [putAway_ready hk hpc] at hput
    cases hput
  | sent hk htargets hpc hself hfree hstream =>
    rw [putAway_ready hk hpc] at hput
    cases hput
  | failed hk htargets hpc hself hfree hstream =>
    rw [putAway_ready hk hpc] at hput
    cases hput
  | added hk htargets hpc hfree =>
    rw [putAway_failed hk hpc] at hput
    cases hput
    exact ⟨hk, _, List.mem_append_right _ (List.mem_singleton_self _), rfl, rfl⟩
  | _ => cases hput

theorem Event.length_le (h : Event N self ident s a s') :
    s.tasks.length ≤ s'.tasks.length := by
  rcases Nat.eq_zero_or_pos s.tasks.length with hzero | hpos
  · omega
  · obtain ⟨task, htask⟩ : ∃ task, s.tasks[s.tasks.length - 1]? = some task :=
      ⟨_, List.getElem?_eq_getElem (by omega)⟩
    obtain ⟨task', htask', -⟩ := h.extends _ task htask
    have := (List.getElem?_eq_some_iff.mp htask').1
    omega

/-- A call has gone on to the next process: if it is not for `q` that it did, `q` had its
turn before. -/
theorem SentInPhase.of_proceed {j k q target : ℕ} {cmd : SystemRegisterCommand} {task : Task}
    {rest : List ℕ} (h : s'.SentInPhase k cmd q) (hj : s.tasks[j]? = some task)
    (htargets : task.targets = target :: rest)
    (htasks : s'.tasks = (s.proceed j task).tasks) (hfinished : s'.finished = s.finished) :
    s.SentInPhase k cmd q ∨ k = j ∧ q = target ∧ task.cmd = cmd ∧ s.Phase k task := by
  obtain ⟨t', hphase, hcmd, hq⟩ := h
  rcases hphase.of_set hj htasks rfl rfl hfinished with ⟨-, hold⟩ | ⟨hkj, rfl, hold⟩
  · exact Or.inl ⟨t', hold, hcmd, hq⟩
  · by_cases hqt : q = target
    · exact Or.inr ⟨hkj, hqt, hcmd, hold⟩
    · left
      refine ⟨task, hold, hcmd, ?_⟩
      rw [htargets, List.mem_cons]
      rintro (h | h)
      · exact hqt h
      · apply hq
        rw [show _ = rest from congrArg List.tail htargets]
        exact h

/-- What a step can add: a process has its turn because the command is written to its
stream, or because it is kept. -/
theorem Event.sentInPhase (h : Event N self ident s a s') {k q : ℕ} {cmd : SystemRegisterCommand}
    (hq : 1 ≤ q) (hqN : q ≤ N) (hqself : q ≠ self) (hsent : s'.SentInPhase k cmd q) :
    s.SentInPhase k cmd q ∨ s'.Holds k cmd ∨
      (a = .call k true ∧ s.currentPhase k = true ∧ ∃ task connection stamp,
        s.tasks[k]? = some task ∧ task.cmd = cmd ∧ s.nextConnection k = some connection ∧
        s'.pendingCmds = s.pendingCmds ∧
        s'.written = s.written ++ [⟨q, connection, copyOf task k stamp⟩]) := by
  cases h with
  | send hident => exact Or.inl (hsent.of_append (fun hto => by cases hto))
  | broadcast hident hself hdone =>
    exact Or.inl (hsent.of_append (fun _ => List.mem_range'_1.mpr ⟨hq, by omega⟩))
  | toSelf hk htargets hpc =>
    rcases hsent.of_proceed hk htargets rfl rfl with hold | ⟨-, hqt, -⟩
    · exact Or.inl hold
    · exact absurd hqt hqself
  | sent hk htargets hpc hself hfree hstream =>
    rcases hsent.of_proceed hk htargets rfl rfl with hold | ⟨rfl, rfl, hcmd, hphase⟩
    · exact Or.inl hold
    · refine Or.inr (Or.inr ⟨rfl, currentPhase_iff.mpr ⟨_, hphase⟩, _, _, _, hk, hcmd, ?_, rfl, rfl⟩)
      rw [nextConnection, hk, Option.bind_some, htargets, List.head?_cons, Option.bind_some,
        hstream]
  | failed hk htargets hpc hself hfree hstream =>
    obtain ⟨t', hphase, hcmd, hq'⟩ := hsent
    rcases hphase.of_set hk rfl rfl rfl rfl with ⟨-, hold⟩ | ⟨-, rfl, hold⟩
    · exact Or.inl ⟨t', hold, hcmd, hq'⟩
    · exact Or.inl ⟨_, hold, hcmd, hq'⟩
  | added hk htargets hpc hfree =>
    rcases hsent.of_proceed hk htargets rfl rfl with hold | ⟨rfl, -, hcmd, -⟩
    · exact Or.inl hold
    · exact Or.inr (Or.inl ⟨_, List.mem_append_right _ (List.mem_singleton_self _), rfl, hcmd⟩)
  | finish => exact Or.inl (hsent.of_same rfl fun o ho => List.mem_append_left _ ho)
  | _ => exact Or.inl (hsent.of_same rfl fun o ho => ho)

/-- The operation an action is about. -/
def operationOf : Action → Option Operation
  | .send o _ => some o
  | .broadcast o _ => some o
  | .finish o => some o
  | .remove o => some o
  | _ => none

/-- The operations that clients have asked for are among `ops`. -/
structure Within (ops : Set Operation) (s : Client) : Prop where
  tasks : ∀ task ∈ s.tasks, task.operation ∈ ops
  finished : ∀ o ∈ s.finished, o ∈ ops

variable {ops : Set Operation}

theorem Within.set (h : Within ops s) {j : ℕ} {task task' : Task} (hj : s.tasks[j]? = some task)
    (hop : task'.operation = task.operation) :
    ∀ t ∈ s.tasks.set j task', t.operation ∈ ops := by
  intro t ht
  rcases List.mem_or_eq_of_mem_set ht with ht | rfl
  · exact h.tasks t ht
  · rw [hop]
    exact h.tasks task (List.mem_of_getElem? hj)

theorem Within.append (h : Within ops s) {new : Task} (hnew : new.operation ∈ ops) :
    ∀ t ∈ s.tasks ++ [new], t.operation ∈ ops := by
  intro t ht
  rcases List.mem_append.mp ht with ht | ht
  · exact h.tasks t ht
  · rw [List.mem_singleton.mp ht]
    exact hnew

theorem Event.within (h : Event N self ident s a s') (hwithin : Within ops s)
    (ha : ∀ o ∈ operationOf a, o ∈ ops) : Within ops s' := by
  cases h with
  | send hident => exact ⟨hwithin.append (ha _ rfl), hwithin.finished⟩
  | broadcast hident hself hdone => exact ⟨hwithin.append (ha _ rfl), hwithin.finished⟩
  | toSelf hk htargets hpc => exact ⟨hwithin.set hk rfl, hwithin.finished⟩
  | sent hk htargets hpc hself hfree hstream => exact ⟨hwithin.set hk rfl, hwithin.finished⟩
  | failed hk htargets hpc hself hfree hstream => exact ⟨hwithin.set hk rfl, hwithin.finished⟩
  | added hk htargets hpc hfree => exact ⟨hwithin.set hk rfl, hwithin.finished⟩
  | finish =>
    refine ⟨hwithin.tasks, fun o ho => ?_⟩
    rcases List.mem_append.mp ho with ho | ho
    · exact hwithin.finished o ho
    · exact List.mem_singleton.mp ho ▸ ha _ rfl
  | _ => exact ⟨hwithin.tasks, hwithin.finished⟩

/-- What is kept for a phase stays while the operation is in progress: only commands of the
same operation have its identifier. -/
theorem Event.holds (h : Event N self ident s a s') (hsound : Sound self ident s)
    (hwithin : Within ops s) (hident : Set.InjOn ident ops) {k : ℕ} {task : Task} (hphase : s.Phase k task)
    (hholds : s.Holds k task.cmd) : s'.Holds k task.cmd := by
  have hmem : task ∈ s.tasks := List.mem_of_getElem? hphase.call
  have hown : task.operation.process = self := hsound.calls.own task hmem hphase.own
  have htask : task.cmd.header.msgIdent = ident task.operation := hsound.calls.ident task hmem
  obtain ⟨c, hc, hcall, hcmd⟩ := hholds
  cases h with
  | @added j target stamp ok t rest hj htargets hpc hfree =>
    have ht : t ∈ s.tasks := List.mem_of_getElem? hj
    by_cases hsame : c.cmd.header.msgIdent = t.cmd.header.msgIdent
    · -- a command of the same operation comes in its place: from the same broadcast
      have hop : task.operation = t.operation := by
        apply hident (hwithin.tasks task hmem) (hwithin.tasks t ht)
        rw [← htask, ← hsound.calls.ident t ht, ← hsame, hcmd]
      have hto : t.addressee = none := by
        cases hto : t.addressee with
        | none => rfl
        | some b =>
          obtain ⟨hb, hall⟩ := hsound.calls.answer t ht b hto
          obtain ⟨-, u, hu, hne⟩ := hsound.calls.failed t ht stamp hpc
          have hub : u = b := hall u (List.mem_of_mem_head? (by rw [hu]; rfl))
          exact absurd (hub.trans (hb.symm.trans (hop ▸ hown))) hne
      have hjk : j = k := by
        rcases Nat.lt_trichotomy j k with hlt | heq | hgt
        · have := hsound.calls.sequential j k t task hlt hj hphase.call hto hphase.own hop.symm
          rw [this] at htargets
          cases htargets
        · exact heq
        · exact absurd hop.symm (hphase.last j t hgt hj hto)
      subst hjk
      rw [hphase.call, Option.some.injEq] at hj
      subst hj
      exact ⟨_, List.mem_append_right _ (List.mem_singleton_self _), rfl, rfl⟩
    · exact ⟨c, List.mem_append_left _ (List.mem_filter.mpr ⟨hc, bne_iff_ne.mpr hsame⟩), hcall, hcmd⟩
  | @remove o hfinished hself hfree =>
    refine ⟨c, List.mem_filter.mpr ⟨hc, bne_iff_ne.mpr ?_⟩, hcall, hcmd⟩
    rw [hcmd, htask]
    intro heq
    have hop : task.operation = o :=
      hident (hwithin.tasks task hmem) (hwithin.finished o hfinished) heq
    exact hphase.unfinished (hop ▸ hfinished)
  | _ => exact ⟨c, hc, hcall, hcmd⟩

/-! ## Connections in use -/

/-- The connection the monitor is about to mark as active. -/
def newConnection : Monitor → Option ℕ
  | .visiting _ => none
  | .connected _ c => some c
  | .replaying _ c _ _ => some c

/-- Only connections that have been made are in use. -/
structure InUse (s : Client) : Prop where
  streams : ∀ target c, s.streams target = some c → c < s.connections
  monitor : ∀ c ∈ newConnection s.monitor, c < s.connections

theorem inUse_init : InUse init where
  streams := by simp [init]
  monitor := by simp [init, newConnection]

theorem InUse.update {target : ℕ} {connection : Option ℕ} (h : InUse s)
    (hnew : ∀ c ∈ connection, c < s.connections) :
    ∀ t c, Function.update s.streams target connection t = some c → c < s.connections := by
  intro t c hc
  by_cases ht : t = target
  · rw [ht, Function.update_self] at hc
    exact hnew c hc
  · rw [Function.update_of_ne ht] at hc
    exact h.streams t c hc

theorem Event.inUse (h : Event N self ident s a s') (huse : InUse s) : InUse s' := by
  have hnew := huse.monitor
  cases h with
  | failed hk htargets hpc hself hfree hstream =>
    exact ⟨huse.update (fun c hc => by cases hc), huse.monitor⟩
  | pass hmonitor => exact ⟨huse.streams, fun c hc => by cases hc⟩
  | connect hmonitor hself hfree hstream =>
    refine ⟨fun t c hc => Nat.lt_succ_of_lt (huse.streams t c hc), fun c hc => ?_⟩
    cases hc
    exact Nat.lt_succ_self _
  | replay hmonitor hperm =>
    rw [hmonitor] at hnew
    exact ⟨huse.streams, hnew⟩
  | replayed hmonitor =>
    rw [hmonitor] at hnew
    exact ⟨huse.streams, hnew⟩
  | unreplayed hmonitor =>
    rw [hmonitor] at hnew
    exact ⟨huse.streams, hnew⟩
  | dropped hmonitor => exact ⟨huse.streams, fun c hc => by cases hc⟩
  | marked hmonitor =>
    rw [hmonitor] at hnew
    exact ⟨huse.update hnew, fun c hc => by cases hc⟩
  | _ => exact ⟨huse.streams, huse.monitor⟩

theorem Event.connections_le (h : Event N self ident s a s') : s.connections ≤ s'.connections := by
  cases h with
  | connect hmonitor hself hfree hstream => exact Nat.le_succ _
  | _ => exact le_rfl

/-- What a step writes goes to connections in use. -/
theorem Event.written (h : Event N self ident s a s') :
    ∃ new, s'.written = s.written ++ new ∧ (InUse s → ∀ w ∈ new, w.connection < s.connections) := by
  cases h with
  | sent hk htargets hpc hself hfree hstream =>
    refine ⟨_, rfl, fun huse w hw => ?_⟩
    rw [List.mem_singleton.mp hw]
    exact huse.streams _ _ hstream
  | replayed hmonitor =>
    refine ⟨_, rfl, fun huse w hw => ?_⟩
    rw [List.mem_singleton.mp hw]
    exact huse.monitor _ (by rw [hmonitor]; rfl)
  | _ => exact ⟨[], (List.append_nil _).symm, fun _ w hw => by cases hw⟩

end Client

/-! ## Connections -/

namespace Cluster

theorem accept_broken (channels : ℕ → Channel) (w : Written) (c : ℕ) :
    (accept channels w c).broken = (channels c).broken := by
  unfold accept
  split
  · rfl
  · by_cases hc : c = w.connection
    · rw [hc, Function.update_self]
    · rw [Function.update_of_ne hc]

theorem mem_accept {channels : ℕ → Channel} {w x : Written} {c : ℕ}
    (hx : x ∈ (channels c).queue) : x ∈ (accept channels w c).queue := by
  unfold accept
  split
  · exact hx
  · by_cases hc : c = w.connection
    · subst hc
      rw [Function.update_self]
      exact List.mem_append_left _ hx
    · rw [Function.update_of_ne hc]
      exact hx

/-- A sound connection queues up what it accepts. -/
theorem mem_accept_self {channels : ℕ → Channel} {w : Written}
    (hw : (channels w.connection).broken = false) :
    w ∈ (accept channels w w.connection).queue := by
  rw [accept, if_neg (by rw [hw]; decide), Function.update_self]
  exact List.mem_append_right _ (List.mem_singleton_self _)

/-- Accepting breaks no connection and loses nothing. -/
theorem foldl_accept (new : List Written) (channels : ℕ → Channel) (c : ℕ) :
    (new.foldl accept channels c).broken = (channels c).broken ∧
      ∀ x ∈ (channels c).queue, x ∈ (new.foldl accept channels c).queue := by
  induction new generalizing channels with
  | nil => exact ⟨rfl, fun x hx => hx⟩
  | cons w new ih =>
    obtain ⟨hbroken, hmem⟩ := ih (accept channels w)
    exact ⟨hbroken.trans (accept_broken channels w c), fun x hx => hmem x (mem_accept hx)⟩

/-- Only connections in use are written to. -/
theorem foldl_accept_of_ne {c : ℕ} (new : List Written) (channels : ℕ → Channel)
    (hne : ∀ w ∈ new, w.connection ≠ c) : new.foldl accept channels c = channels c := by
  induction new generalizing channels with
  | nil => rfl
  | cons w new ih =>
    rw [List.foldl_cons, ih _ fun x hx => hne x (List.mem_cons_of_mem _ hx), accept]
    split
    · rfl
    · exact Function.update_of_ne (hne w List.mem_cons_self).symm _ _

/-! ## The invariant -/

variable {N : ℕ} {ident : Operation → Uuid} {ops : Set Operation} {s s' : Cluster}
  {a : ClusterAction}

/-- A command is on its way to `q`, has got there, or is kept. -/
def Cared (s : Cluster) (p q k : ℕ) (cmd : SystemRegisterCommand) : Prop :=
  s.Processed p q k cmd ∨ s.InTransit p q k cmd ∨ (s.clients p).Holds k cmd

/-- Every process that had its turn in a current phase is cared for. -/
def Stubborn (N : ℕ) (s : Cluster) : Prop :=
  ∀ p q k cmd, 1 ≤ q → q ≤ N → q ≠ p → (s.clients p).SentInPhase k cmd q → s.Cared p q k cmd

/-- While a broadcast is in its current phase, its command is kept from the first failed send
on. -/
def Unsent (s : Cluster) : Prop :=
  ∀ p k, (p, k) ∈ s.unsent → k < (s.clients p).tasks.length ∧
    ∀ task, (s.clients p).Phase k task → (s.clients p).Holds k task.cmd

theorem Unsent.client (h : Unsent s) {p : ℕ} {b : Action} {client : Client}
    (hevent : Client.Event N p ident (s.clients p) b client)
    (hsound : Client.Sound p ident (s.clients p)) (hwithin : Client.Within ops (s.clients p))
    (hident : Set.InjOn ident ops) (channels : ℕ → ℕ → Channel) :
    Unsent
      { s with
        clients := Function.update s.clients p client
        channels := channels
        unsent := s.unsent ++ ((s.clients p).putAway b).toList.map fun x => (p, x.1) } := by
  intro p' k hk
  rcases List.mem_append.mp hk with hk | hk
  · obtain ⟨hlt, hholds⟩ := h p' k hk
    by_cases hp : p' = p
    · subst hp
      simp only [Function.update_self]
      refine ⟨lt_of_lt_of_le hlt hevent.length_le, fun task' hphase' => ?_⟩
      obtain ⟨task, hphase, hcmd⟩ := hevent.phase_back hphase' hlt
      rw [hcmd]
      exact hevent.holds hsound hwithin hident hphase (hholds task hphase)
    · simp only [Function.update_of_ne hp]
      exact ⟨hlt, hholds⟩
  · -- the send that failed just now
    obtain ⟨⟨j, task⟩, hput, heq⟩ := List.mem_map.mp hk
    obtain ⟨rfl, rfl⟩ : p = p' ∧ j = k := by simpa using heq
    obtain ⟨hj, hholds⟩ := hevent.putAway (Option.mem_toList.mp hput)
    have hlt := (List.getElem?_eq_some_iff.mp hj).1
    simp only [Function.update_self]
    refine ⟨lt_of_lt_of_le hlt hevent.length_le, fun task' hphase' => ?_⟩
    obtain ⟨task₀, hphase, hcmd⟩ := hevent.phase_back hphase' hlt
    obtain rfl : task₀ = task := by simpa using hphase.call.symm.trans hj
    rw [hcmd]
    exact hholds

/-- Nothing happens to the connections and the client of `p`. -/
theorem Cared.of_same {p q k : ℕ} {cmd : SystemRegisterCommand} (h : s.Cared p q k cmd)
    (hprocessed : ∀ x ∈ s.processed, x ∈ s'.processed) (hchannels : s'.channels p = s.channels p)
    (hclients : s'.clients p = s.clients p) : s'.Cared p q k cmd := by
  unfold Cared InTransit
  rw [hchannels, hclients]
  rcases h with ⟨x, hx, hdone⟩ | htransit | hholds
  · exact Or.inl ⟨x, hprocessed x hx, hdone⟩
  · exact Or.inr (Or.inl htransit)
  · exact Or.inr (Or.inr hholds)

theorem Stubborn.deliver (h : Stubborn N s) {p connection : ℕ} {w : Written}
    {rest : List Written} (hqueue : (s.channels p connection).queue = w :: rest) :
    Stubborn N
      { s with
        channels := Function.update s.channels p (Function.update (s.channels p) connection
          { s.channels p connection with queue := rest })
        processed := s.processed ++ [(p, w)] } := by
  intro p' q k cmd hq hqN hne hsent
  have hcared := h p' q k cmd hq hqN hne hsent
  by_cases hp : p' = p
  · subst hp
    rcases hcared with ⟨x, hx, hdone⟩ | ⟨c, hbroken, x, hx, htarget, hcall, hcmd⟩ | hholds
    · exact Or.inl ⟨x, List.mem_append_left _ hx, hdone⟩
    · by_cases hc : c = connection
      · subst hc
        rw [hqueue] at hx
        rcases List.mem_cons.mp hx with rfl | hx
        · -- the command that arrives
          exact Or.inl ⟨(p', x), List.mem_append_right _ (List.mem_singleton_self _),
            rfl, htarget, hcall, hcmd⟩
        · refine Or.inr (Or.inl ⟨c, ?_, x, ?_, htarget, hcall, hcmd⟩)
          · simpa only [Function.update_self] using hbroken
          · simpa only [Function.update_self] using hx
      · refine Or.inr (Or.inl ⟨c, ?_, x, ?_, htarget, hcall, hcmd⟩)
        · simpa only [Function.update_self, Function.update_of_ne hc] using hbroken
        · simpa only [Function.update_self, Function.update_of_ne hc] using hx
    · exact Or.inr (Or.inr hholds)
  · exact hcared.of_same (fun x hx => List.mem_append_left _ hx) (Function.update_of_ne hp _ _) rfl

theorem Stubborn.sever (h : Stubborn N s) (hunsent : Unsent s) {p connection : ℕ} (kept : ℕ)
    (hsafe : s.BreakSafe p connection) :
    Stubborn N
      { s with
        channels := Function.update s.channels p (Function.update (s.channels p) connection
          ⟨(s.channels p connection).queue.take kept, true⟩) } := by
  intro p' q k cmd hq hqN hne hsent
  have hcared := h p' q k cmd hq hqN hne hsent
  by_cases hp : p' = p
  · subst hp
    rcases hcared with hdone | ⟨c, hbroken, x, hx, htarget, hcall, hcmd⟩ | hholds
    · exact Or.inl hdone
    · by_cases hc : c = connection
      · -- what was in transit on this connection is lost, but an earlier send has failed
        subst hc hcall hcmd htarget
        obtain ⟨task, hphase, htask, -⟩ := hsent
        by_cases hdone : s.Processed p' x.target x.copy.call x.copy.cmd
        · exact Or.inl hdone
        · have hput := hsafe x hx (Client.currentPhase_iff.mpr ⟨task, hphase⟩) hdone
          exact Or.inr (Or.inr (htask ▸ (hunsent p' _ hput).2 task hphase))
      · refine Or.inr (Or.inl ⟨c, ?_, x, ?_, htarget, hcall, hcmd⟩)
        · simpa only [Function.update_self, Function.update_of_ne hc] using hbroken
        · simpa only [Function.update_self, Function.update_of_ne hc] using hx
    · exact Or.inr (Or.inr hholds)
  · exact hcared.of_same (fun x hx => hx) (Function.update_of_ne hp _ _) rfl

/-- A client takes a step that is safe. -/
theorem Stubborn.client (h : Stubborn N s) (hunsent : Unsent s) {p : ℕ} {b : Action} {client : Client}
    (hevent : Client.Event N p ident (s.clients p) b client)
    (hsound : Client.Sound p ident (s.clients p)) (hwithin : Client.Within ops (s.clients p))
    (hident : Set.InjOn ident ops) (hsafe : s.Lossless (.client p b)) (unsent : List (ℕ × ℕ)) :
    Stubborn N
      { s with
        clients := Function.update s.clients p client
        channels := Function.update s.channels p
          ((writtenSince (s.clients p) client).foldl accept (s.channels p))
        unsent := unsent } := by
  intro p' q k cmd hq hqN hne hsent
  by_cases hp : p' = p
  · subst hp
    simp only [Function.update_self] at hsent
    obtain ⟨new, hnew, -⟩ := hevent.written
    have hsince : writtenSince (s.clients p') client = new := by
      rw [writtenSince, hnew, List.drop_left]
    -- what was accepted before stays in transit
    have htransit : ∀ c, (s.channels p' c).broken = false →
        (∃ x ∈ (s.channels p' c).queue, x.target = q ∧ x.copy.call = k ∧ x.copy.cmd = cmd) →
        ∃ c', ((new.foldl accept (s.channels p')) c').broken = false ∧
          ∃ x ∈ ((new.foldl accept (s.channels p')) c').queue,
            x.target = q ∧ x.copy.call = k ∧ x.copy.cmd = cmd := by
      rintro c hbroken ⟨x, hx, hcopy⟩
      obtain ⟨hb, hmem⟩ := foldl_accept new (s.channels p') c
      exact ⟨c, hb.trans hbroken, x, hmem x hx, hcopy⟩
    unfold Cared InTransit
    simp only [Function.update_self, hsince]
    rcases hevent.sentInPhase hq hqN hne hsent with hold | hholds | hwrite
    · obtain ⟨task, hphase, hcmd, hqt⟩ := hold
      rcases h p' q k cmd hq hqN hne ⟨task, hphase, hcmd, hqt⟩ with hdone | ⟨c, hb, hx⟩ | hholds
      · exact Or.inl hdone
      · exact Or.inr (Or.inl (htransit c hb hx))
      · subst hcmd
        exact Or.inr (Or.inr (hevent.holds hsound hwithin hident hphase hholds))
    · exact Or.inr (Or.inr hholds)
    · obtain ⟨rfl, hphase, task, connection, stamp, hk, hcmd, hnext, hpending, hwritten⟩ := hwrite
      have hone : new = [⟨q, connection, Client.copyOf task k stamp⟩] :=
        List.append_cancel_left (hnew.symm.trans hwritten)
      by_cases hbroken : (s.channels p' connection).broken = true
      · -- the socket loses it, but an earlier send has failed
        obtain ⟨task', hphase'⟩ := Client.currentPhase_iff.mp hphase
        have hput := hsafe connection hnext hbroken hphase
        obtain ⟨c, hc, hcopy⟩ := (hunsent p' k hput).2 task' hphase'
        obtain rfl : task' = task := by simpa using hphase'.call.symm.trans hk
        rw [hcmd] at hcopy
        exact Or.inr (Or.inr ⟨c, hpending ▸ hc, hcopy⟩)
      · rw [Bool.not_eq_true] at hbroken
        refine Or.inr (Or.inl ⟨connection, ?_, ⟨q, connection, Client.copyOf task k stamp⟩, ?_,
          rfl, rfl, hcmd⟩)
        · rw [(foldl_accept new (s.channels p') connection).1, hbroken]
        · rw [hone]
          exact mem_accept_self hbroken
  · simp only [Function.update_of_ne hp] at hsent
    exact (h p' q k cmd hq hqN hne hsent).of_same (fun x hx => hx) (Function.update_of_ne hp _ _)
      (Function.update_of_ne hp _ _)

/-! ## Runs -/

/-- Clients ask for operations among `ops` only. -/
def Asks (ops : Set Operation) : ClusterAction → Prop
  | .client _ b => ∀ o ∈ Client.operationOf b, o ∈ ops
  | _ => True

/-- Every client is sound, and keeps what it must. -/
structure Delivers (N : ℕ) (ident : Operation → Uuid) (ops : Set Operation) (s : Cluster) :
    Prop where
  sound : ∀ p, Client.Sound p ident (s.clients p)
  within : ∀ p, Client.Within ops (s.clients p)
  unsent : Unsent s
  stubborn : Stubborn N s

theorem delivers_init : Delivers N ident ops init where
  sound := fun _ => Client.sound_init
  within := by
    intro p
    constructor
    · intro task ht
      cases ht
    · intro o ho
      cases ho
  unsent := fun p k hk => by cases hk
  stubborn := by
    rintro p q k cmd - - - ⟨task, hphase, -⟩
    cases hphase.call

/-- What every client keeps is kept when one of them takes a step. -/
theorem forall_update {P : ℕ → Client → Prop} (h : ∀ p, P p (s.clients p)) {p : ℕ}
    {client : Client} (hp : P p client) (p' : ℕ) :
    P p' (Function.update s.clients p client p') := by
  by_cases hpp : p' = p
  · subst hpp
    simpa only [Function.update_self] using hp
  · simpa only [Function.update_of_ne hpp] using h p'

theorem Delivers.step (h : Delivers N ident ops s) (hident : Set.InjOn ident ops)
    (ha : s.Lossless a) (hasks : Asks ops a) (hstep : s.step N ident a = some s') :
    Delivers N ident ops s' := by
  cases a with
  | client p b =>
    rw [Cluster.step] at hstep
    split at hstep
    · cases hstep
    · rename_i client hclient
      cases hstep
      have hevent := Client.step_event hclient
      exact ⟨forall_update h.sound (hevent.sound (h.sound p)),
        forall_update (P := fun _ => Client.Within ops) h.within
          (hevent.within (h.within p) hasks),
        h.unsent.client hevent (h.sound p) (h.within p) hident _,
        h.stubborn.client h.unsent hevent (h.sound p) (h.within p) hident ha _⟩
  | deliver p connection =>
    rw [Cluster.step] at hstep
    split at hstep
    · cases hstep
    · rename_i w rest hqueue
      cases hstep
      exact ⟨h.sound, h.within, h.unsent, h.stubborn.deliver hqueue⟩
  | sever p connection kept =>
    rw [Cluster.step] at hstep
    split_ifs at hstep
    cases hstep
    exact ⟨h.sound, h.within, h.unsent, h.stubborn.sever h.unsent kept ha⟩

theorem delivers_reachable (hident : Set.InjOn ident ops)
    (hs : Reachable (step N ident) (fun s a => s.Lossless a ∧ Asks ops a) init s) :
    Delivers N ident ops s :=
  hs.invariant (Delivers N ident ops) delivers_init
    fun _ _ _ _ h ha hstep => h.step hident ha.1 ha.2 hstep

/-- **Stubborn delivery of the current phase.** Let the operations `ops` that clients ask for
have different request identifiers. Let no connection break while a command of a current phase
is queued up on it that its target has not processed, and let no such command be written to a
connection that is broken already, unless an earlier send of the same broadcast has failed.
Take an operation in progress at the process `p`, the command of its last
broadcast, and any other process `q` the broadcast has been through with. Then `q` has
processed the command, or it is in transit to `q` on a connection that is not broken, or it
is kept in `pending_cmds` of `p`. -/
theorem phase_is_stubborn (hident : Set.InjOn ident ops)
    (hs : Reachable (step N ident) (fun s a => s.Lossless a ∧ Asks ops a) init s)
    {p q k : ℕ} {task : Task} (hk : (s.clients p).tasks[k]? = some task)
    (hphase : (s.clients p).currentPhase k = true) (hq : 1 ≤ q) (hqN : q ≤ N) (hne : q ≠ p)
    (hsent : q ∉ task.targets) :
    s.Processed p q k task.cmd ∨ s.InTransit p q k task.cmd ∨
      (s.clients p).Holds k task.cmd := by
  apply (delivers_reachable hident hs).stubborn p q k task.cmd hq hqN hne
  obtain ⟨task', hphase'⟩ := Client.currentPhase_iff.mp hphase
  have heq : task' = task := by
    have := hphase'.call.symm.trans hk
    simpa using this
  exact ⟨task, heq ▸ hphase', rfl, hsent⟩

/-- Nothing is queued up on a connection that has not been made. -/
structure Quiet (s : Cluster) : Prop where
  inUse : ∀ p, (s.clients p).InUse
  queue : ∀ p c, (s.clients p).connections ≤ c → (s.channels p c).queue = []

theorem Quiet.step (h : Quiet s) (hstep : s.step N ident a = some s') : Quiet s' := by
  cases a with
  | client p b =>
    rw [Cluster.step] at hstep
    split at hstep
    · cases hstep
    · rename_i client hclient
      cases hstep
      have hevent := Client.step_event hclient
      refine ⟨forall_update h.inUse (hevent.inUse (h.inUse p)), fun p' c hc => ?_⟩
      by_cases hp : p' = p
      · subst hp
        simp only [Function.update_self] at hc ⊢
        -- a client writes to connections it has opened, so nothing goes to those to come
        obtain ⟨new, hnew, hused⟩ := hevent.written
        have hle := hevent.connections_le
        rw [writtenSince, hnew, List.drop_left, foldl_accept_of_ne]
        · exact h.queue p' c (by omega)
        · intro w hw
          have := hused (h.inUse p') w hw
          omega
      · simp only [Function.update_of_ne hp] at hc ⊢
        exact h.queue p' c hc
  | deliver p connection =>
    rw [Cluster.step] at hstep
    split at hstep
    · cases hstep
    · rename_i w rest hqueue
      cases hstep
      refine ⟨h.inUse, fun p' c hc => ?_⟩
      by_cases hp : p' = p
      · subst hp
        by_cases hconn : c = connection
        · subst hconn
          rw [h.queue p' c hc] at hqueue
          cases hqueue
        · simp only [Function.update_self, Function.update_of_ne hconn]
          exact h.queue p' c hc
      · simp only [Function.update_of_ne hp]
        exact h.queue p' c hc
  | sever p connection kept =>
    rw [Cluster.step] at hstep
    split_ifs at hstep with hlt
    cases hstep
    refine ⟨h.inUse, fun p' c hc => ?_⟩
    by_cases hp : p' = p
    · subst hp
      have hconn : c ≠ connection := by
        rintro rfl
        exact absurd hc (Nat.not_le.mpr hlt)
      simp only [Function.update_self, Function.update_of_ne hconn]
      exact h.queue p' c hc
    · simp only [Function.update_of_ne hp]
      exact h.queue p' c hc

theorem quiet_reachable {allowed : Cluster → ClusterAction → Prop}
    (hs : Reachable (step N ident) allowed init s) : Quiet s :=
  hs.invariant Quiet ⟨fun _ => Client.inUse_init, fun _ _ _ => rfl⟩
    fun _ _ _ _ h _ hstep => h.step hstep

/-- All connections of a process being broken, nothing it sent is in transit. -/
theorem not_inTransit (h : Quiet s) {p : ℕ}
    (hbroken : ∀ c < (s.clients p).connections, (s.channels p c).broken = true) (q k : ℕ)
    (cmd : SystemRegisterCommand) : ¬ s.InTransit p q k cmd := by
  rintro ⟨c, hc, w, hw, -⟩
  by_cases hlt : c < (s.clients p).connections
  · rw [hbroken c hlt] at hc
    cases hc
  · rw [h.queue p c (Nat.not_lt.mp hlt)] at hw
    cases hw

/-! ## A broadcast of process 1 -/

/-- The first operation of process 1. -/
def firstOperation : Set Operation := fun o => o = ⟨1, 0⟩

instance (o : Operation) : Decidable (o ∈ firstOperation) :=
  inferInstanceAs (Decidable (o = ⟨1, 0⟩))

instance (a : ClusterAction) : Decidable (Asks firstOperation a) := by
  apply ClusterAction.casesOn (motive := fun a => Decidable (Asks firstOperation a)) a
  all_goals
    intros
    dsimp only [Asks]
    infer_instance

/-- Its `ReadProc`. -/
def firstReadProc : SystemRegisterCommand := ⟨⟨1, Client.sampleIdent ⟨1, 0⟩, 1, 0⟩, .readProc⟩

/-- Process 1 connects to process 2 and broadcasts a `ReadProc`. -/
def broadcastRun : List ClusterAction :=
  [.client 1 (.visit true), .client 1 (.visit true), .client 1 (.replay []), .client 1 .markActive,
    .client 1 (.broadcast ⟨1, 0⟩ firstReadProc), .client 1 (.call 0 true),
    .client 1 (.call 0 true)]

/-- The command of the first call of process 1 has been broadcast. -/
def BroadcastDone (s : Cluster) : Prop :=
  (s.clients 1).tasks = [⟨firstReadProc, ⟨1, 0⟩, none, [], .ready⟩] ∧
    (s.clients 1).currentPhase 0 = true

instance (s : Cluster) : Decidable s.BroadcastDone :=
  inferInstanceAs (Decidable (_ ∧ _))

/-- Process 3 cannot be reached, and then the connection to process 2 breaks. -/
def breakRun : List ClusterAction :=
  broadcastRun ++ [.client 1 (.call 0 true), .client 1 (.call 0 true), .sever 1 0 0]

theorem readProc_is_stubborn :
    ∃ s, Reachable (step 3 Client.sampleIdent) (fun s a => s.Lossless a ∧ Asks firstOperation a)
        init s ∧ s.BroadcastDone ∧ (s.channels 1 0).broken = true ∧
      (s.Processed 1 2 0 firstReadProc ∨ s.InTransit 1 2 0 firstReadProc ∨
        (s.clients 1).Holds 0 firstReadProc) := by
  have hrun : ∃ s, Reachable (step 3 Client.sampleIdent)
      (fun s a => s.Lossless a ∧ Asks firstOperation a) init s ∧
      s.BroadcastDone ∧ (s.channels 1 0).broken = true :=
    exists_of_exec breakRun (by decide +kernel)
  obtain ⟨s, hs, ⟨htasks, hphase⟩, hbroken⟩ := hrun
  have hident : Set.InjOn Client.sampleIdent firstOperation := fun o ho o' ho' _ =>
    Eq.trans ho ho'.symm
  refine ⟨s, hs, ⟨htasks, hphase⟩, hbroken, ?_⟩
  have hk : (s.clients 1).tasks[0]? = some ⟨firstReadProc, ⟨1, 0⟩, none, [], .ready⟩ := by
    rw [htasks]
    rfl
  have hq : 1 ≤ 2 ∧ 2 ≤ 3 ∧ 2 ≠ 1 := by decide
  exact phase_is_stubborn hident hs hk hphase hq.1 hq.2.1 hq.2.2 List.not_mem_nil

/-- The connection breaks when the `ReadProc` has been written to it. Process 2 does not get
it, it is not in transit any more, and process 1 does not keep it. -/
theorem phase_is_lost :
    ∃ s, Reachable (step 2 Client.sampleIdent) (fun _ a => Asks firstOperation a) init s ∧
      s.BroadcastDone ∧ ¬ s.Processed 1 2 0 firstReadProc ∧
      ¬ s.InTransit 1 2 0 firstReadProc ∧ ¬ (s.clients 1).Holds 0 firstReadProc := by
  have hrun : ∃ s, Reachable (step 2 Client.sampleIdent) (fun _ a => Asks firstOperation a) init s ∧
      (s.BroadcastDone ∧ ¬ s.Processed 1 2 0 firstReadProc ∧
        ¬ (s.clients 1).Holds 0 firstReadProc) ∧
      ∀ c < (s.clients 1).connections, (s.channels 1 c).broken = true :=
    exists_of_exec (broadcastRun ++ [.sever 1 0 0]) (by decide +kernel)
  obtain ⟨s, hs, ⟨hdone, hprocessed, hholds⟩, hbroken⟩ := hrun
  exact ⟨s, hs, hdone, hprocessed, not_inTransit (quiet_reachable hs) hbroken 2 0 _, hholds⟩

end Cluster

end Network
end AtomicDiscDrive
