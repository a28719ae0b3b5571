import AtomicDiscDrive.Executor.Turns

/-!
# Lost wake-ups

A task that is not the owner of its sector drops the lock of `sector_counters`, and only then
registers on the `Notify` of the sector. `notify_waiters` wakes the tasks that are registered
and stores no permit. So a task that is in between when its turn comes is not woken, and
waits for ever (`waiter_left_behind`). If no task is in between whenever its turn comes, a
parked task whose turn it is has its wake-up under way: the task that has just increased
`total_finished` still holds the lock and is about to notify (`no_lost_wakeup`).
-/

namespace AtomicDiscDrive
namespace Executor

open Utils

/-- The sector whose `total_finished` a completion task is about to increase. -/
def FinishPc.counting : FinishPc → Option SectorIdx
  | .count sector => some sector
  | _ => none

namespace Process

/-- When `total_finished` of a sector is increased, the task whose turn comes is not between
its check and its registration on the `Notify`. -/
def RegistersInTime (s : Process) : Action → Prop
  | .finish j _ => ∀ task ∈ s.finishing[j]?, ∀ sector ∈ task.pc.counting,
      ∀ entry ∈ s.sectorCounters sector, ∀ t < s.calls.length, ∀ call ∈ s.calls[t]?,
        call.sector = sector → s.pcs t ≠ .yield (entry.2 + 1)
  | _ => True

instance (s : Process) (a : Action) : Decidable (s.RegistersInTime a) := by
  apply Action.casesOn (motive := fun a => Decidable (s.RegistersInTime a)) a
  case finish =>
    -- the sector is the one at hand: the sectors are not enumerated
    intro j written
    exact @Option.decidableForallMem _ _
      (fun _ => @Option.decidableForallMem _ _ (fun _ => inferInstance) _) _
  all_goals
    intros
    exact instDecidableTrue

/-- A completion task has increased `total_finished` of the sector and is about to notify. -/
def Notifying (s : Process) (sector : SectorIdx) : Prop :=
  ∃ j task, s.finishing[j]? = some task ∧ task.pc = .notify sector ∧ s.countersLock = some j

end Process

/-- The ticket of a task that waits for its turn. -/
def ClientPc.waits : ClientPc → Option ℕ
  | .check c | .yield c | .parked c => some c
  | _ => none

/-- Who waits, and for what. -/
structure Wakes (s : Process) : Prop where
  held : ∀ (j : ℕ) task sector, s.finishing[j]? = some task → task.pc = .notify sector →
    s.countersLock = some j
  entered : ∀ (t : ℕ) call c, s.calls[t]? = some call → (s.pcs t).waits = some c →
    s.sectorCounters call.sector ≠ none
  yields : ∀ (t : ℕ) call c entry, s.calls[t]? = some call → s.pcs t = .yield c →
    s.sectorCounters call.sector = some entry → c ≠ entry.2
  parked : ∀ (t : ℕ) call c entry, s.calls[t]? = some call → s.pcs t = .parked c →
    s.sectorCounters call.sector = some entry → c = entry.2 → s.Notifying call.sector

variable {N R : ℕ} {selfIdent : UInt8} {s s' : Process} {a : Action}

theorem wakes_init : Wakes (.init N selfIdent) where
  held := by simp [Process.init]
  entered := by simp [Process.init]
  yields := by simp [Process.init]
  parked := by simp [Process.init]

/-- Nobody notifies while the lock is free. -/
theorem Wakes.not_notifying (hfree : s.countersLock = none) (sector : SectorIdx) :
    ¬ s.Notifying sector := by
  rintro ⟨j, task, -, -, hlock⟩
  rw [hfree] at hlock
  cases hlock

/-- Steps in which no task moves. -/
theorem Wakes.of_same (h : Wakes s) (hcalls : s'.calls = s.calls) (hpcs : s'.pcs = s.pcs)
    (hcounters : s'.sectorCounters = s.sectorCounters) (hlock : s'.countersLock = s.countersLock)
    (hfinishing : ∀ (j : ℕ) task sector, task.pc = .notify sector →
      (s'.finishing[j]? = some task ↔ s.finishing[j]? = some task)) : Wakes s' where
  held := by
    intro j task sector hj hpc
    rw [hlock]
    exact h.held j task sector ((hfinishing j task sector hpc).mp hj) hpc
  entered := by
    rw [hcalls, hpcs, hcounters]
    exact h.entered
  yields := by
    rw [hcalls, hpcs, hcounters]
    exact h.yields
  parked := by
    rw [hcalls, hpcs, hcounters]
    intro t call c entry hcall hpc hentry hc
    obtain ⟨j, task, hj, hnotify, hheld⟩ := h.parked t call c entry hcall hpc hentry hc
    exact ⟨j, task, (hfinishing j task _ hnotify).mpr hj, hnotify, hlock ▸ hheld⟩

/-- A task that moves and does not wait afterwards. -/
theorem Wakes.move (h : Wakes s) {t : Callback} {pc : ClientPc} (hcalls : s'.calls = s.calls)
    (hpcs : s'.pcs = Function.update s.pcs t pc)
    (hcounters : s'.sectorCounters = s.sectorCounters) (hlock : s'.countersLock = s.countersLock)
    (hfinishing : s'.finishing = s.finishing)
    (hentered : ∀ call c, s.calls[t]? = some call → pc.waits = some c →
      s.sectorCounters call.sector ≠ none)
    (hyields : ∀ call c entry, s.calls[t]? = some call → pc = .yield c →
      s.sectorCounters call.sector = some entry → c ≠ entry.2)
    (hparked : ∀ call c entry, s.calls[t]? = some call → pc = .parked c →
      s.sectorCounters call.sector = some entry → c ≠ entry.2) : Wakes s' where
  held := by
    rw [hlock, hfinishing]
    exact h.held
  entered := by
    intro u call c hcall hpc
    rw [hcalls] at hcall
    rw [hcounters]
    by_cases hut : u = t
    · subst hut
      rw [hpcs, Function.update_self] at hpc
      exact hentered call c hcall hpc
    · rw [hpcs, Function.update_of_ne hut] at hpc
      exact h.entered u call c hcall hpc
  yields := by
    intro u call c entry hcall hpc hentry
    rw [hcalls] at hcall
    rw [hcounters] at hentry
    by_cases hut : u = t
    · subst hut
      rw [hpcs, Function.update_self] at hpc
      exact hyields call c entry hcall hpc hentry
    · rw [hpcs, Function.update_of_ne hut] at hpc
      exact h.yields u call c entry hcall hpc hentry
  parked := by
    intro u call c entry hcall hpc hentry hc
    rw [hcalls] at hcall
    rw [hcounters] at hentry
    unfold Process.Notifying
    rw [hfinishing, hlock]
    by_cases hut : u = t
    · subst hut
      rw [hpcs, Function.update_self] at hpc
      exact absurd hc (hparked call c entry hcall hpc hentry)
    · rw [hpcs, Function.update_of_ne hut] at hpc
      exact h.parked u call c entry hcall hpc hentry hc

/-- A new call has no ticket yet. -/
theorem Wakes.invoke (h : Wakes s) {call : Call} (hcalls : s'.calls = s.calls ++ [call])
    (hpcs : s'.pcs = Function.update s.pcs s.calls.length .ticket)
    (hcounters : s'.sectorCounters = s.sectorCounters) (hlock : s'.countersLock = s.countersLock)
    (hfinishing : s'.finishing = s.finishing) : Wakes s' := by
  -- a call that waits is one of the earlier calls
  have hold : ∀ (t : ℕ) call' pc, s'.calls[t]? = some call' → s'.pcs t = pc → pc ≠ .ticket →
      s.calls[t]? = some call' ∧ s.pcs t = pc := by
    intro t call' pc hcall' hpc hne
    have ht : t ≠ s.calls.length := by
      rintro rfl
      rw [hpcs, Function.update_self] at hpc
      exact hne hpc.symm
    rw [hpcs, Function.update_of_ne ht] at hpc
    have hlt := (List.getElem?_eq_some_iff.mp hcall').1
    rw [hcalls, List.length_append, List.length_singleton] at hlt
    rw [hcalls, List.getElem?_append_left (by omega)] at hcall'
    exact ⟨hcall', hpc⟩
  refine ⟨?_, ?_, ?_, ?_⟩
  · rw [hlock, hfinishing]
    exact h.held
  · intro t call' c hcall' hwaits
    obtain ⟨hcall, hpc⟩ := hold t call' _ hcall' rfl fun hpc => by
      rw [hpc] at hwaits
      cases hwaits
    rw [hcounters]
    exact h.entered t call' c hcall (hpc ▸ hwaits)
  · intro t call' c entry hcall' hpc' hentry
    obtain ⟨hcall, hpc⟩ := hold t call' _ hcall' hpc' ClientPc.noConfusion
    exact h.yields t call' c entry hcall hpc (hcounters ▸ hentry)
  · intro t call' c entry hcall' hpc' hentry hc
    obtain ⟨hcall, hpc⟩ := hold t call' _ hcall' hpc' ClientPc.noConfusion
    unfold Process.Notifying
    rw [hfinishing, hlock]
    exact h.parked t call' c entry hcall hpc (hcounters ▸ hentry) hc

/-- No call is in progress. -/
theorem Wakes.of_lost (hpcs : ∀ t, s.pcs t = .lost) (hfinishing : s.finishing = []) : Wakes s where
  held := by
    intro j task sector hj
    rw [hfinishing] at hj
    cases hj
  entered := by
    intro t call c _ hpc
    rw [hpcs] at hpc
    cases hpc
  yields := by
    intro t call c entry _ hpc
    rw [hpcs] at hpc
    cases hpc
  parked := by
    intro t call c entry _ hpc
    rw [hpcs] at hpc
    cases hpc

/-- A task takes its ticket. -/
theorem Wakes.ticket (h : Wakes s) {t : Callback} {call : Call} (hcall : s.calls[t]? = some call) :
    Wakes
      { s.move t (.check (s.counters call.sector).1) with
        sectorCounters := Function.update s.sectorCounters call.sector
          (some ((s.counters call.sector).1 + 1, (s.counters call.sector).2)) } := by
  -- `total_finished` is as before for everyone who waits
  have hfinished : ∀ (u : ℕ) call' c entry, s.calls[u]? = some call' → (s.pcs u).waits = some c →
      Function.update s.sectorCounters call.sector
        (some ((s.counters call.sector).1 + 1, (s.counters call.sector).2)) call'.sector =
          some entry →
      ∃ entry', s.sectorCounters call'.sector = some entry' ∧ entry'.2 = entry.2 := by
    intro u call' c entry hu hwaits hentry
    by_cases hsector : call'.sector = call.sector
    · rw [hsector, Function.update_self, Option.some.injEq] at hentry
      cases hold : s.sectorCounters call'.sector with
      | none => exact absurd hold (h.entered u call' c hu hwaits)
      | some entry' =>
        refine ⟨entry', rfl, ?_⟩
        rw [← hentry, Process.counters, ← hsector, hold]
        rfl
    · rw [Function.update_of_ne hsector] at hentry
      exact ⟨entry, hentry, rfl⟩
  have hpcs : ∀ (u : ℕ) pc, Function.update s.pcs t (.check (s.counters call.sector).1) u = pc →
      u ≠ t → s.pcs u = pc := fun u pc hu hut => by
    rw [Function.update_of_ne hut] at hu
    exact hu
  refine ⟨h.held, ?_, ?_, ?_⟩
  · intro u call' c hu hwaits
    by_cases hsector : call'.sector = call.sector
    · simp [hsector]
    · by_cases hut : u = t
      · subst hut
        exact absurd (congrArg Call.sector (Option.some.inj (hu.symm.trans hcall))) hsector
      · simp only [Function.update_of_ne hsector]
        exact h.entered u call' c hu (by rw [hpcs u _ rfl hut]; exact hwaits)
  · intro u call' c entry hu hpc hentry
    by_cases hut : u = t
    · subst hut
      simp [Process.move] at hpc
    · have hpc' := hpcs u _ hpc hut
      obtain ⟨entry', hentry', heq⟩ := hfinished u call' c entry hu (by rw [hpc']; rfl) hentry
      rw [← heq]
      exact h.yields u call' c entry' hu hpc' hentry'
  · intro u call' c entry hu hpc hentry hc
    by_cases hut : u = t
    · subst hut
      simp [Process.move] at hpc
    · have hpc' := hpcs u _ hpc hut
      obtain ⟨entry', hentry', heq⟩ := hfinished u call' c entry hu (by rw [hpc']; rfl) hentry
      exact h.parked u call' c entry' hu hpc' hentry' (hc.trans heq.symm)

/-- `total_finished` is increased: whoever is parked and has his turn will be notified. -/
theorem Wakes.counts (h : Wakes s) {j : ℕ} {task : FinishTask} {sector : SectorIdx}
    {entry : ℕ × ℕ} (hj : s.finishing[j]? = some task) (hfree : s.countersLock = none)
    (hin : ∀ t < s.calls.length, ∀ call ∈ s.calls[t]?, call.sector = sector →
      s.pcs t ≠ .yield (entry.2 + 1)) :
    Wakes
      { s.setFinish j task (.notify sector) with
        sectorCounters := Function.update s.sectorCounters sector (some (entry.1, entry.2 + 1))
        countersLock := some j } := by
  have hlt : j < s.finishing.length := (List.getElem?_eq_some_iff.mp hj).1
  refine ⟨?_, ?_, ?_, ?_⟩
  · intro k other sector' hk hnotify
    by_cases hkj : j = k
    · rw [hkj]
    · -- no other task can be about to notify: the lock was free
      rw [show (s.setFinish j task (.notify sector)).finishing[k]? = s.finishing[k]? from
        List.getElem?_set_ne hkj] at hk
      have := h.held k other sector' hk hnotify
      rw [hfree] at this
      cases this
  · intro t call c hcall hwaits
    by_cases hsector : call.sector = sector
    · simp [hsector]
    · simp only [Function.update_of_ne hsector]
      exact h.entered t call c hcall hwaits
  · intro t call c entry' hcall hpc hentry'
    change Function.update s.sectorCounters sector _ call.sector = some entry' at hentry'
    by_cases hsector : call.sector = sector
    · rw [hsector, Function.update_self, Option.some.injEq] at hentry'
      subst hentry'
      rintro rfl
      exact hin t (List.getElem?_eq_some_iff.mp hcall).1 call hcall hsector hpc
    · simp only [Function.update_of_ne hsector] at hentry'
      exact h.yields t call c entry' hcall hpc hentry'
  · intro t call c entry' hcall hpc hentry' hc
    by_cases hsector : call.sector = sector
    · exact ⟨j, _, List.getElem?_set_self hlt, by rw [hsector], rfl⟩
    · simp only [Function.update_of_ne hsector] at hentry'
      exact absurd (h.parked t call c entry' hcall hpc hentry' hc)
        (Wakes.not_notifying hfree call.sector)

/-- All that are parked on the sector are woken. -/
theorem Wakes.notifies (h : Wakes s) {j : ℕ} {task : FinishTask} {sector : SectorIdx}
    (hj : s.finishing[j]? = some task) (hnotify : task.pc = .notify sector) :
    Wakes
      { s.setFinish j task .done with
        pcs := s.wake sector
        handlerLock := none
        countersLock := none } := by
  have hlock := h.held j task sector hj hnotify
  refine ⟨?_, ?_, ?_, ?_⟩
  · intro k other sector' hk hnotify'
    exfalso
    by_cases hkj : j = k
    · subst hkj
      have hlt : j < s.finishing.length := (List.getElem?_eq_some_iff.mp hj).1
      rw [show (s.setFinish j task .done).finishing[j]? = _ from List.getElem?_set_self hlt,
        Option.some.injEq] at hk
      rw [← hk] at hnotify'
      cases hnotify'
    · rw [show (s.setFinish j task .done).finishing[k]? = s.finishing[k]? from
        List.getElem?_set_ne hkj] at hk
      have := h.held k other sector' hk hnotify'
      rw [hlock, Option.some.injEq] at this
      exact hkj this
  · intro t call c hcall hwaits
    change (s.wake sector t).waits = some c at hwaits
    rcases wake_cases (s := s) sector t with heq | ⟨c', hc', heq⟩
    · rw [heq] at hwaits
      exact h.entered t call c hcall hwaits
    · exact h.entered t call c' hcall (by rw [hc']; rfl)
  · intro t call c entry hcall hpc hentry
    change s.wake sector t = .yield c at hpc
    rcases wake_cases (s := s) sector t with heq | ⟨c', hc', heq⟩
    · exact h.yields t call c entry hcall (heq ▸ hpc) hentry
    · rw [heq] at hpc
      cases hpc
  · intro t call c entry hcall hpc hentry hc
    exfalso
    change s.wake sector t = .parked c at hpc
    change s.calls[t]? = some call at hcall
    have hpc' : s.pcs t = .parked c := by
      rcases wake_cases (s := s) sector t with heq | ⟨c', hc', heq⟩
      · rw [← heq, hpc]
      · rw [heq] at hpc
        cases hpc
    -- it was the turn of this task, so its own sector is the one that is notified
    obtain ⟨k, other, hk, hother, hheld⟩ := h.parked t call c entry hcall hpc' hentry hc
    rw [hlock, Option.some.injEq] at hheld
    subst hheld
    rw [hj, Option.some.injEq] at hk
    subst hk
    rw [hnotify, FinishPc.notify.injEq] at hother
    simp only [Process.wake, hpc', hcall, hother, if_true] at hpc
    cases hpc

/-- A new completion task does not notify. -/
theorem notify_append {tasks : List FinishTask} {new : FinishTask}
    (hnew : ∀ sector, new.pc ≠ .notify sector) (k : ℕ) (task : FinishTask) (sector : SectorIdx)
    (hpc : task.pc = .notify sector) :
    (tasks ++ [new])[k]? = some task ↔ tasks[k]? = some task := by
  by_cases hlt : k < tasks.length
  · rw [List.getElem?_append_left hlt]
  · rw [List.getElem?_append_right (by omega),
      List.getElem?_eq_none (l := tasks) (by omega)]
    constructor
    · intro heq
      rw [List.mem_singleton.mp (List.mem_of_getElem? heq)] at hpc
      exact absurd hpc (hnew sector)
    · intro heq
      cases heq

/-- Nor does one that goes on to something else. -/
theorem notify_set {tasks : List FinishTask} {j : ℕ} {old new : FinishTask}
    (hj : tasks[j]? = some old) (hold : ∀ sector, old.pc ≠ .notify sector)
    (hnew : ∀ sector, new.pc ≠ .notify sector) (k : ℕ) (task : FinishTask) (sector : SectorIdx)
    (hpc : task.pc = .notify sector) :
    (tasks.set j new)[k]? = some task ↔ tasks[k]? = some task := by
  have hlt : j < tasks.length := (List.getElem?_eq_some_iff.mp hj).1
  by_cases hkj : j = k
  · subst hkj
    rw [List.getElem?_set_self hlt, hj]
    constructor
    · intro heq
      rw [← Option.some.inj heq] at hpc
      exact absurd hpc (hnew sector)
    · intro heq
      rw [← Option.some.inj heq] at hpc
      exact absurd hpc (hold sector)
  · rw [List.getElem?_set_ne hkj]

theorem finishTask_ne_notify (t : Callback) (op : OperationComplete) (sector : SectorIdx) :
    (s.finishTask t op).pc ≠ .notify sector := by
  unfold Process.finishTask
  dsimp only
  split <;> exact FinishPc.noConfusion

theorem Turn.wakes (h : Turn N R selfIdent s a s') (hwakes : Wakes s)
    (hin : s.RegistersInTime a) : Wakes s' := by
  cases h with
  | aside haside hclient hfinish hcall ha =>
    exact hwakes.of_same haside.calls haside.pcs haside.sectorCounters haside.countersLock
      fun j task sector _ => by rw [haside.finishing]
  | @spawn i bank t op hcompleting =>
    exact hwakes.of_same rfl rfl rfl rfl (notify_append (finishTask_ne_notify t op))
  | reject =>
    exact hwakes.of_same rfl rfl rfl rfl (notify_append fun _ => FinishPc.noConfusion)
  | submit => exact hwakes.invoke rfl rfl rfl rfl rfl
  | dispatch hstartup => exact hwakes.invoke rfl rfl rfl rfl rfl
  | ticket hcall hpc hfree => exact hwakes.ticket hcall
  | owns hcall hpc hfree hentry hc =>
    exact hwakes.move rfl rfl rfl rfl rfl (fun _ _ _ hw => by cases hw)
      (fun _ _ _ _ hy => by cases hy) (fun _ _ _ _ hy => by cases hy)
  -- the check has failed under the lock: the total is below the ticket
  | @defers t call c entry hcall hpc hfree hentry hc =>
    refine hwakes.move rfl rfl rfl rfl rfl (fun call' c' hcall' hw => ?_)
      (fun call' c' entry' hcall' hy hentry' => ?_) (fun _ _ _ _ hy => by cases hy)
    · exact hwakes.entered t call' c hcall' (by rw [hpc]; rfl)
    · rw [hcall, Option.some.injEq] at hcall'
      subst hcall'
      rw [hentry, Option.some.injEq] at hentry'
      subst hentry'
      cases hy
      exact hc
  -- and it still is when the task begins to wait, since only `counts` changes it
  | @parks t call c hcall hpc =>
    refine hwakes.move rfl rfl rfl rfl rfl (fun call' c' hcall' hw => ?_)
      (fun _ _ _ _ hy => by cases hy) (fun call' c' entry' hcall' hy hentry' => ?_)
    · exact hwakes.entered t call' c hcall' (by rw [hpc]; rfl)
    · cases hy
      exact hwakes.yields t call' c entry' hcall' hpc hentry'
  | take hcall hpc =>
    exact hwakes.move rfl rfl rfl rfl rfl (fun _ _ _ hw => by cases hw)
      (fun _ _ _ _ hy => by cases hy) (fun _ _ _ _ hy => by cases hy)
  | enter hcall hpc hfree =>
    exact hwakes.move rfl rfl rfl rfl rfl (fun _ _ _ hw => by cases hw)
      (fun _ _ _ _ hy => by cases hy) (fun _ _ _ _ hy => by cases hy)
  | hand hcall hpc =>
    exact hwakes.move rfl rfl rfl rfl rfl (fun _ _ _ hw => by cases hw)
      (fun _ _ _ _ hy => by cases hy) (fun _ _ _ _ hy => by cases hy)
  -- a completion task that is not at its notification wakes nobody
  | @respond j written task hj hpc =>
    refine hwakes.of_same rfl rfl rfl rfl (notify_set hj ?_ ?_)
    · rw [hpc]
      exact fun _ => FinishPc.noConfusion
    · intro sector
      cases written <;> exact FinishPc.noConfusion
  | missing hj hpc hfree hnone =>
    refine hwakes.of_same rfl rfl rfl rfl (notify_set hj ?_ fun _ => FinishPc.noConfusion)
    rw [hpc]
    exact fun _ => FinishPc.noConfusion
  | removes hj hpc hfree hentry =>
    refine hwakes.of_same rfl rfl rfl rfl (notify_set hj ?_ fun _ => FinishPc.noConfusion)
    rw [hpc]
    exact fun _ => FinishPc.noConfusion
  | counts hj hpc hfree hentry =>
    exact hwakes.counts hj hfree (hin _ hj _ (by rw [hpc]; rfl) _ hentry)
  | notifies hj hpc => exact hwakes.notifies hj hpc
  | crash => exact .of_lost (fun _ => rfl) rfl
  | restart hrestart =>
    have haside := restart_aside hrestart
    exact hwakes.of_same haside.calls haside.pcs haside.sectorCounters haside.countersLock
      fun j task sector _ => by rw [haside.finishing]

/-- **No lost wake-up.** In every run in which no task stands between its check and its
registration when its turn comes, a task that is parked on the `Notify` of its sector while
its ticket equals `total_finished` is about to be woken: the task that increased
`total_finished` still holds the lock of `sector_counters`, and its next step is
`notify_waiters` on this sector. -/
theorem no_lost_wakeup
    (hs : Reachable (Process.step N R selfIdent) Process.RegistersInTime (.init N selfIdent) s)
    {t c total : ℕ} {call : Call} (hcall : s.calls[t]? = some call)
    (hparked : s.pcs t = .parked c) (hcounters : s.sectorCounters call.sector = some (total, c)) :
    s.Notifying call.sector := by
  have hwakes : Wakes s := hs.invariant Wakes wakes_init
    fun _ _ _ _ hwakes hin hstep => (step_turn hstep).wakes hwakes hin
  exact hwakes.parked t call c (total, c) hcall hparked hcounters rfl

/-! ## Two reads of a sector -/

/-- A process that is alone begins to read sector 0. -/
def beginRead : List Action :=
  [.announce 0, .submit ⟨⟨7, 0⟩, .read⟩] ++ handOver 0 ++ [.submit ⟨⟨8, 0⟩, .read⟩]

/-- It carries the read out, up to the callback. -/
def carryOutRead : List Action :=
  let header (readIdent : UInt64) : SystemCommandHeader := ⟨1, .fromRequest 7, readIdent, 0⟩
  handleNext 0 2 ++ hear 0 ⟨header 1, .readProc⟩ ⟨1, 0⟩ ++ handleNext 0 3 ++
  hear 1 ⟨header 1, .value 0 0 .new⟩ ⟨1, 0⟩ ++ handleNext 0 2 ++
  hear 2 ⟨header 2, .writeProc 0 0 .new⟩ ⟨1, 1⟩ ++ handleNext 0 2 ++
  hear 3 ⟨header 2, .ack⟩ ⟨1, 1⟩ ++ handleNext 0 1

set_option maxRecDepth 100000 in
/-- The second read has registered when the first one is finished: it is about to be woken. -/
theorem second_read_is_woken :
    ∃ s, Reachable (Process.step 1 1 1) Process.RegistersInTime (.init 1 1) s ∧
      s.pcs 1 = .parked 1 ∧ s.sectorCounters 0 = some (2, 1) ∧ s.Notifying 0 := by
  have hrun : ∃ s, Reachable (Process.step 1 1 1) Process.RegistersInTime (.init 1 1) s ∧
      s.calls[1]? = some ⟨1, ⟨⟨8, 0⟩, .read⟩, none⟩ ∧ s.pcs 1 = .parked 1 ∧
      s.sectorCounters 0 = some (2, 1) :=
    exists_of_exec (beginRead ++ List.replicate 3 (.client 1) ++ carryOutRead ++
      List.replicate 3 (.finish 0 true)) (by decide +kernel)
  obtain ⟨s, hs, hcall, hparked, hcounters⟩ := hrun
  exact ⟨s, hs, hparked, hcounters, no_lost_wakeup hs hcall hparked hcounters⟩

set_option maxRecDepth 100000 in
/-- The second read has dropped the lock and not registered when the first one is finished.
Then it parks. It is its turn, no lock is held, and no completion task is left. -/
theorem waiter_left_behind :
    ∃ s, Reachable (Process.step 1 1 1) (fun _ _ => True) (.init 1 1) s ∧
      s.calls[1]? = some ⟨1, ⟨⟨8, 0⟩, .read⟩, none⟩ ∧ s.pcs 1 = .parked 1 ∧
      s.sectorCounters 0 = some (2, 1) ∧ s.countersLock = none ∧
      s.finishing = [⟨7, .done⟩] :=
  exists_of_exec (beginRead ++ List.replicate 2 (.client 1) ++ carryOutRead ++
    List.replicate 4 (.finish 0 true) ++ [.client 1]) (by decide +kernel)

end Executor
end AtomicDiscDrive
