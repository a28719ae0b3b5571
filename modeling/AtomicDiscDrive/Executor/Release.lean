import AtomicDiscDrive.Executor.Completion

/-!
# Releasing a sector

A completion task always comes to its end: the two locks it takes are held by completion
tasks only, and in the same order (`Kept.task_ends`). Whether it has released the sector of
its command then depends on the response: `respond` returns early when the response cannot be
written, before it calls `finish_client_command` (`released_iff_answered`).
-/

namespace AtomicDiscDrive
namespace Executor

open Utils

variable {N R : ℕ} {selfIdent : UInt8} {s s' : Log} {a : Action}

/-! ## What is counted -/

/-- `total_finished` of a sector is the number of commands counted for it. -/
def Log.Tallied (s : Log) : Prop := ∀ sector,
  (s.process.counters sector).2 = (s.counted.filter fun x => x.2.2 == sector).length

theorem Log.Tallied.of_same (h : s.Tallied)
    (htotal : ∀ sector, (s'.process.counters sector).2 = (s.process.counters sector).2)
    (hcounted : s'.counted = s.counted) : s'.Tallied := by
  intro sector
  rw [htotal, hcounted]
  exact h sector

theorem Log.Tallied.step {process : Process} (h : s.Tallied)
    (hturn : Turn N R selfIdent s.process a process) : (s.record a process).Tallied := by
  cases hturn with
  | aside haside hclient hfinish hcall ha =>
    obtain ⟨hprocess, -, hcounted, -⟩ := Log.record_same (s := s) process hclient hfinish ha.1 ha.2.2.2.2
    refine h.of_same (fun sector => ?_) hcounted
    rw [hprocess, Process.counters, haside.sectorCounters]
    rfl
  | @ticket t call hcall hpc hfree =>
    refine h.of_same (fun sector => ?_) rfl
    show ((Function.update s.process.sectorCounters call.sector _ sector).getD (0, 0)).2 = _
    by_cases hsector : sector = call.sector
    · rw [hsector, Function.update_self]
      rfl
    · rw [Function.update_of_ne hsector]
      rfl
  | spawn _ | reject | submit | dispatch _ | owns _ _ _ _ _ | defers _ _ _ _ _ | parks _ _ | take _ _
  | enter _ _ _ | hand _ _ => exact h.of_same (fun _ => rfl) rfl
  | @respond j written task hj hpc | @missing j written task hj hpc _ _
  | @removes j written task _ hj hpc _ _ | @notifies j written task _ hj hpc =>
    obtain ⟨hprocess, -, -, hcounted⟩ := Log.record_finish _ written hj
    rw [hpc] at hcounted
    exact h.of_same (fun _ => by rw [hprocess]; rfl) hcounted
  | @counts j written task sector entry hj hpc hfree hentry =>
    obtain ⟨hprocess, -, -, hcounted⟩ := Log.record_finish _ written hj
    rw [hpc] at hcounted
    intro sector'
    rw [hprocess, hcounted, List.filter_append, List.filter_singleton, List.length_append,
      ← h sector']
    show ((Function.update s.process.sectorCounters sector _ sector').getD (0, 0)).2 = _
    by_cases hsector : sector' = sector
    · rw [hsector, Function.update_self, beq_self_eq_true, cond_true, Process.counters, hentry]
      rfl
    · have hne : (sector == sector') = false := beq_eq_false_iff_ne.mpr (Ne.symm hsector)
      rw [Function.update_of_ne hsector]
      simp only [hne, cond_false]
      rfl
  | crash => exact fun _ => rfl
  | restart hrestart =>
    refine h.of_same (fun sector => ?_) rfl
    show ((process.sectorCounters sector).getD (0, 0)).2 = _
    rw [(restart_aside hrestart).sectorCounters]
    rfl

/-! ## Locks -/

/-- A lock is held by a completion task that is not through with it. -/
structure Locks (s : Process) : Prop where
  handler : ∀ k, s.handlerLock = some k → ∃ task sector, s.finishing[k]? = some task ∧
    (task.pc = .count sector ∨ task.pc = .notify sector)
  counters : ∀ k, s.countersLock = some k → ∃ task sector, s.finishing[k]? = some task ∧
    task.pc = .notify sector

theorem Locks.of_none {s : Process} (hhandler : s.handlerLock = none)
    (hcounters : s.countersLock = none) : Locks s := by
  refine ⟨fun k hk => ?_, fun k hk => ?_⟩
  · rw [hhandler] at hk
    cases hk
  · rw [hcounters] at hk
    cases hk

theorem Locks.frame {s s' : Process} (h : Locks s) (hhandler : s'.handlerLock = s.handlerLock)
    (hcounters : s'.countersLock = s.countersLock)
    (hfinishing : ∀ (k : ℕ) task sector, s.finishing[k]? = some task →
      task.pc = .count sector ∨ task.pc = .notify sector → s'.finishing[k]? = some task) :
    Locks s' := by
  refine ⟨fun k hk => ?_, fun k hk => ?_⟩
  · rw [hhandler] at hk
    obtain ⟨task, sector, htask, hpc⟩ := h.handler k hk
    exact ⟨task, sector, hfinishing k task sector htask hpc, hpc⟩
  · rw [hcounters] at hk
    obtain ⟨task, sector, htask, hpc⟩ := h.counters k hk
    exact ⟨task, sector, hfinishing k task sector htask (Or.inr hpc), hpc⟩

theorem Locks.step {s s' : Process} (h : Locks s) (hturn : Turn N R selfIdent s a s') :
    Locks s' := by
  -- a task that holds no lock moves
  have hset : ∀ {j : ℕ} {task : FinishTask} (pc : FinishPc), s.finishing[j]? = some task →
      task.pc = .respond ∨ task.pc = .remove →
      ∀ (k : ℕ) other sector, s.finishing[k]? = some other →
      other.pc = .count sector ∨ other.pc = .notify sector →
      (s.finishing.set j { task with pc })[k]? = some other := by
    intro j task pc hj hpc k other sector hk hother
    rw [List.getElem?_set_ne]
    · exact hk
    · rintro rfl
      rw [hj, Option.some.injEq] at hk
      rw [← hk] at hother
      rcases hpc with hpc | hpc <;> rw [hpc] at hother <;> rcases hother with h | h <;> cases h
  cases hturn with
  | aside haside =>
    exact h.frame haside.handlerLock haside.countersLock fun _ _ _ hk _ => haside.finishing ▸ hk
  | spawn _ | reject =>
    refine h.frame rfl rfl fun k task _ hk _ => ?_
    exact (List.getElem?_append_left (List.getElem?_eq_some_iff.mp hk).1).trans hk
  | submit | dispatch _ | ticket _ _ _ | owns _ _ _ _ _ | defers _ _ _ _ _ | parks _ _ | take _ _
  | enter _ _ _ | hand _ _ => exact h.frame rfl rfl fun _ _ _ hk _ => hk
  | respond hj hpc => exact h.frame rfl rfl (hset _ hj (Or.inl hpc))
  | missing hj hpc _ _ => exact h.frame rfl rfl (hset _ hj (Or.inr hpc))
  | @removes j written task entry hj hpc hfree hentry =>
    have hcount : (s.finishing.set j { task with pc := .count entry.2 })[j]? =
        some { task with pc := .count entry.2 } :=
      List.getElem?_set_self (List.getElem?_eq_some_iff.mp hj).1
    refine ⟨fun k hk => ?_, fun k hk => ?_⟩
    · cases hk
      exact ⟨_, entry.2, hcount, Or.inl rfl⟩
    · obtain ⟨other, sector, hother, hnotify⟩ := h.counters k hk
      exact ⟨other, sector, hset _ hj (Or.inr hpc) k other sector hother (Or.inr hnotify), hnotify⟩
  | @counts j written task sector entry hj hpc hfree hentry =>
    have hnotify : (s.finishing.set j { task with pc := .notify sector })[j]? =
        some { task with pc := .notify sector } :=
      List.getElem?_set_self (List.getElem?_eq_some_iff.mp hj).1
    refine ⟨fun k hk => ?_, fun k hk => ?_⟩
    · by_cases hkj : k = j
      · rw [hkj]
        exact ⟨_, sector, hnotify, Or.inr rfl⟩
      · obtain ⟨other, sector', hother, hheld⟩ := h.handler k hk
        exact ⟨other, sector', (List.getElem?_set_ne (Ne.symm hkj)).trans hother, hheld⟩
    · cases hk
      exact ⟨_, sector, hnotify, rfl⟩
  | notifies _ _ | crash => exact .of_none rfl rfl
  | restart hrestart =>
    have haside := restart_aside hrestart
    exact h.frame haside.handlerLock haside.countersLock fun _ _ _ hk _ => haside.finishing ▸ hk

/-! ## Runs -/

/-- All that is kept in runs with different identifiers in which registers are handed one
command at a time. -/
structure Kept (N : ℕ) (selfIdent : UInt8) (s : Log) : Prop where
  ticketed : Ticketed s
  occupied : Occupied N selfIdent s.process
  placed : Placed s.process
  releasing : Releasing s
  tallied : s.Tallied
  locks : Locks s.process

theorem kept_init : Kept N selfIdent (.init N selfIdent) :=
  ⟨ticketed_init, occupied_init, placed_init, .of_lost (fun _ => rfl) rfl rfl rfl rfl,
    fun _ => rfl, .of_none rfl rfl⟩

theorem Kept.step (h : Kept N selfIdent s) (hdistinct : s.Distinct a) (hfree : s.TakesFree a)
    (hstep : s.step N R selfIdent a = some s') : Kept N selfIdent s' := by
  have hticketed := h.ticketed.step hdistinct hstep
  obtain ⟨process, hprocess, rfl⟩ := Option.map_eq_some_iff.mp hstep
  have hturn := step_turn hprocess
  have heq := Log.record_process s a process
  refine ⟨hticketed, ?_, ?_, h.releasing.step h.ticketed h.occupied h.placed hprocess,
    h.tallied.step hturn, ?_⟩
  · rw [heq]
    exact occupied_step h.occupied hfree hprocess
  · rw [heq]
    exact placed_step h.occupied h.placed hprocess
  · rw [heq]
    exact h.locks.step hturn

theorem kept_reachable (hs : Reachable (Log.step N R selfIdent)
    (fun s b => s.Distinct b ∧ s.TakesFree b) (.init N selfIdent) s) : Kept N selfIdent s :=
  hs.invariant (Kept N selfIdent) kept_init
    fun _ _ _ _ h hallowed hstep => h.step hallowed.1 hallowed.2 hstep

/-! ## Turns -/

/-- What is counted has been completed. -/
theorem Kept.fired_of_isDone (h : Kept N selfIdent s) {t : Callback}
    (hpc : s.process.pcs t ≠ .lost) (hdone : s.isDone t = true) :
    t ∈ s.process.bank.fired.map Prod.fst := by
  obtain ⟨call, hcall, x, hx, hid⟩ := Log.isDone_iff.mp hdone
  obtain ⟨u, hu⟩ := h.releasing.counted x hx
  have hlt : x.1 < s.process.finishing.length :=
    h.releasing.length ▸ (List.getElem?_eq_some_iff.mp hu).1
  have htask : s.process.finishing[x.1]? = some (s.process.finishing.get ⟨x.1, hlt⟩) :=
    List.getElem?_eq_getElem hlt
  have hmine : x ∈ s.countedBy x.1 := List.mem_filter.mpr ⟨hx, beq_self_eq_true x.1⟩
  obtain ⟨call', i, hcall', hpc', -, hstage⟩ := h.releasing.stage x.1 u _ hu htask
  -- the task that counted the command was spawned for it
  have hcounted :
      s.countedBy x.1 = [(x.1, call'.cmd.header.requestIdentifier, call'.sector)] := by
    have hempty : s.countedBy x.1 ≠ [] := List.ne_nil_of_mem hmine
    generalize (s.process.finishing.get ⟨x.1, hlt⟩).pc = pc at hstage
    cases pc with
    | respond | remove => exact absurd hstage.2.1 hempty
    | count sector => exact absurd hstage.2.2.1 hempty
    | notify sector => exact hstage.1.2
    | done =>
      rcases hstage with ⟨hcounted, -⟩ | ⟨hnil, -⟩
      · exact hcounted.2
      · exact absurd hnil hempty
  rw [hcounted, List.mem_singleton] at hmine
  have hsame : call.cmd.header.requestIdentifier = call'.cmd.header.requestIdentifier := by
    rw [← hid, hmine]
  have htu : t = u := h.ticketed.numbered.distinct t u call call' hcall hcall' hpc
    (by rw [hpc']; exact ClientPc.noConfusion) hsame
  rw [htu]
  exact h.releasing.fired u (List.mem_of_getElem? hu)

/-- **The per-sector tickets at work**: a command receives an index only when every other
command on its sector that has received one is completed. -/
theorem Kept.takesTurns (h : Kept N selfIdent s) (a : Action) : s.process.TakesTurns a := by
  rintro ⟨t, i⟩ hx call hcall u _ hut htaken hopen other hother hsector
  obtain ⟨rfl, hpc⟩ : a = .client t ∧ s.process.pcs t = .owner := by
    cases a with
    | client v =>
      unfold Process.takes at hx
      dsimp only at hx
      split at hx
      · rename_i hpc
        obtain ⟨k, -, heq⟩ := Option.map_eq_some_iff.mp hx
        cases heq
        exact ⟨rfl, hpc⟩
      · cases hx
    | _ => cases hx
  obtain ⟨k, hk, hplace⟩ := h.ticketed.numbered.exists_place hcall
    (by rw [hpc]; exact ClientPc.noConfusion) (by rw [hpc]; exact ClientPc.noConfusion)
  have hlive : s.process.pcs u ≠ .lost ∧ s.process.pcs u ≠ .ticket := by
    constructor <;> intro heq <;> rw [heq] at htaken <;> cases htaken
  obtain ⟨k', hk', hplace'⟩ := h.ticketed.numbered.exists_place hother hlive.1 hlive.2
  rw [hpc] at hplace
  rw [hsector] at hk' hplace'
  have hne : k' ≠ k := by
    rintro rfl
    rw [hk, Option.some.injEq] at hk'
    exact hut hk'.symm
  -- another command that has received an index is served later only if it is not the next
  cases hpcu : s.process.pcs u with
  | index j | entered j =>
    rw [hpcu] at hplace'
    exact hne (hplace'.1.trans hplace.1.symm)
  | handed j =>
    rw [hpcu] at hplace'
    have hlt : k' < (s.process.counters call.sector).2 := by
      have := hplace.1
      have := hplace'.1
      omega
    exact hopen (h.fired_of_isDone hlive.1 (hplace'.2.mpr hlt))
  | ticket | check c | yield c | parked c | owner | lost =>
    rw [hpcu] at htaken
    cases htaken

/-- With different request identifiers commands take turns in every run, as `TakesTurns` says. -/
theorem takesTurns_reachable (hs : Reachable (Log.step N R selfIdent)
    (fun s b => s.Distinct b ∧ s.TakesFree b) (.init N selfIdent) s) (a : Action) :
    s.process.TakesTurns a :=
  (kept_reachable hs).takesTurns a

/-! ## Completion tasks end -/

/-- Only completion tasks take steps, and responses are written. -/
def Log.Finishing (_ : Log) (a : Action) : Prop := ∃ j, a = .finish j true

theorem Kept.finishing (h : Kept N selfIdent s)
    (hs : Reachable (Log.step N R selfIdent) Log.Finishing s s') : Kept N selfIdent s' := by
  refine hs.invariant (Kept N selfIdent) h fun s₁ b s₂ _ h₁ hb hstep => ?_
  obtain ⟨j, rfl⟩ := hb
  have hdistinct : s₁.Distinct (.finish j true) := trivial
  refine h₁.step hdistinct (fun x hx => ?_) hstep
  cases hx

theorem Kept.up (h : Kept N selfIdent s) {j : ℕ} {task : FinishTask}
    (hj : s.process.finishing[j]? = some task) : s.process.up = true := by
  rw [← Bool.not_eq_false]
  intro hdown
  obtain ⟨s₀, hs₀⟩ := h.occupied.down hdown
  rw [hs₀] at hj
  cases hj

theorem Kept.finish_step (h : Kept N selfIdent s) {j : ℕ} {task : FinishTask} {process : Process}
    (hj : s.process.finishing[j]? = some task)
    (hstep : s.process.finishStep j true = some process) :
    ∃ s', Reachable (Log.step N R selfIdent) Log.Finishing s s' ∧ s'.process = process := by
  refine ⟨s.record (.finish j true) process, Reachable.init.step ⟨j, rfl⟩ ?_, s.record_process ..⟩
  show (s.process.step N R selfIdent (.finish j true)).map _ = _
  rw [step_of_up (h.up hj)]
  show (s.process.finishStep j true).map _ = _
  rw [hstep]
  rfl

/-- A task that notifies returns, and drops its locks. -/
theorem Kept.notify_ends (h : Kept N selfIdent s) {j : ℕ} {task : FinishTask} {sector : SectorIdx}
    (hj : s.process.finishing[j]? = some task) (hpc : task.pc = .notify sector) :
    ∃ s', Reachable (Log.step N R selfIdent) Log.Finishing s s' ∧
      s'.process.handlerLock = none ∧
      s'.process.finishing = s.process.finishing.set j { task with pc := .done } := by
  have hstep : s.process.finishStep j true = some
      { s.process.setFinish j task .done with
        pcs := s.process.wake sector
        handlerLock := none
        countersLock := none } := by
    unfold Process.finishStep
    rw [hj]
    dsimp only
    rw [hpc]
  obtain ⟨s', hrun, hprocess⟩ := h.finish_step hj hstep
  refine ⟨s', hrun, ?_, ?_⟩
  · rw [hprocess]
  · rw [hprocess]
    rfl

/-- A task that holds the lock of the map counts and returns. -/
theorem Kept.count_ends (h : Kept N selfIdent s) {j : ℕ} {task : FinishTask} {sector : SectorIdx}
    (hj : s.process.finishing[j]? = some task) (hpc : task.pc = .count sector) :
    ∃ s', Reachable (Log.step N R selfIdent) Log.Finishing s s' ∧
      s'.process.handlerLock = none ∧
      s'.process.finishing = s.process.finishing.set j { task with pc := .done } := by
  obtain ⟨hheld, -, t, call, i, hcall, -, rfl, hpct, hopen⟩ :=
    h.ticketed.mapped.counting j task sector hj hpc
  have hfree : s.process.countersLock = none := by
    cases hlock : s.process.countersLock with
    | none => rfl
    | some k =>
      -- the holder would hold the lock of the map as well
      obtain ⟨other, sector', hother, hnotify⟩ := h.locks.counters k hlock
      have hheld' := h.ticketed.mapped.notifying k other sector' hother hnotify
      rw [hheld, Option.some.injEq] at hheld'
      subst hheld'
      rw [hj, Option.some.injEq] at hother
      rw [← hother, hpc] at hnotify
      cases hnotify
  obtain ⟨entry, hentry⟩ : ∃ entry, s.process.sectorCounters call.sector = some entry := by
    rw [← Option.ne_none_iff_exists']
    intro hnone
    have hserved := h.ticketed.numbered.served hcall hpct hopen
    have hlen := h.ticketed.numbered.counter call.sector
    rw [Process.counters, hnone] at hlen
    rw [List.length_eq_zero_iff.mp hlen.symm] at hserved
    cases hserved
  have hstep : s.process.finishStep j true = some
      { s.process.setFinish j task (.notify call.sector) with
        sectorCounters := Function.update s.process.sectorCounters call.sector
          (some (entry.1, entry.2 + 1))
        countersLock := some j } := by
    unfold Process.finishStep
    rw [hj]
    dsimp only
    rw [hpc]
    dsimp only
    rw [if_pos hfree, hentry]
  obtain ⟨s₁, hrun, hprocess⟩ := h.finish_step (R := R) hj hstep
  have hnotify : s₁.process.finishing[j]? = some { task with pc := .notify call.sector } := by
    rw [hprocess]
    exact List.getElem?_set_self (List.getElem?_eq_some_iff.mp hj).1
  obtain ⟨s', hrun', hlock, hfinishing⟩ := (h.finishing hrun).notify_ends (R := R) hnotify rfl
  refine ⟨s', hrun.trans hrun', hlock, ?_⟩
  rw [hfinishing, hprocess]
  exact List.set_set ..

/-- Whoever holds the lock of the map drops it. -/
theorem Kept.unlock (h : Kept N selfIdent s) :
    ∃ s', Reachable (Log.step N R selfIdent) Log.Finishing s s' ∧
      s'.process.handlerLock = none ∧
      ∀ (j : ℕ) task, s.process.finishing[j]? = some task → task.pc = .remove →
        s'.process.finishing[j]? = some task := by
  cases hlock : s.process.handlerLock with
  | none => exact ⟨s, .init, hlock, fun _ _ hj _ => hj⟩
  | some k =>
    obtain ⟨task, sector, hk, hpc⟩ := h.locks.handler k hlock
    obtain ⟨s', hrun, hfree, hfinishing⟩ : ∃ s', Reachable (Log.step N R selfIdent) Log.Finishing s s' ∧
        s'.process.handlerLock = none ∧
        s'.process.finishing = s.process.finishing.set k { task with pc := .done } := by
      rcases hpc with hpc | hpc
      · exact h.count_ends hk hpc
      · exact h.notify_ends hk hpc
    refine ⟨s', hrun, hfree, fun j other hj hremove => ?_⟩
    rw [hfinishing, List.getElem?_set_ne]
    · exact hj
    · rintro rfl
      rw [hk, Option.some.injEq] at hj
      rw [← hj] at hremove
      rcases hpc with hpc | hpc <;> rw [hpc] at hremove <;> cases hremove

theorem Log.ended_set {tasks : List FinishTask} {j : ℕ} {task : FinishTask}
    (hj : tasks[j]? = some task)
    (hfinishing : s.process.finishing = tasks.set j { task with pc := .done }) : s.Ended j := by
  refine ⟨{ task with pc := .done }, ?_, rfl⟩
  rw [hfinishing]
  exact List.getElem?_set_self (List.getElem?_eq_some_iff.mp hj).1

/-- `finish_client_command` returns. -/
theorem Kept.remove_ends (h : Kept N selfIdent s) {j : ℕ} {task : FinishTask}
    (hj : s.process.finishing[j]? = some task) (hpc : task.pc = .remove) :
    ∃ s', Reachable (Log.step N R selfIdent) Log.Finishing s s' ∧ s'.Ended j := by
  obtain ⟨s₁, hrun₁, hfree, hkeeps⟩ := h.unlock (R := R)
  have hj₁ := hkeeps j task hj hpc
  have h₁ := h.finishing hrun₁
  cases hentry : s₁.process.msgIdHandlerSectorIdx (.fromRequest task.requestIdentifier) with
  | none =>
    have hstep : s₁.process.finishStep j true = some (s₁.process.setFinish j task .done) := by
      unfold Process.finishStep
      rw [hj₁]
      dsimp only
      rw [hpc]
      dsimp only
      rw [if_pos hfree, hentry]
    obtain ⟨s', hrun₂, hprocess⟩ := h₁.finish_step (R := R) hj₁ hstep
    refine ⟨s', hrun₁.trans hrun₂, Log.ended_set hj₁ ?_⟩
    rw [hprocess]
    rfl
  | some entry =>
    have hstep : s₁.process.finishStep j true = some
        { s₁.process.setFinish j task (.count entry.2) with
          msgIdHandlerSectorIdx := Function.update s₁.process.msgIdHandlerSectorIdx
            (.fromRequest task.requestIdentifier) none
          handlerLock := some j } := by
      unfold Process.finishStep
      rw [hj₁]
      dsimp only
      rw [hpc]
      dsimp only
      rw [if_pos hfree, hentry]
    obtain ⟨s₂, hrun₂, hprocess⟩ := h₁.finish_step (R := R) hj₁ hstep
    have hcount : s₂.process.finishing[j]? = some { task with pc := .count entry.2 } := by
      rw [hprocess]
      exact List.getElem?_set_self (List.getElem?_eq_some_iff.mp hj₁).1
    obtain ⟨s', hrun₃, -, hfinishing⟩ := (h₁.finishing hrun₂).count_ends (R := R) hcount rfl
    exact ⟨s', (hrun₁.trans hrun₂).trans hrun₃, Log.ended_set hcount hfinishing⟩

/-- **A completion task ends**: no lock and no other task is in its way for good. -/
theorem Kept.task_ends (h : Kept N selfIdent s) {j : ℕ} {task : FinishTask}
    (hj : s.process.finishing[j]? = some task) :
    ∃ s', Reachable (Log.step N R selfIdent) Log.Finishing s s' ∧ s'.Ended j := by
  cases hpc : task.pc with
  | respond =>
    have hstep : s.process.finishStep j true = some (s.process.setFinish j task .remove) := by
      unfold Process.finishStep
      rw [hj]
      dsimp only
      rw [hpc]
      rfl
    obtain ⟨s₁, hrun, hprocess⟩ := h.finish_step (R := R) hj hstep
    have hremove : s₁.process.finishing[j]? = some { task with pc := .remove } := by
      rw [hprocess]
      exact List.getElem?_set_self (List.getElem?_eq_some_iff.mp hj).1
    obtain ⟨s', hrun', hended⟩ := (h.finishing hrun).remove_ends (R := R) hremove rfl
    exact ⟨s', hrun.trans hrun', hended⟩
  | remove => exact h.remove_ends hj hpc
  | count sector =>
    obtain ⟨s', hrun, -, hfinishing⟩ := h.count_ends (R := R) hj hpc
    exact ⟨s', hrun, Log.ended_set hj hfinishing⟩
  | notify sector =>
    obtain ⟨s', hrun, -, hfinishing⟩ := h.notify_ends (R := R) hj hpc
    exact ⟨s', hrun, Log.ended_set hj hfinishing⟩
  | done => exact ⟨s, .init, task, hj, hpc⟩

/-- The sector of a command is released: its entry is removed, it is counted once, by its own
completion task, and the next ticket is the one that is served. -/
structure Log.Released (s : Log) (j : ℕ) (t : Callback) (call : Call) : Prop where
  removed : s.process.msgIdHandlerSectorIdx
    (.fromRequest call.cmd.header.requestIdentifier) = none
  counted : s.countedBy j = [(j, call.cmd.header.requestIdentifier, call.sector)]
  next : ∀ k : ℕ, (s.queue call.sector)[k]? = some t → k < (s.process.counters call.sector).2

/-- **A completed operation releases its sector if its response could be written.** In runs
with different identifiers in which a register is handed one command at a time, the task of a
callback always comes to its end; when it has ended, it has released the sector of its command
if and only if it has written the response, or there was none to write. `total_finished` is
the number of commands counted. -/
theorem released_iff_answered
    (hs : Reachable (Log.step N R selfIdent) (fun s b => s.Distinct b ∧ s.TakesFree b)
      (.init N selfIdent) s)
    {j : ℕ} {t : Callback} {call : Call} (hspawned : s.spawned[j]? = some (some t))
    (hcall : s.process.calls[t]? = some call) :
    (∃ s', Reachable (Log.step N R selfIdent) Log.Finishing s s' ∧ s'.Ended j) ∧
      (s.Ended j → (s.Released j t call ↔ s.Answered j call)) ∧
      (s.process.counters call.sector).2 =
        (s.counted.filter fun x => x.2.2 == call.sector).length := by
  have h := kept_reachable hs
  have hlt : j < s.process.finishing.length := by
    rw [← h.releasing.length]
    exact (List.getElem?_eq_some_iff.mp hspawned).1
  refine ⟨h.task_ends (List.getElem?_eq_getElem hlt), ?_, h.tallied call.sector⟩
  rintro ⟨task, hj, hdone⟩
  obtain ⟨call', i, hcall', hpc, hid, hstage⟩ := h.releasing.stage j t task hspawned hj
  rw [hcall, Option.some.injEq] at hcall'
  subst hcall'
  rw [hdone] at hstage
  constructor
  · intro hreleased
    rcases hstage with ⟨-, hanswered⟩ | ⟨hnone, -⟩
    · exact hanswered
    · have hcounted := hreleased.counted
      rw [hnone] at hcounted
      cases hcounted
  · intro hanswered
    -- a task that has ended has done all of its work, or none of it
    rcases hstage with ⟨⟨hremoved, hcounted⟩, -⟩ | ⟨-, hnot⟩
    · refine ⟨not_not.mp hremoved, hcounted, fun k hk => ?_⟩
      have hmem : (j, call.cmd.header.requestIdentifier, call.sector) ∈ s.counted := by
        have hmem' : (j, call.cmd.header.requestIdentifier, call.sector) ∈ s.countedBy j := by
          rw [hcounted]
          exact List.mem_singleton_self _
        exact (List.mem_filter.mp hmem').1
      have hisDone : s.isDone t = true := Log.isDone_iff.mpr ⟨call, hcall, _, hmem, rfl⟩
      have hplace := h.ticketed.numbered.place call.sector k t hk
      rw [hpc] at hplace
      exact hplace.2.mp hisDone
    · exact absurd hanswered hnot

/-! ## A client that is gone -/

/-- The first of two reads of sector 0. -/
def firstRead : Call := ⟨0, ⟨⟨7, 0⟩, .read⟩, none⟩

set_option maxRecDepth 100000 in
/-- The response of the first read is written: the sector is released. -/
theorem released_once_written :
    ∃ s, Reachable (Log.step 1 1 1) (fun s b => s.Distinct b ∧ s.TakesFree b) (.init 1 1) s ∧
      s.Answered 0 firstRead ∧ s.Released 0 0 firstRead := by
  have hrun : ∃ s, Reachable (Log.step 1 1 1) (fun s b => s.Distinct b ∧ s.TakesFree b)
      (.init 1 1) s ∧ s.spawned[0]? = some (some 0) ∧ s.process.calls[0]? = some firstRead ∧
      s.process.finishing[0]? = some ⟨7, .done⟩ ∧ (0, true) ∈ s.responses :=
    exists_of_exec (beginRead ++ List.replicate 3 (.client 1) ++ carryOutRead ++
      List.replicate 4 (.finish 0 true)) (by decide +kernel)
  obtain ⟨s, hs, hspawned, hcall, hfinishing, hresponse⟩ := hrun
  obtain ⟨-, hiff, -⟩ := released_iff_answered hs hspawned hcall
  exact ⟨s, hs, Or.inr hresponse, (hiff ⟨_, hfinishing, rfl⟩).mpr (Or.inr hresponse)⟩

set_option maxRecDepth 100000 in
/-- The client of the first read is gone when the response is written: the task of the callback
has ended, the entry is still in the map, nothing is counted, and the second read waits. -/
theorem sector_kept_after_failed_response :
    ∃ s, Reachable (Log.step 1 1 1) (fun s b => s.Distinct b ∧ s.TakesFree b) (.init 1 1) s ∧
      s.spawned = [some 0] ∧ s.process.calls[0]? = some firstRead ∧
      s.process.finishing = [⟨7, .done⟩] ∧
      s.process.msgIdHandlerSectorIdx (.fromRequest 7) = some (0, 0) ∧
      s.process.counters 0 = (2, 0) ∧ s.process.pcs 1 = .parked 1 :=
  exists_of_exec (beginRead ++ List.replicate 3 (.client 1) ++ carryOutRead ++
    [.finish 0 false]) (by decide +kernel)

end Executor
end AtomicDiscDrive
