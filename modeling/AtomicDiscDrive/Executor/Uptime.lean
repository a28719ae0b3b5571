import AtomicDiscDrive.Executor.Release
import AtomicDiscDrive.Executor.Integrity

/-!
# Before the first restart

A process that has not been restarted has no recovered commands: every call was made by a
client, and none is lost while the process is up (`Uptime`). Such a process keeps the history
that its tickets go by (`Log`), so of two commands on one sector that have been handed to
registers one is completed (`Uptime.fired_or_fired`). A rejected request must not have the
identifier of a command for that, since it finishes whatever command has it.
-/

namespace AtomicDiscDrive
namespace Executor

open Utils

variable {N R : ℕ} {selfIdent : UInt8}

/-- No request that is rejected since the last start has the identifier of a command. -/
def Process.RejectsApart (s : Process) : Action → Prop
  | .submit cmd => ∀ task ∈ s.finishing, task.requestIdentifier ≠ cmd.header.requestIdentifier
  | .reject requestIdentifier =>
    ∀ call ∈ s.calls, call.cmd.header.requestIdentifier ≠ requestIdentifier
  | _ => True

instance (s : Process) (a : Action) : Decidable (s.RejectsApart a) :=
  match a with
  | .submit cmd => inferInstanceAs (Decidable (∀ task ∈ s.finishing,
      task.requestIdentifier ≠ cmd.header.requestIdentifier))
  | .reject requestIdentifier => inferInstanceAs (Decidable (∀ call ∈ s.calls,
      call.cmd.header.requestIdentifier ≠ requestIdentifier))
  | .dispatch | .client _ | .arrive _ _ | .system _ | .announce _ | .receive _ _ | .call _
  | .finish _ _ | .crash | .restart => inferInstanceAs (Decidable True)

/-- **A process before its first restart.** -/
structure Uptime (N : ℕ) (selfIdent : UInt8) (s : Process) : Prop where
  startup : s.startup = []
  source : ∀ (t : ℕ) call, s.calls[t]? = some call → call.source = none
  present : s.up = true → ∀ t < s.calls.length, s.pcs t ≠ .lost
  log : ∃ l : Log, l.process = s ∧ Kept N selfIdent l ∧
    ∀ requestIdentifier ∈ l.rejected, ∃ task ∈ s.finishing,
      task.requestIdentifier = requestIdentifier

/-- Of two commands on one sector that have been handed to registers, one is completed. -/
theorem Uptime.fired_or_fired {s : Process} (h : Uptime N selfIdent s) {t u : Callback}
    {call call' : Call} {i j : ℕ} (htu : t ≠ u) (hcall : s.calls[t]? = some call)
    (hcall' : s.calls[u]? = some call') (hsector : call.sector = call'.sector)
    (hpc : s.pcs t = .handed i) (hpc' : s.pcs u = .handed j) :
    t ∈ s.bank.fired.map Prod.fst ∨ u ∈ s.bank.fired.map Prod.fst := by
  obtain ⟨l, rfl, hkept, -⟩ := h.log
  have hlost : l.process.pcs t ≠ .lost := by rw [hpc]; exact ClientPc.noConfusion
  have hlost' : l.process.pcs u ≠ .lost := by rw [hpc']; exact ClientPc.noConfusion
  obtain ⟨k, hk, hplace⟩ := hkept.ticketed.numbered.exists_place hcall hlost
    (by rw [hpc]; exact ClientPc.noConfusion)
  obtain ⟨k', hk', hplace'⟩ := hkept.ticketed.numbered.exists_place hcall' hlost'
    (by rw [hpc']; exact ClientPc.noConfusion)
  rw [hpc] at hplace
  rw [hpc', ← hsector] at hplace'
  have hne : k ≠ k' := by
    rintro rfl
    rw [← hsector, hk, Option.some.injEq] at hk'
    exact htu hk'
  -- both have been served, and only one of them can be the last
  have hlt : k < (l.process.counters call.sector).2 ∨ k' < (l.process.counters call.sector).2 := by
    have := hplace.1
    have := hplace'.1
    omega
  rcases hlt with hlt | hlt
  · exact .inl (hkept.fired_of_isDone hlost (hplace.2.mpr hlt))
  · exact .inr (hkept.fired_of_isDone hlost' (hplace'.2.mpr hlt))

theorem uptime_init : Uptime N selfIdent (.init N selfIdent) := by
  refine ⟨rfl, fun t call hcall => ?_, fun _ t ht => ?_,
    .init N selfIdent, rfl, kept_init, fun id hid => ?_⟩
  · cases hcall
  · cases ht
  · cases hid

section

variable {s s' : Process} {a : Action}

theorem present_step (h : Uptime N selfIdent s) (ha : a ≠ .restart)
    (hstep : s.step N R selfIdent a = some s') :
    s'.up = true → ∀ t < s'.calls.length, s'.pcs t ≠ .lost := by
  -- the task of one call moves
  have hmove : ∀ {u : Callback} {pc : ClientPc}, s.up = true → pc ≠ .lost →
      ∀ t, t < s.calls.length ∨ t = u → Function.update s.pcs u pc t ≠ .lost := by
    intro u pc hup hpc t ht
    by_cases htu : t = u
    · rw [htu, Function.update_self]
      exact hpc
    · rw [Function.update_of_ne htu]
      exact h.present hup t (ht.resolve_right htu)
  intro hup'
  cases step_event hstep with
  | shuffle _ hs =>
    intro t ht hlost
    rw [hs.calls] at ht
    exact h.present (hs.up ▸ hup') t ht ((hs.lost t).mpr hlost)
  | submit _ =>
    intro t ht
    have hlen : t < s.calls.length + 1 := by simpa [Process.invoke] using ht
    exact hmove hup' ClientPc.noConfusion t (by omega)
  | dispatch hstartup _ =>
    rw [h.startup] at hstartup
    cases hstartup
  | take _ _ _ => exact fun t ht => hmove hup' ClientPc.noConfusion t (.inl ht)
  | hand _ _ => exact fun t ht => hmove hup' ClientPc.noConfusion t (.inl ht)
  | crash => cases hup'
  | restart _ => exact absurd rfl ha
  | _ => exact h.present hup'

/-- A completion task keeps its identifier until the next crash. -/
theorem task_kept (hturn : Turn N R selfIdent s a s') (ha : a ≠ .crash)
    {requestIdentifier : UInt64}
    (h : ∃ task ∈ s.finishing, task.requestIdentifier = requestIdentifier) :
    ∃ task ∈ s'.finishing, task.requestIdentifier = requestIdentifier := by
  -- a task moves
  have hset : ∀ {j : ℕ} {task : FinishTask} (pc : FinishPc), s.finishing[j]? = some task →
      ∃ other ∈ s.finishing.set j { task with pc },
        other.requestIdentifier = requestIdentifier := by
    intro j task pc hj
    obtain ⟨other, hother, hid⟩ := h
    obtain ⟨k, hk⟩ := List.getElem?_of_mem hother
    by_cases hkj : j = k
    · rw [← hkj, hj, Option.some.injEq] at hk
      have hself : (s.finishing.set j { task with pc })[j]? = some { task with pc } :=
        List.getElem?_set_self (List.getElem?_eq_some_iff.mp hj).1
      exact ⟨{ task with pc }, List.mem_of_getElem? hself, hk ▸ hid⟩
    · have hother : (s.finishing.set j { task with pc })[k]? = some other :=
        (List.getElem?_set_ne hkj).trans hk
      exact ⟨other, List.mem_of_getElem? hother, hid⟩
  cases hturn with
  | aside haside => exact haside.finishing ▸ h
  | spawn _ | reject =>
    obtain ⟨task, htask, hid⟩ := h
    exact ⟨task, List.mem_append_left _ htask, hid⟩
  | respond hj _ | missing hj _ _ _ | removes hj _ _ _ | counts hj _ _ _ | notifies hj _ =>
    exact hset _ hj
  | crash => exact absurd rfl ha
  | restart hrestart => exact (restart_aside hrestart).finishing ▸ h
  | _ => exact h

theorem log_step (h : Uptime N selfIdent s) (horderly : s.Orderly a) (hapart : s.RejectsApart a)
    (hstep : s.step N R selfIdent a = some s') :
    ∃ l : Log, l.process = s' ∧ Kept N selfIdent l ∧
      ∀ requestIdentifier ∈ l.rejected, ∃ task ∈ s'.finishing,
        task.requestIdentifier = requestIdentifier := by
  obtain ⟨l, rfl, hkept, hrejected⟩ := h.log
  have hdistinct : l.Distinct a := by
    cases a with
    | submit cmd =>
      refine ⟨fun t _ _ call hcall => ?_, fun hmem => ?_⟩
      · exact horderly.1 call (List.mem_of_getElem? hcall)
      · obtain ⟨task, htask, hid⟩ := hrejected _ hmem
        exact hapart task htask hid
    | reject requestIdentifier =>
      exact fun t _ _ call hcall => hapart call (List.mem_of_getElem? hcall)
    | dispatch =>
      intro r hr
      rw [h.startup] at hr
      cases hr
    | _ => trivial
  have hrecord : l.step N R selfIdent a = some (l.record a s') := by
    show (l.process.step N R selfIdent a).map (l.record a) = _
    rw [hstep]
    rfl
  refine ⟨l.record a s', l.record_process a s', hkept.step hdistinct horderly.2.1.1 hrecord, ?_⟩
  intro requestIdentifier hmem
  have hturn := step_turn hstep
  -- the history forgets rejected requests in a crash, and gains one in a rejection
  have hkeeps : requestIdentifier ∈ l.rejected → a ≠ .crash →
      ∃ task ∈ s'.finishing, task.requestIdentifier = requestIdentifier :=
    fun hold ha => task_kept hturn ha (hrejected _ hold)
  cases a with
  | finish j written =>
    unfold Log.record at hmem
    dsimp only at hmem
    split at hmem <;> exact hkeeps hmem Action.noConfusion
  | crash => cases hmem
  | reject id =>
    rcases List.mem_append.mp hmem with hmem | hmem
    · exact hkeeps hmem Action.noConfusion
    · rw [List.mem_singleton.mp hmem]
      cases hturn with
      | aside _ _ _ _ ha => exact absurd rfl (ha.2.2.2.2 id)
      | reject => exact ⟨_, List.mem_append_right _ (List.mem_singleton_self _), rfl⟩
  | _ => exact hkeeps hmem Action.noConfusion

theorem uptime_step (h : Uptime N selfIdent s) (ha : a ≠ .restart) (horderly : s.Orderly a)
    (hapart : s.RejectsApart a) (hstep : s.step N R selfIdent a = some s') : Uptime N selfIdent s' := by
  refine ⟨?_, fun t call hcall => ?_, present_step h ha hstep,
    log_step h horderly hapart hstep⟩
  · cases step_event hstep with
    | shuffle _ hs => rw [hs.startup, h.startup]
    | dispatch hstartup _ =>
      rw [h.startup] at hstartup
      cases hstartup
    | crash => rfl
    | restart _ => exact absurd rfl ha
    | _ => exact h.startup
  · cases step_event hstep with
    | shuffle _ hs => exact h.source t call (hs.calls ▸ hcall)
    | submit _ =>
      rcases append_cases hcall with hcall | ⟨-, rfl⟩
      · exact h.source t call hcall
      · rfl
    | dispatch hstartup _ =>
      rw [h.startup] at hstartup
      cases hstartup
    | restart _ => exact absurd rfl ha
    | _ => exact h.source t call hcall

end

end Executor
end AtomicDiscDrive
