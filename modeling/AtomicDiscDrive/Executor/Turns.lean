import AtomicDiscDrive.Executor.Events

/-!
# The steps of the ticket lock

`step_turn` sorts the steps of a process by what they mean for tickets, the handler map, the
two locks and the tasks that finish a command. Everything else stands aside (`Aside`): the
registers, the commands of other processes, the ready queue.
-/

namespace AtomicDiscDrive
namespace Executor

open Utils

/-- A step that concerns neither tickets nor the tasks that finish a command. -/
structure Aside (s s' : Process) : Prop where
  calls : s'.calls = s.calls
  pcs : s'.pcs = s.pcs
  sectorCounters : s'.sectorCounters = s.sectorCounters
  handlers : s'.msgIdHandlerSectorIdx = s.msgIdHandlerSectorIdx
  handlerLock : s'.handlerLock = s.handlerLock
  countersLock : s'.countersLock = s.countersLock
  finishing : s'.finishing = s.finishing
  handings : s'.handings = s.handings

theorem Aside.of_bank (s : Process) (bank : Bank) (systems : List SystemTask)
    (readyRegisters : List ℕ) : Aside s { s with bank, systems, readyRegisters } :=
  ⟨rfl, rfl, rfl, rfl, rfl, rfl, rfl, rfl⟩

/-- Counter and `total_finished` of a sector. -/
def Process.counters (s : Process) (sector : SectorIdx) : ℕ × ℕ :=
  (s.sectorCounters sector).getD (0, 0)

/-- The steps of a process, as the ticket lock sees them. -/
inductive Turn (N R : ℕ) (selfIdent : UInt8) (s : Process) : Action → Process → Prop where
  | aside {a : Action} {s' : Process} (h : Aside s s') (hclient : ∀ t, a ≠ .client t)
      (hfinish : ∀ j written, a ≠ .finish j written)
      (hcall : ∀ i, a = .call i → s.bank.completing i = none)
      (ha : a ≠ .crash ∧ a ≠ .restart ∧ a ≠ .dispatch ∧ (∀ cmd, a ≠ .submit cmd) ∧
        ∀ id, a ≠ .reject id) :
      Turn N R selfIdent s a s'
  | spawn {i : ℕ} {bank : Bank} {t : Callback} {op : OperationComplete}
      (hcompleting : s.bank.completing i = some (t, op)) :
      Turn N R selfIdent s (.call i)
        { s with bank, finishing := s.finishing ++ [s.finishTask t op] }
  | reject {requestIdentifier : UInt64} :
      Turn N R selfIdent s (.reject requestIdentifier)
        { s with finishing := s.finishing ++ [⟨requestIdentifier, .respond⟩] }
  | submit {cmd : ClientRegisterCommand} :
      Turn N R selfIdent s (.submit cmd) (s.invoke ⟨s.calls.length, cmd, none⟩)
  | dispatch {r : Recovered} {startup : List Recovered} (hstartup : s.startup = r :: startup) :
      Turn N R selfIdent s .dispatch
        { s.invoke ⟨r.operation, r.cmd, some r.register⟩ with
          startup
          dispatching := some s.calls.length }
  | ticket {t : Callback} {call : Call} (hcall : s.calls[t]? = some call)
      (hpc : s.pcs t = .ticket) (hfree : s.countersLock = none) :
      Turn N R selfIdent s (.client t)
        { s.move t (.check (s.counters call.sector).1) with
          sectorCounters := Function.update s.sectorCounters call.sector
            (some ((s.counters call.sector).1 + 1, (s.counters call.sector).2)) }
  | owns {t : Callback} {call : Call} {c : ℕ} {entry : ℕ × ℕ} (hcall : s.calls[t]? = some call)
      (hpc : s.pcs t = .check c) (hfree : s.countersLock = none)
      (hentry : s.sectorCounters call.sector = some entry) (hc : c = entry.2) :
      Turn N R selfIdent s (.client t) (s.move t .owner)
  | defers {t : Callback} {call : Call} {c : ℕ} {entry : ℕ × ℕ} (hcall : s.calls[t]? = some call)
      (hpc : s.pcs t = .check c) (hfree : s.countersLock = none)
      (hentry : s.sectorCounters call.sector = some entry) (hc : c ≠ entry.2) :
      Turn N R selfIdent s (.client t) (s.move t (.yield c))
  | parks {t : Callback} {call : Call} {c : ℕ} (hcall : s.calls[t]? = some call)
      (hpc : s.pcs t = .yield c) :
      Turn N R selfIdent s (.client t) (s.move t (.parked c))
  | take {t : Callback} {call : Call} {i : ℕ} {readyRegisters : List ℕ}
      (hcall : s.calls[t]? = some call) (hpc : s.pcs t = .owner) :
      Turn N R selfIdent s (.client t) { s.move t (.index i) with readyRegisters }
  | enter {t : Callback} {call : Call} {i : ℕ} (hcall : s.calls[t]? = some call)
      (hpc : s.pcs t = .index i) (hfree : s.handlerLock = none) :
      Turn N R selfIdent s (.client t)
        { s.move t (.entered i) with
          msgIdHandlerSectorIdx := Function.update s.msgIdHandlerSectorIdx
            (.fromRequest call.cmd.header.requestIdentifier) (some (i, call.sector)) }
  | hand {t : Callback} {call : Call} {i : ℕ} (hcall : s.calls[t]? = some call)
      (hpc : s.pcs t = .entered i) :
      Turn N R selfIdent s (.client t)
        { s.move t (.handed i) with
          bank := s.bank.deliver i (.client call.cmd t)
          handings := s.handings ++ [⟨i, t, s.unfired i⟩] }
  | respond {j : ℕ} {written : Bool} {task : FinishTask} (hj : s.finishing[j]? = some task)
      (hpc : task.pc = .respond) :
      Turn N R selfIdent s (.finish j written)
        (s.setFinish j task (if written then .remove else .done))
  | missing {j : ℕ} {written : Bool} {task : FinishTask} (hj : s.finishing[j]? = some task)
      (hpc : task.pc = .remove) (hfree : s.handlerLock = none)
      (hnone : s.msgIdHandlerSectorIdx (.fromRequest task.requestIdentifier) = none) :
      Turn N R selfIdent s (.finish j written) (s.setFinish j task .done)
  | removes {j : ℕ} {written : Bool} {task : FinishTask} {entry : ℕ × SectorIdx}
      (hj : s.finishing[j]? = some task) (hpc : task.pc = .remove) (hfree : s.handlerLock = none)
      (hentry : s.msgIdHandlerSectorIdx (.fromRequest task.requestIdentifier) = some entry) :
      Turn N R selfIdent s (.finish j written)
        { s.setFinish j task (.count entry.2) with
          msgIdHandlerSectorIdx := Function.update s.msgIdHandlerSectorIdx
            (.fromRequest task.requestIdentifier) none
          handlerLock := some j }
  | counts {j : ℕ} {written : Bool} {task : FinishTask} {sector : SectorIdx} {entry : ℕ × ℕ}
      (hj : s.finishing[j]? = some task) (hpc : task.pc = .count sector)
      (hfree : s.countersLock = none) (hentry : s.sectorCounters sector = some entry) :
      Turn N R selfIdent s (.finish j written)
        { s.setFinish j task (.notify sector) with
          sectorCounters := Function.update s.sectorCounters sector (some (entry.1, entry.2 + 1))
          countersLock := some j }
  | notifies {j : ℕ} {written : Bool} {task : FinishTask} {sector : SectorIdx}
      (hj : s.finishing[j]? = some task) (hpc : task.pc = .notify sector) :
      Turn N R selfIdent s (.finish j written)
        { s.setFinish j task .done with
          pcs := s.wake sector
          handlerLock := none
          countersLock := none }
  | crash : Turn N R selfIdent s .crash (s.crash N selfIdent)
  | restart {s' : Process} (h : s.restart N R selfIdent = some s') :
      Turn N R selfIdent s .restart s'

variable {N R : ℕ} {selfIdent : UInt8} {s s' : Process}

theorem clientStep_turn {t : Callback} (h : s.clientStep t = some s') :
    Turn N R selfIdent s (.client t) s' := by
  unfold Process.clientStep at h
  split at h
  · cases h
  rename_i call hcall
  split at h
  · rename_i hpc
    split at h
    · rename_i hfree
      cases h
      exact .ticket hcall hpc hfree
    · cases h
  · rename_i c hpc
    split at h
    · rename_i hfree
      split at h
      · cases h
      · rename_i entry hentry
        cases h
        by_cases hc : c = entry.2
        · rw [if_pos hc]
          exact .owns hcall hpc hfree hentry hc
        · rw [if_neg hc]
          exact .defers hcall hpc hfree hentry hc
    · cases h
  · rename_i c hpc
    cases h
    exact .parks hcall hpc
  · rename_i hpc
    split at h
    · cases h
    · cases h
      exact .take hcall hpc
  · rename_i i hpc
    split at h
    · rename_i hfree
      cases h
      exact .enter hcall hpc hfree
    · cases h
  · rename_i i hpc
    cases h
    exact .hand hcall hpc
  · cases h

theorem finishStep_turn {j : ℕ} {written : Bool} (h : s.finishStep j written = some s') :
    Turn N R selfIdent s (.finish j written) s' := by
  unfold Process.finishStep at h
  split at h
  · cases h
  rename_i task hj
  split at h
  · rename_i hpc
    cases h
    exact .respond hj hpc
  · rename_i hpc
    split at h
    · rename_i hfree
      split at h
      · rename_i hnone
        cases h
        exact .missing hj hpc hfree hnone
      · rename_i entry hentry
        cases h
        exact .removes hj hpc hfree hentry
    · cases h
  · rename_i sector hpc
    split at h
    · rename_i hfree
      split at h
      · cases h
      · rename_i entry hentry
        cases h
        exact .counts hj hpc hfree hentry
    · cases h
  · rename_i sector hpc
    cases h
    exact .notifies hj hpc
  · cases h

theorem systemStep_aside {j : ℕ} (h : s.systemStep j = some s') : Aside s s' := by
  unfold Process.systemStep at h
  split at h
  · cases h
  split at h
  · split at h
    · split at h
      · cases h
      · cases h
        exact .of_bank ..
    · split at h
      · split at h <;> cases h <;> exact .of_bank ..
      · cases h
  · cases h
    exact .of_bank ..
  · cases h

theorem restart_aside (h : s.restart N R selfIdent = some s') : Aside s s' := by
  unfold Process.restart at h
  split at h
  · cases h
    exact ⟨rfl, rfl, rfl, rfl, rfl, rfl, rfl, rfl⟩
  · cases h

/-- **Every step is one of these.** -/
theorem step_turn {a : Action} (h : s.step N R selfIdent a = some s') :
    Turn N R selfIdent s a s' := by
  unfold Process.step at h
  split at h
  · cases a with
    | submit cmd =>
      simp only [Process.run] at h
      split at h
      · cases h
        exact .submit
      · cases h
    | reject requestIdentifier =>
      cases h
      exact .reject
    | dispatch =>
      simp only [Process.run, Process.dispatch] at h
      split at h
      · cases h
      · rename_i r startup hstartup
        split at h
        · cases h
          exact .dispatch hstartup
        · cases h
    | client t => exact clientStep_turn h
    | arrive cmd origin =>
      cases h
      exact .aside (.of_bank ..) (by simp) (by simp) (by simp) (by simp)
    | system j => exact .aside (systemStep_aside h) (by simp) (by simp) (by simp) (by simp)
    | announce i =>
      simp only [Process.run] at h
      split at h
      · obtain ⟨bank, _, rfl⟩ := Option.map_eq_some_iff.mp h
        exact .aside (.of_bank ..) (by simp) (by simp) (by simp) (by simp)
      · cases h
    | receive i iter =>
      simp only [Process.run] at h
      split at h
      · obtain ⟨bank, _, rfl⟩ := Option.map_eq_some_iff.mp h
        exact .aside (.of_bank ..) (by simp) (by simp) (by simp) (by simp)
      · cases h
    | call i =>
      simp only [Process.run, Process.callStep] at h
      split at h
      · split at h
        · cases h
        · rename_i bank hbank
          cases h
          cases hcompleting : s.bank.completing i with
          | none =>
            refine .aside (.of_bank ..) (by simp) (by simp) (fun k hk => ?_) (by simp)
            cases hk
            exact hcompleting
          | some x => exact .spawn hcompleting
      · cases h
    | finish j written => exact finishStep_turn h
    | crash =>
      cases h
      exact .crash
    | restart => cases h
  · cases a with
    | restart => exact .restart h
    | _ => cases h

end Executor
end AtomicDiscDrive
