import AtomicDiscDrive.Executor.Records

/-!
# A completed write is not issued again

What a restart returns has not been completed (`completed_not_reissued`), as long as client
commands receive the indices of free registers only and recovered commands go back to the
registers they were found in.

The start-up loop of the code hands a recovered command to whichever register is ready. The
record then stays behind in the register it was found in, and the next restart returns a
write that has been answered (`reissued_after_completion`).
-/

namespace AtomicDiscDrive
namespace Executor

open Utils

variable {N R : ℕ} {selfIdent : UInt8} {s s' : Process}

/-- The steps in which client commands receive the indices of free registers, and recovered
ones those of the registers they were found in. -/
def Process.SentHome (s : Process) (a : Action) : Prop := s.TakesFree a ∧ s.TakesHome a

instance (s : Process) (a : Action) : Decidable (s.SentHome a) := instDecidableAnd

/-- All that is known of a process whose recovered commands go home. -/
structure Recorded (N R : ℕ) (selfIdent : UInt8) (s : Process) : Prop where
  occupied : Occupied N selfIdent s
  placed : Placed s
  ledger : Ledger R s

theorem recorded_init : Recorded N R selfIdent (.init N selfIdent) :=
  ⟨occupied_init, placed_init, ledger_init⟩

theorem recorded_step {a : Action} (h : Recorded N R selfIdent s) (hhome : s.SentHome a)
    (hstep : s.step N R selfIdent a = some s') : Recorded N R selfIdent s' :=
  ⟨occupied_step h.occupied hhome.1 hstep, placed_step h.occupied h.placed hstep,
    ledger_step h.occupied h.placed h.ledger hhome.1 hhome.2 hstep⟩

theorem recorded_reachable {allowed : Process → Action → Prop}
    (hallowed : ∀ s a, allowed s a → s.SentHome a)
    (hs : Reachable (Process.step N R selfIdent) allowed (.init N selfIdent) s) :
    Recorded N R selfIdent s :=
  hs.invariant _ recorded_init fun _ _ _ _ h ha hstep => recorded_step h (hallowed _ _ ha) hstep

/-- What has been completed stays completed. -/
theorem fired_step {a : Action} {k : ℕ} (h : Recorded N R selfIdent s) (hk : s.Fired k)
    (hstep : s.step N R selfIdent a = some s') : s'.Fired k := by
  have hsubset : s'.calls = s.calls → (∀ f ∈ s.bank.fired, f ∈ s'.bank.fired) → s'.Fired k :=
    fun hcalls hfired => by
      obtain ⟨f, hf, hop⟩ := hk
      exact ⟨f, hfired f hf, (operationOf_congr hcalls f.1).trans hop⟩
  cases step_event hstep with
  | shuffle _ hs => exact hsubset hs.calls fun f hf => by rw [hs.bank]; exact hf
  | submit _ => exact ((invokes_submit s _).fired h.placed).mpr hk
  | dispatch _ _ => exact ((invokes_dispatch s _ _ _).fired h.placed).mpr hk
  | receive _ hrec =>
    obtain ⟨_, _, hr⟩ := h.occupied.reception hrec
    refine hsubset rfl fun f hf => ?_
    show f ∈ Bank.fired _
    rw [hr.receives.fired]
    exact hf
  | @call i _ _ _ hcall =>
    exact hsubset rfl fun f hf =>
      (Bank.call_cases hcall (h.occupied.register i).steady).fired_subset hf
  | restart hrestart =>
    have hr := h.occupied.restarted hrestart
    exact hsubset hr.calls fun f hf => by rw [hr.fired]; exact hf
  | _ => exact hsubset rfl fun f hf => hf

/-- What has been stored stays in the history. -/
theorem stored_step {a : Action} {x : ℕ × Callback} (hocc : Occupied N selfIdent s)
    (hx : x ∈ s.bank.stored) (hstep : s.step N R selfIdent a = some s') : x ∈ s'.bank.stored := by
  cases step_event hstep with
  | shuffle _ hs =>
    rw [hs.bank]
    exact hx
  | receive _ hrec =>
    obtain ⟨_, _, hrc⟩ := hocc.reception hrec
    show x ∈ Bank.stored _
    rw [hrc.receives.stored]
    exact hx
  | @call i _ _ _ hcall =>
    have hacts := Bank.call_cases hcall (hocc.register i).steady
    obtain ⟨_, hdeed⟩ := (hocc.register i).call hacts
    show x ∈ Bank.stored _
    cases hdeed with
    | quiet hsame _ _ _ =>
      rw [hsame.stored]
      exact hx
    | put _ _ _ _ _ _ _ hstored =>
      rw [hstored]
      exact List.mem_append_left _ hx
    | complete _ _ _ _ _ _ hstored _ _ =>
      rw [hstored]
      exact hx
  | restart hrestart =>
    rw [(hocc.restarted hrestart).stored]
    exact hx
  | _ => exact hx

theorem startup_of_restart (hocc : Occupied N selfIdent s)
    (hrestart : s.step N R selfIdent .restart = some s') :
    s'.startup = s.pendingCmds N R selfIdent := by
  cases step_event hrestart with
  | shuffle ha _ => exact absurd rfl ha
  | restart h => exact (hocc.restarted h).startup

/-- **A completed write is not issued again**, in every run in which client commands receive
the indices of free registers only and recovered commands those of the registers they were
found in: once the callback of a call of the operation has fired, no later restart returns
the operation. -/
theorem completed_not_reissued {s'' : Process} {k : ℕ}
    (hs : Reachable (Process.step N R selfIdent) Process.SentHome (.init N selfIdent) s)
    (hk : s.Fired k) (hs' : Reachable (Process.step N R selfIdent) Process.SentHome s s')
    (hrestart : s'.step N R selfIdent .restart = some s'') :
    ∀ r ∈ s''.startup, r.operation ≠ k := by
  have hinv : Recorded N R selfIdent s' ∧ s'.Fired k := by
    refine hs'.invariant (fun s => Recorded N R selfIdent s ∧ s.Fired k)
      ⟨recorded_reachable (fun _ _ ha => ha) hs, hk⟩ ?_
    rintro s a s' - ⟨hrecorded, hk⟩ ha hstep
    exact ⟨recorded_step hrecorded ha hstep, fired_step hrecorded hk hstep⟩
  obtain ⟨hrecorded, hk'⟩ := hinv
  rintro r hr rfl
  rw [startup_of_restart hrecorded.occupied hrestart] at hr
  exact hrecorded.ledger.unfired _ r (mem_pendingCmds.mp hr).2 hk'

set_option maxRecDepth 100000 in
/-- The first write is completed and the second one in progress when the process crashes:
the second one is returned. -/
theorem second_write_returned : ∃ s s' : Process, s.Fired 0 ∧
    s.step 1 1 1 .restart = some s' ∧
    s'.startup = [⟨1, ⟨⟨8, 1⟩, .write (.fill 2)⟩, 0⟩] ∧ ∀ r ∈ s'.startup, r.operation ≠ 0 := by
  have hrun : ∃ s, Reachable (Process.step 1 1 1) Process.SentHome (.init 1 1) s ∧
      s.Fired 0 ∧ (s.step 1 1 1 .restart).map Process.startup =
        some [⟨1, ⟨⟨8, 1⟩, .write (.fill 2)⟩, 0⟩] :=
    exists_of_exec (writeRun ++ [.submit ⟨⟨8, 1⟩, .write (.fill 2)⟩] ++ handOver 1 ++
      handleNext 0 2 ++ [.crash]) (by decide +kernel)
  obtain ⟨s, hs, hfired, hstartup⟩ := hrun
  obtain ⟨s', hrestart, hstartup⟩ := Option.map_eq_some_iff.mp hstartup
  exact ⟨s, s', hfired, hrestart, hstartup, completed_not_reissued hs hfired .init hrestart⟩

/-- Register 0 stores a write, and the process crashes. After the restart register 1 is
ready first; it is handed the recovered write and carries it out. -/
def strayRecovery : List Action :=
  let header (readIdent : UInt64) : SystemCommandHeader := ⟨1, .fromRequest 7, readIdent, 0⟩
  [.announce 0, .submit ⟨⟨7, 0⟩, .write (.fill 1)⟩] ++ handOver 0 ++ handleNext 0 2 ++
  [.crash, .restart, .announce 1, .dispatch] ++ handOver 1 ++ handleNext 1 2 ++
  hear 0 ⟨header 1, .readProc⟩ ⟨1, 1⟩ ++ handleNext 1 3 ++
  hear 1 ⟨header 1, .value 0 0 .new⟩ ⟨1, 1⟩ ++ handleNext 1 2 ++
  hear 2 ⟨header 2, .writeProc 1 1 (.fill 1)⟩ ⟨1, 3⟩ ++ handleNext 1 4 ++
  hear 3 ⟨header 2, .ack⟩ ⟨1, 3⟩ ++ handleNext 1 2

set_option maxRecDepth 100000 in
/-- The write has been completed by register 1, but the record of register 0 is still there:
the next restart returns the write again. -/
theorem reissued_after_completion :
    ∃ s s', Reachable (Process.step 1 2 1) (fun _ _ => True) (.init 1 1) s ∧ s.Fired 0 ∧
      s.step 1 2 1 .restart = some s' ∧
      s'.startup = [⟨0, ⟨⟨7, 0⟩, .write (.fill 1)⟩, 0⟩] := by
  have hrun : ∃ s, Reachable (Process.step 1 2 1) (fun _ _ => True) (.init 1 1) s ∧
      s.Fired 0 ∧ (s.step 1 2 1 .restart).map Process.startup =
        some [⟨0, ⟨⟨7, 0⟩, .write (.fill 1)⟩, 0⟩] :=
    exists_of_exec (strayRecovery ++ [.crash]) (by decide +kernel)
  obtain ⟨s, hs, hfired, hstartup⟩ := hrun
  obtain ⟨s', hrestart, hstartup⟩ := Option.map_eq_some_iff.mp hstartup
  exact ⟨s, s', hs, hfired, hrestart, hstartup⟩

end Executor
end AtomicDiscDrive
