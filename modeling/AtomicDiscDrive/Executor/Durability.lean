import AtomicDiscDrive.Executor.Recovery

/-!
# An unfinished write is not lost

A write that has been stored and not completed has a record, or its callback is the next
call of its register (`Lasting`). So as long as no crash falls between the last store of a
write and its callback, the record is there when the process comes up again
(`unfinished_not_lost`).

This takes what the module before takes, that a recovered command goes back to the register
it was found in. In the code it may be stored by another register in place of the write
that was found there, and with a crash right then the other write is gone
(`overwritten_by_recovery`).
-/

namespace AtomicDiscDrive
namespace Executor

open Utils

variable {N R : ℕ} {selfIdent : UInt8} {s s' : Process} {a : Action}

/-- Register `i` has a record of the operation, or is about to report its completion. -/
def Process.Keeps (s : Process) (i operation : ℕ) : Prop :=
  (∃ r, s.recordAt i = some r ∧ r.operation = operation) ∨
    ∃ t op, s.bank.inHand i = some t ∧ s.bank.due i = [.operationComplete t op] ∧
      s.operationOf t = operation

/-- **Every stored write that is not completed is kept.** -/
def Lasting (s : Process) : Prop :=
  ∀ x ∈ s.bank.stored, ¬ s.Fired (s.operationOf x.2) → s.Keeps x.1 (s.operationOf x.2)

theorem Lasting.frame (h : Lasting s) (hstored : s'.bank.stored = s.bank.stored)
    (hop : ∀ x ∈ s.bank.stored, s'.operationOf x.2 = s.operationOf x.2)
    (hfired : ∀ k, s.Fired k → s'.Fired k)
    (hkeeps : ∀ x ∈ s.bank.stored, ¬ s'.Fired (s.operationOf x.2) →
      s.Keeps x.1 (s.operationOf x.2) → s'.Keeps x.1 (s.operationOf x.2)) : Lasting s' := by
  intro x hx hnot
  rw [hstored] at hx
  rw [hop x hx] at hnot ⊢
  exact hkeeps x hx hnot (h x hx fun hf => hnot (hfired _ hf))

/-- A register that looks the same. -/
theorem Keeps.congr {i k : ℕ} (h : s.Keeps i k) (hrec : s'.recordAt i = s.recordAt i)
    (hhand : s'.bank.inHand i = s.bank.inHand i) (hdue : s'.bank.due i = s.bank.due i)
    (hop : ∀ t, s.bank.inHand i = some t → s'.operationOf t = s.operationOf t) : s'.Keeps i k := by
  rcases h with ⟨r, hr, hk⟩ | ⟨t, op, hin, hd, hk⟩
  · exact .inl ⟨r, hrec.trans hr, hk⟩
  · exact .inr ⟨t, op, hhand.trans hin, hdue.trans hd, (hop t hin).trans hk⟩

theorem Keeps.same {i k : ℕ} (h : s.Keeps i k) (hcalls : s'.calls = s.calls)
    (hsame : Bank.SameAt s.bank s'.bank i) : s'.Keeps i k :=
  Keeps.congr h (recordAt_congr hcalls hsame.stable hsame.storedBy) hsame.inHand hsame.due
    fun t _ => operationOf_congr hcalls t

/-- Steps that change no register. -/
theorem lasting_of_bank (h : Lasting s) (hcalls : s'.calls = s.calls)
    (hstable : s'.bank.stable = s.bank.stable) (hstoredBy : s'.bank.storedBy = s.bank.storedBy)
    (hstored : s'.bank.stored = s.bank.stored) (hfired : s'.bank.fired = s.bank.fired)
    (hhand : ∀ i, s'.bank.inHand i = s.bank.inHand i)
    (hdue : ∀ i, s'.bank.due i = s.bank.due i) : Lasting s' := by
  refine h.frame hstored (fun x _ => operationOf_congr hcalls x.2)
    (fun k hk => (Fired.congr hcalls hfired).mpr hk) fun x _ _ hkeeps => ?_
  exact Keeps.congr hkeeps (recordAt_congr hcalls (by rw [hstable]) (by rw [hstoredBy]))
    (hhand x.1) (hdue x.1) fun t _ => operationOf_congr hcalls t

theorem lasting_invoke (hr : Recorded N R selfIdent s) (h : Lasting s) {call : Call}
    (hi : Invokes s s' call) : Lasting s' := by
  refine h.frame (by rw [hi.bank]) (fun x hx => hi.operationOf (hr.placed.stored x hx).1)
    (fun k hk => (hi.fired hr.placed).mpr hk) fun x _ _ hkeeps => ?_
  refine Keeps.congr hkeeps (hi.recordAt hr.ledger.books hr.placed x.1) (by rw [hi.bank])
    (by rw [hi.bank]) fun t hin => hi.operationOf ?_
  obtain ⟨c, hc⟩ := Mode.known (hin ▸ (hr.occupied.register x.1).mode)
  exact (List.getElem?_eq_some_iff.mp hc).1

theorem lasting_receive (hocc : Occupied N selfIdent s) (h : Lasting s) {i : ℕ} {iter : IterOrder}
    (hrec : s.bank.receive i iter = some s'.bank) (hcalls : s'.calls = s.calls) : Lasting s' := by
  obtain ⟨msg, mailbox, hr⟩ := hocc.reception hrec
  have hrest : s.bank.Resting i := Bank.resting_of_eq hr.receives.waiting (.inr rfl)
  refine h.frame hr.receives.stored (fun x _ => operationOf_congr hcalls x.2)
    (fun k hk => (Fired.congr hcalls hr.receives.fired).mpr hk) fun x _ _ hkeeps => ?_
  by_cases hx : x.1 = i
  · rw [hx] at hkeeps ⊢
    rcases hkeeps with ⟨r, hri, hk⟩ | ⟨t, op, _, hd, _⟩
    · refine .inl ⟨r, ?_, hk⟩
      rw [recordAt_congr hcalls (by rw [hr.receives.stable]) (by rw [hr.receives.storedBy])]
      exact hri
    · rw [hrest.due] at hd
      cases hd
  · exact Keeps.same hkeeps hcalls (hr.receives.others x.1 hx)

theorem lasting_call (hr : Recorded N R selfIdent s) (h : Lasting s) {i : ℕ}
    (hc : CallStep s s' i) : Lasting s' := by
  have hop : ∀ t, s'.operationOf t = s.operationOf t := operationOf_congr hc.calls
  cases hc.posting hr.occupied hr.placed hr.ledger with
  | none hsame hhand hdue =>
    refine h.frame hsame.stored (fun x _ => hop x.2)
      (fun k hk => (Fired.congr hc.calls hsame.fired).mpr hk) fun x _ _ hkeeps => ?_
    by_cases hx : x.1 = i
    swap
    · exact Keeps.same hkeeps hc.calls (hc.acts.others x.1 hx)
    rw [hx] at hkeeps ⊢
    rcases hkeeps with ⟨r, hri, hk⟩ | ⟨t, op, hin, hd, hk⟩
    · refine .inl ⟨r, ?_, hk⟩
      rw [recordAt_congr hc.calls (by rw [hsame.stable]) (by rw [hsame.storedBy])]
      exact hri
    · refine .inr ⟨t, op, hhand.trans hin, ?_, (hop t).trans hk⟩
      rcases hdue with hdue | ⟨out, hdue⟩
      · exact hdue.trans hd
      · rw [hdue] at hd
        cases hd
  | @put t call state hin hhand hcall hdue hfired hentry =>
    -- at register `i` only a record can have kept a write
    have hold : ∀ x ∈ s.bank.stored, ¬ s'.Fired (s.operationOf x.2) → x.1 = i →
        ∃ r, s.recordAt i = some r ∧ r.operation = s.operationOf x.2 := fun x hx hnot hxi => by
      have hkeeps := h x hx fun hf => hnot ((Fired.congr hc.calls hfired).mpr hf)
      rw [hxi] at hkeeps
      rcases hkeeps with hkeeps | ⟨u, op, _, hd, _⟩
      · exact hkeeps
      · rw [hdue] at hd
        cases hd
    have hframe : s'.bank.stored = s.bank.stored →
        (∀ r, s.recordAt i = some r → s'.Keeps i r.operation) → Lasting s' := fun hstored hat => by
      refine h.frame hstored (fun x _ => hop x.2)
        (fun k hk => (Fired.congr hc.calls hfired).mpr hk) fun x hx hnot hkeeps => ?_
      by_cases hxi : x.1 = i
      · obtain ⟨r, hri, hk⟩ := hold x hx hnot hxi
        rw [hxi, ← hk]
        exact hat r hri
      · exact Keeps.same hkeeps hc.calls (hc.acts.others x.1 hxi)
    cases hentry with
    | opened hwrite hun hfresh hhome hstored _ _ hrec =>
      intro x hx hnot
      rw [hop] at hnot ⊢
      rw [hstored, List.mem_append, List.mem_singleton] at hx
      rcases hx with hx | rfl
      · by_cases hxi : x.1 = i
        · obtain ⟨r, hri, hk⟩ := hold x hx hnot hxi
          rw [hxi, ← hk]
          cases hs : call.source with
          | none =>
            rw [hfresh hs] at hri
            cases hri
          | some j =>
            rw [(hhome j hs).2] at hri
            cases hri
            exact .inl ⟨_, hrec, rfl⟩
        · refine Keeps.same (h x hx ?_) hc.calls (hc.acts.others x.1 hxi)
          exact fun hf => hnot ((Fired.congr hc.calls hfired).mpr hf)
      · exact .inl ⟨_, hrec, (operationOf_of_call hcall).symm⟩
    | kept _ _ hstored _ _ hbefore hrec =>
      refine hframe hstored fun r hri => .inl ⟨r, ?_, rfl⟩
      exact hrec.trans (hbefore.symm.trans hri)
    | @closed op _ _ hstored _ hdue' hbefore hrec =>
      refine hframe hstored fun r hri => .inr ⟨t, op, hhand, hdue', ?_⟩
      rw [hbefore] at hri
      cases hri
      exact (hop t).trans (operationOf_of_call hcall)
    | read _ hstored _ hbefore hrec =>
      refine hframe hstored fun r hri => ?_
      rw [hbefore] at hri
      cases hri
  | @complete t op hin hnone hdue hstable hstoredBy hstored hfired =>
    refine h.frame hstored (fun x _ => hop x.2) ?_ fun x hx hnot hkeeps => ?_
    · rintro k ⟨f, hf, hk⟩
      refine ⟨f, ?_, (hop f.1).trans hk⟩
      rw [hfired]
      exact List.mem_append_left _ hf
    · by_cases hxi : x.1 = i
      swap
      · exact Keeps.same hkeeps hc.calls (hc.acts.others x.1 hxi)
      rw [hxi] at hkeeps ⊢
      rcases hkeeps with ⟨r, hri, hk⟩ | ⟨u, op', hinu, _, hk⟩
      · refine .inl ⟨r, ?_, hk⟩
        rw [recordAt_congr hc.calls (by rw [hstable]) (by rw [hstoredBy])]
        exact hri
      · -- it has just been completed
        rw [hin] at hinu
        cases hinu
        refine absurd ⟨(t, op), ?_, (hop t).trans hk⟩ hnot
        rw [hfired]
        exact List.mem_append_right _ (List.mem_singleton_self _)

/-- A call of the operation of a stored write is a write. -/
theorem Books.write_of_stored (h : Books R s) {x : ℕ × Callback} {t : Callback} {call : Call}
    (hx : x ∈ s.bank.stored) (hcall : s.calls[t]? = some call)
    (hop : s.operationOf t = s.operationOf x.2) : call.cmd.content ≠ .read := by
  obtain ⟨_, c, hc, hwrite⟩ := h.stored x hx
  obtain ⟨orig, horig, _, hcmd⟩ := h.original t call hcall
  obtain ⟨orig', horig', _, hcmd'⟩ := h.original _ c hc
  rw [operationOf_of_call hcall, operationOf_of_call hc] at hop
  rw [hop, horig'] at horig
  cases horig
  rw [← hcmd, hcmd']
  exact hwrite

theorem completing_of_due {b : Bank} {i : ℕ} {t : Callback} {op : OperationComplete}
    {ops : List RegisterOp} (hsteady : b.Steady i)
    (hdue : b.due i = .operationComplete t op :: ops) : b.completing i = some (t, op) := by
  cases hw : b.workers i with
  | running msg rest =>
    have hforeseen := hsteady msg rest hw
    rw [hdue] at hforeseen
    obtain ⟨next, rfl⟩ := hforeseen.head
    unfold Bank.completing
    rw [hw]
  | ready =>
    rw [(Bank.resting_of_eq hw (.inl rfl)).due] at hdue
    cases hdue
  | waiting =>
    rw [(Bank.resting_of_eq hw (.inr rfl)).due] at hdue
    cases hdue

theorem lasting_crash (hr : Recorded N R selfIdent s) (h : Lasting s)
    (hapart : s.CrashesApart R .crash) : Lasting (s.crash N selfIdent) := by
  refine h.frame rfl (fun x _ => rfl) (fun k hk => hk) fun x hx _ hkeeps => ?_
  rcases hkeeps with hkeeps | ⟨t, op, hin, hdue, hk⟩
  · exact .inl hkeeps
  · -- the crash does not fall between the last store of a write and its callback
    have hok := hr.occupied.register x.1
    have hmode := hok.mode
    rw [hdue] at hmode
    obtain ⟨_, _, _, call, hcall, hanswer⟩ := hmode.complete
    have hwrite := hr.ledger.books.write_of_stored hx hcall hk
    refine absurd ?_ (hapart x.1 (hr.ledger.books.stored x hx).1 (t, op)
      (completing_of_due hok.steady hdue))
    cases hcontent : call.cmd.content with
    | read => exact absurd hcontent hwrite
    | write data => exact hanswer.write data hcontent

theorem lasting_restart (hocc : Occupied N selfIdent s) (h : Lasting s)
    (hrestart : s.restart N R selfIdent = some s') : Lasting s' := by
  have hr := hocc.restarted hrestart
  have hdown : s.up = false := by
    unfold Process.restart at hrestart
    split at hrestart
    · rename_i hcond
      exact hcond.1
    · cases hrestart
  refine h.frame hr.stored (fun x _ => operationOf_congr hr.calls x.2)
    (fun k hk => (Fired.congr hr.calls hr.fired).mpr hk) fun x _ _ hkeeps => ?_
  rcases hkeeps with ⟨r, hri, hk⟩ | ⟨t, op, hin, _, _⟩
  · refine .inl ⟨r, ?_, hk⟩
    rw [recordAt_congr hr.calls (by rw [hr.stable]) (by rw [hr.storedBy])]
    exact hri
  · obtain ⟨s₀, rfl⟩ := hocc.down hdown
    cases hin

theorem lasting_step (hr : Recorded N R selfIdent s) (h : Lasting s)
    (hapart : s.CrashesApart R a) (hstep : s.step N R selfIdent a = some s') : Lasting s' := by
  cases step_event hstep with
  | shuffle _ hs =>
    exact lasting_of_bank h hs.calls (by rw [hs.bank]) (by rw [hs.bank]) (by rw [hs.bank])
      (by rw [hs.bank]) (fun i => by rw [hs.bank]) fun i => by rw [hs.bank]
  | submit _ => exact lasting_invoke hr h (invokes_submit s _)
  | dispatch _ _ => exact lasting_invoke hr h (invokes_dispatch s _ _ _)
  | take _ _ _ => exact lasting_of_bank h rfl rfl rfl rfl rfl (fun i => rfl) fun i => rfl
  | hand _ _ => exact lasting_of_bank h rfl rfl rfl rfl rfl (fun i => rfl) fun i => rfl
  | deliver _ _ => exact lasting_of_bank h rfl rfl rfl rfl rfl (fun i => rfl) fun i => rfl
  | @announce i _ hw =>
    exact lasting_of_bank h rfl rfl rfl rfl rfl (Bank.inHand_waiting hw) (Bank.due_waiting hw)
  | receive _ hrec => exact lasting_receive hr.occupied h hrec rfl
  | @call i _ _ _ hcall =>
    have hacts := Bank.call_cases hcall (hr.occupied.register i).steady
    exact lasting_call hr h ⟨hacts, rfl, rfl, rfl, rfl, rfl⟩
  | crash => exact lasting_crash hr h hapart
  | restart hrestart => exact lasting_restart hr.occupied h hrestart

/-! ## The law, and how it fails -/

/-- The record of an operation has the command of its calls. -/
theorem Books.record_cmd (h : Books R s) {i : ℕ} {r : Recovered} {t : Callback} {call : Call}
    (hrec : s.recordAt i = some r) (hcall : s.calls[t]? = some call)
    (hop : r.operation = call.operation) : r.cmd = call.cmd := by
  obtain ⟨_, c, hc, hcmd⟩ := h.record i r hrec
  obtain ⟨orig, horig, _, hsame⟩ := h.original t call hcall
  obtain ⟨orig', horig', _, hsame'⟩ := h.original _ c hc
  have hopc := (recordAt_eq_some hrec).2.2.1
  rw [operationOf_of_call hc] at hopc
  rw [← hopc, hop, horig] at horig'
  cases horig'
  rw [← hcmd, ← hsame', hsame]

/-- **An unfinished write is not lost**, in every run in which client commands receive the
indices of free registers only, recovered commands those of the registers they were found
in, and no crash falls between the last store of a write and its callback: a write that
`client_command` has stored is returned by every later restart before its callback has
fired. -/
theorem unfinished_not_lost {s'' : Process} {i : ℕ} {t : Callback}
    (hs : Reachable (Process.step N R selfIdent) (fun s a => s.SentHome a ∧ s.CrashesApart R a)
      (.init N selfIdent) s)
    (hstored : (i, t) ∈ s.bank.stored)
    (hs' : Reachable (Process.step N R selfIdent) (fun s a => s.SentHome a ∧ s.CrashesApart R a)
      s s')
    (hunfired : ¬ s'.Fired (s'.operationOf t))
    (hrestart : s'.step N R selfIdent .restart = some s'') :
    ∃ call, s'.calls[t]? = some call ∧
      ∃ r ∈ s''.startup, r.operation = call.operation ∧ r.cmd = call.cmd := by
  have hinit : Recorded N R selfIdent s ∧ Lasting s := by
    refine hs.invariant (fun s => Recorded N R selfIdent s ∧ Lasting s)
      ⟨recorded_init, fun x hx => absurd hx List.not_mem_nil⟩ ?_
    rintro s a s' - ⟨hr, hlasting⟩ ⟨hhome, hapart⟩ hstep
    exact ⟨recorded_step hr hhome hstep, lasting_step hr hlasting hapart hstep⟩
  have hinv : Recorded N R selfIdent s' ∧ Lasting s' ∧ (i, t) ∈ s'.bank.stored := by
    refine hs'.invariant (fun s => Recorded N R selfIdent s ∧ Lasting s ∧ (i, t) ∈ s.bank.stored)
      ⟨hinit.1, hinit.2, hstored⟩ ?_
    rintro s a s' - ⟨hr, hlasting, hmem⟩ ⟨hhome, hapart⟩ hstep
    exact ⟨recorded_step hr hhome hstep, lasting_step hr hlasting hapart hstep,
      stored_step hr.occupied hmem hstep⟩
  obtain ⟨hr, hlasting, hmem⟩ := hinv
  obtain ⟨hi, call, hcall, _⟩ := hr.ledger.books.stored _ hmem
  refine ⟨call, hcall, ?_⟩
  have hdown : s'.up = false := by
    unfold Process.step at hrestart
    split at hrestart
    · cases hrestart
    · rename_i hup
      exact Bool.not_eq_true _ ▸ hup
  rcases hlasting _ hmem hunfired with ⟨r, hrec, hop⟩ | ⟨u, op, hin, _, _⟩
  · rw [operationOf_of_call hcall] at hop
    refine ⟨r, ?_, hop, hr.ledger.books.record_cmd hrec hcall hop⟩
    rw [startup_of_restart hr.occupied hrestart]
    obtain rfl := (recordAt_eq_some hrec).2.1
    exact mem_pendingCmds.mpr ⟨hi, hrec⟩
  · -- nothing is in hand in a process that is down
    obtain ⟨s₀, rfl⟩ := hr.occupied.down hdown
    cases hin

/-- Two writes are stored, in registers 0 and 1, and the process crashes. -/
def twoWrites : List Action :=
  [.announce 0, .announce 1, .submit ⟨⟨7, 0⟩, .write (.fill 1)⟩] ++ handOver 0 ++
  [.submit ⟨⟨8, 1⟩, .write (.fill 2)⟩] ++ handOver 1 ++ handleNext 0 2 ++ handleNext 1 2 ++
  [.crash]

set_option maxRecDepth 100000 in
theorem two_writes_returned : ∃ s s' : Process, (1, 1) ∈ s.bank.stored ∧ s.bank.fired = [] ∧
    s.step 3 2 1 .restart = some s' ∧
    ∃ r ∈ s'.startup, r.operation = 1 ∧ r.cmd = ⟨⟨8, 1⟩, .write (.fill 2)⟩ := by
  have hrun : ∃ s, Reachable (Process.step 3 2 1)
      (fun s a => s.SentHome a ∧ s.CrashesApart 2 a) (.init 3 1) s ∧
      (1, 1) ∈ s.bank.stored ∧ s.bank.fired = [] ∧
      s.calls[1]? = some ⟨1, ⟨⟨8, 1⟩, .write (.fill 2)⟩, none⟩ ∧
      (s.step 3 2 1 .restart).isSome = true :=
    exists_of_exec twoWrites (by decide +kernel)
  obtain ⟨s, hs, hstored, hfired, hcall, hsome⟩ := hrun
  obtain ⟨s', hrestart⟩ := Option.isSome_iff_exists.mp hsome
  have hunfired : ¬ s.Fired (s.operationOf 1) := by
    rintro ⟨f, hf, _⟩
    rw [hfired] at hf
    cases hf
  obtain ⟨call, hcall', hr⟩ := unfinished_not_lost hs hstored .init hunfired hrestart
  rw [hcall] at hcall'
  cases hcall'
  exact ⟨s, s', hstored, hfired, hrestart, hr⟩

/-- After the restart register 1 is ready first: it is handed the write of register 0, and
stores it in place of its own. The process crashes again. -/
def overwriting : List Action :=
  twoWrites ++ [.restart, .announce 1, .dispatch] ++ handOver 2 ++ [.receive 1 .listed, .call 1, .crash]

set_option maxRecDepth 100000 in
/-- Every register has been given one command at a time. The second write is stored and not
completed, and the restart returns the first one twice. -/
theorem overwritten_by_recovery :
    ∃ s s', Reachable (Process.step 3 2 1) Process.TakesFree (.init 3 1) s ∧
      (1, 1) ∈ s.bank.stored ∧ s.bank.fired = [] ∧ s.operationOf 1 = 1 ∧
      s.step 3 2 1 .restart = some s' ∧
      s'.startup = [⟨0, ⟨⟨7, 0⟩, .write (.fill 1)⟩, 0⟩, ⟨0, ⟨⟨7, 0⟩, .write (.fill 1)⟩, 1⟩] := by
  have hrun : ∃ s, Reachable (Process.step 3 2 1) Process.TakesFree (.init 3 1) s ∧
      (1, 1) ∈ s.bank.stored ∧ s.bank.fired = [] ∧ s.operationOf 1 = 1 ∧
      (s.step 3 2 1 .restart).map Process.startup =
        some [⟨0, ⟨⟨7, 0⟩, .write (.fill 1)⟩, 0⟩, ⟨0, ⟨⟨7, 0⟩, .write (.fill 1)⟩, 1⟩] :=
    exists_of_exec overwriting (by decide +kernel)
  obtain ⟨s, hs, hstored, hfired, hop, hstartup⟩ := hrun
  obtain ⟨s', hrestart, hstartup⟩ := Option.map_eq_some_iff.mp hstartup
  exact ⟨s, s', hs, hstored, hfired, hop, hrestart, hstartup⟩

end Executor
end AtomicDiscDrive
