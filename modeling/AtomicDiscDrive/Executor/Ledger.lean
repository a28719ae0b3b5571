import AtomicDiscDrive.Executor.Places

/-!
# The durable records of writes

The stable storage of a register holds the write it is in, until the write completes. What
a restart collects are these records. Two things keep them right: a register has at most
one client command (`Occupied`), and a recovered command goes back to the register it was
found in (`Process.TakesHome`). Then

* an operation is only ever stored in one register, its home (`Books`);
* a register has a record exactly while a write is in progress there, or waits to be
  dispatched again after a restart (`RecordAt`, `Startup`);
* no completed operation has a record (`Ledger.unfired`).
-/

namespace AtomicDiscDrive
namespace Executor

open Utils

/-! ## Records -/

/-- The record a restart would find in the stable storage of register `i`. -/
def Process.recordAt (s : Process) (i : ℕ) : Option Recovered :=
  match (s.bank.stableState i).writing, (s.bank.stableState i).writeval with
  | true, some writeval =>
    some ⟨s.operationOf (s.bank.storedBy i), ⟨writeval.header, .write writeval.data⟩, i⟩
  | _, _ => none

variable {N R : ℕ} {selfIdent : UInt8} {s s' : Process} {a : Action}

theorem recordAt_eq_some {i : ℕ} {r : Recovered} (h : s.recordAt i = some r) :
    (s.bank.stableState i).writing = true ∧ r.register = i ∧
      r.operation = s.operationOf (s.bank.storedBy i) ∧
      ∃ writeval, (s.bank.stableState i).writeval = some writeval ∧
        r.cmd = ⟨writeval.header, .write writeval.data⟩ := by
  unfold Process.recordAt at h
  split at h
  · rename_i writeval hwriting hval
    cases h
    exact ⟨hwriting, rfl, rfl, writeval, hval, rfl⟩
  · cases h

theorem recordAt_eq_none {i : ℕ} (h : (s.bank.stableState i).writing = false) :
    s.recordAt i = none := by
  unfold Process.recordAt
  rw [h]

theorem recordAt_of_writing {i : ℕ} {writeval : DataWithHeader}
    (hwriting : (s.bank.stableState i).writing = true)
    (hval : (s.bank.stableState i).writeval = some writeval) :
    s.recordAt i =
      some ⟨s.operationOf (s.bank.storedBy i), ⟨writeval.header, .write writeval.data⟩, i⟩ := by
  unfold Process.recordAt
  rw [hwriting, hval]

/-- What a restart collects are the records. -/
theorem recovered_eq_recordAt (N : ℕ) (selfIdent : UInt8) (s : Process) (i : ℕ) :
    s.recovered N selfIdent i = s.recordAt i := by
  unfold Process.recovered
  cases hr : s.bank.restored N selfIdent i with
  | none =>
    cases hrec : s.recordAt i with
    | none => rfl
    | some r =>
      -- with a write in stable storage `new` does not panic
      obtain ⟨hwriting, _, _, writeval, hval, _⟩ := recordAt_eq_some hrec
      unfold Bank.restored AtomicRegisterImplementation.new at hr
      have hcond : ((s.bank.stable i).getD .empty).writing = true := hwriting
      have hsome : ((s.bank.stable i).getD .empty).writeval = some writeval := hval
      simp only [hcond, if_true] at hr
      rw [hsome, unwrap_some, Program.done_bind] at hr
      cases hr
  | some x =>
    obtain ⟨register, cmd⟩ := x
    rcases restored_cases hr with ⟨hwriting, rfl, _⟩ | ⟨writeval, hwriting, hval, rfl, _⟩
    · rw [recordAt_eq_none hwriting]
    · rw [recordAt_of_writing hwriting hval]

theorem mem_pendingCmds {r : Recovered} :
    r ∈ s.pendingCmds N R selfIdent ↔ r.register < R ∧ s.recordAt r.register = some r := by
  unfold Process.pendingCmds
  simp only [List.mem_filterMap, List.mem_range, recovered_eq_recordAt]
  constructor
  · rintro ⟨i, hi, hrec⟩
    obtain rfl := (recordAt_eq_some hrec).2.1
    exact ⟨hi, hrec⟩
  · rintro ⟨hi, hrec⟩
    exact ⟨r.register, hi, hrec⟩

theorem pendingCmds_registers_nodup :
    ((s.pendingCmds N R selfIdent).map Recovered.register).Nodup := by
  unfold Process.pendingCmds
  rw [List.map_filterMap]
  refine List.Nodup.filterMap ?_ List.nodup_range
  intro i j r hi hj
  simp only [Option.mem_def, Option.map_eq_some_iff, recovered_eq_recordAt] at hi hj
  obtain ⟨x, hx, rfl⟩ := hi
  obtain ⟨y, hy, hxy⟩ := hj
  rw [← (recordAt_eq_some hx).2.1, ← (recordAt_eq_some hy).2.1, hxy]

theorem operationOf_of_call {t : Callback} {call : Call} (h : s.calls[t]? = some call) :
    s.operationOf t = call.operation := by
  unfold Process.operationOf
  rw [h]

theorem operationOf_congr (hcalls : s'.calls = s.calls) (t : Callback) :
    s'.operationOf t = s.operationOf t := by
  unfold Process.operationOf
  rw [hcalls]

theorem recordAt_congr {i : ℕ} (hcalls : s'.calls = s.calls)
    (hstable : s'.bank.stable i = s.bank.stable i)
    (hstoredBy : s'.bank.storedBy i = s.bank.storedBy i) : s'.recordAt i = s.recordAt i := by
  unfold Process.recordAt Bank.stableState
  rw [hstable, hstoredBy, operationOf_congr hcalls]

/-! ## The invariants -/

/-- Operations and the calls made for them. -/
structure Books (R : ℕ) (s : Process) : Prop where
  fresh : ∀ (t : ℕ) call, s.calls[t]? = some call → call.source = none → call.operation = t
  /-- a recovered command is a write that was stored in its source -/
  recovered : ∀ (t : ℕ) call j, s.calls[t]? = some call → call.source = some j →
    call.cmd.content ≠ .read ∧ ∃ x ∈ s.bank.stored, x.1 = j ∧ s.operationOf x.2 = call.operation
  original : ∀ (t : ℕ) call, s.calls[t]? = some call →
    ∃ orig, s.calls[call.operation]? = some orig ∧ orig.source = none ∧ orig.cmd = call.cmd
  stored : ∀ x ∈ s.bank.stored, x.1 < R ∧ ∃ call, s.calls[x.2]? = some call ∧
    call.cmd.content ≠ .read
  /-- the first call of an operation is stored first -/
  storedFirst : ∀ x ∈ s.bank.stored, ∃ y ∈ s.bank.stored, y.2 = s.operationOf x.2
  /-- an operation is stored in one register -/
  home : ∀ x ∈ s.bank.stored, ∀ y ∈ s.bank.stored,
    s.operationOf x.2 = s.operationOf y.2 → x.1 = y.1
  record : ∀ i r, s.recordAt i = some r → (i, s.bank.storedBy i) ∈ s.bank.stored ∧
    ∃ call, s.calls[s.bank.storedBy i]? = some call ∧ call.cmd = r.cmd

/-- The record of a register, by what the register is at. -/
inductive RecordAt (s : Process) (i : ℕ) : Prop where
  | vacant (hheld : s.HeldBy i none)
  /-- a new command finds no record, a recovered one its own -/
  | unstored {t : Callback} {call : Call} (hheld : s.HeldBy i (some t))
      (hcall : s.calls[t]? = some call) (hun : s.Unstored i t)
      (hfresh : call.source = none → s.recordAt i = none)
      (hhome : ∀ j, call.source = some j →
        j = i ∧ s.recordAt i = some ⟨call.operation, call.cmd, i⟩)
  | writing {t : Callback} {call : Call} (hhand : s.bank.inHand i = some t)
      (hcall : s.calls[t]? = some call) (hwrite : call.cmd.content ≠ .read)
      (hopen : ∀ op, s.bank.due i ≠ [.operationComplete t op])
      (hstored : (i, t) ∈ s.bank.stored)
      (hrec : s.recordAt i = some ⟨call.operation, call.cmd, i⟩)
  | closing {t : Callback} {call : Call} {op : OperationComplete}
      (hhand : s.bank.inHand i = some t) (hcall : s.calls[t]? = some call)
      (hdue : s.bank.due i = [.operationComplete t op])
      (hstored : call.cmd.content ≠ .read → (i, t) ∈ s.bank.stored)
      (hrec : s.recordAt i = none)
  | reading {t : Callback} {call : Call} (hhand : s.bank.inHand i = some t)
      (hcall : s.calls[t]? = some call) (hread : call.cmd.content = .read)
      (hrec : s.recordAt i = none)

/-- The start-up loop: recovered commands wait for registers that are vacant and still have
their records. -/
structure Startup (s : Process) : Prop where
  nodup : (s.startup.map Recovered.register).Nodup
  entry : ∀ r ∈ s.startup, s.recordAt r.register = some r ∧ s.HeldBy r.register none
  current : ∀ t call, s.dispatching = some t → s.calls[t]? = some call →
    (s.pcs t).taken = false → s.pcs t ≠ .lost →
    ∃ j, call.source = some j ∧ s.recordAt j = some ⟨call.operation, call.cmd, j⟩ ∧
      s.HeldBy j none ∧ ∀ r ∈ s.startup, r.register ≠ j
  recovered : ∀ (t : ℕ) call j, s.calls[t]? = some call → call.source = some j →
    s.pcs t ≠ .lost → (s.pcs t).taken = false → s.dispatching = some t
  /-- new commands come after the start-up loop -/
  fresh : ∀ (t : ℕ) call, s.calls[t]? = some call → call.source = none → s.pcs t ≠ .lost →
    s.Accepting
  vacant : s.up = true → ∀ i r, s.HeldBy i none → s.recordAt i = some r → r ∈ s.startup ∨
    ∃ t call, s.dispatching = some t ∧ s.calls[t]? = some call ∧ call.source = some i ∧
      (s.pcs t).taken = false ∧ s.pcs t ≠ .lost

/-- **The ledger.** -/
structure Ledger (R : ℕ) (s : Process) : Prop where
  books : Books R s
  records : ∀ i, RecordAt s i
  startup : Startup s
  unfired : ∀ i r, s.recordAt i = some r → ¬ s.Fired r.operation

/-! ## Steps that leave the records alone -/

theorem Fired.congr (hcalls : s'.calls = s.calls) (hfired : s'.bank.fired = s.bank.fired) {k : ℕ} :
    s'.Fired k ↔ s.Fired k := by
  unfold Process.Fired
  rw [hfired]
  simp only [operationOf_congr hcalls]

theorem Books.of_same (h : Books R s) (hcalls : s'.calls = s.calls)
    (hstable : s'.bank.stable = s.bank.stable) (hstoredBy : s'.bank.storedBy = s.bank.storedBy)
    (hstored : s'.bank.stored = s.bank.stored) : Books R s' := by
  have hop : ∀ t, s'.operationOf t = s.operationOf t := operationOf_congr hcalls
  have hrec : ∀ i, s'.recordAt i = s.recordAt i := fun i =>
    recordAt_congr hcalls (by rw [hstable]) (by rw [hstoredBy])
  constructor
  all_goals
    simp only [hcalls, hstored, hop, hrec, hstoredBy]
  · exact h.fresh
  · exact h.recovered
  · exact h.original
  · exact h.stored
  · exact h.storedFirst
  · exact h.home
  · exact h.record

/-- What is known of a register does not depend on the others. -/
theorem RecordAt.congr {i : ℕ} (h : RecordAt s i)
    (hcalls : ∀ (t : ℕ) call, s.calls[t]? = some call → s'.calls[t]? = some call)
    (hheld : ∀ holder, s.HeldBy i holder → s'.HeldBy i holder)
    (hun : ∀ t, s.Unstored i t → s'.Unstored i t) (hrec : s'.recordAt i = s.recordAt i)
    (hhand : s'.bank.inHand i = s.bank.inHand i) (hdue : s'.bank.due i = s.bank.due i)
    (hstored : ∀ x ∈ s.bank.stored, x ∈ s'.bank.stored) : RecordAt s' i := by
  cases h with
  | vacant hh => exact .vacant (hheld _ hh)
  | unstored hh hcall hu hfresh hhome =>
    exact .unstored (hheld _ hh) (hcalls _ _ hcall) (hun _ hu) (hrec ▸ hfresh) (hrec ▸ hhome)
  | writing hin hcall hwrite hopen hst hr =>
    exact .writing (hhand ▸ hin) (hcalls _ _ hcall) hwrite (hdue ▸ hopen) (hstored _ hst)
      (hrec ▸ hr)
  | closing hin hcall hd hst hr =>
    exact .closing (hhand ▸ hin) (hcalls _ _ hcall) (hdue ▸ hd) (fun hw => hstored _ (hst hw))
      (hrec ▸ hr)
  | reading hin hcall hread hr =>
    exact .reading (hhand ▸ hin) (hcalls _ _ hcall) hread (hrec ▸ hr)

theorem Accepting.mono (h : s.Accepting) (hstartup : s'.startup = s.startup)
    (hdispatching : s'.dispatching = s.dispatching)
    (hpcs : ∀ t, (s.pcs t).taken = true → (s.pcs t).grant = none →
      (s'.pcs t).taken = true ∧ (s'.pcs t).grant = none) : s'.Accepting := by
  refine ⟨hstartup.trans h.1, fun t ht => ?_⟩
  rw [hdispatching] at ht
  exact hpcs t (h.2 t ht).1 (h.2 t ht).2

/-- The start-up loop does not notice what happens to registers that are not vacant. -/
theorem Startup.of_same (h : Startup s) (hup : s'.up = s.up) (hcalls : s'.calls = s.calls)
    (hstartup : s'.startup = s.startup) (hdispatching : s'.dispatching = s.dispatching)
    (htaken : ∀ t, (s'.pcs t).taken = (s.pcs t).taken)
    (hlost : ∀ t, s.pcs t = .lost ↔ s'.pcs t = .lost)
    (hgrant : ∀ t, (s.pcs t).taken = true → (s.pcs t).grant = none → (s'.pcs t).grant = none)
    (hvacant : ∀ i, s.HeldBy i none → s'.HeldBy i none ∧ s'.recordAt i = s.recordAt i)
    (hvacant' : ∀ i r, s'.HeldBy i none → s'.recordAt i = some r →
      s.HeldBy i none ∧ s.recordAt i = some r) : Startup s' := by
  refine ⟨hstartup ▸ h.nodup, fun r hr => ?_, fun t call hd hc ht hl => ?_,
    fun t call j hc hs hl ht => ?_, fun t call hc hs hl => ?_, fun hu i r hi hr => ?_⟩
  · obtain ⟨hrec, hheld⟩ := h.entry r (hstartup ▸ hr)
    obtain ⟨hheld', hrec'⟩ := hvacant _ hheld
    exact ⟨hrec'.trans hrec, hheld'⟩
  · obtain ⟨j, hsource, hrec, hheld, hne⟩ := h.current t call (hdispatching ▸ hd) (hcalls ▸ hc)
      (htaken t ▸ ht) (fun h => hl ((hlost t).mp h))
    obtain ⟨hheld', hrec'⟩ := hvacant _ hheld
    exact ⟨j, hsource, hrec'.trans hrec, hheld', hstartup ▸ hne⟩
  · exact hdispatching ▸ h.recovered t call j (hcalls ▸ hc) hs (fun h => hl ((hlost t).mp h))
      (htaken t ▸ ht)
  · refine Accepting.mono (h.fresh t call (hcalls ▸ hc) hs (fun h => hl ((hlost t).mp h)))
      hstartup hdispatching fun u hu hg => ⟨?_, hgrant u hu hg⟩
    rw [htaken]
    exact hu
  · obtain ⟨hheld, hrec⟩ := hvacant' i r hi hr
    rcases h.vacant (hup ▸ hu) i r hheld hrec with hmem | ⟨t, call, hd, hc, hs, ht, hl⟩
    · exact .inl (hstartup ▸ hmem)
    · exact .inr ⟨t, call, hdispatching ▸ hd, hcalls ▸ hc, hs, (htaken t).trans ht,
        fun h => hl ((hlost t).mpr h)⟩

/-- A step that changes nothing but where idle tasks stand. -/
theorem Ledger.of_same (h : Ledger R s) (hup : s'.up = s.up) (hcalls : s'.calls = s.calls)
    (hstartup : s'.startup = s.startup) (hdispatching : s'.dispatching = s.dispatching)
    (htaken : ∀ t, (s'.pcs t).taken = (s.pcs t).taken)
    (hlost : ∀ t, s.pcs t = .lost ↔ s'.pcs t = .lost)
    (hgrant : ∀ t, (s.pcs t).taken = true → (s.pcs t).grant = none → (s'.pcs t).grant = none)
    (hstable : s'.bank.stable = s.bank.stable) (hstoredBy : s'.bank.storedBy = s.bank.storedBy)
    (hstored : s'.bank.stored = s.bank.stored) (hfired : s'.bank.fired = s.bank.fired)
    (hheld : ∀ i, s.HeldBy i none ↔ s'.HeldBy i none) (hrecords : ∀ i, RecordAt s' i) :
    Ledger R s' := by
  have hrec : ∀ i, s'.recordAt i = s.recordAt i := fun i =>
    recordAt_congr hcalls (by rw [hstable]) (by rw [hstoredBy])
  refine ⟨h.books.of_same hcalls hstable hstoredBy hstored, hrecords, ?_, fun i r hr => ?_⟩
  · exact h.startup.of_same hup hcalls hstartup hdispatching htaken hlost hgrant
      (fun i hi => ⟨(hheld i).mp hi, hrec i⟩) fun i r hi hr => ⟨(hheld i).mpr hi, hrec i ▸ hr⟩
  · rw [Fired.congr hcalls hfired]
    exact h.unfired i r (hrec i ▸ hr)

end Executor
end AtomicDiscDrive
