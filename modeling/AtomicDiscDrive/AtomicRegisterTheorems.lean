import AtomicDiscDrive.AtomicRegister

/-!
# What the handlers of a register do

Case by case, the program a handler is: which calls are left once its tests on the
register have been decided. Everything below `system_command` is used through these
equations, whether handlers run in one step or interleave.
-/

namespace AtomicDiscDrive

open Utils

/-! ## The maximum of the readlist -/

namespace Readlist

/-- Entries after an insertion are the new one and old ones of other processes. -/
theorem mem_insert_entries {l : Readlist} {q : UInt8} {v : UInt64 × UInt8 × SectorVec}
    {e : ReadlistEntry} (h : e ∈ (l.insert q v).entries) :
    e = ⟨q, v⟩ ∨ e ∈ l.entries ∧ e.1 ≠ q := by
  rw [AList.entries_insert, List.mem_cons] at h
  rcases h with h | h
  · exact .inl h
  · refine .inr ⟨(List.kerase_sublist q l.entries).subset h, ?_⟩
    intro heq
    have hk : e.1 ∈ (List.kerase q l.entries).keys := List.mem_keys_of_mem h
    exact List.notMem_keys_kerase q l.nodupKeys (heq ▸ hk)

/-- The processes with an entry are as many as there are entries. -/
theorem card_keys (l : Readlist) : l.keys.toFinset.card = l.entries.length := by
  rw [AList.keys, List.toFinset_card_of_nodup l.nodupKeys, List.keys, List.length_map]

end Readlist

namespace AtomicRegisterImplementation

variable {self : AtomicRegisterImplementation} {header : SystemCommandHeader}

/-- `max_by_key` returns an entry, and none has a larger tag. -/
theorem maxEntry_spec {iter : IterOrder} {l : Readlist} {max : ReadlistEntry}
    (h : maxEntry iter l = some max) :
    max ∈ l.entries ∧ ∀ e ∈ l.entries, entryTag e ≤ entryTag max := by
  have hmem : ∀ e, e ∈ (iter.order l.entries).reverse ↔ e ∈ l.entries := fun e => by
    rw [List.mem_reverse, (iter.perm l.entries).mem_iff]
  refine ⟨(hmem max).mp (List.argmax_mem h), fun e he => ?_⟩
  exact List.le_of_mem_argmax ((hmem e).mpr he) h

theorem exists_maxEntry (iter : IterOrder) {l : Readlist} (h : l.entries ≠ []) :
    ∃ max, maxEntry iter l = some max := by
  rw [← Option.ne_none_iff_exists']
  intro hnone
  rw [maxEntry, List.argmax_eq_none, List.reverse_eq_nil_iff] at hnone
  have hperm := iter.perm l.entries
  rw [hnone] at hperm
  exact h hperm.nil_eq.symm

/-! ## `Value` -/

/-- An operation is in progress, as the handlers see it. -/
abbrev Busy (self : AtomicRegisterImplementation) : Bool := self.reading || self.state.writing

/-- The register with a `Value` entered in its `readlist`. -/
def collect (self : AtomicRegisterImplementation) (q : UInt8)
    (value : UInt64 × UInt8 × SectorVec) : AtomicRegisterImplementation :=
  { self with readlist := self.readlist.insert q value }

/-- More than half of the processes have an entry. -/
abbrev ReadQuorum (self : AtomicRegisterImplementation) : Prop :=
  self.processesCount < 2 * self.readlist.entries.length

/-- The register at the end of the read phase of a read: it keeps the data it will
return. -/
def chooseRead (self : AtomicRegisterImplementation) (requestIdentifier : UInt64)
    (data : SectorVec) : AtomicRegisterImplementation :=
  { self with readlist := ∅, acks := ∅, readval := some ⟨requestIdentifier, data⟩ }

/-- The register at the end of the read phase of a write. -/
def chooseWrite (self : AtomicRegisterImplementation) : AtomicRegisterImplementation :=
  { self with readlist := ∅, acks := ∅ }

/-- The register under its next phase identifier. -/
def nextPhase (self : AtomicRegisterImplementation) : AtomicRegisterImplementation :=
  { self with state := { self.state with readIdent := self.state.readIdent + 1 } }

/-- The message that opens a phase of the register. -/
def phaseMessage (self : AtomicRegisterImplementation) (msgIdent : Uuid) (sectorIdx : SectorIdx)
    (content : SystemRegisterCommandContent) : SystemRegisterCommand :=
  ⟨⟨self.selfIdent, msgIdent, self.state.readIdent, sectorIdx⟩, content⟩

theorem clientCommand_eq (cmd : ClientRegisterCommand) (callback : Callback) :
    self.clientCommand cmd callback =
      .call (.put (self.startCommand cmd callback).state) fun _ =>
      .call (.broadcast ((self.startCommand cmd callback).phaseMessage
        (.fromRequest cmd.header.requestIdentifier) cmd.header.sectorIdx .readProc)) fun _ =>
      .done (self.startCommand cmd callback) := rfl

theorem enterWritePhase_eq (content : SystemRegisterCommandContent) :
    self.enterWritePhase header content =
      .call (.put self.nextPhase.state) fun _ =>
      .call (.broadcast (self.nextPhase.phaseMessage header.msgIdent header.sectorIdx content)) fun _ =>
      .done self.nextPhase := rfl

/-- The five ways a `Value` is handled. The last two are a majority without the value the
operation should have left in the register. -/
inductive ValueCase (iter : IterOrder) (self : AtomicRegisterImplementation)
    (header : SystemCommandHeader) (value : UInt64 × UInt8 × SectorVec) :
    RegisterProgram AtomicRegisterImplementation → Prop where
  | stale (hid : header.readIdent ≠ self.state.readIdent) :
      ValueCase iter self header value (.done self)
  | collected (hid : header.readIdent = self.state.readIdent)
      (hfew : ¬ (self.Busy ∧ (self.collect header.processIdentifier value).ReadQuorum)) :
      ValueCase iter self header value (.done (self.collect header.processIdentifier value))
  | read {max : ReadlistEntry} {readval : DataWithRequestIdentifier}
      (hid : header.readIdent = self.state.readIdent) (hreading : self.reading = true)
      (hquorum : (self.collect header.processIdentifier value).ReadQuorum)
      (hmax : maxEntry iter (self.readlist.insert header.processIdentifier value) = some max)
      (hval : self.readval = some readval) :
      ValueCase iter self header value
        ((self.chooseRead readval.requestIdentifier max.2.2.2).enterWritePhase header
          (.writeProc max.2.1 max.2.2.1 max.2.2.2))
  | write {max : ReadlistEntry} {writeval : DataWithHeader}
      (hid : header.readIdent = self.state.readIdent) (hreading : self.reading = false)
      (hwriting : self.state.writing = true)
      (hquorum : (self.collect header.processIdentifier value).ReadQuorum)
      (hmax : maxEntry iter (self.readlist.insert header.processIdentifier value) = some max)
      (hval : self.state.writeval = some writeval) :
      ValueCase iter self header value
        (self.chooseWrite.enterWritePhase header
          (.writeProc (max.2.1 + 1) self.selfIdent writeval.data))
  | panicRead (hid : header.readIdent = self.state.readIdent) (hreading : self.reading = true)
      (hval : self.readval = none) :
      ValueCase iter self header value (.call RegisterOp.panic Empty.elim)
  | panicWrite (hid : header.readIdent = self.state.readIdent) (hreading : self.reading = false)
      (hwriting : self.state.writing = true) (hval : self.state.writeval = none) :
      ValueCase iter self header value (.call RegisterOp.panic Empty.elim)

theorem handleValue_cases (iter : IterOrder) (self : AtomicRegisterImplementation)
    (header : SystemCommandHeader) (value : UInt64 × UInt8 × SectorVec) :
    ValueCase iter self header value (self.handleValue iter header value) := by
  by_cases hid : header.readIdent = self.state.readIdent
  · rw [handleValue, if_neg (not_not.mpr hid)]
    by_cases hq : self.Busy ∧ (self.collect header.processIdentifier value).ReadQuorum
    · have hcond : ((self.reading || self.state.writing) &&
          2 * (self.readlist.insert header.processIdentifier value).entries.length
            > self.processesCount) = true := by
        rw [Bool.and_eq_true, decide_eq_true_eq]
        exact hq
      -- the entry that has just been made keeps `max_by` from returning `None`
      obtain ⟨max, hmax⟩ := exists_maxEntry iter
        (l := self.readlist.insert header.processIdentifier value) (by simp)
      rw [if_pos hcond, hmax, unwrap_some, Program.done_bind]
      by_cases hreading : self.reading = true
      · rw [if_pos hreading]
        show ValueCase iter self header value (unwrap self.readval >>= fun readval =>
          (self.chooseRead readval.requestIdentifier max.2.2.2).enterWritePhase header
            (.writeProc max.2.1 max.2.2.1 max.2.2.2))
        cases hval : self.readval with
        | some readval => exact .read hid hreading hq.2 hmax hval
        | none =>
          rw [unwrap_none_bind]
          exact .panicRead hid hreading hval
      · rw [if_neg hreading]
        have hwriting : self.state.writing = true := by
          have := hq.1
          simp only [Busy, Bool.or_eq_true] at this
          exact this.resolve_left hreading
        rw [Bool.not_eq_true] at hreading
        show ValueCase iter self header value (unwrap self.state.writeval >>= fun writeval =>
          self.chooseWrite.enterWritePhase header
            (.writeProc (max.2.1 + 1) self.selfIdent writeval.data))
        cases hval : self.state.writeval with
        | some writeval => exact .write hid hreading hwriting hq.2 hmax hval
        | none =>
          rw [unwrap_none_bind]
          exact .panicWrite hid hreading hwriting hval
    · have hcond : ¬ ((self.reading || self.state.writing) &&
          2 * (self.readlist.insert header.processIdentifier value).entries.length
            > self.processesCount) = true := by
        rw [Bool.and_eq_true, decide_eq_true_eq]
        exact hq
      rw [if_neg hcond]
      exact .collected hid hq
  · rw [handleValue, if_pos hid]
    exact .stale hid

/-! ## `Ack` -/

/-- The register with an acknowledgement counted. -/
def count (self : AtomicRegisterImplementation) (q : UInt8) : AtomicRegisterImplementation :=
  { self with acks := insert q self.acks }

/-- More than half of the processes have acknowledged. -/
abbrev AckQuorum (self : AtomicRegisterImplementation) : Prop :=
  self.processesCount < 2 * self.acks.card

/-- The register after a read. -/
def endRead (self : AtomicRegisterImplementation) : AtomicRegisterImplementation :=
  { self with acks := ∅, reading := false }

/-- The register after a write. -/
def endWrite (self : AtomicRegisterImplementation) : AtomicRegisterImplementation :=
  { self with acks := ∅, state := { self.state with writing := false } }

/-- The ways an `Ack` is handled. -/
inductive AckCase (self : AtomicRegisterImplementation) (header : SystemCommandHeader) :
    RegisterProgram AtomicRegisterImplementation → Prop where
  | stale (hid : header.readIdent ≠ self.state.readIdent) : AckCase self header (.done self)
  | counted (hid : header.readIdent = self.state.readIdent)
      (hfew : ¬ (self.Busy ∧ (self.count header.processIdentifier).AckQuorum)) :
      AckCase self header (.done (self.count header.processIdentifier))
  | read {readval : DataWithRequestIdentifier} (hid : header.readIdent = self.state.readIdent)
      (hreading : self.reading = true)
      (hquorum : (self.count header.processIdentifier).AckQuorum)
      (hval : self.readval = some readval) :
      AckCase self header
        (self.endRead.complete readval.requestIdentifier (.read ⟨some readval.data⟩))
  | write {writeval : DataWithHeader} (hid : header.readIdent = self.state.readIdent)
      (hreading : self.reading = false) (hwriting : self.state.writing = true)
      (hquorum : (self.count header.processIdentifier).AckQuorum)
      (hval : self.state.writeval = some writeval) :
      AckCase self header (.call (.put self.endWrite.state) fun _ =>
        self.endWrite.complete writeval.header.requestIdentifier .write)
  | panicRead (hid : header.readIdent = self.state.readIdent) (hreading : self.reading = true)
      (hval : self.readval = none) :
      AckCase self header (.call RegisterOp.panic Empty.elim)
  | panicWrite (hid : header.readIdent = self.state.readIdent) (hreading : self.reading = false)
      (hwriting : self.state.writing = true) (hval : self.state.writeval = none) :
      AckCase self header (.call (.put self.endWrite.state) fun _ =>
        .call RegisterOp.panic Empty.elim)

theorem handleAck_cases (self : AtomicRegisterImplementation) (header : SystemCommandHeader) :
    AckCase self header (self.handleAck header) := by
  by_cases hid : header.readIdent = self.state.readIdent
  · rw [handleAck, if_neg (not_not.mpr hid)]
    by_cases hq : self.Busy ∧ (self.count header.processIdentifier).AckQuorum
    · have hcond : ((self.reading || self.state.writing) &&
          2 * (insert header.processIdentifier self.acks).card > self.processesCount) = true := by
        rw [Bool.and_eq_true, decide_eq_true_eq]
        exact hq
      rw [if_pos hcond]
      by_cases hreading : self.reading = true
      · rw [if_pos hreading]
        show AckCase self header (unwrap self.readval >>= fun readval =>
          self.endRead.complete readval.requestIdentifier (.read ⟨some readval.data⟩))
        cases hval : self.readval with
        | some readval => exact .read hid hreading hq.2 hval
        | none =>
          rw [unwrap_none_bind]
          exact .panicRead hid hreading hval
      · rw [if_neg hreading]
        have hwriting : self.state.writing = true := by
          have := hq.1
          simp only [Busy, Bool.or_eq_true] at this
          exact this.resolve_left hreading
        rw [Bool.not_eq_true] at hreading
        show AckCase self header (self.endWrite.storeState >>= fun _ =>
          unwrap self.state.writeval >>= fun writeval =>
            self.endWrite.complete writeval.header.requestIdentifier .write)
        cases hval : self.state.writeval with
        | some writeval => exact .write hid hreading hwriting hq.2 hval
        | none =>
          rw [unwrap_none_bind]
          exact .panicWrite hid hreading hwriting hval
    · have hcond : ¬ ((self.reading || self.state.writing) &&
          2 * (insert header.processIdentifier self.acks).card > self.processesCount) = true := by
        rw [Bool.and_eq_true, decide_eq_true_eq]
        exact hq
      rw [if_neg hcond]
      exact .counted hid hq
  · rw [handleAck, if_pos hid]
    exact .stale hid

/-- `complete` with a callback in place. -/
theorem complete_some {callback : Callback} (h : self.callback = some callback)
    (requestIdentifier : UInt64) (opReturn : OperationReturn) :
    self.complete requestIdentifier opReturn =
      .call (.operationComplete callback ⟨.ok, requestIdentifier, opReturn⟩) fun _ =>
      .done { self with callback := none } := by
  rw [complete, h]
  rfl

theorem complete_none (h : self.callback = none) (requestIdentifier : UInt64)
    (opReturn : OperationReturn) :
    self.complete requestIdentifier opReturn = .done self := by
  rw [complete, h]
  rfl

end AtomicRegisterImplementation

end AtomicDiscDrive
