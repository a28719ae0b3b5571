import AtomicDiscDrive.Protocol.Atomicity

/-!
# What a delivery comes to

The handlers once more, now as functions of the state: a register in order handles every
packet it may be given, none of its `unwrap`s meets a `None`, and what it leaves behind is
one of a few states (`Outcome`).
-/

namespace AtomicDiscDrive
namespace Protocol

open Utils AtomicRegisterImplementation

variable {N R : ℕ} {s s' : System} {g : Ghost} {p : UInt8} {r : ℕ} {k : ℕ} {o : Operation}
  {packet : Packet} {iter : IterOrder}

/-- A register that serves a command is busy. -/
theorem Serves.busy {register : AtomicRegisterImplementation} {cmd : ClientRegisterCommand}
    (h : Serves register cmd) : register.Busy = true := by
  unfold Serves at h
  split at h
  · simp [Busy, h.1]
  · simp [Busy, h.2.1]

/-- A busy register in order serves an operation. -/
theorem RegisterOk.serving_of_busy {register : AtomicRegisterImplementation}
    (h : RegisterOk N s g p r register) (hbusy : register.Busy = true) :
    ∃ k o, register.callback = some k ∧ s.operations k = some o ∧ o.process = p ∧
      o.register = r ∧ o.InProgress ∧ Serves register o.cmd ∧
      (ReadPhase N s g p r register k o ∨ WritePhase N s g p r register k o) := by
  rcases h.serving with hidle | hserving
  · rw [Busy, hidle.1, hidle.2.1] at hbusy
    simp at hbusy
  · exact hserving

/-- The values a handler unwraps are there. -/
theorem RegisterOk.readval_ne_none {register : AtomicRegisterImplementation}
    (h : RegisterOk N s g p r register) (hreading : register.reading = true) :
    register.readval ≠ none := by
  obtain ⟨k, o, -, -, -, -, -, hserves, -⟩ := h.serving_of_busy (by simp [Busy, hreading])
  unfold Serves at hserves
  split at hserves
  · obtain ⟨-, -, d, hd⟩ := hserves
    simp [hd]
  · rw [hserves.1] at hreading
    simp at hreading

theorem RegisterOk.writeval_ne_none {register : AtomicRegisterImplementation}
    (h : RegisterOk N s g p r register) (hreading : register.reading = false)
    (hwriting : register.state.writing = true) : register.state.writeval ≠ none := by
  obtain ⟨k, o, -, -, -, -, -, hserves, -⟩ := h.serving_of_busy (by simp [Busy, hwriting])
  unfold Serves at hserves
  split at hserves
  · rw [hserves.1] at hreading
    simp at hreading
  · simp [hserves.2.2]

/-! ## `ReadProc` and `WriteProc` -/

/-- A `ReadProc` is answered with what the process stores. -/
abbrev answeredRead (N : ℕ) (s : System) (p : UInt8) (r : ℕ) (packet : Packet) : System :=
  calmCommit N s p r ((s.processes p).registers r) (s.processes p).files
    [replyTo p packet (.value (s.tagAt p packet.cmd.header.sectorIdx).timestamp
      (s.tagAt p packet.cmd.header.sectorIdx).writeRank
      ((s.processes p).files.readData packet.cmd.header.sectorIdx))]

/-- A `WriteProc` is stored, if it is newer, and acknowledged. -/
abbrev answeredWrite (N : ℕ) (s : System) (p : UInt8) (r : ℕ) (packet : Packet) (t : Tag)
    (d : SectorVec) : System :=
  calmCommit N s p r ((s.processes p).registers r)
    (storeIfNewer (s.processes p).files packet.cmd.header.sectorIdx t.timestamp t.writeRank d)
    [replyTo p packet .ack]

theorem RegisterOk.handle_readProc (h : RegisterOk N s g p r ((s.processes p).registers r))
    (hcontent : packet.cmd.content = .readProc) :
    s.handle N p r (((s.processes p).registers r).systemCommand iter packet.cmd) =
      some (answeredRead N s p r packet) := by
  have hrun : s.handle N p r (((s.processes p).registers r).handleReadProc packet.cmd.header) =
      some (calmCommit N s p r ((s.processes p).registers r) (s.processes p).files
        [replyTo ((s.processes p).registers r).selfIdent packet
          (.value (s.tagAt p packet.cmd.header.sectorIdx).timestamp
            (s.tagAt p packet.cmd.header.sectorIdx).writeRank
            ((s.processes p).files.readData packet.cmd.header.sectorIdx))]) := rfl
  rw [h.selfIdent] at hrun
  rw [systemCommand, hcontent]
  exact hrun

theorem RegisterOk.handle_writeProc (h : RegisterOk N s g p r ((s.processes p).registers r))
    {t : Tag} {d : SectorVec} (hcontent : packet.cmd.content = .writeProc t.timestamp t.writeRank d) :
    s.handle N p r (((s.processes p).registers r).systemCommand iter packet.cmd) =
      some (answeredWrite N s p r packet t d) := by
  have hrun : s.handle N p r (if (s.processes p).files.tag packet.cmd.header.sectorIdx < t then
      writeSector packet.cmd.header.sectorIdx (d, t.timestamp, t.writeRank) >>= fun _ =>
        ((s.processes p).registers r).acknowledge packet.cmd.header
      else ((s.processes p).registers r).acknowledge packet.cmd.header) =
      some (calmCommit N s p r ((s.processes p).registers r)
        (storeIfNewer (s.processes p).files packet.cmd.header.sectorIdx t.timestamp t.writeRank d)
        [replyTo ((s.processes p).registers r).selfIdent packet .ack]) := by
    rw [storeIfNewer]
    by_cases hlt : (s.processes p).files.tag packet.cmd.header.sectorIdx < t
    · rw [if_pos hlt, if_pos hlt]
      rfl
    · rw [if_neg hlt, if_neg hlt]
      rfl
  rw [h.selfIdent] at hrun
  rw [systemCommand, hcontent]
  exact hrun

/-! ## Replies -/

/-- What a `Value` or an `Ack` comes to. -/
inductive Outcome (N : ℕ) (s : System) (p : UInt8) (r : ℕ) (packet : Packet) : System → Prop where
  /-- it is of another phase -/
  | stale (hid : packet.cmd.header.readIdent ≠ ((s.processes p).registers r).state.readIdent) :
      Outcome N s p r packet
        (calmCommit N s p r ((s.processes p).registers r) (s.processes p).files [])
  /-- a `Value` short of a majority -/
  | collected (value : UInt64 × UInt8 × SectorVec)
      (hcontent : packet.cmd.content = .value value.1 value.2.1 value.2.2)
      (hfew : ¬ (((s.processes p).registers r).Busy = true ∧
        (((s.processes p).registers r).collect packet.cmd.header.processIdentifier
          value).ReadQuorum)) :
      Outcome N s p r packet (calmCommit N s p r (((s.processes p).registers r).collect
        packet.cmd.header.processIdentifier value) (s.processes p).files [])
  /-- an `Ack` short of a majority -/
  | counted (hcontent : packet.cmd.content = .ack)
      (hfew : ¬ (((s.processes p).registers r).Busy = true ∧
        (((s.processes p).registers r).count packet.cmd.header.processIdentifier).AckQuorum)) :
      Outcome N s p r packet (calmCommit N s p r (((s.processes p).registers r).count
        packet.cmd.header.processIdentifier) (s.processes p).files [])
  /-- the `Value` that opens the write phase -/
  | chose {k : ℕ} {o : Operation} (register : AtomicRegisterImplementation) (t : Tag)
      (d : SectorVec) (hcb : ((s.processes p).registers r).callback = some k)
      (ho : s.operations k = some o) (hop : o.process = p) (hor : o.register = r)
      (hcb' : register.callback = some k) (hvalue : IsWritePhase packet.cmd = false) :
      Outcome N s p r packet (choseTag N s p r o register t d)
  /-- the `Ack` that completes the operation -/
  | completed {k : ℕ} {o : Operation} (register : AtomicRegisterImplementation)
      (stable : Option AtomicRegisterStorageState) (c : OperationComplete)
      (hcb : ((s.processes p).registers r).callback = some k) (ho : s.operations k = some o)
      (hop : o.process = p) (hor : o.register = r) (hidle : Idle register)
      (hack : IsWritePhase packet.cmd = true) :
      Outcome N s p r packet (completed N s p r k register stable c)

section Replies

variable (hI : Invariant N R s g) (hp : IsProcess N p) (hr : r < R)
  (hup : (s.processes p).up = true) (iter)
include hI hp hr hup

theorem Invariant.value_outcome (hmem : packet ∈ s.net) (htarget : p.toNat = packet.target)
    (hh : Handled s packet r) (value : UInt64 × UInt8 × SectorVec)
    (hcontent : packet.cmd.content = .value value.1 value.2.1 value.2.2) :
    ∃ s', s.handle N p r (((s.processes p).registers r).systemCommand iter packet.cmd) = some s' ∧
      Outcome N s p r packet s' := by
  have hreg := hI.registers p r hp hr hup
  have hcases := handleValue_cases iter ((s.processes p).registers r) packet.cmd.header value
  -- the operation that a `Value` with the register's phase identifier is for
  have hfor : packet.cmd.header.readIdent = ((s.processes p).registers r).state.readIdent →
      ((s.processes p).registers r).Busy = true → ∃ k o,
      ((s.processes p).registers r).callback = some k ∧ s.operations k = some o ∧
      o.process = p ∧ o.register = r ∧
      packet.cmd.header.msgIdent = o.msgIdent ∧ packet.cmd.header.sectorIdx = o.sector := by
    intro hid hbusy
    obtain ⟨k, o, hcb, ho, hop, hor, -, -, hphases⟩ := hreg.serving_of_busy hbusy
    obtain ⟨hmsg, hsec, -, -⟩ := reply_serving hI hp hr hup hmem htarget hh hid
      (by simp [IsReply, hcontent]) hcb ho hphases
    exact ⟨k, o, hcb, ho, hop, hor, hmsg, hsec⟩
  have hkind : IsWritePhase packet.cmd = false := by simp [IsWritePhase, hcontent]
  rw [systemCommand, hcontent]
  simp only []
  generalize handleValue iter ((s.processes p).registers r) packet.cmd.header value = prog
    at hcases
  cases hcases with
  | stale hid => exact ⟨_, rfl, .stale hid⟩
  | collected hid hfew => exact ⟨_, rfl, .collected value hcontent hfew⟩
  | @read max readval hid hreading hquorum hmax hval =>
    obtain ⟨k, o, hcb, ho, hop, hor, hmsg, hsec⟩ := hfor hid (by simp [Busy, hreading])
    rw [enterWritePhase_eq, hmsg, hsec]
    exact ⟨_, rfl, .chose _ (entryTag max) max.2.2.2 hcb ho hop hor hcb hkind⟩
  | @write max writeval hid hreading hwriting hquorum hmax hval =>
    obtain ⟨k, o, hcb, ho, hop, hor, hmsg, hsec⟩ := hfor hid (by simp [Busy, hwriting])
    rw [enterWritePhase_eq, hmsg, hsec]
    exact ⟨_, rfl, .chose _ ⟨max.2.1 + 1, _⟩ writeval.data hcb ho hop hor hcb hkind⟩
  | panicRead hid hreading hval => exact absurd hval (hreg.readval_ne_none hreading)
  | panicWrite hid hreading hwriting hval =>
    exact absurd hval (hreg.writeval_ne_none hreading hwriting)

theorem Invariant.ack_outcome (hcontent : packet.cmd.content = .ack) :
    ∃ s', s.handle N p r (((s.processes p).registers r).systemCommand iter packet.cmd) = some s' ∧
      Outcome N s p r packet s' := by
  have hreg := hI.registers p r hp hr hup
  have hcases := handleAck_cases ((s.processes p).registers r) packet.cmd.header
  have hkind : IsWritePhase packet.cmd = true := by simp [IsWritePhase, hcontent]
  rw [systemCommand, hcontent]
  simp only []
  generalize handleAck ((s.processes p).registers r) packet.cmd.header = prog at hcases
  cases hcases with
  | stale hid => exact ⟨_, rfl, .stale hid⟩
  | counted hid hfew => exact ⟨_, rfl, .counted hcontent hfew⟩
  | @read readval hid hreading hquorum hval =>
    obtain ⟨k, o, hcb, ho, hop, hor, -, hserves, -⟩ :=
      hreg.serving_of_busy (by simp [Busy, hreading])
    rw [complete_some (show ((s.processes p).registers r).endRead.callback = some k from hcb)]
    have hwriting : ((s.processes p).registers r).state.writing = false := by
      unfold Serves at hserves
      split at hserves
      · exact hserves.2.1
      · rw [hserves.1] at hreading
        simp at hreading
    exact ⟨_, rfl, .completed _ _ _ hcb ho hop hor ⟨rfl, hwriting, rfl⟩ hkind⟩
  | @write writeval hid hreading hwriting hquorum hval =>
    obtain ⟨k, o, hcb, ho, hop, hor, -⟩ := hreg.serving_of_busy (by simp [Busy, hwriting])
    rw [complete_some (show ((s.processes p).registers r).endWrite.callback = some k from hcb)]
    exact ⟨_, rfl, .completed _ _ _ hcb ho hop hor ⟨hreading, rfl, rfl⟩ hkind⟩
  | panicRead hid hreading hval => exact absurd hval (hreg.readval_ne_none hreading)
  | panicWrite hid hreading hwriting hval =>
    exact absurd hval (hreg.writeval_ne_none hreading hwriting)

end Replies

end Protocol
end AtomicDiscDrive
