import AtomicDiscDrive.AtomicRegister
import AtomicDiscDrive.Storage.Errors

/-!
# What an `Ack` is worth

The `WriteProc` handler of a register, run on a sector store whose file operations may
fail (`serve`). `write` does not report that it failed, so the handler acknowledges
whatever happened, and other processes count the `Ack` towards their majority.

The `Ack` is kept exactly if the sector already had a tag that large, or the handler did
write and both its file writes took effect; `Recorded` says it, with the ways the handler
can panic before it has sent anything.
-/

namespace AtomicDiscDrive
namespace Storage

open Utils

/-! ## The handler on the store -/

/-- What becomes of the file operations of a handler: the read in `read_metadata`, and
those of `write`. -/
structure Outcomes where
  readFails : Bool
  faults : Faults

/-- The store under a handler, and the messages it has sent, with their targets. -/
structure Serving where
  manager : Manager
  disc : Disc
  sent : List (SystemRegisterCommand × ℕ)

/-- `read_metadata`: a file that cannot be read is taken to be absent. -/
def Manager.tryReadMetadata (self : Manager) (readFails : Bool) (disc : Disc) (idx : SectorIdx) :
    Option (UInt64 × UInt8) :=
  if readFails then some (0, 0) else self.readMetadata disc idx

/-- The calls of a handler. That of a `WriteProc` makes no others. -/
def serve (outcomes : Outcomes) : (op : RegisterOp) → Serving → Option (op.Answer × Serving)
  | .readData idx, s => some (s.manager.readData s.disc idx, s)
  | .readMetadata idx, s =>
    (s.manager.tryReadMetadata outcomes.readFails s.disc idx).map fun metadata => (metadata, s)
  | .writeData idx data, s =>
    some (outcomes.faults.dataWrite.isNone,
      { s with disc := s.disc.writeData outcomes.faults.dataWrite idx data })
  | .writeMetadata idx timestamp writeRank, s =>
    (s.manager.writeMetadata s.disc outcomes.faults.metadataRead outcomes.faults.metadataWrite
      ⟨idx, timestamp, writeRank⟩).map fun state =>
        (outcomes.faults.metadataWrite.isNone, { s with manager := state.1, disc := state.2 })
  | .send cmd target, s => some ((), { s with sent := s.sent ++ [(cmd, target)] })
  | _, _ => none

/-- The two calls of `writeSector` are `SectorsManager::write`. -/
theorem run_writeSector {α : Type} (outcomes : Outcomes) (s : Serving) (idx : SectorIdx)
    (sector : SectorVec × UInt64 × UInt8) (next : RegisterProgram α) :
    (writeSector idx sector >>= fun _ => next).run (serve outcomes) s =
      (s.manager.write s.disc outcomes.faults idx sector).bind fun state =>
        next.run (serve outcomes) { s with manager := state.1, disc := state.2 } := by
  rw [Manager.write_eq]
  have hprogram : writeSector idx sector >>= (fun _ => next) =
      Program.call (S := registerSignature) (.writeData idx sector.1) fun written =>
        cond (written : Bool) (.call (.writeMetadata idx sector.2.1 sector.2.2) fun _ => next)
          next := by
    rw [writeSector]
    show Program.call _ _ = _
    congr 1
    funext written
    cases (written : Bool) <;> rfl
  rw [hprogram]
  cases hdata : outcomes.faults.dataWrite with
  | some stop =>
    have hwritten : serve outcomes (.writeData idx sector.1) s =
        some (false, { s with disc := s.disc.writeData (some stop) idx sector.1 }) := by
      simp only [serve, hdata]
      rfl
    rw [Program.run_call hwritten]
    rfl
  | none =>
    have hwritten : serve outcomes (.writeData idx sector.1) s =
        some (true, { s with disc := s.disc.writeData none idx sector.1 }) := by
      simp only [serve, hdata]
      rfl
    rw [Program.run_call hwritten, if_neg (by decide), cond_true]
    simp only [Program.run, serve]
    cases s.manager.writeMetadata (s.disc.writeData none idx sector.1)
        outcomes.faults.metadataRead outcomes.faults.metadataWrite
        ⟨idx, sector.2.1, sector.2.2⟩ with
    | none => rfl
    | some state => rfl

/-- The reply to a `WriteProc`. -/
def ackOf (self : AtomicRegisterImplementation) (header : SystemCommandHeader) :
    SystemRegisterCommand :=
  { header := { header with processIdentifier := self.selfIdent }, content := .ack }

/-- **The `WriteProc` handler.** It writes if the tag it reads is smaller, and acknowledges
unless it panics. -/
theorem run_handleWriteProc (outcomes : Outcomes) (s : Serving)
    (self : AtomicRegisterImplementation) (header : SystemCommandHeader) (timestamp : UInt64)
    (writeRank : UInt8) (data : SectorVec) :
    (self.handleWriteProc header timestamp writeRank data).run (serve outcomes) s =
      (s.manager.tryReadMetadata outcomes.readFails s.disc header.sectorIdx).bind fun stored =>
        (if (⟨stored.1, stored.2⟩ : Tag) < ⟨timestamp, writeRank⟩ then
            s.manager.write s.disc outcomes.faults header.sectorIdx (data, timestamp, writeRank)
          else some (s.manager, s.disc)).bind fun state =>
        some (self, ⟨state.1, state.2,
          s.sent ++ [(ackOf self header, header.processIdentifier.toNat)]⟩) := by
  rw [AtomicRegisterImplementation.handleWriteProc, Program.perform_bind]
  cases hread : s.manager.tryReadMetadata outcomes.readFails s.disc header.sectorIdx with
  | none =>
    simp only [Program.run, serve, hread, Option.bind_none]
    rfl
  | some stored =>
    have hanswer : serve outcomes (.readMetadata header.sectorIdx) s = some (stored, s) := by
      simp only [serve, hread]
      rfl
    rw [Program.run_call hanswer, Option.bind_some]
    by_cases hlt : (⟨stored.1, stored.2⟩ : Tag) < ⟨timestamp, writeRank⟩
    · rw [if_pos hlt, if_pos hlt, run_writeSector]
      rfl
    · rw [if_neg hlt, if_neg hlt]
      rfl

/-! ## When the `Ack` is kept -/

/-- If the handler sends an `Ack`, a manager rebuilt from the disc reports a tag that is
large enough. -/
def AckDurable (iter : IterOrder) (self : AtomicRegisterImplementation) (state : Manager × Disc)
    (header : SystemCommandHeader) (tag : Tag) (data : SectorVec) (outcomes : Outcomes) : Prop :=
  ∀ self' s', (self.systemCommand iter ⟨header, .writeProc tag.timestamp tag.writeRank data⟩).run
      (serve outcomes) ⟨state.1, state.2, []⟩ = some (self', s') →
    (∃ message ∈ s'.sent, message.1.content = .ack) →
    ∃ stored, storedTag s'.disc header.sectorIdx = some stored ∧ tag ≤ ⟨stored.1, stored.2⟩

/-- The place of the sector is beyond the end of the metadata file, as `write` finds it. -/
def Manager.Overruns (self : Manager) (disc : Disc) (readFails : Bool) (idx : SectorIdx) : Prop :=
  (if readFails then [] else (disc.metadata.lookup (self.place idx).1).getD []).length <
    (self.place idx).2

/-- The tag is on disc before the call, the handler panics, or it writes and the two file
writes take effect. -/
def Recorded (state : Manager × Disc) (idx : SectorIdx) (tag : Tag) (outcomes : Outcomes) : Prop :=
  (∃ stored, storedTag state.2 idx = some stored ∧ tag ≤ ⟨stored.1, stored.2⟩) ∨
  state.1.tryReadMetadata outcomes.readFails state.2 idx = none ∨
  (∃ read, state.1.tryReadMetadata outcomes.readFails state.2 idx = some read ∧
      (⟨read.1, read.2⟩ : Tag) < tag) ∧
    outcomes.faults.dataWrite = none ∧
    (state.1.Overruns state.2 outcomes.faults.metadataRead idx ∨
      replaces outcomes.faults.metadataWrite = true)

/-- The metadata step panics exactly if the place is beyond the end of the file. -/
theorem Sound.writeMetadata_eq_none_iff {m : Manager} {d : Disc} (h : Sound (m, d))
    (readFails : Bool) (stop : Option Stop) (r : Record) :
    m.writeMetadata d readFails stop r = none ↔ m.Overruns d readFails r.sector := by
  obtain ⟨count, files, hd, hm⟩ := h
  obtain ⟨n, i, hplace, hi, hn⟩ := hm.place r.sector
  have hlength : (if readFails then []
      else (d.metadata.lookup (m.place r.sector).1).getD []).length =
        (found files readFails n).length * metadataSize := by
    cases readFails with
    | true => exact (Nat.zero_mul _).symm
    | false =>
      rw [if_neg (by decide), hd.getD_lookup, length_pack Record.length_encode, hplace]
      rfl
  rw [Manager.Overruns, hlength, hplace, writeMetadata_eq hd hplace]
  have hsize : 0 < metadataSize := by decide
  by_cases hfound : i ≤ (found files readFails n).length
  · have hle := Nat.mul_le_mul_right metadataSize hfound
    rw [if_pos hfound]
    simp only [reduceCtorEq, false_iff, Nat.not_lt]
    exact hle
  · have hlt := Nat.mul_lt_mul_of_pos_right (Nat.lt_of_not_le hfound) hsize
    rw [if_neg hfound]
    simp only [true_iff]
    exact hlt

/-- The store when the `Ack` is sent. -/
def served (state : Manager × Disc) (idx : SectorIdx) (tag : Tag) (data : SectorVec)
    (outcomes : Outcomes) : Option (Manager × Disc) :=
  (state.1.tryReadMetadata outcomes.readFails state.2 idx).bind fun read =>
    if (⟨read.1, read.2⟩ : Tag) < tag then
      state.1.write state.2 outcomes.faults idx (data, tag.timestamp, tag.writeRank)
    else some state

theorem ackDurable_iff_served {iter : IterOrder} {self : AtomicRegisterImplementation}
    {state : Manager × Disc} {header : SystemCommandHeader} {tag : Tag} {data : SectorVec}
    {outcomes : Outcomes} :
    AckDurable iter self state header tag data outcomes ↔
      ∀ state', served state header.sectorIdx tag data outcomes = some state' →
        ∃ stored, storedTag state'.2 header.sectorIdx = some stored ∧
          tag ≤ ⟨stored.1, stored.2⟩ := by
  have hrun : (self.systemCommand iter
        ⟨header, .writeProc tag.timestamp tag.writeRank data⟩).run (serve outcomes)
          ⟨state.1, state.2, []⟩ =
      (served state header.sectorIdx tag data outcomes).bind fun state' =>
        some (self, ⟨state'.1, state'.2,
          [(ackOf self header, header.processIdentifier.toNat)]⟩) := by
    rw [served, Option.bind_assoc]
    exact run_handleWriteProc outcomes ⟨state.1, state.2, []⟩ self header tag.timestamp
      tag.writeRank data
  rw [AckDurable, hrun]
  constructor
  · intro h state' hserved
    rw [hserved] at h
    exact h _ _ rfl ⟨_, List.mem_singleton_self _, rfl⟩
  · intro h self' s' hsome _
    obtain ⟨state', hserved, heq⟩ := Option.bind_eq_some_iff.mp hsome
    cases heq
    exact h state' hserved

/-- **What an `Ack` is worth.** Whatever happened to the store before and whatever fails
now, the `Ack` is kept exactly if the tag was on disc already, or the handler writes and
both file writes take effect, or it panics before the `Ack`. -/
theorem ack_durable_iff {state : Manager × Disc} (h : StoreReachable (fun _ _ => True) state)
    (iter : IterOrder) (self : AtomicRegisterImplementation) (header : SystemCommandHeader)
    (tag : Tag) (data : SectorVec) (outcomes : Outcomes) :
    AckDurable iter self state header tag data outcomes ↔
      Recorded state header.sectorIdx tag outcomes := by
  rw [ackDurable_iff_served, Recorded]
  set idx := header.sectorIdx
  have hsound := h.sound
  cases hread : state.1.tryReadMetadata outcomes.readFails state.2 idx with
  | none =>
    refine iff_of_true ?_ (Or.inr (Or.inl rfl))
    intro state' hserved
    rw [served, hread] at hserved
    cases hserved
  | some read =>
    by_cases hlt : (⟨read.1, read.2⟩ : Tag) < tag
    · -- the handler writes
      have hserved : served state idx tag data outcomes =
          state.1.write state.2 outcomes.faults idx (data, tag.timestamp, tag.writeRank) := by
        rw [served, hread, Option.bind_some, if_pos hlt]
      rw [hserved, Manager.write_eq]
      cases hdata : outcomes.faults.dataWrite with
      | some stop =>
        -- the data could not be written: the metadata are as before
        have hsame := storedTag_congr (state.2.metadata_writeData (some stop) idx data) idx
        simp [hsame]
      | none =>
        have hmetadata := state.2.metadata_writeData none idx data
        have hsound' : Sound (state.1, state.2.writeData none idx data) :=
          Sound.congr (d := state.2) hsound hmetadata
        have hoverruns : state.1.Overruns (state.2.writeData none idx data)
            outcomes.faults.metadataRead idx ↔
              state.1.Overruns state.2 outcomes.faults.metadataRead idx := by
          rw [Manager.Overruns, hmetadata, Manager.Overruns]
        have hpanic := hsound'.writeMetadata_eq_none_iff outcomes.faults.metadataRead
          outcomes.faults.metadataWrite ⟨idx, tag.timestamp, tag.writeRank⟩
        rw [hoverruns] at hpanic
        simp only [Option.isSome_none, Bool.false_eq_true, if_false]
        cases hstep : state.1.writeMetadata (state.2.writeData none idx data)
            outcomes.faults.metadataRead outcomes.faults.metadataWrite
            ⟨idx, tag.timestamp, tag.writeRank⟩ with
        | none =>
          refine iff_of_true ?_ (Or.inr (Or.inr ⟨⟨read, rfl, hlt⟩, trivial, Or.inl (hpanic.mp hstep)⟩))
          intro state' hsome
          cases hsome
        | some state' =>
          obtain ⟨_, hreplaced, hkept⟩ := hsound'.writeMetadata hstep
          have hno : ¬ state.1.Overruns state.2 outcomes.faults.metadataRead idx := by
            intro hover
            rw [hpanic.mpr hover] at hstep
            cases hstep
          -- the tag is stored from the moment the new file has replaced the old one
          by_cases hreplaces : replaces outcomes.faults.metadataWrite = true
          · refine iff_of_true ?_ (Or.inr (Or.inr ⟨⟨read, rfl, hlt⟩, trivial, Or.inr hreplaces⟩))
            intro state'' hsome
            cases hsome
            exact ⟨_, hreplaced hreplaces, le_refl tag⟩
          · have hsame : storedTag state'.2 idx = storedTag state.2 idx := by
              rw [hkept (by simpa using hreplaces), storedTag_congr hmetadata]
            simp [hsame, hno, hreplaces]
    · -- the handler leaves the sector alone
      have hserved : served state idx tag data outcomes = some state := by
        rw [served, hread, Option.bind_some, if_neg hlt]
      rw [hserved]
      simp [hlt]

/-- A sector with a tag. -/
def taggedSector : Manager × Disc := attempt fresh 0 (.fill 1, 1, 1) .none

set_option maxRecDepth 100000 in
/-- It is written again, and the directory cannot be synced after the metadata file has been
replaced. -/
theorem ack_durable_unsynced :
    AckDurable .listed (freshRegister 3 1) taggedSector ⟨2, .fromRequest 7, 4, 0⟩ ⟨2, 2⟩ (.fill 5)
      ⟨false, ⟨none, false, some ⟨.syncDir, true, by decide⟩⟩⟩ := by
  have hreachable : StoreReachable (fun _ _ => True) taggedSector :=
    Reachable.init.step (a := .write 0 (.fill 1, 1, 1) .none) trivial rfl
  have hread : taggedSector.1.tryReadMetadata false taggedSector.2 0 = some (1, 1) := by
    decide +kernel
  exact (ack_durable_iff hreachable .listed (freshRegister 3 1) ⟨2, .fromRequest 7, 4, 0⟩ ⟨2, 2⟩
    (.fill 5) ⟨false, ⟨none, false, some ⟨.syncDir, true, by decide⟩⟩⟩).mpr
    (Or.inr (Or.inr ⟨⟨(1, 1), hread, by decide⟩, rfl, Or.inr rfl⟩))

/-- The first write of a sector on a full disc: the temporary file cannot be created, and
the `WriteProc` is acknowledged. -/
theorem ack_lost_on_full_disc :
    ∃ state, StoreReachable (fun _ _ => True) state ∧
      ¬ AckDurable .listed (freshRegister 3 1) state ⟨2, .fromRequest 7, 4, 0⟩ ⟨1, 2⟩ (.fill 5)
        ⟨false, ⟨some ⟨.create, false, by decide⟩, false, none⟩⟩ := by
  refine ⟨fresh, .init, ?_⟩
  rw [ackDurable_iff_served]
  intro h
  have hserved : served fresh 0 ⟨1, 2⟩ (.fill 5)
      ⟨false, ⟨some ⟨.create, false, by decide⟩, false, none⟩⟩ = some fresh := by
    rw [served, show fresh.1.tryReadMetadata false fresh.2 0 = some (0, 0) from rfl,
      Option.bind_some, if_pos (by decide), Manager.write_eq]
    rfl
  obtain ⟨stored, hstored, hle⟩ := h fresh hserved
  have hzero : storedTag fresh.2 0 = some (0, 0) := rfl
  rw [hzero, Option.some.injEq] at hstored
  subst hstored
  exact absurd hle (by decide)

end Storage
end AtomicDiscDrive
