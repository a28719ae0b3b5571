import AtomicDiscDrive.Storage.Refinement

/-!
# Writes that are cut short

A call of `SectorsManager::write` stops in one of its two file writes, by a crash or by an
error, and a manager is built on what it left behind. The sector then reads as before the
call or as after it, unless the data file was replaced and the metadata file was not: this
leaves the new data under the old tag, if the sector had a tag already.
-/

namespace AtomicDiscDrive
namespace Storage

/-- Where a call of `write` stops. -/
inductive Cut where
  | dataWrite (stop : Stop)
  | metadataWrite (stop : Stop)

namespace Cut

def faults : Cut → Faults
  | .dataWrite stop => ⟨some stop, false, none⟩
  | .metadataWrite stop => ⟨none, false, some stop⟩

/-- The data file has been replaced and the metadata file has not. -/
def between : Cut → Bool
  | .dataWrite stop => stop.replaced
  | .metadataWrite stop => !stop.replaced

end Cut

/-- What the two reads of a sector return. -/
def readPair (m : Manager) (d : Disc) (idx : SectorIdx) : SectorVec × Option (UInt64 × UInt8) :=
  (m.readData d idx, m.readMetadata d idx)

/-- A data file that is replaced under an unchanged record. -/
theorem readPair_writeData {m : Manager} {d : Disc} {records : List Record}
    (hd : Holds d records) (idx : SectorIdx) (data : SectorVec)
    (hm : Indexes m records) :
    readPair m { d with data := Function.update d.data idx (some data.bytes) } idx =
      ((if (view d records).metadata idx = none then .new else data),
        some ((view d records).readMetadata idx)) := by
  have hd' := hd.writeData idx data.bytes
  rw [readPair, readData_eq hm hd', readMetadata_eq hm hd', view_writeData]
  refine Prod.ext ?_ rfl
  rw [SectorFiles.readData, SectorFiles.metadata_writeData]
  cases (view d records).metadata idx with
  | none => rfl
  | some tag => simp [SectorFiles.writeData]

/-- The disc a call leaves behind that is cut short: nothing happened, only the data file
was replaced, or all is done. -/
theorem write_of_cut {m : Manager} {d : Disc} {records : List Record} (hm : Indexes m records)
    (hd : Holds d records) (idx : SectorIdx) (sector : SectorVec × UInt64 × UInt8) (cut : Cut) :
    ∃ d', (m.write d cut.faults idx sector).map Prod.snd = some d' ∧
      (cut.between = true →
        d' = { d with data := Function.update d.data idx (some sector.1.bytes) }) ∧
      (cut.between = false → d' = d ∨
        Holds d' (upsert records ⟨idx, sector.2.1, sector.2.2⟩) ∧
          view d' (upsert records ⟨idx, sector.2.1, sector.2.2⟩) =
            ((view d records).writeData idx sector.1).writeMetadata idx sector.2.1 sector.2.2) := by
  have hd' := hd.writeData idx sector.1.bytes
  cases cut with
  | dataWrite stop =>
    by_cases hreplaced : stop.replaced = true
    · refine ⟨{ d with data := Function.update d.data idx (some sector.1.bytes) }, ?_,
        fun _ => rfl, ?_⟩
      · simp [Manager.write, Cut.faults, replaces, hreplaced]
      · intro h
        rw [Cut.between, hreplaced] at h
        cases h
    · refine ⟨d, ?_, ?_, fun _ => Or.inl rfl⟩
      · simp [Manager.write, Cut.faults, replaces, hreplaced]
      · intro h
        exact absurd h hreplaced
  | metadataWrite stop =>
    obtain ⟨val, hval, hfiles⟩ := updateFile_eq hm hd' ⟨idx, sector.2.1, sector.2.2⟩
    by_cases hreplaced : stop.replaced = true
    · have hholds := hd'.writeMetadata (r := ⟨idx, sector.2.1, sector.2.2⟩) (by simp) hfiles
      refine ⟨_, ?_, ?_, fun _ => Or.inr ⟨hholds, ?_⟩⟩
      · simp only [Manager.write, Cut.faults, replaces, if_true, Option.isSome_none,
          Bool.false_eq_true, if_false, hval, hreplaced, Option.isSome_some, Option.map_some]
      · intro h
        rw [Cut.between, hreplaced] at h
        cases h
      · rw [view_upsert]
        exact congrArg (fun files : SectorFiles => files.writeMetadata idx sector.2.1 sector.2.2)
          (view_writeData d records idx sector.1)
    · refine ⟨{ d with data := Function.update d.data idx (some sector.1.bytes) }, ?_,
        fun _ => rfl, ?_⟩
      · simp only [Manager.write, Cut.faults, replaces, if_true, Option.isSome_none,
          Bool.false_eq_true, if_false, hval, hreplaced, Option.isSome_some, Option.map_some]
      · intro h
        rw [Cut.between, Bool.not_eq_false'] at h
        exact absurd h hreplaced

/-- **Writes that are cut short.** After a history of complete calls, let a write be cut
short and the manager be rebuilt. The sector reads as before or as after the write, exactly
if it is not the case that the data file was replaced, the metadata file was not, and the
sector had been written before with other data and another tag. -/
theorem write_atomic_iff (ops : List StoreOp) {m : Manager} {d : Disc}
    (hops : runAll fresh ops = some (m, d)) (idx : SectorIdx)
    (sector : SectorVec × UInt64 × UInt8) (cut : Cut) :
    ∃ d' m', (m.write d cut.faults idx sector).map Prod.snd = some d' ∧
      Manager.new d' = some m' ∧
      ((readPair m' d' idx = readPair m d idx ∨ readPair m' d' idx = (sector.1, some sector.2)) ↔
        (cut.between = true → ∀ old ∈ lastWrite idx ops, sector.1 = old.1 ∨ sector.2 = old.2)) := by
  obtain ⟨m₀, d₀, records, hrun, hm, hd, hview⟩ := exists_history ops
  obtain ⟨rfl, rfl⟩ : m = m₀ ∧ d = d₀ := by
    rw [hops] at hrun
    cases hrun
    exact ⟨rfl, rfl⟩
  obtain ⟨hdata, hmetadata⟩ := hview idx
  obtain ⟨d', hwrite, hbetween, hapart⟩ := write_of_cut hm hd idx sector cut
  have hold : readPair m d idx =
      (((lastWrite idx ops).map Prod.fst).getD .new,
        some (((lastWrite idx ops).map Prod.snd).getD (0, 0))) := by
    rw [readPair, readData_eq hm hd, readMetadata_eq hm hd, SectorFiles.readData,
      SectorFiles.readMetadata, hdata, hmetadata]
    cases lastWrite idx ops with
    | none => rfl
    | some old => rfl
  by_cases hcut : cut.between = true
  · -- only the data file was replaced
    obtain rfl := hbetween hcut
    obtain ⟨m', hnew, hm'⟩ := exists_new (hd.writeData idx sector.1.bytes)
    refine ⟨_, m', hwrite, hnew, ?_⟩
    rw [readPair_writeData hd idx sector.1 hm', hold, SectorFiles.readMetadata, hmetadata]
    cases lastWrite idx ops with
    | none => simp
    | some old =>
      rw [if_neg (by simp)]
      constructor
      · rintro (h | h) _ o ho
        · cases ho
          exact Or.inl (Prod.ext_iff.mp h).1
        · cases ho
          exact Or.inr (Option.some.inj (Prod.ext_iff.mp h).2).symm
      · intro h
        rcases h hcut old rfl with h | h
        · exact Or.inl (by rw [h]; rfl)
        · exact Or.inr (by rw [h]; rfl)
  · -- nothing happened, or all is done
    rcases hapart (by simpa using hcut) with rfl | ⟨hd', hview'⟩
    · obtain ⟨m', hnew, hm'⟩ := exists_new hd
      refine ⟨_, m', hwrite, hnew, iff_of_true (Or.inl ?_) (fun h => absurd h hcut)⟩
      rw [readPair, readPair, readData_eq hm' hd, readMetadata_eq hm' hd, readData_eq hm hd,
        readMetadata_eq hm hd]
    · obtain ⟨m', hnew, hm'⟩ := exists_new hd'
      refine ⟨_, m', hwrite, hnew, iff_of_true (Or.inr ?_) (fun h => absurd h hcut)⟩
      rw [readPair, readData_eq hm' hd', readMetadata_eq hm' hd', hview']
      refine Prod.ext (SectorFiles.readData_write _ _ _ _ _) ?_
      simp [SectorFiles.readMetadata, SectorFiles.writeMetadata]

set_option maxRecDepth 100000 in
/-- Two sectors have been written. The second one is written again with the same data and a
larger tag, cut short between the two files: it reads as before or as after. -/
theorem same_data_write_cut :
    ∃ m d d' m', runAll fresh [.write 0 (.fill 1, 1, 1), .write 1 (.fill 2, 1, 1)] = some (m, d) ∧
      (m.write d (Cut.metadataWrite ⟨.create, false, by decide⟩).faults 1
        (.fill 2, 2, 1)).map Prod.snd = some d' ∧ Manager.new d' = some m' ∧
      (readPair m' d' 1 = readPair m d 1 ∨ readPair m' d' 1 = (.fill 2, some (2, 1))) := by
  let ops : List StoreOp := [.write 0 (.fill 1, 1, 1), .write 1 (.fill 2, 1, 1)]
  obtain ⟨state, hstate⟩ : ∃ state, runAll fresh ops = some state := ⟨_, rfl⟩
  obtain ⟨d', m', hwrite, hnew, hiff⟩ := write_atomic_iff ops (m := state.1) (d := state.2)
    hstate 1 (.fill 2, 2, 1) (.metadataWrite ⟨.create, false, by decide⟩)
  refine ⟨state.1, state.2, d', m', hstate, hwrite, hnew, hiff.mpr fun _ old hold => ?_⟩
  obtain rfl : old = (.fill 2, 1, 1) := by
    have hlast : lastWrite 1 ops = some (.fill 2, 1, 1) := rfl
    rw [hlast] at hold
    exact (Option.some.inj hold).symm
  exact .inl rfl

set_option maxRecDepth 100000 in
/-- The second write of a sector, cut short between the two files, leaves its data under the
tag of the first one. -/
theorem second_write_cut :
    ∃ m d d' m', runAll fresh [.write 0 (.fill 1, 1, 1)] = some (m, d) ∧
      (m.write d (Cut.metadataWrite ⟨.create, false, by decide⟩).faults 0
        (.fill 2, 2, 1)).map Prod.snd = some d' ∧ Manager.new d' = some m' ∧
      readPair m d 0 = (.fill 1, some (1, 1)) ∧ readPair m' d' 0 = (.fill 2, some (1, 1)) := by
  refine ⟨_, _, _, _, rfl, rfl, rfl, ?_, ?_⟩
  · decide +kernel
  · decide +kernel

end Storage
end AtomicDiscDrive
