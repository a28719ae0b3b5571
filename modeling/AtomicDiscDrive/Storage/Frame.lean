import AtomicDiscDrive.Storage.Errors

/-!
# Writes and the other sectors

Up to 240 sectors share a metadata file, and `write` reads, patches and replaces it whole.
A failed read is taken for an absent file: the patch then panics, or it replaces the file by
the one record. A metadata file that is replaced although `write` of `stable_storage.rs`
returns an error leaves a record behind that the manager does not know; the next new sector
is written over it.

`Careful` is what keeps a call clear of both. As long as all calls are careful, the store
holds a list of records as after complete calls, and at most one more that the manager does
not know (`Kept`).
-/

namespace AtomicDiscDrive
namespace Storage

open Utils

/-! ## The statement -/

/-- The call does not panic, and every other sector reads the same afterwards, in the
running manager and in one rebuilt from the disc. -/
def Harmless (state : Manager × Disc) (idx : SectorIdx) (sector : SectorVec × UInt64 × UInt8)
    (faults : Faults) : Prop :=
  ∃ state', state.1.write state.2 faults idx sector = some state' ∧
    (∀ j ≠ idx, state.1.readMetadata state.2 j ≠ none ∧
      readPair state'.1 state'.2 j = readPair state.1 state.2 j) ∧
    ∃ before after, Manager.new state.2 = some before ∧ Manager.new state'.2 = some after ∧
      ∀ j ≠ idx, before.readMetadata state.2 j ≠ none ∧
        readPair after state'.2 j = readPair before state.2 j

/-- The metadata file `write` reads and replaces. -/
def Manager.metadataFile (self : Manager) (disc : Disc) (idx : SectorIdx) : List UInt8 :=
  (disc.metadata.lookup (self.place idx).1).getD []

/-- The offsets of the records that are lost when a call of `write` replaces the file: all
of them if it could not be read, otherwise the one that is patched. -/
def Manager.overwritten (self : Manager) (disc : Disc) (readFails : Bool) (idx : SectorIdx) :
    List ℕ :=
  if readFails then offsets (self.metadataFile disc idx).length else [(self.place idx).2]

/-- A read that fails is that of a file the sector is at the start of, and a metadata file
is replaced only if the records that are lost belong to the sector that is written. -/
def Careful (state : Manager × Disc) : StoreAction → Prop
  | .new => True
  | .write idx _ faults => faults.dataWrite = none →
    (faults.metadataRead = true → (state.1.place idx).2 = 0) ∧
    (replaces faults.metadataWrite = true →
      ∀ offset ∈ state.1.overwritten state.2 faults.metadataRead idx, ∀ r,
        getMetadataInfo (state.1.metadataFile state.2 idx) offset = some r → r.sector = idx)

/-! ## The invariant -/

/-- The manager knows the records on disc, up to one. -/
structure Kept (m : Manager) (d : Disc) (records : List Record) (stale : Option Record) : Prop where
  indexes : Indexes m records
  holds : Holds d (records ++ stale.toList)

/-- The records a manager knows are of different sectors. -/
theorem Kept.nodup {m : Manager} {d : Disc} {records : List Record} {stale : Option Record}
    (h : Kept m d records stale) : (records.map Record.sector).Nodup := by
  have hall := h.holds.nodup
  rw [List.map_append] at hall
  exact (List.nodup_append.mp hall).1

/-- The manager, if it knew the last record too. -/
def Manager.knowing (self : Manager) : Option Record → Manager
  | none => self
  | some r => self.enroll r.sector

theorem Indexes.enroll {m : Manager} {records : List Record} (hm : Indexes m records) (r : Record) :
    Indexes (m.enroll r.sector) (upsert records r) := by
  by_cases hmem : r.sector ∈ records.map Record.sector
  · obtain ⟨k, old, hk, hsector⟩ := exists_getElem?_of_mem hmem
    have hinfo := hm.points.present k old hk
    rw [hsector] at hinfo
    rw [Manager.enroll, hinfo]
    exact hm.update hmem
  · rw [Manager.enroll, hm.points.absent r.sector hmem]
    exact hm.insert hmem

section

variable {m : Manager} {d : Disc} {records : List Record} {stale : Option Record}

theorem Kept.notMem {e : Record} (h : Kept m d records (some e)) :
    e.sector ∉ records.map Record.sector := by
  have hnodup := h.holds.nodup
  rw [Option.toList_some, List.map_append, List.map_singleton, List.nodup_append] at hnodup
  intro hmem
  exact hnodup.2.2 _ hmem _ (List.mem_singleton_self _) rfl

theorem Kept.knowing (h : Kept m d records stale) :
    Indexes (m.knowing stale) (records ++ stale.toList) := by
  cases stale with
  | none =>
    rw [Option.toList_none, List.append_nil]
    exact h.indexes
  | some e =>
    rw [Option.toList_some, ← upsert_of_notMem h.notMem]
    exact h.indexes.enroll e

/-- The record at a place of the disc. -/
theorem getMetadataInfo_placeOf {all : List Record} (hd : Holds d all) {k : ℕ} {r : Record}
    (hk : all[k]? = some r) :
    getMetadataInfo ((d.metadata.lookup (placeOf k).1).getD []) (placeOf k).2 = some r ∧
      (placeOf k).2 ∈ offsets ((d.metadata.lookup (placeOf k).1).getD []).length := by
  have hget := (getElem?_chunk_div metadatasPerFile_pos k all).trans hk
  rw [hd.files, fileOf_getD, length_pack Record.length_encode, offsets_mul, placeOf]
  refine ⟨getMetadataInfo_pack hget, ?_⟩
  rw [List.mem_map]
  exact ⟨k % metadatasPerFile, List.mem_range.mpr (List.getElem?_eq_some_iff.mp hget).1, rfl⟩

/-- A sector without a record has the place of the stale one. -/
theorem Kept.place_of_notMem {e : Record} (h : Kept m d records (some e)) {idx : SectorIdx}
    (hidx : idx ∉ records.map Record.sector) : m.place idx = m.place e.sector := by
  rw [Storage.place_of_notMem h.indexes hidx, Storage.place_of_notMem h.indexes h.notMem]

/-- The records that would be lost belong to the sector. -/
def Owns (m : Manager) (d : Disc) (readFails : Bool) (idx : SectorIdx) : Prop :=
  ∀ offset ∈ m.overwritten d readFails idx, ∀ r,
    getMetadataInfo (m.metadataFile d idx) offset = some r → r.sector = idx

/-- Then a sector without a record finds its own stale record, if there is one. -/
theorem Kept.sector_of_owns {e : Record} (h : Kept m d records (some e)) {idx : SectorIdx}
    (hidx : idx ∉ records.map Record.sector) {readFails : Bool} (howns : Owns m d readFails idx) :
    e.sector = idx := by
  have hplace : m.place idx = placeOf records.length := Storage.place_of_notMem h.indexes hidx
  have hlast : (records ++ (some e).toList)[records.length]? = some e := List.getElem?_concat_length
  obtain ⟨hinfo, hmem⟩ := getMetadataInfo_placeOf h.holds hlast
  apply howns (m.place idx).2
  · rw [Manager.overwritten, Manager.metadataFile, hplace]
    cases readFails with
    | true => exact hmem
    | false => exact List.mem_singleton_self _
  · rw [Manager.metadataFile, hplace]
    exact hinfo

/-- The sector has a record the manager knows, or the place it is written to is free for
it. -/
theorem Kept.mem_or_of_owns (h : Kept m d records stale) {idx : SectorIdx} {readFails : Bool}
    (howns : Owns m d readFails idx) :
    idx ∈ records.map Record.sector ∨ ∀ e ∈ stale, e.sector = idx := by
  by_cases hmem : idx ∈ records.map Record.sector
  · exact Or.inl hmem
  · right
    rintro e rfl
    exact h.sector_of_owns hmem howns

/-- A manager that knew all records would go to the same place. -/
theorem Kept.place_knowing (h : Kept m d records stale) {idx : SectorIdx}
    (hidx : idx ∈ records.map Record.sector ∨ ∀ e ∈ stale, e.sector = idx) :
    (m.knowing stale).place idx = m.place idx := by
  cases stale with
  | none => rfl
  | some e =>
    by_cases hsector : e.sector = idx
    · rw [Manager.knowing, hsector, Manager.place_enroll_self]
    · have hmem := hidx.resolve_right fun hall => hsector (hall e rfl)
      obtain ⟨k, r, hk, rfl⟩ := exists_getElem?_of_mem hmem
      apply Manager.place_enroll_of_ne
      rw [place_of_getElem? h.indexes hk, Storage.place_of_notMem h.indexes h.notMem]
      intro heq
      -- the places of two records differ
      have hlt : k < records.length := (List.getElem?_eq_some_iff.mp hk).1
      have hdiv : k / metadatasPerFile = records.length / metadatasPerFile := (Prod.ext_iff.mp heq).1
      have hmod : k % metadatasPerFile = records.length % metadatasPerFile :=
        Nat.eq_of_mul_eq_mul_right (by decide : 0 < metadataSize) (Prod.ext_iff.mp heq).2
      have hk' := Nat.div_add_mod' k metadatasPerFile
      have hlength := Nat.div_add_mod' records.length metadatasPerFile
      rw [hdiv, hmod] at hk'
      omega

/-! ## The metadata step -/

/-- Whether a file can be patched does not depend on the record. -/
theorem isSome_updateFile (val : List UInt8) (offset : ℕ) (vec vec' : List UInt8) :
    (Manager.updateFile val offset vec).isSome = (Manager.updateFile val offset vec').isSome := by
  rw [Manager.updateFile, Manager.updateFile]
  split_ifs <;> rfl

/-- A file at whose start there is nothing but a record of the sector, is the same after the
step whether it could be read or not. -/
theorem updateFile_of_owns {all : List Record} (hd : Holds d all) {r : Record}
    (howns : Owns m d true r.sector) (hzero : (m.place r.sector).2 = 0) :
    Manager.updateFile (m.metadataFile d r.sector) (m.place r.sector).2 r.encode =
      Manager.updateFile [] (m.place r.sector).2 r.encode := by
  set L := chunk metadatasPerFile (m.place r.sector).1 all with hL
  have hfile : m.metadataFile d r.sector = pack Record.encode L := by
    rw [Manager.metadataFile, hd.files, fileOf_getD]
  have howned : ∀ x ∈ L, x.sector = r.sector := by
    intro x hx
    obtain ⟨j, hj⟩ := List.getElem?_of_mem hx
    refine howns (j * metadataSize) ?_ x (by rw [hfile]; exact getMetadataInfo_pack hj)
    rw [Manager.overwritten, if_pos rfl, hfile, length_pack Record.length_encode, offsets_mul,
      List.mem_map]
    exact ⟨j, List.mem_range.mpr (List.getElem?_eq_some_iff.mp hj).1, rfl⟩
  have hnodup : (L.map Record.sector).Nodup := by
    rw [hL, chunk, List.map_take, List.map_drop]
    exact hd.nodup.sublist ((List.take_sublist _ _).trans (List.drop_sublist _ _))
  have hlength : L.length ≤ 1 := by
    by_contra hlarge
    have hfirst : L[0]? = some L[0] := List.getElem?_eq_getElem (by omega)
    have hsecond : L[1]? = some L[1] := List.getElem?_eq_getElem (by omega)
    have hsame : L[0].sector = L[1].sector := by
      rw [howned _ (List.mem_of_getElem? hfirst), howned _ (List.mem_of_getElem? hsecond)]
    exact absurd (eq_of_sector_eq hnodup hfirst hsecond hsame) (by decide)
  have hempty : ([] : List UInt8) = pack Record.encode [] := rfl
  rw [hfile, hzero, hempty, ← Nat.zero_mul metadataSize, updateFile_pack, updateFile_pack,
    if_pos (Nat.zero_le _), if_pos (Nat.zero_le _), putAt, putAt, List.drop_eq_nil_of_le (by omega),
    List.take_zero, List.take_zero, List.drop_nil]

/-- The file as `write` finds it can be patched. -/
theorem Kept.exists_updateFile (h : Kept m d records stale) (r : Record) {readFails : Bool}
    (hzero : readFails = true → (m.place r.sector).2 = 0) :
    ∃ val, Manager.updateFile (if readFails then [] else m.metadataFile d r.sector)
      (m.place r.sector).2 r.encode = some val := by
  cases readFails with
  | true => exact ⟨[] ++ r.encode, by rw [Manager.updateFile, hzero rfl]; rfl⟩
  | false =>
    rw [if_neg (by decide), ← Option.isSome_iff_exists]
    by_cases hidx : r.sector ∈ records.map Record.sector ∨ ∀ e ∈ stale, e.sector = r.sector
    · have hplace := h.place_knowing hidx
      obtain ⟨val, hval, _⟩ := updateFile_eq h.knowing h.holds r
      rw [hplace] at hval
      rw [Manager.metadataFile, hval]
      rfl
    · -- the place is that of the stale record of another sector
      rw [not_or, not_forall] at hidx
      obtain ⟨hmem, e, he⟩ := hidx
      obtain ⟨rfl, _⟩ := Classical.not_imp.mp he
      obtain ⟨val, hval, _⟩ := updateFile_eq h.knowing h.holds e
      have hplace : (m.knowing (some e)).place e.sector = m.place r.sector :=
        (m.place_enroll_self e.sector).trans (h.place_of_notMem hmem).symm
      rw [hplace] at hval
      rw [Manager.metadataFile, isSome_updateFile _ _ _ e.encode, hval]
      rfl

/-- If the file is replaced, the records on disc are those with the new one. -/
theorem Kept.holds_updateFile (h : Kept m d records stale) {r : Record}
    (hdata : d.data r.sector ≠ none) {readFails : Bool}
    (hzero : readFails = true → (m.place r.sector).2 = 0) (howns : Owns m d readFails r.sector)
    {val : List UInt8}
    (hval : Manager.updateFile (if readFails then [] else m.metadataFile d r.sector)
      (m.place r.sector).2 r.encode = some val) :
    Holds { d with metadata := d.metadata.insert (m.place r.sector).1 val }
      (upsert (records ++ stale.toList) r) := by
  have hidx := h.mem_or_of_owns howns
  have hread : Manager.updateFile (m.metadataFile d r.sector) (m.place r.sector).2 r.encode =
      some val := by
    cases readFails with
    | true => exact (updateFile_of_owns h.holds howns (hzero rfl)).trans hval
    | false => exact hval
  obtain ⟨val', hval', hfiles⟩ := updateFile_eq h.knowing h.holds r
  rw [h.place_knowing hidx] at hval' hfiles
  obtain rfl : val = val' := by
    rw [Manager.metadataFile, hval', Option.some.injEq] at hread
    exact hread.symm
  exact h.holds.writeMetadata hdata hfiles

/-- What becomes of the records a manager knows, and of the stale one. -/
theorem Kept.exists_upsert (h : Kept m d records stale) {r : Record}
    (hidx : r.sector ∈ records.map Record.sector ∨ ∀ e ∈ stale, e.sector = r.sector) (noted : Bool) :
    ∃ (records' : List Record) (stale' : Option Record),
      upsert (records ++ stale.toList) r = records' ++ stale'.toList ∧
      Indexes (if noted then m.enroll r.sector else m) records' ∧
      ∀ j ≠ r.sector, (records'.find? fun x => x.sector = j) = records.find? fun x => x.sector = j := by
  by_cases hmem : r.sector ∈ records.map Record.sector
  · obtain ⟨k, old, hk, hsector⟩ := exists_getElem?_of_mem hmem
    have hmanager : (if noted then m.enroll r.sector else m) = m := by
      have hinfo := h.indexes.points.present k old hk
      rw [hsector] at hinfo
      rw [Manager.enroll, hinfo]
      cases noted <;> rfl
    refine ⟨upsert records r, stale, ?_, ?_, fun j hj => find?_upsert_of_ne hj⟩
    · have hlt : k < records.length := (List.getElem?_eq_some_iff.mp hk).1
      rw [upsert_of_getElem? h.holds.nodup (by rw [List.getElem?_append_left hlt]; exact hk) hsector,
        upsert_of_getElem? h.nodup hk hsector, List.set_append_left _ _ hlt]
    · rw [hmanager]
      exact h.indexes.update hmem
  · have hupsert : upsert (records ++ stale.toList) r = records ++ [r] := by
      cases stale with
      | none => rw [Option.toList_none, List.append_nil, upsert_of_notMem hmem]
      | some e =>
        have hsector := hidx.resolve_left hmem e rfl
        have hnodup : ((records ++ [e]).map Record.sector).Nodup := h.holds.nodup
        rw [Option.toList_some, upsert_of_getElem? hnodup List.getElem?_concat_length hsector]
        simp
    rw [hupsert]
    cases noted with
    | true =>
      refine ⟨upsert records r, none, ?_, h.indexes.enroll r, fun j hj => find?_upsert_of_ne hj⟩
      rw [upsert_of_notMem hmem, Option.toList_none, List.append_nil]
    | false => exact ⟨records, some r, rfl, h.indexes, fun _ _ => rfl⟩

end

/-! ## Other sectors -/

/-- What a manager returns that knows a part of the records on disc. -/
theorem Kept.readPair_eq {m : Manager} {d : Disc} {records : List Record} {stale : Option Record}
    (h : Kept m d records stale) (j : SectorIdx) :
    readPair m d j = ((view d records).readData j, some ((view d records).readMetadata j)) := by
  by_cases hmem : j ∈ records.map Record.sector
  · obtain ⟨k, r, hk, rfl⟩ := exists_getElem?_of_mem hmem
    have hlt : k < records.length := (List.getElem?_eq_some_iff.mp hk).1
    have hk' : (records ++ stale.toList)[k]? = some r := by
      rw [List.getElem?_append_left hlt]
      exact hk
    have hdata := h.holds.data r (List.mem_of_getElem? hk')
    obtain ⟨vec, hvec⟩ := Option.ne_none_iff_exists'.mp hdata
    have hinfo := h.indexes.points.present k r hk
    have hall : k < (records ++ stale.toList).length := (List.getElem?_eq_some_iff.mp hk').1
    have hget := getMetadataInfo_pack ((getElem?_chunk_div metadatasPerFile_pos k _).trans hk')
    simp only [readPair, Manager.readData, Manager.readMetadata, hinfo, hvec, placeOf,
      h.holds.files, fileOf_div hall, hget, SectorFiles.readData, SectorFiles.readMetadata, view,
      find?_of_getElem? h.nodup hk, Option.map_some, Option.getD_some]
  · have hinfo := h.indexes.points.absent j hmem
    simp only [readPair, Manager.readData, Manager.readMetadata, hinfo, SectorFiles.readData,
      SectorFiles.readMetadata, view, find?_of_notMem hmem, Option.map_none, Option.getD_none]

/-- A sector whose data file and whose record stay reads the same. -/
theorem Kept.readPair_congr {m m' : Manager} {d d' : Disc} {records records' : List Record}
    {stale stale' : Option Record} (h : Kept m d records stale) (h' : Kept m' d' records' stale')
    {j : SectorIdx} (hdata : d'.data j = d.data j)
    (hfind : (records'.find? fun x => x.sector = j) = records.find? fun x => x.sector = j) :
    m.readMetadata d j ≠ none ∧ readPair m' d' j = readPair m d j := by
  have hpair := h.readPair_eq j
  refine ⟨?_, ?_⟩
  · have hsecond : m.readMetadata d j = some ((view d records).readMetadata j) :=
      (Prod.ext_iff.mp hpair).2
    rw [hsecond]
    exact Option.some_ne_none _
  · rw [hpair, h'.readPair_eq]
    simp only [SectorFiles.readData, SectorFiles.readMetadata, view, hdata, hfind]

/-- The manager rebuilt from a disc. -/
theorem Holds.exists_kept {d : Disc} {all : List Record} (hd : Holds d all) :
    ∃ m, Manager.new d = some m ∧ Kept m d all none := by
  obtain ⟨m, hnew, hm⟩ := exists_new hd
  refine ⟨m, hnew, hm, ?_⟩
  rw [Option.toList_none, List.append_nil]
  exact hd

/-- What a call leaves: the invariant, and the records of other sectors. -/
structure Spares (idx : SectorIdx) (d : Disc) (records : List Record) (stale : Option Record)
    (state' : Manager × Disc) (records' : List Record) (stale' : Option Record) : Prop where
  kept : Kept state'.1 state'.2 records' stale'
  data : ∀ j ≠ idx, state'.2.data j = d.data j
  known : ∀ j ≠ idx, (records'.find? fun x => x.sector = j) = records.find? fun x => x.sector = j
  all : ∀ j ≠ idx, ((records' ++ stale'.toList).find? fun x => x.sector = j) =
    (records ++ stale.toList).find? fun x => x.sector = j

theorem Disc.data_writeData_of_ne (d : Disc) (stop : Option Stop) {idx j : SectorIdx} (h : j ≠ idx)
    (data : SectorVec) : (d.writeData stop idx data).data j = d.data j := by
  rw [Disc.writeData]
  split
  · exact Function.update_of_ne h _ _
  · rfl

theorem Kept.writeData {m : Manager} {d : Disc} {records : List Record} {stale : Option Record}
    (h : Kept m d records stale) (stop : Option Stop) (idx : SectorIdx) (data : SectorVec) :
    Kept m (d.writeData stop idx data) records stale := by
  refine ⟨h.indexes, ?_⟩
  rw [Disc.writeData]
  split
  · exact h.holds.writeData idx data.bytes
  · exact h.holds

/-- The metadata step spares the other sectors. -/
theorem Kept.exists_writeMetadata {m : Manager} {d : Disc} {records : List Record}
    {stale : Option Record} (h : Kept m d records stale) {r : Record} (hdata : d.data r.sector ≠ none)
    {readFails : Bool} {stop : Option Stop} (hzero : readFails = true → (m.place r.sector).2 = 0)
    (howns : replaces stop = true → Owns m d readFails r.sector) :
    ∃ state' records' stale', m.writeMetadata d readFails stop r = some state' ∧
      Spares r.sector d records stale state' records' stale' := by
  obtain ⟨val, hval⟩ := h.exists_updateFile r hzero
  have hstep : m.writeMetadata d readFails stop r =
      some (if stop.isSome then m else m.enroll r.sector,
        if replaces stop then { d with metadata := d.metadata.insert (m.place r.sector).1 val }
        else d) := by
    rw [Manager.metadataFile] at hval
    simp only [Manager.writeMetadata, hval, Option.map_some]
  rw [hstep]
  by_cases hreplaces : replaces stop = true
  · have howns := howns hreplaces
    have hholds := h.holds_updateFile hdata hzero howns hval
    obtain ⟨records', stale', hsplit, hindexes, hfind⟩ :=
      h.exists_upsert (h.mem_or_of_owns howns) (!stop.isSome)
    have hmanager : (if !stop.isSome then m.enroll r.sector else m) =
        if stop.isSome then m else m.enroll r.sector := by
      cases stop <;> rfl
    rw [hmanager] at hindexes
    rw [if_pos hreplaces]
    refine ⟨_, records', stale', rfl, ⟨hindexes, hsplit ▸ hholds⟩, fun _ _ => rfl, hfind, ?_⟩
    intro j hj
    rw [← hsplit]
    exact find?_upsert_of_ne hj
  · have hsome : stop.isSome = true := by
      cases stop with
      | none => exact absurd rfl hreplaces
      | some stop => rfl
    rw [if_neg hreplaces, if_pos hsome]
    exact ⟨_, records, stale, rfl, h, fun _ _ => rfl, fun _ _ => rfl, fun _ _ => rfl⟩

/-- **A careful call.** It does not panic, and spares the other sectors. -/
theorem Kept.exists_write {m : Manager} {d : Disc} {records : List Record} {stale : Option Record}
    (h : Kept m d records stale) {idx : SectorIdx} {sector : SectorVec × UInt64 × UInt8}
    {faults : Faults} (hcareful : Careful (m, d) (.write idx sector faults)) :
    ∃ state' records' stale', m.write d faults idx sector = some state' ∧
      Spares idx d records stale state' records' stale' := by
  have hkept := h.writeData faults.dataWrite idx sector.1
  have hother : ∀ j ≠ idx, (d.writeData faults.dataWrite idx sector.1).data j = d.data j :=
    fun j hj => d.data_writeData_of_ne _ hj _
  rw [Manager.write_eq]
  cases hdata : faults.dataWrite with
  | some stop =>
    rw [hdata] at hkept hother
    exact ⟨_, records, stale, rfl, hkept, hother, fun _ _ => rfl, fun _ _ => rfl⟩
  | none =>
    rw [hdata] at hkept hother
    obtain ⟨hzero, howns⟩ := hcareful hdata
    have hmetadata := d.metadata_writeData none idx sector.1
    have hfile : (d.writeData none idx sector.1).data idx ≠ none := by
      rw [Disc.writeData, if_pos (by rfl)]
      simp
    have howns' : replaces faults.metadataWrite = true →
        Owns m (d.writeData none idx sector.1) faults.metadataRead idx := by
      rw [Owns, Manager.overwritten, Manager.metadataFile, hmetadata]
      exact howns
    obtain ⟨state', records', stale', hstep, hspares⟩ :=
      hkept.exists_writeMetadata (r := ⟨idx, sector.2.1, sector.2.2⟩) hfile hzero howns'
    refine ⟨state', records', stale', hstep, hspares.kept, ?_, hspares.known, hspares.all⟩
    intro j hj
    rw [hspares.data j hj, hother j hj]

/-! ## Runs -/

/-- The states of careful runs. -/
theorem StoreReachable.kept {state : Manager × Disc} (h : StoreReachable Careful state) :
    ∃ records stale, Kept state.1 state.2 records stale := by
  refine Reachable.invariant (fun state => ∃ records stale, Kept state.1 state.2 records stale)
    ⟨[], none, indexes_fresh, holds_fresh⟩ ?_ h
  rintro state action state' _ ⟨records, stale, hkept⟩ hcareful hstep
  cases action with
  | write idx sector faults =>
    obtain ⟨state'', records', stale', hwrite, hspares⟩ := hkept.exists_write hcareful
    simp only [StoreAction.step, attempt, hwrite, Option.getD_some, Option.some.injEq] at hstep
    subst hstep
    exact ⟨records', stale', hspares.kept⟩
  | new =>
    obtain ⟨m, hnew, hrebuilt⟩ := hkept.holds.exists_kept
    simp only [StoreAction.step, hnew, Option.map_some, Option.some.injEq] at hstep
    subst hstep
    exact ⟨_, none, hrebuilt⟩

/-- **A write spares the other sectors.** In every state of a run of careful calls and
restarts, a careful call does not panic and leaves every other sector as it was. -/
theorem careful_write_harmless {state : Manager × Disc} (h : StoreReachable Careful state)
    (idx : SectorIdx) (sector : SectorVec × UInt64 × UInt8) (faults : Faults)
    (hcareful : Careful state (.write idx sector faults)) : Harmless state idx sector faults := by
  obtain ⟨records, stale, hkept⟩ := h.kept
  obtain ⟨state', records', stale', hwrite, hspares⟩ := hkept.exists_write hcareful
  obtain ⟨before, hbefore, hkept₀⟩ := hkept.holds.exists_kept
  obtain ⟨after, hafter, hkept₁⟩ := hspares.kept.holds.exists_kept
  refine ⟨state', hwrite, ?_, before, after, hbefore, hafter, ?_⟩
  · intro j hj
    exact hkept.readPair_congr hspares.kept (hspares.data j hj) (hspares.known j hj)
  · intro j hj
    exact hkept₀.readPair_congr hkept₁ (hspares.data j hj) (hspares.all j hj)

instance (state : Manager × Disc) (action : StoreAction) : Decidable (Careful state action) :=
  match action with
  | .new => inferInstanceAs (Decidable True)
  | .write idx _ faults => inferInstanceAs (Decidable (faults.dataWrite = none →
      (faults.metadataRead = true → (state.1.place idx).2 = 0) ∧
      (replaces faults.metadataWrite = true →
        ∀ offset ∈ state.1.overwritten state.2 faults.metadataRead idx,
          ∀ r ∈ getMetadataInfo (state.1.metadataFile state.2 idx) offset, r.sector = idx)))

/-- Two sectors in one metadata file. -/
def twoSectors : Manager × Disc :=
  attempt (attempt fresh 0 (.fill 1, 1, 1) .none) 1 (.fill 2, 1, 1) .none

set_option maxRecDepth 100000 in
/-- Two sectors have been written. The second one is written again, and the directory cannot be
synced. -/
theorem unsynced_write_harmless :
    Harmless twoSectors 1 (.fill 3, 2, 1) ⟨none, false, some ⟨.syncDir, true, by decide⟩⟩ := by
  have hreachable : StoreReachable Careful twoSectors :=
    (Reachable.init.step (a := .write 0 (.fill 1, 1, 1) .none) (by decide +kernel) rfl).step
      (a := .write 1 (.fill 2, 1, 1) .none) (by decide +kernel) rfl
  exact careful_write_harmless hreachable 1 _ _ (by decide +kernel)

/-- A sector whose record is on disc, while the directory could not be synced. -/
def staleSector : Manager × Disc :=
  attempt fresh 0 (.fill 1, 1, 1) ⟨none, false, some ⟨.syncDir, true, by decide⟩⟩

set_option maxRecDepth 100000 in
/-- Two sectors have been written, and the metadata file cannot be read when one of them is
written again: with the second one `write` panics, with the first one the record of the
second one is lost. A record that the manager does not know is lost even without errors. -/
theorem write_loses_other_sector :
    StoreReachable (fun _ _ => True) twoSectors ∧
      ¬ Harmless twoSectors 1 (.fill 3, 2, 1) ⟨none, true, none⟩ ∧
      ¬ Harmless twoSectors 0 (.fill 3, 2, 1) ⟨none, true, none⟩ ∧
    StoreReachable (fun _ _ => True) staleSector ∧
      ¬ Harmless staleSector 1 (.fill 2, 1, 1) .none := by
  refine ⟨?_, ?_, ?_, ?_, ?_⟩
  · exact (Reachable.init.step (a := .write 0 (.fill 1, 1, 1) .none) trivial rfl).step
      (a := .write 1 (.fill 2, 1, 1) .none) trivial rfl
  · rintro ⟨state', hwrite, _⟩
    have hpanic : (twoSectors.1.write twoSectors.2 ⟨none, true, none⟩ 1 (.fill 3, 2, 1)).isNone =
        true := by
      decide +kernel
    rw [hwrite] at hpanic
    cases hpanic
  · rintro ⟨state', hwrite, hsame, _⟩
    have hafter : ((twoSectors.1.write twoSectors.2 ⟨none, true, none⟩ 0 (.fill 3, 2, 1)).map
        fun state' => state'.1.readMetadata state'.2 1) = some none := by
      decide +kernel
    have hbefore : twoSectors.1.readMetadata twoSectors.2 1 = some (1, 1) := by
      decide +kernel
    obtain ⟨_, hpair⟩ := hsame 1 (by decide)
    have hmetadata : state'.1.readMetadata state'.2 1 = twoSectors.1.readMetadata twoSectors.2 1 :=
      (Prod.ext_iff.mp hpair).2
    rw [hwrite, Option.map_some, hmetadata, hbefore] at hafter
    cases hafter
  · exact Reachable.init.step
      (a := .write 0 (.fill 1, 1, 1) ⟨none, false, some ⟨.syncDir, true, by decide⟩⟩) trivial rfl
  · rintro ⟨state', hwrite, _, before, after, hbefore, hafter, hsame⟩
    have htag : storedTag staleSector.2 0 = some (1, 1) := by
      decide +kernel
    have htag' : ((staleSector.1.write staleSector.2 .none 1 (.fill 2, 1, 1)).map
        fun state' => storedTag state'.2 0) = some (some (0, 0)) := by
      decide +kernel
    rw [storedTag, hbefore, Option.bind_some] at htag
    rw [hwrite, Option.map_some, storedTag, hafter, Option.bind_some, Option.some.injEq] at htag'
    obtain ⟨_, hpair⟩ := hsame 0 (by decide)
    have hmetadata : after.readMetadata state'.2 0 = before.readMetadata staleSector.2 0 :=
      (Prod.ext_iff.mp hpair).2
    rw [htag', htag] at hmetadata
    cases hmetadata

end Storage
end AtomicDiscDrive
