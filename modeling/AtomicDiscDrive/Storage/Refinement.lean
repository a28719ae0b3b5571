import AtomicDiscDrive.Storage.Store

/-!
# The sector store refines a map

The metadata files hold a list of records, one for each sector, densely packed: record `k`
is the `k % 240`-th one of file `k / 240`. `Holds` says so of the disc and `Indexes` of a
manager. A complete write replaces the record of its sector or adds one at the end
(`upsert`), and `new` finds the same index again whatever happened to the manager
(`exists_new`).

Seen as `SectorFiles` (`view`), the disc is changed by the two file writes of `write`
exactly as by `writeData` and `writeMetadata`, and the reads agree.
-/

namespace AtomicDiscDrive
namespace Storage

open Utils

theorem metadatasPerFile_pos : 0 < metadatasPerFile := by decide

theorem Record.length_encode (r : Record) : r.encode.length = metadataSize := by
  simp only [encode, List.length_append, length_u64ToBeBytes, List.length_singleton]
  rfl

/-! ## The invariant -/

/-- File and offset of the `k`-th record. -/
def placeOf (k : ℕ) : ℕ × ℕ := (k / metadatasPerFile, k % metadatasPerFile * metadataSize)

/-- The bytes of the `n`-th metadata file. -/
def fileOf (records : List Record) (n : ℕ) : Option (List UInt8) :=
  if n * metadatasPerFile < records.length then
    some (pack Record.encode (chunk metadatasPerFile n records))
  else none

/-- The disc holds the records, and data for each of them. -/
structure Holds (d : Disc) (records : List Record) : Prop where
  nodup : (records.map Record.sector).Nodup
  files : ∀ n, d.metadata.lookup n = fileOf records n
  data : ∀ r ∈ records, d.data r.sector ≠ none

/-- An index that points at the records. -/
structure Points (info : SectorIdx → Option (ℕ × ℕ)) (records : List Record) : Prop where
  present : ∀ k r, records[k]? = some r → info r.sector = some (placeOf k)
  absent : ∀ idx, idx ∉ records.map Record.sector → info idx = none

/-- The manager knows the records. -/
structure Indexes (m : Manager) (records : List Record) : Prop where
  points : Points m.metadataInfoMap records
  total : m.metadataTotalSize = records.length * metadataSize

/-! ## Reading a record -/

theorem getMetadataInfo_eq {vec : List UInt8} {offset : ℕ} {r : Record}
    (h : (vec.drop offset).take metadataSize = r.encode) :
    getMetadataInfo vec offset = some r := by
  have hlen : offset + metadataSize ≤ vec.length := by
    have hlength := congrArg List.length h
    rw [r.length_encode, List.length_take, List.length_drop] at hlength
    have hsize : 0 < metadataSize := by decide
    omega
  have hsector : (vec.drop offset).take 8 = u64ToBeBytes r.sector := by
    have htake := congrArg (List.take 8) h
    rw [List.take_take] at htake
    rw [show 8 = min 8 metadataSize by decide, htake, Record.encode, List.append_assoc,
      List.take_left' (length_u64ToBeBytes _)]
  have htimestamp : (vec.drop (offset + 8)).take 8 = u64ToBeBytes r.timestamp := by
    have hdrop := congrArg (fun l => (l.drop 8).take 8) h
    rw [List.drop_take, List.drop_drop, List.take_take] at hdrop
    rw [show 8 = min 8 (metadataSize - 8) by decide]
    rw [show offset + min 8 (metadataSize - 8) = offset + 8 by rfl, hdrop, Record.encode,
      List.append_assoc, List.drop_left' (length_u64ToBeBytes _),
      List.take_left' (length_u64ToBeBytes _)]
  have hrank : vec.getD (offset + metadataSize - 1) 0 = r.writeRank := by
    have hget := congrArg (fun l => l[metadataSize - 1]?) h
    rw [List.getElem?_take_of_lt (by decide), List.getElem?_drop] at hget
    have hlast : r.encode[metadataSize - 1]? = some r.writeRank := by
      rw [Record.encode, List.getElem?_append_right (by simp [metadataSize])]
      simp [metadataSize]
    rw [List.getD_eq_getElem?_getD, show offset + metadataSize - 1 = offset + (metadataSize - 1) from rfl,
      hget, hlast]
    rfl
  rw [getMetadataInfo, if_pos hlen, hsector, htimestamp, hrank, u64FromBeBytes_u64ToBeBytes,
    u64FromBeBytes_u64ToBeBytes]

/-- A record of a packed file. -/
theorem getMetadataInfo_pack {records : List Record} {j : ℕ} {r : Record}
    (h : records[j]? = some r) :
    getMetadataInfo (pack Record.encode records) (j * metadataSize) = some r :=
  getMetadataInfo_eq (pack_getElem Record.length_encode h)

/-- The file of the `k`-th record. -/
theorem fileOf_div {records : List Record} {k : ℕ} (hk : k < records.length) :
    fileOf records (k / metadatasPerFile) =
      some (pack Record.encode (chunk metadatasPerFile (k / metadatasPerFile) records)) := by
  rw [fileOf, if_pos (lt_of_le_of_lt (Nat.div_mul_le_self _ _) hk)]

/-! ## What the reads return -/

/-- The sectors as the disc holds them. -/
def view (d : Disc) (records : List Record) : SectorFiles :=
  { data := fun idx => (d.data idx).map SectorVec.mk
    metadata := fun idx =>
      (records.find? fun r => r.sector = idx).map fun r => (r.timestamp, r.writeRank) }

theorem find?_of_getElem? {records : List Record} (hnodup : (records.map Record.sector).Nodup)
    {k : ℕ} {r : Record} (hk : records[k]? = some r) :
    (records.find? fun r' => r'.sector = r.sector) = some r := by
  induction records generalizing k with
  | nil => simp at hk
  | cons r' records ih =>
    rw [List.map_cons, List.nodup_cons] at hnodup
    cases k with
    | zero =>
      rw [List.getElem?_cons_zero, Option.some.injEq] at hk
      rw [List.find?_cons_of_pos (by simp [hk]), hk]
    | succ k =>
      rw [List.getElem?_cons_succ] at hk
      have hne : r'.sector ≠ r.sector := by
        intro heq
        apply hnodup.1
        rw [heq]
        exact List.mem_map.mpr ⟨r, List.mem_of_getElem? hk, rfl⟩
      rw [List.find?_cons_of_neg (by simpa using hne), ih hnodup.2 hk]

theorem find?_of_notMem {records : List Record} {idx : SectorIdx}
    (h : idx ∉ records.map Record.sector) :
    (records.find? fun r => r.sector = idx) = none := by
  rw [List.find?_eq_none]
  intro r hr heq
  exact h (List.mem_map.mpr ⟨r, hr, of_decide_eq_true heq⟩)

/-- The place of a sector that has a record. -/
theorem exists_getElem?_of_mem {records : List Record} {idx : SectorIdx}
    (h : idx ∈ records.map Record.sector) : ∃ (k : ℕ) (r : Record), records[k]? = some r ∧ r.sector = idx := by
  obtain ⟨r, hr, hsector⟩ := List.mem_map.mp h
  obtain ⟨k, hk⟩ := List.getElem?_of_mem hr
  exact ⟨k, r, hk, hsector⟩

section Reads

variable {m : Manager} {d : Disc} {records : List Record} (hm : Indexes m records)
  (hd : Holds d records)
include hm hd

theorem readData_eq (idx : SectorIdx) : m.readData d idx = (view d records).readData idx := by
  by_cases hmem : idx ∈ records.map Record.sector
  · obtain ⟨k, r, hk, rfl⟩ := exists_getElem?_of_mem hmem
    have hdata : d.data r.sector ≠ none := hd.data r (List.mem_of_getElem? hk)
    obtain ⟨vec, hvec⟩ := Option.ne_none_iff_exists'.mp hdata
    rw [Manager.readData, hm.points.present k r hk, SectorFiles.readData]
    simp only [view, hvec, find?_of_getElem? hd.nodup hk, Option.map_some, Option.getD_some]
  · rw [Manager.readData, hm.points.absent idx hmem, SectorFiles.readData]
    simp only [view, find?_of_notMem hmem, Option.map_none]

theorem readMetadata_eq (idx : SectorIdx) :
    m.readMetadata d idx = some ((view d records).readMetadata idx) := by
  by_cases hmem : idx ∈ records.map Record.sector
  · obtain ⟨k, r, hk, rfl⟩ := exists_getElem?_of_mem hmem
    have hlt : k < records.length := (List.getElem?_eq_some_iff.mp hk).1
    rw [Manager.readMetadata, hm.points.present k r hk]
    simp only [placeOf, hd.files, fileOf_div hlt]
    rw [getMetadataInfo_pack ((getElem?_chunk_div metadatasPerFile_pos k records).trans hk)]
    simp only [SectorFiles.readMetadata, view, find?_of_getElem? hd.nodup hk, Option.map_some,
      Option.getD_some]
  · rw [Manager.readMetadata, hm.points.absent idx hmem]
    simp only [SectorFiles.readMetadata, view, find?_of_notMem hmem, Option.map_none,
      Option.getD_none]

end Reads

/-! ## The recovery scan -/

/-- One more record at the end. -/
theorem Points.concat {info : SectorIdx → Option (ℕ × ℕ)} {records : List Record} {r : Record}
    (h : Points info records) (hnew : r.sector ∉ records.map Record.sector) :
    Points (Function.update info r.sector (some (placeOf records.length))) (records ++ [r]) := by
  constructor
  · intro k r' hk
    rcases Nat.lt_trichotomy k records.length with hlt | rfl | hgt
    · rw [List.getElem?_append_left hlt] at hk
      have hne : r'.sector ≠ r.sector := by
        intro heq
        apply hnew
        rw [← heq]
        exact List.mem_map.mpr ⟨r', List.mem_of_getElem? hk, rfl⟩
      rw [Function.update_of_ne hne]
      exact h.present k r' hk
    · rw [List.getElem?_concat_length, Option.some.injEq] at hk
      rw [hk, Function.update_self]
    · rw [List.getElem?_eq_none (by rw [List.length_append, List.length_singleton]; omega)] at hk
      cases hk
  · intro idx hidx
    rw [List.map_append, List.mem_append, not_or] at hidx
    have hne : idx ≠ r.sector := by
      intro heq
      apply hidx.2
      rw [heq]
      exact List.mem_singleton_self _
    rw [Function.update_of_ne hne]
    exact h.absent idx hidx.1

theorem offsets_mul (c : ℕ) : offsets (c * metadataSize) = (List.range c).map (· * metadataSize) := by
  have hdiv : (c * metadataSize + metadataSize - 1) / metadataSize = c := by
    simp only [metadataSize]
    omega
  rw [offsets, hdiv]

/-- The inner loop of `new` enters the records of a file, one after the other. -/
theorem indexFile_eq {vec : List UInt8} {n j : ℕ} {rest : List Record} {m : Manager}
    {records : List Record} (hm : Points m.metadataInfoMap records)
    (hnodup : ((records ++ rest).map Record.sector).Nodup)
    (hlength : records.length = n * metadatasPerFile + j) (hfit : j + rest.length ≤ metadatasPerFile)
    (hvec : ∀ i r, rest[i]? = some r → getMetadataInfo vec ((j + i) * metadataSize) = some r) :
    ∃ m', indexFile vec n ((List.range' j rest.length).map (· * metadataSize)) m = some m' ∧
      Points m'.metadataInfoMap (records ++ rest) ∧
      m'.metadataTotalSize = m.metadataTotalSize := by
  induction rest generalizing j m records with
  | nil =>
    rw [List.append_nil]
    exact ⟨m, rfl, hm, rfl⟩
  | cons r rest ih =>
    have hinfo : getMetadataInfo vec (j * metadataSize) = some r := hvec 0 r rfl
    have hnew : r.sector ∉ records.map Record.sector := by
      intro hmem
      rw [List.map_append, List.map_cons, List.nodup_middle, List.nodup_cons] at hnodup
      exact hnodup.1 (List.mem_append_left _ hmem)
    -- the next record is entered under the place it has in the list of all records
    have hplace : placeOf records.length = (n, j * metadataSize) := by
      rw [List.length_cons] at hfit
      have hj : j < metadatasPerFile := by omega
      rw [placeOf, hlength, Nat.mul_comm n, Nat.mul_add_div metadatasPerFile_pos,
        Nat.div_eq_of_lt hj, Nat.add_zero, Nat.mul_add_mod, Nat.mod_eq_of_lt hj]
    have hpoints : Points (m.enter r.sector (n, j * metadataSize)).metadataInfoMap
        (records ++ [r]) := by
      have := hm.concat hnew
      rw [hplace] at this
      exact this
    have hlength' : (records ++ [r]).length = n * metadatasPerFile + (j + 1) := by
      rw [List.length_append, List.length_singleton, hlength, Nat.add_assoc]
    obtain ⟨m', hrun, hm', htotal⟩ := ih hpoints
      (by rw [List.append_assoc]; exact hnodup) hlength'
      (by rw [List.length_cons] at hfit; omega)
      (by
        intro i r' hi
        rw [Nat.add_right_comm, Nat.add_assoc]
        exact hvec (i + 1) r' hi)
    refine ⟨m', ?_, ?_, htotal⟩
    · rw [List.length_cons, List.range'_succ, List.map_cons, indexFile, hinfo]
      exact hrun
    · rw [List.append_assoc] at hm'
      exact hm'

/-- The outer loop of `new`, when it has come to file `n`. -/
theorem scan_eq {d : Disc} {records : List Record} (hd : Holds d records) {fuel n : ℕ}
    (hfuel : records.length ≤ (n + fuel) * metadatasPerFile) {m : Manager}
    (hm : Indexes m (records.take (n * metadatasPerFile))) :
    ∃ m', scan d.metadata fuel n m = some m' ∧ Indexes m' records := by
  induction fuel generalizing n m with
  | zero =>
    rw [Nat.add_zero] at hfuel
    rw [List.take_of_length_le hfuel] at hm
    exact ⟨m, rfl, hm⟩
  | succ fuel ih =>
    rw [scan, hd.files n, fileOf]
    by_cases hn : n * metadatasPerFile < records.length
    · rw [if_pos hn]
      -- file `n` holds the next `metadatasPerFile` records, or the last ones
      set records' := chunk metadatasPerFile n records with hrecords'
      have hsplit : records.take ((n + 1) * metadatasPerFile) =
          records.take (n * metadatasPerFile) ++ records' := by
        rw [Nat.add_mul, Nat.one_mul, List.take_add, hrecords', chunk]
      have hnodup : ((records.take (n * metadatasPerFile) ++ records').map Record.sector).Nodup := by
        rw [← hsplit, List.map_take]
        exact hd.nodup.sublist (List.take_sublist _ _)
      have hlength : (records.take (n * metadatasPerFile)).length = n * metadatasPerFile + 0 := by
        rw [List.length_take]
        omega
      have hfit : 0 + records'.length ≤ metadatasPerFile := by
        rw [hrecords', length_chunk]
        omega
      obtain ⟨m', hrun, hpoints, htotal⟩ := indexFile_eq
        (m := { m with
          metadataTotalSize := m.metadataTotalSize + (pack Record.encode records').length })
        hm.points hnodup hlength hfit
        (fun i r hi => getMetadataInfo_pack (by rw [Nat.zero_add]; exact hi))
      rw [← List.range_eq_range', ← offsets_mul, ← length_pack Record.length_encode] at hrun
      simp only [hrun]
      apply ih (n := n + 1) (by rw [Nat.add_right_comm, Nat.add_assoc]; exact hfuel)
      rw [hsplit]
      refine ⟨hpoints, ?_⟩
      rw [htotal, hm.total, length_pack Record.length_encode, List.length_append, Nat.add_mul]
    · rw [if_neg hn]
      rw [List.take_of_length_le (by omega)] at hm
      exact ⟨m, rfl, hm⟩

/-- There are enough files for the records. -/
theorem length_le_files {d : Disc} {records : List Record} (hd : Holds d records) :
    records.length ≤ d.metadata.entries.length * metadatasPerFile := by
  have hpos := metadatasPerFile_pos
  by_contra hlt
  -- the files up to the number of entries all exist, which are too many
  have hsubset : List.range (d.metadata.entries.length + 1) ⊆ d.metadata.keys := by
    intro n hn
    rw [List.mem_range] at hn
    have hle : n * metadatasPerFile ≤ d.metadata.entries.length * metadatasPerFile :=
      Nat.mul_le_mul_right _ (by omega)
    apply AList.lookup_isSome.mp
    rw [hd.files n, fileOf, if_pos (by omega)]
    rfl
  have hcard := (List.nodup_range.subperm hsubset).length_le
  rw [List.length_range, AList.keys, List.keys, List.length_map] at hcard
  omega

/-- **Recovery.** `new` finds the records on the disc. -/
theorem exists_new {d : Disc} {records : List Record} (hd : Holds d records) :
    ∃ m, Manager.new d = some m ∧ Indexes m records := by
  apply scan_eq hd
  · have hle := length_le_files hd
    rw [Nat.zero_add, Nat.add_mul]
    omega
  · rw [Nat.zero_mul, List.take_zero]
    refine ⟨⟨?_, fun _ _ => rfl⟩, ?_⟩
    · intro k r hk
      cases hk
    · rw [List.length_nil, Nat.zero_mul]

/-! ## Writing a record -/

/-- The records with a new one for its sector. -/
def upsert (records : List Record) (r : Record) : List Record :=
  if r.sector ∈ records.map Record.sector then
    records.map fun r' => if r'.sector = r.sector then r else r'
  else records ++ [r]

/-- The sector of a record tells its place. -/
theorem eq_of_sector_eq {records : List Record} (hnodup : (records.map Record.sector).Nodup)
    {i k : ℕ} {a b : Record} (ha : records[i]? = some a) (hb : records[k]? = some b)
    (hsector : a.sector = b.sector) : i = k := by
  have hi : i < (records.map Record.sector).length := by
    rw [List.length_map]
    exact (List.getElem?_eq_some_iff.mp ha).1
  apply (List.getElem?_inj hi hnodup).mp
  rw [List.getElem?_map, List.getElem?_map, ha, hb]
  exact congrArg some hsector

theorem upsert_of_getElem? {records : List Record} (hnodup : (records.map Record.sector).Nodup)
    {k : ℕ} {old r : Record} (hk : records[k]? = some old) (hsector : old.sector = r.sector) :
    upsert records r = records.set k r := by
  have hmem : r.sector ∈ records.map Record.sector :=
    List.mem_map.mpr ⟨old, List.mem_of_getElem? hk, hsector⟩
  rw [upsert, if_pos hmem]
  apply List.ext_getElem?
  intro i
  rw [List.getElem?_map, List.getElem?_set]
  by_cases hik : k = i
  · subst hik
    rw [if_pos rfl, if_pos (List.getElem?_eq_some_iff.mp hk).1, hk, Option.map_some,
      if_pos hsector]
  · rw [if_neg hik]
    cases ha : records[i]? with
    | none => rfl
    | some a =>
      have hne : a.sector ≠ r.sector := by
        intro heq
        exact hik (eq_of_sector_eq hnodup hk ha (hsector.trans heq.symm))
      rw [Option.map_some, if_neg hne]

theorem upsert_of_notMem {records : List Record} {r : Record}
    (h : r.sector ∉ records.map Record.sector) : upsert records r = records ++ [r] := by
  rw [upsert, if_neg h]

theorem fileOf_getD (records : List Record) (n : ℕ) :
    (fileOf records n).getD [] = pack Record.encode (chunk metadatasPerFile n records) := by
  rw [fileOf]
  by_cases hn : n * metadatasPerFile < records.length
  · rw [if_pos hn]
    rfl
  · rw [if_neg hn, chunk, List.drop_eq_nil_of_le (by omega)]
    rfl

section Writes

variable {m : Manager} {d : Disc} {records : List Record} (hm : Indexes m records)
  (hd : Holds d records)
include hm

theorem place_of_getElem? {k : ℕ} {r : Record} (hk : records[k]? = some r) :
    m.place r.sector = placeOf k := by
  rw [Manager.place, hm.points.present k r hk]

/-- The first free place. -/
theorem place_of_notMem {idx : SectorIdx} (h : idx ∉ records.map Record.sector) :
    m.place idx = placeOf records.length := by
  have hpos : 0 < metadataSize := by decide
  rw [Manager.place, hm.points.absent idx h, placeOf]
  simp only [hm.total, metadatasFileSize]
  rw [Nat.mul_div_mul_right _ _ hpos, Nat.mul_mod_mul_right]

include hd

/-- The metadata file of a new sector grows by its record. -/
theorem updateFile_of_notMem {r : Record} (h : r.sector ∉ records.map Record.sector) :
    ∃ val, Manager.updateFile ((d.metadata.lookup (m.place r.sector).1).getD [])
        (m.place r.sector).2 r.encode = some val ∧
      ∀ n, (d.metadata.insert (m.place r.sector).1 val).lookup n = fileOf (upsert records r) n := by
  have hpos := metadatasPerFile_pos
  have hdiv := Nat.div_add_mod' records.length metadatasPerFile
  have hmod := Nat.mod_lt records.length hpos
  have hoffset : records.length % metadatasPerFile * metadataSize =
      (pack Record.encode (chunk metadatasPerFile (records.length / metadatasPerFile) records)).length := by
    rw [length_pack Record.length_encode, length_chunk]
    congr 1
    omega
  rw [place_of_notMem hm h, upsert_of_notMem h]
  refine ⟨pack Record.encode
    (chunk metadatasPerFile (records.length / metadatasPerFile) (records ++ [r])), ?_, ?_⟩
  · rw [placeOf, hd.files, fileOf_getD, Manager.updateFile, if_pos hoffset,
      chunk_concat_self hpos, pack_concat]
  · intro n
    by_cases hn : n = records.length / metadatasPerFile
    · subst hn
      rw [placeOf, AList.lookup_insert, fileOf, if_pos]
      rw [List.length_append, List.length_singleton]
      omega
    · rw [placeOf, AList.lookup_insert_ne hn, hd.files, fileOf, fileOf,
        chunk_concat_of_ne hpos records hn]
      -- no other file begins with the new record
      have hne : n * metadatasPerFile ≠ records.length := by
        intro heq
        apply hn
        rw [← heq, Nat.mul_div_cancel _ hpos]
      by_cases hlt : n * metadatasPerFile < records.length
      · rw [if_pos hlt, if_pos (by rw [List.length_append, List.length_singleton]; omega)]
      · rw [if_neg hlt, if_neg (by rw [List.length_append, List.length_singleton]; omega)]

/-- The record of a known sector is replaced in its place. -/
theorem updateFile_of_getElem? {k : ℕ} {old r : Record} (hk : records[k]? = some old)
    (hsector : old.sector = r.sector) :
    ∃ val, Manager.updateFile ((d.metadata.lookup (m.place r.sector).1).getD [])
        (m.place r.sector).2 r.encode = some val ∧
      ∀ n, (d.metadata.insert (m.place r.sector).1 val).lookup n = fileOf (upsert records r) n := by
  have hpos := metadatasPerFile_pos
  have hlt : k < records.length := (List.getElem?_eq_some_iff.mp hk).1
  have hplace : m.place r.sector = placeOf k := hsector ▸ place_of_getElem? hm hk
  have hget := (getElem?_chunk_div hpos k records).trans hk
  have hj : k % metadatasPerFile < (chunk metadatasPerFile (k / metadatasPerFile) records).length :=
    (List.getElem?_eq_some_iff.mp hget).1
  rw [hplace, upsert_of_getElem? hd.nodup hk hsector]
  refine ⟨pack Record.encode
    (chunk metadatasPerFile (k / metadatasPerFile) (records.set k r)), ?_, ?_⟩
  · have hlength := length_pack Record.length_encode
      (chunk metadatasPerFile (k / metadatasPerFile) records)
    have hfit : k % metadatasPerFile * metadataSize + metadataSize ≤
        (pack Record.encode (chunk metadatasPerFile (k / metadatasPerFile) records)).length := by
      rw [hlength, ← Nat.succ_mul]
      exact Nat.mul_le_mul_right _ hj
    have hsize : 0 < metadataSize := by decide
    have hne : k % metadatasPerFile * metadataSize ≠
        (pack Record.encode (chunk metadatasPerFile (k / metadatasPerFile) records)).length := by
      omega
    rw [placeOf, hd.files, fileOf_getD, Manager.updateFile, if_neg hne, if_pos hfit,
      chunk_set_self, pack_set Record.length_encode hj]
  · intro n
    by_cases hn : n = k / metadatasPerFile
    · subst hn
      rw [placeOf, AList.lookup_insert, fileOf, if_pos]
      rw [List.length_set]
      exact lt_of_le_of_lt (Nat.div_mul_le_self _ _) hlt
    · rw [placeOf, AList.lookup_insert_ne hn, hd.files, fileOf, fileOf,
        chunk_set_of_ne hpos records hn, List.length_set]

/-- **The metadata step** of `write` never panics, and leaves the records with the new one. -/
theorem updateFile_eq (r : Record) :
    ∃ val, Manager.updateFile ((d.metadata.lookup (m.place r.sector).1).getD [])
        (m.place r.sector).2 r.encode = some val ∧
      ∀ n, (d.metadata.insert (m.place r.sector).1 val).lookup n = fileOf (upsert records r) n := by
  by_cases hmem : r.sector ∈ records.map Record.sector
  · obtain ⟨k, old, hk, hsector⟩ := exists_getElem?_of_mem hmem
    exact updateFile_of_getElem? hm hd hk hsector
  · exact updateFile_of_notMem hm hd hmem

end Writes

/-! ## `write` -/

theorem map_sector_upsert (records : List Record) (r : Record) :
    (upsert records r).map Record.sector =
      if r.sector ∈ records.map Record.sector then records.map Record.sector
      else records.map Record.sector ++ [r.sector] := by
  unfold upsert
  by_cases hmem : r.sector ∈ records.map Record.sector
  · rw [if_pos hmem, if_pos hmem, List.map_map]
    apply List.map_congr_left
    intro r' _
    show (if r'.sector = r.sector then r else r').sector = r'.sector
    by_cases heq : r'.sector = r.sector
    · rw [if_pos heq, heq]
    · rw [if_neg heq]
  · rw [if_neg hmem, if_neg hmem, List.map_append]
    rfl

theorem mem_upsert {records : List Record} {r r' : Record} (h : r' ∈ upsert records r) :
    r' = r ∨ r' ∈ records := by
  unfold upsert at h
  by_cases hmem : r.sector ∈ records.map Record.sector
  · rw [if_pos hmem] at h
    obtain ⟨a, ha, rfl⟩ := List.mem_map.mp h
    by_cases heq : a.sector = r.sector
    · exact Or.inl (if_pos heq)
    · rw [if_neg heq]
      exact Or.inr ha
  · rw [if_neg hmem, List.mem_append, List.mem_singleton] at h
    exact h.symm

theorem nodup_upsert {records : List Record} (h : (records.map Record.sector).Nodup) (r : Record) :
    ((upsert records r).map Record.sector).Nodup := by
  rw [map_sector_upsert]
  by_cases hmem : r.sector ∈ records.map Record.sector
  · rw [if_pos hmem]
    exact h
  · rw [if_neg hmem]
    exact List.nodup_append.mpr ⟨h, List.nodup_singleton _, by
      intro a ha b hb heq
      rw [List.mem_singleton] at hb
      exact hmem (hb ▸ heq ▸ ha)⟩

/-- Replacing a data file keeps the records. -/
theorem Holds.writeData {d : Disc} {records : List Record} (hd : Holds d records)
    (idx : SectorIdx) (bytes : List UInt8) :
    Holds { d with data := Function.update d.data idx (some bytes) } records := by
  refine ⟨hd.nodup, hd.files, ?_⟩
  intro r hr
  by_cases heq : r.sector = idx
  · simp [heq]
  · simp only [Function.update_of_ne heq]
    exact hd.data r hr

/-- The disc after the metadata step. -/
theorem Holds.writeMetadata {d : Disc} {records : List Record} (hd : Holds d records) {r : Record}
    (hdata : d.data r.sector ≠ none) {filename : ℕ} {val : List UInt8}
    (hfiles : ∀ n, (d.metadata.insert filename val).lookup n = fileOf (upsert records r) n) :
    Holds { d with metadata := d.metadata.insert filename val } (upsert records r) := by
  refine ⟨nodup_upsert hd.nodup r, hfiles, ?_⟩
  intro r' hr'
  rcases mem_upsert hr' with rfl | hmem
  · exact hdata
  · exact hd.data r' hmem

/-- The manager after a complete write of a known sector. -/
theorem Indexes.update {m : Manager} {records : List Record} (hm : Indexes m records)
    {r : Record} (h : r.sector ∈ records.map Record.sector) : Indexes m (upsert records r) := by
  have hlength : (upsert records r).length = records.length := by
    rw [upsert, if_pos h, List.length_map]
  refine ⟨⟨?_, ?_⟩, ?_⟩
  · intro k r' hk
    rw [upsert, if_pos h, List.getElem?_map] at hk
    obtain ⟨a, ha, rfl⟩ := Option.map_eq_some_iff.mp hk
    have hsector : (if a.sector = r.sector then r else a).sector = a.sector := by
      by_cases heq : a.sector = r.sector
      · rw [if_pos heq, heq]
      · rw [if_neg heq]
    rw [hsector]
    exact hm.points.present k a ha
  · intro idx hidx
    rw [map_sector_upsert, if_pos h] at hidx
    exact hm.points.absent idx hidx
  · rw [hlength]
    exact hm.total

/-- The manager after a complete write of a new sector. -/
theorem Indexes.insert {m : Manager} {records : List Record} (hm : Indexes m records)
    {r : Record} (h : r.sector ∉ records.map Record.sector) :
    Indexes { m.enter r.sector (m.place r.sector) with
      metadataTotalSize := m.metadataTotalSize + metadataSize } (upsert records r) := by
  rw [upsert_of_notMem h]
  refine ⟨?_, ?_⟩
  · rw [place_of_notMem hm h]
    exact hm.points.concat h
  · rw [List.length_append, List.length_singleton, Nat.add_mul, Nat.one_mul, ← hm.total]

/-- **`write`.** A call that is not disturbed succeeds and leaves the records with the new
one. -/
theorem exists_write {m : Manager} {d : Disc} {records : List Record} (hm : Indexes m records)
    (hd : Holds d records) (idx : SectorIdx) (sector : SectorVec × UInt64 × UInt8) :
    ∃ m' val filename, m.write d .none idx sector = some (m',
        { data := Function.update d.data idx (some sector.1.bytes)
          metadata := d.metadata.insert filename val }) ∧
      Indexes m' (upsert records ⟨idx, sector.2.1, sector.2.2⟩) ∧
      Holds { data := Function.update d.data idx (some sector.1.bytes)
              metadata := d.metadata.insert filename val }
        (upsert records ⟨idx, sector.2.1, sector.2.2⟩) := by
  have hd' := hd.writeData idx sector.1.bytes
  obtain ⟨val, hval, hfiles⟩ := updateFile_eq hm hd' ⟨idx, sector.2.1, sector.2.2⟩
  have hholds := hd'.writeMetadata (r := ⟨idx, sector.2.1, sector.2.2⟩) (by simp) hfiles
  by_cases hmem : idx ∈ records.map Record.sector
  · obtain ⟨k, r, hk, hsector⟩ := exists_getElem?_of_mem hmem
    refine ⟨m, val, (m.place idx).1, ?_, hm.update hmem, hholds⟩
    have hinfo : m.metadataInfoMap idx = some (placeOf k) := hsector ▸ hm.points.present k r hk
    simp only [Manager.write, Faults.none, replaces, if_true, Option.isSome_none,
      Bool.false_eq_true, if_false, hval, hinfo]
  · refine ⟨_, val, (m.place idx).1, ?_, hm.insert hmem, hholds⟩
    simp only [Manager.write, Faults.none, replaces, if_true, Option.isSome_none,
      Bool.false_eq_true, if_false, hval, hm.points.absent idx hmem]

/-! ## The sectors after a write -/

theorem find?_upsert_self {records : List Record} (r : Record) :
    ((upsert records r).find? fun r' => r'.sector = r.sector) = some r := by
  unfold upsert
  by_cases hmem : r.sector ∈ records.map Record.sector
  · rw [if_pos hmem]
    induction records with
    | nil => simp at hmem
    | cons a records ih =>
      rw [List.map_cons]
      by_cases heq : a.sector = r.sector
      · rw [if_pos heq, List.find?_cons_of_pos (by simp)]
      · rw [if_neg heq, List.find?_cons_of_neg (by simpa using heq)]
        apply ih
        rw [List.map_cons, List.mem_cons] at hmem
        exact hmem.resolve_left (fun h => heq h.symm)
  · rw [if_neg hmem, List.find?_append, find?_of_notMem hmem]
    simp

theorem find?_upsert_of_ne {records : List Record} {r : Record} {idx : SectorIdx}
    (h : idx ≠ r.sector) :
    ((upsert records r).find? fun r' => r'.sector = idx) =
      records.find? fun r' => r'.sector = idx := by
  unfold upsert
  by_cases hmem : r.sector ∈ records.map Record.sector
  · rw [if_pos hmem]
    clear hmem
    induction records with
    | nil => rfl
    | cons a records ih =>
      rw [List.map_cons]
      by_cases heq : a.sector = r.sector
      · rw [if_pos heq, List.find?_cons_of_neg (by simpa using h.symm),
          List.find?_cons_of_neg (by simpa [heq] using h.symm), ih]
      · rw [if_neg heq, List.find?_cons, List.find?_cons, ih]
  · rw [if_neg hmem, List.find?_append]
    have hnone : ([r].find? fun r' => r'.sector = idx) = none := by simp [h.symm]
    rw [hnone, Option.or_none]

/-- The data step of `write`. -/
theorem view_writeData (d : Disc) (records : List Record) (idx : SectorIdx) (data : SectorVec) :
    view { d with data := Function.update d.data idx (some data.bytes) } records =
      (view d records).writeData idx data := by
  simp only [view, SectorFiles.writeData]
  congr 1
  funext j
  by_cases hj : j = idx
  · rw [hj, Function.update_self, Function.update_self]
    rfl
  · rw [Function.update_of_ne hj, Function.update_of_ne hj]

/-- The metadata step of `write`. -/
theorem view_upsert (d : Disc) (records : List Record) (r : Record) :
    view d (upsert records r) =
      (view d records).writeMetadata r.sector r.timestamp r.writeRank := by
  simp only [view, SectorFiles.writeMetadata]
  congr 1
  funext j
  by_cases hj : j = r.sector
  · rw [hj, find?_upsert_self, Function.update_self]
    rfl
  · rw [find?_upsert_of_ne hj, Function.update_of_ne hj]

/-! ## Histories -/

/-- The sectors after a complete call. -/
def StoreOp.apply (files : SectorFiles) : StoreOp → SectorFiles
  | .write idx sector => (files.writeData idx sector.1).writeMetadata idx sector.2.1 sector.2.2
  | .new => files

/-- A complete call keeps the invariant, and changes the sectors as `apply` says. -/
theorem exists_run {state : Manager × Disc} {records : List Record}
    (hm : Indexes state.1 records) (hd : Holds state.2 records) (op : StoreOp) :
    ∃ state' records', op.run state = some state' ∧ Indexes state'.1 records' ∧
      Holds state'.2 records' ∧ view state'.2 records' = op.apply (view state.2 records) := by
  obtain ⟨m, d⟩ := state
  cases op with
  | write idx sector =>
    obtain ⟨m', val, filename, hrun, hm', hd'⟩ := exists_write hm hd idx sector
    refine ⟨_, _, hrun, hm', hd', ?_⟩
    rw [view_upsert]
    exact congrArg (fun files : SectorFiles => files.writeMetadata idx sector.2.1 sector.2.2)
      (view_writeData d records idx sector.1)
  | new =>
    obtain ⟨m', hnew, hm'⟩ := exists_new hd
    refine ⟨(m', d), records, ?_, hm', hd, rfl⟩
    show (Manager.new d).map _ = _
    rw [hnew]
    rfl

theorem exists_runAll {state : Manager × Disc} {records : List Record}
    (hm : Indexes state.1 records) (hd : Holds state.2 records) (ops : List StoreOp) :
    ∃ state' records', runAll state ops = some state' ∧ Indexes state'.1 records' ∧
      Holds state'.2 records' ∧
      view state'.2 records' = ops.foldl StoreOp.apply (view state.2 records) := by
  induction ops generalizing state records with
  | nil => exact ⟨state, records, rfl, hm, hd, rfl⟩
  | cons op ops ih =>
    obtain ⟨state', records', hrun, hm', hd', hview⟩ := exists_run hm hd op
    obtain ⟨state'', records'', hruns, hm'', hd'', hviews⟩ := ih hm' hd'
    refine ⟨state'', records'', ?_, hm'', hd'', ?_⟩
    · rw [runAll, hrun]
      exact hruns
    · rw [hviews, hview]
      rfl

theorem indexes_fresh : Indexes fresh.1 [] := by
  refine ⟨⟨?_, fun _ _ => rfl⟩, rfl⟩
  intro k r h
  cases h

theorem holds_fresh : Holds fresh.2 [] := by
  refine ⟨List.nodup_nil, fun _ => rfl, ?_⟩
  intro r h
  cases h

/-- What the sectors hold after a history of calls, in terms of the last writes. -/
theorem foldl_apply (files : SectorFiles) (ops : List StoreOp) (idx : SectorIdx) :
    (ops.foldl StoreOp.apply files).data idx =
        ((lastWrite idx ops).map Prod.fst).or (files.data idx) ∧
      (ops.foldl StoreOp.apply files).metadata idx =
        ((lastWrite idx ops).map Prod.snd).or (files.metadata idx) := by
  induction ops generalizing files with
  | nil => exact ⟨rfl, rfl⟩
  | cons op ops ih =>
    rw [List.foldl_cons, (ih _).1, (ih _).2, lastWrite]
    cases lastWrite idx ops with
    | some sector => exact ⟨rfl, rfl⟩
    | none =>
      cases op with
      | new => exact ⟨rfl, rfl⟩
      | write idx' sector =>
        by_cases heq : idx' = idx
        · simp [StoreOp.apply, StoreOp.writes, SectorFiles.writeMetadata, SectorFiles.writeData, heq]
        · have hne : idx ≠ idx' := Ne.symm heq
          simp [StoreOp.apply, StoreOp.writes, SectorFiles.writeMetadata, SectorFiles.writeData,
            heq, hne]

/-- The state after a history of calls: there is one, and what it holds. -/
theorem exists_history (ops : List StoreOp) :
    ∃ m d records, runAll fresh ops = some (m, d) ∧ Indexes m records ∧ Holds d records ∧
      ∀ idx, (view d records).data idx = (lastWrite idx ops).map Prod.fst ∧
        (view d records).metadata idx = (lastWrite idx ops).map Prod.snd := by
  obtain ⟨⟨m, d⟩, records, hrun, hm, hd, hview⟩ := exists_runAll indexes_fresh holds_fresh ops
  refine ⟨m, d, records, hrun, hm, hd, ?_⟩
  intro idx
  obtain ⟨hdata, hmetadata⟩ := foldl_apply (view fresh.2 []) ops idx
  rw [hview, hdata, hmetadata]
  exact ⟨Option.or_none, Option.or_none⟩

/-- **The store is a map.** After any sequence of complete writes, with the manager rebuilt
at any points, a sector reads as it was written last, and as zeros with tag `(0, 0)` if it
never was. No call panics. -/
theorem store_reads_last_write (ops : List StoreOp) :
    ∃ m d, runAll fresh ops = some (m, d) ∧ ∀ idx,
      m.readData d idx = ((lastWrite idx ops).map Prod.fst).getD .new ∧
      m.readMetadata d idx = some (((lastWrite idx ops).map Prod.snd).getD (0, 0)) := by
  obtain ⟨m, d, records, hrun, hm, hd, hview⟩ := exists_history ops
  refine ⟨m, d, hrun, ?_⟩
  intro idx
  obtain ⟨hdata, hmetadata⟩ := hview idx
  rw [readData_eq hm hd, readMetadata_eq hm hd, SectorFiles.readData, SectorFiles.readMetadata,
    hdata, hmetadata]
  cases lastWrite idx ops with
  | none => exact ⟨rfl, rfl⟩
  | some sector => exact ⟨rfl, rfl⟩

end Storage
end AtomicDiscDrive
