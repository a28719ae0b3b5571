import AtomicDiscDrive.Storage.Crash
import AtomicDiscDrive.Utils.Runs

/-!
# The sector store under errors

Calls of `SectorsManager::write` whose file operations fail in any way, and rebuilt
managers, in any order. Errors are swallowed: `write` returns unit, and a file that cannot
be read is taken to be absent.

After enough of them the metadata files need no longer be densely packed: a failed read
shortens a file to the record that is written, and a record may be on disc that the
manager does not know. What is left is `Laid`, whole records in the files `0`, …,
`count - 1`, and `Tracks`: a record that is on disc is where the manager would write it. So
no sector has two records, and `new` finds each of them (`exists_scanned`).
-/

namespace AtomicDiscDrive
namespace Storage

open Utils

/-! ## The two halves of `write` -/

/-- The disc after the first half of `write`. -/
def Disc.writeData (disc : Disc) (stop : Option Stop) (idx : SectorIdx) (data : SectorVec) : Disc :=
  if replaces stop then { disc with data := Function.update disc.data idx (some data.bytes) }
  else disc

@[simp] theorem Disc.metadata_writeData (disc : Disc) (stop : Option Stop) (idx : SectorIdx)
    (data : SectorVec) : (disc.writeData stop idx data).metadata = disc.metadata := by
  rw [writeData]
  split <;> rfl

namespace Manager

variable (self : Manager)

/-- The end of a successful `write`: a sector without a record now has one. -/
def enroll (idx : SectorIdx) : Manager :=
  match self.metadataInfoMap idx with
  | some _ => self
  | none =>
    { self.enter idx (self.place idx) with
      metadataTotalSize := self.metadataTotalSize + metadataSize }

/-- The second half of `write`. -/
def writeMetadata (disc : Disc) (readFails : Bool) (stop : Option Stop) (record : Record) :
    Option (Manager × Disc) :=
  let val := if readFails then [] else (disc.metadata.lookup (self.place record.sector).1).getD []
  (updateFile val (self.place record.sector).2 record.encode).map fun val =>
    (if stop.isSome then self else self.enroll record.sector,
      if replaces stop then
        { disc with metadata := disc.metadata.insert (self.place record.sector).1 val }
      else disc)

/-- `write` is one half after the other, if the first one returns `Ok`. -/
theorem write_eq (disc : Disc) (faults : Faults) (idx : SectorIdx)
    (sector : SectorVec × UInt64 × UInt8) :
    self.write disc faults idx sector =
      if faults.dataWrite.isSome then
        some (self, disc.writeData faults.dataWrite idx sector.1)
      else
        self.writeMetadata (disc.writeData faults.dataWrite idx sector.1) faults.metadataRead
          faults.metadataWrite ⟨idx, sector.2.1, sector.2.2⟩ := by
  rw [write, ← Disc.writeData]
  by_cases hdata : faults.dataWrite.isSome = true
  · rw [if_pos hdata, if_pos hdata]
  · rw [if_neg hdata, if_neg hdata]
    set val := if faults.metadataRead = true then []
      else ((disc.writeData faults.dataWrite idx sector.1).metadata.lookup (self.place idx).1).getD []
      with hval
    simp only [writeMetadata, enroll, ← hval]
    cases updateFile val (self.place idx).2 (Record.encode ⟨idx, sector.2.1, sector.2.2⟩) with
    | none => rfl
    | some val =>
      rw [Option.map_some]
      cases faults.metadataWrite with
      | some stop => rfl
      | none => cases self.metadataInfoMap idx <;> rfl

end Manager

/-! ## Runs -/

/-- What is done with a store: calls of `write`, and `new` on the same directory. -/
inductive StoreAction where
  | write (idx : SectorIdx) (sector : SectorVec × UInt64 × UInt8) (faults : Faults)
  | new

/-- The store after a call of `write`. A call that panics has replaced the data file and
nothing else; the manager lives on. -/
def attempt (state : Manager × Disc) (idx : SectorIdx) (sector : SectorVec × UInt64 × UInt8)
    (faults : Faults) : Manager × Disc :=
  (state.1.write state.2 faults idx sector).getD
    (state.1, state.2.writeData faults.dataWrite idx sector.1)

/-- One call. -/
def StoreAction.step (state : Manager × Disc) : StoreAction → Option (Manager × Disc)
  | .write idx sector faults => some (attempt state idx sector faults)
  | .new => (Manager.new state.2).map fun manager => (manager, state.2)

/-! ## Files of records -/

/-- A list with `a` at place `i`, which is an old place or the next one. -/
def putAt {α : Type} (l : List α) (i : ℕ) (a : α) : List α := l.take i ++ a :: l.drop (i + 1)

theorem getElem?_putAt {α : Type} {l : List α} {i : ℕ} (hi : i ≤ l.length) (a : α) (j : ℕ) :
    (putAt l i a)[j]? = if j = i then some a else l[j]? := by
  have hlength : (l.take i).length = i := by
    rw [List.length_take]
    omega
  rw [putAt]
  rcases Nat.lt_trichotomy j i with hlt | rfl | hgt
  · rw [List.getElem?_append_left (by omega), List.getElem?_take_of_lt hlt, if_neg (by omega)]
  · rw [List.getElem?_append_right (by omega), hlength, Nat.sub_self, List.getElem?_cons_zero,
      if_pos rfl]
  · rw [List.getElem?_append_right (by omega), hlength, if_neg (by omega)]
    obtain ⟨k, rfl⟩ : ∃ k, j = i + 1 + k := ⟨j - (i + 1), by omega⟩
    rw [show i + 1 + k - i = k + 1 by omega, List.getElem?_cons_succ, List.getElem?_drop]

theorem length_putAt {α : Type} {l : List α} {i : ℕ} (hi : i ≤ l.length) (a : α) :
    (putAt l i a).length = max l.length (i + 1) := by
  rw [putAt, List.length_append, List.length_take, List.length_cons, List.length_drop]
  omega

/-- `updateFile` on whole records: the place must not be beyond the end of the file. -/
theorem updateFile_pack (records : List Record) (i : ℕ) (r : Record) :
    Manager.updateFile (pack Record.encode records) (i * metadataSize) r.encode =
      if i ≤ records.length then some (pack Record.encode (putAt records i r)) else none := by
  have hsize : 0 < metadataSize := by decide
  have hlength := length_pack Record.length_encode records
  rw [Manager.updateFile, hlength]
  rcases Nat.lt_trichotomy i records.length with hlt | rfl | hgt
  · have hne : i * metadataSize ≠ records.length * metadataSize := by
      intro heq
      have := Nat.eq_of_mul_eq_mul_right hsize heq
      omega
    have hle : i * metadataSize + metadataSize ≤ records.length * metadataSize := by
      rw [← Nat.succ_mul]
      exact Nat.mul_le_mul_right _ hlt
    have hset : putAt records i r = records.set i r :=
      (List.set_eq_take_append_cons_drop.trans (if_pos hlt)).symm
    rw [if_neg hne, if_pos hle, if_pos hlt.le, hset, pack_set Record.length_encode hlt]
  · rw [if_pos rfl, if_pos le_rfl, putAt, List.take_length, List.drop_eq_nil_of_le (by omega),
      pack_concat]
  · have hne : i * metadataSize ≠ records.length * metadataSize := by
      intro heq
      have := Nat.eq_of_mul_eq_mul_right hsize heq
      omega
    have hlarge : ¬ i * metadataSize + metadataSize ≤ records.length * metadataSize := by
      have := Nat.mul_lt_mul_of_pos_right hgt hsize
      omega
    rw [if_neg hne, if_neg hlarge, if_neg (by omega)]

/-! ## The invariant -/

/-- The metadata files: `count` of them, and what they hold. -/
structure Laid (d : Disc) (count : ℕ) (files : ℕ → List Record) : Prop where
  lookup : ∀ n, d.metadata.lookup n =
    if n < count then some (pack Record.encode (files n)) else none
  fit : ∀ n, (files n).length ≤ metadatasPerFile
  beyond : ∀ n, count ≤ n → files n = []

/-- The manager goes to where the records are. -/
structure Tracks (m : Manager) (count : ℕ) (files : ℕ → List Record) : Prop where
  known : ∀ n i r, (files n)[i]? = some r → m.place r.sector = (n, i * metadataSize)
  info : ∀ idx place, m.metadataInfoMap idx = some place →
    place.1 < count ∧ ∃ i < metadatasPerFile, place.2 = i * metadataSize
  total : ∃ t ≤ count * metadatasPerFile, m.metadataTotalSize = t * metadataSize

/-- What a `write` finds in the file it will replace. -/
def found (files : ℕ → List Record) (readFails : Bool) (n : ℕ) : List Record :=
  if readFails then [] else files n

theorem Laid.getD_lookup {d : Disc} {count : ℕ} {files : ℕ → List Record} (hd : Laid d count files)
    (n : ℕ) : (d.metadata.lookup n).getD [] = pack Record.encode (files n) := by
  rw [hd.lookup]
  by_cases hn : n < count
  · rw [if_pos hn]
    rfl
  · rw [if_neg hn, hd.beyond n (by omega)]
    rfl

/-- The place of a sector: in a file that is there, or at the start of the next one. -/
theorem Tracks.place {m : Manager} {count : ℕ} {files : ℕ → List Record}
    (hm : Tracks m count files) (idx : SectorIdx) :
    ∃ n i, m.place idx = (n, i * metadataSize) ∧ i < metadatasPerFile ∧
      (n < count ∨ n = count ∧ i = 0) := by
  have hpos := metadatasPerFile_pos
  cases hinfo : m.metadataInfoMap idx with
  | some place =>
    obtain ⟨hlt, i, hi, heq⟩ := hm.info idx place hinfo
    refine ⟨place.1, i, ?_, hi, Or.inl hlt⟩
    rw [Manager.place, hinfo, ← heq]
  | none =>
    obtain ⟨t, ht, htotal⟩ := hm.total
    refine ⟨t / metadatasPerFile, t % metadatasPerFile, ?_, Nat.mod_lt t hpos, ?_⟩
    · rw [Manager.place, hinfo, htotal, metadatasFileSize,
        Nat.mul_div_mul_right _ _ (by decide : 0 < metadataSize), Nat.mul_mod_mul_right]
    · have hdiv := Nat.div_add_mod' t metadatasPerFile
      have hle : t / metadatasPerFile ≤ count := Nat.div_le_of_le_mul (by rw [Nat.mul_comm]; exact ht)
      rcases Nat.lt_or_eq_of_le hle with hlt | heq
      · exact Or.inl hlt
      · rw [heq] at hdiv
        exact Or.inr ⟨heq, by omega⟩

/-! ## A step of the metadata files -/

theorem Manager.place_enroll_self (m : Manager) (idx : SectorIdx) :
    (m.enroll idx).place idx = m.place idx := by
  cases hinfo : m.metadataInfoMap idx with
  | some place => simp only [enroll, hinfo]
  | none => simp only [enroll, hinfo, Manager.place, enter, Function.update_self]

/-- Sectors with places of their own keep them. -/
theorem Manager.place_enroll_of_ne (m : Manager) {idx j : SectorIdx}
    (h : m.place j ≠ m.place idx) : (m.enroll idx).place j = m.place j := by
  cases hinfo : m.metadataInfoMap idx with
  | some place => simp only [enroll, hinfo]
  | none =>
    have hne : j ≠ idx := fun heq => h (by rw [heq])
    cases hj : m.metadataInfoMap j with
    | some place => simp only [enroll, hinfo, Manager.place, enter, Function.update_of_ne hne, hj]
    | none =>
      -- two sectors without a record have the same place
      apply absurd _ h
      simp only [Manager.place, hinfo, hj]

/-- What the index says after a successful write. -/
theorem Manager.info_enroll {m : Manager} {idx j : SectorIdx} {place : ℕ × ℕ}
    (h : (m.enroll idx).metadataInfoMap j = some place) :
    m.metadataInfoMap j = some place ∨ place = m.place idx := by
  cases hinfo : m.metadataInfoMap idx with
  | some _ =>
    simp only [enroll, hinfo] at h
    exact Or.inl h
  | none =>
    simp only [enroll, hinfo, enter] at h
    by_cases hj : j = idx
    · rw [hj, Function.update_self, Option.some.injEq] at h
      exact Or.inr h.symm
    · rw [Function.update_of_ne hj] at h
      exact Or.inl h

section Step

variable {m : Manager} {d : Disc} {count : ℕ} {files : ℕ → List Record}

/-- The second half of `write` panics exactly if the place is beyond the end of the file
that was found. -/
theorem writeMetadata_eq (hd : Laid d count files) {r : Record} {n i : ℕ}
    (hplace : m.place r.sector = (n, i * metadataSize)) (readFails : Bool) (stop : Option Stop) :
    m.writeMetadata d readFails stop r =
      if i ≤ (found files readFails n).length then
        some (if stop.isSome then m else m.enroll r.sector,
          if replaces stop then
            { d with metadata :=
                d.metadata.insert n (pack Record.encode (putAt (found files readFails n) i r)) }
          else d)
      else none := by
  have hval : (if readFails then [] else (d.metadata.lookup (m.place r.sector).1).getD []) =
      pack Record.encode (found files readFails n) := by
    cases readFails with
    | true => rfl
    | false =>
      rw [if_neg (by decide), hd.getD_lookup, hplace]
      rfl
  simp only [Manager.writeMetadata, hval, hplace, updateFile_pack]
  by_cases hi : i ≤ (found files readFails n).length
  · rw [if_pos hi, if_pos hi]
    rfl
  · rw [if_neg hi, if_neg hi]
    rfl

theorem length_found_le (hd : Laid d count files) (readFails : Bool) (n : ℕ) :
    (found files readFails n).length ≤ metadatasPerFile := by
  cases readFails with
  | true => exact Nat.zero_le _
  | false => exact hd.fit n

/-- A metadata file is replaced, or the next one is added. -/
theorem Laid.replace (hd : Laid d count files) {n : ℕ} (hn : n ≤ count) {records : List Record}
    (hfit : records.length ≤ metadatasPerFile) :
    Laid { d with metadata := d.metadata.insert n (pack Record.encode records) }
      (max count (n + 1)) (Function.update files n records) := by
  constructor
  · intro n'
    by_cases heq : n' = n
    · rw [heq, AList.lookup_insert, if_pos (by omega), Function.update_self]
    · rw [AList.lookup_insert_ne heq, hd.lookup, Function.update_of_ne heq]
      congr 1
      rw [eq_iff_iff]
      omega
  · intro n'
    by_cases heq : n' = n
    · rw [heq, Function.update_self]
      exact hfit
    · rw [Function.update_of_ne heq]
      exact hd.fit n'
  · intro n' hn'
    rw [Function.update_of_ne (by omega)]
    exact hd.beyond n' (by omega)

/-- The records after a step: the new one, and old ones at other places. -/
theorem getElem?_update_putAt {readFails : Bool} {n i : ℕ}
    (hi : i ≤ (found files readFails n).length) {r r' : Record} {n' i' : ℕ}
    (h : (Function.update files n (putAt (found files readFails n) i r) n')[i']? = some r') :
    n' = n ∧ i' = i ∧ r' = r ∨ (n', i') ≠ (n, i) ∧ (files n')[i']? = some r' := by
  by_cases hn : n' = n
  · subst hn
    rw [Function.update_self, getElem?_putAt hi] at h
    by_cases heq : i' = i
    · rw [if_pos heq, Option.some.injEq] at h
      exact Or.inl ⟨rfl, heq, h.symm⟩
    · rw [if_neg heq] at h
      refine Or.inr ⟨fun hpair => heq (Prod.ext_iff.mp hpair).2, ?_⟩
      cases readFails with
      | true => cases h
      | false => exact h
  · rw [Function.update_of_ne hn] at h
    exact Or.inr ⟨fun hpair => hn (Prod.ext_iff.mp hpair).1, h⟩

theorem place_injective {n i n' i' : ℕ} (h : (n, i * metadataSize) = (n', i' * metadataSize)) :
    (n, i) = (n', i') := by
  rw [Prod.mk.injEq] at h ⊢
  exact ⟨h.1, Nat.eq_of_mul_eq_mul_right (by decide : 0 < metadataSize) h.2⟩

/-- The manager after a step. Whether it takes note of the record makes no difference to
where it goes. -/
theorem Tracks.replace (hm : Tracks m count files) {r : Record} {n i : ℕ}
    (hplace : m.place r.sector = (n, i * metadataSize)) (hi : i < metadatasPerFile)
    (hn : n < count ∨ n = count ∧ i = 0) {readFails : Bool}
    (hfound : i ≤ (found files readFails n).length) (noted : Bool) :
    Tracks (if noted then m.enroll r.sector else m) (max count (n + 1))
      (Function.update files n (putAt (found files readFails n) i r)) := by
  have hself : (if noted then m.enroll r.sector else m).place r.sector = m.place r.sector := by
    cases noted with
    | true => exact m.place_enroll_self _
    | false => rfl
  have hother : ∀ j, m.place j ≠ m.place r.sector →
      (if noted then m.enroll r.sector else m).place j = m.place j := by
    intro j hj
    cases noted with
    | true => exact m.place_enroll_of_ne hj
    | false => rfl
  have hinfo : ∀ j place, (if noted then m.enroll r.sector else m).metadataInfoMap j = some place →
      m.metadataInfoMap j = some place ∨ place = m.place r.sector := by
    intro j place h
    cases noted with
    | true => exact Manager.info_enroll h
    | false => exact Or.inl h
  constructor
  · intro n' i' r' h
    rcases getElem?_update_putAt hfound h with ⟨rfl, rfl, rfl⟩ | ⟨hne, hold⟩
    · rw [hself, hplace]
    · have hold := hm.known n' i' r' hold
      rw [hother _ (by rw [hold, hplace]; exact fun heq => hne (place_injective heq)), hold]
  · intro j place h
    rcases hinfo j place h with hold | rfl
    · obtain ⟨hlt, hi⟩ := hm.info j place hold
      exact ⟨by omega, hi⟩
    · rw [hplace]
      exact ⟨by show n < _; omega, i, hi, rfl⟩
  · obtain ⟨t, ht, htotal⟩ := hm.total
    have hmul : (max count (n + 1)) * metadatasPerFile ≥ count * metadatasPerFile :=
      Nat.mul_le_mul_right _ (by omega)
    cases noted with
    | false => exact ⟨t, by omega, htotal⟩
    | true =>
      cases hnone : m.metadataInfoMap r.sector with
      -- the sector has a place already, and the total stays
      | some place =>
        refine ⟨t, by omega, ?_⟩
        rw [if_pos rfl, Manager.enroll, hnone]
        exact htotal
      | none =>
        refine ⟨t + 1, ?_, ?_⟩
        · -- the place is that of record `t`, which has room in the files
          have hpos := metadatasPerFile_pos
          rw [Manager.place, hnone, htotal, metadatasFileSize,
            Nat.mul_div_mul_right _ _ (by decide : 0 < metadataSize), Nat.mul_mod_mul_right] at hplace
          have hdiv : t / metadatasPerFile = n := (Prod.ext_iff.mp hplace).1
          have hlt : t < (n + 1) * metadatasPerFile := Nat.lt_mul_of_div_lt (by omega) hpos
          have hle : (n + 1) * metadatasPerFile ≤ max count (n + 1) * metadatasPerFile :=
            Nat.mul_le_mul_right _ (by omega)
          omega
        · rw [if_pos rfl, Manager.enroll, hnone, Nat.add_mul, Nat.one_mul, ← htotal]

end Step

/-! ## The recovery scan -/

/-- No sector has two records. -/
def Unique (files : ℕ → List Record) : Prop :=
  ∀ (n i n' i' : ℕ) (r r' : Record), (files n)[i]? = some r → (files n')[i']? = some r' →
    r.sector = r'.sector → (n, i) = (n', i')

theorem Tracks.unique {m : Manager} {count : ℕ} {files : ℕ → List Record}
    (hm : Tracks m count files) : Unique files := by
  intro n i n' i' r r' h h' hsector
  apply place_injective
  rw [← hm.known n i r h, ← hm.known n' i' r' h', hsector]

/-- The places `new` has been at when it has come to record `j` of file `n`. -/
def Before (n j n' i : ℕ) : Prop := n' < n ∨ n' = n ∧ i < j

/-- The index after these places. -/
structure Seen (files : ℕ → List Record) (n j : ℕ) (info : SectorIdx → Option (ℕ × ℕ)) : Prop where
  present : ∀ n' i (r : Record), Before n j n' i → (files n')[i]? = some r →
    info r.sector = some (n', i * metadataSize)
  absent : ∀ idx, (∀ n' i (r : Record), Before n j n' i → (files n')[i]? = some r → r.sector ≠ idx) →
    info idx = none

/-- The index of a rebuilt manager. -/
structure Scanned (m : Manager) (count : ℕ) (files : ℕ → List Record) : Prop where
  present : ∀ n i (r : Record), (files n)[i]? = some r →
    m.metadataInfoMap r.sector = some (n, i * metadataSize)
  absent : ∀ idx, (∀ (n i : ℕ) (r : Record), (files n)[i]? = some r → r.sector ≠ idx) →
    m.metadataInfoMap idx = none
  total : ∃ t ≤ count * metadatasPerFile, m.metadataTotalSize = t * metadataSize

section Scan

variable {files : ℕ → List Record}

/-- One more record. -/
theorem Seen.enter (huniq : Unique files) {n j : ℕ} {info : SectorIdx → Option (ℕ × ℕ)}
    (h : Seen files n j info) {r : Record} (hr : (files n)[j]? = some r) :
    Seen files n (j + 1) (Function.update info r.sector (some (n, j * metadataSize))) := by
  constructor
  · intro n' i r' hbefore hr'
    by_cases hsector : r'.sector = r.sector
    · have hpair := huniq _ _ _ _ _ _ hr' hr hsector
      rw [Prod.mk.injEq] at hpair
      rw [hsector, Function.update_self, hpair.1, hpair.2]
    · rw [Function.update_of_ne hsector]
      apply h.present n' i r' _ hr'
      rcases hbefore with hlt | ⟨rfl, hlt⟩
      · exact Or.inl hlt
      · have hne : i ≠ j := by
          rintro rfl
          rw [hr, Option.some.injEq] at hr'
          exact hsector (by rw [hr'])
        exact Or.inr ⟨rfl, by omega⟩
  · intro idx hidx
    have hne : idx ≠ r.sector := (hidx n j r (Or.inr ⟨rfl, by omega⟩) hr).symm
    rw [Function.update_of_ne hne]
    apply h.absent
    intro n' i r' hbefore hr'
    refine hidx n' i r' ?_ hr'
    rcases hbefore with hlt | ⟨heq, hlt⟩
    · exact Or.inl hlt
    · exact Or.inr ⟨heq, by omega⟩

/-- The whole file. -/
theorem Seen.next {n : ℕ} {info : SectorIdx → Option (ℕ × ℕ)}
    (h : Seen files n (files n).length info) : Seen files (n + 1) 0 info := by
  constructor
  · intro n' i r hbefore hr
    apply h.present n' i r _ hr
    rcases hbefore with hlt | ⟨_, hlt⟩
    · rcases Nat.lt_or_eq_of_le (Nat.le_of_lt_succ hlt) with hlt | rfl
      · exact Or.inl hlt
      · exact Or.inr ⟨rfl, (List.getElem?_eq_some_iff.mp hr).1⟩
    · omega
  · intro idx hidx
    apply h.absent
    intro n' i r hbefore hr
    refine hidx n' i r (Or.inl ?_) hr
    rcases hbefore with hlt | ⟨rfl, _⟩
    · omega
    · omega

/-- The inner loop of `new`, from record `j` on. -/
theorem indexFile_seen (huniq : Unique files) {n j k : ℕ} (hk : j + k = (files n).length)
    {m : Manager} (h : Seen files n j m.metadataInfoMap) :
    ∃ m', indexFile (pack Record.encode (files n)) n ((List.range' j k).map (· * metadataSize)) m =
        some m' ∧ Seen files n (files n).length m'.metadataInfoMap ∧
      m'.metadataTotalSize = m.metadataTotalSize := by
  induction k generalizing j m with
  | zero =>
    rw [Nat.add_zero] at hk
    exact ⟨m, rfl, hk ▸ h, rfl⟩
  | succ k ih =>
    have hj : j < (files n).length := by omega
    obtain ⟨r, hr⟩ : ∃ r, (files n)[j]? = some r := ⟨(files n)[j], List.getElem?_eq_getElem hj⟩
    obtain ⟨m', hrun, hseen, htotal⟩ := ih (j := j + 1) (by omega)
      (m := m.enter r.sector (n, j * metadataSize)) (h.enter huniq hr)
    refine ⟨m', ?_, hseen, htotal⟩
    rw [List.range'_succ, List.map_cons, indexFile, getMetadataInfo_pack hr]
    exact hrun

variable {d : Disc} {count : ℕ}

/-- All the files. -/
theorem Seen.scanned (hd : Laid d count files) {m : Manager}
    (h : Seen files count 0 m.metadataInfoMap)
    (htotal : ∃ t ≤ count * metadatasPerFile, m.metadataTotalSize = t * metadataSize) :
    Scanned m count files := by
  have hall : ∀ n i r, (files n)[i]? = some r → Before count 0 n i := by
    intro n i r hr
    refine Or.inl ?_
    by_contra hge
    rw [hd.beyond n (by omega)] at hr
    cases hr
  exact ⟨fun n i r hr => h.present n i r (hall n i r hr) hr,
    fun idx hidx => h.absent idx fun n i r _ hr => hidx n i r hr, htotal⟩

/-- The outer loop of `new`, from file `n` on. -/
theorem scan_seen (hd : Laid d count files) (huniq : Unique files) {fuel n : ℕ}
    (hfuel : count ≤ n + fuel) (hn : n ≤ count) {m : Manager} (h : Seen files n 0 m.metadataInfoMap)
    (htotal : ∃ t ≤ n * metadatasPerFile, m.metadataTotalSize = t * metadataSize) :
    ∃ m', scan d.metadata fuel n m = some m' ∧ Scanned m' count files := by
  induction fuel generalizing n m with
  | zero =>
    obtain rfl : n = count := by omega
    exact ⟨m, rfl, h.scanned hd htotal⟩
  | succ fuel ih =>
    rw [scan, hd.lookup n]
    by_cases hlt : n < count
    · rw [if_pos hlt]
      obtain ⟨m', hrun, hseen, htotal'⟩ := indexFile_seen huniq (j := 0) (Nat.zero_add _)
        (m := { m with
          metadataTotalSize := m.metadataTotalSize + (pack Record.encode (files n)).length }) h
      rw [← List.range_eq_range', ← offsets_mul, ← length_pack Record.length_encode] at hrun
      simp only [hrun]
      refine ih (by omega) hlt hseen.next ?_
      obtain ⟨t, ht, htotal⟩ := htotal
      have hfit := hd.fit n
      refine ⟨t + (files n).length, ?_, ?_⟩
      · rw [Nat.succ_mul]
        omega
      · rw [htotal', length_pack Record.length_encode, htotal, Nat.add_mul]
    · obtain rfl : n = count := by omega
      rw [if_neg hlt]
      exact ⟨m, rfl, h.scanned hd htotal⟩

/-- There are as many entries as files. -/
theorem Laid.count_le (hd : Laid d count files) : count ≤ d.metadata.entries.length := by
  have hsubset : List.range count ⊆ d.metadata.keys := by
    intro n hn
    rw [List.mem_range] at hn
    apply AList.lookup_isSome.mp
    rw [hd.lookup n, if_pos hn]
    rfl
  have hcard := (List.nodup_range.subperm hsubset).length_le
  rw [List.length_range, AList.keys, List.keys, List.length_map] at hcard
  exact hcard

/-- **Recovery under errors.** `new` finds every record that is on the disc. -/
theorem exists_scanned (hd : Laid d count files) (huniq : Unique files) :
    ∃ m, Manager.new d = some m ∧ Scanned m count files := by
  have hle := hd.count_le
  apply scan_seen hd huniq (by omega) (Nat.zero_le _)
  · constructor
    · rintro n i r (hlt | ⟨_, hlt⟩)
      · omega
      · omega
    · intro idx _
      rfl
  · exact ⟨0, Nat.zero_le _, (Nat.zero_mul _).symm⟩

theorem Scanned.tracks {m : Manager} (h : Scanned m count files) (hd : Laid d count files) :
    Tracks m count files := by
  constructor
  · intro n i r hr
    rw [Manager.place, h.present n i r hr]
  · intro idx place hplace
    by_contra hnone
    -- an entry of the index belongs to a record
    obtain ⟨n, i, r, hr, rfl⟩ : ∃ (n i : ℕ) (r : Record), (files n)[i]? = some r ∧ r.sector = idx := by
      by_contra habsent
      rw [h.absent idx (fun n i r hr hsector => habsent ⟨n, i, r, hr, hsector⟩)] at hplace
      cases hplace
    rw [h.present n i r hr, Option.some.injEq] at hplace
    have hi : i < (files n).length := (List.getElem?_eq_some_iff.mp hr).1
    have hfit := hd.fit n
    have hn : n < count := by
      by_contra hge
      rw [hd.beyond n (by omega)] at hi
      exact absurd hi (Nat.not_lt_zero i)
    apply hnone
    rw [← hplace]
    exact ⟨hn, i, by omega, rfl⟩
  · exact h.total

end Scan

/-! ## What a rebuilt manager reports -/

/-- The tag of a sector, as reported by a manager rebuilt from the disc. -/
def storedTag (d : Disc) (idx : SectorIdx) : Option (UInt64 × UInt8) :=
  (Manager.new d).bind fun m => m.readMetadata d idx

/-- Data files make no difference. -/
theorem storedTag_congr {d d' : Disc} (h : d'.metadata = d.metadata) (idx : SectorIdx) :
    storedTag d' idx = storedTag d idx := by
  simp only [storedTag, Manager.new, Manager.readMetadata, h]

theorem Scanned.readMetadata_of_getElem? {m : Manager} {d : Disc} {count : ℕ}
    {files : ℕ → List Record} (hm : Scanned m count files) (hd : Laid d count files)
    {n i : ℕ} {r : Record} (hr : (files n)[i]? = some r) :
    m.readMetadata d r.sector = some (r.timestamp, r.writeRank) := by
  have hn : n < count := by
    by_contra hge
    rw [hd.beyond n (by omega)] at hr
    cases hr
  rw [Manager.readMetadata, hm.present n i r hr]
  simp only [hd.lookup, if_pos hn, getMetadataInfo_pack hr, Option.map_some]

theorem Scanned.readMetadata_of_absent {m : Manager} {count : ℕ} {files : ℕ → List Record}
    (hm : Scanned m count files) (d : Disc) {idx : SectorIdx}
    (habsent : ∀ (n i : ℕ) (r : Record), (files n)[i]? = some r → r.sector ≠ idx) :
    m.readMetadata d idx = some (0, 0) := by
  rw [Manager.readMetadata, hm.absent idx habsent]

/-! ## Every run -/

/-- What errors cannot break. -/
def Sound (state : Manager × Disc) : Prop :=
  ∃ count files, Laid state.2 count files ∧ Tracks state.1 count files

theorem Laid.congr {d d' : Disc} {count : ℕ} {files : ℕ → List Record} (hd : Laid d count files)
    (h : d'.metadata = d.metadata) : Laid d' count files := by
  refine ⟨?_, hd.fit, hd.beyond⟩
  rw [h]
  exact hd.lookup

/-- A record that is on disc is reported. -/
theorem storedTag_of_getElem? {m : Manager} {d : Disc} {count : ℕ} {files : ℕ → List Record}
    (hd : Laid d count files) (hm : Tracks m count files) {n i : ℕ} {r : Record}
    (hr : (files n)[i]? = some r) : storedTag d r.sector = some (r.timestamp, r.writeRank) := by
  obtain ⟨m', hnew, hscanned⟩ := exists_scanned hd hm.unique
  rw [storedTag, hnew]
  exact hscanned.readMetadata_of_getElem? hd hr

/-- There is always a report. -/
theorem Sound.exists_storedTag {m : Manager} {d : Disc} (h : Sound (m, d)) (idx : SectorIdx) :
    ∃ tag, storedTag d idx = some tag := by
  obtain ⟨count, files, hd, hm⟩ := h
  by_cases hpresent : ∃ (n i : ℕ) (r : Record), (files n)[i]? = some r ∧ r.sector = idx
  · obtain ⟨n, i, r, hr, rfl⟩ := hpresent
    exact ⟨_, storedTag_of_getElem? hd hm hr⟩
  · obtain ⟨m', hnew, hscanned⟩ := exists_scanned hd hm.unique
    refine ⟨(0, 0), ?_⟩
    rw [storedTag, hnew]
    exact hscanned.readMetadata_of_absent d fun n i r hr hsector => hpresent ⟨n, i, r, hr, hsector⟩

/-- **The metadata step under errors.** It leaves everything as it was, or the new record is
on disc. -/
theorem Sound.writeMetadata {m : Manager} {d : Disc} (h : Sound (m, d)) {readFails : Bool}
    {stop : Option Stop} {r : Record} {state' : Manager × Disc}
    (hstep : m.writeMetadata d readFails stop r = some state') :
    Sound state' ∧
      (replaces stop = true → storedTag state'.2 r.sector = some (r.timestamp, r.writeRank)) ∧
      (replaces stop = false → state'.2 = d) := by
  obtain ⟨count, files, hd, hm⟩ := h
  obtain ⟨n, i, hplace, hi, hn⟩ := hm.place r.sector
  rw [writeMetadata_eq hd hplace] at hstep
  by_cases hfound : i ≤ (found files readFails n).length
  · rw [if_pos hfound, Option.some.injEq] at hstep
    subst hstep
    by_cases hreplaces : replaces stop = true
    · rw [if_pos hreplaces]
      have hfit : (putAt (found files readFails n) i r).length ≤ metadatasPerFile := by
        have := length_found_le hd readFails n
        rw [length_putAt hfound]
        omega
      have hd' := hd.replace (n := n) (by omega) hfit
      have hm' := hm.replace hplace hi hn hfound (!stop.isSome)
      have hr : (Function.update files n (putAt (found files readFails n) i r) n)[i]? = some r := by
        rw [Function.update_self, getElem?_putAt hfound, if_pos rfl]
      have hmanager : (if stop.isSome then m else m.enroll r.sector) =
          if !stop.isSome then m.enroll r.sector else m := by
        cases stop <;> rfl
      rw [hmanager]
      refine ⟨⟨_, _, hd', hm'⟩, fun _ => storedTag_of_getElem? hd' hm' hr, ?_⟩
      rw [hreplaces]
      intro h
      cases h
    · have hsome : stop.isSome = true := by
        cases stop with
        | none => exact absurd rfl hreplaces
        | some stop => rfl
      rw [if_neg hreplaces, if_pos hsome]
      exact ⟨⟨count, files, hd, hm⟩, fun h => absurd h hreplaces, fun _ => rfl⟩
  · rw [if_neg hfound] at hstep
    cases hstep

theorem Sound.congr {m : Manager} {d d' : Disc} (h : Sound (m, d))
    (hmetadata : d'.metadata = d.metadata) : Sound (m, d') := by
  obtain ⟨count, files, hd, hm⟩ := h
  exact ⟨count, files, hd.congr hmetadata, hm⟩

theorem Sound.attempt {state : Manager × Disc} (h : Sound state) (idx : SectorIdx)
    (sector : SectorVec × UInt64 × UInt8) (faults : Faults) :
    Sound (attempt state idx sector faults) := by
  have hdata : Sound (state.1, state.2.writeData faults.dataWrite idx sector.1) :=
    Sound.congr (d := state.2) h (by simp)
  rw [Storage.attempt, Manager.write_eq]
  by_cases hfails : faults.dataWrite.isSome = true
  · rw [if_pos hfails]
    exact hdata
  · rw [if_neg hfails]
    cases hstep : state.1.writeMetadata (state.2.writeData faults.dataWrite idx sector.1)
        faults.metadataRead faults.metadataWrite ⟨idx, sector.2.1, sector.2.2⟩ with
    | none => exact hdata
    | some state' => exact (hdata.writeMetadata hstep).1

theorem Sound.step {state state' : Manager × Disc} (h : Sound state) {action : StoreAction}
    (hstep : StoreAction.step state action = some state') : Sound state' := by
  cases action with
  | write idx sector faults =>
    cases hstep
    exact h.attempt idx sector faults
  | new =>
    obtain ⟨count, files, hd, hm⟩ := h
    obtain ⟨m', hnew, hscanned⟩ := exists_scanned hd hm.unique
    simp only [StoreAction.step, hnew, Option.map_some, Option.some.injEq] at hstep
    subst hstep
    exact ⟨count, files, hd, hscanned.tracks hd⟩

theorem sound_fresh : Sound fresh := by
  refine ⟨0, fun _ => [], ⟨?_, fun _ => Nat.zero_le _, fun _ _ => rfl⟩, ?_, ?_, ?_⟩
  · intro n
    rfl
  · intro n i r h
    cases h
  · intro idx place h
    cases h
  · exact ⟨0, Nat.zero_le _, rfl⟩

/-- The states of all runs. -/
abbrev StoreReachable (allowed : Manager × Disc → StoreAction → Prop) (state : Manager × Disc) : Prop :=
  Reachable StoreAction.step allowed fresh state

/-- **No error breaks the records.** -/
theorem StoreReachable.sound {allowed : Manager × Disc → StoreAction → Prop}
    {state : Manager × Disc} (h : StoreReachable allowed state) : Sound state := by
  apply Reachable.invariant Sound sound_fresh _ h
  intro s action s' _ hs _ hstep
  exact hs.step hstep

end Storage
end AtomicDiscDrive
