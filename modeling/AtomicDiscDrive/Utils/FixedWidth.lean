import Mathlib.Tactic

/-!
# Records of fixed width, in files of fixed size

A list of records is written down as the concatenation of their encodings, which all have
the same width. `pack` does that; places of records are multiples of the width, so taking,
dropping and replacing records is taking, dropping and replacing bytes.

`chunk n size` is the part of the list that goes into the `n`-th file, when every file
holds `size` records. Adding or replacing a record changes one chunk.
-/

namespace Utils

variable {α β : Type}

/-! ## Packing -/

/-- The concatenated encodings. -/
def pack (encode : α → List β) (records : List α) : List β := records.flatMap encode

section Pack

variable {encode : α → List β} {w : ℕ} (hw : ∀ a, (encode a).length = w)
include hw

theorem length_pack (records : List α) : (pack encode records).length = records.length * w := by
  induction records with
  | nil => simp [pack]
  | cons a records ih =>
    rw [pack, List.flatMap_cons, List.length_append, hw, ← pack, ih, List.length_cons]
    ring

theorem drop_pack (records : List α) (k : ℕ) :
    (pack encode records).drop (k * w) = pack encode (records.drop k) := by
  induction k generalizing records with
  | zero => simp
  | succ k ih =>
    cases records with
    | nil => simp [pack]
    | cons a records =>
      rw [List.drop_succ_cons, ← ih records, pack, List.flatMap_cons, ← pack,
        show (k + 1) * w = w + k * w by ring, ← List.drop_drop, List.drop_left' (hw a)]

theorem take_pack (records : List α) (k : ℕ) :
    (pack encode records).take (k * w) = pack encode (records.take k) := by
  induction k generalizing records with
  | zero => simp [pack]
  | succ k ih =>
    cases records with
    | nil => simp [pack]
    | cons a records =>
      have htail := ih records
      rw [pack] at htail ⊢
      rw [pack, List.take_succ_cons, List.flatMap_cons, List.flatMap_cons,
        show (k + 1) * w = w + k * w by ring, List.take_append, hw, List.take_of_length_le
        (by rw [hw]; omega), Nat.add_sub_cancel_left, htail, pack]

/-- Replacing a record replaces its bytes. -/
theorem pack_set {records : List α} {k : ℕ} (hk : k < records.length) (a : α) :
    pack encode (records.set k a) =
      (pack encode records).take (k * w) ++ encode a ++ (pack encode records).drop (k * w + w) := by
  have hset : records.set k a = records.take k ++ a :: records.drop (k + 1) :=
    List.set_eq_take_append_cons_drop.trans (if_pos hk)
  rw [take_pack hw, show k * w + w = (k + 1) * w by ring, drop_pack hw, hset]
  simp only [pack, List.flatMap_append, List.flatMap_cons, List.append_assoc]

/-- The bytes of a record. -/
theorem pack_getElem {records : List α} {k : ℕ} {a : α} (ha : records[k]? = some a) :
    ((pack encode records).drop (k * w)).take w = encode a := by
  obtain ⟨hk, rfl⟩ := List.getElem?_eq_some_iff.mp ha
  rw [drop_pack hw, List.drop_eq_getElem_cons hk, pack, List.flatMap_cons,
    List.take_left' (hw _)]

end Pack

theorem pack_concat (encode : α → List β) (records : List α) (a : α) :
    pack encode (records ++ [a]) = pack encode records ++ encode a := by
  simp [pack]

/-! ## Chunks -/

/-- The records of the `n`-th file. -/
def chunk (size n : ℕ) (records : List α) : List α := (records.drop (n * size)).take size

theorem length_chunk (size n : ℕ) (records : List α) :
    (chunk size n records).length = min size (records.length - n * size) := by
  rw [chunk, List.length_take, List.length_drop]

theorem getElem?_chunk {size n j : ℕ} (hj : j < size) (records : List α) :
    (chunk size n records)[j]? = records[n * size + j]? := by
  rw [chunk, List.getElem?_take_of_lt hj, List.getElem?_drop]

/-- The place of a record in its file. -/
theorem getElem?_chunk_div {size : ℕ} (hsize : 0 < size) (k : ℕ) (records : List α) :
    (chunk size (k / size) records)[k % size]? = records[k]? := by
  rw [getElem?_chunk (Nat.mod_lt k hsize), Nat.div_add_mod']

theorem chunk_set_self (records : List α) (k : ℕ) (a : α) :
    chunk size (k / size) (records.set k a) = (chunk size (k / size) records).set (k % size) a := by
  have hle : k / size * size ≤ k := Nat.div_mul_le_self _ _
  have hmod : k - k / size * size = k % size := by
    have hdiv := Nat.div_add_mod' k size
    omega
  rw [chunk, chunk, List.drop_set, if_neg (by omega), hmod, List.take_set]

section Changes

variable {size : ℕ} (hsize : 0 < size)
include hsize

theorem chunk_concat_self (records : List α) (a : α) :
    chunk size (records.length / size) (records ++ [a]) =
      chunk size (records.length / size) records ++ [a] := by
  have hdiv := Nat.div_add_mod' records.length size
  have hmod := Nat.mod_lt records.length hsize
  have hle : records.length / size * size ≤ records.length := Nat.div_mul_le_self _ _
  rw [chunk, chunk, List.drop_append_of_le_length hle, List.take_append,
    List.length_drop, List.take_of_length_le (l := [a])]
  rw [List.length_singleton]
  omega

theorem chunk_concat_of_ne {n : ℕ} (records : List α) (hn : n ≠ records.length / size) (a : α) :
    chunk size n (records ++ [a]) = chunk size n records := by
  rcases Nat.lt_or_gt_of_ne hn with hlt | hgt
  · -- an earlier file, which is full
    have hfull : (n + 1) * size ≤ records.length := by
      calc (n + 1) * size ≤ records.length / size * size := Nat.mul_le_mul_right _ hlt
        _ ≤ records.length := Nat.div_mul_le_self _ _
    rw [Nat.add_mul, Nat.one_mul] at hfull
    rw [chunk, chunk, List.drop_append_of_le_length (by omega),
      List.take_append_of_le_length (by rw [List.length_drop]; omega)]
  · -- a later file, which is empty
    have hlarge : records.length + 1 ≤ n * size := Nat.lt_mul_of_div_lt hgt hsize
    rw [chunk, chunk, List.drop_eq_nil_of_le, List.drop_eq_nil_of_le (by omega)]
    rw [List.length_append, List.length_singleton]
    exact hlarge

theorem chunk_set_of_ne {n : ℕ} (records : List α) {k : ℕ} (hn : n ≠ k / size) (a : α) :
    chunk size n (records.set k a) = chunk size n records := by
  have hdiv := Nat.div_add_mod' k size
  have hmod := Nat.mod_lt k hsize
  rcases Nat.lt_or_gt_of_ne hn with hlt | hgt
  · -- the record is in a later file
    have hle : (n + 1) * size ≤ k :=
      le_trans (Nat.mul_le_mul_right _ hlt) (Nat.div_mul_le_self _ _)
    rw [Nat.add_mul, Nat.one_mul] at hle
    rw [chunk, chunk, List.drop_set, if_neg (by omega), List.take_set_of_le (by omega)]
  · have hlarge : k < n * size := Nat.lt_mul_of_div_lt hgt hsize
    rw [chunk, chunk, List.drop_set, if_pos hlarge]

end Changes

end Utils
