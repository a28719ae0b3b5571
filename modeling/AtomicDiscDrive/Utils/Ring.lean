import Mathlib.Tactic

/-!
# A ring of 256 slots

A buffer indexed by a byte. Positions are bytes too, and wrap where the buffer does.
`window buf start n` is the list of the `n` slots from `start` on. A write behind a window of
less than 256 slots appends to it, and moving its start by one takes the first slot off.

What goes through the ring is kept as a list, of which the first entries are done with;
`drop_eq_cons` is about the next one.
-/

namespace Utils

variable {α : Type}

/-- The first entry that is not done with. -/
theorem drop_eq_cons {l rest : List α} {x : α} {n : ℕ} (h : l.drop n = x :: rest) :
    l[n]? = some x ∧ l.drop (n + 1) = rest ∧ n + 1 ≤ l.length := by
  have hget : l[n]? = some x := by
    rw [← List.head?_drop, h, List.head?_cons]
  refine ⟨hget, ?_, (List.getElem?_eq_some_iff.mp hget).1⟩
  rw [← List.tail_drop, h, List.tail_cons]

/-- The `n` slots from `start` on, cyclically. -/
def window (buf : UInt8 → α) (start : UInt8) (n : ℕ) : List α :=
  (List.range n).map fun i => buf (start + UInt8.ofNat i)

@[simp] theorem window_zero (buf : UInt8 → α) (start : UInt8) : window buf start 0 = [] := rfl

@[simp] theorem length_window (buf : UInt8 → α) (start : UInt8) (n : ℕ) :
    (window buf start n).length = n := by
  rw [window, List.length_map, List.length_range]

theorem toNat_ofNat_of_lt {n : ℕ} (h : n < 256) : (UInt8.ofNat n).toNat = n :=
  Nat.mod_eq_of_lt h

/-- The distance from the start of a window to its end. -/
theorem toNat_add_sub_self {start : UInt8} {n : ℕ} (h : n < 256) :
    (start + UInt8.ofNat n - start).toNat = n := by
  rw [UInt8.add_comm, UInt8.add_sub_cancel]
  exact toNat_ofNat_of_lt h

/-- The end of a window that grows by a slot. -/
theorem add_ofNat_succ (start : UInt8) (n : ℕ) :
    start + UInt8.ofNat n + 1 = start + UInt8.ofNat (n + 1) := by
  rw [UInt8.ofNat_add, ← UInt8.add_assoc]
  rfl

theorem window_succ (buf : UInt8 → α) (start : UInt8) (n : ℕ) :
    window buf start (n + 1) = buf start :: window buf (start + 1) n := by
  unfold window
  rw [List.range_succ_eq_map, List.map_cons, List.map_map]
  congr 1
  · exact congrArg buf (UInt8.add_zero start)
  · apply List.map_congr_left
    intro i _
    show buf (start + UInt8.ofNat (i + 1)) = buf (start + 1 + UInt8.ofNat i)
    rw [UInt8.ofNat_add, UInt8.add_comm (UInt8.ofNat i), ← UInt8.add_assoc]
    rfl

/-- A write to the slot behind a window appends to it, as long as it has not come round to the
start. -/
theorem window_update (buf : UInt8 → α) (start : UInt8) {n : ℕ} (h : n < 256) (x : α) :
    window (Function.update buf (start + UInt8.ofNat n) x) start (n + 1) =
      window buf start n ++ [x] := by
  unfold window
  rw [List.range_succ, List.map_append, List.map_singleton, Function.update_self]
  congr 1
  apply List.map_congr_left
  intro i hi
  have hlt : i < n := List.mem_range.mp hi
  apply Function.update_of_ne
  intro heq
  have hsame : (UInt8.ofNat i).toNat = (UInt8.ofNat n).toNat := by
    rw [(UInt8.add_right_inj start).mp heq]
  rw [toNat_ofNat_of_lt h, toNat_ofNat_of_lt (lt_trans hlt h)] at hsame
  omega

end Utils
