import Mathlib.Logic.Function.Basic
import Mathlib.Data.List.Basic
import Mathlib.Tactic

/-!
# A file system that loses power

Files have numbers, and names point to them. What a process sees is not what the disc has:
bytes that were written but not synced can be anything after a crash, and of the changes to
the names of a directory that was not synced any part can be lost, also an earlier one
where a later one is kept. Syncing a directory saves all changes to its names.

`P` is the type of names; which directory a name is in matters to `syncDir` only.
-/

namespace Utils

/-- The bytes of a file, and whether the disc has them. -/
structure File where
  content : List UInt8
  synced : Bool

structure FileSystem (P : Type) where
  files : ℕ → File
  /-- files have the numbers below -/
  count : ℕ
  /-- the names the disc has -/
  onDisc : P → Option ℕ
  /-- changes to names that are not synced yet, the oldest first -/
  updates : List (P × Option ℕ)

namespace FileSystem

variable {P : Type} [DecidableEq P]

/-- Changes to names, one after another. -/
def applied (names : P → Option ℕ) (updates : List (P × Option ℕ)) : P → Option ℕ :=
  updates.foldl (fun names u => Function.update names u.1 u.2) names

/-- The names as processes see them. -/
def names (fs : FileSystem P) : P → Option ℕ := applied fs.onDisc fs.updates

/-- An empty disc. -/
def empty : FileSystem P := ⟨fun _ => ⟨[], true⟩, 0, fun _ => none, []⟩

/-- Open a file to write it: an existing one is emptied. The second component is its number. -/
def create (fs : FileSystem P) (p : P) : FileSystem P × ℕ :=
  match fs.names p with
  | some i => ({ fs with files := Function.update fs.files i ⟨[], false⟩ }, i)
  | none =>
    ({ fs with
        files := Function.update fs.files fs.count ⟨[], false⟩
        count := fs.count + 1
        updates := fs.updates ++ [(p, some fs.count)] }, fs.count)

/-- Write at the end of an open file. -/
def write (fs : FileSystem P) (i : ℕ) (bytes : List UInt8) : FileSystem P :=
  { fs with files := Function.update fs.files i ⟨(fs.files i).content ++ bytes, false⟩ }

def syncData (fs : FileSystem P) (i : ℕ) : FileSystem P :=
  { fs with files := Function.update fs.files i { fs.files i with synced := true } }

/-- Give a file another name, which it takes from whatever file had it. -/
def rename (fs : FileSystem P) (p q : P) : Option (FileSystem P) :=
  (fs.names p).map fun i => { fs with updates := fs.updates ++ [(q, some i), (p, none)] }

/-- Sync the directory with the names `inDir`. -/
def syncDir (fs : FileSystem P) (inDir : P → Bool) : FileSystem P :=
  { fs with
    onDisc := applied fs.onDisc (fs.updates.filter fun u => inDir u.1)
    updates := fs.updates.filter fun u => !inDir u.1 }

/-- Lose power: the disc has the changes `kept` to its names, and `garbage` where bytes were
not synced. -/
def crash (fs : FileSystem P) (kept : List (P × Option ℕ)) (garbage : ℕ → List UInt8) :
    FileSystem P :=
  { fs with
    files := fun i => if (fs.files i).synced then fs.files i else ⟨garbage i, true⟩
    onDisc := applied fs.onDisc kept
    updates := [] }

/-! ## Names -/

theorem applied_append (m : P → Option ℕ) (us vs : List (P × Option ℕ)) :
    applied m (us ++ vs) = applied (applied m us) vs := by
  simp [applied]

/-- What one name ends up as: the changes to other names do not matter. -/
theorem applied_apply (m : P → Option ℕ) (us : List (P × Option ℕ)) (q : P) :
    applied m us q = us.foldl (fun x u => if u.1 = q then u.2 else x) (m q) := by
  induction us generalizing m with
  | nil => rfl
  | cons u us ih =>
    have hu : Function.update m u.1 u.2 q = if u.1 = q then u.2 else m q := by
      rw [Function.update_apply]
      simp only [eq_comm]
    calc applied m (u :: us) q
        = applied (Function.update m u.1 u.2) us q := rfl
      _ = us.foldl (fun x u => if u.1 = q then u.2 else x) (if u.1 = q then u.2 else m q) := by
          rw [ih, hu]

/-- A name is as it was, or as one of the changes left it. -/
theorem applied_cases (m : P → Option ℕ) (us : List (P × Option ℕ)) (q : P) :
    applied m us q = m q ∨ (q, applied m us q) ∈ us := by
  induction us using List.reverseRecOn with
  | nil => exact .inl rfl
  | append_singleton us u ih =>
    have hu : applied m (us ++ [u]) q = if u.1 = q then u.2 else applied m us q := by
      simp [applied_apply]
    rw [hu]
    split
    · next hq =>
      subst hq
      exact .inr (by simp)
    · exact ih.imp id (List.mem_append_left _)

/-- Of the changes kept by name, those to one name are all there or all gone. -/
theorem applied_filter (m : P → Option ℕ) (us : List (P × Option ℕ)) (keep : P → Bool) (q : P) :
    applied m (us.filter fun u => keep u.1) q = if keep q then applied m us q else m q := by
  rw [applied_apply, applied_apply]
  generalize m q = x
  induction us generalizing x with
  | nil => simp
  | cons u us ih =>
    by_cases hq : u.1 = q
    · cases hkeep : keep q
      · simpa [List.filter_cons, hq, hkeep] using ih x
      · simpa [List.filter_cons, hq, hkeep] using ih u.2
    · cases hu : keep u.1
      · simpa [List.filter_cons, hq, hu] using ih x
      · simpa [List.filter_cons, hq, hu] using ih x

variable (fs : FileSystem P)

theorem names_append (us : List (P × Option ℕ)) :
    names { fs with updates := fs.updates ++ us } = applied fs.names us :=
  applied_append fs.onDisc fs.updates us

@[simp] theorem names_write (i : ℕ) (bytes : List UInt8) : (fs.write i bytes).names = fs.names := rfl

@[simp] theorem names_syncData (i : ℕ) : (fs.syncData i).names = fs.names := rfl

/-- Syncing a directory changes nothing that can be seen. -/
@[simp] theorem names_syncDir (inDir : P → Bool) : (fs.syncDir inDir).names = fs.names := by
  funext q
  have hrest := applied_filter (applied fs.onDisc (fs.updates.filter fun u => inDir u.1)) fs.updates
    (fun p => !inDir p) q
  have hdisc := applied_filter fs.onDisc fs.updates inDir q
  simp only [names, syncDir]
  cases h : inDir q
  · simp only [h, Bool.not_false, if_true, Bool.false_eq_true, if_false] at hrest hdisc
    rw [hrest, applied_apply, hdisc, ← applied_apply]
  · simp only [h, Bool.not_true, Bool.false_eq_true, if_false, if_true] at hrest hdisc
    rw [hrest, hdisc]

/-- The disc has the names of a directory that was synced. -/
theorem onDisc_syncDir (inDir : P → Bool) (q : P) :
    (fs.syncDir inDir).onDisc q = if inDir q then fs.names q else fs.onDisc q :=
  applied_filter fs.onDisc fs.updates inDir q

end FileSystem
end Utils
