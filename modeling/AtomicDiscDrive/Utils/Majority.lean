import Mathlib.Data.Finset.Card
import Mathlib.Tactic

/-!
# Majorities

A property holds of a majority if more than half of a fixed number `N` of members have
it. Any two majorities of the same `N` share a member, which is all a quorum protocol
needs to know about them.
-/

namespace Utils

variable {α : Type} [DecidableEq α]

/-- More than `N / 2` members of `U` satisfy `P`. -/
def Majority (U : Finset α) (N : ℕ) (P : α → Prop) : Prop :=
  ∃ Q ⊆ U, (∀ q ∈ Q, P q) ∧ N < 2 * Q.card

variable {U : Finset α} {N : ℕ} {P P' : α → Prop}

omit [DecidableEq α] in
theorem Majority.mono (h : Majority U N P) (hP : ∀ q ∈ U, P q → P' q) : Majority U N P' := by
  obtain ⟨Q, hQU, hQ, hcard⟩ := h
  exact ⟨Q, hQU, fun q hq => hP q (hQU hq) (hQ q hq), hcard⟩

/-- **Quorum intersection.** Two majorities of at most `N` members have a member in
common. -/
theorem Majority.exists_common (hU : U.card ≤ N) (h : Majority U N P) (h' : Majority U N P') :
    ∃ q ∈ U, P q ∧ P' q := by
  obtain ⟨Q, hQU, hQ, hcard⟩ := h
  obtain ⟨Q', hQU', hQ', hcard'⟩ := h'
  have hlt : U.card < Q.card + Q'.card := by omega
  obtain ⟨q, hq⟩ := Finset.inter_nonempty_of_card_lt_card_add_card hQU hQU' hlt
  rw [Finset.mem_inter] at hq
  exact ⟨q, hQU hq.1, hQ q hq.1, hQ' q hq.2⟩

end Utils
