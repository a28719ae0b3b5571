import Mathlib.Tactic

/-!
# Runs of a transition function

A system is a partial step function `step : σ → α → Option σ`; which steps the environment
takes is a predicate `allowed : σ → α → Prop`. `Reachable` collects the states of all its
runs, and `Reachable.induction` is the one rule every invariant goes through.

`exec` plays a given list of actions and stops at the first one that is not enabled or not
allowed, so a run on paper becomes a run of the model (`exists_of_exec`).

A loop of one thread is simpler: its body ends it or goes on. `Leaves` says that the loop
ends, and with what.
-/

namespace Utils

variable {σ α : Type}

/-- The states of the runs that start in `init` and take allowed steps only. -/
inductive Reachable (step : σ → α → Option σ) (allowed : σ → α → Prop) (init : σ) : σ → Prop where
  | init : Reachable step allowed init init
  | step {s s' : σ} {a : α} (hs : Reachable step allowed init s) (ha : allowed s a)
      (h : step s a = some s') : Reachable step allowed init s'

section

variable {step : σ → α → Option σ} {allowed : σ → α → Prop} {init : σ}

/-- **Invariant rule.** What holds initially and is kept by every allowed step holds in
every reachable state. -/
theorem Reachable.invariant (inv : σ → Prop) (h0 : inv init)
    (hstep : ∀ s a s', Reachable step allowed init s → inv s → allowed s a →
      step s a = some s' → inv s')
    {s : σ} (hs : Reachable step allowed init s) : inv s := by
  induction hs with
  | init => exact h0
  | step hs ha h ih => exact hstep _ _ _ hs ih ha h

/-- A run goes on where another one has ended. -/
theorem Reachable.trans {s s' : σ} (hs : Reachable step allowed init s)
    (hs' : Reachable step allowed s s') : Reachable step allowed init s' := by
  induction hs' with
  | init => exact hs
  | step _ ha hstep ih => exact ih.step ha hstep

/-- Runs under a stronger environment assumption are runs under the weaker one. -/
theorem Reachable.mono {allowed' : σ → α → Prop} (h : ∀ s a, allowed s a → allowed' s a)
    {s : σ} (hs : Reachable step allowed init s) : Reachable step allowed' init s := by
  induction hs with
  | init => exact .init
  | step _ ha hstep ih => exact ih.step (h _ _ ha) hstep

/-- **Simulation rule.** If every step of a system can be followed by some steps of another
one, or by none, such that the two stay related, then every run of the first is followed by a
run of the second. -/
theorem Reachable.simulation {τ β : Type} {step' : τ → β → Option τ} {allowed' : τ → β → Prop}
    {init' : τ} (rel : σ → τ → Prop) (h0 : rel init init')
    (hstep : ∀ s a s' t, Reachable step allowed init s → Reachable step' allowed' init' t →
      rel s t → allowed s a → step s a = some s' →
      ∃ t', Reachable step' allowed' t t' ∧ rel s' t')
    {s : σ} (hs : Reachable step allowed init s) :
    ∃ t, Reachable step' allowed' init' t ∧ rel s t := by
  induction hs with
  | init => exact ⟨init', .init, h0⟩
  | step hs ha h ih =>
    obtain ⟨t, ht, hrel⟩ := ih
    obtain ⟨t', ht', hrel'⟩ := hstep _ _ _ t hs ht hrel ha h
    exact ⟨t', ht.trans ht', hrel'⟩

/-- **Visiting rule.** A run that can visit any member of a set, and on each visit reaches
its goal or keeps an account of the members it has seen, reaches its goal or has seen them
all. -/
theorem Reachable.visit_all {ι : Type} [DecidableEq ι] {Q : Finset ι} (goal : σ → Prop)
    (account : Finset ι → σ → Prop)
    (hvisit : ∀ seen s, ∀ q ∈ Q, account seen s → ∃ s', Reachable step allowed s s' ∧
      (goal s' ∨ account (insert q seen) s'))
    {s : σ} (hs : account ∅ s) :
    ∃ s', Reachable step allowed s s' ∧ (goal s' ∨ account Q s') := by
  have hpart : ∀ P ⊆ Q, ∃ s', Reachable step allowed s s' ∧ (goal s' ∨ account P s') := by
    intro P
    induction P using Finset.induction_on with
    | empty => exact fun _ => ⟨s, .init, .inr hs⟩
    | insert q P _ ih =>
      intro hP
      rw [Finset.insert_subset_iff] at hP
      obtain ⟨s₁, hs₁, hgoal | haccount⟩ := ih hP.2
      · exact ⟨s₁, hs₁, .inl hgoal⟩
      · obtain ⟨s₂, hs₂, hor⟩ := hvisit P s₁ q hP.1 haccount
        exact ⟨s₂, hs₁.trans hs₂, hor⟩
  exact hpart Q (Finset.Subset.refl Q)

end

/-- Play a list of actions. -/
def exec (step : σ → α → Option σ) (allowed : σ → α → Prop) [∀ s a, Decidable (allowed s a)] :
    σ → List α → Option σ
  | s, [] => some s
  | s, a :: as =>
    if allowed s a then
      match step s a with
      | none => none
      | some s' => exec step allowed s' as
    else none

theorem reachable_of_exec {step : σ → α → Option σ} {allowed : σ → α → Prop}
    [∀ s a, Decidable (allowed s a)] {init : σ} (as : List α) {s s' : σ}
    (hs : Reachable step allowed init s) (h : exec step allowed s as = some s') :
    Reachable step allowed init s' := by
  induction as generalizing s with
  | nil =>
    rw [exec, Option.some.injEq] at h
    exact h ▸ hs
  | cons a as ih =>
    rw [exec] at h
    split at h
    · rename_i ha
      cases hstep : step s a with
      | none => rw [hstep] at h; simp at h
      | some t =>
        rw [hstep] at h
        exact ih (hs.step ha hstep) h
    · simp at h

/-- A run that can be played leads to a reachable state with whatever can be checked there. -/
theorem exists_of_exec {step : σ → α → Option σ} {allowed : σ → α → Prop}
    [∀ s a, Decidable (allowed s a)] {init : σ} (as : List α) {P : σ → Prop} [DecidablePred P]
    (h : (exec step allowed init as).any (fun s => decide (P s)) = true) :
    ∃ s, Reachable step allowed init s ∧ P s := by
  obtain ⟨s, hexec, hs⟩ := (Option.any_eq_true _ _).mp h
  exact ⟨s, reachable_of_exec as .init hexec, of_decide_eq_true hs⟩

/-! ## Loops -/

section

variable {ρ : Type}

/-- A number of rounds of a loop. A round ends the loop with a result, or goes on. -/
def loop (body : σ → ρ ⊕ σ) : ℕ → σ → Option ρ
  | 0, _ => none
  | rounds + 1, s =>
    match body s with
    | .inl r => some r
    | .inr s' => loop body rounds s'

/-- The loop ends, after some number of rounds, with this result. -/
def Leaves (body : σ → ρ ⊕ σ) (s : σ) (r : ρ) : Prop :=
  ∃ rounds, loop body rounds s = some r

variable {body : σ → ρ ⊕ σ} {s s' : σ} {r r' : ρ}

theorem Leaves.last (h : body s = .inl r) : Leaves body s r := by
  refine ⟨1, ?_⟩
  rw [loop, h]

theorem Leaves.round (h : body s = .inr s') (hs' : Leaves body s' r) : Leaves body s r := by
  obtain ⟨rounds, hrounds⟩ := hs'
  refine ⟨rounds + 1, ?_⟩
  rw [loop, h]
  exact hrounds

/-- A loop that goes on from every state with a property, to another one with it, does not
end. -/
theorem not_leaves_of_invariant (inv : σ → Prop)
    (hround : ∀ s, inv s → ∃ s', body s = .inr s' ∧ inv s') (hs : inv s) (r : ρ) :
    ¬ Leaves body s r := by
  rintro ⟨rounds, hr⟩
  induction rounds generalizing s with
  | zero => cases hr
  | succ rounds ih =>
    obtain ⟨s', hbody, hs'⟩ := hround s hs
    rw [loop, hbody] at hr
    exact ih hs' hr

/-- A loop ends in one way. -/
theorem Leaves.unique (h : Leaves body s r) (h' : Leaves body s r') : r = r' := by
  obtain ⟨rounds, hr⟩ := h
  obtain ⟨rounds', hr'⟩ := h'
  induction rounds generalizing s rounds' with
  | zero => cases hr
  | succ rounds ih =>
    cases rounds' with
    | zero => cases hr'
    | succ rounds' =>
      rw [loop] at hr hr'
      cases hbody : body s with
      | inl r₀ =>
        rw [hbody] at hr hr'
        exact Option.some.inj (hr.symm.trans hr')
      | inr s₀ =>
        rw [hbody] at hr hr'
        exact ih hr rounds' hr'

end

end Utils
