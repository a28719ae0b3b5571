import Mathlib.Tactic

/-!
# Effectful programs

An `async` function is modelled by the tree of the calls it makes: `done` returns,
`call op next` performs `op` and goes on with whatever answer the environment gives.
Nothing about the environment is fixed here, so the same tree can be

* run to its end in one go (`Program.run`), or
* interleaved with others, one `call` at a time (`Program.due` and `Program.final` say what
  it has still to do).
-/

namespace Utils

/-- The calls a program may make, and the type of the answer to each. -/
structure Signature where
  Op : Type
  Answer : Op → Type

/-- A program that returns an `α` after finitely many calls on any path. -/
inductive Program (S : Signature) (α : Type) : Type where
  | done (a : α) : Program S α
  | call (op : S.Op) (next : S.Answer op → Program S α) : Program S α

namespace Program

variable {S : Signature} {α β : Type}

/-- Sequencing: `f` goes on where the first program returns. -/
def bind : Program S α → (α → Program S β) → Program S β
  | .done a, f => f a
  | .call op next, f => .call op fun x => (next x).bind f

instance : Monad (Program S) where
  pure := Program.done
  bind := Program.bind

/-- The program that makes one call and returns its answer. -/
def perform (op : S.Op) : Program S (S.Answer op) := .call op .done

@[simp] theorem pure_eq_done (a : α) : (pure a : Program S α) = .done a := rfl

@[simp] theorem done_bind (a : α) (f : α → Program S β) : (Program.done a >>= f) = f a := rfl

@[simp] theorem call_bind (op : S.Op) (next : S.Answer op → Program S α)
    (f : α → Program S β) :
    (Program.call op next >>= f) = .call op fun x => next x >>= f := rfl

@[simp] theorem perform_bind (op : S.Op) (f : S.Answer op → Program S β) :
    (perform op >>= f) = .call op f := rfl

/-! ## Running a program in one go -/

section Run

variable {σ : Type}

/-- Run a program to its end. `none` is a call that never answers. -/
def run (exec : (op : S.Op) → σ → Option (S.Answer op × σ)) : Program S α → σ → Option (α × σ)
  | .done a, s => some (a, s)
  | .call op next, s =>
    match exec op s with
    | none => none
    | some (x, s') => (next x).run exec s'

@[simp] theorem run_done (exec : (op : S.Op) → σ → Option (S.Answer op × σ)) (a : α) (s : σ) :
    (Program.done a : Program S α).run exec s = some (a, s) := rfl

theorem run_call {exec : (op : S.Op) → σ → Option (S.Answer op × σ)} {op : S.Op}
    {next : S.Answer op → Program S α} {s s' : σ} {x : S.Answer op}
    (h : exec op s = some (x, s')) :
    (Program.call op next).run exec s = (next x).run exec s' := by
  rw [run, h]

end Run

end Program

/-! ## The visible calls of a program

Of some calls only the answer matters to the program, of others that they are made. A
program that makes the same visible calls whatever it is answered can be looked at as the
list of these calls and the value it returns (`due`, `final`), while it is running too. -/

namespace Program

variable {S : Signature} {α : Type} (visible : S.Op → Bool)
  (sample : (op : S.Op) → Option (S.Answer op))

/-- The visible calls still to be made. Answers are taken from `sample`; where it has none
the program stops. -/
def due : Program S α → List S.Op
  | .done _ => []
  | .call op next =>
    match sample op with
    | none => []
    | some x => if visible op then op :: (next x).due else (next x).due

/-- The value to be returned. -/
def final : Program S α → Option α
  | .done a => some a
  | .call op next =>
    match sample op with
    | none => none
    | some x => (next x).final

/-- The answers make no difference to `due` and `final`, and visible calls are made before
all others. -/
def Settled : Program S α → Prop
  | .done _ => True
  | .call op next => (sample op).isSome ∧ ∀ x, (next x).Settled ∧
      (Program.call op next).due visible sample =
        (if visible op then [op] else []) ++ (next x).due visible sample ∧
      (Program.call op next).final sample = (next x).final sample ∧
      (visible op = true ∨ (next x).due visible sample = [])

/-- The program makes the visible calls `ops` and returns `a`. -/
structure Forecast (p : Program S α) (ops : List S.Op) (a : α) : Prop where
  settled : p.Settled visible sample
  due : p.due visible sample = ops
  final : p.final sample = some a

variable {visible sample} {ops : List S.Op} {a : α}

theorem Forecast.done (a : α) : Forecast visible sample (.done a : Program S α) [] a :=
  ⟨trivial, rfl, rfl⟩

/-- A call, whose answer makes no difference to what follows. -/
theorem Forecast.call {op : S.Op} {next : S.Answer op → Program S α}
    (hsample : (sample op).isSome) (hfirst : visible op = true ∨ ops = [])
    (h : ∀ x, (next x).Forecast visible sample ops a) :
    (Program.call op next).Forecast visible sample (if visible op then op :: ops else ops) a := by
  obtain ⟨y, hy⟩ := Option.isSome_iff_exists.mp hsample
  have hdue : (Program.call op next).due visible sample =
      if visible op then op :: ops else ops := by
    rw [Program.due, hy]
    simp only [(h y).due]
  have hfinal : (Program.call op next).final sample = some a := by
    rw [Program.final, hy]
    exact (h y).final
  refine ⟨⟨hsample, fun x => ⟨(h x).settled, ?_, ?_, ?_⟩⟩, hdue, hfinal⟩
  · rw [hdue, (h x).due]
    split <;> rfl
  · rw [hfinal, (h x).final]
  · rw [(h x).due]
    exact hfirst

/-- A program that has been forecast makes one of its visible calls, or none. -/
theorem Forecast.next {op : S.Op} {next : S.Answer op → Program S α}
    (h : (Program.call op next).Forecast visible sample ops a) (x : S.Answer op) :
    ∃ ops', ops = (if visible op then [op] else []) ++ ops' ∧
      (next x).Forecast visible sample ops' a := by
  obtain ⟨hsettled, hdue, hfinal, _⟩ := h.settled.2 x
  refine ⟨(next x).due visible sample, h.due.symm.trans hdue, hsettled, rfl, ?_⟩
  rw [← hfinal, h.final]

/-- The visible call that is due first is the next call. -/
theorem Forecast.head {p : Program S α} {op : S.Op}
    (h : p.Forecast visible sample (op :: ops) a) : ∃ next, p = .call op next := by
  cases p with
  | done b =>
    have hdue := h.due
    cases hdue
  | call op' next =>
    obtain ⟨x, -⟩ := Option.isSome_iff_exists.mp h.settled.1
    obtain ⟨_, hdue, _, hfirst⟩ := h.settled.2 x
    rw [h.due] at hdue
    rcases hfirst with hvisible | hnil
    · rw [if_pos hvisible] at hdue
      cases hdue
      exact ⟨next, rfl⟩
    · rw [hnil, List.append_nil] at hdue
      split at hdue
      · cases hdue
        exact ⟨next, rfl⟩
      · cases hdue

end Program

end Utils
