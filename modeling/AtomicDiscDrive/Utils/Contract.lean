import AtomicDiscDrive.Utils.Program

/-!
# Contracts of programs

What a program may do, call by call: `ok` says when a call may be made in a state of the
environment, `after` to which states its answer may lead, and `post` what is left when the
program returns. A program meets a contract if it does so on every path.

The contract of a program is a contract of what is left of it after a call (`Meets.next`),
so it can be carried along while programs are run one call at a time, without knowing how
far they have come.
-/

namespace Utils

/-- What a program relies on and guarantees. -/
structure Contract (S : Signature) (α σ : Type) where
  ok : S.Op → σ → Prop
  after : (op : S.Op) → S.Answer op → σ → σ → Prop
  post : α → σ → Prop

namespace Program

variable {S : Signature} {α σ : Type} (C : Contract S α σ)

/-- The contract is met on every path. -/
def Meets : Program S α → σ → Prop
  | .done a, s => C.post a s
  | .call op next, s => C.ok op s ∧ ∀ x s', C.after op x s s' → (next x).Meets s'

variable {C}

theorem Meets.done {a : α} {s : σ} (h : C.post a s) : (Program.done a : Program S α).Meets C s := h

theorem Meets.call {op : S.Op} {next : S.Answer op → Program S α} {s : σ} (hok : C.ok op s)
    (hnext : ∀ x s', C.after op x s s' → (next x).Meets C s') : (Program.call op next).Meets C s :=
  ⟨hok, hnext⟩

theorem Meets.post {a : α} {s : σ} (h : (Program.done a : Program S α).Meets C s) : C.post a s := h

theorem Meets.ok {op : S.Op} {next : S.Answer op → Program S α} {s : σ}
    (h : (Program.call op next).Meets C s) : C.ok op s := h.1

/-- What is left after a call. -/
theorem Meets.next {op : S.Op} {next : S.Answer op → Program S α} {s s' : σ}
    (h : (Program.call op next).Meets C s) {x : S.Answer op} (hafter : C.after op x s s') :
    (next x).Meets C s' := h.2 x s' hafter

end Program

end Utils
