import AtomicDiscDrive.Executor.Recovery

/-!
# Processes that send each other messages

`N` processes, each with its registers and its executor. A message arrives at a process only
if some process has sent it. A broadcast arrives anywhere. So does a reply: what could not be
sent to a process is kept without its name, and is replayed to whichever process is connected
to next; only a reply of a process to itself stays where it is. Messages may be delayed,
reordered, repeated and lost.

Request identifiers are chosen by the clients. `msg_id_handler_sector_idx` routes replies by
them, and a register tells its own replies by its `read_ident` alone. With one identifier for
two commands a reply to one register reaches another, which may be at the same `read_ident`:
another register of the process (`value_for_other_sector`), or one of another process
(`value_for_other_process`).
-/

namespace AtomicDiscDrive
namespace Executor

open Utils

/-- The processes, by their ranks. -/
abbrev Cluster := UInt8 → Process

namespace Cluster

/-- The ranks of `N` processes. -/
def ranks (N : ℕ) : List UInt8 := (List.range N).map fun n => UInt8.ofNat (n + 1)

/-- Some process has sent the message to process `p`: as the broadcast `origin`, or in answer
to it. -/
def Sent (N : ℕ) (c : Cluster) (p : UInt8) (cmd : SystemRegisterCommand) (origin : Origin) : Prop :=
  (∃ out ∈ (c origin.process).bank.outbox[origin.index]?, out.target = none ∧ out.cmd = cmd) ∨
    ∃ q ∈ ranks N, ∃ out ∈ (c q).bank.outbox,
      out.target = some p.toNat ∧ out.answers = some origin ∧ out.cmd = cmd

instance (N : ℕ) (c : Cluster) (p : UInt8) (cmd : SystemRegisterCommand) (origin : Origin) :
    Decidable (c.Sent N p cmd origin) := instDecidableOr

/-- Some process has sent the reply to a process other than itself, and may have replayed it to
any. -/
def Replayed (N : ℕ) (c : Cluster) (cmd : SystemRegisterCommand) (origin : Origin) : Prop :=
  ∃ q ∈ ranks N, ∃ out ∈ (c q).bank.outbox,
    out.target ≠ none ∧ out.target ≠ some q.toNat ∧ out.answers = some origin ∧ out.cmd = cmd

instance (N : ℕ) (c : Cluster) (cmd : SystemRegisterCommand) (origin : Origin) :
    Decidable (c.Replayed N cmd origin) :=
  inferInstanceAs (Decidable (∃ q ∈ ranks N, _))

/-- A process may take the step, as far as the others are concerned. -/
def Enabled (N : ℕ) (c : Cluster) (p : UInt8) : Action → Prop
  | .arrive cmd origin => c.Sent N p cmd origin ∨ c.Replayed N cmd origin
  | _ => True

instance (N : ℕ) (c : Cluster) (p : UInt8) (a : Action) : Decidable (c.Enabled N p a) :=
  match a with
  | .arrive cmd origin =>
    inferInstanceAs (Decidable (c.Sent N p cmd origin ∨ c.Replayed N cmd origin))
  | .submit _ | .reject _ | .dispatch | .client _ | .system _ | .announce _ | .receive _ _ | .call _
  | .finish _ _ | .crash | .restart => inferInstanceAs (Decidable True)

/-- One step of one of `N` processes with `R` registers each. -/
def step (N R : ℕ) (c : Cluster) (x : UInt8 × Action) : Option Cluster :=
  if x.1 ∈ ranks N ∧ c.Enabled N x.1 x.2 then
    ((c x.1).step N R x.1 x.2).map (Function.update c x.1)
  else none

/-- All processes start on empty storage. -/
def init (N : ℕ) : Cluster := fun p => .init N p

/-- Replies arrive only at the process they were sent to. -/
def Addressed (N : ℕ) (c : Cluster) (x : UInt8 × Action) : Prop :=
  match x.2 with
  | .arrive cmd origin => c.Sent N x.1 cmd origin
  | _ => True

instance (N : ℕ) (c : Cluster) (x : UInt8 × Action) : Decidable (c.Addressed N x) :=
  match x with
  | (p, .arrive cmd origin) => inferInstanceAs (Decidable (c.Sent N p cmd origin))
  | (_, .submit _) | (_, .reject _) | (_, .dispatch) | (_, .client _) | (_, .system _)
  | (_, .announce _) | (_, .receive _ _) | (_, .call _) | (_, .finish _ _) | (_, .crash)
  | (_, .restart) => inferInstanceAs (Decidable True)

end Cluster

/-! ## A reply that reaches another register -/

/-- Sectors 0 and 1 are read under one request identifier, by registers 0 and 1. The read of
sector 1 is handed over second, so replies are routed to register 1. The `ReadProc` for
sector 0 is answered. -/
def sharedIdent : List Action :=
  let header : SystemCommandHeader := ⟨1, .fromRequest 7, 1, 0⟩
  [.announce 0, .announce 1, .submit ⟨⟨7, 0⟩, .read⟩] ++ handOver 0 ++
  [.submit ⟨⟨7, 1⟩, .read⟩] ++ handOver 1 ++ handleNext 0 2 ++ handleNext 1 2 ++
  hear 0 ⟨header, .readProc⟩ ⟨1, 0⟩ ++ handleNext 0 3 ++
  hear 1 ⟨header, .value 0 0 .new⟩ ⟨1, 0⟩ ++ handleNext 1 0

set_option maxRecDepth 100000 in
/-- Both registers are at `read_ident` 1. Register 1 is reading sector 1, and the entry in its
`readlist` was sent in answer to the `ReadProc` of register 0, for sector 0. -/
theorem value_for_other_sector :
    ∃ c, Reachable (Cluster.step 3 2) (fun _ _ => True) (.init 3) c ∧
      ((c 1).bank.registers 1).callback = some 1 ∧
      (c 1).calls[1]? = some ⟨1, ⟨⟨7, 1⟩, .read⟩, none⟩ ∧
      ((c 1).bank.registers 1).readlist.lookup 1 = some (0, 0, .new) ∧
      (c 1).bank.valueFrom 1 1 = some ⟨1, 0⟩ ∧
      (c 1).bank.outbox[0]? =
        some ⟨⟨⟨1, .fromRequest 7, 1, 0⟩, .readProc⟩, none, 0, some 0, none⟩ :=
  exists_of_exec (sharedIdent.map fun a => (1, a)) (by decide +kernel)

end Executor
end AtomicDiscDrive
