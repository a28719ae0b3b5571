import AtomicDiscDrive.Network.Pending

/-!
# The clients of all processes, and the connections between them

Each process has its client (`RegisterClient`). What a client writes to a stream is accepted
by the socket: it queues up on the connection until the process at the other end has read
and processed it. A connection may break at any time and loses any suffix of what is queued
up on it. The sender does not notice: its next write may fail, or may be accepted and be
lost. Beside this the state keeps which broadcasts have come upon a send that failed
(`unsent`).
-/

namespace AtomicDiscDrive
namespace Network

open Utils

/-- A TCP connection from one process to another. -/
structure Channel where
  /-- accepted by the socket, and not read at the other end -/
  queue : List Written
  broken : Bool
deriving DecidableEq

structure Cluster where
  clients : ℕ → Client
  /-- the connections of each process, as it numbers them -/
  channels : ℕ → ℕ → Channel
  /-- who sent what has been processed by the process it was written to -/
  processed : List (ℕ × Written)
  /-- the calls of each process one of whose sends has failed and been put away -/
  unsent : List (ℕ × ℕ)

inductive ClusterAction where
  | client (p : ℕ) (a : Action)
  | deliver (p connection : ℕ)
  /-- the connection breaks; `kept` commands still arrive -/
  | sever (p connection kept : ℕ)

namespace Cluster

/-- The socket accepts a command. On a broken connection it is lost. -/
def accept (channels : ℕ → Channel) (w : Written) : ℕ → Channel :=
  if (channels w.connection).broken then channels
  else Function.update channels w.connection
    { channels w.connection with queue := (channels w.connection).queue ++ [w] }

/-- What a client has written since it was in the state `s`. -/
def writtenSince (s s' : Client) : List Written := s'.written.drop s.written.length

/-- One step of `N` processes. The identifiers are those of their clients' operations. -/
def step (N : ℕ) (ident : Operation → Uuid) (s : Cluster) : ClusterAction → Option Cluster
  | .client p a =>
    match (s.clients p).step N p ident a with
    | none => none
    | some client => some
      { s with
        clients := Function.update s.clients p client
        channels := Function.update s.channels p
          ((writtenSince (s.clients p) client).foldl accept (s.channels p))
        unsent := s.unsent ++ ((s.clients p).putAway a).toList.map fun x => (p, x.1) }
  | .deliver p connection =>
    match (s.channels p connection).queue with
    | [] => none
    | w :: rest => some
      { s with
        channels := Function.update s.channels p (Function.update (s.channels p) connection
          { s.channels p connection with queue := rest })
        processed := s.processed ++ [(p, w)] }
  | .sever p connection kept =>
    if connection < (s.clients p).connections then some
      { s with
        channels := Function.update s.channels p (Function.update (s.channels p) connection
          ⟨(s.channels p connection).queue.take kept, true⟩) }
    else none

def init : Cluster :=
  { clients := fun _ => .init
    channels := fun _ _ => ⟨[], false⟩
    processed := []
    unsent := [] }

/-! ## Where a command is -/

/-- The process `q` has processed the command of the call `k` of `p`. -/
def Processed (s : Cluster) (p q k : ℕ) (cmd : SystemRegisterCommand) : Prop :=
  ∃ x ∈ s.processed, x.1 = p ∧ x.2.target = q ∧ x.2.copy.call = k ∧ x.2.copy.cmd = cmd

instance (s : Cluster) (p q k : ℕ) (cmd : SystemRegisterCommand) :
    Decidable (s.Processed p q k cmd) :=
  inferInstanceAs (Decidable (∃ x ∈ s.processed, _))

/-- It is in transit to `q` on a connection that is not broken. -/
def InTransit (s : Cluster) (p q k : ℕ) (cmd : SystemRegisterCommand) : Prop :=
  ∃ connection, (s.channels p connection).broken = false ∧
    ∃ w ∈ (s.channels p connection).queue,
      w.target = q ∧ w.copy.call = k ∧ w.copy.cmd = cmd

end Cluster

namespace Client

/-- It is kept to be replayed. -/
def Holds (s : Client) (k : ℕ) (cmd : SystemRegisterCommand) : Prop :=
  ∃ c ∈ s.pendingCmds, c.call = k ∧ c.cmd = cmd

instance (s : Client) (k : ℕ) (cmd : SystemRegisterCommand) : Decidable (s.Holds k cmd) :=
  inferInstanceAs (Decidable (∃ c ∈ s.pendingCmds, _))

/-- The call `k` is the last broadcast of an operation that is in progress. -/
def currentPhase (s : Client) (k : ℕ) : Bool :=
  match s.tasks[k]? with
  | none => false
  | some task =>
    task.addressee == none && !s.finished.contains task.operation &&
      (s.tasks.drop (k + 1)).all fun t => t.addressee != none || t.operation != task.operation

/-- The connection the call `k` writes to next. -/
def nextConnection (s : Client) (k : ℕ) : Option ℕ :=
  (s.tasks[k]?).bind fun task => task.targets.head?.bind s.streams

end Client

/-! ## The condition -/

namespace Cluster

/-- The call `k` of `p` writes no current phase to a broken connection, unless an earlier send
of the same broadcast has failed. -/
def WriteSafe (s : Cluster) (p k : ℕ) : Prop :=
  ∀ connection ∈ (s.clients p).nextConnection k, (s.channels p connection).broken = true →
    (s.clients p).currentPhase k = true → (p, k) ∈ s.unsent

instance (s : Cluster) (p k : ℕ) : Decidable (s.WriteSafe p k) :=
  inferInstanceAs (Decidable (∀ connection ∈ (s.clients p).nextConnection k, _))

/-- What is queued up on the connection has been processed all the same, or is not a current
phase, or an earlier send of the same broadcast has failed. -/
def BreakSafe (s : Cluster) (p connection : ℕ) : Prop :=
  ∀ w ∈ (s.channels p connection).queue, (s.clients p).currentPhase w.copy.call = true →
    ¬ s.Processed p w.target w.copy.call w.copy.cmd → (p, w.copy.call) ∈ s.unsent

instance (s : Cluster) (p connection : ℕ) : Decidable (s.BreakSafe p connection) :=
  inferInstanceAs (Decidable (∀ w ∈ (s.channels p connection).queue, _))

/-- The order of breaks and writes: connections do not break, and are not written to once they
are broken, while that would lose a broadcast in its current phase all of whose sends have
succeeded so far. -/
def Lossless (s : Cluster) : ClusterAction → Prop
  | .client p (.call k true) => s.WriteSafe p k
  | .sever p connection _ => s.BreakSafe p connection
  | _ => True

instance (s : Cluster) (a : ClusterAction) : Decidable (s.Lossless a) := by
  unfold Lossless
  split <;> infer_instance

end Cluster

end Network
end AtomicDiscDrive
