import AtomicDiscDrive.Domain
import AtomicDiscDrive.Utils.Runs

/-!
# `RegisterClientImplementation`

One process sends to the others: `send`, `broadcast`, `monitor_connections` and
`PendingCommandsManager`. Calls run as tasks of their own, and a step moves one of them by
one lock or one write.

* The mutex of a stream is held by a call from the moment its write failed, or found no
  stream, until the command is in `pending_cmds`; and by the monitor from the moment it has
  connected until it is through with replaying.
* The mutex of `pending_cmds` is held by the monitor while it replays. All other sections
  under it are single steps.

Whether a connection can be made and whether a write succeeds is up to the environment.
Processes are numbered from 1 on, and so are streams.

A command is sent for an operation, which some process runs. The operations of this process
are broadcast; what is sent to one process only is an answer to an operation of that
process. Beside what the code keeps, the state carries a history that no step reads: what
was written where, which operations are finished, and which failed sends have not been
followed by a reconnection yet (`owed`).
-/

namespace AtomicDiscDrive
namespace Network

open Utils

/-! ## State -/

/-- A read or a write that process `process` carries out. -/
structure Operation where
  process : ℕ
  number : ℕ
deriving DecidableEq

/-- A command on its way to some process. `call` is the call of `send` or `broadcast` it
comes from, and `stamp` numbers the attempts to send something. -/
structure Copy where
  cmd : SystemRegisterCommand
  operation : Operation
  call : ℕ
  stamp : ℕ
deriving DecidableEq

inductive SendPc where
  | ready
  /-- not sent; holds the lock of the stream -/
  | failed (stamp : ℕ)
deriving DecidableEq

/-- A call of `send`, or of `broadcast` if it has no addressee. -/
structure Task where
  cmd : SystemRegisterCommand
  operation : Operation
  addressee : Option ℕ
  /-- the processes it is still to be sent to -/
  targets : List ℕ
  pc : SendPc
deriving DecidableEq

/-- A command written to a connection. -/
structure Written where
  target : ℕ
  connection : ℕ
  copy : Copy
deriving DecidableEq

/-- A send that failed. -/
structure Owed where
  target : ℕ
  copy : Copy
deriving DecidableEq

/-- Where `monitor_connections` stands. -/
inductive Monitor where
  | visiting (target : ℕ)
  | connected (target connection : ℕ)
  | replaying (target connection : ℕ) (rest : List Copy) (failed : Bool)
deriving DecidableEq

structure Client where
  tasks : List Task
  /-- the connection of a process; none if it broke -/
  streams : ℕ → Option ℕ
  /-- one command for each `msg_ident` -/
  pendingCmds : List Copy
  monitor : Monitor
  connections : ℕ
  attempts : ℕ
  selfChannel : List Copy
  written : List Written
  finished : List Operation
  owed : List Owed

namespace Client

/-! ## Locks -/

/-- A call holds the lock of the stream. -/
def heldByCall (s : Client) (target : ℕ) : Bool :=
  s.tasks.any fun task => task.pc != .ready && task.targets.head? == some target

/-- The monitor holds the lock of the stream. -/
def heldByMonitor (s : Client) (target : ℕ) : Bool :=
  match s.monitor with
  | .visiting _ => false
  | .connected t _ => t == target
  | .replaying t _ _ _ => t == target

/-- The monitor holds the lock of `pending_cmds`. -/
def isReplaying (s : Client) : Bool :=
  match s.monitor with
  | .replaying _ _ _ _ => true
  | _ => false

/-! ## `PendingCommandsManager` -/

/-- `add_pending_cmd`: a command with the same `msg_ident` is replaced. -/
def addPendingCmd (pendingCmds : List Copy) (copy : Copy) : List Copy :=
  pendingCmds.filter (fun c => c.cmd.header.msgIdent != copy.cmd.header.msgIdent) ++ [copy]

/-- `remove_pending_cmd`. -/
def removePendingCmd (pendingCmds : List Copy) (msgIdent : Uuid) : List Copy :=
  pendingCmds.filter fun c => c.cmd.header.msgIdent != msgIdent

/-! ## Calls -/

/-- The command of a call, in the attempt `stamp`. -/
def copyOf (task : Task) (call stamp : ℕ) : Copy := ⟨task.cmd, task.operation, call, stamp⟩

/-- The call `k` goes on to the next process. -/
def proceed (s : Client) (k : ℕ) (task : Task) : Client :=
  { s with tasks := s.tasks.set k { task with targets := task.targets.tail, pc := .ready } }

/-- The call `k` could not send its command. -/
def fail (s : Client) (k : ℕ) (task : Task) (target : ℕ) : Client :=
  { s with
    tasks := s.tasks.set k { task with pc := .failed s.attempts }
    streams := Function.update s.streams target none
    attempts := s.attempts + 1
    owed := s.owed ++ [⟨target, copyOf task k s.attempts⟩] }

/-- `send` to the next process, up to the point where the command is sent or known not to
be. -/
def attempt (self : ℕ) (s : Client) (k : ℕ) (task : Task) (target : ℕ) (ok : Bool) :
    Option Client :=
  if target = self then some
    { s.proceed k task with
      selfChannel := s.selfChannel ++ [copyOf task k s.attempts]
      attempts := s.attempts + 1 }
  else if s.heldByCall target || s.heldByMonitor target then none
  else
    match s.streams target with
    | none => some (s.fail k task target)
    | some connection =>
      if ok then some
        { s.proceed k task with
          written := s.written ++ [⟨target, connection, copyOf task k s.attempts⟩]
          attempts := s.attempts + 1 }
      else some (s.fail k task target)

/-- A step of the call `k`. -/
def callStep (self : ℕ) (s : Client) (k : ℕ) (ok : Bool) : Option Client :=
  match s.tasks[k]? with
  | none => none
  | some task =>
    match task.targets, task.pc with
    | [], _ => none
    | target :: _, .ready => s.attempt self k task target ok
    | _ :: _, .failed stamp =>
      if s.isReplaying then none
      else some
        { s.proceed k task with pendingCmds := addPendingCmd s.pendingCmds (copyOf task k stamp) }

/-! ## The monitor -/

/-- The process the monitor turns to after `target`. -/
def nextTarget (N target : ℕ) : ℕ := if target < N then target + 1 else 1

/-- The monitor locks a stream, and connects if there is none. -/
def visit (N self : ℕ) (s : Client) (ok : Bool) : Option Client :=
  match s.monitor with
  | .visiting target =>
    if target = self then some { s with monitor := .visiting (nextTarget N target) }
    else if s.heldByCall target then none
    else
      match s.streams target with
      | some _ => some { s with monitor := .visiting (nextTarget N target) }
      | none =>
        if ok then some
          { s with monitor := .connected target s.connections, connections := s.connections + 1 }
        else some { s with monitor := .visiting (nextTarget N target) }
  | _ => none

/-- The monitor locks `pending_cmds` and goes through its values, in any order. -/
def replay (s : Client) (order : List Copy) : Option Client :=
  match s.monitor with
  | .connected target connection =>
    if order.Perm s.pendingCmds then
      some { s with monitor := .replaying target connection order false }
    else none
  | _ => none

/-- The monitor replays the next command. -/
def replayStep (s : Client) (ok : Bool) : Option Client :=
  match s.monitor with
  | .replaying target connection (copy :: rest) failed =>
    if ok then some
      { s with
        monitor := .replaying target connection rest failed
        written := s.written ++ [⟨target, connection, copy⟩] }
    else some { s with monitor := .replaying target connection rest true }
  | _ => none

/-- The monitor is through with replaying: the connection is marked as active if no errors
occurred. -/
def markActive (N : ℕ) (s : Client) : Option Client :=
  match s.monitor with
  | .replaying target connection [] failed =>
    if failed then some { s with monitor := .visiting (nextTarget N target) }
    else some
      { s with
        monitor := .visiting (nextTarget N target)
        streams := Function.update s.streams target (some connection)
        owed := s.owed.filter fun o => o.target != target }
  | _ => none

end Client

/-! ## Steps -/

inductive Action where
  /-- an answer to an operation of another process or, in the end, to one's own -/
  | send (o : Operation) (cmd : SystemRegisterCommand)
  | broadcast (o : Operation) (cmd : SystemRegisterCommand)
  | call (k : ℕ) (ok : Bool)
  | finish (o : Operation)
  /-- `remove_pending_cmd`, in the callback of an operation -/
  | remove (o : Operation)
  | visit (ok : Bool)
  | replay (order : List Copy)
  | replayStep (ok : Bool)
  | markActive

namespace Client

/-- All earlier broadcasts for the operation have returned: a register awaits each of them. -/
def broadcastsDone (s : Client) (o : Operation) : Bool :=
  s.tasks.all fun task => task.operation != o || task.addressee != none || task.targets == []

variable (N self : ℕ) (ident : Operation → Uuid)

/-- One step of the client of process `self`, one of `N`. The commands of an operation carry
its `msg_ident`. -/
def step (s : Client) : Action → Option Client
  | .send o cmd =>
    if cmd.header.msgIdent = ident o then
      some { s with tasks := s.tasks ++ [⟨cmd, o, some o.process, [o.process], .ready⟩] }
    else none
  | .broadcast o cmd =>
    if cmd.header.msgIdent = ident o ∧ o.process = self ∧ s.broadcastsDone o = true then
      some { s with tasks := s.tasks ++ [⟨cmd, o, none, List.range' 1 N, .ready⟩] }
    else none
  | .call k ok => s.callStep self k ok
  | .finish o => some { s with finished := s.finished ++ [o] }
  | .remove o =>
    if o ∈ s.finished ∧ o.process = self ∧ s.isReplaying = false then
      some { s with pendingCmds := removePendingCmd s.pendingCmds (ident o) }
    else none
  | .visit ok => s.visit N self ok
  | .replay order => s.replay order
  | .replayStep ok => s.replayStep ok
  | .markActive => s.markActive N

/-- No connection has been made yet. -/
def init : Client :=
  { tasks := []
    streams := fun _ => none
    pendingCmds := []
    monitor := .visiting 1
    connections := 0
    attempts := 0
    selfChannel := []
    written := []
    finished := []
    owed := [] }

end Client

end Network
end AtomicDiscDrive
