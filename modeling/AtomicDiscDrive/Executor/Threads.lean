import AtomicDiscDrive.AtomicRegister
import AtomicDiscDrive.Utils.Runs

/-!
# Registers and their threads

`single_register_thread`: a task for each register that announces itself on the ready
queue, takes the next message from its mailbox and runs the handler of the message. A step
is one call of one handler, so handlers of different registers interleave freely; storage
never fails.

The in-memory register is written back when its handler returns. The one thing that is
visible earlier is that the callback has been taken (`operationComplete`).

Beside what the code keeps, a bank of registers carries a history that no step reads: what
was sent and on behalf of which call, which calls were stored and which callbacks fired,
and which request every reply in a `readlist` or in `acks` answers.
-/

namespace AtomicDiscDrive
namespace Executor

open Utils

/-- A message that some process has broadcast: the `index`-th one it has sent. -/
structure Origin where
  process : UInt8
  index : ℕ
deriving DecidableEq

/-- `WorkerMessage`. A system command comes with its `origin`: the broadcast it is, or, for
a `Value` or an `Ack`, the broadcast it answers. -/
inductive WorkerMessage where
  | system (cmd : SystemRegisterCommand) (origin : Origin)
  | client (cmd : ClientRegisterCommand) (callback : Callback)
deriving DecidableEq

/-- The callback of a client message. -/
def WorkerMessage.callback? : WorkerMessage → Option Callback
  | .client _ callback => some callback
  | .system _ _ => none

/-- Where `single_register_thread` stands in its loop. -/
inductive Worker where
  | ready
  | waiting
  | running (msg : WorkerMessage) (rest : RegisterProgram AtomicRegisterImplementation)

/-- A message that has been sent: a broadcast for the call `call` if there is no target,
else the reply to `answers`. -/
structure Output where
  cmd : SystemRegisterCommand
  target : Option ℕ
  register : ℕ
  call : Option Callback
  answers : Option Origin
deriving DecidableEq

structure Bank where
  files : SectorFiles
  stable : ℕ → Option AtomicRegisterStorageState
  registers : ℕ → AtomicRegisterImplementation
  workers : ℕ → Worker
  mailboxes : ℕ → List WorkerMessage
  /-- the call whose command is the `writeval` in stable storage -/
  storedBy : ℕ → Callback
  outbox : List Output
  /-- writes stored by `client_command`: register and call -/
  stored : List (ℕ × Callback)
  fired : List (Callback × OperationComplete)
  /-- calls of `client_command`, with the callback each one replaced -/
  started : List (Callback × Option Callback)
  valueFrom : ℕ → UInt8 → Option Origin
  ackFrom : ℕ → UInt8 → Option Origin

namespace Bank

/-- The client command a register is busy with: the one its handler is starting, or the one
whose callback it keeps. -/
def inHand (b : Bank) (i : ℕ) : Option Callback :=
  match b.workers i with
  | .running (.client _ callback) _ => some callback
  | _ => (b.registers i).callback

/-- `cmd_sender.send`. -/
def deliver (b : Bank) (i : ℕ) (msg : WorkerMessage) : Bank :=
  { b with mailboxes := Function.update b.mailboxes i (b.mailboxes i ++ [msg]) }

/-- The handler of a message. -/
def handler (iter : IterOrder) (register : AtomicRegisterImplementation) :
    WorkerMessage → RegisterProgram AtomicRegisterImplementation
  | .client cmd callback => register.clientCommand cmd callback
  | .system cmd _ => register.systemCommand iter cmd

/-- `ready_sender.send(index)`: the thread goes on to wait for a message. -/
def announce (b : Bank) (i : ℕ) : Option Bank :=
  match b.workers i with
  | .ready => some { b with workers := Function.update b.workers i .waiting }
  | _ => none

/-- `cmd_receiver.recv()`, and the start of the handler. -/
def receive (b : Bank) (i : ℕ) (iter : IterOrder) : Option Bank :=
  match b.workers i, b.mailboxes i with
  | .waiting, msg :: mailbox => some
    { b with
      mailboxes := Function.update b.mailboxes i mailbox
      workers := Function.update b.workers i (.running msg (handler iter (b.registers i) msg))
      started := match msg with
        | .client _ callback => b.started ++ [(callback, (b.registers i).callback)]
        | .system _ _ => b.started }
  | _, _ => none

/-- The answer to a call of a handler, and the sector files after it. A panic ends the
task. -/
def answer (files : SectorFiles) : (op : RegisterOp) → Option (op.Answer × SectorFiles)
  | .put _ => some ((), files)
  | .broadcast _ => some ((), files)
  | .send _ _ => some ((), files)
  | .readData idx => some (files.readData idx, files)
  | .readMetadata idx => some (files.readMetadata idx, files)
  | .writeData idx data => some (true, files.writeData idx data)
  | .writeMetadata idx timestamp writeRank =>
    some (true, files.writeMetadata idx timestamp writeRank)
  | .operationComplete _ _ => some ((), files)
  | .panic => none

/-- The bank after register `i` has made the call `op` while it handles `msg`. -/
def after (b : Bank) (i : ℕ) (msg : WorkerMessage) (op : RegisterOp) (files : SectorFiles)
    (rest : RegisterProgram AtomicRegisterImplementation) : Bank :=
  { b with
    files
    workers := Function.update b.workers i (.running msg rest)
    stable := match op with
      | .put state => Function.update b.stable i (some state)
      | _ => b.stable
    storedBy := match op, msg with
      | .put _, .client ⟨_, .write _⟩ callback => Function.update b.storedBy i callback
      | _, _ => b.storedBy
    stored := match op, msg with
      | .put _, .client ⟨_, .write _⟩ callback => b.stored ++ [(i, callback)]
      | _, _ => b.stored
    registers := match op with
      | .operationComplete _ _ =>
        Function.update b.registers i { b.registers i with callback := none }
      | _ => b.registers
    fired := match op with
      | .operationComplete callback op => b.fired ++ [(callback, op)]
      | _ => b.fired
    outbox := match op, msg with
      | .broadcast cmd, _ => b.outbox ++ [⟨cmd, none, i, b.inHand i, none⟩]
      | .send cmd target, .system _ origin =>
        b.outbox ++ [⟨cmd, some target, i, none, some origin⟩]
      | _, _ => b.outbox }

/-- Which request the entries of `q` answer, once a reply with the current read identifier
has been handled. -/
def credit (replies : ℕ → UInt8 → Option Origin) (i : ℕ) (q : UInt8) (origin : Origin) :
    ℕ → UInt8 → Option Origin :=
  Function.update replies i (Function.update (replies i) q (some origin))

/-- The bank after the handler of register `i` has returned. -/
def returned (b : Bank) (i : ℕ) (msg : WorkerMessage) (register : AtomicRegisterImplementation) :
    Bank :=
  { b with
    registers := Function.update b.registers i register
    workers := Function.update b.workers i .ready
    valueFrom := match msg with
      | .system ⟨header, .value _ _ _⟩ origin =>
        if header.readIdent = (b.registers i).state.readIdent then
          credit b.valueFrom i header.processIdentifier origin
        else b.valueFrom
      | _ => b.valueFrom
    ackFrom := match msg with
      | .system ⟨header, .ack⟩ origin =>
        if header.readIdent = (b.registers i).state.readIdent then
          credit b.ackFrom i header.processIdentifier origin
        else b.ackFrom
      | _ => b.ackFrom }

/-- The next call of the handler of register `i`, or its return. -/
def call (b : Bank) (i : ℕ) : Option Bank :=
  match b.workers i with
  | .running msg (.done register) => some (b.returned i msg register)
  | .running msg (.call op next) =>
    match answer b.files op with
    | none => none
    | some (x, files) => some (b.after i msg op files (next x))
  | _ => none

/-- The completion the handler of register `i` is about to report. -/
def completing (b : Bank) (i : ℕ) : Option (Callback × OperationComplete) :=
  match b.workers i with
  | .running _ (.call (.operationComplete callback op) _) => some (callback, op)
  | _ => none

variable (N : ℕ) (selfIdent : UInt8)

/-- Registers on empty storage. -/
def boot : Bank :=
  { files := .empty
    stable := fun _ => none
    registers := fun _ => freshRegister N selfIdent
    workers := fun _ => .ready
    mailboxes := fun _ => []
    storedBy := fun _ => 0
    outbox := []
    stored := []
    fired := []
    started := []
    valueFrom := fun _ _ => none
    ackFrom := fun _ _ => none }

/-- A crash: files, stable storage and the history remain. -/
def crash (b : Bank) : Bank :=
  { b with
    registers := fun _ => freshRegister N selfIdent
    workers := fun _ => .ready
    mailboxes := fun _ => []
    valueFrom := fun _ _ => none
    ackFrom := fun _ _ => none }

/-- What `new` makes of the stable storage of register `i`. It makes no calls. -/
def restored (b : Bank) (i : ℕ) :
    Option (AtomicRegisterImplementation × Option ClientRegisterCommand) :=
  match AtomicRegisterImplementation.new selfIdent N (b.stable i) with
  | .done x => some x
  | .call _ _ => none

end Bank

end Executor
end AtomicDiscDrive
