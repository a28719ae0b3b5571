import AtomicDiscDrive.Executor.Threads

/-!
# `CommandsExecutor`

One process: its registers with their threads, the executor that hands commands to them,
and the start-up loop of `run_register_process`. Every `await` is a point where other
tasks may run, so the tasks of `execute_client_command`, `execute_system_command` and
`finish_client_command` are given by a program counter each, and a step moves one of them
by one lock, receive or send:

* the ready queue is a list of register indices. Its receiver sits in a mutex that is held
  while a task waits for an index; a task that receives one does so in one step;
* `sector_counters` and `msg_id_handler_sector_idx` are locked where a task goes on to wait
  with the lock in hand, which only `finish_client_command` does;
* a task parked on the `Notify` of its sector goes on when `notify_waiters` is called.

A client command keeps one *operation* number over restarts: a recovered command is a new
call, with its own callback, of the operation that was stored. Ticket counters are natural
numbers; with distinct request identifiers they do not exceed the number of calls
(`Numbered.counters_le_calls`), so those of the code do not overflow before `2 ^ 64` calls.

A completion task first waits for the mutex of `pending_cmds` (`remove_pending_cmd`), and then
for that of the client's `write_stream`, which it keeps until it returns. These two waits are
left out; a task that waits for one of them holds no lock of the executor.
-/

namespace AtomicDiscDrive
namespace Executor

open Utils

/-! ## State -/

/-- A call of `execute_client_command`. `source` is the register a recovered command was
found in. -/
structure Call where
  operation : ℕ
  cmd : ClientRegisterCommand
  source : Option ℕ
deriving DecidableEq

/-- The sector a call is on. -/
abbrev Call.sector (c : Call) : SectorIdx := c.cmd.header.sectorIdx

/-- Where a task of `execute_client_command` stands. -/
inductive ClientPc where
  | ticket
  | check (myCounter : ℕ)
  /-- not the owner; the lock is dropped -/
  | yield (myCounter : ℕ)
  /-- waits on the `Notify` of the sector -/
  | parked (myCounter : ℕ)
  | owner
  /-- has received the index of a register -/
  | index (i : ℕ)
  /-- has entered it in `msg_id_handler_sector_idx` -/
  | entered (i : ℕ)
  | handed (i : ℕ)
  /-- lost in a crash -/
  | lost
deriving DecidableEq

/-- The register whose index a task has received and not used yet. -/
def ClientPc.grant : ClientPc → Option ℕ
  | .index i | .entered i => some i
  | _ => none

/-- A task has received an index. -/
def ClientPc.taken : ClientPc → Bool
  | .index _ | .entered _ | .handed _ => true
  | _ => false

inductive SystemPc where
  | start
  | send (i : ℕ)
  | done
deriving DecidableEq

/-- A task of `execute_system_command`. -/
structure SystemTask where
  cmd : SystemRegisterCommand
  origin : Origin
  pc : SystemPc
deriving DecidableEq

inductive FinishPc where
  /-- writes the response; only then `finish_client_command` is called -/
  | respond
  | remove
  /-- holds the lock of `msg_id_handler_sector_idx` -/
  | count (sector : SectorIdx)
  /-- holds the lock of `sector_counters` as well -/
  | notify (sector : SectorIdx)
  | done
deriving DecidableEq

/-- The task a completion callback spawns, or one that rejects a request. -/
structure FinishTask where
  requestIdentifier : UInt64
  pc : FinishPc
deriving DecidableEq

/-- A command `new` returned at a restart. -/
structure Recovered where
  operation : ℕ
  cmd : ClientRegisterCommand
  register : ℕ
deriving DecidableEq

/-- A `Client` message sent to a register, with the calls sent to it earlier whose callback
had not fired then. -/
structure Handing where
  register : ℕ
  callback : Callback
  unfired : List Callback
deriving DecidableEq

structure Process where
  bank : Bank
  up : Bool
  /-- every call ever made, by the number of its callback -/
  calls : List Call
  pcs : ℕ → ClientPc
  readyRegisters : List ℕ
  /-- counter and `total_finished` -/
  sectorCounters : SectorIdx → Option (ℕ × ℕ)
  msgIdHandlerSectorIdx : Uuid → Option (ℕ × SectorIdx)
  handlerLock : Option ℕ
  countersLock : Option ℕ
  systems : List SystemTask
  finishing : List FinishTask
  /-- recovered commands the start-up loop has not come to yet -/
  startup : List Recovered
  /-- the call the start-up loop is in -/
  dispatching : Option Callback
  /-- since the last crash -/
  handings : List Handing

namespace Process

/-- The operation of a call. -/
def operationOf (s : Process) (callback : Callback) : ℕ :=
  match s.calls[callback]? with
  | some call => call.operation
  | none => callback

/-- The callback of some call of the operation has fired. -/
def Fired (s : Process) (operation : ℕ) : Prop :=
  ∃ f ∈ s.bank.fired, s.operationOf f.1 = operation

instance (s : Process) (operation : ℕ) : Decidable (s.Fired operation) :=
  inferInstanceAs (Decidable (∃ f ∈ s.bank.fired, s.operationOf f.1 = operation))

/-- The start-up loop is through, and connections are accepted. -/
def Accepting (s : Process) : Prop :=
  s.startup = [] ∧ ∀ t ∈ s.dispatching, (s.pcs t).taken ∧ (s.pcs t).grant = none

instance (s : Process) : Decidable s.Accepting := instDecidableAnd

/-- A new call of `execute_client_command`. -/
def invoke (s : Process) (call : Call) : Process :=
  { s with
    calls := s.calls ++ [call]
    pcs := Function.update s.pcs s.calls.length .ticket }

/-- A step of the task of call `t`. -/
def move (s : Process) (t : Callback) (pc : ClientPc) : Process :=
  { s with pcs := Function.update s.pcs t pc }

/-- The earlier messages to register `i` whose callbacks have not fired. -/
def unfired (s : Process) (i : ℕ) : List Callback :=
  ((s.handings.filter fun h => h.register = i).map Handing.callback).filter fun t =>
    t ∉ s.bank.fired.map Prod.fst

/-- `execute_client_command`, step by step. -/
def clientStep (s : Process) (t : Callback) : Option Process :=
  match s.calls[t]? with
  | none => none
  | some call =>
    match s.pcs t with
    | .ticket =>
      if s.countersLock = none then
        let entry := (s.sectorCounters call.sector).getD (0, 0)
        some { s.move t (.check entry.1) with
          sectorCounters :=
            Function.update s.sectorCounters call.sector (some (entry.1 + 1, entry.2)) }
      else none
    | .check myCounter =>
      if s.countersLock = none then
        match s.sectorCounters call.sector with
        | none => none
        | some entry => some (s.move t (if myCounter = entry.2 then .owner else .yield myCounter))
      else none
    | .yield myCounter => some (s.move t (.parked myCounter))
    | .owner =>
      match s.readyRegisters with
      | [] => none
      | i :: readyRegisters => some { s.move t (.index i) with readyRegisters }
    | .index i =>
      if s.handlerLock = none then some
        { s.move t (.entered i) with
          msgIdHandlerSectorIdx := Function.update s.msgIdHandlerSectorIdx
            (.fromRequest call.cmd.header.requestIdentifier) (some (i, call.sector)) }
      else none
    | .entered i => some
      { s.move t (.handed i) with
        bank := s.bank.deliver i (.client call.cmd t)
        handings := s.handings ++ [⟨i, t, s.unfired i⟩] }
    | _ => none

/-- Commands that go to any ready register. -/
def isRequest (cmd : SystemRegisterCommand) : Bool :=
  match cmd.content with
  | .readProc | .writeProc _ _ _ => true
  | _ => false

/-- A step of the `j`-th task of `execute_system_command`. -/
def setSystem (s : Process) (j : ℕ) (task : SystemTask) (pc : SystemPc) : Process :=
  { s with systems := s.systems.set j { task with pc } }

/-- `execute_system_command`, step by step. -/
def systemStep (s : Process) (j : ℕ) : Option Process :=
  match s.systems[j]? with
  | none => none
  | some task =>
    match task.pc with
    | .start =>
      if isRequest task.cmd then
        match s.readyRegisters with
        | [] => none
        | i :: readyRegisters => some { s.setSystem j task (.send i) with readyRegisters }
      else if s.handlerLock = none then
        match s.msgIdHandlerSectorIdx task.cmd.header.msgIdent with
        | none => some (s.setSystem j task .done)
        | some entry => some (s.setSystem j task (.send entry.1))
      else none
    | .send i => some
      { s.setSystem j task .done with bank := s.bank.deliver i (.system task.cmd task.origin) }
    | .done => none

/-- A step of the `j`-th completion task. -/
def setFinish (s : Process) (j : ℕ) (task : FinishTask) (pc : FinishPc) : Process :=
  { s with finishing := s.finishing.set j { task with pc } }

/-- `notify_waiters` on the `Notify` of a sector. -/
def wake (s : Process) (sector : SectorIdx) : ℕ → ClientPc := fun t =>
  match s.pcs t, s.calls[t]? with
  | .parked myCounter, some call =>
    if call.sector = sector then .check myCounter else .parked myCounter
  | pc, _ => pc

/-- The task of a completion callback, or of `respond_err`, step by step: `respond`, which
returns if the response cannot be written, and `finish_client_command`. -/
def finishStep (s : Process) (j : ℕ) (written : Bool) : Option Process :=
  match s.finishing[j]? with
  | none => none
  | some task =>
    match task.pc with
    | .respond => some (s.setFinish j task (if written then .remove else .done))
    | .remove =>
      if s.handlerLock = none then
        match s.msgIdHandlerSectorIdx (.fromRequest task.requestIdentifier) with
        | none => some (s.setFinish j task .done)
        | some entry => some
          { s.setFinish j task (.count entry.2) with
            msgIdHandlerSectorIdx := Function.update s.msgIdHandlerSectorIdx
              (.fromRequest task.requestIdentifier) none
            handlerLock := some j }
      else none
    | .count sector =>
      if s.countersLock = none then
        match s.sectorCounters sector with
        | none => none
        | some entry => some
          { s.setFinish j task (.notify sector) with
            sectorCounters :=
              Function.update s.sectorCounters sector (some (entry.1, entry.2 + 1))
            countersLock := some j }
      else none
    | .notify sector => some
      { s.setFinish j task .done with
        pcs := s.wake sector
        handlerLock := none
        countersLock := none }
    | .done => none

/-- What the callback of a call does: the response of a recovered command goes nowhere. -/
def finishTask (s : Process) (callback : Callback) (op : OperationComplete) : FinishTask :=
  { requestIdentifier := op.requestIdentifier
    pc := match s.calls[callback]? with
      | some ⟨_, _, some _⟩ => .remove
      | _ => .respond }

/-! ## Crash and restart -/

section

variable (N R : ℕ) (selfIdent : UInt8)

/-- What a restart finds in the stable storage of register `i`. -/
def recovered (s : Process) (i : ℕ) : Option Recovered :=
  match s.bank.restored N selfIdent i with
  | some (_, some cmd) => some ⟨s.operationOf (s.bank.storedBy i), cmd, i⟩
  | _ => none

/-- `pending_cmds` of `get_commands_executor_and_pending_cmd`. -/
def pendingCmds (s : Process) : List Recovered :=
  (List.range R).filterMap (s.recovered N selfIdent)

/-- A crash. -/
def crash (s : Process) : Process :=
  { bank := s.bank.crash N selfIdent
    up := false
    calls := s.calls
    pcs := fun _ => .lost
    readyRegisters := []
    sectorCounters := fun _ => none
    msgIdHandlerSectorIdx := fun _ => none
    handlerLock := none
    countersLock := none
    systems := []
    finishing := []
    startup := []
    dispatching := none
    handings := [] }

/-- `get_commands_executor_and_pending_cmd` on a process that is down. -/
def restart (s : Process) : Option Process :=
  if s.up = false ∧ ∀ i < R, (s.bank.restored N selfIdent i).isSome then some
    { s with
      up := true
      bank := { s.bank with
        registers := fun i =>
          ((s.bank.restored N selfIdent i).map Prod.fst).getD (s.bank.registers i) }
      startup := s.pendingCmds N R selfIdent }
  else none

/-- A first start on empty storage. -/
def init : Process :=
  { bank := .boot N selfIdent
    up := true
    calls := []
    pcs := fun _ => .lost
    readyRegisters := []
    sectorCounters := fun _ => none
    msgIdHandlerSectorIdx := fun _ => none
    handlerLock := none
    countersLock := none
    systems := []
    finishing := []
    startup := []
    dispatching := none
    handings := [] }

end

end Process

/-! ## Steps -/

inductive Action where
  /-- a verified request of a client -/
  | submit (cmd : ClientRegisterCommand)
  /-- `respond_err`, for a request that is not executed -/
  | reject (requestIdentifier : UInt64)
  /-- the start-up loop goes on to the next recovered command -/
  | dispatch
  | client (t : Callback)
  /-- a verified system command, from a connection or from the process itself -/
  | arrive (cmd : SystemRegisterCommand) (origin : Origin)
  | system (j : ℕ)
  | announce (i : ℕ)
  | receive (i : ℕ) (iter : IterOrder)
  | call (i : ℕ)
  | finish (j : ℕ) (written : Bool)
  | crash
  | restart

namespace Process

variable (N R : ℕ) (selfIdent : UInt8)

/-- The start-up loop comes to the recovered command `r`. -/
def dispatch (s : Process) : Option Process :=
  match s.startup with
  | [] => none
  | r :: startup =>
    if ∀ t ∈ s.dispatching, (s.pcs t).taken ∧ (s.pcs t).grant = none then some
      { s.invoke ⟨r.operation, r.cmd, some r.register⟩ with
        startup
        dispatching := some s.calls.length }
    else none

/-- The next call of a handler; a completion spawns its task. -/
def callStep (s : Process) (i : ℕ) : Option Process :=
  match s.bank.call i with
  | none => none
  | some bank => some
    { s with
      bank
      finishing := match s.bank.completing i with
        | some (callback, op) => s.finishing ++ [s.finishTask callback op]
        | none => s.finishing }

/-- One step of a process that is up. -/
def run (s : Process) : Action → Option Process
  | .submit cmd => if s.Accepting then some (s.invoke ⟨s.calls.length, cmd, none⟩) else none
  | .reject requestIdentifier => some
    { s with finishing := s.finishing ++ [⟨requestIdentifier, .respond⟩] }
  | .dispatch => s.dispatch
  | .client t => s.clientStep t
  | .arrive cmd origin => some { s with systems := s.systems ++ [⟨cmd, origin, .start⟩] }
  | .system j => s.systemStep j
  | .announce i =>
    if i < R then
      (s.bank.announce i).map fun bank =>
        { s with bank, readyRegisters := s.readyRegisters ++ [i] }
    else none
  | .receive i iter =>
    if i < R then (s.bank.receive i iter).map fun bank => { s with bank } else none
  | .call i => if i < R then s.callStep i else none
  | .finish j written => s.finishStep j written
  | .crash => some (s.crash N selfIdent)
  | .restart => none

/-- One step of a process with `R` registers, one of `N`. -/
def step (s : Process) (a : Action) : Option Process :=
  if s.up then s.run N R selfIdent a
  else match a with
    | .restart => s.restart N R selfIdent
    | _ => none

end Process

/-! ## Runs on paper -/

/-- The steps in which a command that is the owner of its sector reaches a register. -/
def handOver (t : Callback) : List Action := List.replicate 5 (.client t)

/-- A thread handles its next message, in `n` calls and the return, and announces itself. -/
def handleNext (i n : ℕ) : List Action :=
  .receive i .listed :: List.replicate (n + 1) (.call i) ++ [.announce i]

/-- A system command arrives, as the `j`-th one, and is sent to a register. -/
def hear (j : ℕ) (cmd : SystemRegisterCommand) (origin : Origin) : List Action :=
  [.arrive cmd origin, .system j, .system j]

/-- The one register of a process that is alone runs a write to its end. -/
def writeRun : List Action :=
  let header (readIdent : UInt64) : SystemCommandHeader := ⟨1, .fromRequest 7, readIdent, 0⟩
  [.announce 0, .submit ⟨⟨7, 0⟩, .write (.fill 1)⟩] ++ handOver 0 ++ handleNext 0 2 ++
  hear 0 ⟨header 1, .readProc⟩ ⟨1, 0⟩ ++ handleNext 0 3 ++
  hear 1 ⟨header 1, .value 0 0 .new⟩ ⟨1, 0⟩ ++ handleNext 0 2 ++
  hear 2 ⟨header 2, .writeProc 1 1 (.fill 1)⟩ ⟨1, 2⟩ ++ handleNext 0 4 ++
  hear 3 ⟨header 2, .ack⟩ ⟨1, 2⟩ ++ handleNext 0 2

/-! ## What may go wrong -/

namespace Process

/-- No client command is on its way to register `i` or in progress there. -/
def Free (s : Process) (i : ℕ) : Prop :=
  (∀ t < s.calls.length, (s.pcs t).grant ≠ some i) ∧
    (∀ msg ∈ s.bank.mailboxes i, msg.callback? = none) ∧ s.bank.inHand i = none

instance (s : Process) (i : ℕ) : Decidable (s.Free i) := instDecidableAnd

/-- The call that receives an index from the ready queue in a step, and the index. -/
def takes (s : Process) : Action → Option (Callback × ℕ)
  | .client t => if s.pcs t = .owner then s.readyRegisters.head?.map fun i => (t, i) else none
  | _ => none

/-- Client commands receive the indices of free registers only. -/
def TakesFree (s : Process) (a : Action) : Prop := ∀ x ∈ s.takes a, s.Free x.2

/-- Recovered commands receive the index of the register they were found in. -/
def TakesHome (s : Process) (a : Action) : Prop :=
  ∀ x ∈ s.takes a, ∀ call ∈ s.calls[x.1]?, ∀ i ∈ call.source, i = x.2

/-- A command receives an index only when every other command on its sector that has
received one is completed: the per-sector tickets at work. -/
def TakesTurns (s : Process) (a : Action) : Prop :=
  ∀ x ∈ s.takes a, ∀ call ∈ s.calls[x.1]?, ∀ t < s.calls.length, t ≠ x.1 →
    (s.pcs t).taken = true → t ∉ s.bank.fired.map Prod.fst →
    ∀ other ∈ s.calls[t]?, other.sector ≠ call.sector

instance (s : Process) (a : Action) : Decidable (s.TakesFree a) :=
  inferInstanceAs (Decidable (∀ x ∈ s.takes a, s.Free x.2))

instance (s : Process) (a : Action) : Decidable (s.TakesHome a) :=
  inferInstanceAs (Decidable (∀ x ∈ s.takes a, ∀ call ∈ s.calls[x.1]?, ∀ i ∈ call.source, i = x.2))

instance (s : Process) (a : Action) : Decidable (s.TakesTurns a) :=
  inferInstanceAs (Decidable (∀ x ∈ s.takes a, ∀ call ∈ s.calls[x.1]?,
    ∀ t < s.calls.length, t ≠ x.1 → (s.pcs t).taken = true → t ∉ s.bank.fired.map Prod.fst →
    ∀ other ∈ s.calls[t]?, other.sector ≠ call.sector))

/-- No crash falls between the last `store_state` of a write and its callback. -/
def CrashesApart (R : ℕ) (s : Process) : Action → Prop
  | .crash => ∀ i < R, ∀ c ∈ s.bank.completing i, c.2.opReturn ≠ .write
  | _ => True

instance (R : ℕ) (s : Process) (a : Action) : Decidable (s.CrashesApart R a) := by
  cases a <;> dsimp only [CrashesApart] <;> infer_instance

end Process

/-- A `Value` that carries the given read identifier. -/
def WorkerMessage.isValue (readIdent : UInt64) : WorkerMessage → Bool
  | .system ⟨header, .value _ _ _⟩ _ => header.readIdent = readIdent
  | _ => false

/-- An `Ack` that carries the given read identifier. -/
def WorkerMessage.isAck (readIdent : UInt64) : WorkerMessage → Bool
  | .system ⟨header, .ack⟩ _ => header.readIdent = readIdent
  | _ => false

/-- The message is a `WriteProc`. -/
def isWriteProc (cmd : SystemRegisterCommand) : Bool :=
  match cmd.content with
  | .writeProc _ _ _ => true
  | _ => false

/-- The broadcast a system command is or answers. -/
def WorkerMessage.origin? : WorkerMessage → Option Origin
  | .system _ origin => some origin
  | .client _ _ => none

namespace Process

/-- The read identifier of a register that takes a message is below `u64::MAX`. -/
def BelowMax (s : Process) : Action → Prop
  | .receive i _ => (s.bank.registers i).state.readIdent.toNat + 1 < 2 ^ 64
  | _ => True

instance (s : Process) (a : Action) : Decidable (s.BelowMax a) := by
  cases a <;> dsimp only [BelowMax] <;> infer_instance

end Process

end Executor
end AtomicDiscDrive
