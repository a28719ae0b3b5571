import AtomicDiscDrive.AtomicRegister
import AtomicDiscDrive.Utils.Runs

/-!
# The register protocol as a system of processes

`N` processes with identifiers `1 … N`, each with one sector store, any number of
registers and their stable storage, and a network. Handlers run to their end in one step
(`System.handle`); the network keeps every packet ever sent, so that a packet may be
delivered late, many times, in any order, or never.

Beside what the code stores, a state carries the history the statements are about: for
every client operation where it was issued, the tag and data of the `WriteProc` it
broadcast, and its answer, each stamped with the number of steps taken so far (`clock`).
No step reads the history.
-/

namespace AtomicDiscDrive
namespace Protocol

open Utils

/-! ## State -/

/-- A message on its way to the process with identifier `target`. -/
structure Packet where
  target : ℕ
  cmd : SystemRegisterCommand

/-- One process. `pending` holds the commands `new` returned that have not been
re-issued yet. -/
structure Process where
  files : SectorFiles
  registers : ℕ → AtomicRegisterImplementation
  stable : ℕ → Option AtomicRegisterStorageState
  pending : ℕ → Option ClientRegisterCommand
  up : Bool

/-- The history of one client operation. -/
structure Operation where
  process : UInt8
  register : ℕ
  cmd : ClientRegisterCommand
  start : ℕ
  /-- tag and data of the last `WriteProc` broadcast for it -/
  writeProc : Option (Tag × SectorVec)
  finish : Option (ℕ × OperationComplete)
  /-- its process crashed, and nothing will resume it -/
  aborted : Bool

/-- The sector an operation is on. -/
abbrev Operation.sector (o : Operation) : SectorIdx := o.cmd.header.sectorIdx

/-- The message identifier its messages carry. -/
abbrev Operation.msgIdent (o : Operation) : Uuid := .fromRequest o.cmd.header.requestIdentifier

/-- Issued, not answered, and not given up. -/
abbrev Operation.InProgress (o : Operation) : Prop := o.finish = none ∧ o.aborted = false

structure System where
  processes : UInt8 → Process
  net : List Packet
  operations : ℕ → Option Operation
  /-- number of operations issued; they are numbered from 0 -/
  count : ℕ
  /-- `client_command` calls made on each register -/
  calls : UInt8 → ℕ → ℕ
  clock : ℕ
  restarts : ℕ

/-! ## Running a handler -/

/-- What one handler touches outside its register. -/
structure HandlerEnv where
  files : SectorFiles
  stable : Option AtomicRegisterStorageState
  broadcasts : List SystemRegisterCommand
  sends : List Packet
  completed : List (Callback × OperationComplete)

/-- Every call of a handler, with storage that never fails. -/
def HandlerEnv.exec : (op : RegisterOp) → HandlerEnv → Option (op.Answer × HandlerEnv)
  | .put state, e => some ((), { e with stable := some state })
  | .broadcast cmd, e => some ((), { e with broadcasts := e.broadcasts ++ [cmd] })
  | .send cmd target, e => some ((), { e with sends := e.sends ++ [⟨target, cmd⟩] })
  | .readData idx, e => some (e.files.readData idx, e)
  | .readMetadata idx, e => some (e.files.readMetadata idx, e)
  | .writeData idx data, e => some (true, { e with files := e.files.writeData idx data })
  | .writeMetadata idx timestamp writeRank, e =>
    some (true, { e with files := e.files.writeMetadata idx timestamp writeRank })
  | .operationComplete callback op, e =>
    some ((), { e with completed := e.completed ++ [(callback, op)] })
  | .panic, _ => none

theorem run_panic {α : Type} (next : Empty → RegisterProgram α) (e : HandlerEnv) :
    Program.run HandlerEnv.exec
      (Program.call (S := registerSignature) RegisterOp.panic next) e = none := rfl

/-- `broadcast`: one packet for each address of the configuration, itself included. -/
def toAll (N : ℕ) (cmd : SystemRegisterCommand) : List Packet :=
  (List.range N).map fun i => ⟨i + 1, cmd⟩

/-- The tag and data of a `WriteProc`. -/
def writeProcOf (cmd : SystemRegisterCommand) : Option (Tag × SectorVec) :=
  match cmd.content with
  | .writeProc timestamp writeRank data => some (⟨timestamp, writeRank⟩, data)
  | _ => none

/-- The history after a handler of a register that serves `callback` has run. -/
def recordHistory (clock : ℕ) (callback : Option Callback) (e : HandlerEnv)
    (operations : ℕ → Option Operation) : ℕ → Option Operation := fun k =>
  (operations k).map fun o =>
    { o with
      writeProc :=
        if callback = some k then (e.broadcasts.findSome? writeProcOf).or o.writeProc
        else o.writeProc
      finish := ((e.completed.lookup k).map fun op => (clock, op)).or o.finish }

/-- The system after a handler of register `r` of process `p` has ended with `register`
and `e`. -/
def System.commit (N : ℕ) (s : System) (p : UInt8) (r : ℕ)
    (register : AtomicRegisterImplementation) (e : HandlerEnv) : System :=
  let proc := s.processes p
  { s with
    processes := Function.update s.processes p
      { proc with
        files := e.files
        registers := Function.update proc.registers r register
        stable := Function.update proc.stable r e.stable }
    net := s.net ++ e.sends ++ e.broadcasts.flatMap (toAll N)
    operations := recordHistory s.clock (proc.registers r).callback e s.operations
    clock := s.clock + 1 }

/-- Run a handler of register `r` of process `p` to its end. -/
def System.handle (N : ℕ) (s : System) (p : UInt8) (r : ℕ)
    (program : RegisterProgram AtomicRegisterImplementation) : Option System :=
  let proc := s.processes p
  match program.run HandlerEnv.exec ⟨proc.files, proc.stable r, [], [], []⟩ with
  | none => none
  | some (register, e) => some (s.commit N p r register e)

/-! ## Steps -/

inductive Action where
  /-- a client hands command `cmd` to register `r` of process `p` -/
  | invoke (p : UInt8) (r : ℕ) (cmd : ClientRegisterCommand)
  /-- packet `i` of the network reaches its target, where register `r` handles it -/
  | deliver (i : ℕ) (r : ℕ) (iter : IterOrder)
  | crash (p : UInt8)
  /-- process `p` starts again; `new` rebuilds its registers -/
  | recover (p : UInt8)
  /-- the command `new` returned for register `r` is handed to it; it is operation `k` -/
  | reissue (p : UInt8) (r : ℕ) (k : ℕ)

/-- A new operation enters the history. -/
def System.issue (s : System) (p : UInt8) (r : ℕ) (cmd : ClientRegisterCommand) : System :=
  { s with
    operations := Function.update s.operations s.count
      (some ⟨p, r, cmd, s.clock, none, none, false⟩)
    count := s.count + 1 }

/-- One more `client_command` call on register `r` of `p`. -/
def System.called (s : System) (p : UInt8) (r : ℕ) : System :=
  { s with calls := Function.update s.calls p (Function.update (s.calls p) r (s.calls p r + 1)) }

/-- The command `new` returned for register `r` of `p` is no longer pending. -/
def System.dispatched (s : System) (p : UInt8) (r : ℕ) : System :=
  { s with
    processes := Function.update s.processes p
      { s.processes p with pending := Function.update (s.processes p).pending r none } }

/-- A crash gives up the reads of a process: nothing durable remembers them. -/
def abortReads (p : UInt8) (operations : ℕ → Option Operation) : ℕ → Option Operation := fun k =>
  (operations k).map fun o =>
    if o.process = p ∧ o.finish = none ∧ o.cmd.content = .read then { o with aborted := true } else o

/-- What `new` makes of the stable storage of register `r`. -/
def restored (N : ℕ) (p : UInt8) (proc : Process) (r : ℕ) :
    Option (AtomicRegisterImplementation × Option ClientRegisterCommand) :=
  ((AtomicRegisterImplementation.new p N (proc.stable r)).run HandlerEnv.exec
    ⟨proc.files, proc.stable r, [], [], []⟩).map Prod.fst

/-- A process after a restart with `R` registers. -/
def Process.restart (N R : ℕ) (p : UInt8) (proc : Process) : Option Process :=
  if ∀ r < R, (restored N p proc r).isSome then some
    { proc with
      registers := fun r => ((restored N p proc r).map Prod.fst).getD (proc.registers r)
      pending := fun r => (restored N p proc r).bind Prod.snd
      up := true }
  else none

/-- One step of `N` processes with `R` registers each. -/
def System.step (N R : ℕ) (s : System) : Action → Option System
  | .invoke p r cmd =>
    if (s.processes p).up then
      ((s.issue p r cmd).called p r).handle N p r
        (((s.processes p).registers r).clientCommand cmd s.count)
    else none
  | .deliver i r iter =>
    match s.net[i]? with
    | none => none
    | some packet =>
      let p := UInt8.ofNat packet.target
      if p.toNat = packet.target ∧ (s.processes p).up then
        s.handle N p r (((s.processes p).registers r).systemCommand iter packet.cmd)
      else none
  | .crash p =>
    if (s.processes p).up then some
      { s with
        processes := Function.update s.processes p { s.processes p with up := false }
        operations := abortReads p s.operations
        clock := s.clock + 1 }
    else none
  | .recover p =>
    if (s.processes p).up then none
    else
      match (s.processes p).restart N R p with
      | none => none
      | some proc => some
        { s with
          processes := Function.update s.processes p proc
          clock := s.clock + 1
          restarts := s.restarts + 1 }
  | .reissue p r k =>
    match (s.processes p).pending r with
    | none => none
    | some cmd =>
      if (s.processes p).up then
        ((s.dispatched p r).called p r).handle N p r
          (((s.processes p).registers r).clientCommand cmd k)
      else none

/-- All processes up, on empty storage. -/
def System.init (N : ℕ) : System :=
  { processes := fun p => ⟨.empty, fun _ => freshRegister N p, fun _ => none, fun _ => none, true⟩
    net := []
    operations := fun _ => none
    count := 0
    calls := fun _ _ => 0
    clock := 0
    restarts := 0 }

/-- The identifiers in use. -/
abbrev IsProcess (N : ℕ) (p : UInt8) : Prop := 1 ≤ p.toNat ∧ p.toNat ≤ N

end Protocol
end AtomicDiscDrive
