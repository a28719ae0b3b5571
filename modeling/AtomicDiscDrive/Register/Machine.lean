import AtomicDiscDrive.AtomicRegisterTheorems
import AtomicDiscDrive.Utils.Contract
import AtomicDiscDrive.Utils.Runs

/-!
# One register and its stable storage

An `AtomicRegisterImplementation` on its own. Whoever calls it hands it client and system
commands, one at a time; its handlers run call by call, with whatever answers the sectors
manager gives, and a crash may come between any two calls. Then only the stable storage is
left, and the register is rebuilt by `new`. A `put` may fail, which is not noticed.

`Scheme` is the shape of an invariant of such a machine, with a contract of the handlers in
it; `Scheme.Sound.holds` is the rule by which it holds in every run.

`log` is the history, newest first. Everything the statements say about commands, phases
and callbacks is read off it; no step does so, except that a callback is the number of
client commands before it.
-/

namespace AtomicDiscDrive
namespace Register

open Utils

/-! ## History -/

inductive Event where
  | client (cmd : ClientRegisterCommand)
  | received (cmd : SystemRegisterCommand)
  | broadcast (cmd : SystemRegisterCommand)
  | completed (callback : Callback) (op : OperationComplete)
  | crashed

/-- The client commands, oldest first. The callback of a command is its place here. -/
def issued : List Event → List ClientRegisterCommand
  | [] => []
  | .client cmd :: log => issued log ++ [cmd]
  | _ :: log => issued log

/-- The callbacks that have been invoked. -/
def invoked : List Event → List Callback
  | [] => []
  | .completed callback _ :: log => callback :: invoked log
  | _ :: log => invoked log

/-- The command in progress: not completed, and not lost in a crash. -/
def inProgress : List Event → Option Callback
  | [] => none
  | .client _ :: log => some (issued log).length
  | .completed _ _ :: _ => none
  | .crashed :: _ => none
  | _ :: log => inProgress log

/-- The broadcasts, newest first. -/
def broadcasts : List Event → List SystemRegisterCommand
  | [] => []
  | .broadcast cmd :: log => cmd :: broadcasts log
  | _ :: log => broadcasts log

/-- The latest broadcast has been made since the last crash. -/
def live : List Event → Bool
  | [] => false
  | .broadcast _ :: _ => true
  | .crashed :: _ => false
  | _ :: log => live log

/-- The `read_ident` of the latest broadcast. -/
def phaseIdent (log : List Event) : Option UInt64 :=
  (broadcasts log).head?.map fun cmd => cmd.header.readIdent

/-- The processes that have acknowledged the latest broadcast. -/
def ackers : List Event → Finset UInt8
  | [] => ∅
  | .broadcast _ :: _ => ∅
  | .received cmd :: log =>
    if cmd.content = .ack ∧ phaseIdent log = some cmd.header.readIdent then
      insert cmd.header.processIdentifier (ackers log)
    else ackers log
  | _ :: log => ackers log

/-! ## Steps -/

/-- What a handler changes outside its register. -/
structure World where
  stored : Option AtomicRegisterStorageState
  log : List Event

/-- The answers to a call: those of the sectors manager, and whether a `put` is stored. -/
structure Answers where
  data : SectorVec
  metadata : UInt64 × UInt8
  written : Bool
  stored : Bool

/-- The answer to a call. A panic has none. -/
def Answers.to (answers : Answers) : (op : RegisterOp) → Option op.Answer
  | .put _ => some ()
  | .broadcast _ => some ()
  | .send _ _ => some ()
  | .readData _ => some answers.data
  | .readMetadata _ => some answers.metadata
  | .writeData _ _ => some answers.written
  | .writeMetadata _ _ _ => some answers.written
  | .operationComplete _ _ => some ()
  | .panic => none

/-- What a call changes. -/
def World.perform (world : World) (answers : Answers) : RegisterOp → World
  | .put state => if answers.stored then { world with stored := some state } else world
  | .broadcast cmd => { world with log := .broadcast cmd :: world.log }
  | .operationComplete callback op => { world with log := .completed callback op :: world.log }
  | _ => world

/-- What the register is doing. -/
inductive Phase where
  | idle (register : AtomicRegisterImplementation)
  | running (rest : RegisterProgram AtomicRegisterImplementation)
  | down
  | panicked

structure Machine where
  phase : Phase
  world : World

inductive Action where
  | client (cmd : ClientRegisterCommand)
  | system (iter : IterOrder) (cmd : SystemRegisterCommand)
  /-- the next call of the handler -/
  | call (answers : Answers)
  /-- the handler returns -/
  | finish
  | crash
  | recover

/-- Before the first `new`. -/
def Machine.fresh : Machine := ⟨.down, ⟨none, []⟩⟩

/-- One step of a register with identifier `selfIdent` among `processesCount` processes. -/
def Machine.step (selfIdent : UInt8) (processesCount : ℕ) (machine : Machine) :
    Action → Option Machine
  | .client cmd =>
    match machine.phase with
    | .idle register => some
      { phase := .running (register.clientCommand cmd (issued machine.world.log).length)
        world := { machine.world with log := .client cmd :: machine.world.log } }
    | _ => none
  | .system iter cmd =>
    match machine.phase with
    | .idle register => some
      { phase := .running (register.systemCommand iter cmd)
        world := { machine.world with log := .received cmd :: machine.world.log } }
    | _ => none
  | .call answers =>
    match machine.phase with
    | .running (.call op next) =>
      match answers.to op with
      | none => some { machine with phase := .panicked }
      | some x => some ⟨.running (next x), machine.world.perform answers op⟩
    | _ => none
  | .finish =>
    match machine.phase with
    | .running (.done register) => some { machine with phase := .idle register }
    | _ => none
  | .crash =>
    match machine.phase with
    | .down => none
    | _ => some
      { phase := .down, world := { machine.world with log := .crashed :: machine.world.log } }
  | .recover =>
    match machine.phase with
    | .down =>
      -- the command that `new` returns is the caller's business
      match AtomicRegisterImplementation.new selfIdent processesCount machine.world.stored with
      | .done (register, _) => some { machine with phase := .idle register }
      | .call _ _ => some { machine with phase := .panicked }
    | _ => none

/-! ## Invariants -/

/-- An invariant in parts: what holds of an idle register, what holds of the world at all
times, when a handler may make a call, and which answers it may rely on. -/
structure Scheme where
  settled : AtomicRegisterImplementation → World → Prop
  lasting : World → Prop
  ok : RegisterOp → World → Prop
  accepts : Answers → Prop

namespace Scheme

variable (scheme : Scheme)

/-- The contract of a handler: it leaves a settled register. -/
def contract : Contract registerSignature AtomicRegisterImplementation World where
  ok op world := scheme.ok op world
  after op x world world' := ∃ answers, scheme.accepts answers ∧ answers.to op = some x ∧
    world' = world.perform answers op ∧ scheme.lasting world'
  post register world := scheme.settled register world

/-- The invariant. -/
def Holds (machine : Machine) : Prop :=
  scheme.lasting machine.world ∧
    match machine.phase with
    | .idle register => scheme.settled register machine.world
    | .running rest => rest.Meets scheme.contract machine.world
    | .down => True
    | .panicked => scheme.ok .panic machine.world

/-- What has to be shown of a scheme. -/
structure Sound (selfIdent : UInt8) (processesCount : ℕ) (allowed : Machine → Action → Prop) :
    Prop where
  fresh : scheme.lasting ⟨none, []⟩
  accepts : ∀ machine answers, allowed machine (.call answers) → scheme.accepts answers
  perform : ∀ op world answers, scheme.lasting world → scheme.ok op world →
    scheme.accepts answers → scheme.lasting (world.perform answers op)
  crash : ∀ world, scheme.lasting world → scheme.lasting { world with log := .crashed :: world.log }
  recover : ∀ world register pending, scheme.lasting world →
    AtomicRegisterImplementation.new selfIdent processesCount world.stored =
      .done (register, pending) → scheme.settled register world
  recoverPanic : ∀ world op next, scheme.lasting world →
    AtomicRegisterImplementation.new selfIdent processesCount world.stored = .call op next →
      scheme.ok .panic world
  client : ∀ register world cmd, scheme.lasting world → scheme.settled register world →
    allowed ⟨.idle register, world⟩ (.client cmd) →
    scheme.lasting { world with log := .client cmd :: world.log } ∧
      (register.clientCommand cmd (issued world.log).length).Meets scheme.contract
        { world with log := .client cmd :: world.log }
  system : ∀ register world iter cmd, scheme.lasting world → scheme.settled register world →
    allowed ⟨.idle register, world⟩ (.system iter cmd) →
    scheme.lasting { world with log := .received cmd :: world.log } ∧
      (register.systemCommand iter cmd).Meets scheme.contract
        { world with log := .received cmd :: world.log }

variable {scheme} {selfIdent : UInt8} {processesCount : ℕ} {allowed : Machine → Action → Prop}

/-- One step. -/
theorem Sound.step (h : scheme.Sound selfIdent processesCount allowed) {machine machine' : Machine}
    {action : Action} (hinv : scheme.Holds machine) (hallowed : allowed machine action)
    (hstep : machine.step selfIdent processesCount action = some machine') :
    scheme.Holds machine' := by
  obtain ⟨phase, world⟩ := machine
  obtain ⟨hlasting, hphase⟩ := hinv
  cases action with
  | client cmd =>
    cases phase with
    | idle register =>
      cases hstep
      exact h.client register world cmd hlasting hphase hallowed
    | running rest => cases hstep
    | down => cases hstep
    | panicked => cases hstep
  | system iter cmd =>
    cases phase with
    | idle register =>
      cases hstep
      exact h.system register world iter cmd hlasting hphase hallowed
    | running rest => cases hstep
    | down => cases hstep
    | panicked => cases hstep
  | call answers =>
    cases phase with
    | idle register => cases hstep
    | running rest =>
      cases rest with
      | done register => cases hstep
      | call op next =>
        have hok : scheme.ok op world := hphase.ok
        dsimp only [Machine.step] at hstep
        cases hanswer : answers.to op with
        | none =>
          rw [hanswer] at hstep
          cases hstep
          -- only a panic is not answered
          cases op with
          | panic => exact ⟨hlasting, hok⟩
          | _ => cases hanswer
        | some x =>
          rw [hanswer] at hstep
          cases hstep
          have haccepts := h.accepts _ answers hallowed
          have hlasting' := h.perform op world answers hlasting hok haccepts
          exact ⟨hlasting', hphase.next ⟨answers, haccepts, hanswer, rfl, hlasting'⟩⟩
    | down => cases hstep
    | panicked => cases hstep
  | finish =>
    cases phase with
    | idle register => cases hstep
    | running rest =>
      cases rest with
      | done register =>
        cases hstep
        exact ⟨hlasting, hphase⟩
      | call op next => cases hstep
    | down => cases hstep
    | panicked => cases hstep
  | crash =>
    cases phase with
    | down => cases hstep
    | _ =>
      cases hstep
      exact ⟨h.crash world hlasting, trivial⟩
  | recover =>
    cases phase with
    | down =>
      dsimp only [Machine.step] at hstep
      cases hnew : AtomicRegisterImplementation.new selfIdent processesCount world.stored with
      | done result =>
        rw [hnew] at hstep
        cases hstep
        exact ⟨hlasting, h.recover world result.1 result.2 hlasting hnew⟩
      | call op next =>
        rw [hnew] at hstep
        cases hstep
        exact ⟨hlasting, h.recoverPanic world op next hlasting hnew⟩
    | idle register => cases hstep
    | running rest => cases hstep
    | panicked => cases hstep

/-- **The invariant rule.** A sound scheme holds in every state of every run. -/
theorem Sound.holds (h : scheme.Sound selfIdent processesCount allowed) {machine : Machine}
    (hreach : Reachable (Machine.step selfIdent processesCount) allowed .fresh machine) :
    scheme.Holds machine := by
  refine hreach.invariant scheme.Holds ⟨h.fresh, trivial⟩ ?_
  intro machine action machine' _ hinv hallowed hstep
  exact h.step hinv hallowed hstep

end Scheme

/-! ## Rebuilt registers -/

/-- `new` returns an idle register with the stored identifier, or the stored write has no
value. -/
theorem new_cases (selfIdent : UInt8) (processesCount : ℕ)
    (stored : Option AtomicRegisterStorageState) :
    (∃ register pending, AtomicRegisterImplementation.new selfIdent processesCount stored =
        .done (register, pending) ∧ register.processesCount = processesCount ∧
        register.reading = false ∧ register.state.writing = false ∧
        register.state.readIdent = (stored.getD .empty).readIdent) ∨
      AtomicRegisterImplementation.new selfIdent processesCount stored =
          .call RegisterOp.panic Empty.elim ∧
        (stored.getD .empty).writing = true ∧ (stored.getD .empty).writeval = none := by
  rw [AtomicRegisterImplementation.new]
  cases hwriting : (stored.getD .empty).writing with
  | false => exact Or.inl ⟨_, none, rfl, rfl, rfl, hwriting, rfl⟩
  | true =>
    cases hwriteval : (stored.getD .empty).writeval with
    | none =>
      refine Or.inr ⟨?_, rfl, rfl⟩
      rw [if_pos rfl, unwrap_none_bind]
    | some writeval => exact Or.inl ⟨_, _, rfl, rfl, rfl, rfl, rfl⟩

/-! ## Handlers that only answer -/

/-- Calls that change nothing but sectors. -/
def quiet : RegisterOp → Bool
  | .send _ _ | .readData _ | .readMetadata _ | .writeData _ _ | .writeMetadata _ _ _ => true
  | _ => false

theorem World.perform_of_quiet {op : RegisterOp} (h : quiet op = true) (world : World)
    (answers : Answers) : world.perform answers op = world := by
  cases op with
  | put state => cases h
  | broadcast cmd => cases h
  | operationComplete callback op => cases h
  | panic => cases h
  | _ => rfl

/-- The handler makes quiet calls only and leaves the register as it is. -/
inductive Quiet (register : AtomicRegisterImplementation) :
    RegisterProgram AtomicRegisterImplementation → Prop where
  | done : Quiet register (.done register)
  | call {op : RegisterOp} {next : op.Answer → RegisterProgram AtomicRegisterImplementation}
      (hquiet : quiet op = true) (hnext : ∀ x, Quiet register (next x)) :
      Quiet register (.call op next)

theorem quiet_handleReadProc (register : AtomicRegisterImplementation)
    (header : SystemCommandHeader) : Quiet register (register.handleReadProc header) :=
  .call rfl fun _ => .call rfl fun _ =>
    .call rfl fun _ => .done

theorem quiet_handleWriteProc (register : AtomicRegisterImplementation)
    (header : SystemCommandHeader) (timestamp : UInt64) (writeRank : UInt8) (data : SectorVec) :
    Quiet register (register.handleWriteProc header timestamp writeRank data) := by
  have hack : Quiet register (register.acknowledge header) :=
    .call rfl fun _ => .done
  refine .call rfl fun stored => ?_
  show Quiet register (if (⟨stored.1, stored.2⟩ : Tag) < ⟨timestamp, writeRank⟩
    then writeSector header.sectorIdx (data, timestamp, writeRank) >>= fun _ =>
      register.acknowledge header
    else register.acknowledge header)
  by_cases hlt : (⟨stored.1, stored.2⟩ : Tag) < ⟨timestamp, writeRank⟩
  · rw [if_pos hlt]
    refine .call rfl fun written => ?_
    -- whether the data file was replaced
    cases written with
    | false => exact hack
    | true => exact .call rfl fun _ => hack
  · rw [if_neg hlt]
    exact hack

/-- Such a handler meets the contract of a scheme that allows quiet calls. -/
theorem Quiet.meets {scheme : Scheme} (hok : ∀ op world, quiet op = true → scheme.ok op world)
    {register : AtomicRegisterImplementation}
    {rest : RegisterProgram AtomicRegisterImplementation} (h : Quiet register rest) {world : World}
    (hsettled : scheme.settled register world) : rest.Meets scheme.contract world := by
  induction h with
  | done => exact hsettled
  | @call op next hquiet hnext ih =>
    refine .call (hok op world hquiet) ?_
    rintro x _ ⟨answers, -, -, rfl, -⟩
    rw [World.perform_of_quiet hquiet]
    exact ih x

end Register
end AtomicDiscDrive
