import AtomicDiscDrive.AtomicRegisterTheorems
import AtomicDiscDrive.Executor.Process

/-!
# What a running handler will do

Seen from outside, a handler of a register is the list of the calls it has still to make
on its stable storage, as broadcasts and on its callback (`Bank.due`), and the register it
will leave (`Bank.final`). Both are fixed when the handler starts: `receive_outcome` is
the one place that looks into the handlers, and a call takes the first of the calls that
are due. The invariants of the executor are about `final` and `due` in place of the
programs.
-/

namespace AtomicDiscDrive
namespace Executor

open Utils AtomicRegisterImplementation

/-- Calls that matter beyond their answer. -/
def isVisible : RegisterOp → Bool
  | .put _ | .broadcast _ | .operationComplete _ _ => true
  | _ => false

/-- Some answer to every call but a panic. -/
def sampleAnswer : (op : RegisterOp) → Option op.Answer
  | .put _ => some ()
  | .broadcast _ => some ()
  | .send _ _ => some ()
  | .readData _ => some .new
  | .readMetadata _ => some (0, 0)
  | .writeData _ _ => some true
  | .writeMetadata _ _ _ => some true
  | .operationComplete _ _ => some ()
  | .panic => none

/-- The handler makes the visible calls `ops` and leaves `register`. -/
abbrev Foreseen (p : RegisterProgram AtomicRegisterImplementation) (ops : List RegisterOp)
    (register : AtomicRegisterImplementation) : Prop :=
  Program.Forecast (S := registerSignature) isVisible sampleAnswer p ops register

/-! ## The outcome of a handler -/

/-- What keeps the `unwrap`s of a register from failing. -/
structure Sound (register : AtomicRegisterImplementation) : Prop where
  readval : register.reading = true → register.readval ≠ none
  writeval : register.state.writing = true → register.state.writeval ≠ none

/-- The completion a register reports, if it has a callback. -/
def report (register : AtomicRegisterImplementation) (op : OperationComplete) :
    List RegisterOp :=
  register.callback.toList.map fun t => .operationComplete t op

/-- A register whose callback has been taken. -/
def withoutCallback (register : AtomicRegisterImplementation) : AtomicRegisterImplementation :=
  { register with callback := none }

/-- What the handler of a message will do, and the register it will leave. -/
inductive Outcome (register : AtomicRegisterImplementation) :
    WorkerMessage → List RegisterOp → AtomicRegisterImplementation → Prop where
  | client (cmd : ClientRegisterCommand) (t : Callback) :
      Outcome register (.client cmd t)
        [.put (register.startCommand cmd t).state,
          .broadcast ((register.startCommand cmd t).phaseMessage
            (.fromRequest cmd.header.requestIdentifier) cmd.header.sectorIdx .readProc)]
        (register.startCommand cmd t)
  /-- a request, or a reply to an earlier phase -/
  | quiet {cmd : SystemRegisterCommand} (o : Origin)
      (hquiet : Process.isRequest cmd = true ∨ cmd.header.readIdent ≠ register.state.readIdent) :
      Outcome register (.system cmd o) [] register
  | collected {header : SystemCommandHeader} (ts : UInt64) (wr : UInt8) (data : SectorVec)
      (o : Origin) (hid : header.readIdent = register.state.readIdent) :
      Outcome register (.system ⟨header, .value ts wr data⟩ o) []
        (register.collect header.processIdentifier (ts, wr, data))
  | read {header : SystemCommandHeader} {ts : UInt64} {wr : UInt8} {data : SectorVec} (o : Origin)
      {max : ReadlistEntry} {readval : DataWithRequestIdentifier}
      (hid : header.readIdent = register.state.readIdent) (hreading : register.reading = true)
      (hmax : max ∈ (register.readlist.insert header.processIdentifier (ts, wr, data)).entries)
      (hval : register.readval = some readval) :
      Outcome register (.system ⟨header, .value ts wr data⟩ o)
        [.put (register.chooseRead readval.requestIdentifier max.2.2.2).nextPhase.state,
          .broadcast ((register.chooseRead readval.requestIdentifier
            max.2.2.2).nextPhase.phaseMessage header.msgIdent header.sectorIdx
            (.writeProc max.2.1 max.2.2.1 max.2.2.2))]
        (register.chooseRead readval.requestIdentifier max.2.2.2).nextPhase
  | write {header : SystemCommandHeader} {ts : UInt64} {wr : UInt8} {data : SectorVec} (o : Origin)
      {max : ReadlistEntry} {writeval : DataWithHeader}
      (hid : header.readIdent = register.state.readIdent) (hreading : register.reading = false)
      (hwriting : register.state.writing = true)
      (hval : register.state.writeval = some writeval) :
      Outcome register (.system ⟨header, .value ts wr data⟩ o)
        [.put register.chooseWrite.nextPhase.state,
          .broadcast (register.chooseWrite.nextPhase.phaseMessage header.msgIdent
            header.sectorIdx (.writeProc (max.2.1 + 1) register.selfIdent writeval.data))]
        register.chooseWrite.nextPhase
  | counted {header : SystemCommandHeader} (o : Origin)
      (hid : header.readIdent = register.state.readIdent) :
      Outcome register (.system ⟨header, .ack⟩ o) [] (register.count header.processIdentifier)
  | readDone {header : SystemCommandHeader} (o : Origin) {readval : DataWithRequestIdentifier}
      (hid : header.readIdent = register.state.readIdent) (hreading : register.reading = true)
      (hval : register.readval = some readval) :
      Outcome register (.system ⟨header, .ack⟩ o)
        (report register ⟨.ok, readval.requestIdentifier, .read ⟨some readval.data⟩⟩)
        (withoutCallback register.endRead)
  | writeDone {header : SystemCommandHeader} (o : Origin) {writeval : DataWithHeader}
      (hid : header.readIdent = register.state.readIdent) (hreading : register.reading = false)
      (hwriting : register.state.writing = true)
      (hval : register.state.writeval = some writeval) :
      Outcome register (.system ⟨header, .ack⟩ o)
        (.put register.endWrite.state ::
          report register ⟨.ok, writeval.header.requestIdentifier, .write⟩)
        (withoutCallback register.endWrite)

theorem Outcome.final_client {register final : AtomicRegisterImplementation}
    {cmd : ClientRegisterCommand} {t : Callback} {ops : List RegisterOp}
    (h : Outcome register (.client cmd t) ops final) : final = register.startCommand cmd t := by
  cases h
  rfl

section

variable {register : AtomicRegisterImplementation} {header : SystemCommandHeader}

theorem foreseen_enterWritePhase (content : SystemRegisterCommandContent) :
    Foreseen (register.enterWritePhase header content)
      [.put register.nextPhase.state,
        .broadcast (register.nextPhase.phaseMessage header.msgIdent header.sectorIdx content)]
      register.nextPhase := by
  rw [enterWritePhase_eq]
  exact .call rfl (.inl rfl) fun _ => .call rfl (.inl rfl) fun _ => .done _

theorem foreseen_complete (requestIdentifier : UInt64) (opReturn : OperationReturn) :
    Foreseen (register.complete requestIdentifier opReturn)
      (report register ⟨.ok, requestIdentifier, opReturn⟩) (withoutCallback register) := by
  cases hcallback : register.callback with
  | none =>
    have hsame : withoutCallback register = register := by
      rw [withoutCallback, ← hcallback]
    rw [complete_none hcallback, report, hcallback, hsame]
    exact .done _
  | some t =>
    rw [complete_some hcallback, report, hcallback]
    exact .call rfl (.inl rfl) fun _ => .done _

theorem foreseen_readProc : Foreseen (register.handleReadProc header) [] register :=
  .call rfl (.inr rfl) fun _ => .call rfl (.inr rfl) fun _ => .call rfl (.inr rfl) fun _ => .done _

theorem foreseen_acknowledge : Foreseen (register.acknowledge header) [] register :=
  .call rfl (.inr rfl) fun _ => .done _

theorem foreseen_writeProc (ts : UInt64) (wr : UInt8) (data : SectorVec) :
    Foreseen (register.handleWriteProc header ts wr data) [] register := by
  refine .call rfl (.inr rfl) fun stored => ?_
  show Foreseen (if (⟨stored.1, stored.2⟩ : Tag) < ⟨ts, wr⟩
    then writeSector header.sectorIdx (data, ts, wr) >>= fun _ => register.acknowledge header
    else register.acknowledge header) [] register
  split
  · refine .call rfl (.inr rfl) fun written => ?_
    cases written with
    | false => exact foreseen_acknowledge
    | true => exact .call rfl (.inr rfl) fun _ => foreseen_acknowledge
  · exact foreseen_acknowledge

/-- **The outcome of a handler** is known when it starts. -/
theorem outcome_of_handler (iter : IterOrder) (hsound : Sound register) (msg : WorkerMessage) :
    ∃ ops final, Foreseen (Bank.handler iter register msg) ops final ∧
      Outcome register msg ops final := by
  cases msg with
  | client cmd t =>
    refine ⟨_, _, ?_, .client cmd t⟩
    exact .call rfl (.inl rfl) fun _ => .call rfl (.inl rfl) fun _ => .done _
  | system cmd o =>
    obtain ⟨header, content⟩ := cmd
    cases content with
    | readProc => exact ⟨_, _, foreseen_readProc, .quiet o (.inl rfl)⟩
    | writeProc ts wr data => exact ⟨_, _, foreseen_writeProc ts wr data, .quiet o (.inl rfl)⟩
    | value ts wr data =>
      show ∃ ops final, Foreseen (register.handleValue iter header (ts, wr, data)) ops final ∧ _
      have hcase := handleValue_cases iter register header (ts, wr, data)
      generalize register.handleValue iter header (ts, wr, data) = p at hcase ⊢
      cases hcase with
      | stale hid => exact ⟨_, _, .done _, .quiet o (.inr hid)⟩
      | collected hid hfew => exact ⟨_, _, .done _, .collected ts wr data o hid⟩
      | read hid hreading hquorum hmax hval =>
        exact ⟨_, _, foreseen_enterWritePhase _, .read o hid hreading (maxEntry_spec hmax).1 hval⟩
      | write hid hreading hwriting hquorum hmax hval =>
        exact ⟨_, _, foreseen_enterWritePhase _, .write o hid hreading hwriting hval⟩
      | panicRead hid hreading hval => exact absurd hval (hsound.readval hreading)
      | panicWrite hid hreading hwriting hval => exact absurd hval (hsound.writeval hwriting)
    | ack =>
      show ∃ ops final, Foreseen (register.handleAck header) ops final ∧ _
      have hcase := handleAck_cases register header
      generalize register.handleAck header = p at hcase ⊢
      cases hcase with
      | stale hid => exact ⟨_, _, .done _, .quiet o (.inr hid)⟩
      | counted hid hfew => exact ⟨_, _, .done _, .counted o hid⟩
      | read hid hreading hquorum hval =>
        exact ⟨_, _, foreseen_complete _ _, .readDone o hid hreading hval⟩
      | write hid hreading hwriting hquorum hval =>
        exact ⟨_, _, .call rfl (.inl rfl) fun _ => foreseen_complete _ _,
          .writeDone o hid hreading hwriting hval⟩
      | panicRead hid hreading hval => exact absurd hval (hsound.readval hreading)
      | panicWrite hid hreading hwriting hval => exact absurd hval (hsound.writeval hwriting)

end

/-! ## Running handlers -/

namespace Bank

/-- The visible calls the handler of register `i` has still to make. -/
def due (b : Bank) (i : ℕ) : List RegisterOp :=
  match b.workers i with
  | .running _ rest => Program.due (S := registerSignature) isVisible sampleAnswer rest
  | _ => []

/-- Register `i` as its handler will leave it. -/
def final (b : Bank) (i : ℕ) : AtomicRegisterImplementation :=
  match b.workers i with
  | .running _ rest =>
    (Program.final (S := registerSignature) sampleAnswer rest).getD (b.registers i)
  | _ => b.registers i

/-- The handler of register `i`, if one is running, does what `due` and `final` say. -/
def Steady (b : Bank) (i : ℕ) : Prop :=
  ∀ msg rest, b.workers i = .running msg rest → Foreseen rest (b.due i) (b.final i)

/-- No handler of register `i` is running. -/
def Resting (b : Bank) (i : ℕ) : Prop := ∀ msg rest, b.workers i ≠ .running msg rest

/-- The two banks agree on register `i`. -/
structure SameAt (b b' : Bank) (i : ℕ) : Prop where
  workers : b'.workers i = b.workers i
  registers : b'.registers i = b.registers i
  mailboxes : b'.mailboxes i = b.mailboxes i
  stable : b'.stable i = b.stable i
  storedBy : b'.storedBy i = b.storedBy i
  valueFrom : b'.valueFrom i = b.valueFrom i
  ackFrom : b'.ackFrom i = b.ackFrom i

variable {b b' : Bank} {i : ℕ}

theorem SameAt.due (h : SameAt b b' i) : b'.due i = b.due i := by
  unfold Bank.due
  rw [h.workers]

theorem SameAt.final (h : SameAt b b' i) : b'.final i = b.final i := by
  unfold Bank.final
  rw [h.workers, h.registers]

theorem SameAt.inHand (h : SameAt b b' i) : b'.inHand i = b.inHand i := by
  unfold Bank.inHand
  rw [h.workers, h.registers]

theorem SameAt.steady (h : SameAt b b' i) (hs : b.Steady i) : b'.Steady i := by
  intro msg rest hw
  rw [h.due, h.final]
  exact hs msg rest (h.workers ▸ hw)

theorem due_running {msg : WorkerMessage} {rest : RegisterProgram AtomicRegisterImplementation}
    {ops : List RegisterOp} {final : AtomicRegisterImplementation}
    (hw : b.workers i = .running msg rest) (h : Foreseen rest ops final) : b.due i = ops := by
  unfold due
  rw [hw]
  exact h.due

theorem final_running {msg : WorkerMessage} {rest : RegisterProgram AtomicRegisterImplementation}
    {ops : List RegisterOp} {final : AtomicRegisterImplementation}
    (hw : b.workers i = .running msg rest) (h : Foreseen rest ops final) : b.final i = final := by
  have hfinal := h.final
  unfold Bank.final
  rw [hw]
  show (Program.final (S := registerSignature) sampleAnswer rest).getD (b.registers i) = final
  rw [hfinal, Option.getD_some]

theorem steady_running {msg : WorkerMessage} {rest : RegisterProgram AtomicRegisterImplementation}
    {ops : List RegisterOp} {final : AtomicRegisterImplementation}
    (hw : b.workers i = .running msg rest) (h : Foreseen rest ops final) : b.Steady i := by
  intro msg' rest' hw'
  rw [hw] at hw'
  cases hw'
  rw [due_running hw h, final_running hw h]
  exact h

theorem Resting.due (h : b.Resting i) : b.due i = [] := by
  unfold Bank.due
  split
  · rename_i msg rest hw
    exact absurd hw (h msg rest)
  · rfl

theorem Resting.final (h : b.Resting i) : b.final i = b.registers i := by
  unfold Bank.final
  split
  · rename_i msg rest hw
    exact absurd hw (h msg rest)
  · rfl

theorem Resting.inHand (h : b.Resting i) : b.inHand i = (b.registers i).callback := by
  unfold Bank.inHand
  split
  · rename_i cmd t rest hw
    exact absurd hw (h _ _)
  · rfl

theorem Resting.steady (h : b.Resting i) : b.Steady i := fun msg rest hw => absurd hw (h msg rest)

theorem resting_of_eq {w : Worker} (hw : b.workers i = w) (h : w = .ready ∨ w = .waiting) :
    b.Resting i := by
  intro msg rest hrun
  rw [hw] at hrun
  rcases h with rfl | rfl <;> cases hrun

theorem inHand_running_system {cmd : SystemRegisterCommand} {o : Origin}
    {rest : RegisterProgram AtomicRegisterImplementation}
    (hw : b.workers i = .running (.system cmd o) rest) :
    b.inHand i = (b.registers i).callback := by
  unfold inHand
  rw [hw]

theorem inHand_running_client {cmd : ClientRegisterCommand} {t : Callback}
    {rest : RegisterProgram AtomicRegisterImplementation}
    (hw : b.workers i = .running (.client cmd t) rest) : b.inHand i = some t := by
  unfold inHand
  rw [hw]

/-! ### The steps of a thread -/

/-- `b'` is `b` after register `i` has started to handle `msg`. -/
structure Receives (b b' : Bank) (i : ℕ) (msg : WorkerMessage) (mailbox : List WorkerMessage) :
    Prop where
  waiting : b.workers i = .waiting
  first : b.mailboxes i = msg :: mailbox
  mailbox : b'.mailboxes i = mailbox
  running : ∃ rest, b'.workers i = .running msg rest
  registers : b'.registers = b.registers
  stable : b'.stable = b.stable
  storedBy : b'.storedBy = b.storedBy
  outbox : b'.outbox = b.outbox
  stored : b'.stored = b.stored
  fired : b'.fired = b.fired
  files : b'.files = b.files
  valueFrom : b'.valueFrom = b.valueFrom
  ackFrom : b'.ackFrom = b.ackFrom
  started : b'.started = match msg with
    | .client _ t => b.started ++ [(t, (b.registers i).callback)]
    | .system _ _ => b.started
  others : ∀ j ≠ i, SameAt b b' j

/-- **`recv`.** The register starts to handle the first message of its mailbox, and what
will come of it is known. -/
theorem receive_cases {iter : IterOrder} (h : b.receive i iter = some b')
    (hsound : Sound (b.registers i)) :
    ∃ msg mailbox, Receives b b' i msg mailbox ∧ b'.Steady i ∧
      Outcome (b.registers i) msg (b'.due i) (b'.final i) := by
  unfold receive at h
  split at h
  · rename_i msg mailbox hwaiting hfirst
    cases h
    obtain ⟨ops, final, hforeseen, houtcome⟩ := outcome_of_handler iter hsound msg
    have hw : Function.update b.workers i (.running msg (handler iter (b.registers i) msg)) i =
        .running msg (handler iter (b.registers i) msg) := Function.update_self ..
    refine ⟨msg, mailbox, ?_, steady_running hw hforeseen, ?_⟩
    · refine ⟨hwaiting, hfirst, Function.update_self .., ⟨_, hw⟩, rfl, rfl, rfl, rfl, rfl, rfl,
        rfl, rfl, rfl, ?_, fun j hj => ?_⟩
      · cases msg <;> rfl
      · exact ⟨Function.update_of_ne hj .., rfl, Function.update_of_ne hj .., rfl, rfl, rfl, rfl⟩
    · rw [due_running hw hforeseen, final_running hw hforeseen]
      exact houtcome
  · cases h

/-- `b'` is `b` after the handler of `msg` in register `i` has made a call: what does not
depend on the call. -/
structure Works (b b' : Bank) (i : ℕ) (msg : WorkerMessage) : Prop where
  before : ∃ rest, b.workers i = .running msg rest
  running : ∃ rest, b'.workers i = .running msg rest
  steady : b'.Steady i
  final : b'.final i = b.final i
  mailboxes : b'.mailboxes = b.mailboxes
  started : b'.started = b.started
  valueFrom : b'.valueFrom = b.valueFrom
  ackFrom : b'.ackFrom = b.ackFrom
  others : ∀ j ≠ i, SameAt b b' j

/-- Registers, stable storage and completions are the same in both banks. -/
structure Keeps (b b' : Bank) : Prop where
  registers : b'.registers = b.registers
  stable : b'.stable = b.stable
  storedBy : b'.storedBy = b.storedBy
  stored : b'.stored = b.stored
  fired : b'.fired = b.fired

theorem keeps_after {msg : WorkerMessage} {op : RegisterOp} (hop : isVisible op = false)
    (files : SectorFiles) (rest : RegisterProgram AtomicRegisterImplementation) :
    Keeps b (b.after i msg op files rest) := by
  cases op <;> first | exact ⟨rfl, rfl, rfl, rfl, rfl⟩ | exact Bool.noConfusion hop

/-- The steps of a handler of register `i`: the first of the visible calls that are due, or
another call, or the return. -/
inductive Acts (b : Bank) (i : ℕ) : Bank → Prop where
  | silent {msg : WorkerMessage} {op : RegisterOp} {x : op.Answer} {files : SectorFiles}
      {next : op.Answer → RegisterProgram AtomicRegisterImplementation}
      (hw : b.workers i = .running msg (.call op next))
      (hx : answer b.files op = some (x, files)) (hop : isVisible op = false)
      (hworks : Works b (b.after i msg op files (next x)) i msg)
      (hkeeps : Keeps b (b.after i msg op files (next x)))
      (hdue : (b.after i msg op files (next x)).due i = b.due i) :
      Acts b i (b.after i msg op files (next x))
  | put {msg : WorkerMessage} {state : AtomicRegisterStorageState}
      {rest : RegisterProgram AtomicRegisterImplementation}
      (hworks : Works b (b.after i msg (.put state) b.files rest) i msg)
      (hdue : b.due i = .put state :: (b.after i msg (.put state) b.files rest).due i) :
      Acts b i (b.after i msg (.put state) b.files rest)
  | broadcast {msg : WorkerMessage} {cmd : SystemRegisterCommand}
      {rest : RegisterProgram AtomicRegisterImplementation}
      (hworks : Works b (b.after i msg (.broadcast cmd) b.files rest) i msg)
      (hdue : b.due i = .broadcast cmd :: (b.after i msg (.broadcast cmd) b.files rest).due i) :
      Acts b i (b.after i msg (.broadcast cmd) b.files rest)
  | complete {msg : WorkerMessage} {t : Callback} {op : OperationComplete}
      {rest : RegisterProgram AtomicRegisterImplementation}
      (hworks : Works b (b.after i msg (.operationComplete t op) b.files rest) i msg)
      (hdue : b.due i =
        .operationComplete t op :: (b.after i msg (.operationComplete t op) b.files rest).due i) :
      Acts b i (b.after i msg (.operationComplete t op) b.files rest)
  | returned {msg : WorkerMessage} {register : AtomicRegisterImplementation}
      (hw : b.workers i = .running msg (.done register)) (hdue : b.due i = [])
      (hfinal : b.final i = register) :
      Acts b i (b.returned i msg register)

theorem works_after {msg : WorkerMessage} {op : RegisterOp}
    {next : op.Answer → RegisterProgram AtomicRegisterImplementation} (hsteady : b.Steady i)
    (hw : b.workers i = .running msg (.call op next)) (x : op.Answer) (files : SectorFiles) :
    Works b (b.after i msg op files (next x)) i msg ∧
      b.due i = (if isVisible op then [op] else []) ++
        (b.after i msg op files (next x)).due i := by
  obtain ⟨ops, hops, hnext⟩ := (hsteady _ _ hw).next x
  have hw' : (b.after i msg op files (next x)).workers i = .running msg (next x) :=
    Function.update_self ..
  refine ⟨⟨⟨_, hw⟩, ⟨_, hw'⟩, steady_running hw' hnext, final_running hw' hnext, rfl, rfl, rfl,
    rfl, fun j hj => ?_⟩, ?_⟩
  · -- the fields of the other registers are updated at `i` only
    refine ⟨Function.update_of_ne hj .., ?_, rfl, ?_, ?_, rfl, rfl⟩
    · cases op <;> first | rfl | exact Function.update_of_ne hj ..
    · cases op <;> first | rfl | exact Function.update_of_ne hj ..
    · unfold after
      dsimp only
      split
      · exact Function.update_of_ne hj ..
      · rfl
  · rw [due_running hw' hnext]
    exact hops

/-- **What a handler does next.** -/
theorem call_cases (h : b.call i = some b') (hsteady : b.Steady i) : Acts b i b' := by
  unfold call at h
  split at h
  · rename_i msg register hw
    cases h
    exact .returned hw (due_running hw (.done _)) (final_running hw (.done _))
  · rename_i msg op next hw
    split at h
    · cases h
    · rename_i x files hx
      cases h
      obtain ⟨hworks, hdue⟩ := works_after hsteady hw x files
      cases op with
      | put state => cases hx; exact .put hworks hdue
      | broadcast cmd => cases hx; exact .broadcast hworks hdue
      | operationComplete t op => cases hx; exact .complete hworks hdue
      | panic => cases hx
      | _ => exact .silent hw hx rfl hworks (keeps_after rfl _ _) hdue.symm
  · cases h

theorem Acts.others (h : Acts b i b') (j : ℕ) (hj : j ≠ i) :
    SameAt b b' j := by
  cases h with
  | silent _ _ _ hworks _ _ => exact hworks.others j hj
  | put hworks _ => exact hworks.others j hj
  | broadcast hworks _ => exact hworks.others j hj
  | complete hworks _ => exact hworks.others j hj
  | @returned msg register _ _ _ =>
    refine ⟨Function.update_of_ne hj .., Function.update_of_ne hj .., rfl, rfl, rfl, ?_, ?_⟩
    · unfold Bank.returned
      dsimp only
      split
      · split
        · exact Function.update_of_ne hj ..
        · rfl
      · rfl
    · unfold Bank.returned
      dsimp only
      split
      · split
        · exact Function.update_of_ne hj ..
        · rfl
      · rfl

theorem Acts.mailboxes (h : Acts b i b') :
    b'.mailboxes = b.mailboxes := by
  cases h <;> rfl

theorem Acts.started (h : Acts b i b') :
    b'.started = b.started := by
  cases h <;> rfl

/-- Completions are only added. -/
theorem Acts.fired_subset (h : Acts b i b')
    {f : Callback × OperationComplete} (hf : f ∈ b.fired) : f ∈ b'.fired := by
  cases h with
  | silent _ _ _ _ hkeeps _ =>
    rw [hkeeps.fired]
    exact hf
  | complete _ _ => exact List.mem_append_left _ hf
  | _ => exact hf

theorem Acts.outbox_subset (h : Acts b i b') {out : Output}
    (hout : out ∈ b.outbox) : out ∈ b'.outbox := by
  cases h with
  | @silent msg op x files next hw hx hop hworks hkeeps hdue =>
    unfold Bank.after
    dsimp only
    split
    · exact List.mem_append_left _ hout
    · exact List.mem_append_left _ hout
    · exact hout
  | broadcast _ _ => exact List.mem_append_left _ hout
  | _ => exact hout

/-- What the outbox gains in a step of a handler on behalf of a call: the broadcast that was
due. -/
theorem Acts.outbox_cases (h : Acts b i b') {out : Output}
    (hout : out ∈ b'.outbox) :
    out ∈ b.outbox ∨ out.call = none ∨
      .broadcast out.cmd ∈ b.due i ∧ out.call = b.inHand i ∧ out.target = none := by
  cases h with
  | @silent msg op x files next hw hx hop hworks hkeeps hdue =>
    unfold Bank.after at hout
    dsimp only at hout
    split at hout
    · cases hop
    · rw [List.mem_append, List.mem_singleton] at hout
      rcases hout with hout | rfl
      · exact .inl hout
      · exact .inr (.inl rfl)
    · exact .inl hout
  | broadcast _ hdue =>
    rcases List.mem_append.mp hout with hout | hout
    · exact .inl hout
    · rw [List.mem_singleton.mp hout, hdue]
      exact .inr (.inr ⟨List.mem_cons_self, rfl, rfl⟩)
  | _ => exact .inl hout

/-- What is due after a step of a handler was due before. -/
theorem Acts.due_subset (h : Acts b i b') {op : RegisterOp}
    (hop : op ∈ b'.due i) : op ∈ b.due i := by
  cases h with
  | silent _ _ _ _ _ hdue => exact hdue ▸ hop
  | put _ hdue => rw [hdue]; exact List.mem_cons_of_mem _ hop
  | broadcast _ hdue => rw [hdue]; exact List.mem_cons_of_mem _ hop
  | complete _ hdue => rw [hdue]; exact List.mem_cons_of_mem _ hop
  | @returned msg register hw hdue hfinal =>
    have hw' : (b.returned i msg register).workers i = .ready := Function.update_self ..
    rw [(resting_of_eq hw' (.inl rfl)).due] at hop
    cases hop

theorem Acts.fired_cases (h : Acts b i b')
    {f : Callback × OperationComplete} (hf : f ∈ b'.fired) :
    f ∈ b.fired ∨ .operationComplete f.1 f.2 ∈ b.due i := by
  cases h with
  | silent _ _ _ _ hkeeps _ =>
    rw [hkeeps.fired] at hf
    exact .inl hf
  | complete _ hdue =>
    rcases List.mem_append.mp hf with hf | hf
    · exact .inl hf
    · rw [List.mem_singleton.mp hf, hdue]
      exact .inr List.mem_cons_self
  | _ => exact .inl hf

theorem due_of_ready (hw : b.workers i = .ready) : b.due i = [] :=
  (resting_of_eq hw (.inl rfl)).due

end Bank

end Executor
end AtomicDiscDrive
