import AtomicDiscDrive.Executor.Events

/-!
# One client command at a time

As long as client commands receive the indices of free registers only
(`Process.TakesFree`), every register has at most one client command at any time: its index
is in the hands of a call of `execute_client_command`, or the `Client` message is in its
mailbox, or its handler has started (`Slot`). And a register does what the command it has
in hand asks for, and nothing else (`Mode`).
-/

namespace AtomicDiscDrive
namespace Executor

open Utils AtomicRegisterImplementation

/-! ## What a register is at -/

/-- No operation in progress. -/
structure Idle (register : AtomicRegisterImplementation) : Prop where
  callback : register.callback = none
  reading : register.reading = false
  writing : register.state.writing = false

/-- The operation of call `t` is in progress, and no other. -/
structure Serves (register : AtomicRegisterImplementation) (t : Callback)
    (cmd : ClientRegisterCommand) : Prop where
  callback : register.callback = some t
  read : cmd.content = .read → register.reading = true ∧ register.state.writing = false ∧
    ∃ readval, register.readval = some readval ∧
      readval.requestIdentifier = cmd.header.requestIdentifier
  write : ∀ data, cmd.content = .write data → register.reading = false ∧
    register.state.writing = true ∧ register.state.writeval = some ⟨cmd.header, data⟩

/-- The answer to a command says which command it was. -/
structure AnswerTo (cmd : ClientRegisterCommand) (op : OperationComplete) : Prop where
  status : op.statusCode = .ok
  requestIdentifier : op.requestIdentifier = cmd.header.requestIdentifier
  read : cmd.content = .read → ∃ data, op.opReturn = .read ⟨some data⟩
  write : ∀ data, cmd.content = .write data → op.opReturn = .write

/-- A register as its handler will leave it, the visible calls that are due before that, and
the call in hand. -/
inductive Mode (calls : List Call) (register : AtomicRegisterImplementation) :
    List RegisterOp → Option Callback → Prop where
  | idle (h : Idle register) : Mode calls register [] none
  /-- a phase has begun; its identifier may still have to be stored and broadcast -/
  | serving {t : Callback} {call : Call} {ops : List RegisterOp}
      (hcall : calls[t]? = some call) (h : Serves register t call.cmd)
      (hops : ops = [] ∨ ∃ cmd, ops = [.broadcast cmd] ∨
        ops = [.put register.state, .broadcast cmd]) :
      Mode calls register ops (some t)
  /-- a majority has acknowledged -/
  | completing {t : Callback} {call : Call} {op : OperationComplete} {ops : List RegisterOp}
      (hcall : calls[t]? = some call) (h : Idle register) (hop : AnswerTo call.cmd op)
      (hops : ops = [.operationComplete t op] ∨
        call.cmd.content ≠ .read ∧ ops = [.put register.state, .operationComplete t op]) :
      Mode calls register ops (some t)

section

variable {calls : List Call} {register final : AtomicRegisterImplementation}
  {ops : List RegisterOp} {hand : Option Callback} {t : Callback} {cmd : ClientRegisterCommand}

theorem Idle.sound (h : Idle register) : Sound register :=
  ⟨fun hr => absurd (h.reading.symm.trans hr) Bool.noConfusion,
    fun hw => absurd (h.writing.symm.trans hw) Bool.noConfusion⟩

theorem Serves.sound (h : Serves register t cmd) : Sound register := by
  cases hcontent : cmd.content with
  | read =>
    obtain ⟨hreading, hwriting, readval, hval, _⟩ := h.read hcontent
    refine ⟨fun _ hnone => ?_, fun hw => absurd (hwriting.symm.trans hw) Bool.noConfusion⟩
    rw [hval] at hnone
    cases hnone
  | write data =>
    obtain ⟨hreading, hwriting, hval⟩ := h.write data hcontent
    refine ⟨fun hr => absurd (hreading.symm.trans hr) Bool.noConfusion, fun _ hnone => ?_⟩
    rw [hval] at hnone
    cases hnone

theorem Mode.sound (h : Mode calls register ops hand) : Sound register := by
  cases h with
  | idle h => exact h.sound
  | serving _ h _ => exact h.sound
  | completing _ h _ _ => exact h.sound

/-- Calls are only added. -/
theorem Mode.mono {calls' : List Call} (hcalls : ∀ (t : ℕ) call, calls[t]? = some call →
    calls'[t]? = some call) (h : Mode calls register ops hand) :
    Mode calls' register ops hand := by
  cases h with
  | idle h => exact .idle h
  | serving hcall h hops => exact .serving (hcalls _ _ hcall) h hops
  | completing hcall h hop hops => exact .completing (hcalls _ _ hcall) h hop hops

/-- With nothing due, the call in hand is the one whose callback the register will keep. -/
theorem Mode.hand_of_nil (h : Mode calls register [] hand) : register.callback = hand := by
  cases h with
  | idle h => exact h.callback
  | serving _ h _ => exact h.callback
  | completing _ _ _ hops => simp at hops

theorem serves_startCommand (h : Idle register) (cmd : ClientRegisterCommand) (t : Callback) :
    Serves (register.startCommand cmd t) t cmd := by
  obtain ⟨header, content⟩ := cmd
  cases content with
  | read =>
    exact ⟨rfl, fun _ => ⟨rfl, h.writing, _, rfl, rfl⟩,
      fun _ h => ClientRegisterCommandContent.noConfusion h⟩
  | write data =>
    refine ⟨rfl, fun h => ClientRegisterCommandContent.noConfusion h, fun d hd => ?_⟩
    cases hd
    exact ⟨h.reading, rfl, rfl⟩

/-- **A client command starts** on an idle register. -/
theorem Mode.start {call : Call} (h : Idle register) (hcall : calls[t]? = some call)
    (hout : Outcome register (.client call.cmd t) ops final) :
    Mode calls final ops (some t) := by
  cases hout
  exact .serving hcall (serves_startCommand h _ _) (.inr ⟨_, .inr rfl⟩)

/-- An idle register at most collects late replies. -/
theorem Mode.system_idle {cmd : SystemRegisterCommand} {o : Origin} (h : Idle register)
    (hout : Outcome register (.system cmd o) ops final) : Mode calls final ops none := by
  have hreading : ∀ {b : Bool}, register.reading = b → b = true → False := fun hb ht =>
    Bool.noConfusion ((h.reading.symm.trans hb).trans ht)
  cases hout with
  | quiet o _ => exact .idle h
  | collected ts wr data o hid => exact .idle ⟨h.callback, h.reading, h.writing⟩
  | counted o hid => exact .idle ⟨h.callback, h.reading, h.writing⟩
  | read o _ hr _ _ => exact (hreading hr rfl).elim
  | readDone o _ hr _ => exact (hreading hr rfl).elim
  | write o _ _ hw _ => exact absurd (h.writing.symm.trans hw) Bool.noConfusion
  | writeDone o _ _ hw _ => exact absurd (h.writing.symm.trans hw) Bool.noConfusion

/-- A serving register collects, enters its next phase, or completes. -/
theorem Mode.system_serving {cmd : SystemRegisterCommand} {o : Origin} {call : Call}
    (hcall : calls[t]? = some call) (h : Serves register t call.cmd)
    (hout : Outcome register (.system cmd o) ops final) : Mode calls final ops (some t) := by
  have hreport : ∀ op, report register op = [.operationComplete t op] := fun op => by
    rw [report, h.callback]
    rfl
  cases hout with
  | quiet o _ => exact .serving hcall h (.inl rfl)
  | collected ts wr data o hid => exact .serving hcall ⟨h.callback, h.read, h.write⟩ (.inl rfl)
  | counted o hid => exact .serving hcall ⟨h.callback, h.read, h.write⟩ (.inl rfl)
  | @read _ _ _ _ _ max readval hid hreading hmax hval =>
    refine .serving hcall ⟨h.callback, fun hr => ?_, fun d hd => ?_⟩ (.inr ⟨_, .inr rfl⟩)
    · obtain ⟨_, hwriting, readval', hval', hrid⟩ := h.read hr
      rw [hval] at hval'
      cases hval'
      exact ⟨hreading, hwriting, _, rfl, hrid⟩
    · exact absurd ((h.write d hd).1.symm.trans hreading) Bool.noConfusion
  | @write _ _ _ _ _ max writeval hid hreading hwriting hval =>
    refine .serving hcall ⟨h.callback, fun hr => ?_, fun d hd => ?_⟩ (.inr ⟨_, .inr rfl⟩)
    · exact absurd ((h.read hr).1.symm.trans hreading) Bool.noConfusion
    · exact ⟨hreading, hwriting, (h.write d hd).2.2⟩
  -- the register is reading, so its command is a read, and the other way round below
  | @readDone _ _ readval hid hreading hval =>
    rw [hreport]
    have hread : call.cmd.content = .read := by
      cases hcontent : call.cmd.content with
      | read => rfl
      | write d => exact absurd ((h.write d hcontent).1.symm.trans hreading) Bool.noConfusion
    obtain ⟨_, hwriting, readval', hval', hrid⟩ := h.read hread
    rw [hval] at hval'
    cases hval'
    refine .completing hcall ⟨rfl, rfl, hwriting⟩ ⟨rfl, hrid, fun _ => ⟨_, rfl⟩, fun d hd => ?_⟩
      (.inl rfl)
    rw [hread] at hd
    cases hd
  | @writeDone _ _ writeval hid hreading hwriting hval =>
    rw [hreport]
    have hne : call.cmd.content ≠ .read := fun hr =>
      absurd ((h.read hr).1.symm.trans hreading) Bool.noConfusion
    have hrid : writeval.header = call.cmd.header := by
      cases hcontent : call.cmd.content with
      | read => exact absurd hcontent hne
      | write d =>
        have := (h.write d hcontent).2.2
        rw [hval] at this
        cases this
        rfl
    exact .completing hcall ⟨rfl, hreading, rfl⟩
      ⟨rfl, by rw [hrid], fun hr => absurd hr hne, fun _ _ => rfl⟩ (.inr ⟨hne, rfl⟩)

/-- **A system command** leaves the command in hand where it is. -/
theorem Mode.system {cmd : SystemRegisterCommand} {o : Origin} (h : Mode calls register [] hand)
    (hout : Outcome register (.system cmd o) ops final) : Mode calls final ops hand := by
  cases h with
  | idle h => exact .system_idle h hout
  | serving hcall h _ => exact .system_serving hcall h hout
  | completing _ _ _ hops => simp at hops

/-- The state that is due to be stored is the one the handler will leave. -/
theorem Mode.put {state : AtomicRegisterStorageState}
    (h : Mode calls register (.put state :: ops) hand) :
    state = register.state ∧ Mode calls register ops hand := by
  cases h with
  | serving hcall h hops =>
    simp only [List.cons.injEq, RegisterOp.put.injEq, reduceCtorEq, false_or, false_and,
      exists_and_left] at hops
    obtain ⟨rfl, cmd, rfl⟩ := hops
    exact ⟨rfl, .serving hcall h (.inr ⟨cmd, .inl rfl⟩)⟩
  | completing hcall h hop hops =>
    simp only [List.cons.injEq, RegisterOp.put.injEq, reduceCtorEq, false_or, false_and] at hops
    obtain ⟨_, rfl, rfl⟩ := hops
    exact ⟨rfl, .completing hcall h hop (.inl rfl)⟩

/-- One state is stored in a handler. -/
theorem Mode.put_once {state state' : AtomicRegisterStorageState}
    (h : Mode calls register (.put state :: ops) hand) : .put state' ∉ ops := by
  cases h with
  | serving _ _ hops =>
    rcases hops with h | ⟨cmd, h | h⟩
    · cases h
    · cases h
    · cases h
      simp
  | completing _ _ _ hops =>
    rcases hops with h | ⟨_, h⟩
    · cases h
    · cases h
      simp

theorem Mode.broadcast {msg : SystemRegisterCommand}
    (h : Mode calls register (.broadcast msg :: ops) hand) :
    ops = [] ∧ Mode calls register ops hand := by
  cases h with
  | serving hcall h hops =>
    simp only [List.cons.injEq, RegisterOp.broadcast.injEq, reduceCtorEq, false_or, false_and,
      or_false] at hops
    obtain ⟨cmd, _, rfl⟩ := hops
    exact ⟨rfl, .serving hcall h (.inl rfl)⟩
  | completing hcall h hop hops => simp at hops

/-- A callback that is due is the one in hand. -/
theorem Mode.of_mem_complete {op : OperationComplete} (h : Mode calls register ops hand)
    (hmem : .operationComplete t op ∈ ops) :
    hand = some t ∧ ∃ call, calls[t]? = some call ∧ AnswerTo call.cmd op := by
  cases h with
  | idle _ => cases hmem
  | serving _ _ hops =>
    rcases hops with rfl | ⟨cmd, rfl | rfl⟩ <;> simp at hmem
  | completing hcall _ hop hops =>
    rcases hops with rfl | ⟨_, rfl⟩
    all_goals
      simp only [List.mem_cons, reduceCtorEq, RegisterOp.operationComplete.injEq, List.not_mem_nil,
        or_false, false_or] at hmem
      obtain ⟨rfl, rfl⟩ := hmem
      exact ⟨rfl, _, hcall, hop⟩

theorem Mode.known (h : Mode calls register ops (some t)) : ∃ call, calls[t]? = some call := by
  cases h with
  | serving hcall _ _ => exact ⟨_, hcall⟩
  | completing hcall _ _ _ => exact ⟨_, hcall⟩

/-- The callback that is due is the one in hand, and the register is idle then. -/
theorem Mode.complete {op : OperationComplete}
    (h : Mode calls register (.operationComplete t op :: ops) hand) :
    hand = some t ∧ ops = [] ∧ Idle register ∧
      ∃ call, calls[t]? = some call ∧ AnswerTo call.cmd op := by
  cases h with
  | serving hcall h hops => simp at hops
  | completing hcall h hop hops =>
    simp only [List.cons.injEq, RegisterOp.operationComplete.injEq, reduceCtorEq, false_and,
      and_false, or_false] at hops
    obtain ⟨⟨rfl, rfl⟩, rfl⟩ := hops
    exact ⟨rfl, rfl, h, _, hcall, hop⟩

end

/-! ## Where client commands are -/

/-- At most one client command for a register: `grants` are the calls that hold its index,
`mail` those whose messages are in its mailbox, `hand` the one it has started. -/
inductive Slot (grants : Callback → Prop) (mail : List Callback) (hand : Option Callback) :
    Option Callback → Prop where
  | vacant (hgrants : ∀ u, ¬ grants u) (hmail : mail = []) (hhand : hand = none) :
      Slot grants mail hand none
  | granted {t : Callback} (hgrants : ∀ u, grants u ↔ u = t) (hmail : mail = [])
      (hhand : hand = none) : Slot grants mail hand (some t)
  | mailed {t : Callback} (hgrants : ∀ u, ¬ grants u) (hmail : mail = [t])
      (hhand : hand = none) : Slot grants mail hand (some t)
  | inHand {t : Callback} (hgrants : ∀ u, ¬ grants u) (hmail : mail = [])
      (hhand : hand = some t) : Slot grants mail hand (some t)

namespace Process

/-- The calls that have received the index of register `i` and not used it yet. -/
def grants (s : Process) (i : ℕ) (t : Callback) : Prop := (s.pcs t).grant = some i

/-- The calls whose messages are in the mailbox of register `i`. -/
def mail (s : Process) (i : ℕ) : List Callback :=
  (s.bank.mailboxes i).filterMap WorkerMessage.callback?

/-- `t` is the client command of register `i`. -/
def HeldBy (s : Process) (i : ℕ) (holder : Option Callback) : Prop :=
  Slot (s.grants i) (s.mail i) (s.bank.inHand i) holder

end Process

/-- What holds of one register and its thread. -/
structure RegisterOk (calls : List Call) (b : Bank) (i : ℕ) : Prop where
  steady : b.Steady i
  mode : Mode calls (b.final i) (b.due i) (b.inHand i)
  starting : ∀ cmd t rest, b.workers i = .running (.client cmd t) rest →
    (b.final i).callback = some t ∧ ∃ call, calls[t]? = some call ∧ call.cmd = cmd
  mail : ∀ cmd t, .client cmd t ∈ b.mailboxes i → ∃ call, calls[t]? = some call ∧ call.cmd = cmd

/-- **Occupancy.** -/
structure Occupied (N : ℕ) (selfIdent : UInt8) (s : Process) : Prop where
  lost : ∀ t, s.calls.length ≤ t → s.pcs t = .lost
  held : ∀ i, ∃ holder, s.HeldBy i holder
  register : ∀ i, RegisterOk s.calls s.bank i
  down : s.up = false → ∃ s₀ : Process, s = s₀.crash N selfIdent

section

variable {calls : List Call} {b b' : Bank} {i : ℕ}

theorem RegisterOk.same (h : RegisterOk calls b i) (hsame : Bank.SameAt b b' i) :
    RegisterOk calls b' i := by
  refine ⟨hsame.steady h.steady, ?_, fun cmd t rest hw => ?_, fun cmd t hm => ?_⟩
  · rw [hsame.final, hsame.due, hsame.inHand]
    exact h.mode
  · rw [hsame.final]
    exact h.starting cmd t rest (hsame.workers ▸ hw)
  · exact h.mail cmd t (hsame.mailboxes ▸ hm)

theorem RegisterOk.mono {calls' : List Call} (h : RegisterOk calls b i)
    (hcalls : ∀ (t : ℕ) call, calls[t]? = some call → calls'[t]? = some call) :
    RegisterOk calls' b i := by
  refine ⟨h.steady, h.mode.mono hcalls, fun cmd t rest hw => ?_, fun cmd t hm => ?_⟩
  · obtain ⟨hcallback, call, hcall, hcmd⟩ := h.starting cmd t rest hw
    exact ⟨hcallback, call, hcalls t call hcall, hcmd⟩
  · obtain ⟨call, hcall, hcmd⟩ := h.mail cmd t hm
    exact ⟨call, hcalls t call hcall, hcmd⟩

/-- A register that rests in both banks. -/
theorem RegisterOk.resting (h : RegisterOk calls b i) (hrest : b.Resting i)
    (hrest' : b'.Resting i) (hregisters : b'.registers i = b.registers i)
    (hmail : ∀ cmd t, .client cmd t ∈ b'.mailboxes i →
      ∃ call, calls[t]? = some call ∧ call.cmd = cmd) : RegisterOk calls b' i := by
  refine ⟨hrest'.steady, ?_, fun cmd t rest hw => absurd hw (hrest' _ _), hmail⟩
  rw [hrest'.final, hrest'.due, hrest'.inHand, hregisters]
  have := h.mode
  rwa [hrest.final, hrest.due, hrest.inHand] at this

/-- A new message in the mailbox of a register. -/
theorem RegisterOk.deliver (h : RegisterOk calls b i) (j : ℕ) {msg : WorkerMessage}
    (hmsg : ∀ cmd t, msg = .client cmd t → ∃ call, calls[t]? = some call ∧ call.cmd = cmd) :
    RegisterOk calls (b.deliver j msg) i := by
  refine ⟨h.steady, h.mode, h.starting, fun cmd t hm => ?_⟩
  by_cases hij : i = j
  · subst hij
    simp only [Bank.deliver, Function.update_self, List.mem_append, List.mem_singleton] at hm
    rcases hm with hm | hm
    · exact h.mail cmd t hm
    · exact hmsg cmd t hm.symm
  · simp only [Bank.deliver, Function.update_of_ne hij] at hm
    exact h.mail cmd t hm

/-- **`recv` keeps it.** A `Client` message has to find nothing in hand. -/
theorem RegisterOk.receive {msg : WorkerMessage} {mailbox : List WorkerMessage}
    (h : RegisterOk calls b i) (hrec : Bank.Receives b b' i msg mailbox) (hsteady : b'.Steady i)
    (hout : Outcome (b.registers i) msg (b'.due i) (b'.final i))
    (hclient : ∀ cmd t, msg = .client cmd t → b.inHand i = none) :
    RegisterOk calls b' i ∧
      b'.inHand i = (msg.callback?.or (b.inHand i)) := by
  have hrest : b.Resting i := Bank.resting_of_eq hrec.waiting (.inr rfl)
  have hmode := h.mode
  rw [hrest.final, hrest.due] at hmode
  obtain ⟨rest, hw⟩ := hrec.running
  have hmail : ∀ cmd t, .client cmd t ∈ b'.mailboxes i →
      ∃ call, calls[t]? = some call ∧ call.cmd = cmd := fun cmd t hm =>
    h.mail cmd t (hrec.first ▸ List.mem_cons_of_mem msg (hrec.mailbox ▸ hm))
  cases msg with
  | client cmd t =>
    obtain ⟨call, hcall, rfl⟩ := h.mail cmd t (hrec.first ▸ List.mem_cons_self)
    rw [hclient _ _ rfl] at hmode
    have hidle : Idle (b.registers i) := by
      cases hmode
      assumption
    have hmode' := Mode.start hidle hcall hout
    have hhand := Bank.inHand_running_client hw
    refine ⟨⟨hsteady, hhand ▸ hmode', fun cmd u rest' hw' => ?_, hmail⟩, hhand⟩
    rw [hw] at hw'
    cases hw'
    rw [hout.final_client]
    exact ⟨(serves_startCommand hidle _ _).callback, call, hcall, rfl⟩
  | system cmd o =>
    have hhand : b'.inHand i = b.inHand i := by
      rw [Bank.inHand_running_system hw, hrest.inHand, hrec.registers]
    refine ⟨⟨hsteady, hhand ▸ hmode.system hout, fun cmd u rest' hw' => ?_, hmail⟩, hhand⟩
    rw [hw] at hw'
    cases hw'

theorem Bank.Works.inHand {msg : WorkerMessage} (h : Bank.Works b b' i msg)
    (hregisters : b'.registers i = b.registers i) : b'.inHand i = b.inHand i := by
  obtain ⟨rest, hw⟩ := h.before
  obtain ⟨rest', hw'⟩ := h.running
  unfold Bank.inHand
  rw [hw, hw', hregisters]
  cases msg <;> rfl

/-- A call of a handler keeps it, if it keeps the mode. -/
theorem RegisterOk.works {msg : WorkerMessage} (h : RegisterOk calls b i)
    (hworks : Bank.Works b b' i msg) (hmode : Mode calls (b.final i) (b'.due i) (b'.inHand i)) :
    RegisterOk calls b' i := by
  obtain ⟨rest, hw⟩ := hworks.before
  obtain ⟨rest', hw'⟩ := hworks.running
  refine ⟨hworks.steady, ?_, fun cmd t rest'' hrun => ?_, fun cmd t hm => ?_⟩
  · rw [hworks.final]
    exact hmode
  · rw [hw'] at hrun
    cases hrun
    rw [hworks.final]
    exact h.starting cmd t rest hw
  · rw [hworks.mailboxes] at hm
    exact h.mail cmd t hm

/-- Stable storage and completions are the same in both banks. -/
structure SameRecords (b b' : Bank) : Prop where
  stable : b'.stable = b.stable
  storedBy : b'.storedBy = b.storedBy
  stored : b'.stored = b.stored
  fired : b'.fired = b.fired

/-- The call a message is stored for, if its handler stores it: that of a client write. -/
def WorkerMessage.storedFor : WorkerMessage → Option Callback
  | .client ⟨_, .write _⟩ t => some t
  | _ => none

/-- What a step of the handler of register `i` means for the command in hand. -/
inductive Deed (b b' : Bank) (i : ℕ) : Prop where
  /-- nothing is stored or completed -/
  | quiet (hsame : SameRecords b b') (hhand : b'.inHand i = b.inHand i)
      (hdue : b'.due i = b.due i ∨ ∃ cmd, b.due i = .broadcast cmd :: b'.due i)
      (hclient : ∀ cmd t rest, b'.workers i = .running (.client cmd t) rest →
        ∃ rest, b.workers i = .running (.client cmd t) rest)
  | put {msg : WorkerMessage} {state : AtomicRegisterStorageState}
      (hhand : b'.inHand i = b.inHand i) (hdue : b.due i = .put state :: b'.due i)
      (hw : ∃ rest, b.workers i = .running msg rest)
      (hw' : ∃ rest, b'.workers i = .running msg rest)
      (hstable : b'.stable i = some state) (hfired : b'.fired = b.fired)
      (hstoredBy : b'.storedBy i = msg.storedFor.getD (b.storedBy i))
      (hstored : b'.stored = b.stored ++ msg.storedFor.toList.map fun t => (i, t))
  | complete {t : Callback} {op : OperationComplete} (hhand : b.inHand i = some t)
      (hhand' : b'.inHand i = none) (hdue : b.due i = [.operationComplete t op])
      (hdue' : b'.due i = []) (hstable : b'.stable = b.stable)
      (hstoredBy : b'.storedBy = b.storedBy) (hstored : b'.stored = b.stored)
      (hfired : b'.fired = b.fired ++ [(t, op)])
      (hclient : ∀ cmd u rest, b'.workers i ≠ .running (.client cmd u) rest)

theorem Bank.Works.client {msg : WorkerMessage} (h : Bank.Works b b' i msg)
    {cmd : ClientRegisterCommand} {t : Callback}
    {rest : RegisterProgram AtomicRegisterImplementation}
    (hw : b'.workers i = .running (.client cmd t) rest) :
    ∃ rest, b.workers i = .running (.client cmd t) rest := by
  obtain ⟨rest₀, hw₀⟩ := h.before
  obtain ⟨rest₁, hw₁⟩ := h.running
  rw [hw] at hw₁
  cases hw₁
  exact ⟨rest₀, hw₀⟩

/-- **A call keeps it**; only the callback empties the hand. -/
theorem RegisterOk.call (h : RegisterOk calls b i) (hacts : Bank.Acts b i b') :
    RegisterOk calls b' i ∧ Deed b b' i := by
  cases hacts with
  | silent hw hx hop hworks hkeeps hdue =>
    have hhand := hworks.inHand (congrFun hkeeps.registers i)
    refine ⟨h.works hworks ?_, .quiet ⟨hkeeps.stable, hkeeps.storedBy, hkeeps.stored,
      hkeeps.fired⟩ hhand (.inl hdue) fun _ _ _ => hworks.client⟩
    rw [hdue, hhand]
    exact h.mode
  | @put msg state rest hworks hdue =>
    have hhand := hworks.inHand rfl
    refine ⟨h.works hworks ?_, .put hhand hdue hworks.before hworks.running
      (Function.update_self ..) rfl ?_ ?_⟩
    · rw [hhand]
      exact (Mode.put (hdue ▸ h.mode)).2
    · rcases msg with cmd | ⟨⟨header, _ | data⟩, t⟩
      · rfl
      · rfl
      · exact Function.update_self ..
    · rcases msg with cmd | ⟨⟨header, _ | data⟩, t⟩
      · exact (List.append_nil _).symm
      · exact (List.append_nil _).symm
      · rfl
  | broadcast hworks hdue =>
    have hhand := hworks.inHand rfl
    refine ⟨h.works hworks ?_, .quiet ⟨rfl, rfl, rfl, rfl⟩ hhand (.inr ⟨_, hdue⟩)
      fun _ _ _ => hworks.client⟩
    rw [hhand]
    exact (Mode.broadcast (hdue ▸ h.mode)).2
  | @complete msg t op rest hworks hdue =>
    obtain ⟨hhand, hnil, hidle, _⟩ := Mode.complete (hdue ▸ h.mode)
    obtain ⟨rest₁, hw'⟩ := hworks.running
    -- `client_command` never completes, so a system command is being handled
    have hclient : ∀ cmd u rest, (b.after i msg (.operationComplete t op) b.files _).workers i ≠
        .running (.client cmd u) rest := fun cmd u rest hw => by
      obtain ⟨rest₀, hw₀⟩ := hworks.client hw
      have := (h.starting cmd u rest₀ hw₀).1
      rw [hidle.callback] at this
      cases this
    have hhand' : (b.after i msg (.operationComplete t op) b.files rest).inHand i = none := by
      cases msg with
      | client cmd u => exact absurd hw' (hclient cmd u rest₁)
      | system cmd o =>
        rw [Bank.inHand_running_system hw']
        simp [Bank.after]
    refine ⟨h.works hworks ?_, .complete hhand hhand' (hdue.trans (by rw [hnil])) hnil rfl rfl
      rfl rfl hclient⟩
    rw [hnil, hhand']
    exact .idle hidle
  | @returned msg register hw hdue hfinal =>
    have hmode := h.mode
    rw [hdue, hfinal] at hmode
    have hw' : (b.returned i msg register).workers i = .ready := Function.update_self ..
    have hrest : (b.returned i msg register).Resting i := Bank.resting_of_eq hw' (.inl rfl)
    have hregister : (b.returned i msg register).registers i = register :=
      Function.update_self ..
    have hhand : (b.returned i msg register).inHand i = b.inHand i := by
      rw [hrest.inHand, hregister, hmode.hand_of_nil]
    refine ⟨⟨hrest.steady, ?_, fun cmd t rest hw => absurd hw (hrest _ _), h.mail⟩,
      .quiet ⟨rfl, rfl, rfl, rfl⟩ hhand (.inl (hrest.due.trans hdue.symm))
        fun cmd t rest hw => absurd hw (hrest _ _)⟩
    rw [hrest.final, hrest.due, hhand, hregister]
    exact hmode

/-- The hand is emptied by the callback only. -/
theorem Deed.hand (h : Deed b b' i) : b'.inHand i = b.inHand i ∨
    b'.inHand i = none ∧ ∃ t op, b.inHand i = some t ∧ b'.fired = b.fired ++ [(t, op)] := by
  cases h with
  | quiet _ hhand _ _ => exact .inl hhand
  | put hhand _ _ _ _ _ _ _ => exact .inl hhand
  | complete hhand hhand' _ _ _ _ _ hfired _ => exact .inr ⟨hhand', _, _, hhand, hfired⟩

end

/-! ## Restarts -/

section

variable {N R : ℕ} {selfIdent : UInt8} {b : Bank} {i : ℕ}

/-- What `new` reads from stable storage. -/
def Bank.stableState (b : Bank) (i : ℕ) : AtomicRegisterStorageState := (b.stable i).getD .empty

/-- **`new`.** The register is idle; a write it was interrupted in is returned. -/
theorem restored_cases {register : AtomicRegisterImplementation}
    {cmd : Option ClientRegisterCommand}
    (h : b.restored N selfIdent i = some (register, cmd)) :
    (b.stableState i).writing = false ∧ cmd = none ∧
        register = { freshRegister N selfIdent with state := b.stableState i } ∨
      ∃ writeval, (b.stableState i).writing = true ∧
        (b.stableState i).writeval = some writeval ∧
        cmd = some ⟨writeval.header, .write writeval.data⟩ ∧
        register = { freshRegister N selfIdent with
          state := ⟨(b.stableState i).readIdent, false, none⟩ } := by
  unfold Bank.restored AtomicRegisterImplementation.new at h
  cases hwriting : (b.stableState i).writing with
  | false =>
    have hcond : ¬ ((b.stable i).getD .empty).writing = true := by
      show ¬ (b.stableState i).writing = true
      rw [hwriting]
      exact Bool.noConfusion
    simp only [hcond, Program.pure_eq_done] at h
    cases h
    exact .inl ⟨rfl, rfl, rfl⟩
  | true =>
    have hcond : ((b.stable i).getD .empty).writing = true := hwriting
    simp only [hcond, if_true] at h
    cases hval : (b.stableState i).writeval with
    | none =>
      have hnone : ((b.stable i).getD .empty).writeval = none := hval
      rw [hnone, unwrap_none_bind] at h
      cases h
    | some writeval =>
      have hsome : ((b.stable i).getD .empty).writeval = some writeval := hval
      rw [hsome, unwrap_some, Program.done_bind] at h
      cases h
      exact .inr ⟨writeval, rfl, rfl, rfl, rfl⟩

theorem idle_restored {register : AtomicRegisterImplementation}
    {cmd : Option ClientRegisterCommand} (h : b.restored N selfIdent i = some (register, cmd)) :
    Idle register := by
  rcases restored_cases h with ⟨hwriting, _, rfl⟩ | ⟨_, _, _, _, rfl⟩
  · exact ⟨rfl, rfl, hwriting⟩
  · exact ⟨rfl, rfl, rfl⟩

/-- An idle register whose thread is at the top of its loop. -/
theorem RegisterOk.of_idle {calls : List Call} (hw : b.workers i = .ready)
    (hidle : Idle (b.registers i)) (hmail : b.mailboxes i = []) : RegisterOk calls b i := by
  have hrest : b.Resting i := Bank.resting_of_eq hw (.inl rfl)
  refine ⟨hrest.steady, ?_, fun cmd t rest h => absurd h (hrest _ _), fun cmd t h => ?_⟩
  · rw [hrest.final, hrest.due, hrest.inHand, hidle.callback]
    exact .idle hidle
  · rw [hmail] at h
    cases h

end

/-! ## Runs -/

section

variable {N R : ℕ} {selfIdent : UInt8} {s s' : Process} {a : Action}

theorem heldBy_congr {i : ℕ} {holder : Option Callback}
    (hgrants : ∀ t, s'.grants i t ↔ s.grants i t) (hmail : s'.mail i = s.mail i)
    (hhand : s'.bank.inHand i = s.bank.inHand i) (h : s.HeldBy i holder) :
    s'.HeldBy i holder := by
  have hfun : s'.grants i = s.grants i := funext fun t => propext (hgrants t)
  unfold Process.HeldBy
  rw [hfun, hmail, hhand]
  exact h

theorem mail_congr {i : ℕ} (h : s'.bank.mailboxes i = s.bank.mailboxes i) :
    s'.mail i = s.mail i := by
  unfold Process.mail
  rw [h]

/-- A system command in a mailbox brings no client command. -/
theorem mail_deliver_system {i : ℕ} {cmd : SystemRegisterCommand} {o : Origin}
    (hbank : s'.bank = s.bank.deliver i (.system cmd o)) (k : ℕ) : s'.mail k = s.mail k := by
  unfold Process.mail
  rw [hbank]
  by_cases hk : k = i
  · subst hk
    simp [Bank.deliver, WorkerMessage.callback?]
  · simp only [Bank.deliver, Function.update_of_ne hk]

namespace Bank

variable {b : Bank} {i : ℕ} (hw : b.workers i = .ready)
include hw

/-- A thread that goes on to wait keeps the command in hand. -/
theorem inHand_waiting (k : ℕ) :
    inHand { b with workers := Function.update b.workers i .waiting } k = b.inHand k := by
  by_cases hk : k = i
  · subst hk
    simp [inHand, hw]
  · simp only [inHand, Function.update_of_ne hk]

/-- A thread that goes on to wait has nothing to do, before and after. -/
theorem due_waiting (k : ℕ) :
    due { b with workers := Function.update b.workers i .waiting } k = b.due k := by
  by_cases hk : k = i
  · subst hk
    simp [due, hw]
  · simp only [due, Function.update_of_ne hk]

end Bank

/-- A call that holds the index of a register is its only client command. -/
theorem heldBy_of_grants {i : ℕ} {t : Callback} {holder : Option Callback}
    (h : s.HeldBy i holder) (ht : s.grants i t) :
    (∀ u, s.grants i u ↔ u = t) ∧ s.mail i = [] ∧ s.bank.inHand i = none := by
  cases h with
  | vacant hgrants _ _ => exact absurd ht (hgrants t)
  | granted hgrants hmail hhand =>
    have := (hgrants t).mp ht
    subst this
    exact ⟨hgrants, hmail, hhand⟩
  | mailed hgrants _ _ => exact absurd ht (hgrants t)
  | inHand hgrants _ _ => exact absurd ht (hgrants t)

theorem heldBy_of_inHand {i : ℕ} {t : Callback} {holder : Option Callback}
    (h : s.HeldBy i holder) (ht : s.bank.inHand i = some t) :
    holder = some t ∧ (∀ u, ¬ s.grants i u) ∧ s.mail i = [] := by
  cases h with
  | inHand hgrants hmail hhand =>
    rw [hhand] at ht
    exact ⟨ht, hgrants, hmail⟩
  | vacant _ _ hh => rw [hh] at ht; cases ht
  | granted _ _ hh => rw [hh] at ht; cases ht
  | mailed _ _ hh => rw [hh] at ht; cases ht

theorem heldBy_of_mail {i : ℕ} {t : Callback} {holder : Option Callback}
    (h : s.HeldBy i holder) (ht : t ∈ s.mail i) :
    holder = some t ∧ (∀ u, ¬ s.grants i u) ∧ s.mail i = [t] ∧ s.bank.inHand i = none := by
  cases h with
  | mailed hgrants hmail hhand =>
    rw [hmail, List.mem_singleton] at ht
    subst ht
    exact ⟨rfl, hgrants, hmail, hhand⟩
  | vacant _ hm _ => rw [hm] at ht; cases ht
  | granted _ hm _ => rw [hm] at ht; cases ht
  | inHand _ hm _ => rw [hm] at ht; cases ht

/-- Registers after a crash. -/
theorem occupied_crash (s : Process) : Occupied N selfIdent (s.crash N selfIdent) := by
  have hrest : ∀ i, (s.crash N selfIdent).bank.Resting i := fun i =>
    Bank.resting_of_eq rfl (.inl rfl)
  refine ⟨fun _ _ => rfl, fun i => ⟨none, .vacant (fun u hu => ?_) rfl ?_⟩,
    fun i => .of_idle rfl ⟨rfl, rfl, rfl⟩ rfl, fun _ => ⟨s, rfl⟩⟩
  · cases hu
  · rw [(hrest i).inHand]
    rfl

/-- `s'` is `s` after a restart. -/
structure Restarted (N R : ℕ) (selfIdent : UInt8) (s s' : Process) : Prop where
  up : s'.up = true
  calls : s'.calls = s.calls
  pcs : ∀ t, s'.pcs t = .lost
  startup : s'.startup = s.pendingCmds N R selfIdent
  dispatching : s'.dispatching = none
  handings : s'.handings = []
  sectorCounters : ∀ sector, s'.sectorCounters sector = none
  handlers : ∀ msg, s'.msgIdHandlerSectorIdx msg = none
  finishing : s'.finishing = []
  systems : s'.systems = []
  files : s'.bank.files = s.bank.files
  stable : s'.bank.stable = s.bank.stable
  storedBy : s'.bank.storedBy = s.bank.storedBy
  stored : s'.bank.stored = s.bank.stored
  fired : s'.bank.fired = s.bank.fired
  started : s'.bank.started = s.bank.started
  outbox : s'.bank.outbox = s.bank.outbox
  workers : ∀ i, s'.bank.workers i = .ready
  mailboxes : ∀ i, s'.bank.mailboxes i = []
  registers : ∀ i, s'.bank.registers i = freshRegister N selfIdent ∨
    ∃ cmd, s.bank.restored N selfIdent i = some (s'.bank.registers i, cmd)
  vacant : ∀ i, s'.HeldBy i none

theorem Restarted.idle (h : Restarted N R selfIdent s s') (i : ℕ) : Idle (s'.bank.registers i) := by
  rcases h.registers i with hfresh | ⟨cmd, hrestored⟩
  · rw [hfresh]
    exact ⟨rfl, rfl, rfl⟩
  · exact idle_restored hrestored

theorem Restarted.resting (h : Restarted N R selfIdent s s') (i : ℕ) : s'.bank.Resting i :=
  Bank.resting_of_eq (h.workers i) (.inl rfl)

theorem Restarted.inHand (h : Restarted N R selfIdent s s') (i : ℕ) : s'.bank.inHand i = none :=
  (h.resting i).inHand.trans (h.idle i).callback

theorem Occupied.restarted (h : Occupied N selfIdent s)
    (hstep : s.restart N R selfIdent = some s') : Restarted N R selfIdent s s' := by
  unfold Process.restart at hstep
  split at hstep
  · rename_i hcond
    cases hstep
    obtain ⟨s₀, rfl⟩ := h.down hcond.1
    have hregisters : ∀ i, (((s₀.crash N selfIdent).bank.restored N selfIdent i).map
        Prod.fst |>.getD ((s₀.crash N selfIdent).bank.registers i)) = freshRegister N selfIdent ∨
        ∃ cmd, (s₀.crash N selfIdent).bank.restored N selfIdent i = some
          (((s₀.crash N selfIdent).bank.restored N selfIdent i).map Prod.fst |>.getD
            ((s₀.crash N selfIdent).bank.registers i), cmd) := fun i => by
      cases hr : (s₀.crash N selfIdent).bank.restored N selfIdent i with
      | none => exact .inl rfl
      | some x => exact .inr ⟨x.2, rfl⟩
    refine ⟨rfl, rfl, fun _ => rfl, rfl, rfl, rfl, fun _ => rfl, fun _ => rfl, rfl, rfl, rfl, rfl,
      rfl, rfl, rfl, rfl, rfl, fun _ => rfl, fun _ => rfl, hregisters, fun i => ?_⟩
    refine .vacant (fun u hu => by cases hu) rfl ?_
    rcases hregisters i with hfresh | ⟨cmd, hrestored⟩
    · show (((s₀.crash N selfIdent).bank.restored N selfIdent i).map
        Prod.fst |>.getD ((s₀.crash N selfIdent).bank.registers i)).callback = none
      rw [hfresh]
      rfl
    · exact (idle_restored hrestored).callback
  · cases hstep

theorem occupied_restart (h : Occupied N selfIdent s) (hstep : s.restart N R selfIdent = some s') :
    Occupied N selfIdent s' := by
  have hr := h.restarted hstep
  refine ⟨fun t _ => hr.pcs t, fun i => ⟨none, hr.vacant i⟩,
    fun i => .of_idle (hr.workers i) (hr.idle i) (hr.mailboxes i), fun hdown => ?_⟩
  rw [hr.up] at hdown
  cases hdown

/-- A call is added. -/
theorem occupied_invoke (h : Occupied N selfIdent s) (hup : s.up = true) (call : Call)
    (hbank : s'.bank = s.bank) (hup' : s'.up = s.up) (hcalls : s'.calls = s.calls ++ [call])
    (hpcs : s'.pcs = Function.update s.pcs s.calls.length .ticket) :
    Occupied N selfIdent s' := by
  have hgrants : ∀ i t, s'.grants i t ↔ s.grants i t := fun i t => by
    unfold Process.grants
    rw [hpcs]
    by_cases ht : t = s.calls.length
    · subst ht
      rw [Function.update_self, h.lost _ le_rfl]
      rfl
    · rw [Function.update_of_ne ht]
  refine ⟨fun t ht => ?_, fun i => ?_, fun i => ?_, fun hdown => ?_⟩
  · rw [hcalls, List.length_append, List.length_singleton] at ht
    rw [hpcs, Function.update_of_ne (by omega)]
    exact h.lost t (by omega)
  · obtain ⟨holder, hholder⟩ := h.held i
    exact ⟨holder, heldBy_congr (hgrants i) (mail_congr (by rw [hbank])) (by rw [hbank]) hholder⟩
  · rw [hbank]
    refine (h.register i).mono fun t c hc => ?_
    rw [hcalls, List.getElem?_append_left (List.getElem?_eq_some_iff.mp hc).1]
    exact hc
  · rw [hup', hup] at hdown
    cases hdown

section Move

variable {t : Callback} {pc : ClientPc} {i : ℕ}

theorem grants_move_self (hpcs : s'.pcs = Function.update s.pcs t pc) :
    s'.grants i t ↔ pc.grant = some i := by
  unfold Process.grants
  rw [hpcs, Function.update_self]

theorem grants_move_of_ne (hpcs : s'.pcs = Function.update s.pcs t pc) {u : Callback}
    (hu : u ≠ t) : s'.grants i u ↔ s.grants i u := by
  unfold Process.grants
  rw [hpcs, Function.update_of_ne hu]

/-- A move that neither takes nor uses the index of register `i`. -/
theorem grants_move (hpcs : s'.pcs = Function.update s.pcs t pc)
    (h : pc.grant = some i ↔ s.grants i t) (u : Callback) : s'.grants i u ↔ s.grants i u := by
  by_cases hu : u = t
  · subst hu
    rw [grants_move_self hpcs]
    exact h
  · exact grants_move_of_ne hpcs hu

theorem lost_move (h : Occupied N selfIdent s) {call : Call} (hcall : s.calls[t]? = some call)
    (hcalls : s'.calls = s.calls) (hpcs : s'.pcs = Function.update s.pcs t pc) (u : Callback)
    (hu : s'.calls.length ≤ u) : s'.pcs u = .lost := by
  have hlen : t < s.calls.length := (List.getElem?_eq_some_iff.mp hcall).1
  rw [hcalls] at hu
  have hne : u ≠ t := (Nat.lt_of_lt_of_le hlen hu).ne'
  rw [hpcs, Function.update_of_ne hne]
  exact h.lost u hu

end Move

theorem up_of_eq {P : Prop} (hup : s.up = true) (hup' : s'.up = s.up) (hdown : s'.up = false) :
    P := by
  rw [hup', hup] at hdown
  cases hdown

/-- **A client command receives the index** of a free register. -/
theorem occupied_take (h : Occupied N selfIdent s) (hup : s.up = true) {t : Callback} {i : ℕ}
    {call : Call} (hcall : s.calls[t]? = some call) (hpc : s.pcs t = .owner) (hfree : s.Free i)
    (hbank : s'.bank = s.bank) (hup' : s'.up = s.up) (hcalls : s'.calls = s.calls)
    (hpcs : s'.pcs = Function.update s.pcs t (.index i)) : Occupied N selfIdent s' := by
  refine ⟨lost_move h hcall hcalls hpcs, fun j => ?_, fun j => ?_, up_of_eq hup hup'⟩
  · by_cases hj : j = i
    · subst hj
      obtain ⟨hnone, hmail, hhand⟩ := hfree
      refine ⟨some t, .granted (fun u => ?_) ?_ (by rw [hbank]; exact hhand)⟩
      · by_cases hu : u = t
        · subst hu
          exact iff_of_true ((grants_move_self hpcs).mpr rfl) rfl
        · -- nothing else holds the index, by `Free`
          refine iff_of_false (fun hgrant => ?_) hu
          have hgrant' : (s.pcs u).grant = some j := (grants_move_of_ne hpcs hu).mp hgrant
          by_cases hul : u < s.calls.length
          · exact hnone u hul hgrant'
          · rw [h.lost u (not_lt.mp hul)] at hgrant'
            cases hgrant'
      · unfold Process.mail
        rw [hbank]
        exact List.filterMap_eq_nil_iff.mpr hmail
    · obtain ⟨holder, hholder⟩ := h.held j
      refine ⟨holder, heldBy_congr (grants_move hpcs ?_) (mail_congr (by rw [hbank]))
        (by rw [hbank]) hholder⟩
      refine iff_of_false (fun hij => hj (Option.some.inj hij).symm) (fun hgrant => ?_)
      unfold Process.grants at hgrant
      rw [hpc] at hgrant
      cases hgrant
  · rw [hbank, hcalls]
    exact h.register j

/-- **The message is sent** to the register. -/
theorem occupied_hand (h : Occupied N selfIdent s) (hup : s.up = true) {t : Callback} {i : ℕ}
    {call : Call} (hcall : s.calls[t]? = some call) (hpc : s.pcs t = .entered i)
    (hbank : s'.bank = s.bank.deliver i (.client call.cmd t)) (hup' : s'.up = s.up)
    (hcalls : s'.calls = s.calls) (hpcs : s'.pcs = Function.update s.pcs t (.handed i)) :
    Occupied N selfIdent s' := by
  have hgrant : s.grants i t := by
    unfold Process.grants
    rw [hpc]
    rfl
  refine ⟨lost_move h hcall hcalls hpcs, fun j => ?_, fun j => ?_, up_of_eq hup hup'⟩
  · obtain ⟨holder, hholder⟩ := h.held j
    have hhand : s'.bank.inHand j = s.bank.inHand j := by
      rw [hbank]
      rfl
    by_cases hj : j = i
    · subst hj
      obtain ⟨hgrants, hmail, hnone⟩ := heldBy_of_grants hholder hgrant
      refine ⟨some t, .mailed (fun u hu => ?_) ?_ (hhand.trans hnone)⟩
      · by_cases hut : u = t
        · subst hut
          rw [grants_move_self hpcs] at hu
          cases hu
        · exact hut ((hgrants u).mp ((grants_move_of_ne hpcs hut).mp hu))
      · unfold Process.mail at hmail ⊢
        rw [hbank]
        simp only [Bank.deliver, Function.update_self, List.filterMap_append, hmail]
        rfl
    · refine ⟨holder, heldBy_congr (grants_move hpcs ?_) (mail_congr ?_) hhand hholder⟩
      · refine iff_of_false (fun hij => by cases hij) (fun hgrant' => ?_)
        unfold Process.grants at hgrant'
        rw [hpc] at hgrant'
        exact hj (Option.some.inj hgrant').symm
      · rw [hbank]
        exact Function.update_of_ne hj ..
  · rw [hbank, hcalls]
    refine (h.register j).deliver i fun cmd u hmsg => ?_
    cases hmsg
    exact ⟨call, hcall, rfl⟩

/-- Steps in which nothing is taken or used: where the client commands of the registers
are is a matter of the bank alone. -/
theorem occupied_bank (h : Occupied N selfIdent s) (hup : s.up = true) (hup' : s'.up = s.up)
    (hcalls : s'.calls = s.calls) (hpcs : s'.pcs = s.pcs)
    (hheld : ∀ i holder, s.HeldBy i holder → ∃ holder, s'.HeldBy i holder)
    (hregister : ∀ i, RegisterOk s.calls s'.bank i) : Occupied N selfIdent s' := by
  refine ⟨fun u hu => ?_, fun i => ?_, fun i => hcalls ▸ hregister i, up_of_eq hup hup'⟩
  · rw [hpcs]
    exact h.lost u (hcalls ▸ hu)
  · obtain ⟨holder, hholder⟩ := h.held i
    exact hheld i holder hholder

theorem heldBy_bank {i : ℕ} {holder : Option Callback} (hpcs : s'.pcs = s.pcs)
    (hmail : s'.bank.mailboxes i = s.bank.mailboxes i)
    (hhand : s'.bank.inHand i = s.bank.inHand i) (h : s.HeldBy i holder) :
    s'.HeldBy i holder :=
  heldBy_congr (fun t => by unfold Process.grants; rw [hpcs]) (mail_congr hmail) hhand h

/-- A system command reaches a mailbox. -/
theorem occupied_deliver (h : Occupied N selfIdent s) (hup : s.up = true) {i : ℕ}
    {cmd : SystemRegisterCommand} {o : Origin} (hbank : s'.bank = s.bank.deliver i (.system cmd o))
    (hup' : s'.up = s.up) (hcalls : s'.calls = s.calls) (hpcs : s'.pcs = s.pcs) :
    Occupied N selfIdent s' := by
  refine occupied_bank h hup hup' hcalls hpcs (fun j holder hholder => ⟨holder, ?_⟩) fun j => ?_
  · refine heldBy_congr (fun t => by unfold Process.grants; rw [hpcs]) ?_ ?_ hholder
    · exact mail_deliver_system hbank j
    · rw [hbank]
      rfl
  · rw [hbank]
    exact (h.register j).deliver i fun cmd u hmsg => by cases hmsg

/-- A thread goes back to waiting. -/
theorem occupied_announce (h : Occupied N selfIdent s) (hup : s.up = true) {i : ℕ}
    (hw : s.bank.workers i = .ready)
    (hbank : s'.bank = { s.bank with workers := Function.update s.bank.workers i .waiting })
    (hup' : s'.up = s.up) (hcalls : s'.calls = s.calls) (hpcs : s'.pcs = s.pcs) :
    Occupied N selfIdent s' := by
  have hrest : s.bank.Resting i := Bank.resting_of_eq hw (.inl rfl)
  have hrest' : s'.bank.Resting i := by
    refine Bank.resting_of_eq ?_ (.inr rfl)
    rw [hbank]
    exact Function.update_self ..
  have hsame : ∀ j ≠ i, Bank.SameAt s.bank s'.bank j := fun j hj => by
    rw [hbank]
    exact ⟨Function.update_of_ne hj .., rfl, rfl, rfl, rfl, rfl, rfl⟩
  refine occupied_bank h hup hup' hcalls hpcs (fun j holder hholder => ⟨holder, ?_⟩) fun j => ?_
  · refine heldBy_bank hpcs (by rw [hbank]) ?_ hholder
    rw [hbank]
    exact Bank.inHand_waiting hw j
  · by_cases hj : j = i
    · subst hj
      refine (h.register j).resting hrest hrest' (by rw [hbank]) fun cmd t hm => ?_
      rw [hbank] at hm
      exact (h.register j).mail cmd t hm
    · exact (h.register j).same (hsame j hj)

/-- The client message a register takes from its mailbox is the only client command it
has. -/
theorem inHand_of_mail {i : ℕ} {holder : Option Callback} {cmd : ClientRegisterCommand}
    {t : Callback} {mailbox : List WorkerMessage} (h : s.HeldBy i holder)
    (hfirst : s.bank.mailboxes i = .client cmd t :: mailbox) :
    (∀ u, ¬ s.grants i u) ∧ mailbox.filterMap WorkerMessage.callback? = [] ∧
      s.bank.inHand i = none := by
  have hmail : s.mail i = t :: mailbox.filterMap WorkerMessage.callback? := by
    unfold Process.mail
    rw [hfirst]
    rfl
  cases h with
  | vacant _ hnil _ => rw [hmail] at hnil; cases hnil
  | granted _ hnil _ => rw [hmail] at hnil; cases hnil
  | mailed hgrants hone hhand =>
    rw [hmail, List.cons.injEq] at hone
    exact ⟨hgrants, hone.2, hhand⟩
  | inHand _ hnil _ => rw [hmail] at hnil; cases hnil

/-- Register `i` takes `msg` from its mailbox, in a process where at most one client command
is with a register. -/
structure Reception (s : Process) (b' : Bank) (i : ℕ) (msg : WorkerMessage)
    (mailbox : List WorkerMessage) : Prop where
  receives : Bank.Receives s.bank b' i msg mailbox
  outcome : Outcome (s.bank.registers i) msg (b'.due i) (b'.final i)
  mode : Mode s.calls (s.bank.registers i) [] (s.bank.inHand i)
  hand : s.bank.inHand i = (s.bank.registers i).callback
  client : ∀ cmd t, msg = .client cmd t → (∀ u, ¬ s.grants i u) ∧
    mailbox.filterMap WorkerMessage.callback? = [] ∧ s.bank.inHand i = none
  after : RegisterOk s.calls b' i
  handAfter : b'.inHand i = msg.callback?.or (s.bank.inHand i)

theorem Occupied.reception (h : Occupied N selfIdent s) {i : ℕ} {iter : IterOrder} {b' : Bank}
    (hrec : s.bank.receive i iter = some b') : ∃ msg mailbox, Reception s b' i msg mailbox := by
  have hrest : s.bank.Resting i := by
    unfold Bank.receive at hrec
    split at hrec
    · rename_i hw _
      exact Bank.resting_of_eq hw (.inr rfl)
    · cases hrec
  have hmode := (h.register i).mode
  rw [hrest.final, hrest.due] at hmode
  obtain ⟨msg, mailbox, hreceives, hsteady, hout⟩ := Bank.receive_cases hrec hmode.sound
  have hclient : ∀ cmd t, msg = .client cmd t → (∀ u, ¬ s.grants i u) ∧
      mailbox.filterMap WorkerMessage.callback? = [] ∧ s.bank.inHand i = none :=
    fun cmd t hmsg => by
      obtain ⟨holder, hholder⟩ := h.held i
      exact inHand_of_mail hholder (hmsg ▸ hreceives.first)
  obtain ⟨hregister, hhand⟩ := (h.register i).receive hreceives hsteady hout
    fun cmd t hmsg => (hclient cmd t hmsg).2.2
  exact ⟨msg, mailbox, hreceives, hout, hmode, hrest.inHand, hclient, hregister, hhand⟩

/-- **A register takes a message.** -/
theorem occupied_receive (h : Occupied N selfIdent s) (hup : s.up = true) {i : ℕ}
    {iter : IterOrder} (hrec : s.bank.receive i iter = some s'.bank)
    (hup' : s'.up = s.up) (hcalls : s'.calls = s.calls) (hpcs : s'.pcs = s.pcs) :
    Occupied N selfIdent s' := by
  obtain ⟨msg, mailbox, hr⟩ := h.reception hrec
  refine occupied_bank h hup hup' hcalls hpcs (fun j holder hholder => ?_) fun j => ?_
  · by_cases hj : j = i
    · subst hj
      have hgrants : ∀ t, s'.grants j t ↔ s.grants j t := fun t => by
        unfold Process.grants
        rw [hpcs]
      cases msg with
      | client cmd t =>
        obtain ⟨hnone, hnil, _⟩ := hr.client cmd t rfl
        refine ⟨some t, .inHand (fun u hu => hnone u ((hgrants u).mp hu)) ?_ hr.handAfter⟩
        unfold Process.mail
        rw [hr.receives.mailbox, hnil]
      | system cmd o =>
        refine ⟨holder, heldBy_congr hgrants ?_ hr.handAfter hholder⟩
        unfold Process.mail
        rw [hr.receives.mailbox, hr.receives.first]
        rfl
    · have hsame := hr.receives.others j hj
      exact ⟨holder, heldBy_bank hpcs hsame.mailboxes hsame.inHand hholder⟩
  · by_cases hj : j = i
    · subst hj
      exact hr.after
    · exact (h.register j).same (hr.receives.others j hj)

/-- **A handler goes on.** -/
theorem occupied_call (h : Occupied N selfIdent s) (hup : s.up = true) {i : ℕ}
    (hcall : s.bank.call i = some s'.bank) (hup' : s'.up = s.up) (hcalls : s'.calls = s.calls)
    (hpcs : s'.pcs = s.pcs) : Occupied N selfIdent s' := by
  have hacts := Bank.call_cases hcall (h.register i).steady
  obtain ⟨hregister, hdeed⟩ := (h.register i).call hacts
  refine occupied_bank h hup hup' hcalls hpcs (fun j holder hholder => ?_) fun j => ?_
  · have hmail : s'.bank.mailboxes j = s.bank.mailboxes j := by rw [hacts.mailboxes]
    by_cases hj : j = i
    · subst hj
      rcases hdeed.hand with hhand | ⟨hnone, t, op, hsome, _⟩
      · exact ⟨holder, heldBy_bank hpcs hmail hhand hholder⟩
      · -- the callback has been called
        cases hholder with
        | inHand hgrants hnil _ =>
          refine ⟨none, .vacant (fun u hu => hgrants u ?_) ?_ hnone⟩
          · unfold Process.grants at hu ⊢
            rwa [hpcs] at hu
          · rw [mail_congr hmail]
            exact hnil
        | vacant _ _ hh => rw [hh] at hsome; cases hsome
        | granted _ _ hh => rw [hh] at hsome; cases hsome
        | mailed _ _ hh => rw [hh] at hsome; cases hsome
    · exact ⟨holder, heldBy_bank hpcs hmail (hacts.others j hj).inHand hholder⟩
  · by_cases hj : j = i
    · subst hj
      exact hregister
    · exact (h.register j).same (hacts.others j hj)

/-- A process that takes a step other than a restart is up. -/
theorem up_of_step (h : s.step N R selfIdent a = some s') (ha : a ≠ .restart) : s.up = true := by
  unfold Process.step at h
  split at h
  · assumption
  · cases a with
    | restart => exact absurd rfl ha
    | _ => cases h

theorem occupied_init : Occupied N selfIdent (.init N selfIdent) := by
  refine ⟨fun _ _ => rfl, fun i => ⟨none, .vacant (fun u hu => ?_) rfl rfl⟩,
    fun i => .of_idle rfl ⟨rfl, rfl, rfl⟩ rfl, fun hdown => Bool.noConfusion hdown⟩
  cases hu

/-- **A step keeps occupancy**, as long as the indices client commands receive are those of
free registers. -/
theorem occupied_step (h : Occupied N selfIdent s) (hfree : s.TakesFree a)
    (hstep : s.step N R selfIdent a = some s') : Occupied N selfIdent s' := by
  have hup : a ≠ .restart → s.up = true := up_of_step hstep
  cases step_event hstep with
  | shuffle ha hs =>
    refine ⟨fun t ht => (hs.lost t).mp (h.lost t (hs.calls ▸ ht)), fun i => ?_, fun i => ?_,
      up_of_eq (hup ha) hs.up⟩
    · obtain ⟨holder, hholder⟩ := h.held i
      refine ⟨holder, heldBy_congr (fun t => ?_) (mail_congr (by rw [hs.bank]))
        (by rw [hs.bank]) hholder⟩
      unfold Process.grants
      rw [hs.grant]
    · rw [hs.bank, hs.calls]
      exact h.register i
  | submit _ => exact occupied_invoke h (hup Action.noConfusion) _ rfl rfl rfl rfl
  | dispatch _ _ => exact occupied_invoke h (hup Action.noConfusion) _ rfl rfl rfl rfl
  | @take t call i _ hcall hpc hready =>
    have htakes : (t, i) ∈ s.takes (.client t) := by simp [Process.takes, hpc, hready]
    exact occupied_take h (hup Action.noConfusion) hcall hpc (hfree (t, i) htakes) rfl rfl rfl rfl
  | hand hcall hpc => exact occupied_hand h (hup Action.noConfusion) hcall hpc rfl rfl rfl rfl
  | deliver _ _ => exact occupied_deliver h (hup Action.noConfusion) rfl rfl rfl rfl
  | announce _ hw => exact occupied_announce h (hup Action.noConfusion) hw rfl rfl rfl rfl
  | receive _ hrec => exact occupied_receive h (hup Action.noConfusion) hrec rfl rfl rfl
  | call _ hcall => exact occupied_call h (hup Action.noConfusion) hcall rfl rfl rfl
  | crash => exact occupied_crash s
  | restart hrestart => exact occupied_restart h hrestart

/-- Occupancy in every run in which client commands receive the indices of free registers
only. -/
theorem occupied_of_reachable {allowed : Process → Action → Prop}
    (hallowed : ∀ s a, allowed s a → s.TakesFree a)
    (hs : Reachable (Process.step N R selfIdent) allowed (.init N selfIdent) s) :
    Occupied N selfIdent s :=
  hs.invariant _ occupied_init fun _ _ _ _ h ha hstep => occupied_step h (hallowed _ _ ha) hstep

end

end Executor
end AtomicDiscDrive
