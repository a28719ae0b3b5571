import AtomicDiscDrive.Register.Machine

/-!
# Completion callbacks

Client commands come one at a time: the next one when the callback of the one before has
been invoked, or after a crash. Then a register never has two operations, the values its
handlers unwrap are there, and a callback is invoked once, with the answer to its own
command, when a majority has acknowledged the latest broadcast.

The acknowledgements the register has counted are among those that came in since the
latest broadcast, because it clears them with every broadcast.
-/

namespace AtomicDiscDrive
namespace Register

open Utils

/-- A client command is submitted only when no earlier one is in progress. -/
def OneAtATime (machine : Machine) : Action → Prop
  | .client _ => inProgress machine.world.log = none
  | _ => True

instance (machine : Machine) : DecidablePred (OneAtATime machine)
  | .client _ => inferInstanceAs (Decidable (inProgress machine.world.log = none))
  | .system _ _ | .call _ | .finish | .crash | .recover => inferInstanceAs (Decidable True)

/-! ## The statement -/

/-- The answer is one to a command of this kind. -/
def SameKind : ClientRegisterCommandContent → OperationReturn → Prop
  | .read, .read _ => True
  | .write _, .write => True
  | _, _ => False

/-- The answer is right for the command with this callback. -/
def Fits (log : List Event) (callback : Callback) (op : OperationComplete) : Prop :=
  op.statusCode = .ok ∧ ∃ cmd, (issued log)[callback]? = some cmd ∧
    op.requestIdentifier = cmd.header.requestIdentifier ∧ SameKind cmd.content op.opReturn

/-- A callback is invoked when a majority has acknowledged the latest broadcast. -/
def Backed (processesCount : ℕ) (log : List Event) : Prop :=
  processesCount < 2 * (ackers log).card

/-- Every callback that was invoked got the right answer, backed by a majority. -/
def Right (processesCount : ℕ) (log : List Event) : Prop :=
  ∀ later callback op earlier, log = later ++ .completed callback op :: earlier →
    Fits earlier callback op ∧ Backed processesCount earlier

/-! ## The invariant -/

/-- The record of callbacks, and what `new` relies on. -/
structure Booked (processesCount : ℕ) (world : World) : Prop where
  stored : ∀ state, world.stored = some state → state.writing = true → state.writeval ≠ none
  right : Right processesCount world.log
  nodup : (invoked world.log).Nodup
  issued : ∀ callback ∈ invoked world.log, callback < (issued world.log).length
  pending : ∀ callback, inProgress world.log = some callback →
    callback < (Register.issued world.log).length ∧ callback ∉ invoked world.log

/-- When a handler may make a call. -/
def Permitted (processesCount : ℕ) : RegisterOp → World → Prop
  | .put state, _ => state.writing = true → state.writeval ≠ none
  | .operationComplete callback op, world => inProgress world.log = some callback ∧
    Fits world.log callback op ∧ Backed processesCount world.log
  | .panic, _ => False
  | _, _ => True

/-- The register agrees with the record. -/
structure Consistent (processesCount : ℕ) (register : AtomicRegisterImplementation)
    (world : World) : Prop where
  count : register.processesCount = processesCount
  apart : ¬ (register.reading = true ∧ register.state.writing = true)
  reading : register.reading = true → ∃ callback readval, register.callback = some callback ∧
    inProgress world.log = some callback ∧ register.readval = some readval ∧
    ∀ ret, Fits world.log callback ⟨.ok, readval.requestIdentifier, .read ret⟩
  writing : register.state.writing = true → ∃ callback writeval,
    register.callback = some callback ∧ inProgress world.log = some callback ∧
    register.state.writeval = some writeval ∧
    Fits world.log callback ⟨.ok, writeval.header.requestIdentifier, .write⟩
  acks : register.Busy = true → phaseIdent world.log = some register.state.readIdent ∧
    register.acks ⊆ ackers world.log

def callbackScheme (processesCount : ℕ) : Scheme where
  settled := Consistent processesCount
  lasting := Booked processesCount
  ok := Permitted processesCount
  accepts _ := True

section

variable {processesCount : ℕ}

/-! ## The record -/

theorem Right.cons {log : List Event} (h : Right processesCount log) {event : Event}
    (hevent : ∀ callback op, event = .completed callback op →
      Fits log callback op ∧ Backed processesCount log) :
    Right processesCount (event :: log) := by
  intro later callback op earlier heq
  cases later with
  | nil =>
    obtain ⟨rfl, rfl⟩ := List.cons.inj heq
    exact hevent callback op rfl
  | cons event' later =>
    obtain ⟨rfl, hlog⟩ := List.cons.inj heq
    exact h later callback op earlier hlog

/-- Commands that come in. -/
theorem Booked.client {world : World} (h : Booked processesCount world)
    (cmd : ClientRegisterCommand) :
    Booked processesCount { world with log := .client cmd :: world.log } := by
  have hlength : (Register.issued (.client cmd :: world.log)).length =
      (Register.issued world.log).length + 1 := List.length_append
  refine ⟨h.stored, h.right.cons ?_, h.nodup, ?_, ?_⟩
  · intro callback op heq
    cases heq
  · intro callback hmem
    show callback < (Register.issued (.client cmd :: world.log)).length
    rw [hlength]
    exact Nat.lt_succ_of_lt (h.issued callback hmem)
  · intro callback hprogress
    obtain rfl : (Register.issued world.log).length = callback := Option.some.inj hprogress
    refine ⟨?_, fun hmem => ?_⟩
    · show _ < (Register.issued (.client cmd :: world.log)).length
      rw [hlength]
      exact Nat.lt_succ_self _
    · exact absurd (h.issued _ hmem) (Nat.lt_irrefl _)

theorem Booked.received {world : World} (h : Booked processesCount world)
    (cmd : SystemRegisterCommand) :
    Booked processesCount { world with log := .received cmd :: world.log } := by
  refine ⟨h.stored, h.right.cons ?_, h.nodup, h.issued, h.pending⟩
  intro callback op heq
  cases heq

theorem Booked.crashed {world : World} (h : Booked processesCount world) :
    Booked processesCount { world with log := .crashed :: world.log } := by
  refine ⟨h.stored, h.right.cons ?_, h.nodup, h.issued, ?_⟩
  · intro callback op heq
    cases heq
  · intro callback hprogress
    cases hprogress

/-- A call that is permitted. -/
theorem Booked.perform {world : World} (h : Booked processesCount world) {op : RegisterOp}
    (hok : Permitted processesCount op world) (answers : Answers) :
    Booked processesCount (world.perform answers op) := by
  cases op with
  | put state =>
    rw [World.perform]
    split
    · refine ⟨?_, h.right, h.nodup, h.issued, h.pending⟩
      intro state' heq
      cases heq
      exact hok
    · exact h
  | broadcast cmd =>
    refine ⟨h.stored, h.right.cons ?_, h.nodup, h.issued, h.pending⟩
    intro callback op heq
    cases heq
  | operationComplete callback op =>
    obtain ⟨hprogress, hfits, hbacked⟩ := hok
    obtain ⟨hlt, hnew⟩ := h.pending callback hprogress
    refine ⟨h.stored, h.right.cons ?_, List.nodup_cons.mpr ⟨hnew, h.nodup⟩, ?_, ?_⟩
    · intro callback' op' heq
      cases heq
      exact ⟨hfits, hbacked⟩
    · intro callback' hmem
      rcases List.mem_cons.mp hmem with rfl | hmem
      · exact hlt
      · exact h.issued callback' hmem
    · intro callback' hprogress'
      cases hprogress'
  | panic => exact hok.elim
  | _ => exact h

/-! ## The handlers -/

variable {register : AtomicRegisterImplementation} {world : World}

/-- A register without an operation. -/
theorem Consistent.of_not_busy (register : AtomicRegisterImplementation)
    (hcount : register.processesCount = processesCount) (hreading : register.reading = false)
    (hwriting : register.state.writing = false) (world : World) :
    Consistent processesCount register world := by
  refine ⟨hcount, ?_, ?_, ?_, ?_⟩
  · simp [hreading]
  · simp [hreading]
  · simp [hwriting]
  · simp [hreading, hwriting]

/-- A phase is opened: what the handler leaves must fit the world after the broadcast. -/
theorem meets_opening {state : AtomicRegisterStorageState} {cmd : SystemRegisterCommand}
    (hput : state.writing = true → state.writeval ≠ none)
    (hfinal : ∀ stored, Consistent processesCount register ⟨stored, .broadcast cmd :: world.log⟩) :
    Program.Meets (callbackScheme processesCount).contract
      (.call (RegisterOp.put state) fun _ => .call (RegisterOp.broadcast cmd) fun _ => .done register)
      world := by
  refine .call hput ?_
  rintro _ _ ⟨answers, -, -, rfl, -⟩
  refine .call trivial ?_
  rintro _ _ ⟨answers', -, -, rfl, -⟩
  have hlog : (world.perform answers (.put state)).log = world.log := by
    rw [World.perform]
    split <;> rfl
  show Consistent processesCount register ⟨_, .broadcast cmd :: (world.perform answers (.put state)).log⟩
  rw [hlog]
  exact hfinal _

/-- The callback is invoked. -/
theorem meets_invoking (register : AtomicRegisterImplementation) {callback : Callback}
    (hcallback : register.callback = some callback)
    {requestIdentifier : UInt64} {opReturn : OperationReturn}
    (hprogress : inProgress world.log = some callback)
    (hfits : Fits world.log callback ⟨.ok, requestIdentifier, opReturn⟩)
    (hbacked : Backed processesCount world.log)
    (hcount : register.processesCount = processesCount) (hreading : register.reading = false)
    (hwriting : register.state.writing = false) :
    (register.complete requestIdentifier opReturn).Meets (callbackScheme processesCount).contract
      world := by
  rw [AtomicRegisterImplementation.complete_some hcallback]
  refine .call ⟨hprogress, hfits, hbacked⟩ ?_
  rintro _ _ ⟨answers, -, -, rfl, -⟩
  exact Consistent.of_not_busy { register with callback := none } hcount hreading hwriting _

theorem meets_client (h : Consistent processesCount register world)
    (hnone : inProgress world.log = none) (cmd : ClientRegisterCommand) :
    (register.clientCommand cmd (issued world.log).length).Meets
      (callbackScheme processesCount).contract { world with log := .client cmd :: world.log } := by
  -- no command is in progress, so the register is not busy
  have hreading : register.reading = false := by
    by_contra hne
    obtain ⟨callback, _, _, hprogress, _⟩ := h.reading (by simpa using hne)
    rw [hnone] at hprogress
    cases hprogress
  have hwriting : register.state.writing = false := by
    by_contra hne
    obtain ⟨callback, _, _, hprogress, _⟩ := h.writing (by simpa using hne)
    rw [hnone] at hprogress
    cases hprogress
  have hissued : (issued (.client cmd :: world.log))[(issued world.log).length]? = some cmd :=
    List.getElem?_concat_length
  rw [AtomicRegisterImplementation.clientCommand_eq]
  cases hcontent : cmd.content with
  | read =>
    have hstart : register.startCommand cmd (issued world.log).length =
        { register with
          callback := some (issued world.log).length
          state := { register.state with readIdent := register.state.readIdent + 1 }
          acks := ∅
          readlist := ∅
          readval := some ⟨cmd.header.requestIdentifier, ⟨[]⟩⟩
          reading := true } := by
      rw [AtomicRegisterImplementation.startCommand, hcontent]
    apply meets_opening
    · rw [hstart]
      simp [hwriting]
    · intro stored
      rw [hstart]
      refine ⟨h.count, by simp [hwriting], ?_, by simp [hwriting], ?_⟩
      · intro _
        refine ⟨_, _, rfl, rfl, rfl, fun ret => ⟨rfl, cmd, hissued, rfl, ?_⟩⟩
        rw [hcontent]
        trivial
      · intro _
        exact ⟨rfl, Finset.empty_subset _⟩
  | write data =>
    have hstart : register.startCommand cmd (issued world.log).length =
        { register with
          callback := some (issued world.log).length
          state := { register.state with
            readIdent := register.state.readIdent + 1
            writeval := some ⟨cmd.header, data⟩
            writing := true }
          acks := ∅
          readlist := ∅ } := by
      rw [AtomicRegisterImplementation.startCommand, hcontent]
    apply meets_opening
    · rw [hstart]
      simp
    · intro stored
      rw [hstart]
      refine ⟨h.count, by simp [hreading], by simp [hreading], ?_, ?_⟩
      · intro _
        refine ⟨_, _, rfl, rfl, rfl, rfl, cmd, hissued, rfl, ?_⟩
        rw [hcontent]
        trivial
      · intro _
        exact ⟨rfl, Finset.empty_subset _⟩

/-- The register agrees with the record also when a system command has come in. -/
theorem Consistent.received (h : Consistent processesCount register world)
    (cmd : SystemRegisterCommand) :
    Consistent processesCount register { world with log := .received cmd :: world.log } := by
  refine ⟨h.count, h.apart, h.reading, h.writing, ?_⟩
  intro hbusy
  obtain ⟨hident, hacks⟩ := h.acks hbusy
  refine ⟨hident, hacks.trans ?_⟩
  rw [ackers]
  split
  · exact Finset.subset_insert _ _
  · exact Finset.Subset.refl _

/-- A majority of `Value`s opens the write phase. -/
theorem meets_value (h : Consistent processesCount register world) (iter : IterOrder)
    (header : SystemCommandHeader) (value : UInt64 × UInt8 × SectorVec) :
    (register.handleValue iter header value).Meets (callbackScheme processesCount).contract
      world := by
  have hcases := register.handleValue_cases iter header value
  generalize register.handleValue iter header value = program at hcases ⊢
  cases hcases with
  | stale hid => exact h
  | collected hid hfew => exact ⟨h.count, h.apart, h.reading, h.writing, h.acks⟩
  | @read max readval hid hreading hquorum hmax hval =>
    have hwriting : register.state.writing ≠ true := fun hw => h.apart ⟨hreading, hw⟩
    apply meets_opening
    · intro hw
      exact absurd hw hwriting
    · intro stored
      refine ⟨h.count, h.apart, ?_, fun hw => absurd hw hwriting, ?_⟩
      · intro _
        obtain ⟨callback, readval', hcallback, hprogress, hval', hfits⟩ := h.reading hreading
        rw [hval, Option.some.injEq] at hval'
        subst hval'
        exact ⟨callback, _, hcallback, hprogress, rfl, hfits⟩
      · intro _
        exact ⟨rfl, Finset.empty_subset _⟩
  | @write max writeval hid hreading hwriting hquorum hmax hval =>
    apply meets_opening
    · intro _
      show register.state.writeval ≠ none
      rw [hval]
      exact Option.some_ne_none _
    · intro stored
      exact ⟨h.count, h.apart, h.reading, h.writing, fun _ => ⟨rfl, Finset.empty_subset _⟩⟩
  | panicRead hid hreading hval =>
    obtain ⟨_, _, _, _, hsome, _⟩ := h.reading hreading
    rw [hval] at hsome
    cases hsome
  | panicWrite hid hreading hwriting hval =>
    obtain ⟨_, _, _, _, hsome, _⟩ := h.writing hwriting
    rw [hval] at hsome
    cases hsome

/-- The acknowledgements counted are among those received. -/
theorem Consistent.acks_insert (h : Consistent processesCount register world)
    (hbusy : register.Busy = true) {cmd : SystemRegisterCommand} (hack : cmd.content = .ack)
    (hid : cmd.header.readIdent = register.state.readIdent) :
    insert cmd.header.processIdentifier register.acks ⊆ ackers (.received cmd :: world.log) := by
  obtain ⟨hident, hacks⟩ := h.acks hbusy
  rw [ackers, if_pos ⟨hack, by rw [hident, hid]⟩]
  exact Finset.insert_subset_insert _ hacks

/-- A majority of `Ack`s completes the operation. -/
theorem meets_ack (h : Consistent processesCount register world) {cmd : SystemRegisterCommand}
    (hack : cmd.content = .ack) :
    (register.handleAck cmd.header).Meets (callbackScheme processesCount).contract
      { world with log := .received cmd :: world.log } := by
  have hreceived := h.received cmd
  -- the quorum is made of processes whose acks have been received in this phase
  have hbacked : register.Busy = true → cmd.header.readIdent = register.state.readIdent →
      (register.count cmd.header.processIdentifier).AckQuorum →
      Backed processesCount (.received cmd :: world.log) := by
    intro hbusy hid hquorum
    have hcard := Finset.card_le_card (h.acks_insert hbusy hack hid)
    have hcount := h.count
    rw [AtomicRegisterImplementation.AckQuorum] at hquorum
    show processesCount < _
    simp only [AtomicRegisterImplementation.count] at hquorum
    omega
  have hcases := register.handleAck_cases cmd.header
  generalize register.handleAck cmd.header = program at hcases ⊢
  cases hcases with
  | stale hid => exact hreceived
  | counted hid hfew =>
    refine ⟨h.count, h.apart, hreceived.reading, hreceived.writing, ?_⟩
    intro hbusy
    exact ⟨(hreceived.acks hbusy).1, h.acks_insert hbusy hack hid⟩
  | @read readval hid hreading hquorum hval =>
    have hwriting : register.state.writing = false := by
      by_contra hne
      exact h.apart ⟨hreading, by simpa using hne⟩
    obtain ⟨callback, readval', hcallback, hprogress, hval', hfits⟩ := hreceived.reading hreading
    rw [hval, Option.some.injEq] at hval'
    subst hval'
    have hmajority := hbacked (by simp [hreading]) hid hquorum
    exact meets_invoking register.endRead hcallback hprogress (hfits _) hmajority
      h.count rfl hwriting
  | @write writeval hid hreading hwriting hquorum hval =>
    refine .call (fun hw => by cases hw) ?_
    rintro _ _ ⟨answers, -, -, rfl, -⟩
    obtain ⟨callback, writeval', hcallback, hprogress, hval', hfits⟩ := hreceived.writing hwriting
    rw [hval, Option.some.injEq] at hval'
    subst hval'
    -- storing the register adds nothing to the record
    have hlog : (World.perform { world with log := .received cmd :: world.log } answers
        (.put register.endWrite.state)).log = .received cmd :: world.log := by
      rw [World.perform]
      split <;> rfl
    have hmajority := hbacked (by simp [hwriting]) hid hquorum
    refine meets_invoking register.endWrite hcallback ?_ ?_ ?_ h.count hreading rfl
    · rw [hlog]
      exact hprogress
    · rw [hlog]
      exact hfits
    · rw [hlog]
      exact hmajority
  | panicRead hid hreading hval =>
    obtain ⟨_, _, _, _, hsome, _⟩ := h.reading hreading
    rw [hval] at hsome
    cases hsome
  | panicWrite hid hreading hwriting hval =>
    obtain ⟨_, _, _, _, hsome, _⟩ := h.writing hwriting
    rw [hval] at hsome
    cases hsome

theorem meets_system (h : Consistent processesCount register world) (iter : IterOrder)
    (cmd : SystemRegisterCommand) :
    (register.systemCommand iter cmd).Meets (callbackScheme processesCount).contract
      { world with log := .received cmd :: world.log } := by
  have hquiet : ∀ op world, quiet op = true → Permitted processesCount op world := by
    intro op world hop
    cases op with
    | put state => cases hop
    | operationComplete callback op => cases hop
    | panic => cases hop
    | _ => trivial
  have hreceived := h.received cmd
  rw [AtomicRegisterImplementation.systemCommand]
  cases hcontent : cmd.content with
  | readProc => exact (quiet_handleReadProc register cmd.header).meets hquiet hreceived
  | value timestamp writeRank data => exact meets_value hreceived iter cmd.header _
  | writeProc timestamp writeRank data =>
    exact (quiet_handleWriteProc register cmd.header timestamp writeRank data).meets hquiet hreceived
  | ack => exact meets_ack h hcontent

end

/-! ## Runs -/

theorem callbackScheme_sound (selfIdent : UInt8) (processesCount : ℕ) :
    (callbackScheme processesCount).Sound selfIdent processesCount OneAtATime := by
  constructor
  · refine ⟨?_, ?_, List.nodup_nil, ?_, ?_⟩
    · intro state hstored
      cases hstored
    · intro later callback op earlier heq
      exact absurd heq (by simp)
    · intro callback hmem
      cases hmem
    · intro callback hprogress
      cases hprogress
  · intro _ _ _
    trivial
  · intro op world answers hbooked hok _
    exact hbooked.perform hok answers
  · intro world hbooked
    exact hbooked.crashed
  · intro world register pending _ hnew
    rcases new_cases selfIdent processesCount world.stored with
      ⟨register', pending', hnew', hcount, hreading, hwriting, _⟩ | ⟨hnew', _⟩
    · rw [hnew'] at hnew
      cases hnew
      exact Consistent.of_not_busy register hcount hreading hwriting world
    · rw [hnew'] at hnew
      cases hnew
  · intro world op next hbooked hnew
    rcases new_cases selfIdent processesCount world.stored with
      ⟨register', pending', hnew', _⟩ | ⟨_, hwriting, hwriteval⟩
    · rw [hnew'] at hnew
      cases hnew
    · -- what is stored as a write has a value
      cases hstored : world.stored with
      | none =>
        rw [hstored] at hwriting
        cases hwriting
      | some state =>
        rw [hstored] at hwriting hwriteval
        exact absurd hwriteval (hbooked.stored state hstored hwriting)
  · intro register world cmd hbooked hconsistent hnone
    exact ⟨hbooked.client cmd, meets_client hconsistent hnone cmd⟩
  · intro register world iter cmd hbooked hconsistent _
    exact ⟨hbooked.received cmd, meets_system hconsistent iter cmd⟩

/-- **Completion.** In every run in which client commands come one at a time: no `unwrap`
fails, a register is never reading and writing at once, and every callback is invoked at
most once, with status `Ok`, the request identifier of its command and an answer of its
kind, when more than half of the processes have acknowledged the latest broadcast, whose
identifier is that of the register as long as it has an operation. -/
theorem callbacks_right_and_backed (selfIdent : UInt8) (processesCount : ℕ) {machine : Machine}
    (h : Reachable (Machine.step selfIdent processesCount) OneAtATime .fresh machine) :
    machine.phase ≠ .panicked ∧
      (∀ register, machine.phase = .idle register →
        ¬ (register.reading = true ∧ register.state.writing = true) ∧
        (register.Busy = true → phaseIdent machine.world.log = some register.state.readIdent)) ∧
      (invoked machine.world.log).Nodup ∧ Right processesCount machine.world.log := by
  obtain ⟨hbooked, hphase⟩ := (callbackScheme_sound selfIdent processesCount).holds h
  refine ⟨?_, ?_, hbooked.nodup, hbooked.right⟩
  · intro hpanicked
    rw [hpanicked] at hphase
    exact hphase
  · intro register hidle
    rw [hidle] at hphase
    have hconsistent : Consistent processesCount register machine.world := hphase
    exact ⟨hconsistent.apart, fun hbusy => (hconsistent.acks hbusy).1⟩

/-- The first of three processes reads a sector, and the second one helps. -/
def helpedRead : List Action :=
  let working : Register.Answers := ⟨.new, (0, 0), true, true⟩
  let header (p : UInt8) (readIdent : UInt64) : SystemCommandHeader :=
    ⟨p, .fromRequest 7, readIdent, 0⟩
  [.recover, .client ⟨⟨7, 0⟩, .read⟩, .call working, .call working, .finish,
    .system .listed ⟨header 1 1, .value 0 0 .new⟩, .finish,
    .system .listed ⟨header 2 1, .value 0 0 .new⟩, .call working, .call working, .finish,
    .system .listed ⟨header 1 2, .ack⟩, .finish,
    .system .listed ⟨header 2 2, .ack⟩, .call working, .finish]

set_option maxRecDepth 100000 in
/-- The callback of the read is invoked, backed by two processes. -/
theorem helped_read_completes :
    ∃ machine, Reachable (Machine.step 1 3) OneAtATime .fresh machine ∧
      invoked machine.world.log = [0] ∧ machine.phase ≠ .panicked ∧ Right 3 machine.world.log := by
  obtain ⟨machine, hreach, hinvoked⟩ :
      ∃ machine, Reachable (Machine.step 1 3) OneAtATime .fresh machine ∧
        invoked machine.world.log = [0] :=
    exists_of_exec helpedRead (by decide +kernel)
  obtain ⟨hpanicked, _, _, hright⟩ := callbacks_right_and_backed 1 3 hreach
  exact ⟨machine, hreach, hinvoked, hpanicked, hright⟩

end Register
end AtomicDiscDrive
