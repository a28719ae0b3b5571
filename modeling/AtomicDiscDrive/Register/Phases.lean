import AtomicDiscDrive.Register.Machine

/-!
# Phase identifiers across crashes

`read_ident` is stored before it is broadcast, and `new` starts from the stored one. So the
identifier on the stable storage is never below that of a broadcast, and strictly above all
of them when the next broadcast is due. This holds at every call of a handler, so it
survives a crash at any of them.
-/

namespace AtomicDiscDrive
namespace Register

open Utils

/-- The identifier `new` would start from. -/
def World.ident (world : World) : UInt64 := (world.stored.getD .empty).readIdent

/-- The `Value` that completes a read phase. -/
def opensPhase (register : AtomicRegisterImplementation) (cmd : SystemRegisterCommand) : Bool :=
  match cmd.content with
  | .value timestamp writeRank data =>
    decide (cmd.header.readIdent = register.state.readIdent) && register.Busy &&
      decide (register.collect cmd.header.processIdentifier (timestamp, writeRank, data)).ReadQuorum
  | _ => false

/-- The register can increment `read_ident` if the command makes it do so. -/
def Phase.HasNext (increments : AtomicRegisterImplementation → Bool) : Phase → Prop
  | .idle register => increments register = true → register.state.readIdent.toNat + 1 < 2 ^ 64
  | _ => True

instance (increments : AtomicRegisterImplementation → Bool) : DecidablePred (Phase.HasNext increments)
  | .idle register => inferInstanceAs
    (Decidable (increments register = true → register.state.readIdent.toNat + 1 < 2 ^ 64))
  | .running _ | .down | .panicked => inferInstanceAs (Decidable True)

/-- `read_ident` does not overflow, and every `put` is stored. -/
def Steady (machine : Machine) : Action → Prop
  | .client _ => machine.phase.HasNext fun _ => true
  | .system _ cmd => machine.phase.HasNext fun register => opensPhase register cmd
  | .call answers => answers.stored = true
  | _ => True

instance (machine : Machine) : DecidablePred (Steady machine)
  | .client _ => inferInstanceAs (Decidable (machine.phase.HasNext fun _ => true))
  | .system _ cmd =>
    inferInstanceAs (Decidable (machine.phase.HasNext fun register => opensPhase register cmd))
  | .call answers => inferInstanceAs (Decidable (answers.stored = true))
  | .finish | .crash | .recover => inferInstanceAs (Decidable True)

/-- The broadcasts are in order, and none is above the stored identifier. -/
structure Ordered (world : World) : Prop where
  increasing : (broadcasts world.log).Pairwise
    fun later earlier => earlier.header.readIdent < later.header.readIdent
  below : ∀ cmd ∈ broadcasts world.log, cmd.header.readIdent ≤ world.ident

/-- When a handler may make a call: what is stored does not go back, and what is broadcast
is stored, and new. -/
def Advances : RegisterOp → World → Prop
  | .put state, world => world.ident ≤ state.readIdent
  | .broadcast cmd, world => cmd.header.readIdent = world.ident ∧
    ∀ earlier ∈ broadcasts world.log, earlier.header.readIdent < world.ident
  | _, _ => True

/-- The register has the stored identifier, and an operation only in a live phase. -/
structure AtPhase (register : AtomicRegisterImplementation) (world : World) : Prop where
  ident : register.state.readIdent = world.ident
  busy : register.Busy = true → live world.log = true

def phaseScheme : Scheme where
  settled := AtPhase
  lasting := Ordered
  ok := Advances
  accepts answers := answers.stored = true

/-! ## The handlers -/

theorem ident_lt_add_one {n : UInt64} (h : n.toNat + 1 < 2 ^ 64) : n < n + 1 := by
  rw [UInt64.lt_iff_toNat_lt, UInt64.toNat_add]
  show n.toNat < (n.toNat + 1) % 2 ^ 64
  rw [Nat.mod_eq_of_lt h]
  omega

section Handlers

variable {register : AtomicRegisterImplementation} {world : World}

/-- A new identifier is stored and then broadcast. -/
theorem meets_newPhase (hworld : Ordered world) {state : AtomicRegisterStorageState}
    (hident : world.ident < state.readIdent) {cmd : SystemRegisterCommand}
    (hcmd : cmd.header.readIdent = state.readIdent) (hregister : register.state = state) :
    Program.Meets phaseScheme.contract
      (.call (RegisterOp.put state) fun _ => .call (RegisterOp.broadcast cmd) fun _ => .done register)
      world := by
  refine .call (UInt64.le_of_lt hident) ?_
  rintro _ _ ⟨answers, haccepts, -, rfl, -⟩
  have hstored : (world.perform answers (.put state)).ident = state.readIdent := by
    simp [World.perform, show answers.stored = true from haccepts, World.ident]
  have hlog : (world.perform answers (.put state)).log = world.log := by
    simp [World.perform, show answers.stored = true from haccepts]
  refine .call ⟨hcmd.trans hstored.symm, ?_⟩ ?_
  · rw [hlog, hstored]
    intro earlier hmem
    exact UInt64.lt_of_le_of_lt (hworld.below earlier hmem) hident
  · rintro _ _ ⟨answers', -, -, rfl, -⟩
    refine .done ⟨?_, fun _ => rfl⟩
    rw [hregister]
    exact hstored.symm

variable (hregister : AtPhase register world)
include hregister

theorem meets_complete (requestIdentifier : UInt64) (opReturn : OperationReturn) :
    (register.complete requestIdentifier opReturn).Meets phaseScheme.contract world := by
  cases hcallback : register.callback with
  | none =>
    rw [AtomicRegisterImplementation.complete_none hcallback]
    exact hregister
  | some callback =>
    rw [AtomicRegisterImplementation.complete_some hcallback]
    refine .call trivial ?_
    rintro _ _ ⟨answers, -, -, rfl, -⟩
    exact .done ⟨hregister.ident, hregister.busy⟩

/-- The write phase of an operation. -/
theorem meets_handleValue (hworld : Ordered world) (iter : IterOrder)
    (header : SystemCommandHeader) (value : UInt64 × UInt8 × SectorVec)
    (hmax : header.readIdent = register.state.readIdent → register.Busy = true →
      (register.collect header.processIdentifier value).ReadQuorum →
      register.state.readIdent.toNat + 1 < 2 ^ 64) :
    (register.handleValue iter header value).Meets phaseScheme.contract world := by
  have hnext : register.state.readIdent.toNat + 1 < 2 ^ 64 →
      world.ident < register.state.readIdent + 1 := by
    intro hlt
    rw [← hregister.ident]
    exact ident_lt_add_one hlt
  have hcases := register.handleValue_cases iter header value
  generalize register.handleValue iter header value = program at hcases ⊢
  cases hcases with
  | stale hid => exact hregister
  | collected hid hfew => exact ⟨hregister.ident, hregister.busy⟩
  | read hid hreading hquorum =>
    exact meets_newPhase hworld (hnext (hmax hid (by simp [hreading]) hquorum)) rfl rfl
  | write hid hreading hwriting hquorum =>
    exact meets_newPhase hworld (hnext (hmax hid (by simp [hwriting]) hquorum)) rfl rfl
  | panicRead hid hreading hval => exact .call trivial fun x => Empty.elim x
  | panicWrite hid hreading hwriting hval => exact .call trivial fun x => Empty.elim x

/-- The end of an operation. -/
theorem meets_handleAck (header : SystemCommandHeader) :
    (register.handleAck header).Meets phaseScheme.contract world := by
  -- fewer flags are set afterwards
  have hread : AtPhase register.endRead world := by
    refine ⟨hregister.ident, fun h => hregister.busy ?_⟩
    have hwriting : register.state.writing = true := by
      simpa [AtomicRegisterImplementation.endRead] using h
    simp [hwriting]
  have hwrite : ∀ answers : Answers, answers.stored = true →
      AtPhase register.endWrite (world.perform answers (.put register.endWrite.state)) := by
    intro answers hstored
    have hperform : world.perform answers (.put register.endWrite.state) =
        { world with stored := some register.endWrite.state } := if_pos hstored
    rw [hperform]
    refine ⟨rfl, fun h => hregister.busy ?_⟩
    have hreading : register.reading = true := by
      simpa [AtomicRegisterImplementation.endWrite] using h
    simp [hreading]
  have hcases := register.handleAck_cases header
  generalize register.handleAck header = program at hcases ⊢
  cases hcases with
  | stale hid => exact hregister
  | counted hid hfew => exact ⟨hregister.ident, hregister.busy⟩
  | read hid hreading hquorum hval => exact meets_complete hread _ _
  | write hid hreading hwriting hquorum hval =>
    refine .call (UInt64.le_of_eq hregister.ident.symm) ?_
    rintro _ _ ⟨answers, hstored, -, rfl, -⟩
    exact meets_complete (hwrite answers hstored) _ _
  | panicRead hid hreading hval => exact .call trivial fun x => Empty.elim x
  | panicWrite hid hreading hwriting hval =>
    refine .call (UInt64.le_of_eq hregister.ident.symm) ?_
    rintro _ _ ⟨answers, hstored, -, rfl, -⟩
    exact .call trivial fun x => Empty.elim x

theorem meets_systemCommand (hworld : Ordered world) (iter : IterOrder)
    (cmd : SystemRegisterCommand)
    (hmax : opensPhase register cmd = true → register.state.readIdent.toNat + 1 < 2 ^ 64) :
    (register.systemCommand iter cmd).Meets phaseScheme.contract world := by
  have hquiet : ∀ op world, quiet op = true → Advances op world := by
    intro op world h
    cases op with
    | put state => cases h
    | broadcast cmd => cases h
    | _ => trivial
  rw [AtomicRegisterImplementation.systemCommand]
  cases hcontent : cmd.content with
  | readProc => exact (quiet_handleReadProc register cmd.header).meets hquiet hregister
  | value timestamp writeRank sectorData =>
    apply meets_handleValue hregister hworld
    intro hid hbusy hquorum
    apply hmax
    simp [opensPhase, hcontent, hid, hbusy, hquorum]
  | writeProc timestamp writeRank data =>
    exact (quiet_handleWriteProc register cmd.header timestamp writeRank data).meets hquiet hregister
  | ack => exact meets_handleAck hregister cmd.header

theorem meets_clientCommand (hworld : Ordered world)
    (hmax : register.state.readIdent.toNat + 1 < 2 ^ 64) (cmd : ClientRegisterCommand)
    (callback : Callback) :
    (register.clientCommand cmd callback).Meets phaseScheme.contract world := by
  have hident : (register.startCommand cmd callback).state.readIdent =
      register.state.readIdent + 1 := by
    rw [AtomicRegisterImplementation.startCommand]
    cases cmd.content <;> rfl
  have hnext : world.ident < (register.startCommand cmd callback).state.readIdent := by
    rw [hident, ← hregister.ident]
    exact ident_lt_add_one hmax
  rw [AtomicRegisterImplementation.clientCommand_eq]
  exact meets_newPhase hworld hnext rfl rfl

end Handlers

/-! ## Runs -/

theorem phaseScheme_sound (selfIdent : UInt8) (processesCount : ℕ) :
    phaseScheme.Sound selfIdent processesCount Steady := by
  constructor
  · exact ⟨List.Pairwise.nil, fun _ h => by cases h⟩
  · intro machine answers h
    exact h
  · intro op world answers hworld hok hstored
    cases op with
    | put state =>
      -- a store comes before the broadcast of its phase, so the stored identifier is not below any
      have hperform : world.perform answers (.put state) = { world with stored := some state } :=
        if_pos hstored
      rw [hperform]
      exact ⟨hworld.increasing, fun cmd hcmd => UInt64.le_trans (hworld.below cmd hcmd) hok⟩
    | broadcast cmd =>
      obtain ⟨hident, hnew⟩ := hok
      refine ⟨List.Pairwise.cons ?_ hworld.increasing, ?_⟩
      · intro earlier hmem
        rw [hident]
        exact hnew earlier hmem
      · intro cmd' hmem
        rcases List.mem_cons.mp hmem with rfl | hmem
        · exact UInt64.le_of_eq hident
        · exact hworld.below cmd' hmem
    | _ => exact ⟨hworld.increasing, hworld.below⟩
  · intro world hworld
    exact ⟨hworld.increasing, hworld.below⟩
  · intro world register pending _ hnew
    rcases new_cases selfIdent processesCount world.stored with
      ⟨register', pending', hnew', _, hreading, hwriting, hident⟩ | ⟨hnew', _⟩
    · rw [hnew'] at hnew
      cases hnew
      -- after a restart the register has the stored identifier, and no phase is open
      refine ⟨hident, fun h => ?_⟩
      rw [AtomicRegisterImplementation.Busy, hreading, hwriting] at h
      cases h
    · rw [hnew'] at hnew
      cases hnew
  · intro world op next _ _
    trivial
  · intro register world cmd hworld hsettled hsteady
    have hworld' : Ordered { world with log := .client cmd :: world.log } :=
      ⟨hworld.increasing, hworld.below⟩
    have hregister : AtPhase register { world with log := .client cmd :: world.log } :=
      ⟨hsettled.ident, hsettled.busy⟩
    exact ⟨hworld', meets_clientCommand hregister hworld' (hsteady rfl) cmd _⟩
  · intro register world iter cmd hworld hsettled hsteady
    have hworld' : Ordered { world with log := .received cmd :: world.log } :=
      ⟨hworld.increasing, hworld.below⟩
    have hregister : AtPhase register { world with log := .received cmd :: world.log } :=
      ⟨hsettled.ident, hsettled.busy⟩
    exact ⟨hworld', meets_systemCommand hregister hworld' iter cmd hsteady⟩

/-- A reply to the phase with the given identifier. -/
def IsReply (cmd : SystemRegisterCommand) (ident : UInt64) : Prop :=
  cmd.header.readIdent = ident ∧
    (cmd.content = .ack ∨ ∃ timestamp writeRank data, cmd.content = .value timestamp writeRank data)

/-- A reply with another identifier than that of the register is ignored. -/
theorem systemCommand_of_isReply {register : AtomicRegisterImplementation} {ident : UInt64}
    (hident : ident ≠ register.state.readIdent) {cmd : SystemRegisterCommand}
    (hreply : IsReply cmd ident) (iter : IterOrder) :
    register.systemCommand iter cmd = .done register := by
  obtain ⟨hcmd, hcontent⟩ := hreply
  have hstale : cmd.header.readIdent ≠ register.state.readIdent := by
    rw [hcmd]
    exact hident
  rw [AtomicRegisterImplementation.systemCommand]
  rcases hcontent with hack | ⟨timestamp, writeRank, data, hvalue⟩
  · rw [hack]
    show register.handleAck cmd.header = _
    rw [AtomicRegisterImplementation.handleAck, if_pos hstale]
    rfl
  · rw [hvalue]
    show register.handleValue iter cmd.header (timestamp, writeRank, data) = _
    rw [AtomicRegisterImplementation.handleValue, if_pos hstale]
    rfl

/-- A reply that finds no operation in progress is forgotten by the next client command. -/
theorem systemCommand_of_not_busy {register : AtomicRegisterImplementation}
    (hbusy : register.Busy = false) {ident : UInt64} {cmd : SystemRegisterCommand}
    (hreply : IsReply cmd ident) (iter : IterOrder) :
    ∃ register', register.systemCommand iter cmd = .done register' ∧
      ∀ client callback, register'.clientCommand client callback =
        register.clientCommand client callback := by
  obtain ⟨_, hcontent⟩ := hreply
  rw [AtomicRegisterImplementation.systemCommand]
  rcases hcontent with hack | ⟨timestamp, writeRank, data, hvalue⟩
  · rw [hack]
    show ∃ register', register.handleAck cmd.header = .done register' ∧ _
    have hcases := register.handleAck_cases cmd.header
    generalize register.handleAck cmd.header = program at hcases ⊢
    cases hcases with
    | stale hid => exact ⟨register, rfl, fun _ _ => rfl⟩
    | counted hid hfew => exact ⟨_, rfl, fun _ _ => rfl⟩
    | read hid hreading | panicRead hid hreading => simp [hreading] at hbusy
    | write hid hreading hwriting | panicWrite hid hreading hwriting => simp [hwriting] at hbusy
  · rw [hvalue]
    show ∃ register', register.handleValue iter cmd.header (timestamp, writeRank, data) =
      .done register' ∧ _
    have hcases := register.handleValue_cases iter cmd.header (timestamp, writeRank, data)
    generalize register.handleValue iter cmd.header (timestamp, writeRank, data) = program
      at hcases ⊢
    cases hcases with
    | stale hid => exact ⟨register, rfl, fun _ _ => rfl⟩
    | collected hid hfew => exact ⟨_, rfl, fun _ _ => rfl⟩
    | read hid hreading | panicRead hid hreading => simp [hreading] at hbusy
    | write hid hreading hwriting | panicWrite hid hreading hwriting => simp [hwriting] at hbusy

/-- An earlier phase does not have the identifier of the register. -/
theorem Ordered.ident_ne_of_mem_tail {world : World} (h : Ordered world)
    {phase : SystemRegisterCommand} (hmem : phase ∈ (broadcasts world.log).tail) :
    phase.header.readIdent ≠ world.ident := by
  obtain ⟨hincreasing, hbelow⟩ := h
  cases hbroadcasts : broadcasts world.log with
  | nil =>
    rw [hbroadcasts] at hmem
    cases hmem
  | cons latest rest =>
    rw [hbroadcasts] at hmem hincreasing hbelow
    -- it is below the latest one, which is not above the stored identifier
    have hlt := List.rel_of_pairwise_cons hincreasing hmem
    have hle := hbelow latest List.mem_cons_self
    intro heq
    rw [heq] at hlt
    exact UInt64.lt_irrefl _ (UInt64.lt_of_lt_of_le hlt hle)

/-- **Phase identifiers are never reused.** Over a whole run, with crashes between any two
calls, the identifiers of the broadcasts are strictly increasing. A reply to any of them but
the latest is ignored; and if there was a crash since the latest one, every reply is
forgotten by the next client command. -/
theorem phase_idents_increasing (selfIdent : UInt8) (processesCount : ℕ) {machine : Machine}
    (h : Reachable (Machine.step selfIdent processesCount) Steady .fresh machine) :
    (broadcasts machine.world.log).reverse.Pairwise
        (fun earlier later => earlier.header.readIdent < later.header.readIdent) ∧
      ∀ register, machine.phase = .idle register → ∀ phase ∈ broadcasts machine.world.log,
        ∀ iter cmd, IsReply cmd phase.header.readIdent →
          (phase ∈ (broadcasts machine.world.log).tail →
            register.systemCommand iter cmd = .done register) ∧
          (live machine.world.log = false →
            ∃ register', register.systemCommand iter cmd = .done register' ∧
              ∀ client callback, register'.clientCommand client callback =
                register.clientCommand client callback) := by
  obtain ⟨hordered, hphase⟩ := (phaseScheme_sound selfIdent processesCount).holds h
  refine ⟨List.pairwise_reverse.mpr hordered.increasing, ?_⟩
  intro register hidle phase _ iter cmd hreply
  rw [hidle] at hphase
  have hregister : AtPhase register machine.world := hphase
  refine ⟨?_, ?_⟩
  · intro hmem
    apply systemCommand_of_isReply _ hreply
    rw [hregister.ident]
    exact hordered.ident_ne_of_mem_tail hmem
  · intro hdead
    apply systemCommand_of_not_busy _ hreply
    by_contra hbusy
    have hlive := hregister.busy ((Bool.not_eq_false _).mp hbusy)
    rw [hdead] at hlive
    cases hlive

/-- Answers of a store that works. -/
def plainAnswers : Answers := ⟨.new, (0, 0), true, true⟩

/-- A read, a crash, and another read. -/
def crashedRun : List Action :=
  [.recover, .client ⟨⟨7, 0⟩, .read⟩, .call plainAnswers, .call plainAnswers, .finish, .crash,
    .recover, .client ⟨⟨8, 0⟩, .read⟩, .call plainAnswers, .call plainAnswers, .finish]

/-- The two reads have different phases. -/
theorem phase_idents_after_crash :
    ∃ machine, Reachable (Machine.step 1 3) Steady .fresh machine ∧
      ((broadcasts machine.world.log).map fun cmd => cmd.header.readIdent) = [2, 1] ∧
      (broadcasts machine.world.log).reverse.Pairwise
        (fun earlier later => earlier.header.readIdent < later.header.readIdent) := by
  obtain ⟨machine, hreach, hbroadcasts⟩ :
      ∃ machine, Reachable (Machine.step 1 3) Steady .fresh machine ∧
        ((broadcasts machine.world.log).map fun cmd => cmd.header.readIdent) = [2, 1] :=
    exists_of_exec crashedRun (by decide +kernel)
  exact ⟨machine, hreach, hbroadcasts, (phase_idents_increasing 1 3 hreach).1⟩

end Register
end AtomicDiscDrive
