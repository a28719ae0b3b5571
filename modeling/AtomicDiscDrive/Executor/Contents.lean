import AtomicDiscDrive.Utils.Contract
import AtomicDiscDrive.Executor.Tallies

/-!
# Data and the sectors they are for

Data stay with their sector: what is in a sector file, in a message for the sector or in the
hands of a read of it has been written to the sector by a client, or is what the sector held
at first. `known idx data` is a parameter here; it may grow from step to step.

Handlers that answer a request are described by a contract (`serving`): a reply goes to the
process that asked, copies the identifiers of the request, and carries data of its sector.
-/

namespace AtomicDiscDrive
namespace Executor

open Utils AtomicRegisterImplementation

/-- The data a message carries. -/
def contentData : SystemRegisterCommandContent → Option SectorVec
  | .value _ _ data | .writeProc _ _ data => some data
  | .readProc | .ack => none

/-- The data of a message are for its sector. -/
def Carries (known : SectorIdx → SectorVec → Prop) (cmd : SystemRegisterCommand) : Prop :=
  ∀ data, contentData cmd.content = some data → known cmd.header.sectorIdx data

/-! ## Handlers -/

/-- A reply of process `selfIdent` to the request. -/
structure Replies (selfIdent : UInt8) (request : SystemRegisterCommand)
    (known : SectorIdx → SectorVec → Prop) (reply : SystemRegisterCommand) (target : ℕ) :
    Prop where
  target : target = request.header.processIdentifier.toNat
  process : reply.header.processIdentifier = selfIdent
  answers : Answers request reply
  carries : Carries known reply

/-- What a handler of `msg` may send and write, and what it may rely on. -/
def serving (selfIdent : UInt8) (msg : WorkerMessage) :
    Contract registerSignature AtomicRegisterImplementation (SectorIdx → SectorVec → Prop) where
  ok op known := match op with
    | .send cmd target => ∃ request o, msg = .system request o ∧
        Replies selfIdent request known cmd target
    | .writeData idx data => known idx data
    | _ => True
  after op x known known' := (∀ idx data, known idx data → known' idx data) ∧
    match op, x with
    | .readData idx, data => known' idx data
    | _, _ => True
  post _ _ := True

section

variable {selfIdent : UInt8} {msg : WorkerMessage} {known known' : SectorIdx → SectorVec → Prop}
  {register : AtomicRegisterImplementation} {header : SystemCommandHeader}
  {p : RegisterProgram AtomicRegisterImplementation}

theorem Carries.mono {cmd : SystemRegisterCommand} (h : Carries known cmd)
    (hle : ∀ idx data, known idx data → known' idx data) : Carries known' cmd :=
  fun data hdata => hle _ _ (h data hdata)

/-- More may be known when the handler goes on. -/
theorem meets_mono (h : p.Meets (serving selfIdent msg) known)
    (hle : ∀ idx data, known idx data → known' idx data) :
    p.Meets (serving selfIdent msg) known' := by
  cases p with
  | done a => trivial
  | call op next =>
    refine .call ?_ fun x known'' hafter => ?_
    · have hok := h.ok
      cases op with
      | send cmd target =>
        obtain ⟨request, o, hmsg, hreply⟩ := hok
        exact ⟨request, o, hmsg, hreply.target, hreply.process, hreply.answers,
          hreply.carries.mono hle⟩
      | writeData idx data => exact hle _ _ hok
      | _ => trivial
    · exact h.next ⟨fun idx data hk => hafter.1 idx data (hle idx data hk), hafter.2⟩

theorem meets_enterWritePhase (content : SystemRegisterCommandContent) :
    (register.enterWritePhase header content).Meets (serving selfIdent msg) known :=
  .call trivial fun _ _ _ => .call trivial fun _ _ _ => .done trivial

theorem meets_complete (requestIdentifier : UInt64) (opReturn : OperationReturn) :
    (register.complete requestIdentifier opReturn).Meets (serving selfIdent msg) known := by
  cases hcallback : register.callback with
  | none =>
    rw [complete_none hcallback]
    exact .done trivial
  | some t =>
    rw [complete_some hcallback]
    exact .call trivial fun _ _ _ => .done trivial

/-- A `ReadProc` is answered with the data of its sector. -/
theorem meets_handleReadProc (o : Origin) (hself : register.selfIdent = selfIdent) :
    (register.handleReadProc header).Meets
      (serving selfIdent (.system ⟨header, .readProc⟩ o)) known := by
  refine .call trivial fun value known₁ h₁ => .call trivial fun metadata known₂ h₂ =>
    .call ?_ fun _ _ _ => .done trivial
  refine ⟨_, o, rfl, rfl, hself, ⟨rfl, rfl, rfl, rfl, fun _ _ _ _ => rfl, fun h => by cases h⟩, ?_⟩
  intro data hdata
  cases hdata
  exact h₂.1 _ _ h₁.2

theorem meets_acknowledge (o : Origin) (hself : register.selfIdent = selfIdent) {ts : UInt64}
    {wr : UInt8} {data : SectorVec} :
    (register.acknowledge header).Meets
      (serving selfIdent (.system ⟨header, .writeProc ts wr data⟩ o)) known := by
  refine .call ?_ fun _ _ _ => .done trivial
  refine ⟨_, o, rfl, rfl, hself, ⟨rfl, rfl, rfl, rfl, fun _ _ _ h => (by cases h), fun _ => rfl⟩, ?_⟩
  intro data hdata
  cases hdata

/-- The data of a `WriteProc` are written to its sector. -/
theorem meets_handleWriteProc (o : Origin) (hself : register.selfIdent = selfIdent) {ts : UInt64}
    {wr : UInt8} {data : SectorVec} (hdata : known header.sectorIdx data) :
    (register.handleWriteProc header ts wr data).Meets
      (serving selfIdent (.system ⟨header, .writeProc ts wr data⟩ o)) known := by
  refine .call trivial fun stored known₁ h₁ => ?_
  show (if (⟨stored.1, stored.2⟩ : Tag) < ⟨ts, wr⟩
    then writeSector header.sectorIdx (data, ts, wr) >>= fun _ => register.acknowledge header
    else register.acknowledge header).Meets _ known₁
  split
  · refine .call (h₁.1 _ _ hdata) fun written known₂ _ => ?_
    cases written with
    | false => exact meets_acknowledge o hself
    | true => exact .call trivial fun _ _ _ => meets_acknowledge o hself
  · exact meets_acknowledge o hself

/-- **Every handler** keeps to the contract. -/
theorem meets_handler (iter : IterOrder) (hself : register.selfIdent = selfIdent)
    (hcarries : ∀ cmd o, msg = .system cmd o → Carries known cmd) :
    (Bank.handler iter register msg).Meets (serving selfIdent msg) known := by
  cases msg with
  | client cmd t => exact .call trivial fun _ _ _ => .call trivial fun _ _ _ => .done trivial
  | system cmd o =>
    obtain ⟨header, content⟩ := cmd
    cases content with
    | readProc => exact meets_handleReadProc o hself
    | writeProc ts wr data => exact meets_handleWriteProc o hself (hcarries _ o rfl data rfl)
    | value ts wr data =>
      show (register.handleValue iter header (ts, wr, data)).Meets _ known
      have hcase := handleValue_cases iter register header (ts, wr, data)
      generalize register.handleValue iter header (ts, wr, data) = p at hcase ⊢
      cases hcase with
      | stale _ => exact .done trivial
      | collected _ _ => exact .done trivial
      | read _ _ _ _ _ => exact meets_enterWritePhase _
      | write _ _ _ _ _ _ => exact meets_enterWritePhase _
      | panicRead _ _ _ => exact .call trivial fun x => Empty.elim x
      | panicWrite _ _ _ _ => exact .call trivial fun x => Empty.elim x
    | ack =>
      show (register.handleAck header).Meets _ known
      have hcase := handleAck_cases register header
      generalize register.handleAck header = p at hcase ⊢
      cases hcase with
      | stale _ => exact .done trivial
      | counted _ _ => exact .done trivial
      | read _ _ _ _ => exact meets_complete _ _
      | write _ _ _ _ _ => exact .call trivial fun _ _ _ => meets_complete _ _
      | panicRead _ _ _ => exact .call trivial fun x => Empty.elim x
      | panicWrite _ _ _ _ =>
        exact .call trivial fun _ _ _ => .call trivial fun x => Empty.elim x

end

/-! ## Files and running handlers -/

/-- The data in the files of a process, and what its handlers may still do. -/
structure Filled (R : ℕ) (selfIdent : UInt8) (known : SectorIdx → SectorVec → Prop)
    (s : Process) : Prop where
  files : ∀ idx data, s.bank.files.data idx = some data → known idx data
  running : ∀ i < R, ∀ msg rest, s.bank.workers i = .running msg rest →
    rest.Meets (serving selfIdent msg) known

variable {N R : ℕ} {selfIdent : UInt8} {s s' : Process} {a : Action}
  {Sent : SystemRegisterCommand → Origin → Prop} {known known' : SectorIdx → SectorVec → Prop}

theorem Filled.mono (h : Filled R selfIdent known s)
    (hle : ∀ idx data, known idx data → known' idx data) : Filled R selfIdent known' s :=
  ⟨fun idx data hdata => hle _ _ (h.files idx data hdata),
    fun i hi msg rest hw => meets_mono (h.running i hi msg rest hw) hle⟩

theorem readData_known {files : SectorFiles} (hnew : ∀ idx, known idx .new)
    (hfiles : ∀ idx data, files.data idx = some data → known idx data) (idx : SectorIdx) :
    known idx (files.readData idx) := by
  unfold SectorFiles.readData
  split
  · exact hnew idx
  · cases hdata : files.data idx with
    | none => exact hnew idx
    | some data => exact hfiles idx data hdata

/-- The answer to a call of a handler, and the files after it. -/
theorem answer_known {files files' : SectorFiles} {op : RegisterOp} {x : op.Answer}
    {msg : WorkerMessage} (hnew : ∀ idx, known idx .new)
    (hfiles : ∀ idx data, files.data idx = some data → known idx data)
    (hok : (serving selfIdent msg).ok op known) (h : Bank.answer files op = some (x, files')) :
    (∀ idx data, files'.data idx = some data → known idx data) ∧
      (serving selfIdent msg).after op x known known := by
  cases op with
  | readData idx =>
    cases h
    exact ⟨hfiles, fun _ _ hk => hk, readData_known hnew hfiles idx⟩
  | writeData idx data =>
    cases h
    refine ⟨fun idx' data' hdata => ?_, fun _ _ hk => hk, trivial⟩
    by_cases hidx : idx' = idx
    · subst hidx
      simp only [SectorFiles.writeData, Function.update_self, Option.some.injEq] at hdata
      exact hdata ▸ hok
    · simp only [SectorFiles.writeData, Function.update_of_ne hidx] at hdata
      exact hfiles idx' data' hdata
  | panic => cases h
  | _ =>
    cases h
    exact ⟨hfiles, fun _ _ hk => hk, trivial⟩

theorem call_next {b b' : Bank} {i : ℕ} (h : b.call i = some b') :
    (∃ msg op next x files, b.workers i = .running msg (.call op next) ∧
      Bank.answer b.files op = some (x, files) ∧ b' = b.after i msg op files (next x)) ∨
    ∃ msg register, b.workers i = .running msg (.done register) ∧
      b' = b.returned i msg register := by
  unfold Bank.call at h
  split at h
  · rename_i msg register hw
    cases h
    exact .inr ⟨msg, register, hw, rfl⟩
  · rename_i msg op next hw
    split at h
    · cases h
    · rename_i x files hx
      cases h
      exact .inl ⟨msg, op, next, x, files, hw, hx, rfl⟩
  · cases h

/-- **Files are kept.** -/
theorem filled_step (h : Attributed N R selfIdent Sent s) (hfilled : Filled R selfIdent known s)
    (hnew : ∀ idx, known idx .new) (hsent : ∀ cmd o, Sent cmd o → Carries known cmd)
    (hstep : s.step N R selfIdent a = some s') : Filled R selfIdent known s' := by
  have hocc := h.recorded.occupied
  cases step_event hstep with
  | shuffle _ hs => exact ⟨hs.bank ▸ hfilled.files, hs.bank ▸ hfilled.running⟩
  | @announce j _ hw =>
    refine ⟨hfilled.files, fun i hi msg rest hrun => ?_⟩
    by_cases hij : i = j
    · subst hij
      simp only [Function.update_self, reduceCtorEq] at hrun
    · simp only [Function.update_of_ne hij] at hrun
      exact hfilled.running i hi msg rest hrun
  | @receive j iter bank hj hrec =>
    unfold Bank.receive at hrec
    split at hrec
    · rename_i msg mailbox hwaiting hfirst
      cases hrec
      refine ⟨hfilled.files, fun i hi msg' rest hrun => ?_⟩
      by_cases hij : i = j
      · subst hij
        simp only [Function.update_self, Worker.running.injEq] at hrun
        obtain ⟨rfl, rfl⟩ := hrun
        -- the message comes from the network, so what it carries is known
        refine meets_handler iter (h.rounds.round i hi).self.1 ?_
        rintro cmd o rfl
        exact hsent cmd o (h.held i cmd o (.inr (.inl (hfirst ▸ List.mem_cons_self)))).1
      · simp only [Function.update_of_ne hij] at hrun
        exact hfilled.running i hi msg' rest hrun
    · cases hrec
  | @call j bank finishing hj hcall =>
    rcases call_next hcall with ⟨msg, op, next, x, files, hw, hx, rfl⟩ | ⟨msg, register, hw, rfl⟩
    · -- a call of the handler: its answer is known, and so is all that comes after it
      have hmeets := hfilled.running j hj msg _ hw
      obtain ⟨hfiles, hafter⟩ := answer_known hnew hfilled.files hmeets.ok hx
      refine ⟨hfiles, fun i hi msg' rest hrun => ?_⟩
      by_cases hij : i = j
      · subst hij
        simp only [Bank.after, Function.update_self, Worker.running.injEq] at hrun
        obtain ⟨rfl, rfl⟩ := hrun
        exact hmeets.next hafter
      · simp only [Bank.after, Function.update_of_ne hij] at hrun
        exact hfilled.running i hi msg' rest hrun
    · refine ⟨hfilled.files, fun i hi msg' rest hrun => ?_⟩
      by_cases hij : i = j
      · subst hij
        simp only [Bank.returned, Function.update_self, reduceCtorEq] at hrun
      · simp only [Bank.returned, Function.update_of_ne hij] at hrun
        exact hfilled.running i hi msg' rest hrun
  | crash => exact ⟨hfilled.files, fun i _ msg rest hrun => by cases hrun⟩
  | restart hrestart =>
    have hr := hocc.restarted hrestart
    refine ⟨hr.files ▸ hfilled.files, fun i _ msg rest hrun => ?_⟩
    rw [hr.workers] at hrun
    cases hrun
  | _ => exact ⟨hfilled.files, hfilled.running⟩

/-- A reply that is sent answers the message that is handled. -/
theorem replies_of_sends (hfilled : Filled R selfIdent known s) {i : ℕ} (hi : i < R)
    {cmd cmd' : SystemRegisterCommand} {o : Origin} {target : ℕ}
    {next : Unit → RegisterProgram AtomicRegisterImplementation}
    (hw : s.bank.workers i = .running (.system cmd o) (.call (.send cmd' target) next)) :
    Replies selfIdent cmd known cmd' target := by
  obtain ⟨request, o', hmsg, hreply⟩ := (hfilled.running i hi _ _ hw).ok
  cases hmsg
  exact hreply

/-! ## What a read returns -/

namespace Process

/-- If call `t` is answered with data, they are of its sector. -/
def Returns (known : SectorIdx → SectorVec → Prop) (s : Process) (t : Callback)
    (op : OperationComplete) : Prop :=
  ∀ data, op.opReturn = .read ⟨some data⟩ →
    ∃ call, s.calls[t]? = some call ∧ known call.sector data

/-- What a read in its second phase has chosen is data of the sector. -/
def Chosen (known : SectorIdx → SectorVec → Prop) (s : Process) (i : ℕ)
    (register : AtomicRegisterImplementation) : Prop :=
  ∀ k out, s.Posted k out → out.register = i → out.round = Executor.round register →
    isWriteProc out.cmd = true → register.callback ≠ none → register.reading = true →
    ∃ readval, register.readval = some readval ∧ known out.cmd.header.sectorIdx readval.data

end Process

/-- The data register `i` is about to send or to return. -/
structure ChoiceAt (known : SectorIdx → SectorVec → Prop) (s : Process) (i : ℕ) : Prop where
  due : ∀ cmd, .broadcast cmd ∈ s.bank.due i → Carries known cmd ∧
    (isWriteProc cmd = true → (s.bank.final i).reading = true →
      ∃ readval, (s.bank.final i).readval = some readval ∧
        known cmd.header.sectorIdx readval.data)
  chosen : s.Chosen known i (s.bank.registers i) ∧ s.Chosen known i (s.bank.final i)
  completing : ∀ t op, .operationComplete t op ∈ s.bank.due i → s.Returns known t op

theorem Process.Returns.mono {t : Callback} {op : OperationComplete} (h : s.Returns known t op)
    (hcalls : ∀ (t : ℕ) call, s.calls[t]? = some call → s'.calls[t]? = some call)
    (hle : ∀ idx data, known idx data → known' idx data) : s'.Returns known' t op := by
  intro data hdata
  obtain ⟨call, hcall, hknown⟩ := h data hdata
  exact ⟨call, hcalls t call hcall, hle _ _ hknown⟩

theorem Process.Chosen.mono {i : ℕ} {register : AtomicRegisterImplementation}
    (h : s.Chosen known i register)
    (hposted : ∀ k out, s'.Posted k out → out.register = i → s.Posted k out)
    (hle : ∀ idx data, known idx data → known' idx data) : s'.Chosen known' i register := by
  intro k out hk hi hround hkind hcallback hreading
  obtain ⟨readval, hval, hknown⟩ := h k out (hposted k out hk hi) hi hround hkind hcallback hreading
  exact ⟨readval, hval, hle _ _ hknown⟩

/-- A step that sends nothing for register `i` and does not change what it is at. -/
theorem ChoiceAt.congr {i : ℕ} (h : ChoiceAt known s i)
    (hcalls : ∀ (t : ℕ) call, s.calls[t]? = some call → s'.calls[t]? = some call)
    (hle : ∀ idx data, known idx data → known' idx data)
    (hregisters : s'.bank.registers i = s.bank.registers i)
    (hfinal : s'.bank.final i = s.bank.final i)
    (hdue : ∀ op ∈ s'.bank.due i, op ∈ s.bank.due i)
    (hposted : ∀ k out, s'.Posted k out → out.register = i → s.Posted k out) :
    ChoiceAt known' s' i := by
  refine ⟨fun cmd hcmd => ?_, ?_, fun t op hop => ?_⟩
  · rw [hfinal]
    obtain ⟨hcarries, hread⟩ := h.due cmd (hdue _ hcmd)
    refine ⟨hcarries.mono hle, fun hkind hreading => ?_⟩
    obtain ⟨readval, hval, hknown⟩ := hread hkind hreading
    exact ⟨readval, hval, hle _ _ hknown⟩
  · rw [hregisters, hfinal]
    exact ⟨h.chosen.1.mono hposted hle, h.chosen.2.mono hposted hle⟩
  · exact (h.completing t op (hdue _ hop)).mono hcalls hle

/-- A handler that stays in the phase leaves the choice alone, or completes. -/
theorem Outcome.choice {register final : AtomicRegisterImplementation} {msg : WorkerMessage}
    {ops : List RegisterOp} (h : Outcome register msg ops final) :
    final.state.readIdent = register.state.readIdent ∧ (final.callback = none ∨
        final.callback = register.callback ∧ final.reading = register.reading ∧
          final.readval = register.readval) ∨
      final.state.readIdent = register.state.readIdent + 1 := by
  cases h with
  | client cmd t =>
    obtain ⟨header, content⟩ := cmd
    cases content <;> exact .inr rfl
  | quiet o _ => exact .inl ⟨rfl, .inr ⟨rfl, rfl, rfl⟩⟩
  | collected ts wr data o hid => exact .inl ⟨rfl, .inr ⟨rfl, rfl, rfl⟩⟩
  | read o hid hreading hmax hval => exact .inr rfl
  | write o hid hreading hwriting hval => exact .inr rfl
  | counted o hid => exact .inl ⟨rfl, .inr ⟨rfl, rfl, rfl⟩⟩
  | readDone o hid hreading hval => exact .inl ⟨rfl, .inl rfl⟩
  | writeDone o hid hreading hwriting hval => exact .inl ⟨rfl, .inl rfl⟩

section

variable {i : ℕ} {msg : WorkerMessage}

/-- The entries a register may choose from are data of the sector of its command. -/
theorem Attributed.entry_known (h : Attributed N R selfIdent Sent s) (hi : i < R)
    (hsent : ∀ cmd o, Sent cmd o → Carries known cmd) {t : Callback} {call : Call}
    (hcallback : (s.bank.registers i).callback = some t) (hcall : s.calls[t]? = some call)
    {e : ReadlistEntry} (he : e ∈ (s.bank.registers i).readlist.entries) :
    known call.sector e.2.2.2 := by
  have hlookup : (s.bank.registers i).readlist.lookup e.1 = some e.2 :=
    AList.mem_lookup_iff.mpr he
  obtain ⟨o, cmd, -, hcontent, hmay⟩ := (h.tallies i hi).values e.1 e.2 hlookup
  rw [← h.sector_eq hi hmay.own hmay.round hcallback hcall]
  apply hsent cmd o hmay.sent
  rw [hcontent]
  rfl

/-- **The data of a new phase** are those of the sector. -/
theorem Attributed.broadcast_known (h : Attributed N R selfIdent Sent s) (hi : i < R)
    (hsent : ∀ cmd o, Sent cmd o → Carries known cmd)
    (hwritten : ∀ call ∈ s.calls, ∀ data, call.cmd.content = .write data → known call.sector data)
    (hheld : ∀ cmd o, msg = .system cmd o → s.Held i cmd o)
    {hand : Option Callback} (hmode : Mode s.calls (s.bank.registers i) [] hand)
    {ops : List RegisterOp} {final : AtomicRegisterImplementation}
    (hout : Outcome (s.bank.registers i) msg ops final) {cmd : SystemRegisterCommand}
    (hcmd : .broadcast cmd ∈ ops) :
    Carries known cmd ∧ (isWriteProc cmd = true → final.reading = true →
      ∃ readval, final.readval = some readval ∧ known cmd.header.sectorIdx readval.data) := by
  have hreport : ∀ op cmd, .broadcast cmd ∉ report (s.bank.registers i) op := by
    intro op cmd
    unfold report
    simp
  cases hout with
  | client ccmd t =>
    simp only [List.mem_cons, reduceCtorEq, RegisterOp.broadcast.injEq, List.not_mem_nil,
      or_false, false_or] at hcmd
    subst hcmd
    exact ⟨fun data hdata => (by cases hdata), fun hkind => (by cases hkind)⟩
  | quiet o _ => cases hcmd
  | collected ts wr data o hid => cases hcmd
  | counted o hid => cases hcmd
  | @read header ts wr data o max readval hid hreading hmax hval =>
    simp only [List.mem_cons, reduceCtorEq, RegisterOp.broadcast.injEq, List.not_mem_nil,
      or_false, false_or] at hcmd
    subst hcmd
    obtain ⟨t, call, -, hcallback, hcall, -⟩ := hmode.of_busy (by rw [Busy, hreading]; rfl)
    obtain ⟨hfrom, hown⟩ := h.held i _ o (hheld _ o rfl)
    have hsector : header.sectorIdx = call.sector :=
      h.sector_eq hi (hown rfl) hid hcallback hcall
    -- the largest entry is the one that has just come in, or one that has been counted before
    have hmaxknown : known header.sectorIdx max.2.2.2 := by
      rcases Readlist.mem_insert_entries hmax with rfl | ⟨hold, -⟩
      · exact hsent _ o hfrom data rfl
      · rw [hsector]
        exact h.entry_known hi hsent hcallback hcall hold
    refine ⟨fun data' hdata => ?_, fun _ _ => ⟨_, rfl, hmaxknown⟩⟩
    cases hdata
    exact hmaxknown
  | @write header ts wr data o max writeval hid hreading hwriting hval =>
    simp only [List.mem_cons, reduceCtorEq, RegisterOp.broadcast.injEq, List.not_mem_nil,
      or_false, false_or] at hcmd
    subst hcmd
    -- a write broadcasts the data of its command, whatever the entries are
    obtain ⟨t, call, -, hcallback, hcall, hserves⟩ :=
      hmode.of_busy (by rw [Busy, hwriting, Bool.or_true])
    obtain ⟨-, hown⟩ := h.held i _ o (hheld _ o rfl)
    have hsector : header.sectorIdx = call.sector :=
      h.sector_eq hi (hown rfl) hid hcallback hcall
    refine ⟨fun data' hdata => ?_, fun _ hread => ?_⟩
    · cases hdata
      show known header.sectorIdx writeval.data
      rw [hsector]
      cases hcontent : call.cmd.content with
      | read => exact absurd ((hserves.read hcontent).1.symm.trans hreading) Bool.noConfusion
      | write data₀ =>
        have hwriteval := (hserves.write data₀ hcontent).2.2
        rw [hval, Option.some.injEq] at hwriteval
        subst hwriteval
        exact hwritten call (List.mem_of_getElem? hcall) data₀ hcontent
    · exact absurd (hreading.symm.trans hread) Bool.noConfusion
  | readDone o hid hreading hval => exact absurd hcmd (hreport _ cmd)
  | writeDone o hid hreading hwriting hval =>
    rcases List.mem_cons.mp hcmd with hput | hcmd
    · cases hput
    · exact absurd hcmd (hreport _ cmd)

/-- **The data a read returns** are those of its sector. -/
theorem Attributed.completion_known (h : Attributed N R selfIdent Sent s) (hi : i < R)
    (hchosen : s.Chosen known i (s.bank.registers i))
    (hheld : ∀ cmd o, msg = .system cmd o → s.Held i cmd o)
    {hand : Option Callback} (hmode : Mode s.calls (s.bank.registers i) [] hand)
    {ops : List RegisterOp} {final : AtomicRegisterImplementation}
    (hout : Outcome (s.bank.registers i) msg ops final) {t : Callback} {op : OperationComplete}
    (hop : .operationComplete t op ∈ ops) : s.Returns known t op := by
  have hreport : ∀ op', .operationComplete t op ∈ report (s.bank.registers i) op' →
      (s.bank.registers i).callback = some t ∧ op = op' := by
    intro op' hmem
    unfold report at hmem
    simp only [List.mem_map, Option.mem_toList, RegisterOp.operationComplete.injEq] at hmem
    obtain ⟨u, hu, rfl, rfl⟩ := hmem
    exact ⟨hu, rfl⟩
  cases hout with
  | client cmd u => simp at hop
  | quiet o _ => cases hop
  | collected ts wr data o hid => cases hop
  | counted o hid => cases hop
  | read o hid hreading hmax hval => simp at hop
  | write o hid hreading hwriting hval => simp at hop
  | @readDone header o readval hid hreading hval =>
    obtain ⟨hcallback, rfl⟩ := hreport _ hop
    obtain ⟨u, call, -, hcallback', hcall, -⟩ := hmode.of_busy (by rw [Busy, hreading]; rfl)
    rw [hcallback, Option.some.injEq] at hcallback'
    subst hcallback'
    obtain ⟨-, hown⟩ := h.held i _ o (hheld _ o rfl)
    -- the reply answers the `WriteProc` of this phase
    obtain ⟨request, call', hasked⟩ := h.asked hi (hown rfl) hid hcallback
    obtain ⟨readval', hval', hknown⟩ := hchosen _ request hasked.posted hasked.register
      (congrArg UInt64.toNat hasked.phase) (hasked.answers.ack rfl) (by simp [hcallback]) hreading
    rw [hval, Option.some.injEq] at hval'
    subst hval'
    intro data hdata
    cases hdata
    exact ⟨call', hasked.known, hasked.sector ▸ hknown⟩
  | @writeDone header o writeval hid hreading hwriting hval =>
    rcases List.mem_cons.mp hop with hput | hop
    · cases hput
    · obtain ⟨-, rfl⟩ := hreport _ hop
      intro data hdata
      cases hdata

/-- **A message is taken.** -/
theorem ChoiceAt.receive (h : Attributed N R selfIdent Sent s) (hchoice : ChoiceAt known s i)
    (hi : i < R) (hup : s.up = true) (hsent : ∀ cmd o, Sent cmd o → Carries known cmd)
    (hwritten : ∀ call ∈ s.calls, ∀ data, call.cmd.content = .write data → known call.sector data)
    (hmax : (s.bank.registers i).state.readIdent.toNat + 1 < 2 ^ 64)
    {mailbox : List WorkerMessage} (hr : Reception s s'.bank i msg mailbox)
    (hcalls : s'.calls = s.calls) : ChoiceAt known s' i := by
  have hheld : ∀ cmd o, msg = .system cmd o → s.Held i cmd o := by
    rintro cmd o rfl
    exact .inr (.inl (hr.receives.first ▸ List.mem_cons_self))
  have hposted : ∀ k out, s'.Posted k out → s.Posted k out := fun k out hk =>
    ⟨hr.receives.outbox ▸ hk.1, hk.2⟩
  have hchosen : s'.Chosen known i (s.bank.registers i) :=
    hchoice.chosen.1.mono (fun k out hk _ => hposted k out hk) fun _ _ hk => hk
  refine ⟨fun cmd hcmd => ?_, ⟨?_, ?_⟩, fun t op hop => ?_⟩
  · exact h.broadcast_known hi hsent hwritten hheld hr.mode hr.outcome hcmd
  · rw [hr.receives.registers]
    exact hchosen
  · intro k out hk hregister hround hkind hcallback hreading
    rcases hr.outcome.choice with ⟨hsame, hnone | ⟨hcb, hread, hval⟩⟩ | hnext
    · exact absurd hnone hcallback
    · rw [hval]
      refine hchosen k out hk hregister ?_ hkind (hcb ▸ hcallback) (hread ▸ hreading)
      rw [hround]
      exact congrArg UInt64.toNat hsame
    · -- nothing has been broadcast in the new phase
      have hle := (h.rounds.round i hi).posted k out (hposted k out hk) hregister
      have hrest : s.bank.Resting i := Bank.resting_of_eq hr.receives.waiting (.inr rfl)
      have hstored := ((h.rounds.round i hi).stored hup).2 (by simp [hrest.due])
      rw [hrest.final] at hstored
      have hsucc := round_succ hnext hmax
      omega
  · refine (h.completion_known hi hchoice.chosen.1 hheld hr.mode hr.outcome hop).mono ?_
      fun _ _ hk => hk
    exact fun _ _ hc => hcalls ▸ hc

end

/-- **A handler goes on.** -/
theorem ChoiceAt.call {i : ℕ} (h : Attributed N R selfIdent Sent s) (hi : i < R)
    (hchoice : ChoiceAt known s i) (hacts : Bank.Acts s.bank i s'.bank)
    (hcalls : s'.calls = s.calls) : ChoiceAt known s' i := by
  have hmode := (h.recorded.occupied.register i).mode
  have hcallmono : ∀ (t : ℕ) call, s.calls[t]? = some call → s'.calls[t]? = some call :=
    fun _ _ hc => hcalls ▸ hc
  have hle : ∀ idx data, known idx data → known idx data := fun _ _ hk => hk
  have hdue : ∀ op ∈ s'.bank.due i, op ∈ s.bank.due i := fun op hop => hacts.due_subset hop
  have hcompleting : ∀ t op, .operationComplete t op ∈ s'.bank.due i → s'.Returns known t op :=
    fun t op hop => (hchoice.completing t op (hdue _ hop)).mono hcallmono hle
  generalize hb : s'.bank = b' at hacts
  cases hacts with
  | silent _ _ hop hworks hkeeps _ =>
    refine hchoice.congr hcallmono hle (by rw [hb, hkeeps.registers]) (by rw [hb, hworks.final]) hdue
      fun k out hk _ => ⟨Bank.posted_after hop (hb ▸ hk.1) hk.2, hk.2⟩
  | put hworks _ =>
    exact hchoice.congr hcallmono hle (by rw [hb]; rfl) (by rw [hb, hworks.final]) hdue
      fun k out hk _ => posted_of_eq (by rw [hb]; rfl) hk
  -- a broadcast is the last thing a handler does, and is of a round after the register's
  | @broadcast msg cmd rest hworks hd =>
    have hnil := (Mode.broadcast (hd ▸ hmode)).1
    rw [hnil] at hd
    have hfinal : s'.bank.final i = s.bank.final i := by rw [hb, hworks.final]
    have hregisters : s'.bank.registers i = s.bank.registers i := by rw [hb]; rfl
    have hmem : .broadcast cmd ∈ s.bank.due i := by rw [hd]; exact List.mem_singleton_self _
    have hposted : ∀ k out, s'.Posted k out →
        s.Posted k out ∨ out = ⟨cmd, none, i, s.bank.inHand i, none⟩ := fun k out hk =>
      (posted_of_append (by rw [hb]; rfl) hk).imp id And.left
    refine ⟨fun cmd' hcmd => ?_, ⟨?_, ?_⟩, hcompleting⟩
    · rw [hfinal]
      exact hchoice.due cmd' (hdue _ hcmd)
    · rw [hregisters]
      intro k out hk hregister hround
      rcases hposted k out hk with hold | rfl
      · exact hchoice.chosen.1 k out hold hregister hround
      · have hsame : cmd.header.readIdent.toNat = round (s.bank.registers i) := hround
        exact absurd hsame ((h.rounds.round i hi).opens cmd hmem).later.ne'
    · rw [hfinal]
      intro k out hk hregister hround hkind hcallback hreading
      rcases hposted k out hk with hold | rfl
      · exact hchoice.chosen.2 k out hold hregister hround hkind hcallback hreading
      · exact (hchoice.due cmd hmem).2 hkind hreading
  -- the callback is taken, so nothing has to be known of this register until its next command
  | complete hworks hd =>
    have hfinal : s'.bank.final i = s.bank.final i := by rw [hb, hworks.final]
    have hposted : ∀ k out, s'.Posted k out → s.Posted k out := fun k out =>
      posted_of_eq (by rw [hb]; rfl)
    refine ⟨fun cmd' hcmd => ?_, ⟨?_, ?_⟩, hcompleting⟩
    · rw [hfinal]
      exact hchoice.due cmd' (hdue _ hcmd)
    · have hregister : s'.bank.registers i = { s.bank.registers i with callback := none } := by
        rw [hb]
        exact Function.update_self ..
      rw [hregister]
      intro k out _ _ _ _ hcallback
      exact absurd rfl hcallback
    · rw [hfinal]
      exact hchoice.chosen.2.mono (fun k out hk _ => hposted k out hk) hle
  -- the worker takes over the register the handler ends with
  | @returned msg register hw hd hfinal =>
    have hw' : (s.bank.returned i msg register).workers i = .ready := Function.update_self ..
    have hrest : s'.bank.Resting i := Bank.resting_of_eq (by rw [hb]; exact hw') (.inl rfl)
    have hregister : s'.bank.registers i = s.bank.final i := by
      rw [hb, hfinal]
      exact Function.update_self ..
    have hposted : ∀ k out, s'.Posted k out → s.Posted k out := fun k out =>
      posted_of_eq (by rw [hb]; rfl)
    have hchosen : s'.Chosen known i (s.bank.final i) :=
      hchoice.chosen.2.mono (fun k out hk _ => hposted k out hk) hle
    refine ⟨fun cmd' hcmd => ?_, ?_, hcompleting⟩
    · rw [hrest.due] at hcmd
      cases hcmd
    · rw [hrest.final, hregister]
      exact ⟨hchosen, hchosen⟩

/-- A register that is idle. -/
theorem ChoiceAt.of_idle {i : ℕ} (hrest : s.bank.Resting i) (hidle : Idle (s.bank.registers i)) :
    ChoiceAt known s i := by
  have hchosen : s.Chosen known i (s.bank.registers i) := by
    intro k out _ _ _ _ hcallback
    exact absurd hidle.callback hcallback
  refine ⟨fun cmd hcmd => ?_, ?_, fun t op hop => ?_⟩
  · rw [hrest.due] at hcmd
    cases hcmd
  · rw [hrest.final]
    exact ⟨hchosen, hchosen⟩
  · rw [hrest.due] at hop
    cases hop

/-! ## A process -/

/-- **Data stay with their sector**, in a process. -/
structure Contained (R : ℕ) (selfIdent : UInt8) (known : SectorIdx → SectorVec → Prop)
    (s : Process) : Prop where
  filled : Filled R selfIdent known s
  outbox : ∀ out ∈ s.bank.outbox, Carries known out.cmd
  choices : ∀ i < R, ChoiceAt known s i
  fired : ∀ f ∈ s.bank.fired, s.Returns known f.1 f.2

theorem contained_init : Contained R selfIdent known (.init N selfIdent) := by
  refine ⟨⟨?_, ?_⟩, ?_, ?_, ?_⟩
  · intro idx data hdata
    cases hdata
  · intro i _ msg rest hw
    cases hw
  · exact fun out hout => absurd hout List.not_mem_nil
  · exact fun i _ => .of_idle (Bank.resting_of_eq rfl (.inl rfl)) idle_freshRegister
  · exact fun f hf => absurd hf List.not_mem_nil

/-- More may be known. -/
theorem Contained.mono (h : Contained R selfIdent known s)
    (hle : ∀ idx data, known idx data → known' idx data) : Contained R selfIdent known' s :=
  ⟨h.filled.mono hle, fun out hout => (h.outbox out hout).mono hle,
    fun i hi => (h.choices i hi).congr (fun _ _ hc => hc) hle rfl rfl (fun _ hop => hop)
      fun _ _ hk _ => hk,
    fun f hf => (h.fired f hf).mono (fun _ _ hc => hc) hle⟩

theorem choices_step (h : Attributed N R selfIdent Sent s) (hc : Contained R selfIdent known s)
    (hsent : ∀ cmd o, Sent cmd o → Carries known cmd)
    (hwritten : ∀ call ∈ s.calls, ∀ data, call.cmd.content = .write data → known call.sector data)
    (hmax : s.BelowMax a) (hstep : s.step N R selfIdent a = some s') {i : ℕ} (hi : i < R) :
    ChoiceAt known s' i := by
  have hocc := h.recorded.occupied
  have hchoice := hc.choices i hi
  have hle : ∀ idx data, known idx data → known idx data := fun _ _ hk => hk
  have hcalls : ∀ (t : ℕ) call, s.calls[t]? = some call → s'.calls[t]? = some call :=
    fun _ _ hc => (step_event hstep).calls_mono hc
  cases step_event hstep with
  | shuffle _ hs =>
    refine hchoice.congr hcalls hle ?_ ?_ ?_ ?_
    · rw [hs.bank]
    · rw [hs.bank]
    · rw [hs.bank]
      exact fun _ hop => hop
    · exact fun k out hk _ => ⟨hs.bank ▸ hk.1, hk.2⟩
  | announce _ hw =>
    refine hchoice.congr hcalls hle rfl (Bank.final_waiting hw i) ?_ fun _ _ hk _ => hk
    exact fun op hop => Bank.due_waiting hw i ▸ hop
  | @receive j iter bank hj hrec =>
    obtain ⟨msg, mailbox, hr⟩ := hocc.reception hrec
    by_cases hij : i = j
    · subst hij
      exact hchoice.receive h hi (up_of_step hstep Action.noConfusion) hsent hwritten hmax hr rfl
    · have hsame := hr.receives.others i hij
      exact hchoice.congr hcalls hle hsame.registers hsame.final (fun op hop => hsame.due ▸ hop)
        fun k out hk _ => ⟨hr.receives.outbox ▸ hk.1, hk.2⟩
  | @call j bank finishing hj hcall =>
    have hacts := Bank.call_cases hcall (hocc.register j).steady
    by_cases hij : i = j
    · subst hij
      exact hchoice.call h hi hacts rfl
    · have hsame := hacts.others i hij
      exact hchoice.congr hcalls hle hsame.registers hsame.final (fun op hop => hsame.due ▸ hop)
        fun k out hk hregister => ⟨hacts.posted_other hk.1 hk.2 (hregister ▸ hij), hk.2⟩
  | crash => exact .of_idle (Bank.resting_of_eq rfl (.inl rfl)) idle_freshRegister
  | restart hrestart =>
    have hr := hocc.restarted hrestart
    exact .of_idle (hr.resting i) (hr.idle i)
  | _ => exact hchoice.congr hcalls hle rfl rfl (fun _ hop => hop) fun _ _ hk _ => hk

/-- **Data stay with their sector** in every step, if what arrives and what clients write does. -/
theorem contained_step (h : Attributed N R selfIdent Sent s) (hc : Contained R selfIdent known s)
    (hnew : ∀ idx, known idx .new) (hsent : ∀ cmd o, Sent cmd o → Carries known cmd)
    (hwritten : ∀ call ∈ s.calls, ∀ data, call.cmd.content = .write data → known call.sector data)
    (hmax : s.BelowMax a) (hstep : s.step N R selfIdent a = some s') :
    Contained R selfIdent known s' := by
  have hocc := h.recorded.occupied
  refine ⟨filled_step h hc.filled hnew hsent hstep, ?_,
    fun i hi => choices_step h hc hsent hwritten hmax hstep hi, ?_⟩
  · intro out hout
    obtain ⟨k, hk⟩ := List.getElem?_of_mem hout
    rcases outbox_cases hocc hstep hk with hold | ⟨i, hi, hsends⟩
    · exact hc.outbox out (List.mem_of_getElem? hold)
    · cases hsends with
      | broadcast hdue => exact ((hc.choices i hi).due _ (by rw [hdue]; exact List.mem_cons_self)).1
      | reply hw => exact (replies_of_sends hc.filled hi hw).carries
  · intro f hf
    have hmono : s.Returns known f.1 f.2 → s'.Returns known f.1 f.2 := fun hr =>
      hr.mono (fun _ _ hcall => (step_event hstep).calls_mono hcall) fun _ _ hk => hk
    apply hmono
    rcases fired_cases hocc hstep hf with hold | ⟨i, hi, hdue⟩
    · exact hc.fired f hold
    · exact (hc.choices i hi).completing _ _ hdue

end Executor
end AtomicDiscDrive
