import AtomicDiscDrive.Executor.Contents
import AtomicDiscDrive.Handlers.Stages

/-!
# Sectors under running handlers

Handlers of different registers run side by side on one sector store. As long as a
`WriteProc` has its sector for itself while it is handled (`Process.KeepsApart`), what will
come of a running handler is known: the answer it will send (`Stage.promise`), and the sector
it will leave (`Stage.settle`). `Ahead` compares the store with one in which all running
handlers have already come to their end.
-/

namespace AtomicDiscDrive

/-! ## Stores that agree on a sector -/

namespace SectorFiles

/-- Both files of a sector are the same. -/
structure SameOn (files files' : SectorFiles) (idx : SectorIdx) : Prop where
  data : files'.data idx = files.data idx
  metadata : files'.metadata idx = files.metadata idx

variable {f g h : SectorFiles} {idx : SectorIdx}

theorem SameOn.refl (f : SectorFiles) (idx : SectorIdx) : SameOn f f idx := ⟨rfl, rfl⟩

theorem SameOn.symm (hfg : SameOn f g idx) : SameOn g f idx := ⟨hfg.data.symm, hfg.metadata.symm⟩

theorem SameOn.trans (hfg : SameOn f g idx) (hgh : SameOn g h idx) : SameOn f h idx :=
  ⟨hgh.data.trans hfg.data, hgh.metadata.trans hfg.metadata⟩

theorem SameOn.readMetadata (hfg : SameOn f g idx) : g.readMetadata idx = f.readMetadata idx := by
  unfold SectorFiles.readMetadata
  rw [hfg.metadata]

theorem SameOn.readData (hfg : SameOn f g idx) : g.readData idx = f.readData idx := by
  unfold SectorFiles.readData
  rw [hfg.metadata, hfg.data]

theorem SameOn.tag (hfg : SameOn f g idx) : g.tag idx = f.tag idx := by
  unfold SectorFiles.tag
  rw [hfg.readMetadata]

theorem sameOn_writeData_of_ne {j : SectorIdx} (hj : j ≠ idx) (data : SectorVec) :
    SameOn f (f.writeData idx data) j := ⟨Function.update_of_ne hj .., rfl⟩

theorem sameOn_writeMetadata_of_ne {j : SectorIdx} (hj : j ≠ idx) (ts : UInt64) (wr : UInt8) :
    SameOn f (f.writeMetadata idx ts wr) j := ⟨rfl, Function.update_of_ne hj ..⟩

/-- A step of `write` depends on the sector alone. -/
theorem SameOn.writeData (hfg : SameOn f g idx) (data : SectorVec) :
    SameOn (f.writeData idx data) (g.writeData idx data) idx :=
  ⟨by simp only [SectorFiles.writeData, Function.update_self], hfg.metadata⟩

theorem SameOn.writeMetadata (hfg : SameOn f g idx) (ts : UInt64) (wr : UInt8) :
    SameOn (f.writeMetadata idx ts wr) (g.writeMetadata idx ts wr) idx :=
  ⟨hfg.data, by simp only [SectorFiles.writeMetadata, Function.update_self]⟩

end SectorFiles

/-! ## What will come of a handler -/

namespace Handlers

open SectorFiles

namespace Stage

/-- The files once a handler that stands at this point has returned. -/
def settle (files : SectorFiles) (idx : SectorIdx) : Stage → SectorFiles
  | .compare t d =>
    if files.tag idx < t then
      (files.writeData idx d).writeMetadata idx t.timestamp t.writeRank
    else files
  | .data t d => (files.writeData idx d).writeMetadata idx t.timestamp t.writeRank
  | .metadata t => files.writeMetadata idx t.timestamp t.writeRank
  | _ => files

/-- The answer a handler that stands at this point will send. -/
def promise (self : AtomicRegisterImplementation) (header : SystemCommandHeader)
    (files : SectorFiles) : Stage → Option SystemRegisterCommand
  | .compare _ _ | .data _ _ | .metadata _ | .acknowledge => some (ackOf self header)
  | .readData => some (valueOf self header (files.readData header.sectorIdx)
      (files.readMetadata header.sectorIdx))
  | .readMetadata value => some (valueOf self header value (files.readMetadata header.sectorIdx))
  | .reply value stored => some (valueOf self header value stored)
  | .finished => none

variable {f g : SectorFiles} {idx : SectorIdx} {self : AtomicRegisterImplementation}
  {header : SystemCommandHeader}

/-- A step brings a handler nearer to where it was going. -/
theorem settle_next (st : Stage) :
    (st.next f idx).settle (st.files f idx) idx = st.settle f idx := by
  cases st with
  | compare t d =>
    by_cases hlt : f.tag idx < t
    · simp only [next, settle, files, if_pos hlt]
    · simp only [next, settle, files, if_neg hlt]
  | _ => rfl

theorem settle_congr (hfg : SameOn f g idx) (st : Stage) :
    SameOn (st.settle f idx) (st.settle g idx) idx := by
  cases st with
  | compare t d =>
    simp only [settle, hfg.tag]
    split
    · exact (hfg.writeData d).writeMetadata _ _
    · exact hfg
  | data t d => exact (hfg.writeData d).writeMetadata _ _
  | metadata t => exact hfg.writeMetadata _ _
  | _ => exact hfg

theorem settle_of_ne {j : SectorIdx} (hj : j ≠ idx) (st : Stage) :
    SameOn f (st.settle f idx) j := by
  have hwrite : ∀ (d : SectorVec) (ts : UInt64) (wr : UInt8),
      SameOn f ((f.writeData idx d).writeMetadata idx ts wr) j := fun d ts wr =>
    (sameOn_writeData_of_ne hj d).trans (sameOn_writeMetadata_of_ne hj ts wr)
  cases st with
  | compare t d =>
    simp only [settle]
    split
    · exact hwrite d _ _
    · exact .refl f j
  | data t d => exact hwrite d _ _
  | metadata t => exact sameOn_writeMetadata_of_ne hj _ _
  | _ => exact .refl f j

theorem files_of_ne {j : SectorIdx} (hj : j ≠ idx) (st : Stage) : SameOn f (st.files f idx) j := by
  cases st with
  | data t d => exact sameOn_writeData_of_ne hj d
  | metadata t => exact sameOn_writeMetadata_of_ne hj _ _
  | _ => exact .refl f j

/-- A handler keeps to the answer it will send. -/
theorem promise_next {st : Stage} {out : SystemRegisterCommand}
    (hout : (st.next f header.sectorIdx).promise self header (st.files f header.sectorIdx) =
      some out) : st.promise self header f = some out := by
  cases st with
  | compare t d =>
    simp only [next] at hout
    split at hout <;> exact hout
  | data t d | metadata t | readData | readMetadata value => exact hout
  | acknowledge | reply value stored | finished => cases hout

theorem promise_congr (hfg : SameOn f g header.sectorIdx) (st : Stage) :
    st.promise self header g = st.promise self header f := by
  cases st with
  | readData => simp only [promise, hfg.readData, hfg.readMetadata]
  | readMetadata value => simp only [promise, hfg.readMetadata]
  | _ => rfl

/-- The files of a sector are changed by its `WriteProc` only. -/
theorem settle_of_readProc {cmd : SystemRegisterCommand} {st : Stage} (hof : st.Of cmd)
    (hcmd : Executor.isWriteProc cmd = false) : st.settle f idx = f ∧ st.files f idx = f := by
  have hno : ∀ ts wr d, cmd.content ≠ .writeProc ts wr d := by
    intro ts wr d hcontent
    unfold Executor.isWriteProc at hcmd
    rw [hcontent] at hcmd
    cases hcmd
  cases st with
  | compare t d => exact absurd hof (hno _ _ _)
  | data t d => exact absurd hof (hno _ _ _)
  | metadata t =>
    obtain ⟨d, hd⟩ := hof
    exact absurd hd (hno _ _ _)
  | _ => exact ⟨rfl, rfl⟩

end Stage

end Handlers

namespace Executor

open Utils SectorFiles
open Handlers (firstStage)

/-! ## Requests in service -/

/-- Two requests that must not be handled at the same time: they are for one sector, and one
of them writes it. -/
def Collide (cmd cmd' : SystemRegisterCommand) : Prop :=
  cmd.header.sectorIdx = cmd'.header.sectorIdx ∧ (isWriteProc cmd = true ∨ isWriteProc cmd' = true)

instance (cmd cmd' : SystemRegisterCommand) : Decidable (Collide cmd cmd') := instDecidableAnd

theorem Collide.symm {cmd cmd' : SystemRegisterCommand} (h : Collide cmd cmd') : Collide cmd' cmd :=
  ⟨h.1.symm, h.2.symm⟩

/-- The request a message is. -/
def WorkerMessage.request? : WorkerMessage → Option SystemRegisterCommand
  | .system cmd _ => if Process.isRequest cmd then some cmd else none
  | .client _ _ => none

/-- The request register `i` is handling. -/
def Bank.inService (b : Bank) (i : ℕ) : Option SystemRegisterCommand :=
  match b.workers i with
  | .running msg _ => msg.request?
  | _ => none

/-- A register starts to handle a request only while no other register handles one that
collides with it. -/
def Process.KeepsApart (R : ℕ) (s : Process) : Action → Prop
  | .receive i _ => ∀ msg ∈ (s.bank.mailboxes i).head?, ∀ cmd ∈ msg.request?, ∀ j < R, j ≠ i →
      ∀ cmd' ∈ s.bank.inService j, ¬ Collide cmd cmd'
  | _ => True

instance (R : ℕ) (s : Process) (a : Action) : Decidable (s.KeepsApart R a) :=
  match a with
  | .receive i _ => inferInstanceAs (Decidable (∀ msg ∈ (s.bank.mailboxes i).head?,
      ∀ cmd ∈ msg.request?, ∀ j < R, j ≠ i → ∀ cmd' ∈ s.bank.inService j, ¬ Collide cmd cmd'))
  | .submit _ | .reject _ | .dispatch | .client _ | .arrive _ _ | .system _ | .announce _ | .call _
  | .finish _ _ | .crash | .restart => inferInstanceAs (Decidable True)

/-- Register `i` is at a point of the handler of `cmd`. -/
structure Bank.Serves (b : Bank) (i : ℕ) (cmd : SystemRegisterCommand) (st : Handlers.Stage) :
    Prop where
  running : ∃ o, b.workers i = .running (.system cmd o) (st.rest (b.registers i) cmd.header)
  of : st.Of cmd

/-- The calls of a handler that answers no request: none of them is on the sector store. -/
def outspoken : Contract registerSignature AtomicRegisterImplementation Unit where
  ok op _ := isVisible op = true
  after _ _ _ _ := True
  post _ _ := True

/-- **The store ahead.** `files` is the store of the bank as it will be when all running
handlers have come to their end, and the answers they will send are among those of `sent`. -/
structure Ahead (R : ℕ) (b : Bank) (files : SectorFiles)
    (sent : ℕ → SystemRegisterCommand → Prop) : Prop where
  stage : ∀ i < R, ∀ cmd, b.inService i = some cmd → ∃ st, b.Serves i cmd st ∧
    (∀ out, st.promise (b.registers i) cmd.header b.files = some out →
      sent cmd.header.processIdentifier.toNat out) ∧
    (isWriteProc cmd = true →
      SameOn (st.settle b.files cmd.header.sectorIdx) files cmd.header.sectorIdx)
  apart : ∀ i < R, ∀ j < R, j ≠ i → ∀ cmd cmd', b.inService i = some cmd →
    b.inService j = some cmd' → ¬ Collide cmd cmd'
  calm : ∀ idx, (∀ i < R, ∀ cmd, b.inService i = some cmd → isWriteProc cmd = true →
    cmd.header.sectorIdx ≠ idx) → SameOn b.files files idx
  others : ∀ i < R, ∀ msg rest, b.workers i = .running msg rest → msg.request? = none →
    rest.Meets outspoken ()

variable {R : ℕ} {b b' : Bank} {i : ℕ} {files files' : SectorFiles}
  {sent sent' : ℕ → SystemRegisterCommand → Prop}

theorem inService_running {msg : WorkerMessage}
    {rest : RegisterProgram AtomicRegisterImplementation}
    (hw : b.workers i = .running msg rest) : b.inService i = msg.request? := by
  unfold Bank.inService
  rw [hw]

theorem Bank.Resting.inService (h : b.Resting i) : b.inService i = none := by
  unfold Bank.inService
  split
  · rename_i msg rest hw
    exact absurd hw (h msg rest)
  · rfl

theorem inService_congr (h : b'.workers i = b.workers i) : b'.inService i = b.inService i := by
  unfold Bank.inService
  rw [h]

theorem Bank.Serves.congr {cmd : SystemRegisterCommand} {st : Handlers.Stage}
    (h : b.Serves i cmd st) (hworkers : b'.workers i = b.workers i)
    (hregisters : b'.registers i = b.registers i) :
    b'.Serves i cmd st := by
  refine ⟨?_, h.of⟩
  rw [hworkers, hregisters]
  exact h.running

theorem Bank.Serves.inService {cmd : SystemRegisterCommand} {st : Handlers.Stage}
    (h : b.Serves i cmd st) (hcmd : Process.isRequest cmd = true) : b.inService i = some cmd := by
  obtain ⟨o, hw⟩ := h.running
  rw [inService_running hw, WorkerMessage.request?, if_pos hcmd]

theorem request?_of_reply {cmd : SystemRegisterCommand} (hcmd : Process.isRequest cmd = false)
    (o : Origin) : (WorkerMessage.system cmd o).request? = none := by
  rw [WorkerMessage.request?, if_neg (by rw [hcmd]; exact Bool.noConfusion)]

theorem request?_eq_some {msg : WorkerMessage} {cmd : SystemRegisterCommand}
    (h : msg.request? = some cmd) :
    (∃ o, msg = .system cmd o) ∧ Process.isRequest cmd = true := by
  cases msg with
  | client _ _ => cases h
  | system cmd' o =>
    simp only [WorkerMessage.request?] at h
    split at h
    · rename_i hrequest
      cases h
      exact ⟨⟨o, rfl⟩, hrequest⟩
    · cases h

/-! ## Steps that leave the handlers alone -/

theorem Ahead.mono (h : Ahead R b files sent) (hle : ∀ n cmd, sent n cmd → sent' n cmd) :
    Ahead R b files sent' := by
  refine ⟨fun j hj cmd hcmd => ?_, h.apart, h.calm, h.others⟩
  obtain ⟨st, hserves, hpromise, hsettle⟩ := h.stage j hj cmd hcmd
  exact ⟨st, hserves, fun out hout => hle _ _ (hpromise out hout), hsettle⟩

/-- The same requests are in service, and their handlers do not move. -/
theorem Ahead.frame (h : Ahead R b files sent) (hfiles : b'.files = b.files)
    (hin : ∀ j < R, b'.inService j = b.inService j)
    (hserving : ∀ j < R, b.inService j ≠ none →
      b'.workers j = b.workers j ∧ b'.registers j = b.registers j)
    (hothers : ∀ j < R, ∀ msg rest, b'.workers j = .running msg rest → msg.request? = none →
      rest.Meets outspoken ()) : Ahead R b' files sent := by
  refine ⟨fun j hj cmd hcmd => ?_, fun j hj k hk hkj cmd cmd' hcmd hcmd' => ?_, fun idx hidx => ?_,
    hothers⟩
  · rw [hin j hj] at hcmd
    obtain ⟨st, hserves, hpromise, hsettle⟩ := h.stage j hj cmd hcmd
    obtain ⟨hworkers, hregister⟩ := hserving j hj (by rw [hcmd]; exact Option.some_ne_none cmd)
    refine ⟨st, hserves.congr hworkers hregister, ?_, ?_⟩
    · rw [hregister, hfiles]
      exact hpromise
    · rw [hfiles]
      exact hsettle
  · rw [hin j hj] at hcmd
    rw [hin k hk] at hcmd'
    exact h.apart j hj k hk hkj cmd cmd' hcmd hcmd'
  · rw [hfiles]
    refine h.calm idx fun j hj cmd hcmd => hidx j hj cmd ?_
    rw [hin j hj]
    exact hcmd

/-- Registers may come to rest or go on to wait. -/
theorem Ahead.same (h : Ahead R b files sent) (hfiles : b'.files = b.files)
    (hworkers : ∀ j < R, b'.Resting j ∧ b.Resting j ∨
      b'.workers j = b.workers j ∧ b'.registers j = b.registers j) :
    Ahead R b' files sent := by
  refine h.frame hfiles (fun j hj => ?_) (fun j hj hcmd => ?_) fun j hj msg rest hw hmsg => ?_
  · rcases hworkers j hj with ⟨hrest', hrest⟩ | ⟨hsame, -⟩
    · rw [hrest'.inService, hrest.inService]
    · exact inService_congr hsame
  · rcases hworkers j hj with ⟨-, hrest⟩ | hsame
    · exact absurd hrest.inService hcmd
    · exact hsame
  · rcases hworkers j hj with ⟨hrest', -⟩ | ⟨hsame, -⟩
    · exact absurd hw (hrest' msg rest)
    · exact h.others j hj msg rest (hsame ▸ hw) hmsg

theorem ahead_boot {N : ℕ} {selfIdent : UInt8} : Ahead R (.boot N selfIdent) .empty sent := by
  have hin : ∀ j, (Bank.boot N selfIdent).inService j = none := fun _ => rfl
  refine ⟨fun j _ cmd hcmd => ?_, fun j _ k _ _ cmd cmd' hcmd _ => ?_, fun idx _ => .refl _ idx,
    fun j _ msg rest hw => by cases hw⟩
  · rw [hin] at hcmd
    cases hcmd
  · rw [hin] at hcmd
    cases hcmd

/-! ## A register takes a message -/

section

open AtomicRegisterImplementation

variable {register : AtomicRegisterImplementation} {header : SystemCommandHeader}

theorem outspoken_enterWritePhase (content : SystemRegisterCommandContent) :
    (register.enterWritePhase header content).Meets outspoken () :=
  .call rfl fun _ _ _ => .call rfl fun _ _ _ => .done trivial

theorem outspoken_complete (requestIdentifier : UInt64) (opReturn : OperationReturn) :
    (register.complete requestIdentifier opReturn).Meets outspoken () := by
  cases hcallback : register.callback with
  | none =>
    rw [complete_none hcallback]
    exact .done trivial
  | some t =>
    rw [complete_some hcallback]
    exact .call rfl fun _ _ _ => .done trivial

/-- Client commands and replies are handled without the sector store. -/
theorem outspoken_handler (iter : IterOrder) (hsound : Sound register) {msg : WorkerMessage}
    (hmsg : msg.request? = none) : (Bank.handler iter register msg).Meets outspoken () := by
  cases msg with
  | client cmd t => exact .call rfl fun _ _ _ => .call rfl fun _ _ _ => .done trivial
  | system cmd o =>
    obtain ⟨header, content⟩ := cmd
    cases content with
    | readProc => cases hmsg
    | writeProc ts wr data => cases hmsg
    | value ts wr data =>
      show (register.handleValue iter header (ts, wr, data)).Meets outspoken ()
      have hcase := handleValue_cases iter register header (ts, wr, data)
      generalize register.handleValue iter header (ts, wr, data) = p at hcase ⊢
      cases hcase with
      | stale hid => exact .done trivial
      | collected hid hfew => exact .done trivial
      | read hid hreading hquorum hmax hval => exact outspoken_enterWritePhase _
      | write hid hreading hwriting hquorum hmax hval => exact outspoken_enterWritePhase _
      | panicRead hid hreading hval => exact absurd hval (hsound.readval hreading)
      | panicWrite hid hreading hwriting hval => exact absurd hval (hsound.writeval hwriting)
    | ack =>
      show (register.handleAck header).Meets outspoken ()
      have hcase := handleAck_cases register header
      generalize register.handleAck header = p at hcase ⊢
      cases hcase with
      | stale hid => exact .done trivial
      | counted hid hfew => exact .done trivial
      | read hid hreading hquorum hval => exact outspoken_complete _ _
      | write hid hreading hwriting hquorum hval =>
        exact .call rfl fun _ _ _ => outspoken_complete _ _
      | panicRead hid hreading hval => exact absurd hval (hsound.readval hreading)
      | panicWrite hid hreading hwriting hval => exact absurd hval (hsound.writeval hwriting)

/-- A request is handled from the first point of its handler on. -/
theorem handler_request (iter : IterOrder) {cmd : SystemRegisterCommand}
    (hcmd : Process.isRequest cmd = true) (o : Origin) :
    Bank.handler iter register (.system cmd o) = (firstStage cmd).rest register cmd.header ∧
      (firstStage cmd).Of cmd := by
  obtain ⟨header, content⟩ := cmd
  cases content with
  | readProc => exact ⟨rfl, rfl⟩
  | writeProc ts wr data => exact ⟨rfl, rfl⟩
  | value ts wr data => cases hcmd
  | ack => cases hcmd

end

/-- What `recv` does to the bank, as far as the store is concerned. -/
theorem Bank.receive_spec {iter : IterOrder} (h : b.receive i iter = some b') :
    ∃ msg mailbox, b.workers i = .waiting ∧ b.mailboxes i = msg :: mailbox ∧
      b'.workers = Function.update b.workers i (.running msg (handler iter (b.registers i) msg)) ∧
      b'.registers = b.registers ∧ b'.files = b.files := by
  unfold Bank.receive at h
  split at h
  · rename_i msg mailbox hwaiting hfirst
    cases h
    exact ⟨msg, mailbox, hwaiting, hfirst, rfl, rfl, rfl⟩
  · cases h

/-- **A client command or a reply** leaves the store alone. -/
theorem Ahead.receive_other (h : Ahead R b files sent) {iter : IterOrder} {msg : WorkerMessage}
    {mailbox : List WorkerMessage} (hrec : b.receive i iter = some b')
    (hfirst : b.mailboxes i = msg :: mailbox) (hsound : Sound (b.registers i))
    (hmsg : msg.request? = none) : Ahead R b' files sent := by
  obtain ⟨msg', mailbox', hwaiting, hfirst', hworkers, hregisters, hfiles⟩ := b.receive_spec hrec
  rw [hfirst, List.cons.injEq] at hfirst'
  obtain ⟨rfl, -⟩ := hfirst'
  have hw : b'.workers i = .running msg (Bank.handler iter (b.registers i) msg) := by
    rw [hworkers, Function.update_self]
  have hother : ∀ j, j ≠ i → b'.workers j = b.workers j := fun j hj => by
    rw [hworkers, Function.update_of_ne hj]
  have hnone : b.inService i = none := (Bank.resting_of_eq hwaiting (.inr rfl)).inService
  refine h.frame hfiles (fun j _ => ?_) (fun j _ hcmd => ?_) fun j hj msg' rest hw' hmsg' => ?_
  · by_cases hji : j = i
    · rw [hji, inService_running hw, hmsg, hnone]
    · exact inService_congr (hother j hji)
  · have hji : j ≠ i := by
      rintro rfl
      exact hcmd hnone
    exact ⟨hother j hji, by rw [hregisters]⟩
  · by_cases hji : j = i
    · subst hji
      rw [hw] at hw'
      cases hw'
      exact outspoken_handler iter hsound hmsg
    · exact h.others j hj msg' rest (hother j hji ▸ hw') hmsg'

/-- Nobody writes the sector of a request that keeps apart from all others, so the two stores
agree on it. -/
theorem Ahead.calm_of_apart (h : Ahead R b files sent) (hrest : b.Resting i)
    {cmd : SystemRegisterCommand}
    (hapart : ∀ j < R, j ≠ i → ∀ cmd' ∈ b.inService j, ¬ Collide cmd cmd') :
    SameOn b.files files cmd.header.sectorIdx := by
  refine h.calm _ fun j hj cmd' hcmd' hwrite hsame => ?_
  by_cases hji : j = i
  · subst hji
    rw [hrest.inService] at hcmd'
    cases hcmd'
  · exact hapart j hj hji cmd' hcmd' ⟨hsame.symm, .inr hwrite⟩

/-- **A request** is as good as handled when a register takes it: the store ahead is the one
its handler will leave. -/
theorem Ahead.receive_request (h : Ahead R b files sent) (hi : i < R) {iter : IterOrder}
    {cmd : SystemRegisterCommand} {o : Origin} {mailbox : List WorkerMessage}
    (hrec : b.receive i iter = some b') (hfirst : b.mailboxes i = .system cmd o :: mailbox)
    (hcmd : Process.isRequest cmd = true)
    (hapart : ∀ j < R, j ≠ i → ∀ cmd' ∈ b.inService j, ¬ Collide cmd cmd')
    (hsent : ∀ n out, sent n out → sent' n out)
    (hanswer : ∀ out, (firstStage cmd).promise (b.registers i) cmd.header b.files = some out →
      sent' cmd.header.processIdentifier.toNat out) :
    Ahead R b' ((firstStage cmd).settle files cmd.header.sectorIdx) sent' := by
  obtain ⟨msg, mailbox', hwaiting, hfirst', hworkers, hregisters, hfiles⟩ := b.receive_spec hrec
  rw [hfirst, List.cons.injEq] at hfirst'
  obtain ⟨rfl, -⟩ := hfirst'
  obtain ⟨hrest, hof⟩ := @handler_request (b.registers i) iter cmd hcmd o
  have hw : b'.workers i =
      .running (.system cmd o) ((firstStage cmd).rest (b.registers i) cmd.header) := by
    rw [hworkers, Function.update_self, hrest]
  have hother : ∀ j, j ≠ i → b'.workers j = b.workers j := fun j hj => by
    rw [hworkers, Function.update_of_ne hj]
  have hnone : b.inService i = none := (Bank.resting_of_eq hwaiting (.inr rfl)).inService
  have hself : b'.inService i = some cmd := by
    rw [inService_running hw, WorkerMessage.request?, if_pos hcmd]
  have hin : ∀ j, j ≠ i → b'.inService j = b.inService j := fun j hj =>
    inService_congr (hother j hj)
  have hcalm := h.calm_of_apart (Bank.resting_of_eq hwaiting (.inr rfl)) hapart
  -- the store ahead changes for the sector of a `WriteProc` only
  have hahead : ∀ idx, (isWriteProc cmd = true → cmd.header.sectorIdx ≠ idx) →
      SameOn files ((firstStage cmd).settle files cmd.header.sectorIdx) idx := by
    intro idx hidx
    cases hwrite : isWriteProc cmd with
    | true => exact Handlers.Stage.settle_of_ne (hidx hwrite).symm _
    | false =>
      rw [(Handlers.Stage.settle_of_readProc hof hwrite).1]
      exact .refl files idx
  refine ⟨fun j hj cmd' hcmd' => ?_, fun j hj k hk hkj cmd₁ cmd₂ h₁ h₂ => ?_,
    fun idx hidx => ?_, fun j hj msg rest hw' hmsg => ?_⟩
  · by_cases hji : j = i
    · subst hji
      rw [hself, Option.some.injEq] at hcmd'
      subst hcmd'
      refine ⟨firstStage cmd, ⟨⟨o, by rw [hregisters]; exact hw⟩, hof⟩, ?_, fun _ => ?_⟩
      · rw [hregisters, hfiles]
        exact hanswer
      · rw [hfiles]
        exact Handlers.Stage.settle_congr hcalm _
    · rw [hin j hji] at hcmd'
      obtain ⟨st, hserves, hpromise, hsettle⟩ := h.stage j hj cmd' hcmd'
      refine ⟨st, hserves.congr (hother j hji) (by rw [hregisters]), ?_, fun hwrite' => ?_⟩
      · rw [hregisters, hfiles]
        exact fun out hout => hsent _ _ (hpromise out hout)
      · rw [hfiles]
        refine (hsettle hwrite').trans (hahead _ fun hwrite hsame => ?_)
        exact hapart j hj hji cmd' hcmd' ⟨hsame, .inl hwrite⟩
  · by_cases hji : j = i
    · subst hji
      rw [hself, Option.some.injEq] at h₁
      subst h₁
      exact hapart k hk hkj cmd₂ (hin k hkj ▸ h₂)
    · rw [hin j hji] at h₁
      by_cases hki : k = i
      · subst hki
        rw [hself, Option.some.injEq] at h₂
        subst h₂
        exact fun hcollide => hapart j hj hji cmd₁ h₁ hcollide.symm
      · rw [hin k hki] at h₂
        exact h.apart j hj k hk hkj cmd₁ cmd₂ h₁ h₂
  · rw [hfiles]
    refine (h.calm idx fun j hj cmd' hcmd' => ?_).trans (hahead idx (hidx i hi cmd hself))
    refine hidx j hj cmd' ?_
    rw [hin j ?_]
    · exact hcmd'
    · rintro rfl
      rw [hnone] at hcmd'
      cases hcmd'
  · by_cases hji : j = i
    · subst hji
      rw [hw] at hw'
      cases hw'
      rw [WorkerMessage.request?, if_pos hcmd] at hmsg
      cases hmsg
    · exact h.others j hj msg rest (hother j hji ▸ hw') hmsg

/-! ## A handler goes on -/

/-- What the handler of a request does next: it returns and leaves the register as it is, or
it comes to its next point. -/
theorem Bank.Serves.call {cmd : SystemRegisterCommand} {st : Handlers.Stage}
    (h : b.Serves i cmd st) (hcall : b.call i = some b') :
    b'.registers = b.registers ∧ (∀ j, j ≠ i → b'.workers j = b.workers j) ∧
    (st = .finished ∧ b'.workers i = .ready ∧ b'.files = b.files ∨
      b'.Serves i cmd (st.next b.files cmd.header.sectorIdx) ∧
        b'.files = st.files b.files cmd.header.sectorIdx) := by
  obtain ⟨o, hw⟩ := h.running
  rcases call_next hcall with ⟨msg, op, next, x, files, hw', hx, rfl⟩ | ⟨msg, register, hw', rfl⟩
  · rw [hw] at hw'
    have hother : ∀ j, j ≠ i → (b.after i msg op files (next x)).workers j = b.workers j :=
      fun j hj => Function.update_of_ne hj ..
    have hself : (b.after i msg op files (next x)).workers i = .running msg (next x) :=
      Function.update_self ..
    cases st with
    | finished => cases hw'
    | compare t d =>
      cases hw'
      cases hx
      refine ⟨rfl, hother, .inr ⟨⟨⟨o, ?_⟩, Handlers.Stage.of_next h.of⟩, rfl⟩⟩
      rw [hself]
      simp only [Handlers.Stage.next]
      by_cases hlt : b.files.tag cmd.header.sectorIdx < t
      · rw [if_pos hlt]
        exact congrArg (Worker.running _) (if_pos hlt)
      · rw [if_neg hlt]
        exact congrArg (Worker.running _) (if_neg hlt)
    | _ =>
      cases hw'
      cases hx
      exact ⟨rfl, hother, .inr ⟨⟨⟨o, hself⟩, Handlers.Stage.of_next h.of⟩, rfl⟩⟩
  · rw [hw] at hw'
    cases st with
    | finished =>
      cases hw'
      exact ⟨Function.update_eq_self i b.registers, fun j hj => Function.update_of_ne hj ..,
        .inl ⟨rfl, Function.update_self .., rfl⟩⟩
    | compare t d | data t d | metadata t | acknowledge | readData | readMetadata value
    | reply value stored => cases hw'

/-- What another handler does next: it stays away from the store. -/
theorem Bank.call_outspoken {msg : WorkerMessage}
    {rest : RegisterProgram AtomicRegisterImplementation} (hw : b.workers i = .running msg rest)
    (hrest : rest.Meets outspoken ()) (hcall : b.call i = some b') :
    b'.files = b.files ∧
      (∀ j, j ≠ i → b'.workers j = b.workers j ∧ b'.registers j = b.registers j) ∧
      (b'.workers i = .ready ∨
        ∃ rest', b'.workers i = .running msg rest' ∧ rest'.Meets outspoken ()) := by
  rcases call_next hcall with ⟨msg', op, next, x, files, hw', hx, rfl⟩ | ⟨msg', register, hw', rfl⟩
  · rw [hw] at hw'
    cases hw'
    have hvisible : isVisible op = true := hrest.ok
    refine ⟨?_, fun j hj => ⟨Function.update_of_ne hj .., ?_⟩,
      .inr ⟨next x, Function.update_self .., hrest.next trivial⟩⟩
    · cases op with
      | put _ | broadcast _ | operationComplete _ _ =>
        cases hx
        rfl
      | send _ _ | readData _ | readMetadata _ | writeData _ _ | writeMetadata _ _ _ | panic =>
        cases hvisible
    · cases op with
      | operationComplete _ _ => exact Function.update_of_ne hj ..
      | _ => rfl
  · exact ⟨rfl, fun j hj => ⟨Function.update_of_ne hj .., Function.update_of_ne hj ..⟩,
      .inl (Function.update_self ..)⟩

/-- The handler of a request takes a step. -/
theorem Ahead.call_request (h : Ahead R b files sent) (hi : i < R) {cmd : SystemRegisterCommand}
    (hcmd : b.inService i = some cmd) (hcall : b.call i = some b') : Ahead R b' files sent := by
  obtain ⟨st, hserves, hpromise, hsettle⟩ := h.stage i hi cmd hcmd
  obtain ⟨hregisters, hother, hnext⟩ := hserves.call hcall
  have hrequest : Process.isRequest cmd = true := by
    obtain ⟨o, hw⟩ := hserves.running
    rw [inService_running hw] at hcmd
    exact (request?_eq_some hcmd).2
  have hin : ∀ j, j ≠ i → b'.inService j = b.inService j := fun j hj =>
    inService_congr (hother j hj)
  -- the store changes for the sector of a `WriteProc` only
  have hsame : ∀ idx, (isWriteProc cmd = true → cmd.header.sectorIdx ≠ idx) →
      SameOn b.files b'.files idx := by
    intro idx hidx
    rcases hnext with ⟨-, -, hfiles⟩ | ⟨-, hfiles⟩
    · rw [hfiles]
      exact .refl _ idx
    · rw [hfiles]
      cases hwrite : isWriteProc cmd with
      | true => exact Handlers.Stage.files_of_ne (hidx hwrite).symm st
      | false =>
        rw [(Handlers.Stage.settle_of_readProc hserves.of hwrite).2]
        exact .refl _ idx
  have hstage : ∀ j < R, j ≠ i → ∀ cmd', b.inService j = some cmd' → ∃ st, b'.Serves j cmd' st ∧
      (∀ out, st.promise (b'.registers j) cmd'.header b'.files = some out →
        sent cmd'.header.processIdentifier.toNat out) ∧
      (isWriteProc cmd' = true →
        SameOn (st.settle b'.files cmd'.header.sectorIdx) files cmd'.header.sectorIdx) := by
    intro j hj hji cmd' hcmd'
    obtain ⟨st', hserves', hpromise', hsettle'⟩ := h.stage j hj cmd' hcmd'
    have hsector : SameOn b.files b'.files cmd'.header.sectorIdx := by
      refine hsame _ fun hwrite hsector => ?_
      exact h.apart i hi j hj hji cmd cmd' hcmd hcmd' ⟨hsector, .inl hwrite⟩
    refine ⟨st', hserves'.congr (hother j hji) (by rw [hregisters]), ?_, fun hwrite => ?_⟩
    · rw [hregisters, Handlers.Stage.promise_congr hsector]
      exact hpromise'
    · exact (Handlers.Stage.settle_congr hsector st').symm.trans (hsettle' hwrite)
  have hothers : ∀ j < R, j ≠ i → ∀ msg rest, b'.workers j = .running msg rest →
      msg.request? = none → rest.Meets outspoken () := fun j hj hji msg rest hw hmsg =>
    h.others j hj msg rest (hother j hji ▸ hw) hmsg
  rcases hnext with ⟨rfl, hready, hfiles⟩ | ⟨hserves', hfiles⟩
  · -- the handler returns, and has left the sector as it should
    have hnone : b'.inService i = none := (Bank.resting_of_eq hready (.inl rfl)).inService
    have hne : ∀ {j cmd'}, b'.inService j = some cmd' → j ≠ i := by
      rintro j cmd' hcmd' rfl
      rw [hnone] at hcmd'
      cases hcmd'
    refine ⟨fun j hj cmd' hcmd' => ?_, fun j hj k hk hkj cmd₁ cmd₂ h₁ h₂ => ?_, fun idx hidx => ?_,
      fun j hj msg rest hw hmsg => ?_⟩
    · exact hstage j hj (hne hcmd') cmd' (hin j (hne hcmd') ▸ hcmd')
    · exact h.apart j hj k hk hkj cmd₁ cmd₂ (hin j (hne h₁) ▸ h₁) (hin k (hne h₂) ▸ h₂)
    · rw [hfiles]
      by_cases hown : isWriteProc cmd = true ∧ cmd.header.sectorIdx = idx
      · obtain ⟨hwrite, rfl⟩ := hown
        exact hsettle hwrite
      · refine h.calm idx fun j hj cmd' hcmd' hwrite hsector => ?_
        by_cases hji : j = i
        · subst hji
          rw [hcmd, Option.some.injEq] at hcmd'
          subst hcmd'
          exact hown ⟨hwrite, hsector⟩
        · exact hidx j hj cmd' (by rw [hin j hji]; exact hcmd') hwrite hsector
    · by_cases hji : j = i
      · subst hji
        rw [hready] at hw
        cases hw
      · exact hothers j hj hji msg rest hw hmsg
  · -- the handler goes on to its next point
    have hself : b'.inService i = some cmd := hserves'.inService hrequest
    have hin' : ∀ j, b'.inService j = b.inService j := by
      intro j
      by_cases hji : j = i
      · rw [hji, hself, hcmd]
      · exact hin j hji
    refine ⟨fun j hj cmd' hcmd' => ?_, fun j hj k hk hkj cmd₁ cmd₂ h₁ h₂ => ?_, fun idx hidx => ?_,
      fun j hj msg rest hw hmsg => ?_⟩
    · by_cases hji : j = i
      · subst hji
        rw [hself, Option.some.injEq] at hcmd'
        subst hcmd'
        refine ⟨_, hserves', ?_, fun hwrite => ?_⟩
        · rw [hregisters, hfiles]
          exact fun out hout => hpromise out (Handlers.Stage.promise_next hout)
        · rw [hfiles, Handlers.Stage.settle_next]
          exact hsettle hwrite
      · exact hstage j hj hji cmd' (hin j hji ▸ hcmd')
    · rw [hin'] at h₁ h₂
      exact h.apart j hj k hk hkj cmd₁ cmd₂ h₁ h₂
    · refine (hsame idx (hidx i hi cmd hself)).symm.trans (h.calm idx fun j hj cmd' hcmd' => ?_)
      exact hidx j hj cmd' (by rw [hin']; exact hcmd')
    · by_cases hji : j = i
      · subst hji
        rw [inService_running hw, hmsg] at hself
        cases hself
      · exact hothers j hj hji msg rest hw hmsg

/-- **The store ahead stays ahead** while a handler goes on. -/
theorem Ahead.call (h : Ahead R b files sent) (hi : i < R) (hcall : b.call i = some b') :
    Ahead R b' files sent := by
  cases hin : b.inService i with
  | some cmd => exact h.call_request hi hin hcall
  | none =>
    obtain ⟨msg, rest, hw⟩ : ∃ msg rest, b.workers i = .running msg rest := by
      rcases call_next hcall with ⟨msg, op, next, x, f, hw, -⟩ | ⟨msg, register, hw, -⟩
      · exact ⟨msg, _, hw⟩
      · exact ⟨msg, _, hw⟩
    have hmsg : msg.request? = none := (inService_running hw).symm.trans hin
    obtain ⟨hfiles, hother, hself⟩ := b.call_outspoken hw (h.others i hi msg rest hw hmsg) hcall
    refine h.frame hfiles (fun j _ => ?_) (fun j _ hcmd => ?_) fun j hj msg' rest' hw' hmsg' => ?_
    · by_cases hji : j = i
      · subst hji
        rw [hin]
        rcases hself with hready | ⟨rest', hw', -⟩
        · exact (Bank.resting_of_eq hready (.inl rfl)).inService
        · rw [inService_running hw', hmsg]
      · exact inService_congr (hother j hji).1
    · refine hother j ?_
      rintro rfl
      exact hcmd hin
    · by_cases hji : j = i
      · subst hji
        rcases hself with hready | ⟨rest'', hw'', hmeets⟩
        · rw [hready] at hw'
          cases hw'
        · rw [hw''] at hw'
          cases hw'
          exact hmeets
      · exact h.others j hj msg' rest' ((hother j hji).1 ▸ hw') hmsg'

/-- The answer a handler sends is the one it was going to send. -/
theorem Ahead.sent_of_send (h : Ahead R b files sent) (hi : i < R) {cmd out : SystemRegisterCommand}
    {o : Origin} {target : ℕ} {next : Unit → RegisterProgram AtomicRegisterImplementation}
    (hw : b.workers i = .running (.system cmd o) (.call (.send out target) next)) :
    sent target out := by
  cases hrequest : Process.isRequest cmd with
  | false =>
    have hok : isVisible (.send out target) = true :=
      (h.others i hi _ _ hw (request?_of_reply hrequest o)).ok
    cases hok
  | true =>
    have hin : b.inService i = some cmd := by
      rw [inService_running hw, WorkerMessage.request?, if_pos hrequest]
    obtain ⟨st, hserves, hpromise, -⟩ := h.stage i hi cmd hin
    obtain ⟨o', hw'⟩ := hserves.running
    rw [hw] at hw'
    cases st with
    | acknowledge =>
      cases hw'
      exact hpromise _ rfl
    | reply value stored =>
      cases hw'
      exact hpromise _ rfl
    | compare t d | data t d | metadata t | readData | readMetadata value | finished => cases hw'

end Executor
end AtomicDiscDrive
