import AtomicDiscDrive.Executor.Sectors
import AtomicDiscDrive.Protocol.Live

/-!
# Handlers of both levels

In a run of the protocol a handler takes one step, and callbacks are the numbers of the
operations. In a process handlers interleave, and callbacks are the numbers of its calls. With
the operations its calls are (`named`), a handler does the same on both levels: the register it
will leave, the messages it will broadcast and the completion it will report (`run_reply`,
`run_client`), the answer it will send and the sector it will leave (`run_request`).
-/

namespace AtomicDiscDrive

open Utils

/-! ## The handlers, case by case -/

namespace AtomicRegisterImplementation

variable {iter : IterOrder} {self : AtomicRegisterImplementation} {header : SystemCommandHeader}
  {value : UInt64 × UInt8 × SectorVec}

theorem handleValue_stale (hid : header.readIdent ≠ self.state.readIdent) :
    self.handleValue iter header value = .done self := by
  rw [handleValue, if_pos hid]
  rfl

theorem handleValue_collected (hid : header.readIdent = self.state.readIdent)
    (hfew : ¬ (self.Busy ∧ (self.collect header.processIdentifier value).ReadQuorum)) :
    self.handleValue iter header value = .done (self.collect header.processIdentifier value) := by
  have hcond : ¬ ((self.reading || self.state.writing) &&
      2 * (self.readlist.insert header.processIdentifier value).entries.length
        > self.processesCount) = true := by
    rw [Bool.and_eq_true, decide_eq_true_eq]
    exact hfew
  rw [handleValue, if_neg (not_not.mpr hid)]
  exact if_neg hcond

/-- A `Value` that completes a majority of a busy register. -/
theorem handleValue_quorum {max : ReadlistEntry} (hid : header.readIdent = self.state.readIdent)
    (hbusy : self.Busy = true)
    (hquorum : (self.collect header.processIdentifier value).ReadQuorum)
    (hmax : maxEntry iter (self.readlist.insert header.processIdentifier value) = some max) :
    self.handleValue iter header value =
      if self.reading then
        unwrap self.readval >>= fun readval =>
          (self.chooseRead readval.requestIdentifier max.2.2.2).enterWritePhase header
            (.writeProc max.2.1 max.2.2.1 max.2.2.2)
      else
        unwrap self.state.writeval >>= fun writeval =>
          self.chooseWrite.enterWritePhase header
            (.writeProc (max.2.1 + 1) self.selfIdent writeval.data) := by
  have hcond : ((self.reading || self.state.writing) &&
      2 * (self.readlist.insert header.processIdentifier value).entries.length
        > self.processesCount) = true := by
    rw [Bool.and_eq_true, decide_eq_true_eq]
    exact ⟨hbusy, hquorum⟩
  rw [handleValue, if_neg (not_not.mpr hid), if_pos hcond, hmax, unwrap_some, Program.done_bind]
  rfl

theorem handleAck_stale (hid : header.readIdent ≠ self.state.readIdent) :
    self.handleAck header = .done self := by
  rw [handleAck, if_pos hid]
  rfl

theorem handleAck_counted (hid : header.readIdent = self.state.readIdent)
    (hfew : ¬ (self.Busy ∧ (self.count header.processIdentifier).AckQuorum)) :
    self.handleAck header = .done (self.count header.processIdentifier) := by
  have hcond : ¬ ((self.reading || self.state.writing) &&
      2 * (insert header.processIdentifier self.acks).card > self.processesCount) = true := by
    rw [Bool.and_eq_true, decide_eq_true_eq]
    exact hfew
  rw [handleAck, if_neg (not_not.mpr hid)]
  exact if_neg hcond

/-- An `Ack` that completes a majority of a busy register. -/
theorem handleAck_quorum (hid : header.readIdent = self.state.readIdent)
    (hbusy : self.Busy = true) (hquorum : (self.count header.processIdentifier).AckQuorum) :
    self.handleAck header =
      if self.reading then
        unwrap self.readval >>= fun readval =>
          self.endRead.complete readval.requestIdentifier (.read ⟨some readval.data⟩)
      else
        .call (.put self.endWrite.state) fun _ =>
          unwrap self.state.writeval >>= fun writeval =>
            self.endWrite.complete writeval.header.requestIdentifier .write := by
  have hcond : ((self.reading || self.state.writing) &&
      2 * (insert header.processIdentifier self.acks).card > self.processesCount) = true := by
    rw [Bool.and_eq_true, decide_eq_true_eq]
    exact ⟨hbusy, hquorum⟩
  rw [handleAck, if_neg (not_not.mpr hid)]
  exact if_pos hcond

end AtomicRegisterImplementation

namespace Executor

open AtomicRegisterImplementation
open Handlers (firstStage)

/-! ## Callbacks by the numbers of their operations -/

/-- A register whose callback goes by the number of its operation. -/
def named (f : Callback → Option ℕ) (register : AtomicRegisterImplementation) :
    AtomicRegisterImplementation := { register with callback := register.callback.bind f }

/-- What a call of a handler does to the environment of a handler of the protocol. -/
def performed (f : Callback → Option ℕ) (e : Protocol.HandlerEnv) :
    RegisterOp → Protocol.HandlerEnv
  | .put state => { e with stable := some state }
  | .broadcast cmd => { e with broadcasts := e.broadcasts ++ [cmd] }
  | .operationComplete t op =>
    { e with completed := e.completed ++ (f t).toList.map fun k => (k, op) }
  | _ => e

section

variable {f : Callback → Option ℕ} {ops : List RegisterOp} {e : Protocol.HandlerEnv}

theorem performed_files : (ops.foldl (performed f) e).files = e.files := by
  induction ops generalizing e with
  | nil => rfl
  | cons op ops ih =>
    rw [List.foldl_cons, ih]
    cases op <;> rfl

theorem mem_performed_broadcasts {cmd : SystemRegisterCommand} :
    cmd ∈ (ops.foldl (performed f) e).broadcasts ↔ cmd ∈ e.broadcasts ∨ .broadcast cmd ∈ ops := by
  induction ops generalizing e with
  | nil => simp
  | cons op ops ih =>
    rw [List.foldl_cons, ih]
    cases op <;> simp [performed, or_assoc]

theorem mem_performed_completed {x : ℕ × OperationComplete} :
    x ∈ (ops.foldl (performed f) e).completed ↔
      x ∈ e.completed ∨ ∃ t, .operationComplete t x.2 ∈ ops ∧ f t = some x.1 := by
  obtain ⟨k, op⟩ := x
  induction ops generalizing e with
  | nil => simp
  | cons o ops ih =>
    rw [List.foldl_cons, ih]
    cases o with
    | operationComplete t op' =>
      simp only [performed, List.mem_append, List.mem_map, Option.mem_toList,
        Prod.mk.injEq, List.mem_cons, RegisterOp.operationComplete.injEq]
      constructor
      · rintro ((h | ⟨k', hk', rfl, rfl⟩) | ⟨u, hu, hk⟩)
        · exact .inl h
        · exact .inr ⟨t, .inl ⟨rfl, rfl⟩, hk'⟩
        · exact .inr ⟨u, .inr hu, hk⟩
      · rintro (h | ⟨u, ⟨rfl, rfl⟩ | hu, hk⟩)
        · exact .inl (.inl h)
        · exact .inl (.inr ⟨k, hk, rfl, rfl⟩)
        · exact .inr ⟨u, hu, hk⟩
    | _ => simp [performed]

end

section

variable {f : Callback → Option ℕ} {register : AtomicRegisterImplementation}

/-- `complete` on both levels. -/
theorem run_complete (hf : ∀ t, register.callback = some t → f t ≠ none)
    (requestIdentifier : UInt64) (opReturn : OperationReturn) (e : Protocol.HandlerEnv) :
    ((named f register).complete requestIdentifier opReturn).run Protocol.HandlerEnv.exec e =
      some (named f (withoutCallback register),
        (report register ⟨.ok, requestIdentifier, opReturn⟩).foldl (performed f) e) := by
  cases hcallback : register.callback with
  | none =>
    have hnone : (named f register).callback = none := by
      simp only [named, hcallback, Option.bind_none]
    have hsame : withoutCallback register = register := by
      rw [withoutCallback, ← hcallback]
    rw [complete_none hnone, hsame, report, hcallback]
    rfl
  | some t =>
    obtain ⟨k, hk⟩ := Option.ne_none_iff_exists'.mp (hf t hcallback)
    have hsome : (named f register).callback = some k := by
      simp only [named, hcallback, Option.bind_some, hk]
    rw [complete_some hsome, report, hcallback]
    simp only [Option.toList_some, List.map_cons, List.map_nil, List.foldl_cons, List.foldl_nil,
      performed, hk]
    rfl

/-- **A reply is handled the same on both levels.** -/
theorem run_reply (iter : IterOrder) (hsound : Sound register)
    (hf : ∀ t, register.callback = some t → f t ≠ none) {cmd : SystemRegisterCommand}
    (hcmd : Process.isRequest cmd = false) :
    ∃ ops final, Foreseen (register.systemCommand iter cmd) ops final ∧
      ∀ e, ((named f register).systemCommand iter cmd).run Protocol.HandlerEnv.exec e =
        some (named f final, ops.foldl (performed f) e) := by
  obtain ⟨header, content⟩ := cmd
  cases content with
  | readProc => cases hcmd
  | writeProc ts wr data => cases hcmd
  | value ts wr data =>
    show ∃ ops final, Foreseen (register.handleValue iter header (ts, wr, data)) ops final ∧
      ∀ e, ((named f register).handleValue iter header (ts, wr, data)).run _ e = _
    have hcase := handleValue_cases iter register header (ts, wr, data)
    generalize register.handleValue iter header (ts, wr, data) = p at hcase ⊢
    cases hcase with
    | stale hid =>
      refine ⟨_, _, .done _, fun e => ?_⟩
      rw [@handleValue_stale iter (named f register) header _ hid]
      rfl
    | collected hid hfew =>
      refine ⟨_, _, .done _, fun e => ?_⟩
      rw [@handleValue_collected iter (named f register) header _ hid hfew]
      rfl
    | @read max readval hid hreading hquorum hmax hval =>
      refine ⟨_, _, foreseen_enterWritePhase _, fun e => ?_⟩
      have hbusy : (named f register).Busy = true := by
        show (register.reading || register.state.writing) = true
        rw [hreading, Bool.true_or]
      rw [@handleValue_quorum iter (named f register) header _ max hid hbusy hquorum hmax,
        if_pos (show (named f register).reading = true from hreading),
        show (named f register).readval = some readval from hval]
      rfl
    | @write max writeval hid hreading hwriting hquorum hmax hval =>
      refine ⟨_, _, foreseen_enterWritePhase _, fun e => ?_⟩
      have hbusy : (named f register).Busy = true := by
        show (register.reading || register.state.writing) = true
        rw [hwriting, Bool.or_true]
      rw [@handleValue_quorum iter (named f register) header _ max hid hbusy hquorum hmax,
        if_neg (show ¬ (named f register).reading = true from by
          rw [show (named f register).reading = false from hreading]; exact Bool.noConfusion),
        show (named f register).state.writeval = some writeval from hval]
      rfl
    | panicRead hid hreading hval => exact absurd hval (hsound.readval hreading)
    | panicWrite hid hreading hwriting hval => exact absurd hval (hsound.writeval hwriting)
  | ack =>
    show ∃ ops final, Foreseen (register.handleAck header) ops final ∧
      ∀ e, ((named f register).handleAck header).run _ e = _
    have hcase := handleAck_cases register header
    generalize register.handleAck header = p at hcase ⊢
    cases hcase with
    | stale hid =>
      refine ⟨_, _, .done _, fun e => ?_⟩
      rw [@handleAck_stale (named f register) header hid]
      rfl
    | counted hid hfew =>
      refine ⟨_, _, .done _, fun e => ?_⟩
      rw [@handleAck_counted (named f register) header hid hfew]
      rfl
    | @read readval hid hreading hquorum hval =>
      refine ⟨_, _, foreseen_complete _ _, fun e => ?_⟩
      have hbusy : (named f register).Busy = true := by
        show (register.reading || register.state.writing) = true
        rw [hreading, Bool.true_or]
      rw [@handleAck_quorum (named f register) header hid hbusy hquorum,
        if_pos (show (named f register).reading = true from hreading),
        show (named f register).readval = some readval from hval]
      exact @run_complete f register.endRead hf _ _ e
    | @write writeval hid hreading hwriting hquorum hval =>
      refine ⟨_, _, .call rfl (.inl rfl) fun _ => foreseen_complete _ _, fun e => ?_⟩
      have hbusy : (named f register).Busy = true := by
        show (register.reading || register.state.writing) = true
        rw [hwriting, Bool.or_true]
      rw [@handleAck_quorum (named f register) header hid hbusy hquorum,
        if_neg (show ¬ (named f register).reading = true from by
          rw [show (named f register).reading = false from hreading]; exact Bool.noConfusion),
        show (named f register).state.writeval = some writeval from hval]
      exact @run_complete f register.endWrite hf _ _ _
    | panicRead hid hreading hval => exact absurd hval (hsound.readval hreading)
    | panicWrite hid hreading hwriting hval => exact absurd hval (hsound.writeval hwriting)

/-- **A client command is started the same on both levels**, as call `t` here and as operation
`k` there. -/
theorem run_client {g : Callback → Option ℕ} {t : Callback} {k : ℕ} (hg : g t = some k)
    (cmd : ClientRegisterCommand) (e : Protocol.HandlerEnv) :
    ∃ ops final, Foreseen (register.clientCommand cmd t) ops final ∧
      ((named f register).clientCommand cmd k).run Protocol.HandlerEnv.exec e =
        some (named g final, ops.foldl (performed g) e) := by
  refine ⟨_, _, .call rfl (.inl rfl) fun _ => .call rfl (.inl rfl) fun _ => .done _, ?_⟩
  have hnamed : (named f register).startCommand cmd k = named g (register.startCommand cmd t) := by
    obtain ⟨header, content⟩ := cmd
    cases content <;> simp [startCommand, named, hg]
  have hstate : (named f register).startCommand cmd k =
      { register.startCommand cmd t with callback := some k } := by
    obtain ⟨header, content⟩ := cmd
    cases content <;> rfl
  rw [clientCommand_eq, ← hnamed, hstate]
  rfl

/-- **A request is handled the same on both levels**: the protocol sends the answer and leaves
the sector that the handler has been forecast to. -/
theorem run_request (iter : IterOrder) {cmd : SystemRegisterCommand}
    (hcmd : Process.isRequest cmd = true) (files : SectorFiles)
    (stable : Option AtomicRegisterStorageState) :
    ∃ out, (firstStage cmd).promise register cmd.header files = some out ∧
      ((named f register).systemCommand iter cmd).run Protocol.HandlerEnv.exec
        ⟨files, stable, [], [], []⟩ =
      some (named f register, ⟨(firstStage cmd).settle files cmd.header.sectorIdx, stable, [],
        [⟨cmd.header.processIdentifier.toNat, out⟩], []⟩) := by
  obtain ⟨header, content⟩ := cmd
  cases content with
  | readProc => exact ⟨_, rfl, rfl⟩
  | writeProc ts wr data =>
    refine ⟨_, rfl, ?_⟩
    show Program.run Protocol.HandlerEnv.exec (if files.tag header.sectorIdx < (⟨ts, wr⟩ : Tag) then
      writeSector header.sectorIdx (data, ts, wr) >>= fun _ =>
        (named f register).acknowledge header
      else (named f register).acknowledge header) ⟨files, stable, [], [], []⟩ = _
    simp only [firstStage, Handlers.Stage.settle]
    by_cases hlt : files.tag header.sectorIdx < (⟨ts, wr⟩ : Tag)
    · rw [if_pos hlt, if_pos hlt]
      rfl
    · rw [if_neg hlt, if_neg hlt]
      rfl
  | value ts wr data => cases hcmd
  | ack => cases hcmd

end

end Executor
end AtomicDiscDrive
