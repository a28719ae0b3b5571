import AtomicDiscDrive.Executor.Turns
import AtomicDiscDrive.Wire.Streams

/-!
# Rejected requests

A client request whose tag does not verify, or whose sector does not exist, is answered by
`respond_err`. The response goes through `respond`, which writes it and then calls
`finish_client_command` with the request identifier of the rejected request. That is without
effect if no command in progress has this identifier when the lock of the handler map is
taken; until then the request only waits (`reject_iff`). A response that cannot be written
ends the request, and `finish_client_command` is not called.
-/

namespace AtomicDiscDrive
namespace Executor

open Utils Wire

/-- The state of the executor and of the registers is the same. -/
structure Process.SameExecutor (s s' : Process) : Prop where
  sectorCounters : s'.sectorCounters = s.sectorCounters
  msgIdHandlerSectorIdx : s'.msgIdHandlerSectorIdx = s.msgIdHandlerSectorIdx
  readyRegisters : s'.readyRegisters = s.readyRegisters
  bank : s'.bank = s.bank

/-- The bytes of a response. -/
def responseBytes (config : Config) (opComplete : OperationComplete) (msgType : UInt8) :
    List UInt8 :=
  let msg := serializeResponse opComplete msgType
  msg ++ config.hmac config.hmacClientKey msg

/-! ## `respond_err`, among other tasks -/

/-- A step of the task of a rejected request. -/
structure OwnStep where
  before : Process
  written : Bool
  after : Process

/-- A rejected request, its response and what its task has done. -/
structure Rejection where
  process : Process
  /-- the number of its task -/
  task : ℕ
  /-- no crash has ended it -/
  alive : Bool
  response : List UInt8
  own : List OwnStep

namespace Rejection

/-- Any task takes a step. -/
def step (N R : ℕ) (selfIdent : UInt8) (r : Rejection) (a : Action) : Option Rejection :=
  (r.process.step N R selfIdent a).map fun process =>
    match a with
    | .finish j written =>
      { r with
        process
        own := if r.alive = true ∧ j = r.task then r.own ++ [⟨r.process, written, process⟩]
          else r.own }
    | .crash => { r with process, alive := false }
    | _ => { r with process }

/-- The step was taken at this program counter. -/
def At (r : Rejection) (pc : FinishPc) (x : OwnStep) : Prop :=
  (x.before.finishing[r.task]?).map FinishTask.pc = some pc

instance (r : Rejection) (pc : FinishPc) (x : OwnStep) : Decidable (r.At pc x) :=
  inferInstanceAs (Decidable (_ = _))

/-- `write_all`, as far as it has been called. -/
def attempts (r : Rejection) : List OwnStep := r.own.filter (r.At .respond)

/-- What has been sent to the client. -/
def responses (r : Rejection) : List (List UInt8) :=
  (r.attempts.filter OwnStep.written).map fun _ => r.response

/-- The request has left the executor and the registers alone. -/
def Unchanged (r : Rejection) : Prop := ∀ x ∈ r.own, x.before.SameExecutor x.after

/-- The connection takes the response. -/
def Writes (r : Rejection) : Prop := ∀ x ∈ r.attempts, x.written = true

/-- No command in progress has the identifier when the lock of the handler map is taken. -/
def FindsNothing (requestIdentifier : UInt64) (r : Rejection) : Prop :=
  ∀ x ∈ r.own, r.At .remove x →
    x.before.msgIdHandlerSectorIdx (.fromRequest requestIdentifier) = none

instance (r : Rejection) : Decidable r.Writes :=
  inferInstanceAs (Decidable (∀ x ∈ r.attempts, x.written = true))

instance (requestIdentifier : UInt64) (r : Rejection) :
    Decidable (r.FindsNothing requestIdentifier) :=
  inferInstanceAs (Decidable (∀ x ∈ r.own, r.At .remove x →
    x.before.msgIdHandlerSectorIdx (.fromRequest requestIdentifier) = none))

end Rejection

/-- `handle_single_external_request` comes to the `respond_err` of a request it rejects. -/
def handleRejected (config : Config) (s : Process) (request : Request) : Option Rejection :=
  match config.effect request with
  | some (.respondErr msgType statusCode requestIdentifier) =>
    let process := { s with finishing := s.finishing ++ [⟨requestIdentifier, .respond⟩] }
    some
      { process
        task := s.finishing.length
        alive := true
        response := responseBytes config ⟨statusCode, requestIdentifier, .write⟩ msgType
        own := [] }
  | _ => none

/-- The status a rejected frame is answered with. -/
def rejectStatus (config : Config) (f : Frame) : StatusCode :=
  if config.Authentic f then .invalidSectorIndex else .authFailure

theorem effect_of_rejected (config : Config) (f : Frame) {cmd : ClientRegisterCommand}
    (hcmd : f.command = .client cmd) (hreject : ¬ (config.Authentic f ∧ config.InRange f.command)) :
    config.effect (config.requestOf f) =
      some (.respondErr (clientMsgType cmd.content) (rejectStatus config f)
        cmd.header.requestIdentifier) := by
  obtain ⟨garbage, command, tag, clean, full, hlen⟩ := f
  dsimp only at hcmd
  subst hcmd
  by_cases hauth : config.Authentic ⟨garbage, .client cmd, tag, clean, full, hlen⟩
  · have hrange : ¬ cmd.header.sectorIdx < config.maxSector := fun h => hreject ⟨hauth, h⟩
    have hle : config.maxSector ≤ cmd.header.sectorIdx := UInt64.not_lt.mp hrange
    simp [Config.effect, Config.requestOf, rejectStatus, hauth, hle, msgTypeOf]
  · simp [Config.effect, Config.requestOf, rejectStatus, hauth, msgTypeOf]

variable {N R : ℕ} {selfIdent : UInt8} {s s' : Process} {a : Action} {r r' : Rejection}
  {requestIdentifier : UInt64}

/-! ## The task -/

/-- A completion task stands still while other tasks run. -/
theorem task_still (hturn : Turn N R selfIdent s a s') {j : ℕ} {task : FinishTask}
    (hj : s.finishing[j]? = some task) (ha : a ≠ .crash) (hother : ∀ written, a ≠ .finish j written) :
    s'.finishing[j]? = some task := by
  -- another task moves
  have hset : ∀ {k : ℕ} (written : Bool) (new : FinishTask), a = .finish k written →
      (s.finishing.set k new)[j]? = some task := by
    intro k written new hk
    rw [List.getElem?_set_ne]
    · exact hj
    · rintro rfl
      exact hother written hk
  cases hturn with
  | aside haside => exact haside.finishing ▸ hj
  | spawn _ | reject =>
    exact (List.getElem?_append_left (List.getElem?_eq_some_iff.mp hj).1).trans hj
  | respond _ _ | missing _ _ _ _ | removes _ _ _ _ | counts _ _ _ _ | notifies _ _ =>
    exact hset _ _ rfl
  | crash => exact absurd rfl ha
  | restart hrestart => exact (restart_aside hrestart).finishing ▸ hj
  | _ => exact hj

/-- What the task does at each program counter. -/
theorem task_moves {j : ℕ} {written : Bool} (hturn : Turn N R selfIdent s (.finish j written) s')
    {pc : FinishPc} (hj : s.finishing[j]? = some ⟨requestIdentifier, pc⟩) :
    ∃ pc', s'.finishing[j]? = some ⟨requestIdentifier, pc'⟩ ∧ pc' ≠ .respond ∧
      match pc with
      | .respond => s.SameExecutor s' ∧ (pc' = .remove ∨ pc' = .done)
      | .remove =>
        s.msgIdHandlerSectorIdx (.fromRequest requestIdentifier) = none ∧ s.SameExecutor s' ∧
            pc' = .done ∨
          s.msgIdHandlerSectorIdx (.fromRequest requestIdentifier) ≠ none ∧ ¬ s.SameExecutor s'
      | .count _ | .notify _ => True
      | .done => False := by
  have hself : ∀ pc', (s.finishing.set j ⟨requestIdentifier, pc'⟩)[j]? =
      some ⟨requestIdentifier, pc'⟩ :=
    fun _ => List.getElem?_set_self (List.getElem?_eq_some_iff.mp hj).1
  cases hturn with
  | aside _ _ hfinish => exact absurd rfl (hfinish j written)
  | respond hj' hpc =>
    rw [hj, Option.some.injEq] at hj'
    subst hj'
    obtain rfl : pc = .respond := hpc
    refine ⟨_, hself _, ?_, ⟨rfl, rfl, rfl, rfl⟩, ?_⟩
    · cases written <;> exact FinishPc.noConfusion
    · cases written
      · exact .inr rfl
      · exact .inl rfl
  | missing hj' hpc _ hnone =>
    rw [hj, Option.some.injEq] at hj'
    subst hj'
    obtain rfl : pc = .remove := hpc
    exact ⟨_, hself _, FinishPc.noConfusion, .inl ⟨hnone, ⟨rfl, rfl, rfl, rfl⟩, rfl⟩⟩
  | removes hj' hpc _ hentry =>
    rw [hj, Option.some.injEq] at hj'
    subst hj'
    obtain rfl : pc = .remove := hpc
    refine ⟨_, hself _, FinishPc.noConfusion, .inr ⟨?_, fun hsame => ?_⟩⟩
    · rw [hentry]
      exact Option.some_ne_none _
    · -- the entry is gone
      have hmap := congrFun hsame.msgIdHandlerSectorIdx (.fromRequest requestIdentifier)
      rw [hentry] at hmap
      exact Option.some_ne_none _ (hmap.symm.trans (Function.update_self ..))
  | counts hj' hpc _ _ =>
    rw [hj, Option.some.injEq] at hj'
    subst hj'
    obtain rfl : pc = _ := hpc
    exact ⟨_, hself _, FinishPc.noConfusion, trivial⟩
  | notifies hj' hpc =>
    rw [hj, Option.some.injEq] at hj'
    subst hj'
    obtain rfl : pc = _ := hpc
    exact ⟨_, hself _, FinishPc.noConfusion, trivial⟩

/-! ## What it has done -/

/-- The task has found an entry. -/
def Rejection.Found (requestIdentifier : UInt64) (r : Rejection) : Prop :=
  ∃ x ∈ r.own, r.At .remove x ∧
    x.before.msgIdHandlerSectorIdx (.fromRequest requestIdentifier) ≠ none

/-- What the task has done by the time it stands at a program counter. -/
def Rejection.Done (requestIdentifier : UInt64) (r : Rejection) : FinishPc → Prop
  | .respond => r.own = []
  | .remove | .done => True
  | .count _ | .notify _ => r.Found requestIdentifier

/-- **A rejected request on its way.** -/
structure Rejected (requestIdentifier : UInt64) (r : Rejection) : Prop where
  task : r.alive = true → ∃ pc, r.process.finishing[r.task]? = some ⟨requestIdentifier, pc⟩ ∧
    r.Done requestIdentifier pc
  once : r.attempts.length ≤ 1
  same : ∀ x ∈ r.own, x.before.SameExecutor x.after ∨ r.Found requestIdentifier
  changes : ∀ x ∈ r.own, r.At .remove x →
    x.before.msgIdHandlerSectorIdx (.fromRequest requestIdentifier) ≠ none →
    ¬ x.before.SameExecutor x.after

/-- Other tasks run. -/
theorem Rejected.frame (h : Rejected requestIdentifier r) (htask : r'.task = r.task)
    (hown : r'.own = r.own)
    (hkeeps : r'.alive = true → ∀ task, r.alive = true → r.process.finishing[r.task]? = some task →
      r'.process.finishing[r.task]? = some task)
    (halive : r'.alive = true → r.alive = true) : Rejected requestIdentifier r' := by
  have hat : r'.At = r.At := by
    unfold Rejection.At
    rw [htask]
  have hfound : r'.Found requestIdentifier ↔ r.Found requestIdentifier := by
    unfold Rejection.Found
    rw [hown, hat]
  refine ⟨fun hlive => ?_, ?_, fun x hx => ?_, fun x hx hremove => ?_⟩
  · obtain ⟨pc, hj, hdone⟩ := h.task (halive hlive)
    refine ⟨pc, ?_, ?_⟩
    · rw [htask]
      exact hkeeps hlive _ (halive hlive) hj
    · cases pc with
      | respond => exact hown.trans hdone
      | remove | done => trivial
      | count | notify => exact hfound.mpr hdone
  · show (r'.own.filter (r'.At .respond)).length ≤ 1
    simp only [hown, hat]
    exact h.once
  · rw [hown] at hx
    exact (h.same x hx).imp_right hfound.mpr
  · rw [hown] at hx
    rw [hat] at hremove
    exact h.changes x hx hremove

/-- The task moves. -/
theorem Rejected.moves (h : Rejected requestIdentifier r) (halive : r.alive = true)
    {written : Bool} (hturn : Turn N R selfIdent r.process (.finish r.task written) s') :
    Rejected requestIdentifier
      { r with process := s', own := r.own ++ [⟨r.process, written, s'⟩] } := by
  obtain ⟨pc, hj, hdone⟩ := h.task halive
  obtain ⟨pc', hj', hpc', hmoves⟩ := task_moves hturn hj
  have hat : ∀ pc'', r.At pc'' ⟨r.process, written, s'⟩ ↔ pc = pc'' := by
    intro pc''
    simp only [Rejection.At, hj, Option.map_some, Option.some.injEq]
  have hkeeps : r.Found requestIdentifier → Rejection.Found requestIdentifier
      { r with process := s', own := r.own ++ [⟨r.process, written, s'⟩] } := by
    rintro ⟨x, hx, hfound⟩
    exact ⟨x, List.mem_append_left _ hx, hfound⟩
  -- what the new step is
  have hnew : (r.process.SameExecutor s' ∨ Rejection.Found requestIdentifier
        { r with process := s', own := r.own ++ [⟨r.process, written, s'⟩] }) ∧
      (pc = .remove →
        r.process.msgIdHandlerSectorIdx (.fromRequest requestIdentifier) ≠ none →
        ¬ r.process.SameExecutor s') ∧
      Rejection.Done requestIdentifier
        { r with process := s', own := r.own ++ [⟨r.process, written, s'⟩] } pc' := by
    cases pc with
    | respond =>
      refine ⟨.inl hmoves.1, FinishPc.noConfusion, ?_⟩
      rcases hmoves.2 with rfl | rfl <;> trivial
    | remove =>
      rcases hmoves with ⟨hnone, hsame, rfl⟩ | ⟨hentry, hdiffers⟩
      · exact ⟨.inl hsame, fun _ hne => absurd hnone hne, trivial⟩
      · have hfound : Rejection.Found requestIdentifier
            { r with process := s', own := r.own ++ [⟨r.process, written, s'⟩] } :=
          ⟨_, List.mem_append_right _ (List.mem_singleton_self _), (hat .remove).mpr rfl, hentry⟩
        refine ⟨.inr hfound, fun _ _ => hdiffers, ?_⟩
        cases pc' with
        | respond => exact absurd rfl hpc'
        | remove | done => trivial
        | count | notify => exact hfound
    | count | notify =>
      refine ⟨.inr (hkeeps hdone), FinishPc.noConfusion, ?_⟩
      cases pc' with
      | respond => exact absurd rfl hpc'
      | remove | done => trivial
      | count | notify => exact hkeeps hdone
    | done => exact hmoves.elim
  refine ⟨fun _ => ⟨pc', hj', hnew.2.2⟩, ?_, fun x hx => ?_, fun x hx hremove => ?_⟩
  · show ((r.own ++ [_]).filter (r.At .respond)).length ≤ 1
    rw [List.filter_append, List.length_append]
    by_cases hpc : pc = .respond
    · -- nothing has been done before the response is written
      subst hpc
      have hnil : r.own = [] := hdone
      rw [hnil]
      show 0 + _ ≤ 1
      rw [Nat.zero_add]
      exact List.length_filter_le _ [_]
    · rw [List.filter_cons_of_neg (by simpa [hat] using hpc), List.filter_nil]
      exact h.once
  · rcases List.mem_append.mp hx with hx | hx
    · exact (h.same x hx).imp_right hkeeps
    · rw [List.mem_singleton.mp hx]
      exact hnew.1
  · rcases List.mem_append.mp hx with hx | hx
    · exact h.changes x hx hremove
    · rw [List.mem_singleton.mp hx] at hremove ⊢
      exact hnew.2.1 ((hat .remove).mp hremove)

theorem Rejected.step (h : Rejected requestIdentifier r) (hstep : r.step N R selfIdent a = some r') :
    Rejected requestIdentifier r' := by
  obtain ⟨process, hprocess, rfl⟩ := Option.map_eq_some_iff.mp hstep
  have hturn := step_turn hprocess
  have hstill : a ≠ .crash → (∀ written, a ≠ .finish r.task written) → ∀ task,
      r.process.finishing[r.task]? = some task → process.finishing[r.task]? = some task :=
    fun ha hother _ hj => task_still hturn hj ha hother
  cases a with
  | finish j written =>
    by_cases hmine : r.alive = true ∧ j = r.task
    · dsimp only
      rw [if_pos hmine]
      obtain ⟨halive, rfl⟩ := hmine
      exact h.moves halive hturn
    · refine h.frame rfl (if_neg hmine) (fun halive task _ hj => ?_) id
      refine hstill Action.noConfusion (fun written' heq => ?_) task hj
      cases heq
      exact hmine ⟨halive, rfl⟩
  | crash => exact h.frame rfl rfl (fun halive => Bool.noConfusion halive) (fun h => Bool.noConfusion h)
  | _ =>
    exact h.frame rfl rfl
      (fun _ task _ hj => hstill Action.noConfusion (fun _ => Action.noConfusion) task hj) id

theorem rejected_begins (config : Config) (s : Process) (f : Frame) {cmd : ClientRegisterCommand}
    (hcmd : f.command = .client cmd) (hreject : ¬ (config.Authentic f ∧ config.InRange f.command)) :
    ∃ r, handleRejected config s (config.requestOf f) = some r ∧
      r.response = responseBytes config
        ⟨rejectStatus config f, cmd.header.requestIdentifier, .write⟩ (clientMsgType cmd.content) ∧
      r.process = { s with
        finishing := s.finishing ++ [⟨cmd.header.requestIdentifier, .respond⟩] } ∧
      r.task = s.finishing.length ∧ r.alive = true ∧ r.own = [] := by
  unfold handleRejected
  rw [effect_of_rejected config f hcmd hreject]
  exact ⟨_, rfl, rfl, rfl, rfl, rfl, rfl⟩

theorem Rejected.begins (htask : r.task = s.finishing.length) (hown : r.own = [])
    (hprocess : r.process = { s with finishing := s.finishing ++ [⟨requestIdentifier, .respond⟩] }) :
    Rejected requestIdentifier r := by
  refine ⟨fun _ => ⟨.respond, ?_, hown⟩, ?_, fun x hx => ?_, fun x hx => ?_⟩
  · rw [hprocess, htask]
    exact List.getElem?_concat_length ..
  · rw [Rejection.attempts, hown]
    exact Nat.zero_le 1
  all_goals
    rw [hown] at hx
    cases hx

/-- No lock of the executor is in the way of the response. -/
theorem Rejection.responds (halive : r.alive = true) (hup : r.process.up = true)
    (hj : r.process.finishing[r.task]? = some ⟨requestIdentifier, .respond⟩) (written : Bool) :
    ∃ r', r.step N R selfIdent (.finish r.task written) = some r' ∧ r'.attempts ≠ [] := by
  let process := r.process.setFinish r.task ⟨requestIdentifier, .respond⟩
    (if written then .remove else .done)
  have hstep : r.process.step N R selfIdent (.finish r.task written) = some process := by
    rw [step_of_up hup]
    show r.process.finishStep r.task written = _
    unfold Process.finishStep
    rw [hj]
  have hat : r.At .respond ⟨r.process, written, process⟩ := by
    unfold At
    rw [hj]
    rfl
  refine ⟨{ r with process, own := r.own ++ [⟨r.process, written, process⟩] }, ?_, ?_⟩
  · unfold step
    rw [hstep, Option.map_some]
    dsimp only
    rw [if_pos ⟨halive, rfl⟩]
  · refine List.ne_nil_of_mem (List.mem_filter.mpr ⟨?_, decide_eq_true hat⟩)
    exact List.mem_append_right _ (List.mem_singleton_self _)

/-- The response does not change. -/
theorem Rejection.response_step (hstep : r.step N R selfIdent a = some r') :
    r'.response = r.response := by
  obtain ⟨process, -, rfl⟩ := Option.map_eq_some_iff.mp hstep
  cases a <;> rfl

/-- The task of a rejected request, once it has come to write the response. -/
theorem Rejected.iff (h : Rejected requestIdentifier r) (htried : r.attempts ≠ []) :
    (r.responses = [r.response] ∧ r.Unchanged) ↔ (r.Writes ∧ r.FindsNothing requestIdentifier) := by
  obtain ⟨x, hx⟩ : ∃ x, r.attempts = [x] :=
    List.length_eq_one_iff.mp (le_antisymm h.once (List.length_pos_iff.mpr htried))
  have hwrites : r.responses = [r.response] ↔ r.Writes := by
    unfold Rejection.responses Rejection.Writes
    rw [hx]
    cases hwritten : x.written <;> simp [hwritten]
  have hunchanged : r.Unchanged ↔ r.FindsNothing requestIdentifier := by
    constructor
    · intro hsame y hy hremove
      by_contra hne
      exact h.changes y hy hremove hne (hsame y hy)
    · intro hnone y hy
      rcases h.same y hy with hsame | ⟨z, hz, hremove, hne⟩
      · exact hsame
      · exact absurd (hnone z hz hremove) hne
  rw [hwrites, hunchanged]

/-- **Rejected requests.** The response of a rejected client request can be written at once,
whatever locks of the executor are held. From then on, whatever other tasks do, one error response of the
right status has been sent and the request has left the executor and the registers alone
exactly if the connection takes the response and no command in progress has the identifier of
the request when it takes the lock of the handler map, if it has come to that. -/
theorem reject_iff (config : Config) (s : Process) (f : Frame) (cmd : ClientRegisterCommand)
    (hcmd : f.command = .client cmd)
    (hreject : ¬ (config.Authentic f ∧ config.InRange f.command)) :
    ∃ r₀, handleRejected config s (config.requestOf f) = some r₀ ∧
      (s.up = true → ∀ written, ∃ r, r₀.step N R selfIdent (.finish r₀.task written) = some r ∧
        r.attempts ≠ []) ∧
      ∀ r, Reachable (Rejection.step N R selfIdent) (fun _ _ => True) r₀ r → r.attempts ≠ [] →
        ((r.responses = [responseBytes config
            ⟨rejectStatus config f, cmd.header.requestIdentifier, .write⟩
            (clientMsgType cmd.content)] ∧ r.Unchanged) ↔
          (r.Writes ∧ r.FindsNothing cmd.header.requestIdentifier)) := by
  obtain ⟨r₀, hr₀, hresponse, hprocess, htask, halive, hown⟩ := rejected_begins config s f hcmd hreject
  have hbegins : Rejected cmd.header.requestIdentifier r₀ := .begins htask hown hprocess
  refine ⟨r₀, hr₀, fun hup written => ?_, fun r hr htried => ?_⟩
  · have hj : r₀.process.finishing[r₀.task]? = some ⟨cmd.header.requestIdentifier, .respond⟩ := by
      rw [hprocess, htask]
      exact List.getElem?_concat_length ..
    have hup' : r₀.process.up = true := by
      rw [hprocess]
      exact hup
    exact Rejection.responds halive hup' hj written
  · have h : Rejected cmd.header.requestIdentifier r ∧ r.response = r₀.response :=
      hr.invariant (fun r => Rejected cmd.header.requestIdentifier r ∧ r.response = r₀.response)
        ⟨hbegins, rfl⟩
        fun _ _ _ _ h _ hstep => ⟨h.1.step hstep, (Rejection.response_step hstep).trans h.2⟩
    rw [← hresponse, ← h.2]
    exact h.1.iff htried

/-- A READ with identifier 7 whose tag does not verify. -/
def forged : Frame :=
  ⟨[], .client ⟨⟨7, 5⟩, .read⟩, List.replicate 32 3, by decide, by decide, rfl⟩

set_option maxRecDepth 100000 in
/-- The forged READ comes on a connection of its own while WRITE 7, which is done, is being
finished, and WRITE 9 is in progress. It is answered at once, waits for the lock, and leaves no
trace. -/
theorem reject_forged_waiting :
    ∃ s, Reachable (Process.step 1 1 1) (fun _ _ => True) (.init 1 1) s ∧
      s.handlerLock = some 0 ∧ s.msgIdHandlerSectorIdx (.fromRequest 9) = some (0, 1) ∧
      ∃ r₀ r, handleRejected .sample s (Config.sample.requestOf forged) = some r₀ ∧
        Reachable (Rejection.step 1 1 1) (fun _ _ => True) r₀ r ∧
        r.process.finishing = [⟨7, .done⟩, ⟨7, .done⟩] ∧
        r.responses = [responseBytes .sample ⟨.authFailure, 7, .write⟩ MsgType.read] ∧
        r.Unchanged := by
  have hrun : ∃ s, Reachable (Process.step 1 1 1) (fun _ _ => True) (.init 1 1) s ∧
      s.handlerLock = some 0 ∧ s.msgIdHandlerSectorIdx (.fromRequest 9) = some (0, 1) ∧
      ∃ r₀ ∈ handleRejected .sample s (Config.sample.requestOf forged),
        ∃ r ∈ exec (Rejection.step 1 1 1) (fun _ _ => True) r₀
          [.finish 1 true, .finish 0 true, .finish 0 true, .finish 1 true],
          r.process.finishing = [⟨7, .done⟩, ⟨7, .done⟩] ∧ r.attempts ≠ [] ∧ r.Writes ∧
          r.FindsNothing 7 :=
    exists_of_exec (writeRun ++ [.submit ⟨⟨9, 1⟩, .write (.fill 2)⟩] ++ handOver 1 ++
      [.finish 0 true, .finish 0 true]) (by decide +kernel)
  obtain ⟨s, hs, hlock, hentry, r₀, hr₀, r, hexec, hfinishing, htried, hwrites, hnothing⟩ := hrun
  obtain ⟨r₁, hr₁, -, hiff⟩ := reject_iff .sample s forged
    ⟨⟨7, 5⟩, .read⟩ rfl (by decide)
  rw [Option.mem_def.mp hr₀, Option.some.injEq] at hr₁
  subst hr₁
  have hr : Reachable (Rejection.step 1 1 1) (fun _ _ => True) r₀ r :=
    reachable_of_exec _ .init hexec
  obtain ⟨hresponses, hunchanged⟩ := (hiff r hr htried).mpr ⟨hwrites, hnothing⟩
  exact ⟨s, hs, hlock, hentry, r₀, r, hr₀, hr, hfinishing, hresponses, hunchanged⟩

set_option maxRecDepth 100000 in
/-- While a write with identifier 7 is in progress, the forged READ finishes it: its entry is
removed, so that no answer reaches its register any more, and its sector is given free. -/
theorem reject_forged_busy :
    ∃ s, Reachable (Process.step 3 1 1) (fun _ _ => True) (.init 3 1) s ∧
      s.bank.fired = [] ∧ s.sectorCounters 0 = some (1, 0) ∧
      s.msgIdHandlerSectorIdx (.fromRequest 7) = some (0, 0) ∧
      ∃ r₀ r, handleRejected .sample s (Config.sample.requestOf forged) = some r₀ ∧
        Reachable (Rejection.step 3 1 1) (fun _ _ => True) r₀ r ∧ ¬ r.Unchanged ∧
        r.process.sectorCounters 0 = some (1, 1) ∧
        r.process.msgIdHandlerSectorIdx (.fromRequest 7) = none := by
  have hrun : ∃ s, Reachable (Process.step 3 1 1) (fun _ _ => True) (.init 3 1) s ∧
      s.bank.fired = [] ∧ s.sectorCounters 0 = some (1, 0) ∧
      s.msgIdHandlerSectorIdx (.fromRequest 7) = some (0, 0) ∧
      ∃ r₀ ∈ handleRejected .sample s (Config.sample.requestOf forged),
        ∃ r ∈ exec (Rejection.step 3 1 1) (fun _ _ => True) r₀ (List.replicate 4 (.finish 0 true)),
          (∃ x ∈ r.own, x.after.sectorCounters 0 ≠ x.before.sectorCounters 0) ∧
          r.process.sectorCounters 0 = some (1, 1) ∧
          r.process.msgIdHandlerSectorIdx (.fromRequest 7) = none :=
    exists_of_exec ([.announce 0, .submit ⟨⟨7, 0⟩, .write (.fill 1)⟩] ++ handOver 0)
      (by decide +kernel)
  obtain ⟨s, hs, hfired, hcounters, hentry, r₀, hr₀, r, hexec, ⟨x, hx, hne⟩, hfinished⟩ := hrun
  refine ⟨s, hs, hfired, hcounters, hentry, r₀, r, hr₀, reachable_of_exec _ .init hexec,
    fun hsame => ?_, hfinished⟩
  exact hne (congrFun (hsame x hx).sectorCounters 0)

end Executor
end AtomicDiscDrive
