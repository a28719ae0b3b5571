import AtomicDiscDrive.Network.Events

/-!
# Answers reach their addressee

`send` is called with a `Value` or an `Ack` for the process whose operation it answers. What
cannot be sent is kept under its `msg_ident` alone, and `monitor_connections` replays all
that is kept to whichever process it reconnects to. So an answer gets to a process it is not
for (`answer_goes_astray`). Where it gets to depends on the order of failed sends, removals
and reconnections, which `History` records: if no process is reconnected to while an answer
to another one, its send having failed, has been neither removed nor replaced, then answers
go to their addressees only (`answer_reaches_addressee`).
-/

namespace AtomicDiscDrive
namespace Network

open Utils

/-- A `Value` or an `Ack`. -/
def isAnswer (cmd : SystemRegisterCommand) : Bool :=
  match cmd.content with
  | .value _ _ _ => true
  | .ack => true
  | _ => false

/-! ## The order of failed sends, removals and reconnections -/

/-- What happens to `pending_cmds`. -/
inductive Entry where
  /-- a send of the command has failed; the addressee is that of `send` -/
  | failed (addressee : Option ℕ) (cmd : SystemRegisterCommand)
  | removed (msgIdent : Uuid)
deriving DecidableEq

/-- The `msg_ident` it happens under. -/
def Entry.msgIdent : Entry → Uuid
  | .failed _ cmd => cmd.header.msgIdent
  | .removed msgIdent => msgIdent

/-- The process whose answer could not be sent. -/
def Entry.answerTo : Entry → Option ℕ
  | .failed addressee cmd => if isAnswer cmd then addressee else none
  | .removed _ => none

/-- Every answer that could not be sent was for `target`, or else something has happened
under its `msg_ident` since. The log is in order of time. -/
def NoAnswersBut (target : ℕ) : List Entry → Prop
  | [] => True
  | e :: log =>
    (∀ t ∈ e.answerTo, t ≠ target → ∃ e' ∈ log, e'.msgIdent = e.msgIdent) ∧
      NoAnswersBut target log

instance decidableNoAnswersBut (target : ℕ) : (log : List Entry) →
    Decidable (NoAnswersBut target log)
  | [] => .isTrue trivial
  | e :: log =>
    have := decidableNoAnswersBut target log
    inferInstanceAs (Decidable ((∀ t ∈ e.answerTo, t ≠ target → _) ∧ NoAnswersBut target log))

/-- An entry nothing has happened under the `msg_ident` of since. -/
def Latest (log : List Entry) (e : Entry) : Prop :=
  ∃ before after, log = before ++ e :: after ∧ ∀ e' ∈ after, e'.msgIdent ≠ e.msgIdent

theorem Latest.append {log new : List Entry} {e : Entry} (h : Latest log e)
    (hnew : ∀ e' ∈ new, e'.msgIdent ≠ e.msgIdent) : Latest (log ++ new) e := by
  obtain ⟨before, after, rfl, hafter⟩ := h
  refine ⟨before, after ++ new, by simp, fun e' he' => ?_⟩
  rcases List.mem_append.mp he' with he' | he'
  · exact hafter e' he'
  · exact hnew e' he'

theorem latest_append_self (log : List Entry) (e : Entry) : Latest (log ++ [e]) e :=
  ⟨log, [], rfl, fun _ he' => by cases he'⟩

theorem NoAnswersBut.of_latest {target t : ℕ} {log : List Entry} {e : Entry}
    (h : NoAnswersBut target log) (he : Latest log e) (ht : e.answerTo = some t) :
    t = target := by
  obtain ⟨before, after, rfl, hafter⟩ := he
  induction before with
  | nil =>
    by_contra hne
    obtain ⟨e', he', heq⟩ := h.1 t ht hne
    exact hafter e' he' heq
  | cons e₀ before ih => exact ih h.2

/-- A client, and what has happened to its `pending_cmds`. -/
structure History where
  client : Client
  log : List Entry

namespace Client

/-- What an action adds to the log: a call puts away a command it could not send, or the
callback of an operation removes what is kept. -/
def record (ident : Operation → Uuid) (s : Client) : Action → List Entry
  | .call k ok =>
    match s.putAway (.call k ok) with
    | none => []
    | some (_, task) => [.failed task.addressee task.cmd]
  | .remove o => [.removed (ident o)]
  | _ => []

end Client

namespace History

/-- A step of the client; no step depends on the log. -/
def step (N self : ℕ) (ident : Operation → Uuid) (h : History) (a : Action) : Option History :=
  match h.client.step N self ident a with
  | none => none
  | some client => some ⟨client, h.log ++ h.client.record ident a⟩

def init : History := ⟨.init, []⟩

/-- When the monitor has connected to a process and begins to replay, every answer to another
process whose send failed has been removed or replaced under its `msg_ident`. -/
def ReconnectsInOrder (h : History) : Action → Prop
  | .replay _ =>
    match h.client.monitor with
    | .connected target _ => NoAnswersBut target h.log
    | _ => True
  | _ => True

instance (h : History) (a : Action) : Decidable (h.ReconnectsInOrder a) := by
  cases a with
  | replay order =>
    exact match hm : h.client.monitor with
      | .connected target c =>
        decidable_of_iff (NoAnswersBut target h.log) (by simp [ReconnectsInOrder, hm])
      | .visiting target => .isTrue (by simp [ReconnectsInOrder, hm])
      | .replaying t c r f => .isTrue (by simp [ReconnectsInOrder, hm])
  | _ => exact .isTrue trivial

end History

namespace Client

/-- The copy stems from a call; if it is an answer, `target` is the process it is for. -/
def MayGoTo (tasks : List Task) (copy : Copy) (target : ℕ) : Prop :=
  ∃ task, tasks[copy.call]? = some task ∧ task.cmd = copy.cmd ∧
    (isAnswer task.cmd = true → ∀ t, task.addressee = some t → target = t)

theorem MayGoTo.mono {tasks tasks' : List Task} {copy : Copy} {target : ℕ}
    (h : MayGoTo tasks copy target) (hext : Extends tasks tasks') :
    MayGoTo tasks' copy target := by
  obtain ⟨task, hk, hcmd, hto⟩ := h
  obtain ⟨task', hk', hcmd', -, hto'⟩ := hext copy.call task hk
  refine ⟨task', hk', hcmd'.trans hcmd, ?_⟩
  rw [hcmd', hto']
  exact hto

/-- A call sends its command to the processes it is for. -/
theorem Calls.mayGoTo {self : ℕ} {ident : Operation → Uuid} {s : Client}
    (h : Calls self ident s.tasks s.attempts) {k target stamp : ℕ} {task : Task} {rest : List ℕ}
    (hk : s.tasks[k]? = some task) (htargets : task.targets = target :: rest) :
    MayGoTo s.tasks (copyOf task k stamp) target := by
  refine ⟨task, hk, rfl, fun _ t hto => ?_⟩
  apply (h.answer task (List.mem_of_getElem? hk) t hto).2
  rw [htargets]
  exact List.mem_cons_self

/-- The copy stems from a call of which the log says that its send failed, and nothing has
happened under its `msg_ident` since. -/
def KeptSince (log : List Entry) (tasks : List Task) (copy : Copy) : Prop :=
  ∃ task, tasks[copy.call]? = some task ∧ task.cmd = copy.cmd ∧
    Latest log (.failed task.addressee task.cmd)

theorem KeptSince.mono {log new : List Entry} {tasks tasks' : List Task} {copy : Copy}
    (h : KeptSince log tasks copy) (hext : Extends tasks tasks')
    (hnew : ∀ e ∈ new, e.msgIdent ≠ copy.cmd.header.msgIdent) :
    KeptSince (log ++ new) tasks' copy := by
  obtain ⟨task, hk, hcmd, hlatest⟩ := h
  obtain ⟨task', hk', hcmd', -, hto⟩ := hext copy.call task hk
  refine ⟨task', hk', hcmd'.trans hcmd, ?_⟩
  rw [hcmd', hto]
  apply hlatest.append
  rw [Entry.msgIdent, hcmd]
  exact hnew

/-- What is kept may go to a process to which no answers but its own are outstanding. -/
theorem KeptSince.mayGoTo {log : List Entry} {tasks : List Task} {copy : Copy} {target : ℕ}
    (h : KeptSince log tasks copy) (hlog : NoAnswersBut target log) :
    MayGoTo tasks copy target := by
  obtain ⟨task, hk, hcmd, hlatest⟩ := h
  refine ⟨task, hk, hcmd, fun hanswer t hto => ?_⟩
  apply Eq.symm
  apply hlog.of_latest hlatest
  rw [Entry.answerTo, if_pos hanswer, hto]

/-- Everything sent so far went to its addressee, and the log tells what is kept. -/
structure Addressed (p : ℕ) (s : Client) (log : List Entry) : Prop where
  written : ∀ w ∈ s.written, MayGoTo s.tasks w.copy w.target
  toSelf : ∀ copy ∈ s.selfChannel, MayGoTo s.tasks copy p
  pending : ∀ copy ∈ s.pendingCmds, KeptSince log s.tasks copy
  replaying : ∀ target connection rest failed,
    s.monitor = .replaying target connection rest failed →
    ∀ copy ∈ rest, MayGoTo s.tasks copy target

variable {N self : ℕ} {ident : Operation → Uuid} {s s' : Client} {a : Action} {log : List Entry}

theorem addressed_init : Addressed self init [] where
  written := by simp [init]
  toSelf := by simp [init]
  pending := by simp [init]
  replaying := by simp [init]

/-- The calls go on; nothing is sent, and nothing new is kept. -/
theorem Addressed.of_extends (h : Addressed self s log) (new : List Entry)
    (hext : Extends s.tasks s'.tasks)
    (hwritten : s'.written = s.written) (hself : s'.selfChannel = s.selfChannel)
    (hpending : ∀ copy ∈ s'.pendingCmds, copy ∈ s.pendingCmds ∧
      ∀ e ∈ new, e.msgIdent ≠ copy.cmd.header.msgIdent)
    (hmonitor : s'.monitor = s.monitor) : Addressed self s' (log ++ new) where
  written := by
    rw [hwritten]
    exact fun w hw => (h.written w hw).mono hext
  toSelf := by
    rw [hself]
    exact fun copy hcopy => (h.toSelf copy hcopy).mono hext
  pending := by
    intro copy hcopy
    obtain ⟨hold, hnew⟩ := hpending copy hcopy
    exact (h.pending copy hold).mono hext hnew
  replaying := by
    rw [hmonitor]
    exact fun target c rest failed hm copy hcopy =>
      (h.replaying target c rest failed hm copy hcopy).mono hext

/-- The monitor goes on, and replays nothing. -/
theorem Addressed.monitor (h : Addressed self s log) {monitor : Monitor}
    (hmonitor : ∀ t c r f, monitor ≠ .replaying t c r f) :
    Addressed self { s with monitor := monitor } log where
  written := h.written
  toSelf := h.toSelf
  pending := h.pending
  replaying := fun t c r f hm => absurd hm (hmonitor t c r f)

/-- A call in progress: nothing is logged unless it puts its command away. -/
theorem record_call_ready {k : ℕ} {ok : Bool} {task : Task} (hk : s.tasks[k]? = some task)
    (hpc : task.pc = .ready) : s.record ident (.call k ok) = [] := by
  rw [record, putAway_ready hk hpc]

theorem record_call_failed {k stamp : ℕ} {ok : Bool} {task : Task}
    (hk : s.tasks[k]? = some task) (hpc : task.pc = .failed stamp) :
    s.record ident (.call k ok) = [.failed task.addressee task.cmd] := by
  rw [record, putAway_failed hk hpc]

/-- What a step does to the answers, the log being kept along. -/
theorem Event.addressed (h : Event N self ident s a s')
    (hcalls : Calls self ident s.tasks s.attempts)
    (ha : History.ReconnectsInOrder ⟨s, log⟩ a) (haddr : Addressed self s log) :
    Addressed self s' (log ++ s.record ident a) := by
  have hext : Extends s.tasks s'.tasks := h.extends
  have hsame : ∀ t : Client, t.pendingCmds = s.pendingCmds → ∀ copy ∈ t.pendingCmds,
      copy ∈ s.pendingCmds ∧ ∀ e ∈ ([] : List Entry), e.msgIdent ≠ copy.cmd.header.msgIdent :=
    fun t ht copy hcopy => ⟨ht ▸ hcopy, fun e he => by cases he⟩
  cases h with
  | send hident => exact haddr.of_extends [] hext rfl rfl (hsame _ rfl) rfl
  | broadcast hident hself hdone => exact haddr.of_extends [] hext rfl rfl (hsame _ rfl) rfl
  -- each way a copy leaves its task: over the channel to the process itself, the stream, or kept
  | @toSelf k ok task rest hk htargets hpc =>
    rw [record_call_ready hk hpc]
    have hkept : Addressed self (s.proceed k task) (log ++ []) :=
      haddr.of_extends [] hext rfl rfl (hsame _ rfl) rfl
    refine { hkept with toSelf := fun copy hcopy => ?_ }
    rcases List.mem_append.mp hcopy with hcopy | hcopy
    · exact hkept.toSelf copy hcopy
    · rw [List.mem_singleton.mp hcopy]
      exact (hcalls.mayGoTo hk htargets).mono hext
  | @sent k target connection task rest hk htargets hpc hself hfree hstream =>
    rw [record_call_ready hk hpc]
    have hkept : Addressed self (s.proceed k task) (log ++ []) :=
      haddr.of_extends [] hext rfl rfl (hsame _ rfl) rfl
    refine { hkept with written := fun w hw => ?_ }
    rcases List.mem_append.mp hw with hw | hw
    · exact hkept.written w hw
    · rw [List.mem_singleton.mp hw]
      exact (hcalls.mayGoTo hk htargets).mono hext
  | failed hk htargets hpc hself hfree hstream =>
    rw [record_call_ready hk hpc]
    exact haddr.of_extends [] hext rfl rfl (hsame _ rfl) rfl
  | @added k target stamp ok task rest hk htargets hpc hfree =>
    -- what is kept under the same `msg_ident` is replaced, so the rest is not touched by the entry
    rw [record_call_failed hk hpc]
    refine ⟨fun w hw => (haddr.written w hw).mono hext,
      fun copy hcopy => (haddr.toSelf copy hcopy).mono hext, fun copy hcopy => ?_,
      fun t c r f hm copy hcopy => (haddr.replaying t c r f hm copy hcopy).mono hext⟩
    rcases List.mem_append.mp hcopy with hcopy | hcopy
    · obtain ⟨hold, hne⟩ := List.mem_filter.mp hcopy
      apply (haddr.pending copy hold).mono hext
      intro e he heq
      rw [List.mem_singleton.mp he] at heq
      have hident : copy.cmd.header.msgIdent ≠ (copyOf task k stamp).cmd.header.msgIdent := by
        simpa using hne
      exact hident heq.symm
    · rw [List.mem_singleton.mp hcopy]
      obtain ⟨task', hk', hcmd, -, hto⟩ := hext k task hk
      refine ⟨task', hk', hcmd, ?_⟩
      rw [hcmd, hto]
      exact latest_append_self _ _
  | finish => exact haddr.of_extends [] hext rfl rfl (hsame _ rfl) rfl
  | @remove o hfinished hself hfree =>
    apply haddr.of_extends _ hext rfl rfl _ rfl
    intro copy hcopy
    obtain ⟨hold, hne⟩ := List.mem_filter.mp hcopy
    refine ⟨hold, fun e he heq => ?_⟩
    rw [List.mem_singleton.mp he] at heq
    have hident : copy.cmd.header.msgIdent ≠ ident o := by simpa using hne
    exact hident heq.symm
  | pass hmonitor =>
    simp only [record, List.append_nil]
    exact haddr.monitor (fun _ _ _ _ => Monitor.noConfusion)
  | connect hmonitor hself hfree hstream =>
    simp only [record, List.append_nil]
    exact { haddr with replaying := fun t c rest failed hm => by cases hm }
  | @replay target connection order hmonitor hperm =>
    simp only [record, List.append_nil]
    refine { haddr with replaying := fun t c rest failed hm copy hcopy => ?_ }
    cases hm
    -- what is replayed has been kept, and the condition is about the state it is replayed in
    have hlog : NoAnswersBut target log := by
      simpa only [History.ReconnectsInOrder, hmonitor] using ha
    exact (haddr.pending copy (hperm.mem_iff.mp hcopy)).mayGoTo hlog
  | replayed hmonitor =>
    simp only [record, List.append_nil]
    have hrest := haddr.replaying _ _ _ _ hmonitor
    refine { haddr with written := fun w hw => ?_, replaying := fun t c rest failed hm => ?_ }
    · rcases List.mem_append.mp hw with hw | hw
      · exact haddr.written w hw
      · rw [List.mem_singleton.mp hw]
        exact hrest _ List.mem_cons_self
    · cases hm
      exact fun copy hcopy => hrest copy (List.mem_cons_of_mem _ hcopy)
  | unreplayed hmonitor =>
    simp only [record, List.append_nil]
    have hrest := haddr.replaying _ _ _ _ hmonitor
    refine { haddr with replaying := fun t c rest failed hm => ?_ }
    cases hm
    exact fun copy hcopy => hrest copy (List.mem_cons_of_mem _ hcopy)
  | dropped hmonitor =>
    simp only [record, List.append_nil]
    exact haddr.monitor (fun _ _ _ _ => Monitor.noConfusion)
  | marked hmonitor =>
    simp only [record, List.append_nil]
    exact { haddr with replaying := fun t c rest failed hm => by cases hm }

/-- Every run of the client has its history. -/
theorem exists_history (hs : Reachable (step N self ident) (fun _ _ => True) init s) :
    ∃ h, Reachable (History.step N self ident) (fun _ _ => True) .init h ∧ h.client = s := by
  induction hs with
  | init => exact ⟨.init, .init, rfl⟩
  | @step s s' a hs ha hstep ih =>
    obtain ⟨h, hh, rfl⟩ := ih
    have hnext : h.step N self ident a = some ⟨s', h.log ++ h.client.record ident a⟩ := by
      rw [History.step, hstep]
    exact ⟨_, hh.step trivial hnext, rfl⟩

variable {h : History}

theorem addressed_reachable
    (hs : Reachable (History.step N self ident) History.ReconnectsInOrder .init h) :
    Calls self ident h.client.tasks h.client.attempts ∧ Addressed self h.client h.log := by
  induction hs with
  | init => exact ⟨calls_init, addressed_init⟩
  | step hs ha hstep ih =>
    rw [History.step] at hstep
    split at hstep
    · cases hstep
    · rename_i client hclient
      cases hstep
      have hevent := step_event hclient
      exact ⟨hevent.calls ih.1, hevent.addressed ih.1 ha ih.2⟩

/-- **Answers reach their addressee.** Suppose that whenever the monitor begins to replay to
a process it has connected to, every `Value` and `Ack` to another process whose send failed
has since been removed, or replaced by a later failed send, under its `msg_ident`. Then
everything written to a stream was passed to `send` or `broadcast`, and a `Value` or an `Ack`
passed to `send` for the process `t` is written to the stream of `t` only, or to the channel
of this process if `t` is this process. -/
theorem answer_reaches_addressee
    (hs : Reachable (History.step N self ident) History.ReconnectsInOrder .init h) :
    (∀ w ∈ h.client.written, ∃ task, h.client.tasks[w.copy.call]? = some task ∧
      task.cmd = w.copy.cmd ∧
      (isAnswer task.cmd = true → ∀ t, task.addressee = some t → w.target = t)) ∧
    ∀ copy ∈ h.client.selfChannel, ∃ task, h.client.tasks[copy.call]? = some task ∧
      task.cmd = copy.cmd ∧
      (isAnswer task.cmd = true → ∀ t, task.addressee = some t → self = t) :=
  ⟨(addressed_reachable hs).2.written, (addressed_reachable hs).2.toSelf⟩

/-! ## Runs of process 1 among three -/

/-- The operations of all processes have request identifiers of their own. -/
def sampleIdent (o : Operation) : Uuid := BitVec.ofNat 128 (10 * o.number + o.process)

/-- The `Ack` for the first write of process 2. -/
def sampleAck : SystemRegisterCommand := ⟨⟨1, sampleIdent ⟨2, 0⟩, 1, 0⟩, .ack⟩

/-- The `Ack` cannot be sent, and the monitor connects to process 2. -/
def ackReplayed : List Action :=
  [.send ⟨2, 0⟩ sampleAck, .call 0 true, .call 0 true, .visit true, .visit true,
    .replay [⟨sampleAck, ⟨2, 0⟩, 0, 0⟩], .replayStep true, .markActive]

/-- Process 2 cannot be reached, and the monitor connects to process 3. -/
def ackAstray : List Action :=
  [.send ⟨2, 0⟩ sampleAck, .call 0 true, .call 0 true, .visit true, .visit false, .visit true,
    .replay [⟨sampleAck, ⟨2, 0⟩, 0, 0⟩], .replayStep true]

theorem ack_reaches_addressee :
    ∃ h, Reachable (History.step 3 1 sampleIdent) History.ReconnectsInOrder .init h ∧
      h.client.written = [⟨2, 0, ⟨sampleAck, ⟨2, 0⟩, 0, 0⟩⟩] ∧
      h.log = [.failed (some 2) sampleAck] ∧
      ∀ w ∈ h.client.written, ∃ task, h.client.tasks[w.copy.call]? = some task ∧
        task.cmd = w.copy.cmd ∧
        (isAnswer task.cmd = true → ∀ t, task.addressee = some t → w.target = t) := by
  have hrun : ∃ h, Reachable (History.step 3 1 sampleIdent) History.ReconnectsInOrder .init h ∧
      h.client.written = [⟨2, 0, ⟨sampleAck, ⟨2, 0⟩, 0, 0⟩⟩] ∧
      h.log = [.failed (some 2) sampleAck] :=
    exists_of_exec ackReplayed (by decide +kernel)
  obtain ⟨h, hs, hwritten, hlog⟩ := hrun
  exact ⟨h, hs, hwritten, hlog, (answer_reaches_addressee hs).1⟩

/-- The `Ack` sent to process 2 is written to the stream of process 3. -/
theorem answer_goes_astray :
    ∃ s, Reachable (step 3 1 sampleIdent) (fun _ _ => True) init s ∧
      ∃ w ∈ s.written, ∃ task, s.tasks[w.copy.call]? = some task ∧ task.cmd = w.copy.cmd ∧
        isAnswer task.cmd = true ∧ task.addressee = some 2 ∧ w.target = 3 := by
  have hrun : ∃ s, Reachable (step 3 1 sampleIdent) (fun _ _ => True) init s ∧
      s.written = [⟨3, 0, ⟨sampleAck, ⟨2, 0⟩, 0, 0⟩⟩] ∧
      s.tasks = [⟨sampleAck, ⟨2, 0⟩, some 2, [], .ready⟩] :=
    exists_of_exec ackAstray (by decide +kernel)
  obtain ⟨s, hs, hwritten, htasks⟩ := hrun
  refine ⟨s, hs, ⟨3, 0, ⟨sampleAck, ⟨2, 0⟩, 0, 0⟩⟩, ?_, ?_⟩
  · rw [hwritten]
    exact List.mem_singleton_self _
  · rw [htasks]
    exact ⟨_, rfl, rfl, rfl, rfl, rfl⟩

end Client

end Network
end AtomicDiscDrive
