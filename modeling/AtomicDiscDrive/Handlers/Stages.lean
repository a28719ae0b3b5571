import AtomicDiscDrive.Handlers.Store

/-!
# The points of a handler

A handler of a shared store is at one of a few points (`Stage`); `call_stage` says what
each of them does next, and is the only place where the programs of the handlers are
unfolded. `step_cases` lists what a step of the store can be, and the `TasksAt` lemmas say
what it does to a property of all running handlers.
-/

namespace AtomicDiscDrive
namespace Handlers

open Utils

/-! ## Stages -/

/-- Where a handler stands: before the comparison, the two steps of `write` and the `Ack`
of a `WriteProc`; before the two reads and the `Value` of a `ReadProc`; or at its end. -/
inductive Stage where
  | compare (t : Tag) (d : SectorVec)
  | data (t : Tag) (d : SectorVec)
  | metadata (t : Tag)
  | acknowledge
  | readData
  | readMetadata (value : SectorVec)
  | reply (value : SectorVec) (stored : UInt64 × UInt8)
  | finished

namespace Stage

/-- The `Value` sent for a `ReadProc`. -/
def valueOf (self : AtomicRegisterImplementation) (header : SystemCommandHeader)
    (value : SectorVec) (stored : UInt64 × UInt8) : SystemRegisterCommand :=
  ⟨{ header with processIdentifier := self.selfIdent }, .value stored.1 stored.2 value⟩

/-- The `Ack` sent for a `WriteProc`. -/
def ackOf (self : AtomicRegisterImplementation) (header : SystemCommandHeader) :
    SystemRegisterCommand :=
  ⟨{ header with processIdentifier := self.selfIdent }, .ack⟩

/-- What is left of a handler at each point. -/
def rest (self : AtomicRegisterImplementation) (header : SystemCommandHeader) :
    Stage → RegisterProgram AtomicRegisterImplementation
  | .compare t d => self.handleWriteProc header t.timestamp t.writeRank d
  | .data t d => writeSector header.sectorIdx (d, t.timestamp, t.writeRank) >>= fun _ =>
      self.acknowledge header
  | .metadata t => .call (.writeMetadata header.sectorIdx t.timestamp t.writeRank) fun _ =>
      self.acknowledge header
  | .acknowledge => self.acknowledge header
  | .readData => self.handleReadProc header
  | .readMetadata value => .call (.readMetadata header.sectorIdx) fun stored =>
      .call (.send (valueOf self header value stored) header.processIdentifier.toNat) fun _ =>
      .done self
  | .reply value stored =>
      .call (.send (valueOf self header value stored) header.processIdentifier.toNat) fun _ =>
      .done self
  | .finished => .done self

/-- The next call at each point, and `none` at the end. -/
def call (self : AtomicRegisterImplementation) (header : SystemCommandHeader) :
    Stage → Option RegisterOp
  | .compare _ _ | .readMetadata _ => some (.readMetadata header.sectorIdx)
  | .data _ d => some (.writeData header.sectorIdx d)
  | .metadata t => some (.writeMetadata header.sectorIdx t.timestamp t.writeRank)
  | .acknowledge => some (.send (ackOf self header) header.processIdentifier.toNat)
  | .readData => some (.readData header.sectorIdx)
  | .reply value stored =>
    some (.send (valueOf self header value stored) header.processIdentifier.toNat)
  | .finished => none

/-- The point after that, with `files` before the call. -/
def next (files : SectorFiles) (idx : SectorIdx) : Stage → Stage
  | .compare t d => if files.tag idx < t then .data t d else .acknowledge
  | .data t _ => .metadata t
  | .metadata _ => .acknowledge
  | .readData => .readMetadata (files.readData idx)
  | .readMetadata value => .reply value (files.readMetadata idx)
  | _ => .finished

/-- The files after that. -/
def files (files : SectorFiles) (idx : SectorIdx) : Stage → SectorFiles
  | .data _ d => files.writeData idx d
  | .metadata t => files.writeMetadata idx t.timestamp t.writeRank
  | _ => files

/-- The points that occur in the handler of a command. -/
def Of (cmd : SystemRegisterCommand) : Stage → Prop
  | .compare t d | .data t d => cmd.content = .writeProc t.timestamp t.writeRank d
  | .metadata t => ∃ d, cmd.content = .writeProc t.timestamp t.writeRank d
  | .acknowledge => ∃ t d, cmd.content = .writeProc (Tag.timestamp t) (Tag.writeRank t) d
  | .readData | .readMetadata _ | .reply _ _ => cmd.content = .readProc
  | .finished => True

theorem of_next {cmd : SystemRegisterCommand} {st : Stage} {f : SectorFiles} {idx : SectorIdx}
    (h : st.Of cmd) : (st.next f idx).Of cmd := by
  cases st with
  | compare t d =>
    simp only [next]
    split
    · exact h
    · exact ⟨t, d, h⟩
  | data t d => exact ⟨d, h⟩
  | metadata t =>
    obtain ⟨d, hd⟩ := h
    exact ⟨t, d, hd⟩
  | readData => exact h
  | readMetadata value => exact h
  | _ => trivial

end Stage

/-- A task stands at a point of the handler of its command. -/
structure Task.At (register : AtomicRegisterImplementation) (s : Store) (task : Task)
    (st : Stage) : Prop where
  rest : task.rest = st.rest register task.cmd.header
  of : st.Of task.cmd
  serial : s.received[task.serial]? = some task.cmd

theorem Task.At.nextCall {register : AtomicRegisterImplementation} {s : Store} {task : Task}
    {st : Stage} (h : task.At register s st) :
    task.nextCall = st.call register task.cmd.header := by
  rw [Task.nextCall, h.rest]
  cases st <;> rfl

variable {R : ℕ} {registers : ℕ → AtomicRegisterImplementation} {s s' : Store}

/-- A handler goes on to its next point. -/
theorem Task.At.moved {register : AtomicRegisterImplementation} {task : Task} {st : Stage}
    (h : task.At register s st) (r : ℕ) (op : RegisterOp) (files : SectorFiles)
    (idx : SectorIdx) :
    (task.moved s op ((st.next s.files idx).rest register task.cmd.header)).At register
      (s.after r task op files ((st.next s.files idx).rest register task.cmd.header))
      (st.next s.files idx) :=
  ⟨rfl, Stage.of_next h.of, h.serial⟩

/-- **What a handler does next.** -/
theorem call_stage {r : ℕ} {task : Task} {st : Stage} (htask : s.tasks r = some task)
    (hat : task.At (registers r) s st) (h : s.step R registers (.call r) = some s') :
    (st = .finished ∧ s' = { s with tasks := Function.update s.tasks r none }) ∨
    ∃ op, st.call (registers r) task.cmd.header = some op ∧
      s' = s.after r task op (st.files s.files task.cmd.header.sectorIdx)
        ((st.next s.files task.cmd.header.sectorIdx).rest (registers r) task.cmd.header) := by
  simp only [Store.step, htask, hat.rest] at h
  cases st with
  | finished => exact .inl ⟨rfl, (Option.some.inj h).symm⟩
  | compare t d =>
    refine .inr ⟨_, rfl, ?_⟩
    rw [← Option.some.inj h]
    simp only [Stage.next]
    by_cases hlt : s.files.tag task.cmd.header.sectorIdx < t
    · rw [if_pos hlt]
      exact congrArg (s.after r task _ _) (if_pos hlt)
    · rw [if_neg hlt]
      exact congrArg (s.after r task _ _) (if_neg hlt)
  | _ => exact .inr ⟨_, rfl, (Option.some.inj h).symm⟩

/-! ## What a step can do -/

/-- Each task is at a point with the property `P`. -/
def TasksAt (registers : ℕ → AtomicRegisterImplementation) (s : Store)
    (P : Task → Stage → Prop) : Prop :=
  ∀ r task, s.tasks r = some task → ∃ st, task.At (registers r) s st ∧ P task st

/-- The point a handler starts at. -/
def firstStage (cmd : SystemRegisterCommand) : Stage :=
  match cmd.content with
  | .writeProc timestamp writeRank d => .compare ⟨timestamp, writeRank⟩ d
  | _ => .readData

/-- The state after register `r` has started to handle `cmd`. -/
abbrev Store.afterReceive (registers : ℕ → AtomicRegisterImplementation) (s : Store) (r : ℕ)
    (cmd : SystemRegisterCommand) : Store :=
  { s with
    tasks := Function.update s.tasks r
      (some ⟨s.received.length, cmd, (registers r).systemCommand .listed cmd, none⟩)
    received := s.received ++ [cmd] }

/-- The ways a step can go: a handler starts, a handler makes a call, a handler ends. -/
inductive StepCase (R : ℕ) (registers : ℕ → AtomicRegisterImplementation) (s : Store)
    (P : Task → Stage → Prop) : Action → Store → Prop where
  | receive {r : ℕ} {cmd : SystemRegisterCommand} (hr : r < R) (hidle : s.tasks r = none)
      (hcmd : IsRequest cmd = true) :
      StepCase R registers s P (.receive r cmd) (s.afterReceive registers r cmd)
  | call {r : ℕ} {task : Task} {st : Stage} {op : RegisterOp} (htask : s.tasks r = some task)
      (hat : task.At (registers r) s st) (hP : P task st)
      (hop : st.call (registers r) task.cmd.header = some op) :
      StepCase R registers s P (.call r)
        (s.after r task op (st.files s.files task.cmd.header.sectorIdx)
          ((st.next s.files task.cmd.header.sectorIdx).rest (registers r) task.cmd.header))
  | finish {r : ℕ} {task : Task} (htask : s.tasks r = some task)
      (hat : task.At (registers r) s .finished) :
      StepCase R registers s P (.call r) { s with tasks := Function.update s.tasks r none }

theorem step_cases {P : Task → Stage → Prop} (hT : TasksAt registers s P) {a : Action}
    (h : s.step R registers a = some s') : StepCase R registers s P a s' := by
  cases a with
  | receive r cmd =>
    simp only [Store.step] at h
    split at h
    · rename_i hok
      rw [← Option.some.inj h]
      exact .receive hok.1 (Option.isNone_iff_eq_none.mp hok.2.1) hok.2.2
    · simp at h
  | call r =>
    cases htask : s.tasks r with
    | none => simp [Store.step, htask] at h
    | some task =>
      obtain ⟨st, hat, hP⟩ := hT r task htask
      rcases call_stage htask hat h with ⟨rfl, rfl⟩ | ⟨op, hop, rfl⟩
      · exact .finish htask hat
      · exact .call htask hat hP hop

theorem received_append {l : List SystemRegisterCommand} {k : ℕ} {cmd c : SystemRegisterCommand}
    (h : l[k]? = some cmd) : (l ++ [c])[k]? = some cmd := by
  have hk : k < l.length := by
    rw [List.getElem?_eq_some_iff] at h
    exact h.1
  rw [List.getElem?_append_left hk]
  exact h

theorem at_firstStage {r : ℕ} {cmd : SystemRegisterCommand} (h : IsRequest cmd = true) :
    Task.At (registers r) (s.afterReceive registers r cmd)
      ⟨s.received.length, cmd, (registers r).systemCommand .listed cmd, none⟩
      (firstStage cmd) := by
  unfold firstStage
  unfold IsRequest at h
  refine ⟨?_, ?_, by simp⟩
  · unfold AtomicRegisterImplementation.systemCommand
    split at h
    · rename_i hc; simp only [hc]; rfl
    · rename_i hc; simp only [hc]; rfl
    · simp at h
  · split at h
    · rename_i hc; simp only [hc]; exact hc
    · rename_i hc; simp only [hc]; exact hc
    · simp at h

/-- Registers in use stay below `R`. -/
theorem bound_update {tasks : ℕ → Option Task} {r : ℕ} {x : Option Task}
    (hb : ∀ r task, tasks r = some task → r < R) (hx : ∀ task, x = some task → r < R) :
    ∀ r' task, Function.update tasks r x r' = some task → r' < R := by
  intro r' task htask
  by_cases hr : r' = r
  · subst hr
    rw [Function.update_self] at htask
    exact hx task htask
  · rw [Function.update_of_ne hr] at htask
    exact hb r' task htask

section Tasks

variable {P P' : Task → Stage → Prop} {r : ℕ}

/-- Tasks when a handler starts. -/
theorem TasksAt.receive (hT : TasksAt registers s P) {cmd : SystemRegisterCommand}
    (hcmd : IsRequest cmd = true)
    (hnew : ∀ task, task.cmd = cmd → P' task (firstStage cmd))
    (hother : ∀ task st, P task st → P' task st) :
    TasksAt registers (s.afterReceive registers r cmd) P' := by
  intro r' task' htask'
  by_cases hr : r' = r
  · subst hr
    simp only [Function.update_self, Option.some.injEq] at htask'
    subst htask'
    exact ⟨firstStage cmd, at_firstStage hcmd, hnew _ rfl⟩
  · simp only [Function.update_of_ne hr] at htask'
    obtain ⟨st, hat, hP⟩ := hT r' task' htask'
    exact ⟨st, ⟨hat.rest, hat.of, received_append hat.serial⟩, hother task' st hP⟩

/-- Tasks when a handler ends. -/
theorem TasksAt.finish (hT : TasksAt registers s P) :
    TasksAt registers { s with tasks := Function.update s.tasks r none } P := by
  intro r' task' htask'
  by_cases hr : r' = r
  · subst hr
    simp at htask'
  · simp only [Function.update_of_ne hr] at htask'
    obtain ⟨st, hat, hP⟩ := hT r' task' htask'
    exact ⟨st, ⟨hat.rest, hat.of, hat.serial⟩, hP⟩

/-- Tasks when a handler makes a call: it gets the property back at its next point, and the
others must not lose it. -/
theorem TasksAt.call (hT : TasksAt registers s P) {task : Task} {st : Stage} {op : RegisterOp}
    {files : SectorFiles} (hat : task.At (registers r) s st)
    (hself : P' (task.moved s op
      ((st.next s.files task.cmd.header.sectorIdx).rest (registers r) task.cmd.header))
      (st.next s.files task.cmd.header.sectorIdx))
    (hother : ∀ r' task' st', r' ≠ r → s.tasks r' = some task' →
      task'.At (registers r') s st' → P task' st' → P' task' st') :
    TasksAt registers (s.after r task op files
      ((st.next s.files task.cmd.header.sectorIdx).rest (registers r) task.cmd.header)) P' := by
  intro r' task' htask'
  by_cases hr : r' = r
  · subst hr
    simp only [Store.after, Function.update_self, Option.some.injEq] at htask'
    subst htask'
    exact ⟨_, hat.moved _ op files _, hself⟩
  · simp only [Store.after, Function.update_of_ne hr] at htask'
    obtain ⟨st', hat', hP'⟩ := hT r' task' htask'
    exact ⟨st', ⟨hat'.rest, hat'.of, hat'.serial⟩, hother r' task' st' hr htask' hat' hP'⟩

end Tasks

/-! ## Two commands for examples -/

/-- A `WriteProc` on sector 0. -/
def writeProc (timestamp : UInt64) (b : UInt8) : SystemRegisterCommand :=
  ⟨⟨1, 7, 1, 0⟩, .writeProc timestamp 1 (.fill b)⟩

/-- A `ReadProc` on sector 0. -/
def readProc : SystemRegisterCommand := ⟨⟨1, 8, 1, 0⟩, .readProc⟩

end Handlers
end AtomicDiscDrive
