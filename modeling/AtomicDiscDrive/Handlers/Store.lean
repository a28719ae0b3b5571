import AtomicDiscDrive.AtomicRegister
import AtomicDiscDrive.Utils.Runs

/-!
# Handlers on a shared sector store

The registers of a process share its sectors manager, and `execute_system_command` gives
`ReadProc` and `WriteProc` to whichever register is ready. Here `R` registers run such
handlers concurrently: a step is one call of one handler (`read_data`, `read_metadata`,
the data-file step or the metadata step of `write`, or the reply), and storage never
fails.

Beside the files and the handlers, a state remembers what has been received and answered,
all earlier contents of the files, and for each sector which `WriteProc` made the last
data-file step and which one the last metadata step. No handler reads these.
-/

namespace AtomicDiscDrive
namespace Handlers

open Utils

/-- A running handler of the command `cmd`, the `serial`-th one received. -/
structure Task where
  serial : ℕ
  cmd : SystemRegisterCommand
  rest : RegisterProgram AtomicRegisterImplementation
  /-- the `WriteProc` whose data file `read_data` has returned -/
  saw : Option ℕ

/-- The next call of a handler. -/
def Task.nextCall (task : Task) : Option RegisterOp :=
  match task.rest with
  | .done _ => none
  | .call op _ => some op

structure Store where
  files : SectorFiles
  /-- the handler each register is running -/
  tasks : ℕ → Option Task
  received : List SystemRegisterCommand
  /-- commands with the replies sent to them -/
  replies : List (SystemRegisterCommand × SystemRegisterCommand)
  past : List SectorFiles
  dataBy : SectorIdx → Option ℕ
  metadataBy : SectorIdx → Option ℕ

/-- Idle registers on a store with the given contents. -/
def Store.on (files : SectorFiles) : Store :=
  ⟨files, fun _ => none, [], [], [], fun _ => none, fun _ => none⟩

/-- A call on the files. The handlers of `ReadProc` and `WriteProc` make no others. -/
def storeCall (files : SectorFiles) : (op : RegisterOp) → Option (op.Answer × SectorFiles)
  | .readData idx => some (files.readData idx, files)
  | .readMetadata idx => some (files.readMetadata idx, files)
  | .writeData idx data => some (true, files.writeData idx data)
  | .writeMetadata idx timestamp writeRank =>
    some (true, files.writeMetadata idx timestamp writeRank)
  | .send _ _ => some ((), files)
  | _ => none

/-- The handler `task` after the call `op`, if it goes on with `rest`. -/
def Task.moved (s : Store) (task : Task) (op : RegisterOp)
    (rest : RegisterProgram AtomicRegisterImplementation) : Task :=
  { task with
    rest
    saw := match op with
      | .readData idx => if (s.files.metadata idx).isSome then s.dataBy idx else none
      | _ => task.saw }

/-- The state after the handler `task` of register `r` has made the call `op`, which has
left `files`, and goes on with `rest`. -/
def Store.after (s : Store) (r : ℕ) (task : Task) (op : RegisterOp) (files : SectorFiles)
    (rest : RegisterProgram AtomicRegisterImplementation) : Store :=
  { files
    tasks := Function.update s.tasks r (some (task.moved s op rest))
    received := s.received
    replies := match op with
      | .send reply _ => s.replies ++ [(task.cmd, reply)]
      | _ => s.replies
    past := s.files :: s.past
    dataBy := match op with
      | .writeData idx _ => Function.update s.dataBy idx (some task.serial)
      | _ => s.dataBy
    metadataBy := match op with
      | .writeMetadata idx _ _ => Function.update s.metadataBy idx (some task.serial)
      | _ => s.metadataBy }

inductive Action where
  /-- register `r` starts to handle `cmd` -/
  | receive (r : ℕ) (cmd : SystemRegisterCommand)
  /-- the handler of register `r` makes its next call, or returns -/
  | call (r : ℕ)

/-- `ReadProc` and `WriteProc`: what `execute_system_command` gives to any register. -/
abbrev IsRequest (cmd : SystemRegisterCommand) : Bool :=
  match cmd.content with
  | .readProc | .writeProc _ _ _ => true
  | _ => false

variable (R : ℕ) (registers : ℕ → AtomicRegisterImplementation)

/-- One step of the handlers of `R` registers. -/
def Store.step (s : Store) : Action → Option Store
  | .receive r cmd =>
    if r < R ∧ (s.tasks r).isNone ∧ IsRequest cmd then some
      { s with
        tasks := Function.update s.tasks r
          (some ⟨s.received.length, cmd, (registers r).systemCommand .listed cmd, none⟩)
        received := s.received ++ [cmd] }
    else none
  | .call r =>
    match s.tasks r with
    | none => none
    | some task =>
      match task.rest with
      | .done _ => some { s with tasks := Function.update s.tasks r none }
      | .call op next =>
        match storeCall s.files op with
        | none => none
        | some (x, files) => some (s.after r task op files (next x))

/-! ## What may go wrong -/

/-- The tag of a `WriteProc`. -/
def writeTag (cmd : SystemRegisterCommand) : Option Tag :=
  match cmd.content with
  | .writeProc timestamp writeRank _ => some ⟨timestamp, writeRank⟩
  | _ => none

/-- The sector and tag of a handler that has found its tag to be larger than the stored
one, and has not stored it yet. -/
def Task.midWrite (task : Task) : Option (SectorIdx × Tag) :=
  match task.nextCall with
  | some (.writeData idx _) => (writeTag task.cmd).map fun t => (idx, t)
  | some (.writeMetadata idx timestamp writeRank) => some (idx, ⟨timestamp, writeRank⟩)
  | _ => none

/-- The next call of `a` stores a larger tag under the eyes of `b`, which has made its
comparison on the same sector and will store a smaller one. -/
def overtakes (a b : Task) : Bool :=
  match a.nextCall, b.midWrite with
  | some (.writeMetadata idx timestamp writeRank), some (idx', t) =>
    idx' = idx ∧ t < ⟨timestamp, writeRank⟩
  | _, _ => false

/-- No handler is overtaken between its comparison and its metadata step. -/
def Undisturbed (s : Store) : Action → Prop
  | .call r => ∀ r' < R, r' ≠ r → ∀ a ∈ s.tasks r, ∀ b ∈ s.tasks r', overtakes a b = false
  | .receive _ _ => True

/-- The handler has made the data-file step of `write` on the sector, and not the metadata
step. -/
def Task.halfWritten (task : Task) (sec : SectorIdx) : Bool :=
  match task.nextCall with
  | some (.writeMetadata idx _ _) => idx = sec
  | _ => false

/-- The handler of a `ReadProc` has read the data of the sector, and not its metadata. -/
def Task.halfRead (task : Task) (sec : SectorIdx) : Bool :=
  match task.cmd.content, task.nextCall with
  | .readProc, some (.readMetadata idx) => idx = sec
  | _, _ => false

/-- The next call of `a` comes between two calls of `b` on the same sector: data are read or
written while `b` is between the two steps of `write`, or a metadata record is written while
`b` is between its two reads. -/
def intrudes (a b : Task) : Bool :=
  match a.nextCall with
  | some (.readData idx) | some (.writeData idx _) => b.halfWritten idx
  | some (.writeMetadata idx _ _) => b.halfRead idx
  | _ => false

/-- No handler intrudes on another one. -/
def Unbroken (s : Store) : Action → Prop
  | .call r => ∀ r' < R, r' ≠ r → ∀ a ∈ s.tasks r, ∀ b ∈ s.tasks r', intrudes a b = false
  | .receive _ _ => True

instance (R : ℕ) (s : Store) (a : Action) : Decidable (Undisturbed R s a) := by
  cases a <;> dsimp only [Undisturbed] <;> infer_instance

instance (R : ℕ) (s : Store) (a : Action) : Decidable (Unbroken R s a) := by
  cases a <;> dsimp only [Unbroken] <;> infer_instance

end Handlers
end AtomicDiscDrive
