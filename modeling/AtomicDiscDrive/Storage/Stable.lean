import AtomicDiscDrive.Domain
import AtomicDiscDrive.Utils.FileSystem
import AtomicDiscDrive.Utils.Linearizable
import AtomicDiscDrive.Utils.Runs

/-!
# Stable storage

`write` and `read` of `stable_storage.rs` over a file system that can lose power. A `write`
creates a temporary file, writes and syncs it, renames it to the file of the key and syncs
the directory; a `read` opens the file of the key and reads it. Both are used by the
registers (`state` in a directory of their own) and by the sectors manager (the data of a
sector, the files of metadata), and all of them run at the same time: every operation on a
file is a step of its own here, any number of calls is under way, and each operation can
fail. A crash cuts all calls off.

Two things are assumed that the code does not see to. The storage directories are on the disc
from the start: `create_dir_all` is not followed by a sync. And an error of a write is
reported: `write_all` returns when the bytes are in the buffer of `tokio`'s `File`, and it is
left to `sync_data` to report what became of them.
-/

namespace AtomicDiscDrive
namespace Storage

open Utils

variable {D : Type} [DecidableEq D]

/-- `temp_dir().join(uuid)`, and `storage_dir.join(key)`. -/
inductive Path (D : Type) where
  | temp (uuid : Uuid)
  | file (dir : D) (key : String)
deriving DecidableEq

/-- The files of one directory. -/
def Path.inDir (dir : D) : Path D → Bool
  | .temp _ => false
  | .file d _ => d = dir

/-- A call of `write`, with the name of its temporary file, or of `read`. -/
inductive CallRequest where
  | write (value : List UInt8) (uuid : Uuid)
  | read
deriving DecidableEq

/-- The uuid a call drew. -/
def CallRequest.uuid? : CallRequest → Option Uuid
  | .write _ uuid => some uuid
  | .read => none

/-- The operation a call performs next. -/
inductive Pc where
  | create
  | writeAll (file written : ℕ)
  | syncData (file : ℕ)
  | rename
  | openDir
  | syncDir
  | openFile
  | readFile (file : ℕ)
  /-- `Ok`, with the bytes where it was a read -/
  | returned (value : Option (List UInt8))
  /-- `Err`, or cut off by a crash -/
  | failed
deriving DecidableEq

structure FileCall (D : Type) where
  dir : D
  key : String
  request : CallRequest
  pc : Pc
  ended : Option ℕ

namespace FileCall

/-- The file a call is about. -/
def path (c : FileCall D) : Path D := .file c.dir c.key

/-- The next operation of `write`. An operation that is not `ok` returns an error, and so
does writing no bytes where some are left (`n` is the number the operating system takes). -/
def writeStep (c : FileCall D) (value : List UInt8) (uuid : Uuid) (ok : Bool) (n : ℕ)
    (fs : FileSystem (Path D)) : Option (FileSystem (Path D) × Pc) :=
  match c.pc with
  | .create =>
    if ok then
      let (fs', file) := fs.create (.temp uuid)
      some (fs', .writeAll file 0)
    else some (fs, .failed)
  | .writeAll file written =>
    if value.length ≤ written then some (fs, .syncData file)
    else if ok ∧ 0 < n then
      some (fs.write file ((value.drop written).take n), .writeAll file (written + n))
    else some (fs, .failed)
  | .syncData file => if ok then some (fs.syncData file, .rename) else some (fs, .failed)
  | .rename =>
    match fs.rename (.temp uuid) c.path with
    | some fs' => if ok then some (fs', .openDir) else some (fs, .failed)
    | none => some (fs, .failed)
  | .openDir => some (fs, if ok then .syncDir else .failed)
  | .syncDir =>
    if ok then some (fs.syncDir (Path.inDir c.dir), .returned none) else some (fs, .failed)
  | _ => none

/-- The next operation of `read`. Any error is taken for a missing file. -/
def readStep (c : FileCall D) (ok : Bool) (fs : FileSystem (Path D)) : Option Pc :=
  match c.pc with
  | .openFile =>
    match fs.names c.path with
    | some file => some (if ok then .readFile file else .returned none)
    | none => some (.returned none)
  | .readFile file => some (.returned (if ok then some (fs.files file).content else none))
  | _ => none

def isOver : Pc → Bool
  | .returned _ | .failed => true
  | _ => false

/-- The call at its next operation. -/
def goOn (c : FileCall D) (pc : Pc) (clock : ℕ) : FileCall D :=
  { c with pc := pc, ended := if isOver pc then some clock else none }

/-- What a crash leaves of a call. -/
def cutOff (c : FileCall D) (clock : ℕ) : FileCall D :=
  if isOver c.pc then c else c.goOn .failed clock

end FileCall

/-- Calls are numbered by the time they are made. -/
structure StableStorage (D : Type) where
  fs : FileSystem (Path D)
  calls : ℕ → Option (FileCall D)
  clock : ℕ

inductive StableAction (D : Type) where
  | write (dir : D) (key : String) (value : List UInt8) (uuid : Uuid)
  | read (dir : D) (key : String)
  | advance (t : ℕ) (ok : Bool) (n : ℕ)
  | crash (kept : List (Path D × Option ℕ)) (garbage : ℕ → List UInt8)

namespace StableStorage

/-- A call is made. -/
def call (s : StableStorage D) (dir : D) (key : String) (request : CallRequest) (pc : Pc) :
    StableStorage D :=
  { s with
    calls := Function.update s.calls s.clock (some ⟨dir, key, request, pc, none⟩)
    clock := s.clock + 1 }

/-- A call goes on. -/
def moved (s : StableStorage D) (t : ℕ) (c : FileCall D) (fs : FileSystem (Path D)) (pc : Pc) :
    StableStorage D :=
  { fs := fs
    calls := Function.update s.calls t (some (c.goOn pc s.clock))
    clock := s.clock + 1 }

def step (s : StableStorage D) : StableAction D → Option (StableStorage D)
  | .write dir key value uuid => some (s.call dir key (.write value uuid) .create)
  | .read dir key => some (s.call dir key .read .openFile)
  | .advance t ok n =>
    match s.calls t with
    | none => none
    | some c =>
      match c.request with
      | .write value uuid =>
        (c.writeStep value uuid ok n s.fs).map fun (fs, pc) => s.moved t c fs pc
      | .read => (c.readStep ok s.fs).map fun pc => s.moved t c s.fs pc
  | .crash kept garbage =>
    if kept.Sublist s.fs.updates then some
      { fs := s.fs.crash kept garbage
        calls := fun t => (s.calls t).map fun c => c.cutOff s.clock
        clock := s.clock + 1 }
    else none

def init : StableStorage D := ⟨.empty, fun _ => none, 0⟩

/-- The uuid is not that of an earlier call. -/
def FreshUuid (s : StableStorage D) (uuid : Uuid) : Prop :=
  ∀ t < s.clock, ∀ c ∈ s.calls t, c.request.uuid? ≠ some uuid

instance (s : StableStorage D) (uuid : Uuid) : Decidable (s.FreshUuid uuid) := by
  unfold FreshUuid
  infer_instance

/-- Random uuids do not repeat, a read of a file that exists does not fail, and a file is
not opened to be read while a change of its name is waiting for a sync. -/
def Settled (s : StableStorage D) : StableAction D → Prop
  | .write _ _ _ uuid => s.FreshUuid uuid
  | .advance t ok _ => ∀ c ∈ s.calls t, c.request = .read → ok = true ∧
      (c.pc = .openFile → ∀ u ∈ s.fs.updates, u.1 ≠ c.path)
  | _ => True

instance (s : StableStorage D) : DecidablePred s.Settled := by
  intro a
  cases a <;> (unfold Settled; infer_instance)

/-! ## What callers see -/

/-- The calls on one file: what they write and return, and when. -/
def history (s : StableStorage D) (dir : D) (key : String) :
    History ℕ (Option (List UInt8)) where
  ops := (Finset.range s.clock).filter fun t => (s.calls t).any fun c => c.path = .file dir key
  write t := (s.calls t).bind fun c => match c.request with
    | .write value _ => some (some value)
    | .read => none
  start t := t
  finish t := (s.calls t).bind fun c => match c.pc with
    | .returned _ => c.ended
    | _ => none
  result t := (s.calls t).bind fun c => match c.pc with
    | .returned value => some value
    | _ => none

/-- When a call failed or was cut off. -/
def gaveUp (s : StableStorage D) (t : ℕ) : Option ℕ :=
  (s.calls t).bind fun c => match c.pc with
    | .failed => c.ended
    | _ => none

end StableStorage

end Storage
end AtomicDiscDrive
