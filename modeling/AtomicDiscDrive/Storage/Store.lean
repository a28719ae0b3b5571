import AtomicDiscDrive.SectorsManager
import AtomicDiscDrive.Utils.BigEndian
import AtomicDiscDrive.Utils.FixedWidth
import Mathlib.Data.List.AList

/-!
# The sector store on disc

`sectors_manager.rs` over `write` and `read` of `stable_storage.rs`, with the bytes of the
files. The directory of a process holds a data file for each sector and, in `metadata`, the
files `0`, `1`, … of 17-byte records (sector, timestamp, write rank). File names are the
numbers they spell.

`write` of `stable_storage.rs` writes a temporary file, syncs it, renames it over the
target and syncs the directory. It can be stopped at each of these operations, by an error
or by a crash; all that can be seen of it later is whether the rename took effect (`Stop`).
A read of a file fails or succeeds.

A function that panics has the result `none`. Sizes are natural numbers: they are numbers
of bytes on a disc.
-/

namespace AtomicDiscDrive
namespace Storage

open Utils

/-! ## Files -/

/-- The files of `storage_dir`: data files by sector, metadata files by number. -/
structure Disc where
  data : SectorIdx → Option (List UInt8)
  metadata : AList fun _ : ℕ => List UInt8

/-- A fresh directory. -/
def Disc.empty : Disc := ⟨fun _ => none, ∅⟩

/-- The operations of `write` of `stable_storage.rs`, in order. -/
inductive FileOp where
  | create
  | writeAll
  | syncData
  | rename
  | openDir
  | syncDir
deriving DecidableEq

/-- The operations that come after the temporary file is complete. -/
def FileOp.late : FileOp → Bool
  | .rename | .openDir | .syncDir => true
  | _ => false

/-- A `write` that does not return `Ok`: the operation that fails or is cut off by a crash,
and whether the target is found replaced afterwards. A rename that is not synced may or may
not survive a crash. -/
structure Stop where
  op : FileOp
  replaced : Bool
  possible : replaced = true → op.late = true

/-- Whether the target is replaced in the end. -/
def replaces : Option Stop → Bool
  | none => true
  | some stop => stop.replaced

/-- What goes wrong in a call of `SectorsManager::write`: its two file writes, and the read
of the metadata file between them. -/
structure Faults where
  dataWrite : Option Stop
  metadataRead : Bool
  metadataWrite : Option Stop

/-- All goes well. -/
def Faults.none : Faults := ⟨Option.none, false, Option.none⟩

/-! ## Records -/

/-- `METADATA_SIZE`. -/
def metadataSize : ℕ := 8 + 8 + 1

/-- `METADATAS_PER_FILE`. -/
def metadatasPerFile : ℕ := sectorVecSize / metadataSize

/-- `METADATAS_FILE_SIZE`. -/
def metadatasFileSize : ℕ := metadatasPerFile * metadataSize

/-- A record in a metadata file. -/
structure Record where
  sector : SectorIdx
  timestamp : UInt64
  writeRank : UInt8
deriving DecidableEq

/-- The bytes of a record. -/
def Record.encode (r : Record) : List UInt8 :=
  u64ToBeBytes r.sector ++ u64ToBeBytes r.timestamp ++ [r.writeRank]

/-- `get_metadata_info`. A slice that is out of range is a panic. -/
def getMetadataInfo (vec : List UInt8) (offset : ℕ) : Option Record :=
  if offset + metadataSize ≤ vec.length then some
    { sector := u64FromBeBytes ((vec.drop offset).take 8)
      timestamp := u64FromBeBytes ((vec.drop (offset + 8)).take 8)
      writeRank := vec.getD (offset + metadataSize - 1) 0 }
  else none

/-! ## The manager -/

/-- `SectorsManagerImplementation`: file and offset of the record of each sector, and the
total size of the records. -/
structure Manager where
  metadataInfoMap : SectorIdx → Option (ℕ × ℕ)
  metadataTotalSize : ℕ

/-- `metadata_info_map.insert`. -/
def Manager.enter (self : Manager) (idx : SectorIdx) (place : ℕ × ℕ) : Manager :=
  { self with metadataInfoMap := Function.update self.metadataInfoMap idx (some place) }

/-- The inner loop of `new`, at the offsets of a file. -/
def indexFile (vec : List UInt8) (fileNumber : ℕ) : List ℕ → Manager → Option Manager
  | [], self => some self
  | offset :: offsets, self =>
    match getMetadataInfo vec offset with
    | none => none
    | some record => indexFile vec fileNumber offsets (self.enter record.sector (fileNumber, offset))

/-- `(0..len).step_by(METADATA_SIZE)`. -/
def offsets (len : ℕ) : List ℕ :=
  (List.range ((len + metadataSize - 1) / metadataSize)).map (· * metadataSize)

/-- The outer loop of `new`: files are read until one is missing. -/
def scan (files : AList fun _ : ℕ => List UInt8) : ℕ → ℕ → Manager → Option Manager
  | 0, _, self => some self
  | fuel + 1, fileNumber, self =>
    match files.lookup fileNumber with
    | none => some self
    | some vec =>
      match indexFile vec fileNumber (offsets vec.length)
        { self with metadataTotalSize := self.metadataTotalSize + vec.length } with
      | none => none
      | some self => scan files fuel (fileNumber + 1) self

/-- `SectorsManagerImplementation::new`. There are no more than `entries.length` files to
read. -/
def Manager.new (disc : Disc) : Option Manager :=
  scan disc.metadata (disc.metadata.entries.length + 1) 0 ⟨fun _ => none, 0⟩

namespace Manager

variable (self : Manager)

/-- `read_data`. -/
def readData (disc : Disc) (idx : SectorIdx) : SectorVec :=
  match self.metadataInfoMap idx with
  | none => .new
  | some _ =>
    match disc.data idx with
    | none => .new
    | some vec => ⟨vec⟩

/-- `read_metadata`. -/
def readMetadata (disc : Disc) (idx : SectorIdx) : Option (UInt64 × UInt8) :=
  match self.metadataInfoMap idx with
  | none => some (0, 0)
  | some (filename, offset) =>
    match disc.metadata.lookup filename with
    | none => some (0, 0)
    | some vec => (getMetadataInfo vec offset).map fun r => (r.timestamp, r.writeRank)

/-- The file and the offset for a sector: where its record is, or the first free place. -/
def place (idx : SectorIdx) : ℕ × ℕ :=
  match self.metadataInfoMap idx with
  | none => (self.metadataTotalSize / metadatasFileSize, self.metadataTotalSize % metadatasFileSize)
  | some place => place

/-- The new contents of a metadata file. An index out of range is a panic. -/
def updateFile (val : List UInt8) (offset : ℕ) (metadataVec : List UInt8) : Option (List UInt8) :=
  if offset = val.length then
    some (val ++ metadataVec)
  else if offset + metadataSize ≤ val.length then
    some (val.take offset ++ metadataVec ++ val.drop (offset + metadataSize))
  else none

/-- `write`: the data file first, then the metadata file. -/
def write (disc : Disc) (faults : Faults) (idx : SectorIdx) (sector : SectorVec × UInt64 × UInt8) :
    Option (Manager × Disc) :=
  let disc :=
    if replaces faults.dataWrite then
      { disc with data := Function.update disc.data idx (some sector.1.bytes) }
    else disc
  if faults.dataWrite.isSome then
    some (self, disc)
  else
    let metadataVec := Record.encode ⟨idx, sector.2.1, sector.2.2⟩
    let (filename, offset) := self.place idx
    let val := if faults.metadataRead then [] else (disc.metadata.lookup filename).getD []
    match updateFile val offset metadataVec with
    | none => none
    | some val =>
      let disc :=
        if replaces faults.metadataWrite then
          { disc with metadata := disc.metadata.insert filename val }
        else disc
      if faults.metadataWrite.isSome then
        some (self, disc)
      else
        match self.metadataInfoMap idx with
        | some _ => some (self, disc)
        | none => some
          ({ self.enter idx (filename, offset) with
              metadataTotalSize := self.metadataTotalSize + metadataSize }, disc)

end Manager

/-! ## Histories of calls -/

/-- What is done with a store: calls of `write`, and `new` on the same directory. -/
inductive StoreOp where
  | write (idx : SectorIdx) (sector : SectorVec × UInt64 × UInt8)
  | new

/-- A call that runs to completion. -/
def StoreOp.run (state : Manager × Disc) : StoreOp → Option (Manager × Disc)
  | .write idx sector => state.1.write state.2 .none idx sector
  | .new => (Manager.new state.2).map fun manager => (manager, state.2)

/-- A sequence of calls. -/
def runAll (state : Manager × Disc) : List StoreOp → Option (Manager × Disc)
  | [] => some state
  | op :: ops =>
    match op.run state with
    | none => none
    | some state => runAll state ops

/-- A manager on a fresh directory. -/
def fresh : Manager × Disc := (⟨fun _ => none, 0⟩, .empty)

example : Manager.new .empty = some fresh.1 := rfl

/-- What a call writes to a sector. -/
def StoreOp.writes (idx : SectorIdx) : StoreOp → Option (SectorVec × UInt64 × UInt8)
  | .write idx' sector => if idx' = idx then some sector else none
  | .new => none

/-- The triple of the last write to a sector. -/
def lastWrite (idx : SectorIdx) : List StoreOp → Option (SectorVec × UInt64 × UInt8)
  | [] => none
  | op :: ops =>
    match lastWrite idx ops with
    | some sector => some sector
    | none => op.writes idx

end Storage
end AtomicDiscDrive
