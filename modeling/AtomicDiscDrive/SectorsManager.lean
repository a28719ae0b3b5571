import AtomicDiscDrive.Domain
import Mathlib.Logic.Function.Basic

/-!
# The sector store, call by call

What the calls of `SectorsManagerImplementation` read and write, sector by sector: the
data file of a sector and its record in the metadata files. `write` replaces the data
file first and updates the metadata record in a second, separate step; both steps and
both reads are single functions here, so that they can be interleaved.

`tag` and `readData` are the pair and the data a process answers a `ReadProc` with when
no other handler runs in between.
-/

namespace AtomicDiscDrive

/-- Data files and metadata records on disc, by sector. -/
structure SectorFiles where
  data : SectorIdx → Option SectorVec
  metadata : SectorIdx → Option (UInt64 × UInt8)

namespace SectorFiles

/-- A fresh storage directory. -/
def empty : SectorFiles := ⟨fun _ => none, fun _ => none⟩

/-- `read_data`: without a metadata record the data file is not looked at, since "write
failed after data was written". -/
def readData (files : SectorFiles) (idx : SectorIdx) : SectorVec :=
  match files.metadata idx with
  | none => .new
  | some _ => (files.data idx).getD .new

/-- `read_metadata`. -/
def readMetadata (files : SectorFiles) (idx : SectorIdx) : UInt64 × UInt8 :=
  (files.metadata idx).getD (0, 0)

/-- The first step of `write`: replace the data file. -/
def writeData (files : SectorFiles) (idx : SectorIdx) (data : SectorVec) : SectorFiles :=
  { files with data := Function.update files.data idx (some data) }

/-- The second step of `write`: insert or update the metadata record. -/
def writeMetadata (files : SectorFiles) (idx : SectorIdx) (timestamp : UInt64)
    (writeRank : UInt8) : SectorFiles :=
  { files with metadata := Function.update files.metadata idx (some (timestamp, writeRank)) }

/-- The tag `read_metadata` reports. -/
def tag (files : SectorFiles) (idx : SectorIdx) : Tag :=
  ⟨(files.readMetadata idx).1, (files.readMetadata idx).2⟩

@[simp] theorem tag_empty (idx : SectorIdx) : empty.tag idx = .zero := rfl

@[simp] theorem readData_empty (idx : SectorIdx) : empty.readData idx = .new := rfl

@[simp] theorem metadata_writeData (files : SectorFiles) (idx : SectorIdx) (data : SectorVec) :
    (files.writeData idx data).metadata = files.metadata := rfl

@[simp] theorem data_writeMetadata (files : SectorFiles) (idx : SectorIdx) (ts : UInt64)
    (wr : UInt8) : (files.writeMetadata idx ts wr).data = files.data := rfl

@[simp] theorem tag_writeData (files : SectorFiles) (idx j : SectorIdx) (data : SectorVec) :
    (files.writeData idx data).tag j = files.tag j := rfl

@[simp] theorem tag_writeMetadata_self (files : SectorFiles) (idx : SectorIdx) (ts : UInt64)
    (wr : UInt8) : (files.writeMetadata idx ts wr).tag idx = ⟨ts, wr⟩ := by
  simp [tag, readMetadata, writeMetadata]

theorem tag_writeMetadata_of_ne (files : SectorFiles) {idx j : SectorIdx} (h : j ≠ idx)
    (ts : UInt64) (wr : UInt8) : (files.writeMetadata idx ts wr).tag j = files.tag j := by
  simp [tag, readMetadata, writeMetadata, h]

theorem readData_writeData_of_ne (files : SectorFiles) {idx j : SectorIdx} (h : j ≠ idx)
    (data : SectorVec) : (files.writeData idx data).readData j = files.readData j := by
  simp [readData, writeData, h]

theorem readData_writeMetadata_of_ne (files : SectorFiles) {idx j : SectorIdx} (h : j ≠ idx)
    (ts : UInt64) (wr : UInt8) :
    (files.writeMetadata idx ts wr).readData j = files.readData j := by
  simp [readData, writeMetadata, h]

/-- After both steps of a write the sector reads back as what was written. -/
theorem readData_write (files : SectorFiles) (idx : SectorIdx) (data : SectorVec) (ts : UInt64)
    (wr : UInt8) : ((files.writeData idx data).writeMetadata idx ts wr).readData idx = data := by
  simp [readData, writeMetadata, writeData]

end SectorFiles

end AtomicDiscDrive
