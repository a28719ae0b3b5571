import Mathlib.Order.Lattice
import Mathlib.Tactic

/-!
# The domain of the register

The commands clients and processes exchange (`domain.rs`), with the machine widths the
source gives them: request numbers, sector indices, timestamps and read identifiers are
`UInt64`, process identifiers and write ranks are `UInt8`, message identifiers are
128-bit.

The source orders `(timestamp, write_rank)` as a pair. `Tag` is that pair with its
lexicographic order; `Tag.position` embeds the order into ℕ, which is the form the
arithmetic below is done in.
-/

namespace AtomicDiscDrive

/-! ## Sectors -/

/-- `SECTOR_VEC_SIZE`. -/
def sectorVecSize : ℕ := 4096

/-- Contents of a sector. The source wraps a `Vec<u8>`, whose length is not part of its
type. -/
structure SectorVec where
  bytes : List UInt8
deriving DecidableEq

/-- `SectorVec::new`: 4096 zero bytes. -/
def SectorVec.new : SectorVec := ⟨List.replicate sectorVecSize 0⟩

/-- A sector filled with one byte, as the repository's tests write them. -/
def SectorVec.fill (b : UInt8) : SectorVec := ⟨List.replicate sectorVecSize b⟩

abbrev SectorIdx := UInt64

abbrev Uuid := BitVec 128

/-- `Uuid::from_u128(id as u128)`. -/
def Uuid.fromRequest (requestIdentifier : UInt64) : Uuid :=
  BitVec.ofNat 128 requestIdentifier.toNat

theorem Uuid.fromRequest_injective : Function.Injective Uuid.fromRequest := by
  intro a b h
  have ha : a.toNat < 2 ^ 128 := lt_trans a.toNat_lt (by norm_num)
  have hb : b.toNat < 2 ^ 128 := lt_trans b.toNat_lt (by norm_num)
  have h' := congrArg BitVec.toNat h
  simp only [Uuid.fromRequest, BitVec.toNat_ofNat, Nat.mod_eq_of_lt ha, Nat.mod_eq_of_lt hb] at h'
  exact UInt64.toNat_inj.mp h'

/-! ## Commands -/

structure ClientCommandHeader where
  requestIdentifier : UInt64
  sectorIdx : SectorIdx
deriving DecidableEq

inductive ClientRegisterCommandContent where
  | read
  | write (data : SectorVec)
deriving DecidableEq

structure ClientRegisterCommand where
  header : ClientCommandHeader
  content : ClientRegisterCommandContent
deriving DecidableEq

structure SystemCommandHeader where
  processIdentifier : UInt8
  msgIdent : Uuid
  readIdent : UInt64
  sectorIdx : SectorIdx
deriving DecidableEq

inductive SystemRegisterCommandContent where
  | readProc
  | value (timestamp : UInt64) (writeRank : UInt8) (sectorData : SectorVec)
  | writeProc (timestamp : UInt64) (writeRank : UInt8) (dataToWrite : SectorVec)
  | ack
deriving DecidableEq

structure SystemRegisterCommand where
  header : SystemCommandHeader
  content : SystemRegisterCommandContent
deriving DecidableEq

inductive RegisterCommand where
  | client (cmd : ClientRegisterCommand)
  | system (cmd : SystemRegisterCommand)
deriving DecidableEq

/-! ## Answers -/

inductive StatusCode where
  | ok
  | authFailure
  | invalidSectorIndex
deriving DecidableEq

structure ReadReturn where
  readData : Option SectorVec
deriving DecidableEq

inductive OperationReturn where
  | read (ret : ReadReturn)
  | write
deriving DecidableEq

structure OperationComplete where
  statusCode : StatusCode
  requestIdentifier : UInt64
  opReturn : OperationReturn
deriving DecidableEq

/-! ## Tags -/

/-- The pair `(timestamp, write_rank)` under which a sector's data is stored. -/
@[ext] structure Tag where
  timestamp : UInt64
  writeRank : UInt8
deriving DecidableEq

namespace Tag

/-- The place of a tag in the lexicographic order. -/
def position (t : Tag) : ℕ := t.timestamp.toNat * 256 + t.writeRank.toNat

theorem position_injective : Function.Injective position := by
  intro a b h
  have ha := a.writeRank.toNat_lt
  have hb := b.writeRank.toNat_lt
  simp only [position] at h
  have hts : a.timestamp.toNat = b.timestamp.toNat := by omega
  have hwr : a.writeRank.toNat = b.writeRank.toNat := by omega
  exact Tag.ext (UInt64.toNat_inj.mp hts) (UInt8.toNat_inj.mp hwr)

instance : LinearOrder Tag := LinearOrder.lift' position position_injective

theorem lt_iff_position {a b : Tag} : a < b ↔ a.position < b.position := Iff.rfl

/-- The order of tags is the one Rust gives pairs. -/
theorem lt_iff {a b : Tag} :
    a < b ↔ a.timestamp < b.timestamp ∨
      a.timestamp = b.timestamp ∧ a.writeRank < b.writeRank := by
  have ha := a.writeRank.toNat_lt
  have hb := b.writeRank.toNat_lt
  rw [lt_iff_position, UInt64.lt_iff_toNat_lt, UInt8.lt_iff_toNat_lt, ← UInt64.toNat_inj]
  simp only [position]
  omega

/-- The tag of a sector nothing was written to. -/
def zero : Tag := ⟨0, 0⟩

theorem zero_le (t : Tag) : zero ≤ t := Nat.zero_le _

/-- The tag a write takes above `t` is larger than `t`, unless the timestamp wraps. -/
theorem lt_succ {t : Tag} (h : t.timestamp.toNat + 1 < 2 ^ 64) (rank : UInt8) :
    t < ⟨t.timestamp + 1, rank⟩ := by
  have hr := t.writeRank.toNat_lt
  have hs : (t.timestamp + 1).toNat = t.timestamp.toNat + 1 := by
    rw [UInt64.toNat_add, UInt64.toNat_one, Nat.mod_eq_of_lt h]
  rw [lt_iff_position]
  simp only [position, hs]
  omega

end Tag

end AtomicDiscDrive
