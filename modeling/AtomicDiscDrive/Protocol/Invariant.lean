import AtomicDiscDrive.AtomicRegisterTheorems
import AtomicDiscDrive.Protocol.System
import AtomicDiscDrive.Utils.Linearizable
import AtomicDiscDrive.Utils.Majority

/-!
# The invariant of the register protocol

What the environment of a run is taken to do (`Environment`), and the invariant all of
the protocol's guarantees are read off (`Invariant`).

The invariant speaks about three things no process stores, collected in `Ghost`:

* `snap k q`: the tag process `q` held on the sector of operation `k` when `k` was issued;
* `cnt p r`: how often register `r` of `p` has advanced its phase identifier, which is
  this number modulo `2 ^ 64`;
* `phase p r n`: the operation register `r` of `p` opened its `n`-th phase for, and whether
  that phase was the write phase.

A `Value` is then as good as a promise about the past (its tag is at least `snap`), and an
`Ack` one about the present (its sender holds the tag).
-/

namespace AtomicDiscDrive
namespace Protocol

open Utils

/-! ## The environment -/

/-- `Value` and `Ack`: the messages routed by `msg_ident`. -/
abbrev IsReply (cmd : SystemRegisterCommand) : Bool :=
  match cmd.content with
  | .value _ _ _ | .ack => true
  | _ => false

/-- The operation a reply is for was handed to register `r` of the target. A reply to an
operation that is over may still be handed to `r` while it serves another one, as long as
its phase identifier cannot have run through all 64-bit values. -/
def Handled (s : System) (packet : Packet) (r : ℕ) : Prop :=
  ∃ k < s.count, ∃ o ∈ s.operations k, o.process.toNat = packet.target ∧
    o.msgIdent = packet.cmd.header.msgIdent ∧ o.register = r ∧
    (s.calls o.process r < 2 ^ 63 ∨
      s.restarts = 0 ∧
        ∀ k' ∈ ((s.processes o.process).registers r).callback, k' = k)

/-- What the callers of the registers respect:

* a register and, for each sector, a process are given one client command at a time;
* no two commands of a process have the same request identifier;
* replies go to the register that handles their `msg_ident`;
* a recovered command is handed to the register it was recovered from. -/
def Environment (N R : ℕ) (s : System) : Action → Prop
  | .invoke p r cmd => IsProcess N p ∧ r < R ∧
      ∀ k < s.count, ∀ o ∈ s.operations k, o.process = p →
        (o.InProgress → o.register ≠ r ∧ o.sector ≠ cmd.header.sectorIdx) ∧
        o.cmd.header.requestIdentifier ≠ cmd.header.requestIdentifier
  | .deliver i r _ => r < R ∧ ∀ packet ∈ s.net[i]?, IsReply packet.cmd → Handled s packet r
  | .crash p => IsProcess N p
  | .recover p => IsProcess N p
  | .reissue p r k => IsProcess N p ∧ r < R ∧
      ∃ o ∈ s.operations k, o.process = p ∧ o.register = r ∧ o.InProgress ∧
        (s.processes p).pending r = some o.cmd

/-- Writes issued. -/
def System.writesIssued (s : System) : ℕ :=
  ((Finset.range s.count).filter fun k =>
    (s.operations k).any fun o => o.cmd.content ≠ .read).card

/-- Writes that have broadcast their `WriteProc`. -/
def System.writesBroadcast (s : System) : ℕ :=
  ((Finset.range s.count).filter fun k =>
    (s.operations k).any fun o => o.cmd.content ≠ .read && o.writeProc.isSome).card

/-! ## Vocabulary -/

/-- The processes, as a set. -/
def members (N : ℕ) : Finset UInt8 :=
  ((Finset.range (N + 1)).image UInt8.ofNat).filter (IsProcess N)

theorem mem_members {N : ℕ} {q : UInt8} : q ∈ members N ↔ IsProcess N q := by
  rw [members, Finset.mem_filter, and_iff_right_iff_imp]
  intro hq
  rw [Finset.mem_image]
  exact ⟨q.toNat, by rw [Finset.mem_range]; omega, UInt8.ofNat_toNat⟩

/-- Identifiers are eight bits wide, so there may be fewer processes than `N`. -/
theorem card_members_le (N : ℕ) : (members N).card ≤ N := by
  have hinj : Set.InjOn UInt8.toNat (members N : Set UInt8) := fun a _ b _ h =>
    UInt8.toNat_inj.mp h
  have hmap : ∀ q ∈ members N, q.toNat ∈ Finset.Icc 1 N := fun q hq => by
    rw [Finset.mem_Icc]
    exact mem_members.mp hq
  calc (members N).card ≤ (Finset.Icc 1 N).card :=
        Finset.card_le_card_of_injOn UInt8.toNat hmap hinj
    _ = N := by simp

/-- The tag process `q` stores for a sector. -/
def System.tagAt (s : System) (q : UInt8) (sec : SectorIdx) : Tag := (s.processes q).files.tag sec

/-- A majority stores tag `t` or a later one. -/
abbrev Held (N : ℕ) (s : System) (sec : SectorIdx) (t : Tag) : Prop :=
  Majority (members N) N fun q => t ≤ s.tagAt q sec

/-- The data `d` under tag `t` is the initial one, or that of a write which has broadcast
it under this tag. -/
def System.Written (s : System) (sec : SectorIdx) (t : Tag) (d : SectorVec) : Prop :=
  t = .zero ∧ d = .new ∨
    ∃ k o, s.operations k = some o ∧ o.sector = sec ∧ o.cmd.content = .write d ∧
      o.writeProc = some (t, d)

/-- `o₁` was answered before `o₂` was issued. -/
def Operation.Precedes (o₁ o₂ : Operation) : Prop :=
  ∃ time c, o₁.finish = some (time, c) ∧ time < o₂.start

/-- The auxiliary history of a run. -/
structure Ghost where
  snap : ℕ → UInt8 → Tag
  cnt : UInt8 → ℕ → ℕ
  phase : UInt8 → ℕ → ℕ → Option (ℕ × Bool)

/-! ## The invariant -/

/-- What is known about a packet by its kind; `k`, `o` is the operation it is for. -/
def Promise (N : ℕ) (s : System) (g : Ghost) (k : ℕ) (o : Operation) (packet : Packet) : Prop :=
  let q := packet.cmd.header.processIdentifier
  match packet.cmd.content with
  | .readProc => q = o.process
  | .value timestamp writeRank data => packet.target = o.process.toNat ∧ IsProcess N q ∧
      g.snap k q ≤ ⟨timestamp, writeRank⟩ ∧ s.Written o.sector ⟨timestamp, writeRank⟩ data
  | .writeProc timestamp writeRank data => q = o.process ∧
      o.writeProc = some (⟨timestamp, writeRank⟩, data)
  | .ack => packet.target = o.process.toNat ∧ IsProcess N q ∧
      ∃ t d, o.writeProc = some (t, d) ∧ t ≤ s.tagAt q o.sector

/-- Messages of the write phase. -/
abbrev IsWritePhase (cmd : SystemRegisterCommand) : Bool :=
  match cmd.content with
  | .writeProc _ _ _ | .ack => true
  | _ => false

/-- A packet belongs to a phase of an operation and keeps its promise. -/
def PacketOk (N : ℕ) (s : System) (g : Ghost) (packet : Packet) : Prop :=
  1 ≤ packet.target ∧ packet.target ≤ N ∧
  ∃ k o n, s.operations k = some o ∧ packet.cmd.header.msgIdent = o.msgIdent ∧
    packet.cmd.header.sectorIdx = o.sector ∧ packet.cmd.header.readIdent = UInt64.ofNat n ∧
    g.phase o.process o.register n = some (k, IsWritePhase packet.cmd) ∧
    Promise N s g k o packet

structure OperationOk (N R : ℕ) (s : System) (g : Ghost) (k : ℕ) (o : Operation) : Prop where
  lt_count : k < s.count
  process : IsProcess N o.process
  register : o.register < R
  start_le : o.start ≤ s.clock
  snap_le : ∀ q, g.snap k q ≤ s.tagAt q o.sector
  aborted : o.aborted = true → o.cmd.content = .read
  finish_lt : ∀ time c, o.finish = some (time, c) → o.start ≤ time ∧ time < s.clock
  written : ∀ t d, o.writeProc = some (t, d) → s.Written o.sector t d
  own : ∀ t d data, o.writeProc = some (t, d) → o.cmd.content = .write data →
    d = data ∧ t.writeRank = o.process ∧ .zero < t ∧ t.timestamp.toNat ≤ s.writesBroadcast
  held : ∀ time c, o.finish = some (time, c) → ∃ t d, o.writeProc = some (t, d) ∧
    Held N s o.sector t ∧ (o.cmd.content = .read → c.opReturn = .read ⟨some d⟩)

/-- A register in the read phase of operation `k`. -/
structure ReadPhase (N : ℕ) (s : System) (g : Ghost) (p : UInt8) (r : ℕ)
    (register : AtomicRegisterImplementation) (k : ℕ) (o : Operation) : Prop where
  phase : g.phase p r (g.cnt p r) = some (k, false)
  fresh : o.writeProc = none
  entries : ∀ e ∈ register.readlist.entries, IsProcess N e.1 ∧ g.snap k e.1 ≤ entryTag e ∧
    s.Written o.sector (entryTag e) e.2.2.2
  room : g.cnt p r < 2 * s.calls p r
  only : s.restarts = 0 → ∀ n b, g.phase p r n = some (k, b) → n = g.cnt p r

/-- A register in the write phase of operation `k`. -/
structure WritePhase (N : ℕ) (s : System) (g : Ghost) (p : UInt8) (r : ℕ)
    (register : AtomicRegisterImplementation) (k : ℕ) (o : Operation) : Prop where
  phase : g.phase p r (g.cnt p r) = some (k, true)
  chosen : ∃ t d, o.writeProc = some (t, d) ∧
    (∀ q ∈ register.acks, IsProcess N q ∧ t ≤ s.tagAt q o.sector) ∧
    (o.cmd.content = .read → register.readval = some ⟨o.cmd.header.requestIdentifier, d⟩)
  only : s.restarts = 0 → ∀ n b, g.phase p r n = some (k, b) → g.cnt p r ≤ n + 1

/-- The flags and values of a register that serves a command. -/
def Serves (register : AtomicRegisterImplementation) (cmd : ClientRegisterCommand) : Prop :=
  match cmd.content with
  | .read => register.reading = true ∧ register.state.writing = false ∧
      ∃ d, register.readval = some ⟨cmd.header.requestIdentifier, d⟩
  | .write data => register.reading = false ∧ register.state.writing = true ∧
      register.state.writeval = some ⟨cmd.header, data⟩

/-- A register between two operations. -/
def Idle (register : AtomicRegisterImplementation) : Prop :=
  register.reading = false ∧ register.state.writing = false ∧ register.callback = none

structure RegisterOk (N : ℕ) (s : System) (g : Ghost) (p : UInt8) (r : ℕ)
    (register : AtomicRegisterImplementation) : Prop where
  selfIdent : register.selfIdent = p
  processesCount : register.processesCount = N
  readIdent : register.state.readIdent = UInt64.ofNat (g.cnt p r)
  serving : Idle register ∨ ∃ k o, register.callback = some k ∧ s.operations k = some o ∧
    o.process = p ∧ o.register = r ∧ o.InProgress ∧ Serves register o.cmd ∧
    (ReadPhase N s g p r register k o ∨ WritePhase N s g p r register k o)

/-- Operation `k` is in progress on register `r` of `p`, with command `cmd`. -/
structure InProgressOn (s : System) (p : UInt8) (r : ℕ) (cmd : ClientRegisterCommand) (k : ℕ)
    (o : Operation) : Prop where
  mem : s.operations k = some o
  process : o.process = p
  register : o.register = r
  cmd : o.cmd = cmd
  inProgress : o.InProgress

/-- What stable storage holds for register `r`. -/
abbrev Process.record (proc : Process) (r : ℕ) : AtomicRegisterStorageState :=
  (proc.stable r).getD .empty

/-- The record in stable storage, in all three situations a process can be in: it follows
the register, it waits for its write to be re-issued, or the process is down. -/
structure StableOk (s : System) (g : Ghost) (p : UInt8) (r : ℕ) : Prop where
  readIdent : ((s.processes p).record r).readIdent = UInt64.ofNat (g.cnt p r)
  served : (s.processes p).up = true → (s.processes p).pending r = none →
    (s.processes p).record r = ((s.processes p).registers r).state
  recovered : ∀ cmd, (s.processes p).up = true → (s.processes p).pending r = some cmd →
    Idle ((s.processes p).registers r) ∧ s.restarts ≠ 0 ∧
    (∃ k o, InProgressOn s p r cmd k o ∧ o.writeProc = none) ∧
    ∃ d, cmd.content = .write d ∧ ((s.processes p).record r).writing = true ∧
      ((s.processes p).record r).writeval = some ⟨cmd.header, d⟩
  down : (s.processes p).up = false → ((s.processes p).record r).writing = true →
    ∃ h d, ((s.processes p).record r).writeval = some ⟨h, d⟩ ∧
      ∃ k o, InProgressOn s p r ⟨h, .write d⟩ k o

structure PhaseOk (s : System) (g : Ghost) (p : UInt8) (r : ℕ) : Prop where
  cnt_le : g.cnt p r ≤ 2 * s.calls p r
  owner : ∀ n k b, g.phase p r n = some (k, b) →
    n ≤ g.cnt p r ∧ ∃ o, s.operations k = some o ∧ o.process = p ∧ o.register = r

structure Invariant (N R : ℕ) (s : System) (g : Ghost) : Prop where
  operations : ∀ k o, s.operations k = some o → OperationOk N R s g k o
  identifiers : ∀ k₁ o₁ k₂ o₂, s.operations k₁ = some o₁ → s.operations k₂ = some o₂ →
    o₁.process = o₂.process →
    o₁.cmd.header.requestIdentifier = o₂.cmd.header.requestIdentifier → k₁ = k₂
  exclusive : ∀ k₁ o₁ k₂ o₂, s.operations k₁ = some o₁ → s.operations k₂ = some o₂ →
    k₁ ≠ k₂ → o₁.process = o₂.process → o₁.sector = o₂.sector →
    o₁.cmd.content ≠ .read → o₂.cmd.content ≠ .read → o₁.Precedes o₂ ∨ o₂.Precedes o₁
  ordered : ∀ k₁ o₁ k₂ o₂, s.operations k₁ = some o₁ → s.operations k₂ = some o₂ →
    o₁.sector = o₂.sector → o₁.Precedes o₂ → ∀ t₁ d₁, o₁.writeProc = some (t₁, d₁) →
    Majority (members N) N (fun q => t₁ ≤ g.snap k₂ q) ∧
    ∀ t₂ d₂, o₂.writeProc = some (t₂, d₂) → t₁ ≤ t₂ ∧ (o₂.cmd.content ≠ .read → t₁ < t₂)
  packets : ∀ packet ∈ s.net, PacketOk N s g packet
  files : ∀ q sec, s.Written sec (s.tagAt q sec) ((s.processes q).files.readData sec)
  registers : ∀ p r, IsProcess N p → r < R → (s.processes p).up = true →
    RegisterOk N s g p r ((s.processes p).registers r)
  stable : ∀ p r, IsProcess N p → r < R → StableOk s g p r
  phases : ∀ p r, IsProcess N p → r < R → PhaseOk s g p r

end Protocol
end AtomicDiscDrive
