import AtomicDiscDrive.Protocol.Local

/-!
# Deliveries that open no phase

`ReadProc` and `WriteProc` at any process, and the replies a register ignores or merely
collects. The one fact that matters about replies is `reply_phase`: if a reply that is
given to a register carries the register's phase identifier, it answers the very phase the
register is in.
-/

namespace AtomicDiscDrive
namespace Protocol

open Utils

variable {N R : ℕ} {s : System} {g : Ghost} {p : UInt8} {r : ℕ}

/-! ## Phase identifiers -/

theorem ofNat_inj_of_lt {m n : ℕ} (hm : m < 2 ^ 64) (hn : n < 2 ^ 64)
    (h : UInt64.ofNat m = UInt64.ofNat n) : m = n := by
  have h' := congrArg UInt64.toNat h
  rwa [UInt64.toNat_ofNat', UInt64.toNat_ofNat', Nat.mod_eq_of_lt hm, Nat.mod_eq_of_lt hn] at h'

theorem ofNat_ne_succ (n : ℕ) : UInt64.ofNat n ≠ UInt64.ofNat (n + 1) := by
  intro h
  have h' := congrArg UInt64.toNat h
  rw [UInt64.toNat_ofNat', UInt64.toNat_ofNat'] at h'
  omega

theorem ofNat_succ (n : ℕ) : UInt64.ofNat n + 1 = UInt64.ofNat (n + 1) := by
  rw [UInt64.ofNat_add]; rfl

/-- **Phase identifiers tell phases apart.** A reply that is handed to the register its
operation was handed to, and carries the identifier of the register's phase, belongs to
that phase. (An idle register has none, and ignores what it collects.) -/
theorem reply_phase (hI : Invariant N R s g) (hp : IsProcess N p) (hr : r < R)
    (hup : (s.processes p).up = true) (hbusy : ¬ Idle ((s.processes p).registers r))
    {packet : Packet} (hmem : packet ∈ s.net) (htarget : p.toNat = packet.target)
    (hreply : IsReply packet.cmd = true) (hh : Handled s packet r)
    (hid : packet.cmd.header.readIdent = ((s.processes p).registers r).state.readIdent) :
    ∃ k o, s.operations k = some o ∧ o.process = p ∧ o.register = r ∧
      packet.cmd.header.msgIdent = o.msgIdent ∧ packet.cmd.header.sectorIdx = o.sector ∧
      g.phase p r (g.cnt p r) = some (k, IsWritePhase packet.cmd) ∧ Promise N s g k o packet := by
  obtain ⟨-, -, k, o, n, ho, hmsg, hsec, hn, hphase, hpromise⟩ := hI.packets packet hmem
  obtain ⟨k', -, o', ho', htarget', hmsg', hr', hroute⟩ := hh
  have ho' : s.operations k' = some o' := ho'
  have hop : o.process = p := by
    have : packet.target = o.process.toNat := by
      unfold Promise at hpromise
      unfold IsReply at hreply
      split at hpromise <;> simp_all
    exact UInt8.toNat_inj.mp (this.symm.trans htarget.symm)
  have hop' : o'.process = p := UInt8.toNat_inj.mp (htarget'.trans htarget.symm)
  -- the operation the reply was sent for is the one it is routed to
  have hkk : k = k' := by
    refine hI.identifiers k o k' o' ho ho' (hop.trans hop'.symm) ?_
    exact Uuid.fromRequest_injective (hmsg.symm.trans hmsg'.symm)
  subst hkk
  have hoo : o = o' := Option.some.inj (ho.symm.trans ho')
  subst hoo
  refine ⟨k, o, ho, hop, hr', hmsg, hsec, ?_, hpromise⟩
  rw [hop, hr'] at hphase
  rw [hop] at hroute
  have hregister := hI.registers p r hp hr hup
  have hph := hI.phases p r hp hr
  have hle : n ≤ g.cnt p r := (hph.owner n k _ hphase).1
  have heq : UInt64.ofNat n = UInt64.ofNat (g.cnt p r) := by
    rw [← hn, hid, hregister.readIdent]
  -- equal identifiers are equal phases: fewer than 2^64 have been opened, or the operation has
  -- opened one, or two in a row
  have hcnt : n = g.cnt p r := by
    rcases hroute with hcalls | ⟨hrestarts, hcallback⟩
    · have hbound := hph.cnt_le
      exact ofNat_inj_of_lt (by omega) (by omega) heq
    · rcases hregister.serving with hidle | ⟨k₀, o₀, hcb, -, -, -, -, -, hserving⟩
      · exact absurd hidle hbusy
      · have hkk := hcallback k₀ hcb
        subst hkk
        rcases hserving with hread | hwrite
        · exact hread.only hrestarts n _ hphase
        · have hge := hwrite.only hrestarts n _ hphase
          rcases Nat.lt_or_ge n (g.cnt p r) with hlt | hge'
          · have hsucc : g.cnt p r = n + 1 := by omega
            rw [hsucc] at heq
            exact absurd heq (ofNat_ne_succ n)
          · omega
  rw [← hcnt]
  exact hphase

/-! ## Replies that are collected -/

section Replies

variable {k : ℕ} {o : Operation} {packet : Packet}
  (hI : Invariant N R s g) (hp : IsProcess N p) (hr : r < R)
  (hup : (s.processes p).up = true) (hmem : packet ∈ s.net) (htarget : p.toNat = packet.target)
  (hh : Handled s packet r)
  (hid : packet.cmd.header.readIdent = ((s.processes p).registers r).state.readIdent)
include hI hp hr hup hmem htarget hh hid

/-- A reply to the current phase of the operation a register serves. -/
theorem reply_serving (hreply : IsReply packet.cmd = true)
    (hcb : ((s.processes p).registers r).callback = some k) (ho : s.operations k = some o)
    (hphases : ReadPhase N s g p r ((s.processes p).registers r) k o ∨
      WritePhase N s g p r ((s.processes p).registers r) k o) :
    packet.cmd.header.msgIdent = o.msgIdent ∧ packet.cmd.header.sectorIdx = o.sector ∧
      g.phase p r (g.cnt p r) = some (k, IsWritePhase packet.cmd) ∧ Promise N s g k o packet := by
  have hbusy : ¬ Idle ((s.processes p).registers r) := fun hidle => by
    rw [hidle.2.2] at hcb
    simp at hcb
  obtain ⟨k', o', ho', -, -, hmsg, hsec, hphase, hpromise⟩ :=
    reply_phase hI hp hr hup hbusy hmem htarget hreply hh hid
  have hkk : k' = k := by
    rcases hphases with h | h <;>
    · have := h.phase.symm.trans hphase
      simp only [Option.some.injEq, Prod.mk.injEq] at this
      exact this.1.symm
  subst hkk
  have hoo : o' = o := Option.some.inj (ho'.symm.trans ho)
  subst hoo
  exact ⟨hmsg, hsec, hphase, hpromise⟩

/-- A `Value` that is not stale finds its register in the read phase. -/
theorem readPhase_of_value {ts : UInt64} {wr : UInt8} {d : SectorVec}
    (hcontent : packet.cmd.content = .value ts wr d)
    (hcb : ((s.processes p).registers r).callback = some k) (ho : s.operations k = some o)
    (hphases : ReadPhase N s g p r ((s.processes p).registers r) k o ∨
      WritePhase N s g p r ((s.processes p).registers r) k o) :
    ReadPhase N s g p r ((s.processes p).registers r) k o ∧
      ReadPhase N s g p r (((s.processes p).registers r).collect
        packet.cmd.header.processIdentifier (ts, wr, d)) k o := by
  obtain ⟨-, -, hphase, hpromise⟩ := reply_serving hI hp hr hup hmem htarget hh hid
    (by simp [IsReply, hcontent]) hcb ho hphases
  rcases hphases with hread | hwrite
  · refine ⟨hread, hread.phase, hread.fresh, fun e he => ?_, hread.room, hread.only⟩
    rcases Readlist.mem_insert_entries he with rfl | ⟨he, -⟩
    · unfold Promise at hpromise
      simp only [hcontent] at hpromise
      exact ⟨hpromise.2.1, hpromise.2.2.1, hpromise.2.2.2⟩
    · exact hread.entries e he
  · have := hwrite.phase.symm.trans hphase
    simp [IsWritePhase, hcontent] at this

/-- An `Ack` that is not stale finds its register in the write phase. -/
theorem writePhase_of_ack (hcontent : packet.cmd.content = .ack)
    (hcb : ((s.processes p).registers r).callback = some k) (ho : s.operations k = some o)
    (hphases : ReadPhase N s g p r ((s.processes p).registers r) k o ∨
      WritePhase N s g p r ((s.processes p).registers r) k o) :
    WritePhase N s g p r (((s.processes p).registers r).count
      packet.cmd.header.processIdentifier) k o := by
  obtain ⟨-, -, hphase, hpromise⟩ := reply_serving hI hp hr hup hmem htarget hh hid
    (by simp [IsReply, hcontent]) hcb ho hphases
  rcases hphases with hread | hwrite
  · have := hread.phase.symm.trans hphase
    simp [IsWritePhase, hcontent] at this
  · refine ⟨hwrite.phase, ?_, hwrite.only⟩
    obtain ⟨t, d, hwp, hacks, hread⟩ := hwrite.chosen
    unfold Promise at hpromise
    simp only [hcontent] at hpromise
    obtain ⟨-, hq, t', d', hwp', htag⟩ := hpromise
    have htt : t' = t := by
      have := hwp'.symm.trans hwp
      simp only [Option.some.injEq, Prod.mk.injEq] at this
      exact this.1
    refine ⟨t, d, hwp, fun q hq' => ?_, hread⟩
    rcases Finset.mem_insert.mp hq' with rfl | hq'
    · exact ⟨hq, htt ▸ htag⟩
    · exact hacks q hq'

/-- A register stays in order with one more `Value`. -/
theorem registerOk_collect {ts : UInt64} {wr : UInt8} {d : SectorVec}
    (hcontent : packet.cmd.content = .value ts wr d) :
    RegisterOk N s g p r (((s.processes p).registers r).collect
      packet.cmd.header.processIdentifier (ts, wr, d)) := by
  have hreg := hI.registers p r hp hr hup
  refine ⟨hreg.selfIdent, hreg.processesCount, hreg.readIdent, ?_⟩
  rcases hreg.serving with hidle | ⟨k, o, hcb, ho, hop, hor, hin, hserves, hphases⟩
  · exact .inl hidle
  · exact .inr ⟨k, o, hcb, ho, hop, hor, hin, hserves, .inl
      (readPhase_of_value hI hp hr hup hmem htarget hh hid hcontent hcb ho hphases).2⟩

/-- A register stays in order with one more `Ack`. -/
theorem registerOk_count (hcontent : packet.cmd.content = .ack) :
    RegisterOk N s g p r (((s.processes p).registers r).count
      packet.cmd.header.processIdentifier) := by
  have hreg := hI.registers p r hp hr hup
  refine ⟨hreg.selfIdent, hreg.processesCount, hreg.readIdent, ?_⟩
  rcases hreg.serving with hidle | ⟨k, o, hcb, ho, hop, hor, hin, hserves, hphases⟩
  · exact .inl hidle
  · exact .inr ⟨k, o, hcb, ho, hop, hor, hin, hserves, .inr
      (writePhase_of_ack hI hp hr hup hmem htarget hh hid hcontent hcb ho hphases)⟩

end Replies

/-- A reply that changes nothing but the two collections keeps the invariant. -/
theorem Invariant.collected (hI : Invariant N R s g) (hp : IsProcess N p) (hr : r < R)
    (hup : (s.processes p).up = true) {register : AtomicRegisterImplementation}
    (hreg : RegisterOk N s g p r register)
    (hstate : register.state = ((s.processes p).registers r).state)
    (hidle : Idle ((s.processes p).registers r) → Idle register) :
    Invariant N R (calmCommit N s p r register (s.processes p).files []) g :=
  hI.calm hp hr hup (fun _ => le_refl _) (fun sec => hI.files p sec) (by simp) hreg hstate hidle

/-! ## `ReadProc` and `WriteProc` -/

/-- The answer of process `p` to a packet, addressed to the process it came from. -/
def replyTo (p : UInt8) (packet : Packet) (content : SystemRegisterCommandContent) : Packet :=
  ⟨packet.cmd.header.processIdentifier.toNat,
    ⟨{ packet.cmd.header with processIdentifier := p }, content⟩⟩

/-- A `Value` carries what its sender stores, hence a tag no older than the operation. -/
theorem Invariant.readProc (hI : Invariant N R s g) (hp : IsProcess N p) (hr : r < R)
    (hup : (s.processes p).up = true) {packet : Packet} (hmem : packet ∈ s.net)
    (hcontent : packet.cmd.content = .readProc) :
    Invariant N R (calmCommit N s p r ((s.processes p).registers r) (s.processes p).files
      [replyTo p packet (.value (s.tagAt p packet.cmd.header.sectorIdx).timestamp
        (s.tagAt p packet.cmd.header.sectorIdx).writeRank
        ((s.processes p).files.readData packet.cmd.header.sectorIdx))]) g := by
  refine hI.calm hp hr hup (fun _ => le_refl _) (fun sec => hI.files p sec) ?_
    (hI.registers p r hp hr hup) rfl id
  intro packet' hpacket'
  rw [List.mem_singleton] at hpacket'
  subst hpacket'
  refine PacketOk.extend (s := s) (g := g) ?_ (calm_localStep fun _ => le_refl _).ext
  obtain ⟨-, -, k, o, n, ho, hmsg, hsec, hn, hphase, hpromise⟩ := hI.packets packet hmem
  have hop : packet.cmd.header.processIdentifier = o.process := by
    unfold Promise at hpromise
    simpa only [hcontent] using hpromise
  have hproc := (hI.operations k o ho).process
  refine ⟨?_, ?_, k, o, n, ho, hmsg, hsec, hn, ?_, ?_⟩
  · show 1 ≤ packet.cmd.header.processIdentifier.toNat
    rw [hop]; exact hproc.1
  · show packet.cmd.header.processIdentifier.toNat ≤ N
    rw [hop]; exact hproc.2
  · simpa only [IsWritePhase, hcontent, replyTo] using hphase
  · refine ⟨by simp only [replyTo, hop], hp, ?_, ?_⟩
    · rw [hsec]; exact (hI.operations k o ho).snap_le p
    · rw [hsec]; exact hI.files p o.sector

/-- The files of a process after it has handled a `WriteProc`. -/
def storeIfNewer (files : SectorFiles) (sec : SectorIdx) (ts : UInt64) (wr : UInt8)
    (d : SectorVec) : SectorFiles :=
  if files.tag sec < ⟨ts, wr⟩ then (files.writeData sec d).writeMetadata sec ts wr else files

theorem tag_storeIfNewer (files : SectorFiles) (sec sec' : SectorIdx) (ts : UInt64) (wr : UInt8)
    (d : SectorVec) :
    (storeIfNewer files sec ts wr d).tag sec' =
      if sec' = sec then max (files.tag sec) ⟨ts, wr⟩ else files.tag sec' := by
  unfold storeIfNewer
  by_cases hlt : files.tag sec < ⟨ts, wr⟩
  · rw [if_pos hlt]
    by_cases hsec : sec' = sec
    · subst hsec
      rw [if_pos rfl, SectorFiles.tag_writeMetadata_self, max_eq_right hlt.le]
    · rw [if_neg hsec, SectorFiles.tag_writeMetadata_of_ne _ hsec, SectorFiles.tag_writeData]
  · rw [if_neg hlt]
    by_cases hsec : sec' = sec
    · subst hsec
      rw [if_pos rfl, max_eq_left (not_lt.mp hlt)]
    · rw [if_neg hsec]

/-- A process stores what it acknowledges, or something newer. -/
theorem Invariant.writeProc (hI : Invariant N R s g) (hp : IsProcess N p) (hr : r < R)
    (hup : (s.processes p).up = true) {packet : Packet} (hmem : packet ∈ s.net) {ts : UInt64}
    {wr : UInt8} {d : SectorVec} (hcontent : packet.cmd.content = .writeProc ts wr d) :
    Invariant N R (calmCommit N s p r ((s.processes p).registers r)
      (storeIfNewer (s.processes p).files packet.cmd.header.sectorIdx ts wr d)
      [replyTo p packet .ack]) g := by
  obtain ⟨-, -, k, o, n, ho, hmsg, hsec, hn, hphase, hpromise⟩ := hI.packets packet hmem
  have hwp : packet.cmd.header.processIdentifier = o.process ∧
      o.writeProc = some (⟨ts, wr⟩, d) := by
    unfold Promise at hpromise
    simpa only [hcontent] using hpromise
  have hok := hI.operations k o ho
  have htag : ∀ sec, s.tagAt p sec ≤
      (storeIfNewer (s.processes p).files packet.cmd.header.sectorIdx ts wr d).tag sec := by
    intro sec
    rw [tag_storeIfNewer]
    split
    · rename_i h; rw [h]; exact le_max_left _ _
    · exact le_refl _
  refine hI.calm hp hr hup htag ?_ ?_ (hI.registers p r hp hr hup) rfl id
  · intro sec
    unfold storeIfNewer
    by_cases hlt : (s.processes p).files.tag packet.cmd.header.sectorIdx < ⟨ts, wr⟩
    · rw [if_pos hlt]
      -- the sector of the message gets the tag and the data its operation has chosen
      by_cases hs : sec = packet.cmd.header.sectorIdx
      · subst hs
        rw [SectorFiles.tag_writeMetadata_self, SectorFiles.readData_write, hsec]
        exact hok.written _ _ hwp.2
      · rw [SectorFiles.tag_writeMetadata_of_ne _ hs, SectorFiles.tag_writeData,
          SectorFiles.readData_writeMetadata_of_ne _ hs, SectorFiles.readData_writeData_of_ne _ hs]
        exact hI.files p sec
    · rw [if_neg hlt]
      exact hI.files p sec
  · intro packet' hpacket'
    rw [List.mem_singleton] at hpacket'
    subst hpacket'
    refine ⟨?_, ?_, k, o, n, ?_, hmsg, hsec, hn, ?_, ?_⟩
    · show 1 ≤ packet.cmd.header.processIdentifier.toNat
      rw [hwp.1]; exact hok.process.1
    · show packet.cmd.header.processIdentifier.toNat ≤ N
      rw [hwp.1]; exact hok.process.2
    · rw [calm_operations]; exact ho
    · simpa only [IsWritePhase, hcontent, replyTo] using hphase
    · refine ⟨by simp only [replyTo, hwp.1], hp, ⟨ts, wr⟩, d, hwp.2, ?_⟩
      -- the ack promises that the tag here is not below the one of the message, stored or not
      show (⟨ts, wr⟩ : Tag) ≤ System.tagAt _ p o.sector
      rw [commit_tagAt, if_pos rfl, tag_storeIfNewer, if_pos hsec.symm]
      exact le_max_right _ _

end Protocol
end AtomicDiscDrive
