import AtomicDiscDrive.Protocol.Invariant

/-!
# What later states keep

Stored tags only grow, an operation keeps its command and the `WriteProc` it has
broadcast, and a phase number keeps its meaning. `Extends` says so of a pair of states,
and every part of the invariant that speaks about the past is kept by it.
-/

namespace AtomicDiscDrive
namespace Protocol

open Utils

/-- `o'` is `o` at a later time. -/
structure Operation.Later (o o' : Operation) : Prop where
  process : o'.process = o.process
  register : o'.register = o.register
  cmd : o'.cmd = o.cmd
  start : o'.start = o.start
  writeProc : ∀ x, o.writeProc = some x → o'.writeProc = some x

theorem Operation.Later.refl (o : Operation) : o.Later o := ⟨rfl, rfl, rfl, rfl, fun _ h => h⟩

structure Extends (s : System) (g : Ghost) (s' : System) (g' : Ghost) : Prop where
  operation : ∀ k o, s.operations k = some o → ∃ o', s'.operations k = some o' ∧ o.Later o'
  tag : ∀ q sec, s.tagAt q sec ≤ s'.tagAt q sec
  snap : ∀ k o, s.operations k = some o → g'.snap k = g.snap k
  phase : ∀ p r n x, g.phase p r n = some x → g'.phase p r n = some x
  restarts : s'.restarts = 0 → s.restarts = 0
  calls : ∀ q r, s.calls q r ≤ s'.calls q r
  count : s.count ≤ s'.count
  clock : s.clock ≤ s'.clock

variable {N R : ℕ} {s s' : System} {g g' : Ghost} {p : UInt8} {r : ℕ}

/-- Writes are not forgotten, nor is that they have broadcast their `WriteProc`. -/
theorem Extends.writesBroadcast_le (hx : Extends s g s' g') :
    s.writesBroadcast ≤ s'.writesBroadcast := by
  refine Finset.card_le_card fun k hk => ?_
  rw [Finset.mem_filter, Finset.mem_range, Option.any_eq_true] at hk ⊢
  obtain ⟨hk, o, ho, hw⟩ := hk
  obtain ⟨o', ho', hl⟩ := hx.operation k o ho
  refine ⟨hk.trans_le hx.count, o', ho', ?_⟩
  rw [Bool.and_eq_true, Option.isSome_iff_exists] at hw ⊢
  obtain ⟨hcmd, x, hwp⟩ := hw
  exact ⟨by rw [hl.cmd]; exact hcmd, x, hl.writeProc x hwp⟩

theorem System.Written.extend {sec : SectorIdx} {t : Tag} {d : SectorVec}
    (h : s.Written sec t d) (hx : Extends s g s' g') : s'.Written sec t d := by
  rcases h with h | ⟨k, o, ho, hsec, hcmd, hwp⟩
  · exact .inl h
  · obtain ⟨o', ho', hl⟩ := hx.operation k o ho
    refine .inr ⟨k, o', ho', ?_, ?_, hl.writeProc _ hwp⟩
    · rw [Operation.sector, hl.cmd]; exact hsec
    · rw [hl.cmd]; exact hcmd

theorem Held.extend {sec : SectorIdx} {t : Tag} (h : Held N s sec t) (hx : Extends s g s' g') :
    Held N s' sec t :=
  Majority.mono h fun q _ hq => hq.trans (hx.tag q sec)

theorem Promise.extend {k : ℕ} {o o' : Operation} {packet : Packet}
    (h : Promise N s g k o packet) (hx : Extends s g s' g') (ho : s.operations k = some o)
    (hl : o.Later o') : Promise N s' g' k o' packet := by
  have hsec : o'.sector = o.sector := by rw [Operation.sector, hl.cmd]
  unfold Promise at h ⊢
  split at h
  · rw [hl.process]; exact h
  · obtain ⟨htarget, hq, hsnap, hw⟩ := h
    rw [hl.process, hx.snap k o ho, hsec]
    exact ⟨htarget, hq, hsnap, hw.extend hx⟩
  · rw [hl.process]
    exact ⟨h.1, hl.writeProc _ h.2⟩
  · obtain ⟨htarget, hq, t, d, hwp, htag⟩ := h
    rw [hl.process, hsec]
    exact ⟨htarget, hq, t, d, hl.writeProc _ hwp, htag.trans (hx.tag _ _)⟩

theorem PacketOk.extend {packet : Packet} (h : PacketOk N s g packet) (hx : Extends s g s' g') :
    PacketOk N s' g' packet := by
  obtain ⟨h1, hN, k, o, n, ho, hmsg, hsec, hid, hphase, hpromise⟩ := h
  obtain ⟨o', ho', hl⟩ := hx.operation k o ho
  refine ⟨h1, hN, k, o', n, ho', ?_, ?_, hid, ?_, hpromise.extend hx ho hl⟩
  · rw [Operation.msgIdent, hl.cmd]; exact hmsg
  · rw [Operation.sector, hl.cmd]; exact hsec
  · rw [hl.process, hl.register]; exact hx.phase _ _ _ _ hphase

/-- An operation nothing has happened to stays in order. -/
theorem OperationOk.extend {k : ℕ} {o o' : Operation} (h : OperationOk N R s g k o)
    (hx : Extends s g s' g') (ho : s.operations k = some o) (hl : o.Later o')
    (hwp : o'.writeProc = o.writeProc) (hfin : o'.finish = o.finish)
    (hab : o'.aborted = true → o'.cmd.content = .read) : OperationOk N R s' g' k o' := by
  have hsec : o'.sector = o.sector := by rw [Operation.sector, hl.cmd]
  constructor
  · exact h.lt_count.trans_le hx.count
  · rw [hl.process]; exact h.process
  · rw [hl.register]; exact h.register
  · rw [hl.start]; exact h.start_le.trans hx.clock
  · intro q
    rw [hx.snap k o ho, hsec]
    exact (h.snap_le q).trans (hx.tag q _)
  · exact hab
  · intro time c hc
    rw [hfin] at hc
    rw [hl.start]
    exact ⟨(h.finish_lt time c hc).1, (h.finish_lt time c hc).2.trans_le hx.clock⟩
  · intro t d htd
    rw [hwp] at htd
    rw [hsec]
    exact (h.written t d htd).extend hx
  · intro t d data htd hdata
    rw [hwp] at htd
    rw [hl.cmd] at hdata
    obtain ⟨hd, hrank, hpos, hts⟩ := h.own t d data htd hdata
    exact ⟨hd, by rw [hl.process]; exact hrank, hpos, hts.trans hx.writesBroadcast_le⟩
  · intro time c hc
    rw [hfin] at hc
    obtain ⟨t, d, htd, hheld, hret⟩ := h.held time c hc
    rw [hwp, hsec, hl.cmd]
    exact ⟨t, d, htd, hheld.extend hx, hret⟩

theorem ReadPhase.extend {register : AtomicRegisterImplementation} {k : ℕ} {o : Operation}
    (h : ReadPhase N s g p r register k o) (hx : Extends s g s' g') (ho : s.operations k = some o)
    (hcnt : g'.cnt p r = g.cnt p r) (hphase : g'.phase p r = g.phase p r) :
    ReadPhase N s' g' p r register k o := by
  constructor
  · rw [hcnt, hphase]; exact h.phase
  · exact h.fresh
  · intro e he
    obtain ⟨hq, hsnap, hw⟩ := h.entries e he
    rw [hx.snap k o ho]
    exact ⟨hq, hsnap, hw.extend hx⟩
  · rw [hcnt]
    exact h.room.trans_le (Nat.mul_le_mul_left 2 (hx.calls p r))
  · intro hr n b hn
    rw [hphase] at hn
    rw [hcnt]
    exact h.only (hx.restarts hr) n b hn

theorem WritePhase.extend {register : AtomicRegisterImplementation} {k : ℕ} {o : Operation}
    (h : WritePhase N s g p r register k o) (hx : Extends s g s' g')
    (hcnt : g'.cnt p r = g.cnt p r) (hphase : g'.phase p r = g.phase p r) :
    WritePhase N s' g' p r register k o := by
  constructor
  · rw [hcnt, hphase]; exact h.phase
  · obtain ⟨t, d, hwp, hacks, hread⟩ := h.chosen
    refine ⟨t, d, hwp, fun q hq => ?_, hread⟩
    exact ⟨(hacks q hq).1, (hacks q hq).2.trans (hx.tag q _)⟩
  · intro hr n b hn
    rw [hphase] at hn
    rw [hcnt]
    exact h.only (hx.restarts hr) n b hn

/-- A register nothing has happened to, serving an operation nothing has happened to. -/
theorem RegisterOk.extend {register : AtomicRegisterImplementation}
    (h : RegisterOk N s g p r register) (hx : Extends s g s' g')
    (hcnt : g'.cnt p r = g.cnt p r) (hphase : g'.phase p r = g.phase p r)
    (hsame : ∀ k o, s.operations k = some o → o.process = p → o.register = r →
      o.InProgress → s'.operations k = some o) :
    RegisterOk N s' g' p r register := by
  refine ⟨h.selfIdent, h.processesCount, by rw [hcnt]; exact h.readIdent, ?_⟩
  rcases h.serving with hidle | ⟨k, o, hcb, ho, hp, hr, hin, hserves, hphases⟩
  · exact .inl hidle
  · refine .inr ⟨k, o, hcb, hsame k o ho hp hr hin, hp, hr, hin, hserves, ?_⟩
    rcases hphases with hrp | hwp
    · exact .inl (hrp.extend hx ho hcnt hphase)
    · exact .inr (hwp.extend hx hcnt hphase)

theorem InProgressOn.extend {cmd : ClientRegisterCommand} {k : ℕ} {o : Operation}
    (h : InProgressOn s p r cmd k o)
    (hsame : ∀ k o, s.operations k = some o → o.process = p → o.register = r →
      o.InProgress → s'.operations k = some o) : InProgressOn s' p r cmd k o :=
  ⟨hsame k o h.mem h.process h.register h.inProgress, h.process, h.register, h.cmd, h.inProgress⟩

theorem StableOk.extend (h : StableOk s g p r) (hx : Extends s g s' g')
    (hcnt : g'.cnt p r = g.cnt p r)
    (hstable : (s'.processes p).stable r = (s.processes p).stable r)
    (hregister : (s'.processes p).registers r = (s.processes p).registers r)
    (hpending : (s'.processes p).pending r = (s.processes p).pending r)
    (hup : (s'.processes p).up = (s.processes p).up)
    (hsame : ∀ k o, s.operations k = some o → o.process = p → o.register = r →
      o.InProgress → s'.operations k = some o) : StableOk s' g' p r := by
  have hrecord : (s'.processes p).record r = (s.processes p).record r := by
    rw [Process.record, hstable]
  constructor
  · rw [hrecord, hcnt]; exact h.readIdent
  · rw [hrecord, hregister, hpending, hup]; exact h.served
  · intro cmd
    rw [hrecord, hregister, hpending, hup]
    intro hu hc
    obtain ⟨hidle, hrestarts, ⟨k, o, hin, hwp⟩, hrec⟩ := h.recovered cmd hu hc
    exact ⟨hidle, fun h0 => hrestarts (hx.restarts h0), ⟨k, o, hin.extend hsame, hwp⟩, hrec⟩
  · rw [hrecord, hup]
    intro hu hw
    obtain ⟨hd, d, hval, k, o, hin⟩ := h.down hu hw
    exact ⟨hd, d, hval, k, o, hin.extend hsame⟩

theorem PhaseOk.extend (h : PhaseOk s g p r) (hx : Extends s g s' g')
    (hcnt : g'.cnt p r = g.cnt p r) (hphase : g'.phase p r = g.phase p r) : PhaseOk s' g' p r := by
  constructor
  · rw [hcnt]; exact h.cnt_le.trans (Nat.mul_le_mul_left 2 (hx.calls p r))
  · intro n k b hn
    rw [hphase] at hn
    obtain ⟨hle, o, ho, hp, hr⟩ := h.owner n k b hn
    obtain ⟨o', ho', hl⟩ := hx.operation k o ho
    exact ⟨by rw [hcnt]; exact hle, o', ho', hl.process.trans hp, hl.register.trans hr⟩

end Protocol
end AtomicDiscDrive
