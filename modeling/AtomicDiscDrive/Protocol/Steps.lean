import AtomicDiscDrive.Protocol.Restart

/-!
# Every step keeps the invariant

The handlers are matched with the steps of the previous modules, one message kind at a
time, and `Invariant.step` puts them together. `exists_invariant` is the result for whole
runs.
-/

namespace AtomicDiscDrive
namespace Protocol

open Utils AtomicRegisterImplementation

variable {N R : ℕ} {s s' : System} {g : Ghost} {p : UInt8} {r : ℕ} {k : ℕ} {o : Operation}

/-! ## The end of the read phase -/

/-- Timestamps count writes. -/
theorem Invariant.timestamp_le (hI : Invariant N R s g) {sec : SectorIdx} {t : Tag}
    {d : SectorVec} (h : s.Written sec t d) : t.timestamp.toNat ≤ s.writesBroadcast := by
  rcases h with ⟨rfl, -⟩ | ⟨k, o, ho, -, hcmd, hwp⟩
  · exact Nat.zero_le _
  · exact ((hI.operations k o ho).own t d d hwp hcmd).2.2.2

theorem writesBroadcast_le_writesIssued : s.writesBroadcast ≤ s.writesIssued := by
  refine Finset.card_le_card fun k hk => ?_
  rw [Finset.mem_filter, Option.any_eq_true] at hk ⊢
  obtain ⟨hk, o, ho, hw⟩ := hk
  rw [Bool.and_eq_true] at hw
  exact ⟨hk, o, ho, hw.1⟩

/-- The processes in a readlist that has reached a quorum are a majority, and none of them
had a larger tag than the maximum when the operation was issued. -/
theorem majority_of_readlist {register : AtomicRegisterImplementation}
    (hN : register.processesCount = N) (hquorum : register.ReadQuorum)
    (hread : ReadPhase N s g p r register k o) {iter : IterOrder} {max : ReadlistEntry}
    (hmax : maxEntry iter register.readlist = some max) :
    Majority (members N) N fun q => g.snap k q ≤ entryTag max := by
  refine ⟨register.readlist.keys.toFinset, fun q hq => ?_, fun q hq => ?_, ?_⟩
  · rw [List.mem_toFinset, AList.keys, List.mem_keys] at hq
    obtain ⟨v, hv⟩ := hq
    exact mem_members.mpr (hread.entries _ hv).1
  · rw [List.mem_toFinset, AList.keys, List.mem_keys] at hq
    obtain ⟨v, hv⟩ := hq
    exact (hread.entries _ hv).2.1.trans ((maxEntry_spec hmax).2 _ hv)
  · rw [Readlist.card_keys, ← hN]
    exact hquorum

section Chosen

variable {register : AtomicRegisterImplementation} {iter : IterOrder} {max : ReadlistEntry}
  (hreg : RegisterOk N s g p r register) (hcb : register.callback = some k)
  (hserves : Serves register o.cmd) (hquorum : register.ReadQuorum)
  (hread : ReadPhase N s g p r register k o)
  (hmax : maxEntry iter register.readlist = some max)
include hreg hcb hserves hquorum hread hmax

/-- A read takes over the largest tag it has seen, with its data. -/
theorem chosen_read (hreading : register.reading = true) {readval : DataWithRequestIdentifier}
    (hval : register.readval = some readval) :
    Chosen N s g p r k o (register.chooseRead readval.requestIdentifier max.2.2.2).nextPhase
      (entryTag max) max.2.2.2 := by
  obtain ⟨-, -, hw⟩ := hread.entries max (maxEntry_spec hmax).1
  have hm := majority_of_readlist hreg.processesCount hquorum hread hmax
  unfold Serves at hserves
  cases hcmd : o.cmd.content with
  | write data =>
    simp only [hcmd] at hserves
    rw [hserves.1] at hreading
    simp at hreading
  | read =>
    simp only [hcmd] at hserves
    obtain ⟨-, hwriting, d, hd⟩ := hserves
    rw [hval, Option.some.injEq] at hd
    subst hd
    exact {
      selfIdent := hreg.selfIdent
      processesCount := hreg.processesCount
      callback := hcb
      readIdent := by
        show register.state.readIdent + 1 = _
        rw [hreg.readIdent, ofNat_succ]
      acks := rfl
      serves := by
        unfold Serves
        simp only [hcmd]
        exact ⟨hreading, hwriting, _, rfl⟩
      readval := fun _ => rfl
      majority := hm.mono fun q _ hq => ⟨hq, fun h => absurd hcmd h⟩
      written := fun _ => hw
      own := fun data hdata => by rw [hcmd] at hdata; simp at hdata }

/-- A write takes the next timestamp, and its own rank. -/
theorem chosen_write (hI : Invariant N R s g) (hwrites : s.writesIssued < 2 ^ 64 - 1)
    (hreading : register.reading = false) {writeval : DataWithHeader}
    (hval : register.state.writeval = some writeval) :
    Chosen N s g p r k o register.chooseWrite.nextPhase
      ⟨max.2.1 + 1, register.selfIdent⟩ writeval.data := by
  obtain ⟨-, -, hw⟩ := hread.entries max (maxEntry_spec hmax).1
  have hm := majority_of_readlist hreg.processesCount hquorum hread hmax
  -- no timestamp is above the number of writes, so the next one does not wrap around
  have hts : max.2.1.toNat ≤ s.writesBroadcast := hI.timestamp_le hw
  have hle := writesBroadcast_le_writesIssued (s := s)
  have hroom : max.2.1.toNat + 1 < 2 ^ 64 := by omega
  have hlt : entryTag max < ⟨max.2.1 + 1, register.selfIdent⟩ := Tag.lt_succ hroom _
  unfold Serves at hserves
  cases hcmd : o.cmd.content with
  | read =>
    simp only [hcmd] at hserves
    rw [hserves.1] at hreading
    simp at hreading
  | write data =>
    simp only [hcmd] at hserves
    obtain ⟨-, hwriting, hd⟩ := hserves
    have hwv : writeval = ⟨o.cmd.header, data⟩ := Option.some.inj (hval.symm.trans hd)
    subst hwv
    exact {
      selfIdent := hreg.selfIdent
      processesCount := hreg.processesCount
      callback := hcb
      readIdent := by
        show register.state.readIdent + 1 = _
        rw [hreg.readIdent, ofNat_succ]
      acks := rfl
      serves := by
        unfold Serves
        simp only [hcmd]
        exact ⟨hreading, hwriting, hval⟩
      readval := fun h => by rw [hcmd] at h; simp at h
      majority := hm.mono fun q _ hq => ⟨hq.trans hlt.le, fun _ => hq.trans_lt hlt⟩
      written := fun h => by rw [hcmd] at h; simp at h
      own := by
        intro data' hdata'
        rw [hcmd, ClientRegisterCommandContent.write.injEq] at hdata'
        refine ⟨hdata', hreg.selfIdent, (Tag.zero_le _).trans_lt hlt, ?_⟩
        show (max.2.1 + 1).toNat ≤ _
        rw [UInt64.toNat_add, UInt64.toNat_one, Nat.mod_eq_of_lt hroom]
        omega }

end Chosen

/-! ## Deliveries -/

section Deliver

variable {packet : Packet} (hI : Invariant N R s g) (hp : IsProcess N p) (hr : r < R)
  (hup : (s.processes p).up = true) (hmem : packet ∈ s.net) (htarget : p.toNat = packet.target)
include hI hp hr hup hmem

theorem Invariant.deliver_readProc (hcontent : packet.cmd.content = .readProc)
    (h : s.handle N p r (((s.processes p).registers r).handleReadProc packet.cmd.header) =
      some s') : Invariant N R s' g := by
  have hrun : s.handle N p r (((s.processes p).registers r).handleReadProc packet.cmd.header) =
      some (calmCommit N s p r ((s.processes p).registers r) (s.processes p).files
        [replyTo ((s.processes p).registers r).selfIdent packet
          (.value (s.tagAt p packet.cmd.header.sectorIdx).timestamp
            (s.tagAt p packet.cmd.header.sectorIdx).writeRank
            ((s.processes p).files.readData packet.cmd.header.sectorIdx))]) := rfl
  rw [hrun, Option.some.injEq, (hI.registers p r hp hr hup).selfIdent] at h
  rw [← h]
  exact hI.readProc hp hr hup hmem hcontent

theorem Invariant.deliver_writeProc {ts : UInt64} {wr : UInt8} {d : SectorVec}
    (hcontent : packet.cmd.content = .writeProc ts wr d)
    (h : s.handle N p r
      (((s.processes p).registers r).handleWriteProc packet.cmd.header ts wr d) = some s') :
    Invariant N R s' g := by
  have hrun : s.handle N p r
      (((s.processes p).registers r).handleWriteProc packet.cmd.header ts wr d) =
      some (calmCommit N s p r ((s.processes p).registers r)
        (storeIfNewer (s.processes p).files packet.cmd.header.sectorIdx ts wr d)
        [replyTo ((s.processes p).registers r).selfIdent packet .ack]) := by
    unfold storeIfNewer
    show s.handle N p r (if (s.processes p).files.tag packet.cmd.header.sectorIdx < ⟨ts, wr⟩ then
        writeSector packet.cmd.header.sectorIdx (d, ts, wr) >>= fun _ =>
          ((s.processes p).registers r).acknowledge packet.cmd.header
      else ((s.processes p).registers r).acknowledge packet.cmd.header) = _
    by_cases hlt : (s.processes p).files.tag packet.cmd.header.sectorIdx < ⟨ts, wr⟩
    · rw [if_pos hlt, if_pos hlt]
      rfl
    · rw [if_neg hlt, if_neg hlt]
      rfl
  rw [hrun, Option.some.injEq, (hI.registers p r hp hr hup).selfIdent] at h
  rw [← h]
  exact hI.writeProc hp hr hup hmem hcontent

include htarget

theorem Invariant.deliver_value (hh : Handled s packet r)
    (hwrites : s.writesIssued < 2 ^ 64 - 1) {ts : UInt64} {wr : UInt8} {d : SectorVec}
    (hcontent : packet.cmd.content = .value ts wr d) {iter : IterOrder}
    (h : s.handle N p r
      (((s.processes p).registers r).handleValue iter packet.cmd.header (ts, wr, d)) = some s') :
    ∃ g', Invariant N R s' g' := by
  have hreg := hI.registers p r hp hr hup
  have hcases := handleValue_cases iter ((s.processes p).registers r) packet.cmd.header (ts, wr, d)
  -- a register that opens the write phase serves an operation, and is in its read phase
  have hphase : packet.cmd.header.readIdent = ((s.processes p).registers r).state.readIdent →
      ((s.processes p).registers r).Busy = true → ∃ k o,
      ((s.processes p).registers r).callback = some k ∧ s.operations k = some o ∧
      o.process = p ∧ o.register = r ∧ o.InProgress ∧
      Serves ((s.processes p).registers r) o.cmd ∧
      packet.cmd.header.msgIdent = o.msgIdent ∧ packet.cmd.header.sectorIdx = o.sector ∧
      ReadPhase N s g p r ((s.processes p).registers r) k o ∧
      ReadPhase N s g p r (((s.processes p).registers r).collect
        packet.cmd.header.processIdentifier (ts, wr, d)) k o := by
    intro hid hbusy
    rcases hreg.serving with hidle | ⟨k, o, hcb, ho, hop, hor, hin, hserves, hphases⟩
    · rw [Busy, hidle.1, hidle.2.1] at hbusy
      simp at hbusy
    · obtain ⟨hmsg, hsec, -, -⟩ := reply_serving hI hp hr hup hmem htarget hh hid
        (by simp [IsReply, hcontent]) hcb ho hphases
      obtain ⟨hread, hread'⟩ :=
        readPhase_of_value hI hp hr hup hmem htarget hh hid hcontent hcb ho hphases
      exact ⟨k, o, hcb, ho, hop, hor, hin, hserves, hmsg, hsec, hread, hread'⟩
  generalize handleValue iter ((s.processes p).registers r) packet.cmd.header (ts, wr, d) = prog
    at h hcases
  cases hcases with
  | stale hid =>
    rw [← Option.some.inj h]
    exact ⟨g, hI.collected hp hr hup hreg rfl id⟩
  | collected hid hfew =>
    rw [← Option.some.inj h]
    exact ⟨g, hI.collected hp hr hup
      (registerOk_collect hI hp hr hup hmem htarget hh hid hcontent) rfl id⟩
  | @read max readval hid hreading hquorum hmax hval =>
    obtain ⟨k, o, hcb, ho, hop, hor, hin, hserves, hmsg, hsec, hread, hread'⟩ :=
      hphase hid (by simp [Busy, hreading])
    have hreg' := registerOk_collect hI hp hr hup hmem htarget hh hid hcontent
    have hc := chosen_read hreg' hcb hserves hquorum hread' hmax hreading hval
    have hrun := Option.some.inj h
    rw [hmsg, hsec] at hrun
    rw [← hrun]
    exact ⟨_, hI.choose hp hr hup hcb ho hop hor hin hread hc⟩
  | @write max writeval hid hreading hwriting hquorum hmax hval =>
    obtain ⟨k, o, hcb, ho, hop, hor, hin, hserves, hmsg, hsec, hread, hread'⟩ :=
      hphase hid (by simp [Busy, hwriting])
    have hreg' := registerOk_collect hI hp hr hup hmem htarget hh hid hcontent
    have hc := chosen_write hreg' hcb hserves hquorum hread' hmax hI hwrites hreading hval
    have hrun := Option.some.inj h
    rw [hmsg, hsec] at hrun
    rw [← hrun]
    exact ⟨_, hI.choose hp hr hup hcb ho hop hor hin hread hc⟩
  | panicRead => exact absurd h (by simp [System.handle, run_panic])
  | panicWrite => exact absurd h (by simp [System.handle, run_panic])

theorem Invariant.deliver_ack (hh : Handled s packet r) (hcontent : packet.cmd.content = .ack)
    (h : s.handle N p r (((s.processes p).registers r).handleAck packet.cmd.header) = some s') :
    ∃ g', Invariant N R s' g' := by
  have hreg := hI.registers p r hp hr hup
  have hcases := handleAck_cases ((s.processes p).registers r) packet.cmd.header
  -- a register that completes is in the write phase of an operation a majority has stored
  have hphase : packet.cmd.header.readIdent = ((s.processes p).registers r).state.readIdent →
      ((s.processes p).registers r).Busy = true →
      (((s.processes p).registers r).count packet.cmd.header.processIdentifier).AckQuorum →
      ∃ k o t d, ((s.processes p).registers r).callback = some k ∧ s.operations k = some o ∧
      o.process = p ∧ o.register = r ∧ o.InProgress ∧
      Serves ((s.processes p).registers r) o.cmd ∧ o.writeProc = some (t, d) ∧
      Held N s o.sector t ∧ (o.cmd.content = .read →
        ((s.processes p).registers r).readval = some ⟨o.cmd.header.requestIdentifier, d⟩) := by
    intro hid hbusy hquorum
    rcases hreg.serving with hidle | ⟨k, o, hcb, ho, hop, hor, hin, hserves, hphases⟩
    · rw [Busy, hidle.1, hidle.2.1] at hbusy
      simp at hbusy
    · obtain ⟨t, d, hwp, hacks, hread⟩ :=
        (writePhase_of_ack hI hp hr hup hmem htarget hh hid hcontent hcb ho hphases).chosen
      refine ⟨k, o, t, d, hcb, ho, hop, hor, hin, hserves, hwp, ?_, hread⟩
      refine ⟨_, fun q hq => mem_members.mpr (hacks q hq).1, fun q hq => (hacks q hq).2, ?_⟩
      rw [← hreg.processesCount]
      exact hquorum
  generalize handleAck ((s.processes p).registers r) packet.cmd.header = prog at h hcases
  cases hcases with
  | stale hid =>
    rw [← Option.some.inj h]
    exact ⟨g, hI.collected hp hr hup hreg rfl id⟩
  | counted hid hfew =>
    rw [← Option.some.inj h]
    exact ⟨g, hI.collected hp hr hup
      (registerOk_count hI hp hr hup hmem htarget hh hid hcontent) rfl id⟩
  | @read readval hid hreading hquorum hval =>
    obtain ⟨k, o, t, d, hcb, ho, hop, hor, hin, hserves, hwp, hheld, hret⟩ :=
      hphase hid (by simp [Busy, hreading]) hquorum
    rw [complete_some (show ((s.processes p).registers r).endRead.callback = some k from hcb)] at h
    have hwriting : ((s.processes p).registers r).state.writing = false := by
      unfold Serves at hserves
      split at hserves
      · exact hserves.2.1
      · rw [hserves.1] at hreading
        simp at hreading
    have hpend := hI.pending_none hp hr hup (not_idle_of_callback hcb)
    rw [← Option.some.inj h]
    refine ⟨g, hI.complete hp hr hup hcb ho hop hor hin hwp hheld ?_ hreg.selfIdent
      hreg.processesCount hreg.readIdent ⟨rfl, hwriting, rfl⟩ ?_⟩
    · intro hcmd
      have hrv := hret hcmd
      rw [hval, Option.some.injEq] at hrv
      rw [hrv]
    · exact (hI.stable p r hp hr).served hup hpend
  | @write writeval hid hreading hwriting hquorum hval =>
    obtain ⟨k, o, t, d, hcb, ho, hop, hor, hin, hserves, hwp, hheld, -⟩ :=
      hphase hid (by simp [Busy, hwriting]) hquorum
    rw [complete_some (show ((s.processes p).registers r).endWrite.callback = some k from hcb)] at h
    have hwrite : o.cmd.content ≠ .read := by
      intro hcmd
      unfold Serves at hserves
      simp only [hcmd] at hserves
      rw [hserves.1] at hreading
      simp at hreading
    rw [← Option.some.inj h]
    exact ⟨g, hI.complete hp hr hup hcb ho hop hor hin hwp hheld (fun hcmd => absurd hcmd hwrite)
      hreg.selfIdent hreg.processesCount hreg.readIdent ⟨hreading, rfl, rfl⟩ rfl⟩
  | panicRead => exact absurd h (by simp [System.handle, run_panic])
  | panicWrite =>
    have hnone : s.handle N p r (.call (.put ((s.processes p).registers r).endWrite.state)
        fun _ => .call RegisterOp.panic Empty.elim) = none := rfl
    rw [hnone] at h
    simp at h

/-- A message, whatever it is. -/
theorem Invariant.deliver (hh : IsReply packet.cmd → Handled s packet r)
    (hwrites : s.writesIssued < 2 ^ 64 - 1) {iter : IterOrder}
    (h : s.handle N p r (((s.processes p).registers r).systemCommand iter packet.cmd) = some s') :
    ∃ g', Invariant N R s' g' := by
  unfold systemCommand at h
  split at h
  · rename_i hcontent
    exact ⟨g, hI.deliver_readProc hp hr hup hmem hcontent h⟩
  · rename_i ts wr d hcontent
    exact hI.deliver_value hp hr hup hmem htarget (hh (by simp [IsReply, hcontent])) hwrites
      hcontent h
  · rename_i ts wr d hcontent
    exact ⟨g, hI.deliver_writeProc hp hr hup hmem hcontent h⟩
  · rename_i hcontent
    exact hI.deliver_ack hp hr hup hmem htarget (hh (by simp [IsReply, hcontent])) hcontent h

end Deliver

/-! ## Client commands -/

theorem dispatched_eq_self (h : (s.processes p).pending r = none) : s.dispatched p r = s := by
  have hpending : Function.update (s.processes p).pending r none = (s.processes p).pending := by
    rw [← h, Function.update_eq_self]
  rw [System.dispatched, hpending]
  exact congrArg (fun processes => { s with processes }) (Function.update_eq_self p s.processes)

theorem handle_clientCommand (cmd : ClientRegisterCommand) :
    ((s.dispatched p r).called p r).handle N p r
      (((s.processes p).registers r).clientCommand cmd k) = some (started N s p r cmd k) := by
  have hfiles : (((s.dispatched p r).called p r).processes p).files = (s.processes p).files := by
    simp [System.called, System.dispatched]
  rw [started, ← hfiles]
  rfl

theorem Invariant.step_invoke {cmd : ClientRegisterCommand} (hI : Invariant N R s g)
    (ha : Environment N R s (.invoke p r cmd))
    (h : s.step N R (.invoke p r cmd) = some s') : ∃ g', Invariant N R s' g' := by
  obtain ⟨hp, hr, henv⟩ := ha
  simp only [System.step] at h
  split at h
  · rename_i hup
    have hI' := hI.issue hp hr henv
    have hidle : Idle ((s.processes p).registers r) := by
      rcases (hI.registers p r hp hr hup).serving with hidle | ⟨k, o, -, ho, hop, hor, hin, -⟩
      · exact hidle
      · exact absurd hor ((henv k (hI.operations k o ho).lt_count o ho hop).1 hin).1
    have hpend : (s.processes p).pending r = none := by
      cases hpend : (s.processes p).pending r with
      | none => rfl
      | some cmd' =>
        obtain ⟨-, -, ⟨k, o, hin, -⟩, -⟩ := (hI.stable p r hp hr).recovered cmd' hup hpend
        exact absurd hin.register ((henv k (hI.operations k o hin.mem).lt_count o hin.mem
          hin.process).1 hin.inProgress).1
    have hin : InProgressOn (s.issue p r cmd) p r cmd s.count
        ⟨p, r, cmd, s.clock, none, none, false⟩ :=
      ⟨by simp [System.issue], rfl, rfl, rfl, rfl, rfl⟩
    have hrun := handle_clientCommand (N := N) (s := s.issue p r cmd) (p := p) (r := r)
      (k := s.count) cmd
    rw [dispatched_eq_self (s := s.issue p r cmd) hpend] at hrun
    rw [← Option.some.inj (hrun.symm.trans h)]
    refine ⟨_, hI'.start hp hr hup hidle hin rfl fun _ n b hn => ?_⟩
    · obtain ⟨-, o, ho, -⟩ := (hI.phases p r hp hr).owner n s.count b hn
      exact absurd rfl (hI.ne_count ho)
  · simp at h

theorem Invariant.step_reissue (hI : Invariant N R s g)
    (ha : Environment N R s (.reissue p r k)) (h : s.step N R (.reissue p r k) = some s') :
    ∃ g', Invariant N R s' g' := by
  obtain ⟨hp, hr, o, ho, hop, hor, hin, hpend⟩ := ha
  simp only [System.step, hpend] at h
  split at h
  · rename_i hup
    obtain ⟨hidle, hrestarts, ⟨k', o', hin', hfresh⟩, -⟩ :=
      (hI.stable p r hp hr).recovered o.cmd hup hpend
    have hkk : k' = k := hI.identifiers k' o' k o hin'.mem ho (hin'.process.trans hop.symm)
      (by rw [hin'.cmd])
    subst hkk
    rw [handle_clientCommand, Option.some.injEq] at h
    rw [← h]
    exact ⟨_, hI.start hp hr hup hidle hin' hfresh fun h0 => absurd h0 hrestarts⟩
  · simp at h

/-! ## Steps and runs -/

/-- **Every step keeps the invariant.** -/
theorem Invariant.step (hI : Invariant N R s g) {a : Action} (ha : Environment N R s a)
    (hclean : CleanRestart s a) (hwrites : s.writesIssued < 2 ^ 64 - 1)
    (h : s.step N R a = some s') : ∃ g', Invariant N R s' g' := by
  cases a with
  | invoke p r cmd => exact hI.step_invoke ha h
  | reissue p r k => exact hI.step_reissue ha h
  | deliver i r iter =>
    obtain ⟨hr, hh⟩ := ha
    simp only [System.step] at h
    cases hpacket : s.net[i]? with
    | none => simp [hpacket] at h
    | some packet =>
      simp only [hpacket] at h
      split at h
      · rename_i hok
        have hmem : packet ∈ s.net := List.mem_of_getElem? hpacket
        obtain ⟨h1, hN, -⟩ := hI.packets packet hmem
        have hp : IsProcess N (UInt8.ofNat packet.target) := by
          rw [IsProcess, hok.1]
          exact ⟨h1, hN⟩
        exact hI.deliver hp hr hok.2 hmem hok.1 (hh packet hpacket) hwrites h
      · simp at h
  | crash p =>
    simp only [System.step] at h
    split at h
    · rename_i hup
      rw [← Option.some.inj h]
      exact ⟨g, hI.crash hup⟩
    · simp at h
  | recover p =>
    simp only [System.step] at h
    split at h
    · simp at h
    · rename_i hdown
      rw [Bool.not_eq_true] at hdown
      cases hproc : (s.processes p).restart N R p with
      | none => simp [hproc] at h
      | some proc =>
        simp only [hproc] at h
        rw [← Option.some.inj h]
        exact ⟨g, hI.recover hdown hproc hclean⟩

theorem init_invariant (N R : ℕ) :
    Invariant N R (System.init N) ⟨fun _ _ => .zero, fun _ _ => 0, fun _ _ _ => none⟩ where
  operations := by intro k o ho; simp [System.init] at ho
  identifiers := by intro k₁ o₁ k₂ o₂ h₁; simp [System.init] at h₁
  exclusive := by intro k₁ o₁ k₂ o₂ h₁; simp [System.init] at h₁
  ordered := by intro k₁ o₁ k₂ o₂ h₁; simp [System.init] at h₁
  packets := by intro packet hpacket; simp [System.init] at hpacket
  files := fun q sec => .inl ⟨rfl, rfl⟩
  registers := fun p r _ _ _ => ⟨rfl, rfl, rfl, .inl ⟨rfl, rfl, rfl⟩⟩
  stable := fun p r _ _ =>
    ⟨rfl, fun _ _ => rfl, fun cmd _ hc => by simp [System.init] at hc,
      fun hu => by simp [System.init] at hu⟩
  phases := fun p r _ _ => ⟨Nat.zero_le _, fun n k b hn => by simp at hn⟩

/-- An operation keeps its command, so writes are only ever added. -/
theorem writesIssued_mono (hcount : s.count ≤ s'.count)
    (hops : ∀ k < s.count, ∀ o, s.operations k = some o →
      ∃ o', s'.operations k = some o' ∧ o'.cmd = o.cmd) : s.writesIssued ≤ s'.writesIssued := by
  refine Finset.card_le_card fun k hk => ?_
  rw [Finset.mem_filter, Finset.mem_range, Option.any_eq_true] at hk ⊢
  obtain ⟨hk, o, ho, hw⟩ := hk
  obtain ⟨o', ho', hcmd⟩ := hops k hk o ho
  exact ⟨hk.trans_le hcount, o', ho', by rw [hcmd]; exact hw⟩

theorem handle_writesIssued {program : RegisterProgram AtomicRegisterImplementation}
    (h : s.handle N p r program = some s') : s.writesIssued ≤ s'.writesIssued := by
  unfold System.handle at h
  simp only [] at h
  split at h
  · simp at h
  · rename_i register e _
    rw [← Option.some.inj h]
    refine writesIssued_mono (le_refl _) fun k _ o ho => ?_
    show ∃ o', recordHistory _ _ _ s.operations k = some o' ∧ _
    rw [recordHistory, ho]
    exact ⟨_, rfl, rfl⟩

theorem step_writesIssued {a : Action} (h : s.step N R a = some s') :
    s.writesIssued ≤ s'.writesIssued := by
  cases a with
  | invoke p r cmd =>
    simp only [System.step] at h
    split at h
    · have hissue : s.writesIssued ≤ (s.issue p r cmd).writesIssued := by
        refine writesIssued_mono (Nat.le_succ _) fun k hk o ho => ⟨o, ?_, rfl⟩
        simp only [System.issue, Function.update_of_ne hk.ne]
        exact ho
      have hhandle := handle_writesIssued h
      exact hissue.trans hhandle
    · simp at h
  | deliver i r iter =>
    simp only [System.step] at h
    split at h
    · simp at h
    · split at h
      · exact handle_writesIssued h
      · simp at h
  | crash p =>
    simp only [System.step] at h
    split at h
    · rw [← Option.some.inj h]
      refine writesIssued_mono (le_refl _) fun k _ o ho => ?_
      obtain ⟨o', ho', hl⟩ := abortReads_later (p := p) ho
      exact ⟨o', ho', hl.cmd⟩
    · simp at h
  | recover p =>
    simp only [System.step] at h
    split at h
    · simp at h
    · split at h
      · simp at h
      · rw [← Option.some.inj h]
        exact le_refl _
  | reissue p r k =>
    simp only [System.step] at h
    split at h
    · simp at h
    · split at h
      · have hhandle := handle_writesIssued h
        exact hhandle
      · simp at h

/-- The steps of the runs all guarantees are about. -/
def Allowed (N R : ℕ) (s : System) (a : Action) : Prop := Environment N R s a ∧ CleanRestart s a

/-- **The invariant holds along every run** that issues fewer than `2 ^ 64 - 1` writes. -/
theorem exists_invariant
    (hs : Reachable (System.step N R) (Allowed N R) (System.init N) s)
    (hwrites : s.writesIssued < 2 ^ 64 - 1) : ∃ g, Invariant N R s g := by
  have hinv : s.writesIssued < 2 ^ 64 - 1 → ∃ g, Invariant N R s g := by
    refine hs.invariant (fun s => s.writesIssued < 2 ^ 64 - 1 → ∃ g, Invariant N R s g)
      (fun _ => ⟨_, init_invariant N R⟩) ?_
    intro s a s' _ ih ha hstep hw
    have hw' := (step_writesIssued hstep).trans_lt hw
    obtain ⟨g, hI⟩ := ih hw'
    exact hI.step ha.1 ha.2 hw' hstep
  exact hinv hwrites

end Protocol
end AtomicDiscDrive
