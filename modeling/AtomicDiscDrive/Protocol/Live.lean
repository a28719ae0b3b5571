import AtomicDiscDrive.Protocol.Outcomes

/-!
# No operation is forgotten

An operation in progress is served by its register; after a crash it is on disc, and after
a restart it waits to be handed to its register again. What the register has last broadcast
is on the network, as it is never taken from there (`LiveAt`). Every step keeps this
(`Live.step`), so it holds along every run (`exists_live`).
-/

namespace AtomicDiscDrive
namespace Protocol

open Utils AtomicRegisterImplementation

variable {N R : ℕ} {s s' : System} {g : Ghost} {p : UInt8} {r : ℕ} {k : ℕ} {o : Operation}
  {packet : Packet} {iter : IterOrder}

/-! ## What is on its way for an operation -/

/-- The message of the phase an operation is in. -/
def Operation.request (o : Operation) : SystemRegisterCommandContent :=
  match o.writeProc with
  | none => .readProc
  | some (t, d) => .writeProc t.timestamp t.writeRank d

/-- The request of the current phase of operation `o`, on its way from `register` to `q`. -/
def requestTo (register : AtomicRegisterImplementation) (o : Operation) (q : UInt8) : Packet :=
  ⟨q.toNat, register.phaseMessage o.msgIdent o.sector o.request⟩

/-- Register `r` of `p` has not forgotten any operation it was given: it serves it, waits
for it to be handed over again, or keeps it on disc; and the request of the phase it is in is
on its way to everyone. -/
structure LiveAt (N : ℕ) (s : System) (p : UInt8) (r : ℕ) : Prop where
  served : ∀ k o, s.operations k = some o → o.process = p → o.register = r → o.InProgress →
    (s.processes p).up = true → ((s.processes p).registers r).callback = some k ∨
      (s.processes p).pending r = some o.cmd
  stored : ∀ k o, s.operations k = some o → o.process = p → o.register = r → o.InProgress →
    (s.processes p).up = false → ∃ d, o.cmd.content = .write d ∧
      ((s.processes p).record r).writing = true ∧
      ((s.processes p).record r).writeval = some ⟨o.cmd.header, d⟩
  posted : ∀ k o, (s.processes p).up = true → ((s.processes p).registers r).callback = some k →
    s.operations k = some o → o.process = p → o.register = r →
    ∀ q, IsProcess N q → requestTo ((s.processes p).registers r) o q ∈ s.net

/-- No operation in progress is forgotten. -/
def Live (N R : ℕ) (s : System) : Prop := ∀ p r, IsProcess N p → r < R → LiveAt N s p r

theorem mem_toAll_of_isProcess {q : UInt8} (hq : IsProcess N q) (cmd : SystemRegisterCommand) :
    (⟨q.toNat, cmd⟩ : Packet) ∈ toAll N cmd := by
  rw [toAll, List.mem_map]
  refine ⟨q.toNat - 1, ?_, ?_⟩
  · rw [List.mem_range]
    omega
  · rw [Nat.sub_add_cancel hq.1]

/-- The operation a register keeps the callback of is one of its own. -/
theorem Invariant.owner (hI : Invariant N R s g) (hp : IsProcess N p) (hr : r < R)
    (hup : (s.processes p).up = true) (hcb : ((s.processes p).registers r).callback = some k) :
    ∃ o, s.operations k = some o ∧ o.process = p ∧ o.register = r ∧ o.InProgress := by
  rcases (hI.registers p r hp hr hup).serving with hidle | ⟨k', o, hcb', ho, hop, hor, hin, -⟩
  · exact absurd hidle (not_idle_of_callback hcb)
  · have hkk : k' = k := Option.some.inj (hcb'.symm.trans hcb)
    exact ⟨o, hkk ▸ ho, hop, hor, hin⟩

/-- A register nothing has happened to. -/
theorem LiveAt.same {q : UInt8} {r' : ℕ} (h : LiveAt N s q r')
    (hregister : (s'.processes q).registers r' = (s.processes q).registers r')
    (hpending : (s'.processes q).pending r' = (s.processes q).pending r')
    (hrecord : (s'.processes q).record r' = (s.processes q).record r')
    (hup : (s'.processes q).up = (s.processes q).up)
    (hops : ∀ k o, s'.operations k = some o → o.process = q → o.register = r' → o.InProgress →
      s.operations k = some o)
    (hcallback : ∀ k o, ((s.processes q).registers r').callback = some k →
      s'.operations k = some o → o.process = q → o.register = r' → s.operations k = some o)
    (hnet : ∀ packet ∈ s.net, packet ∈ s'.net) : LiveAt N s' q r' := by
  constructor
  · intro k o ho hop hor hin
    rw [hregister, hpending, hup]
    exact h.served k o (hops k o ho hop hor hin) hop hor hin
  · intro k o ho hop hor hin
    rw [hrecord, hup]
    exact h.stored k o (hops k o ho hop hor hin) hop hor hin
  · intro k o
    rw [hregister, hup]
    intro hupq hcb ho hop hor x hx
    exact hnet _ (h.posted k o hupq hcb (hcallback k o hcb ho hop hor) hop hor x hx)

/-- A register serves one operation at a time. -/
theorem LiveAt.eq_of_callback (h : LiveAt N s p r) (hI : Invariant N R s g) (hp : IsProcess N p)
    (hr : r < R) (hup : (s.processes p).up = true)
    (hcb : ((s.processes p).registers r).callback = some k) {k' : ℕ} {o' : Operation}
    (ho' : s.operations k' = some o') (hop : o'.process = p) (hor : o'.register = r)
    (hin : o'.InProgress) : k' = k := by
  rcases h.served k' o' ho' hop hor hin hup with hcb' | hpend
  · exact Option.some.inj (hcb'.symm.trans hcb)
  · rw [hI.pending_none hp hr hup (not_idle_of_callback hcb)] at hpend
    simp at hpend

/-! ## Deliveries -/

/-- What a delivery does, as far as the operation of the register is concerned. -/
inductive Moved (N : ℕ) (s : System) (p : UInt8) (r : ℕ) : System → Prop where
  | calm (register : AtomicRegisterImplementation) (files : SectorFiles) (sends : List Packet)
      (hcb : register.callback = ((s.processes p).registers r).callback)
      (hself : register.selfIdent = ((s.processes p).registers r).selfIdent)
      (hstate : register.state = ((s.processes p).registers r).state) :
      Moved N s p r (calmCommit N s p r register files sends)
  | chose {k : ℕ} {o : Operation} (register : AtomicRegisterImplementation) (t : Tag)
      (d : SectorVec) (hcb : ((s.processes p).registers r).callback = some k)
      (ho : s.operations k = some o) (hop : o.process = p) (hor : o.register = r)
      (hcb' : register.callback = some k) :
      Moved N s p r (choseTag N s p r o register t d)
  | completed {k : ℕ} {o : Operation} (register : AtomicRegisterImplementation)
      (stable : Option AtomicRegisterStorageState) (c : OperationComplete)
      (hcb : ((s.processes p).registers r).callback = some k) (ho : s.operations k = some o)
      (hop : o.process = p) (hor : o.register = r) (hidle : Idle register) :
      Moved N s p r (completed N s p r k register stable c)

theorem Outcome.moved (h : Outcome N s p r packet s') : Moved N s p r s' := by
  cases h with
  | stale hid => exact .calm _ _ _ rfl rfl rfl
  | collected value hcontent hfew => exact .calm _ _ _ rfl rfl rfl
  | counted hcontent hfew => exact .calm _ _ _ rfl rfl rfl
  | chose register t d hcb ho hop hor hcb' _ => exact .chose register t d hcb ho hop hor hcb'
  | completed register stable c hcb ho hop hor hidle _ =>
    exact .completed register stable c hcb ho hop hor hidle

theorem Invariant.moved (hI : Invariant N R s g) (hp : IsProcess N p) (hr : r < R)
    (hup : (s.processes p).up = true) (hmem : packet ∈ s.net) (htarget : p.toNat = packet.target)
    (hh : IsReply packet.cmd → Handled s packet r) :
    ∃ s', s.handle N p r (((s.processes p).registers r).systemCommand iter packet.cmd) = some s' ∧
      Moved N s p r s' := by
  have hreg := hI.registers p r hp hr hup
  cases hcontent : packet.cmd.content with
  | readProc => exact ⟨_, hreg.handle_readProc hcontent, .calm _ _ _ rfl rfl rfl⟩
  | writeProc ts wr d =>
    exact ⟨_, hreg.handle_writeProc (t := ⟨ts, wr⟩) hcontent, .calm _ _ _ rfl rfl rfl⟩
  | value ts wr d =>
    have hreply : IsReply packet.cmd = true := by simp [IsReply, hcontent]
    obtain ⟨s', hs', hout⟩ :=
      hI.value_outcome iter hp hr hup hmem htarget (hh hreply) (ts, wr, d) hcontent
    exact ⟨s', hs', hout.moved⟩
  | ack =>
    obtain ⟨s', hs', hout⟩ := hI.ack_outcome iter hp hr hup hcontent
    exact ⟨s', hs', hout.moved⟩

section Frame

variable {register : AtomicRegisterImplementation} {e : HandlerEnv}

theorem commit_up_of (q : UInt8) :
    ((s.commit N p r register e).processes q).up = (s.processes q).up := by
  by_cases hq : q = p
  · subst hq
    exact commit_up
  · rw [commit_process_of_ne hq]

theorem mem_commit_net (h : packet ∈ s.net) : packet ∈ (s.commit N p r register e).net := by
  rw [commit_net, List.append_assoc]
  exact List.mem_append_left _ h

/-- A handler leaves the operations of other registers alone, if it does so for the one whose
callback its register keeps. -/
theorem LiveAt.commit_of_ne {q : UInt8} {r' : ℕ} (h : LiveAt N s q r') (hne : q ≠ p ∨ r' ≠ r)
    (hops : ∀ k o, (s.commit N p r register e).operations k = some o → o.process = q →
      o.register = r' → s.operations k = some o) :
    LiveAt N (s.commit N p r register e) q r' := by
  have hproc : ((s.commit N p r register e).processes q).registers r' =
      (s.processes q).registers r' ∧
      ((s.commit N p r register e).processes q).pending r' = (s.processes q).pending r' ∧
      ((s.commit N p r register e).processes q).record r' = (s.processes q).record r' ∧
      ((s.commit N p r register e).processes q).up = (s.processes q).up := by
    by_cases hq : q = p
    · subst hq
      have hr : r' ≠ r := hne.resolve_left (by simp)
      rw [commit_process_self]
      simp [hr, Process.record]
    · rw [commit_process_of_ne hq]
      exact ⟨rfl, rfl, rfl, rfl⟩
  exact h.same hproc.1 hproc.2.1 hproc.2.2.1 hproc.2.2.2
    (fun k o ho hop hor _ => hops k o ho hop hor) (fun k o _ ho hop hor => hops k o ho hop hor)
    fun _ hpacket => mem_commit_net hpacket

end Frame

theorem Live.moved (hL : Live N R s) (hI : Invariant N R s g) (hp : IsProcess N p) (hr : r < R)
    (hup : (s.processes p).up = true) (h : Moved N s p r s') : Live N R s' := by
  intro q r' hq hr'
  have hself := hL p r hp hr
  cases h with
  | calm register files sends hcb hident hstate =>
    by_cases hne : q ≠ p ∨ r' ≠ r
    · refine (hL q r' hq hr').commit_of_ne hne fun k o ho _ _ => ?_
      rw [calm_operations] at ho
      exact ho
    · simp only [not_or, not_not] at hne
      obtain ⟨rfl, rfl⟩ := hne
      constructor
      · rw [calm_operations, commit_registers, commit_pending, commit_up, hcb]
        exact hself.served
      · rw [commit_up, hup]
        simp
      · rw [calm_operations, commit_registers, commit_up, hcb]
        intro k o hu hk ho hop hor x hx
        -- the request carries the name of the register and the phase it is in
        have hsame : requestTo register o x = requestTo ((s.processes q).registers r') o x := by
          simp only [requestTo, phaseMessage, hident, hstate]
        rw [hsame]
        exact mem_commit_net (hself.posted k o hu hk ho hop hor x hx)
  | @chose k₀ o₀ register t d hcb ho₀ hop₀ hor₀ hcb' =>
    have hops : (choseTag N s p r o₀ register t d).operations =
        Function.update s.operations k₀ (some { o₀ with writeProc := some (t, d) }) :=
      choseTag_operations hcb ho₀
    by_cases hne : q ≠ p ∨ r' ≠ r
    · refine (hL q r' hq hr').commit_of_ne hne fun k o ho hop hor => ?_
      rw [hops] at ho
      rcases update_cases ho with ⟨-, rfl⟩ | ⟨-, ho⟩
      · rw [← hop, ← hor] at hne
        simp [hop₀, hor₀] at hne
      · exact ho
    · simp only [not_or, not_not] at hne
      obtain ⟨rfl, rfl⟩ := hne
      constructor
      · rw [hops, commit_registers, hcb']
        intro k o ho hop hor hin _
        rcases update_cases ho with ⟨rfl, -⟩ | ⟨-, ho⟩
        · exact .inl rfl
        · rw [hself.eq_of_callback hI hp hr hup hcb ho hop hor hin]
          exact .inl rfl
      · rw [commit_up, hup]
        simp
      · rw [hops, commit_registers, hcb']
        intro k o _ hk ho _ _ x hx
        obtain rfl : k₀ = k := Option.some.inj hk
        rw [Function.update_self, Option.some.injEq] at ho
        rw [commit_net, ← ho, List.flatMap_singleton]
        exact List.mem_append_right _ (mem_toAll_of_isProcess hx _)
  | @completed k₀ o₀ register stable c hcb ho₀ hop₀ hor₀ hidle =>
    have hops : (completed N s p r k₀ register stable c).operations =
        Function.update s.operations k₀ (some { o₀ with finish := some (s.clock, c) }) :=
      completed_operations ho₀
    by_cases hne : q ≠ p ∨ r' ≠ r
    · refine (hL q r' hq hr').commit_of_ne hne fun k o ho hop hor => ?_
      rw [hops] at ho
      rcases update_cases ho with ⟨-, rfl⟩ | ⟨-, ho⟩
      · rw [← hop, ← hor] at hne
        simp [hop₀, hor₀] at hne
      · exact ho
    · simp only [not_or, not_not] at hne
      obtain ⟨rfl, rfl⟩ := hne
      constructor
      · rw [hops]
        intro k o ho hop hor hin _
        rcases update_cases ho with ⟨-, rfl⟩ | ⟨hk, ho⟩
        · exact absurd hin.1 (by simp)
        · exact absurd (hself.eq_of_callback hI hp hr hup hcb ho hop hor hin) hk
      · rw [commit_up, hup]
        simp
      · rw [commit_registers, hidle.2.2]
        intro k o _ hk
        simp at hk

/-! ## Client commands, crashes and restarts -/

theorem startCommand_callback {self : AtomicRegisterImplementation} (cmd : ClientRegisterCommand)
    (k : ℕ) : (self.startCommand cmd k).callback = some k := by
  unfold startCommand
  cases cmd.content <;> rfl

section Start

variable {cmd : ClientRegisterCommand}

theorem LiveAt.started_of_ne {q : UInt8} {r' : ℕ} (h : LiveAt N s q r') (hne : q ≠ p ∨ r' ≠ r) :
    LiveAt N (started N s p r cmd k) q r' := by
  have hbase : LiveAt N ((s.dispatched p r).called p r) q r' := by
    have hproc : (((s.dispatched p r).called p r).processes q).registers r' =
        (s.processes q).registers r' ∧
        (((s.dispatched p r).called p r).processes q).pending r' = (s.processes q).pending r' ∧
        (((s.dispatched p r).called p r).processes q).record r' = (s.processes q).record r' ∧
        (((s.dispatched p r).called p r).processes q).up = (s.processes q).up := by
      by_cases hq : q = p
      · subst hq
        have hr : r' ≠ r := hne.resolve_left (by simp)
        simp [System.dispatched, System.called, hr, Process.record]
      · simp [System.dispatched, System.called, hq]
    exact h.same hproc.1 hproc.2.1 hproc.2.2.1 hproc.2.2.2 (fun k o ho _ _ _ => ho)
      (fun k o _ ho _ _ => ho) fun _ hpacket => hpacket
  refine hbase.commit_of_ne hne fun k' o ho _ _ => ?_
  have hops : (started N s p r cmd k).operations = s.operations := started_operations
  rw [hops] at ho
  exact ho

/-- A register that is given the only operation in progress on it. -/
theorem liveAt_started (hup : (s.processes p).up = true) (hin : InProgressOn s p r cmd k o)
    (hfresh : o.writeProc = none)
    (honly : ∀ k' o', s.operations k' = some o' → o'.process = p → o'.register = r →
      o'.InProgress → k' = k) : LiveAt N (started N s p r cmd k) p r := by
  have hops : (started N s p r cmd k).operations = s.operations := started_operations
  have hcb : (((s.processes p).registers r).startCommand cmd k).callback = some k :=
    startCommand_callback cmd k
  constructor
  · rw [hops, commit_registers, hcb]
    intro k' o' ho' hop hor hin' _
    rw [honly k' o' ho' hop hor hin']
    exact .inl rfl
  · have hu : ((started N s p r cmd k).processes p).up = true := by
      rw [started_process_self]
      exact hup
    rw [hu]
    simp
  · rw [hops, commit_registers, hcb]
    intro k' o' _ hk ho' _ _ x hx
    obtain rfl : k = k' := Option.some.inj hk
    obtain rfl : o = o' := Option.some.inj (hin.mem.symm.trans ho')
    have hrequest : requestTo (((s.processes p).registers r).startCommand cmd k) o x =
        ⟨x.toNat, (((s.processes p).registers r).startCommand cmd k).phaseMessage
          (.fromRequest cmd.header.requestIdentifier) cmd.header.sectorIdx .readProc⟩ := by
      rw [requestTo, Operation.request, hfresh, ← hin.cmd]
    rw [commit_net, hrequest, List.flatMap_singleton]
    exact List.mem_append_right _ (mem_toAll_of_isProcess hx _)

end Start

theorem Live.invoke {cmd : ClientRegisterCommand} (hL : Live N R s) (hI : Invariant N R s g)
    (ha : Environment N R s (.invoke p r cmd)) (h : s.step N R (.invoke p r cmd) = some s') :
    Live N R s' := by
  obtain ⟨hp, hr, henv⟩ := ha
  simp only [System.step] at h
  split at h
  case isFalse => simp at h
  rename_i hup
  -- nothing waits to be handed to the register, as that would be in progress on it
  have hpend : (s.processes p).pending r = none := by
    cases hpend : (s.processes p).pending r with
    | none => rfl
    | some cmd' =>
      obtain ⟨-, -, ⟨k, o, hin, -⟩, -⟩ := (hI.stable p r hp hr).recovered cmd' hup hpend
      exact absurd hin.register ((henv k (hI.operations k o hin.mem).lt_count o hin.mem
        hin.process).1 hin.inProgress).1
  have hrun : ((s.issue p r cmd).called p r).handle N p r
      (((s.processes p).registers r).clientCommand cmd s.count) =
      some (started N (s.issue p r cmd) p r cmd s.count) := by
    have hrun := handle_clientCommand (N := N) (s := s.issue p r cmd) (p := p) (r := r)
      (k := s.count) cmd
    rw [dispatched_eq_self (s := s.issue p r cmd) hpend] at hrun
    exact hrun
  rw [hrun, Option.some.injEq] at h
  rw [← h]
  intro q r' hq hr'
  by_cases hne : q ≠ p ∨ r' ≠ r
  · refine LiveAt.started_of_ne ?_ hne
    refine (hL q r' hq hr').same rfl rfl rfl rfl (fun k o ho hop hor _ => ?_)
      (fun k o _ ho hop hor => ?_) fun _ hpacket => hpacket
    all_goals
      rcases issue_cases ho with ⟨-, ho⟩ | ⟨-, rfl⟩
      · exact ho
      · rw [← hop, ← hor] at hne
        simp at hne
  · simp only [not_or, not_not] at hne
    obtain ⟨rfl, rfl⟩ := hne
    have hin : InProgressOn (s.issue q r' cmd) q r' cmd s.count
        ⟨q, r', cmd, s.clock, none, none, false⟩ :=
      ⟨by simp [System.issue], rfl, rfl, rfl, rfl, rfl⟩
    refine liveAt_started hup hin rfl fun k' o' ho' hop hor hin' => ?_
    rcases issue_cases ho' with ⟨-, ho'⟩ | ⟨hk, -⟩
    · exact absurd hor ((henv k' (hI.operations k' o' ho').lt_count o' ho' hop).1 hin').1
    · exact hk

theorem Live.reissue (hL : Live N R s) (hI : Invariant N R s g)
    (ha : Environment N R s (.reissue p r k)) (h : s.step N R (.reissue p r k) = some s') :
    Live N R s' := by
  obtain ⟨hp, hr, o, ho, hop, hor, hin, hpend⟩ := ha
  simp only [System.step, hpend] at h
  split at h
  case isFalse => simp at h
  rename_i hup
  obtain ⟨hidle, -, ⟨k', o', hin', hfresh⟩, -⟩ :=
    (hI.stable p r hp hr).recovered o.cmd hup hpend
  have hkk : k' = k := hI.identifiers k' o' k o hin'.mem ho (hin'.process.trans hop.symm)
    (by rw [hin'.cmd])
  subst hkk
  rw [handle_clientCommand, Option.some.injEq] at h
  rw [← h]
  intro q r' hq hr'
  by_cases hne : q ≠ p ∨ r' ≠ r
  · exact (hL q r' hq hr').started_of_ne hne
  · simp only [not_or, not_not] at hne
    obtain ⟨rfl, rfl⟩ := hne
    refine liveAt_started hup hin' hfresh fun k₁ o₁ ho₁ hop₁ hor₁ hin₁ => ?_
    -- an idle register serves nothing, and one command waits for it
    rcases (hL q r' hp hr).served k₁ o₁ ho₁ hop₁ hor₁ hin₁ hup with hcb | hpend₁
    · exact absurd hidle (not_idle_of_callback hcb)
    · have hcmd : o₁.cmd = o.cmd := Option.some.inj (hpend₁.symm.trans hpend)
      exact hI.identifiers k₁ o₁ k' o ho₁ ho (hop₁.trans hop.symm) (by rw [hcmd])

/-- What a crash of `p` leaves alone: the operations of others, and its writes. -/
theorem abortReads_eq_some {operations : ℕ → Option Operation}
    (h : abortReads p operations k = some o) (hin : o.process ≠ p ∨ o.InProgress) :
    operations k = some o ∧ (o.process = p → o.cmd.content ≠ .read) := by
  rw [abortReads, Option.map_eq_some_iff] at h
  obtain ⟨o₁, ho₁, h⟩ := h
  split at h
  · rename_i hread
    subst h
    rcases hin with hne | hin
    · exact absurd hread.1 hne
    · exact absurd hin.2 (by simp)
  · rename_i hother
    subst h
    refine ⟨ho₁, fun hp hread => hother ⟨hp, ?_, hread⟩⟩
    rcases hin with hne | hin
    · exact absurd hp hne
    · exact hin.1

theorem Live.crash (hL : Live N R s) (hI : Invariant N R s g)
    (hup : (s.processes p).up = true) : Live N R (crashed s p) := by
  intro q r' hq hr'
  by_cases hqp : q = p
  · subst hqp
    have hdown : ((crashed s q).processes q).up = false := by simp
    have hrecord : ((crashed s q).processes q).record r' = (s.processes q).record r' := by
      simp [Process.record]
    constructor
    · rw [hdown]
      simp
    · intro k o ho hop hor hin _
      obtain ⟨ho, hwrite⟩ := abortReads_eq_some ho (.inr hin)
      obtain ⟨d, hd⟩ := (content_cases o.cmd).resolve_left (hwrite hop)
      have hst := hI.stable q r' hq hr'
      rw [hrecord]
      refine ⟨d, hd, ?_⟩
      -- a write that is served is stored, and so is one that waits to be handed over again
      rcases (hL q r' hq hr').served k o ho hop hor hin hup with hcb | hpend
      · rw [hst.served hup (hI.pending_none hq hr' hup (not_idle_of_callback hcb))]
        rcases (hI.registers q r' hq hr' hup).serving with hidle | ⟨k', o', hcb', ho', -, -, -, hs, -⟩
        · exact absurd hidle (not_idle_of_callback hcb)
        · obtain rfl : k' = k := Option.some.inj (hcb'.symm.trans hcb)
          obtain rfl : o' = o := Option.some.inj (ho'.symm.trans ho)
          unfold Serves at hs
          simp only [hd] at hs
          exact hs.2
      · obtain ⟨-, -, -, d', hd', hrec⟩ := hst.recovered o.cmd hup hpend
        have hdd : d' = d := by simpa using hd'.symm.trans hd
        rw [← hdd]
        exact hrec
    · rw [hdown]
      simp
  · have hsame := crashed_process_of_ne (s := s) hqp
    refine (hL q r' hq hr').same (by rw [hsame]) (by rw [hsame]) (by rw [hsame]) (by rw [hsame])
      (fun k o ho hop hor hin => ?_) (fun k o _ ho hop hor => ?_) fun _ hpacket => hpacket
    · exact (abortReads_eq_some ho (.inr hin)).1
    · exact (abortReads_eq_some ho (.inl (by rw [hop]; exact hqp))).1

theorem Live.recover (hL : Live N R s) {proc : Process} (hdown : (s.processes p).up = false)
    (hproc : (s.processes p).restart N R p = some proc) : Live N R (restarted s p proc) := by
  obtain ⟨-, -, hup, hrestored⟩ := restart_cases hproc
  intro q r' hq hr'
  by_cases hqp : q = p
  · subst hqp
    have hself : (restarted s q proc).processes q = proc := by simp
    obtain ⟨-, -, -, hidle, hcase⟩ := restored_cases (hrestored r' hr')
    constructor
    · rw [hself]
      intro k o ho hop hor hin _
      obtain ⟨d, hd, hw, hval⟩ := (hL q r' hq hr').stored k o ho hop hor hin hdown
      rcases hcase with ⟨hw', -⟩ | ⟨w, -, hval', hpend⟩
      · rw [hw] at hw'
        simp at hw'
      · have hww : w = ⟨o.cmd.header, d⟩ := Option.some.inj (hval'.symm.trans hval)
        rw [hpend, hww, ← hd]
        exact .inr rfl
    · rw [hself, hup]
      simp
    · rw [hself, hidle.2.2]
      intro k o _ hk
      simp at hk
  · have hsame : (restarted s p proc).processes q = s.processes q := by simp [hqp]
    exact (hL q r' hq hr').same (by rw [hsame]) (by rw [hsame]) (by rw [hsame]) (by rw [hsame])
      (fun k o ho _ _ _ => ho) (fun k o _ ho _ _ => ho) fun _ hpacket => hpacket

theorem Live.step (hL : Live N R s) (hI : Invariant N R s g) {a : Action}
    (ha : Environment N R s a) (h : s.step N R a = some s') : Live N R s' := by
  cases a with
  | invoke p r cmd => exact hL.invoke hI ha h
  | reissue p r k => exact hL.reissue hI ha h
  | deliver i r iter =>
    obtain ⟨hr, hh⟩ := ha
    simp only [System.step] at h
    cases hpacket : s.net[i]? with
    | none => simp [hpacket] at h
    | some packet =>
      simp only [hpacket] at h
      split at h
      · rename_i hok
        have hmem : packet ∈ s.net := List.mem_of_getElem? hpacket
        obtain ⟨h1, hN, -⟩ := hI.packets packet hmem
        have hp : IsProcess N (UInt8.ofNat packet.target) := by
          rw [IsProcess, hok.1]
          exact ⟨h1, hN⟩
        obtain ⟨s'', hs'', hmoved⟩ := hI.moved hp hr hok.2 hmem hok.1 (hh packet hpacket)
        rw [hs'', Option.some.injEq] at h
        exact hL.moved hI hp hr hok.2 (h ▸ hmoved)
      · simp at h
  | crash p =>
    simp only [System.step] at h
    split at h
    · rename_i hup
      rw [← Option.some.inj h]
      exact hL.crash hI hup
    · simp at h
  | recover p =>
    simp only [System.step] at h
    split at h
    · simp at h
    · rename_i hdown
      rw [Bool.not_eq_true] at hdown
      cases hproc : (s.processes p).restart N R p with
      | none => simp [hproc] at h
      | some proc =>
        simp only [hproc] at h
        rw [← Option.some.inj h]
        exact hL.recover hdown hproc

theorem init_live (N R : ℕ) : Live N R (System.init N) := by
  intro p r _ _
  constructor
  · intro k o ho
    simp [System.init] at ho
  · intro k o ho
    simp [System.init] at ho
  · intro k o _ _ ho
    simp [System.init] at ho

/-- **No operation is forgotten along a run.** -/
theorem exists_live (hs : Reachable (System.step N R) (Allowed N R) (System.init N) s)
    (hwrites : s.writesIssued < 2 ^ 64 - 1) : Live N R s ∧ ∃ g, Invariant N R s g := by
  have hlive : s.writesIssued < 2 ^ 64 - 1 → Live N R s ∧ ∃ g, Invariant N R s g := by
    refine hs.invariant
      (fun s => s.writesIssued < 2 ^ 64 - 1 → Live N R s ∧ ∃ g, Invariant N R s g)
      (fun _ => ⟨init_live N R, _, init_invariant N R⟩) ?_
    intro s a s' _ ih ha hstep hw
    have hw' := (step_writesIssued hstep).trans_lt hw
    obtain ⟨hL, g, hI⟩ := ih hw'
    exact ⟨hL.step hI ha.1 hstep, hI.step ha.1 ha.2 hw' hstep⟩
  exact hlive hwrites

end Protocol
end AtomicDiscDrive
