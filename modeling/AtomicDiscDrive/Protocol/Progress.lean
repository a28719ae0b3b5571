import AtomicDiscDrive.Protocol.Live

/-!
# Operations can always be completed

The protocol needs a majority and a network that loses nothing: a packet that has been sent
stays there to be delivered, however late. Whatever state a run has come to, an operation in
progress on a live process can then be completed by delivering packets to any majority of
live processes, none of which has to be told anything new (`operation_can_complete`): the
request of its current phase is on the network, each member of the majority answers it, and
with the last of the answers the next phase is open. What the code does when a packet is lost
is another matter (`Network.Stubborn`).
-/

namespace AtomicDiscDrive
namespace Protocol

open Utils AtomicRegisterImplementation

variable {N R : ℕ} {s s' : System} {g : Ghost} {k : ℕ} {o : Operation} {Q : Finset UInt8}
  {q : UInt8} {packet : Packet}

/-- The steps that carry an operation out: packets are delivered, and its command is handed to
its register if it has been recovered. -/
def CarriesOut (N R : ℕ) (k : ℕ) (s : System) (a : Action) : Prop :=
  Allowed N R s a ∧
    match a with
    | .deliver _ _ _ => True
    | .reissue _ _ k' => k' = k
    | _ => False

/-- An operation is being served, and the processes of `Q` are there to answer. -/
structure Engaged (N R : ℕ) (Q : Finset UInt8) (k : ℕ) (o : Operation) (s : System) : Prop where
  reachable : Reachable (System.step N R) (Allowed N R) (System.init N) s
  writes : s.writesIssued < 2 ^ 64 - 1
  room : s.restarts = 0 ∨ s.calls o.process o.register < 2 ^ 63
  up : ∀ q ∈ Q, (s.processes q).up = true
  self : (s.processes o.process).up = true
  operation : s.operations k = some o
  callback : ((s.processes o.process).registers o.register).callback = some k

/-- The register that serves an operation. -/
abbrev System.registerOf (s : System) (o : Operation) : AtomicRegisterImplementation :=
  (s.processes o.process).registers o.register

/-! ## One delivery -/

/-- A packet on the network is handed to a register of its target. -/
theorem reachable_deliver {r : ℕ} (hmem : packet ∈ s.net) (htarget : q.toNat = packet.target)
    (hr : r < R) (hup : (s.processes q).up = true) (hh : IsReply packet.cmd → Handled s packet r)
    (h : s.handle N q r (((s.processes q).registers r).systemCommand .listed packet.cmd) =
      some s') : Reachable (System.step N R) (CarriesOut N R k) s s' := by
  obtain ⟨i, hi⟩ := List.mem_iff_getElem?.mp hmem
  have hq : UInt8.ofNat packet.target = q := by
    rw [← htarget]
    exact UInt8.ofNat_toNat
  have hstep : s.step N R (.deliver i r .listed) = some s' := by
    simp only [System.step, hi, hq]
    rw [if_pos ⟨htarget, hup⟩]
    exact h
  have hallowed : CarriesOut N R k s (.deliver i r .listed) := by
    refine ⟨⟨⟨hr, fun x hx => ?_⟩, trivial⟩, trivial⟩
    obtain rfl : packet = x := Option.some.inj (hi.symm.trans hx)
    exact hh
  exact .step .init hallowed hstep

/-- A handler issues nothing. -/
theorem commit_writesIssued {p : UInt8} {r : ℕ} {register : AtomicRegisterImplementation}
    {e : HandlerEnv} : (s.commit N p r register e).writesIssued = s.writesIssued := by
  unfold System.writesIssued
  refine congrArg Finset.card (Finset.filter_congr fun k _ => ?_)
  show ((recordHistory _ _ _ s.operations k).any fun o => decide (o.cmd.content ≠ .read)) = true ↔ _
  rw [recordHistory]
  cases s.operations k <;> simp

theorem toFinset_keys_insert (l : Readlist) (q : UInt8) (v : UInt64 × UInt8 × SectorVec) :
    (l.insert q v).keys.toFinset = insert q l.keys.toFinset := by
  ext x
  rw [Finset.mem_insert, List.mem_toFinset, List.mem_toFinset, ← AList.mem_keys, ← AList.mem_keys]
  exact AList.mem_insert l

/-- Runs of an operation are runs. -/
theorem CarriesOut.reachable (h : Reachable (System.step N R) (CarriesOut N R k) s s')
    (hs : Reachable (System.step N R) (Allowed N R) (System.init N) s) :
    Reachable (System.step N R) (Allowed N R) (System.init N) s' :=
  hs.trans (h.mono fun _ _ ha => ha.1)

namespace Engaged

variable (h : Engaged N R Q k o s)
include h

/-- A reply of the current phase may be handed to the register. -/
theorem handled (hI : Invariant N R s g) (htarget : o.process.toNat = packet.target)
    (hmsg : packet.cmd.header.msgIdent = o.msgIdent) : Handled s packet o.register := by
  refine ⟨k, (hI.operations k o h.operation).lt_count, o, h.operation, htarget, hmsg.symm, rfl, ?_⟩
  rcases h.room with hrestarts | hcalls
  · refine .inr ⟨hrestarts, fun k' hk' => ?_⟩
    exact Option.some.inj (hk'.symm.trans h.callback)
  · exact .inl hcalls

theorem registerOk (hI : Invariant N R s g) :
    RegisterOk N s g o.process o.register (s.registerOf o) := by
  have hok := hI.operations k o h.operation
  exact hI.registers o.process o.register hok.process hok.register h.self

theorem busy (hI : Invariant N R s g) : (s.registerOf o).Busy = true := by
  rcases (h.registerOk hI).serving with hidle | ⟨k', o', -, -, -, -, -, hserves, -⟩
  · exact absurd hidle (not_idle_of_callback h.callback)
  · exact hserves.busy

/-- An answer to the request of the current phase goes to the register, which takes it for
one. -/
theorem reply_due (hI : Invariant N R s g) (q : UInt8) (content : SystemRegisterCommandContent) :
    o.process.toNat = (replyTo q (requestTo (s.registerOf o) o q) content).target ∧
      Handled s (replyTo q (requestTo (s.registerOf o) o q) content) o.register := by
  have hself : (s.registerOf o).selfIdent = o.process := (h.registerOk hI).selfIdent
  have htarget : o.process.toNat =
      (replyTo q (requestTo (s.registerOf o) o q) content).target := by
    show o.process.toNat = (s.registerOf o).selfIdent.toNat
    rw [hself]
  exact ⟨htarget, h.handled hI htarget rfl⟩

/-- The operation is served on after a handler has run that leaves its callback in place. -/
theorem commit {p : UInt8} {r : ℕ} {register : AtomicRegisterImplementation} {e : HandlerEnv}
    {o' : Operation}
    (hrun : Reachable (System.step N R) (CarriesOut N R k) s (s.commit N p r register e))
    (hprocess : o'.process = o.process) (hregister : o'.register = o.register)
    (hoperation : (s.commit N p r register e).operations k = some o')
    (hcallback : ((s.commit N p r register e).registerOf o).callback = some k) :
    Engaged N R Q k o' (s.commit N p r register e) where
  reachable := CarriesOut.reachable hrun h.reachable
  writes := by
    rw [commit_writesIssued]
    exact h.writes
  room := by
    rw [hprocess, hregister]
    exact h.room
  up := by
    intro q hq
    rw [commit_up_of]
    exact h.up q hq
  self := by
    rw [commit_up_of, hprocess]
    exact h.self
  operation := hoperation
  callback := by
    rw [hprocess, hregister]
    exact hcallback

/-- A member of `Q` answers the request of the current phase. -/
theorem ask (hq : q ∈ Q) (hQ : ∀ q ∈ Q, IsProcess N q) :
    ∃ s' content, Reachable (System.step N R) (CarriesOut N R k) s s' ∧ Engaged N R Q k o s' ∧
      s'.registerOf o = s.registerOf o ∧
      replyTo q (requestTo (s.registerOf o) o q) content ∈ s'.net ∧
      (o.writeProc = none → ∃ value : UInt64 × UInt8 × SectorVec,
        content = .value value.1 value.2.1 value.2.2) ∧
      (o.writeProc ≠ none → content = .ack) := by
  obtain ⟨hL, g, hI⟩ := exists_live h.reachable h.writes
  have hok := hI.operations k o h.operation
  have hR : 0 < R := Nat.zero_lt_of_lt hok.register
  have hmem : requestTo (s.registerOf o) o q ∈ s.net :=
    (hL o.process o.register hok.process hok.register).posted k o h.self h.callback h.operation
      rfl rfl q (hQ q hq)
  have hreg := hI.registers q 0 (hQ q hq) hR (h.up q hq)
  have hrequest : IsReply (requestTo (s.registerOf o) o q).cmd = false := by
    simp only [requestTo, phaseMessage, Operation.request]
    cases o.writeProc <;> rfl
  have hh : IsReply (requestTo (s.registerOf o) o q).cmd →
      Handled s (requestTo (s.registerOf o) o q) 0 := fun hreply => by
    rw [hrequest] at hreply
    simp at hreply
  -- the answering register is not changed, and whatever it answers nothing else is
  have hkeeps : ∀ files packet, Reachable (System.step N R) (CarriesOut N R k) s
      (calmCommit N s q 0 ((s.processes q).registers 0) files [packet]) →
      Engaged N R Q k o (calmCommit N s q 0 ((s.processes q).registers 0) files [packet]) ∧
      (calmCommit N s q 0 ((s.processes q).registers 0) files [packet]).registerOf o =
        s.registerOf o ∧
      packet ∈ (calmCommit N s q 0 ((s.processes q).registers 0) files [packet]).net := by
    intro files packet hrun
    have hregisters : ∀ x, ((calmCommit N s q 0 ((s.processes q).registers 0) files
        [packet]).processes x).registers = (s.processes x).registers := by
      intro x
      by_cases hx : x = q
      · subst hx
        rw [commit_process_self, Function.update_eq_self]
      · rw [commit_process_of_ne hx]
    have hsame : (calmCommit N s q 0 ((s.processes q).registers 0) files [packet]).registerOf o =
        s.registerOf o := by
      rw [System.registerOf, hregisters]
    refine ⟨h.commit hrun rfl rfl ?_ ?_, hsame, ?_⟩
    · rw [calm_operations]
      exact h.operation
    · rw [hsame]
      exact h.callback
    · rw [commit_net]
      simp
  cases hwp : o.writeProc with
  | none =>
    have hcontent : (requestTo (s.registerOf o) o q).cmd.content = .readProc := by
      simp only [requestTo, phaseMessage, Operation.request, hwp]
    have hrun := reachable_deliver (k := k) hmem rfl hR (h.up q hq) hh
      (hreg.handle_readProc hcontent)
    obtain ⟨hengaged, hsame, hreply⟩ := hkeeps _ _ hrun
    exact ⟨_, _, hrun, hengaged, hsame, hreply, fun _ => ⟨(_, _, _), rfl⟩, fun hne => absurd rfl hne⟩
  | some x =>
    obtain ⟨t, d⟩ := x
    have hcontent : (requestTo (s.registerOf o) o q).cmd.content =
        .writeProc t.timestamp t.writeRank d := by
      simp only [requestTo, phaseMessage, Operation.request, hwp]
    have hrun := reachable_deliver (k := k) hmem rfl hR (h.up q hq) hh
      (hreg.handle_writeProc hcontent)
    obtain ⟨hengaged, hsame, hreply⟩ := hkeeps _ _ hrun
    exact ⟨_, _, hrun, hengaged, hsame, hreply, fun hnone => by simp at hnone, fun _ => rfl⟩

/-- A member of `Q` is heard in the read phase: its `Value` opens the write phase, or it is
one more entry of the `readlist` and they are no majority yet. -/
theorem visit_read (hfresh : o.writeProc = none) (hq : q ∈ Q) (hQ : ∀ q ∈ Q, IsProcess N q) :
    ∃ s', Reachable (System.step N R) (CarriesOut N R k) s s' ∧
      ((∃ t d, Engaged N R Q k { o with writeProc := some (t, d) } s') ∨
        Engaged N R Q k o s' ∧
        (s'.registerOf o).readlist.keys.toFinset =
          insert q (s.registerOf o).readlist.keys.toFinset ∧
        2 * (s'.registerOf o).readlist.keys.toFinset.card ≤ N) := by
  obtain ⟨s₁, content, hrun₁, h₁, hsame, hmem, hvalue, -⟩ := h.ask hq hQ
  obtain ⟨value, rfl⟩ := hvalue hfresh
  obtain ⟨g, hI⟩ := exists_invariant h₁.reachable h₁.writes
  have hok := hI.operations k o h₁.operation
  rw [← hsame] at hmem
  obtain ⟨htarget, hh⟩ := h₁.reply_due hI q (.value value.1 value.2.1 value.2.2)
  obtain ⟨s₂, hs₂, hout⟩ :=
    hI.value_outcome .listed hok.process hok.register h₁.self hmem htarget hh value rfl
  have hrun₂ : Reachable (System.step N R) (CarriesOut N R k) s₁ s₂ :=
    reachable_deliver hmem htarget hok.register h₁.self (fun _ => hh) hs₂
  refine ⟨s₂, hrun₁.trans hrun₂, ?_⟩
  cases hout with
  | stale hstale => exact absurd rfl hstale
  | counted hack => simp [replyTo] at hack
  | completed _ _ _ _ _ _ _ _ hack => simp [replyTo] at hack
  | @chose k₀ o₀ register t d hcb ho₀ hop₀ hor₀ hcb' =>
    obtain rfl : k₀ = k := Option.some.inj (hcb.symm.trans h₁.callback)
    obtain rfl : o₀ = o := Option.some.inj (ho₀.symm.trans h₁.operation)
    refine .inl ⟨t, d, h₁.commit hrun₂ rfl rfl ?_ ?_⟩
    · rw [choseTag_operations hcb ho₀, Function.update_self]
    · rw [System.registerOf, commit_registers]
      exact hcb'
  | collected value' hcontent hfew =>
    obtain rfl : value' = value := by
      have hvv : SystemRegisterCommandContent.value value.1 value.2.1 value.2.2 =
          .value value'.1 value'.2.1 value'.2.2 := hcontent
      simp only [SystemRegisterCommandContent.value.injEq] at hvv
      exact Prod.ext hvv.1.symm (Prod.ext hvv.2.1.symm hvv.2.2.symm)
    have hkeys : ((s₁.registerOf o).collect q value').readlist.keys.toFinset =
        insert q (s.registerOf o).readlist.keys.toFinset := by
      rw [← hsame]
      exact toFinset_keys_insert _ q value'
    refine .inr ⟨h₁.commit hrun₂ rfl rfl ?_ ?_, ?_, ?_⟩
    · rw [calm_operations]
      exact h₁.operation
    · rw [System.registerOf, commit_registers]
      exact h₁.callback
    · rw [System.registerOf, commit_registers]
      exact hkeys
    · rw [System.registerOf, commit_registers, Readlist.card_keys]
      have hN : (s₁.registerOf o).processesCount = N := (h₁.registerOk hI).processesCount
      have hfew' : ¬ ((s₁.registerOf o).collect q value').ReadQuorum := fun hq => hfew ⟨h₁.busy hI, hq⟩
      rw [ReadQuorum, not_lt] at hfew'
      rw [← hN]
      exact hfew'

/-- A member of `Q` is heard in the write phase: its `Ack` completes the operation, or it is
one more of too few. -/
theorem visit_write (hchosen : o.writeProc ≠ none) (hq : q ∈ Q) (hQ : ∀ q ∈ Q, IsProcess N q) :
    ∃ s', Reachable (System.step N R) (CarriesOut N R k) s s' ∧
      ((∃ o', s'.operations k = some o' ∧ o'.finish ≠ none) ∨
        Engaged N R Q k o s' ∧ (s'.registerOf o).acks = insert q (s.registerOf o).acks ∧
        2 * (s'.registerOf o).acks.card ≤ N) := by
  obtain ⟨s₁, content, hrun₁, h₁, hsame, hmem, -, hack⟩ := h.ask hq hQ
  obtain rfl := hack hchosen
  obtain ⟨g, hI⟩ := exists_invariant h₁.reachable h₁.writes
  have hok := hI.operations k o h₁.operation
  rw [← hsame] at hmem
  obtain ⟨htarget, hh⟩ := h₁.reply_due hI q .ack
  have hcontent : (replyTo q (requestTo (s₁.registerOf o) o q) .ack).cmd.content = .ack := rfl
  obtain ⟨s₂, hs₂, hout⟩ :=
    hI.ack_outcome .listed hok.process hok.register h₁.self hcontent
  have hrun₂ : Reachable (System.step N R) (CarriesOut N R k) s₁ s₂ :=
    reachable_deliver hmem htarget hok.register h₁.self (fun _ => hh) hs₂
  refine ⟨s₂, hrun₁.trans hrun₂, ?_⟩
  cases hout with
  | stale hstale => exact absurd rfl hstale
  | collected value hvalue => simp [replyTo] at hvalue
  | chose _ _ _ _ _ _ _ _ hvalue => simp [replyTo] at hvalue
  | @completed k₀ o₀ register stable c hcb ho₀ hop₀ hor₀ hidle =>
    obtain rfl : k₀ = k := Option.some.inj (hcb.symm.trans h₁.callback)
    refine .inl ⟨{ o₀ with finish := some (s₁.clock, c) }, ?_, by simp⟩
    rw [completed_operations ho₀, Function.update_self]
  | counted _ hfew =>
    refine .inr ⟨h₁.commit hrun₂ rfl rfl ?_ ?_, ?_, ?_⟩
    · rw [calm_operations]
      exact h₁.operation
    · rw [System.registerOf, commit_registers]
      exact h₁.callback
    · rw [System.registerOf, commit_registers, ← hsame]
      rfl
    · rw [System.registerOf, commit_registers]
      have hN : (s₁.registerOf o).processesCount = N := (h₁.registerOk hI).processesCount
      have hfew' : ¬ ((s₁.registerOf o).count q).AckQuorum := fun hq => hfew ⟨h₁.busy hI, hq⟩
      rw [AckQuorum, not_lt] at hfew'
      rw [← hN]
      exact hfew'

end Engaged

/-! ## The two phases -/

/-- Those heard in the read phase have an entry, and with the last of them there was no
majority. -/
def HeardRead (N R : ℕ) (Q : Finset UInt8) (k : ℕ) (o : Operation) (seen : Finset UInt8)
    (s : System) : Prop :=
  Engaged N R Q k o s ∧ seen ⊆ (s.registerOf o).readlist.keys.toFinset ∧
    (seen.Nonempty → 2 * (s.registerOf o).readlist.keys.toFinset.card ≤ N)

/-- The same in the write phase. -/
def HeardWrite (N R : ℕ) (Q : Finset UInt8) (k : ℕ) (o : Operation) (seen : Finset UInt8)
    (s : System) : Prop :=
  Engaged N R Q k o s ∧ seen ⊆ (s.registerOf o).acks ∧
    (seen.Nonempty → 2 * (s.registerOf o).acks.card ≤ N)

/-- A majority of live processes opens the write phase. -/
theorem Engaged.opens_writePhase (h : Engaged N R Q k o s) (hfresh : o.writeProc = none)
    (hQ : ∀ q ∈ Q, IsProcess N q) (hmajority : N < 2 * Q.card) :
    ∃ s' t d, Reachable (System.step N R) (CarriesOut N R k) s s' ∧
      Engaged N R Q k { o with writeProc := some (t, d) } s' := by
  have hvisit : ∀ seen s, ∀ q ∈ Q, HeardRead N R Q k o seen s →
      ∃ s', Reachable (System.step N R) (CarriesOut N R k) s s' ∧
        ((∃ t d, Engaged N R Q k { o with writeProc := some (t, d) } s') ∨
          HeardRead N R Q k o (insert q seen) s') := by
    rintro seen s₁ q hq ⟨h₁, hseen, -⟩
    obtain ⟨s₂, hrun, hgoal | ⟨h₂, hkeys, hfew⟩⟩ := h₁.visit_read hfresh hq hQ
    · exact ⟨s₂, hrun, .inl hgoal⟩
    · refine ⟨s₂, hrun, .inr ⟨h₂, ?_, fun _ => hfew⟩⟩
      rw [hkeys]
      exact Finset.insert_subset_insert q hseen
  have hstart : HeardRead N R Q k o ∅ s := ⟨h, by simp, by simp⟩
  obtain ⟨s', hrun, ⟨t, d, hgoal⟩ | ⟨-, hseen, hfew⟩⟩ := Reachable.visit_all _ _ hvisit hstart
  · exact ⟨s', t, d, hrun, hgoal⟩
  · -- everyone has been heard, and a majority of entries has not opened the write phase
    have hne : Q.Nonempty := Finset.card_pos.mp (by omega)
    have hcard := Finset.card_le_card hseen
    have := hfew hne
    omega

/-- A majority of live processes completes the operation. -/
theorem Engaged.completes (h : Engaged N R Q k o s) (hchosen : o.writeProc ≠ none)
    (hQ : ∀ q ∈ Q, IsProcess N q) (hmajority : N < 2 * Q.card) :
    ∃ s', Reachable (System.step N R) (CarriesOut N R k) s s' ∧
      ∃ o', s'.operations k = some o' ∧ o'.finish ≠ none := by
  have hvisit : ∀ seen s, ∀ q ∈ Q, HeardWrite N R Q k o seen s →
      ∃ s', Reachable (System.step N R) (CarriesOut N R k) s s' ∧
        ((∃ o', s'.operations k = some o' ∧ o'.finish ≠ none) ∨
          HeardWrite N R Q k o (insert q seen) s') := by
    rintro seen s₁ q hq ⟨h₁, hseen, -⟩
    obtain ⟨s₂, hrun, hgoal | ⟨h₂, hacks, hfew⟩⟩ := h₁.visit_write hchosen hq hQ
    · exact ⟨s₂, hrun, .inl hgoal⟩
    · refine ⟨s₂, hrun, .inr ⟨h₂, ?_, fun _ => hfew⟩⟩
      rw [hacks]
      exact Finset.insert_subset_insert q hseen
  have hstart : HeardWrite N R Q k o ∅ s := ⟨h, by simp, by simp⟩
  obtain ⟨s', hrun, hgoal | ⟨-, hseen, hfew⟩⟩ := Reachable.visit_all _ _ hvisit hstart
  · exact ⟨s', hrun, hgoal⟩
  · have hne : Q.Nonempty := Finset.card_pos.mp (by omega)
    have hcard := Finset.card_le_card hseen
    have := hfew hne
    omega

/-- An operation that is served can be completed, whichever phase it is in. -/
theorem Engaged.can_complete (h : Engaged N R Q k o s) (hQ : ∀ q ∈ Q, IsProcess N q)
    (hmajority : N < 2 * Q.card) :
    ∃ s', Reachable (System.step N R) (CarriesOut N R k) s s' ∧
      ∃ o', s'.operations k = some o' ∧ o'.finish ≠ none := by
  by_cases hfresh : o.writeProc = none
  · obtain ⟨s₁, t, d, hrun₁, h₁⟩ := h.opens_writePhase hfresh hQ hmajority
    obtain ⟨s₂, hrun₂, hgoal⟩ := h₁.completes (by simp) hQ hmajority
    exact ⟨s₂, hrun₁.trans hrun₂, hgoal⟩
  · exact h.completes hfresh hQ hmajority

/-- **Progress.** In every state of every run, an operation in progress on a live process can
be completed by deliveries alone, as long as a majority is up and every packet that has been
sent can still be delivered; if its process has been restarted in between, its command is
handed to its register first. -/
theorem operation_can_complete
    (hs : Reachable (System.step N R) (Allowed N R) (System.init N) s)
    (hwrites : s.writesIssued < 2 ^ 64 - 1) (ho : s.operations k = some o) (hin : o.InProgress)
    (hup : (s.processes o.process).up = true)
    (hroom : s.restarts = 0 ∨ s.calls o.process o.register + 1 < 2 ^ 63)
    (hmajority : Majority (members N) N fun q => (s.processes q).up = true) :
    ∃ s', Reachable (System.step N R) (CarriesOut N R k) s s' ∧
      ∃ o', s'.operations k = some o' ∧ o'.finish ≠ none := by
  obtain ⟨Q, hQmembers, hQup, hcard⟩ := hmajority
  have hQ : ∀ q ∈ Q, IsProcess N q := fun q hq => mem_members.mp (hQmembers hq)
  obtain ⟨hL, g, hI⟩ := exists_live hs hwrites
  have hok := hI.operations k o ho
  rcases (hL o.process o.register hok.process hok.register).served k o ho rfl rfl hin hup with
    hcb | hpend
  · have hengaged : Engaged N R Q k o s :=
      ⟨hs, hwrites, hroom.imp_right fun h => by omega, hQup, hup, ho, hcb⟩
    exact hengaged.can_complete hQ hcard
  · -- the command has been recovered, and is first handed to its register
    have hstep : s.step N R (.reissue o.process o.register k) =
        some (started N s o.process o.register o.cmd k) := by
      simp only [System.step, hpend]
      rw [if_pos hup]
      exact handle_clientCommand o.cmd
    have hallowed : CarriesOut N R k s (.reissue o.process o.register k) :=
      ⟨⟨⟨hok.process, hok.register, o, ho, rfl, rfl, hin, hpend⟩, trivial⟩, rfl⟩
    have hrun : Reachable (System.step N R) (CarriesOut N R k) s
        (started N s o.process o.register o.cmd k) := .step .init hallowed hstep
    have hups : ∀ q, ((started N s o.process o.register o.cmd k).processes q).up =
        (s.processes q).up := by
      intro q
      by_cases hq : q = o.process
      · rw [hq, started_process_self]
      · rw [started_process_of_ne hq]
    have hrestarts : s.restarts ≠ 0 :=
      ((hI.stable o.process o.register hok.process hok.register).recovered o.cmd hup hpend).2.1
    have hengaged : Engaged N R Q k o (started N s o.process o.register o.cmd k) := by
      refine ⟨CarriesOut.reachable hrun hs, ?_, ?_, ?_, ?_, ?_, ?_⟩
      · rw [commit_writesIssued]
        exact hwrites
      · rw [started_calls, Function.update_self, Function.update_self]
        exact .inr (hroom.resolve_left hrestarts)
      · intro q hq
        rw [hups]
        exact hQup q hq
      · rw [hups]
        exact hup
      · rw [started_operations]
        exact ho
      · rw [commit_registers]
        exact startCommand_callback o.cmd k
    obtain ⟨s', hrun', hgoal⟩ := hengaged.can_complete hQ hcard
    exact ⟨s', hrun.trans hrun', hgoal⟩

/-- Process 1 has been given a write, and process 3 is down. -/
def writeWithoutThird : List Action :=
  [.invoke 1 0 ⟨⟨7, 0⟩, .write (.fill 9)⟩, .deliver 0 0 .listed, .crash 3]

set_option maxRecDepth 100000 in
theorem operation_can_complete_two_of_three :
    ∃ s, Reachable (System.step 3 1) (Allowed 3 1) (System.init 3) s ∧
      (s.processes 3).up = false ∧
      ∃ s', Reachable (System.step 3 1) (CarriesOut 3 1 0) s s' ∧
        ∃ o', s'.operations 0 = some o' ∧ o'.finish ≠ none := by
  obtain ⟨s, hs, hwrites, hdown, hrestarts, ⟨h1, h2⟩, o, ho, hin, hprocess⟩ : ∃ s,
      Reachable (System.step 3 1) (Allowed 3 1) (System.init 3) s ∧
      s.writesIssued < 2 ^ 64 - 1 ∧ (s.processes 3).up = false ∧ s.restarts = 0 ∧
      ((s.processes 1).up = true ∧ (s.processes 2).up = true) ∧
      ∃ o ∈ s.operations 0, o.InProgress ∧ o.process = 1 :=
    exists_of_exec writeWithoutThird (by decide +kernel)
  have hmajority : Majority (members 3) 3 fun q => (s.processes q).up = true := by
    refine ⟨{1, 2}, by decide, fun q hq => ?_, by decide⟩
    rw [Finset.mem_insert, Finset.mem_singleton] at hq
    rcases hq with rfl | rfl
    · exact h1
    · exact h2
  refine ⟨s, hs, hdown, operation_can_complete hs hwrites ho hin ?_ (.inl hrestarts) hmajority⟩
  rw [hprocess]
  exact h1

end Protocol
end AtomicDiscDrive
