import AtomicDiscDrive.Executor.Rounds

/-!
# What a register counts

The entries of `readlist` and `acks` are replies that have arrived at the process, for this
register and under its current `read_ident` (`TallyAt`): a reply is entered when its handler
returns, and a new phase begins with empty collections.

What has arrived is a parameter here: `Sent cmd o` says that the system command has been sent
to this process, as the broadcast `o` or in answer to it. All that is asked of it is that a
reply answers a broadcast of this process.
-/

namespace AtomicDiscDrive
namespace Executor

open Utils AtomicRegisterImplementation

/-! ## Handlers -/

/-- The message is a `Value` of the phase, with the entry `v` of process `q`. -/
def Enters (readIdent : UInt64) (msg : WorkerMessage) (q : UInt8) (v : UInt64 × UInt8 × SectorVec)
    (o : Origin) : Prop :=
  ∃ header, msg = .system ⟨header, .value v.1 v.2.1 v.2.2⟩ o ∧ header.readIdent = readIdent ∧
    header.processIdentifier = q

/-- The message is an `Ack` of the phase, from process `q`. -/
def Acknowledges (readIdent : UInt64) (msg : WorkerMessage) (q : UInt8) (o : Origin) : Prop :=
  ∃ header, msg = .system ⟨header, .ack⟩ o ∧ header.readIdent = readIdent ∧
    header.processIdentifier = q

/-- What the handler of a message will leave in the collections is the message or was there. -/
structure Tally (register : AtomicRegisterImplementation) (msg : WorkerMessage)
    (final : AtomicRegisterImplementation) : Prop where
  values : ∀ q v, final.readlist.lookup q = some v →
    final.state.readIdent = register.state.readIdent ∧
    ((∃ o, Enters register.state.readIdent msg q v o) ∨ register.readlist.lookup q = some v ∧
      ∀ v' o, ¬ Enters register.state.readIdent msg q v' o)
  acks : ∀ q ∈ final.acks, final.state.readIdent = register.state.readIdent ∧
    ((∃ o, Acknowledges register.state.readIdent msg q o) ∨ q ∈ register.acks ∧
      ∀ o, ¬ Acknowledges register.state.readIdent msg q o)

section

variable {register final : AtomicRegisterImplementation} {msg : WorkerMessage}
  {ops : List RegisterOp}

/-- A handler that leaves the collections alone, on a message that is not of the phase. -/
theorem Tally.of_same (hround : final.state.readIdent = register.state.readIdent)
    (hreadlist : final.readlist = register.readlist) (hacks : final.acks ⊆ register.acks)
    (hvalue : ∀ q v o, ¬ Enters register.state.readIdent msg q v o)
    (hack : ∀ q o, q ∈ final.acks → ¬ Acknowledges register.state.readIdent msg q o) :
    Tally register msg final := by
  refine ⟨fun q v hv => ⟨hround, .inr ⟨hreadlist ▸ hv, hvalue q⟩⟩, fun q hq => ⟨hround, .inr ?_⟩⟩
  exact ⟨hacks hq, fun o => hack q o hq⟩

/-- A new phase begins with empty collections. -/
theorem Tally.of_empty (hreadlist : final.readlist = ∅) (hacks : final.acks = ∅) :
    Tally register msg final := by
  refine ⟨fun q v hv => ?_, fun q hq => ?_⟩
  · rw [hreadlist, AList.lookup_empty] at hv
    cases hv
  · rw [hacks] at hq
    exact absurd hq (Finset.notMem_empty q)

theorem Outcome.tally (h : Outcome register msg ops final) : Tally register msg final := by
  have hvalue : ∀ {header o} q v o', ¬ Enters register.state.readIdent
      (.system ⟨header, .ack⟩ o) q v o' := by
    rintro header o q v o' ⟨_, hmsg, -⟩
    cases hmsg
  cases h with
  | client cmd t =>
    obtain ⟨header, content⟩ := cmd
    cases content <;> exact .of_empty rfl rfl
  | @quiet cmd o hquiet =>
    refine .of_same rfl rfl (Finset.Subset.refl _) ?_ ?_
    · rintro q v o' ⟨header, hmsg, hid, -⟩
      cases hmsg
      exact hquiet.elim Bool.noConfusion fun hne => hne hid
    · rintro q o' - ⟨header, hmsg, hid, -⟩
      cases hmsg
      exact hquiet.elim Bool.noConfusion fun hne => hne hid
  | @collected header ts wr data o hid =>
    refine ⟨fun q v hv => ⟨rfl, ?_⟩, fun q hq => ⟨rfl, .inr ⟨hq, ?_⟩⟩⟩
    · by_cases hq : q = header.processIdentifier
      · subst hq
        simp only [collect, AList.lookup_insert, Option.some.injEq] at hv
        subst hv
        exact .inl ⟨o, header, rfl, hid, rfl⟩
      · refine .inr ⟨(AList.lookup_insert_ne hq).symm.trans hv, ?_⟩
        rintro v' o' ⟨_, hmsg, -, rfl⟩
        cases hmsg
        exact hq rfl
    · rintro o' ⟨_, hmsg, -⟩
      cases hmsg
  | read o hid hreading hmax hval => exact .of_empty rfl rfl
  | write o hid hreading hwriting hval => exact .of_empty rfl rfl
  | @counted header o hid =>
    refine ⟨fun q v hv => ⟨rfl, .inr ⟨hv, hvalue q⟩⟩, fun q hq => ⟨rfl, ?_⟩⟩
    by_cases heq : q = header.processIdentifier
    · exact .inl ⟨o, header, rfl, hid, heq.symm⟩
    · refine .inr ⟨(Finset.mem_insert.mp hq).resolve_left heq, ?_⟩
      rintro o' ⟨_, hmsg, -, rfl⟩
      cases hmsg
      exact heq rfl
  | readDone o hid hreading hval =>
    exact .of_same rfl rfl (Finset.empty_subset _) hvalue fun q _ hq =>
      absurd hq (Finset.notMem_empty q)
  | writeDone o hid hreading hwriting hval =>
    exact .of_same rfl rfl (Finset.empty_subset _) hvalue fun q _ hq =>
      absurd hq (Finset.notMem_empty q)

end

section

variable {b : Bank} {i : ℕ} {msg : WorkerMessage} (register : AtomicRegisterImplementation)

theorem valueFrom_returned_enters {q : UInt8} {v : UInt64 × UInt8 × SectorVec} {o : Origin}
    (h : Enters (b.registers i).state.readIdent msg q v o) :
    (b.returned i msg register).valueFrom i q = some o := by
  obtain ⟨header, rfl, hid, rfl⟩ := h
  simp [Bank.returned, hid, Bank.credit]

theorem valueFrom_returned_other {q : UInt8}
    (h : ∀ v o, ¬ Enters (b.registers i).state.readIdent msg q v o) :
    (b.returned i msg register).valueFrom i q = b.valueFrom i q := by
  unfold Bank.returned
  dsimp only
  split
  · rename_i header ts wr data o
    split
    · rename_i hid
      have hne : q ≠ header.processIdentifier := fun heq =>
        h (ts, wr, data) o ⟨header, rfl, hid, heq.symm⟩
      simp [Bank.credit, Function.update_of_ne hne]
    · rfl
  · rfl

theorem ackFrom_returned_acknowledges {q : UInt8} {o : Origin}
    (h : Acknowledges (b.registers i).state.readIdent msg q o) :
    (b.returned i msg register).ackFrom i q = some o := by
  obtain ⟨header, rfl, hid, rfl⟩ := h
  simp [Bank.returned, hid, Bank.credit]

theorem ackFrom_returned_other {q : UInt8}
    (h : ∀ o, ¬ Acknowledges (b.registers i).state.readIdent msg q o) :
    (b.returned i msg register).ackFrom i q = b.ackFrom i q := by
  unfold Bank.returned
  dsimp only
  split
  · rename_i header o
    split
    · rename_i hid
      have hne : q ≠ header.processIdentifier := fun heq => h o ⟨header, rfl, hid, heq.symm⟩
      simp [Bank.credit, Function.update_of_ne hne]
    · rfl
  · rfl

end

/-! ## A register -/

section

variable (Sent : SystemRegisterCommand → Origin → Prop) (selfIdent : UInt8)

/-- Register `i` may count the reply as one of process `q`, in the phase of `register`. -/
structure Process.MayCount (s : Process) (i : ℕ) (register : AtomicRegisterImplementation)
    (q : UInt8) (cmd : SystemRegisterCommand) (o : Origin) : Prop where
  sent : Sent cmd o
  own : s.ReplyTo selfIdent i cmd o
  process : cmd.header.processIdentifier = q
  round : cmd.header.readIdent = register.state.readIdent

/-- The entries of register `i`, and what its handler does to them. -/
structure TallyAt (s : Process) (i : ℕ) : Prop where
  values : ∀ q v, (s.bank.registers i).readlist.lookup q = some v → ∃ o cmd,
    s.bank.valueFrom i q = some o ∧ cmd.content = .value v.1 v.2.1 v.2.2 ∧
    s.MayCount Sent selfIdent i (s.bank.registers i) q cmd o
  acks : ∀ q ∈ (s.bank.registers i).acks, ∃ o cmd, s.bank.ackFrom i q = some o ∧
    cmd.content = .ack ∧ s.MayCount Sent selfIdent i (s.bank.registers i) q cmd o
  running : ∀ msg rest, s.bank.workers i = .running msg rest →
    Tally (s.bank.registers i) msg (s.bank.final i)

end

variable {N R : ℕ} {selfIdent : UInt8} {s s' : Process} {a : Action}
  {Sent : SystemRegisterCommand → Origin → Prop}

theorem Process.ReplyTo.mono {i : ℕ} {cmd : SystemRegisterCommand} {o : Origin}
    (h : s.ReplyTo selfIdent i cmd o) (hposted : ∀ k out, s.Posted k out → s'.Posted k out) :
    s'.ReplyTo selfIdent i cmd o := by
  obtain ⟨request, hself, hk, hregister, hanswers⟩ := h
  exact ⟨request, hself, hposted _ _ hk, hregister, hanswers⟩

theorem Process.MayCount.mono {i : ℕ} {register register' : AtomicRegisterImplementation}
    {q : UInt8} {cmd : SystemRegisterCommand} {o : Origin}
    (h : s.MayCount Sent selfIdent i register q cmd o)
    (hposted : ∀ k out, s.Posted k out → s'.Posted k out)
    (hround : register'.state.readIdent = register.state.readIdent) :
    s'.MayCount Sent selfIdent i register' q cmd o :=
  ⟨h.sent, h.own.mono hposted, h.process, h.round.trans hround.symm⟩

/-- The entries of a register whose handler has not returned in the step. -/
theorem TallyAt.entries {i : ℕ} (h : TallyAt Sent selfIdent s i)
    (hposted : ∀ k out, s.Posted k out → s'.Posted k out)
    (hround : (s'.bank.registers i).state.readIdent = (s.bank.registers i).state.readIdent)
    (hreadlist : (s'.bank.registers i).readlist = (s.bank.registers i).readlist)
    (hacks : (s'.bank.registers i).acks = (s.bank.registers i).acks)
    (hvalueFrom : s'.bank.valueFrom i = s.bank.valueFrom i)
    (hackFrom : s'.bank.ackFrom i = s.bank.ackFrom i)
    (hrunning : ∀ msg rest, s'.bank.workers i = .running msg rest →
      Tally (s'.bank.registers i) msg (s'.bank.final i)) : TallyAt Sent selfIdent s' i := by
  refine ⟨fun q v hv => ?_, fun q hq => ?_, hrunning⟩
  · obtain ⟨o, cmd, ho, hcontent, hmay⟩ := h.values q v (hreadlist ▸ hv)
    exact ⟨o, cmd, by rw [hvalueFrom]; exact ho, hcontent, hmay.mono hposted hround⟩
  · obtain ⟨o, cmd, ho, hcontent, hmay⟩ := h.acks q (hacks ▸ hq)
    exact ⟨o, cmd, by rw [hackFrom]; exact ho, hcontent, hmay.mono hposted hround⟩

theorem TallyAt.same {i : ℕ} (h : TallyAt Sent selfIdent s i)
    (hposted : ∀ k out, s.Posted k out → s'.Posted k out)
    (hsame : Bank.SameAt s.bank s'.bank i) : TallyAt Sent selfIdent s' i := by
  refine h.entries hposted (by rw [hsame.registers]) (by rw [hsame.registers])
    (by rw [hsame.registers]) hsame.valueFrom hsame.ackFrom fun msg rest hw => ?_
  rw [hsame.registers, hsame.final]
  exact h.running msg rest (hsame.workers ▸ hw)

/-- A register with empty collections. -/
theorem TallyAt.of_fresh {i : ℕ} (hrest : s.bank.Resting i)
    (hreadlist : (s.bank.registers i).readlist = ∅) (hacks : (s.bank.registers i).acks = ∅) :
    TallyAt Sent selfIdent s i := by
  refine ⟨fun q v hv => ?_, fun q hq => ?_, fun msg rest hw => absurd hw (hrest msg rest)⟩
  · rw [hreadlist, AList.lookup_empty] at hv
    cases hv
  · rw [hacks] at hq
    exact absurd hq (Finset.notMem_empty q)

/-- **The handler returns**: its message is entered, if it is a reply of the phase. -/
theorem TallyAt.returned {i : ℕ} (h : TallyAt Sent selfIdent s i)
    (hposted : ∀ k out, s.Posted k out → s'.Posted k out)
    (hheld : ∀ cmd o, s.Held i cmd o → Sent cmd o ∧
      (Process.isRequest cmd = false → s.ReplyTo selfIdent i cmd o))
    {msg : WorkerMessage} {register : AtomicRegisterImplementation}
    (hw : s.bank.workers i = .running msg (.done register))
    (hfinal : s.bank.final i = register)
    (hbank : s'.bank = s.bank.returned i msg register) : TallyAt Sent selfIdent s' i := by
  have htally := h.running _ _ hw
  rw [hfinal] at htally
  have hregister : s'.bank.registers i = register := by
    rw [hbank]
    exact Function.update_self ..
  have hready : s'.bank.workers i = .ready := by
    rw [hbank]
    exact Function.update_self ..
  -- the reply that was handled may be counted, if it is for the phase the register is in
  have hmay : ∀ header content o, msg = .system ⟨header, content⟩ o →
      Process.isRequest ⟨header, content⟩ = false →
      header.readIdent = (s.bank.registers i).state.readIdent →
      register.state.readIdent = (s.bank.registers i).state.readIdent →
      s'.MayCount Sent selfIdent i register header.processIdentifier ⟨header, content⟩ o := by
    rintro header content o rfl hkind hid hround
    obtain ⟨hsent, hown⟩ := hheld _ o (.inr (.inr ⟨_, hw⟩))
    exact ⟨hsent, (hown hkind).mono hposted, rfl, hid.trans hround.symm⟩
  refine ⟨fun q v hv => ?_, fun q hq => ?_, fun msg rest hrun => ?_⟩
  · rw [hregister] at hv ⊢
    obtain ⟨hround, ⟨o, henters⟩ | ⟨hold, hother⟩⟩ := htally.values q v hv
    · -- the entry is that reply, or it was there before under the same identifier
      have hfrom := valueFrom_returned_enters register henters
      obtain ⟨header, hmsg, hid, rfl⟩ := henters
      exact ⟨o, _, hbank ▸ hfrom, rfl, hmay header _ o hmsg rfl hid hround⟩
    · obtain ⟨o, cmd, ho, hcontent, hcount⟩ := h.values q v hold
      refine ⟨o, cmd, ?_, hcontent, hcount.mono hposted hround⟩
      rw [hbank, valueFrom_returned_other register hother]
      exact ho
  · rw [hregister] at hq ⊢
    obtain ⟨hround, ⟨o, hack⟩ | ⟨hold, hother⟩⟩ := htally.acks q hq
    · have hfrom := ackFrom_returned_acknowledges register hack
      obtain ⟨header, hmsg, hid, rfl⟩ := hack
      exact ⟨o, _, hbank ▸ hfrom, rfl, hmay header _ o hmsg rfl hid hround⟩
    · obtain ⟨o, cmd, ho, hcontent, hcount⟩ := h.acks q hold
      refine ⟨o, cmd, ?_, hcontent, hcount.mono hposted hround⟩
      rw [hbank, ackFrom_returned_other register hother]
      exact ho
  · rw [hready] at hrun
    cases hrun

/-- **A handler goes on.** -/
theorem TallyAt.call {i : ℕ} (h : TallyAt Sent selfIdent s i)
    (hposted : ∀ k out, s.Posted k out → s'.Posted k out)
    (hheld : ∀ cmd o, s.Held i cmd o → Sent cmd o ∧
      (Process.isRequest cmd = false → s.ReplyTo selfIdent i cmd o))
    (hacts : Bank.Acts s.bank i s'.bank) : TallyAt Sent selfIdent s' i := by
  -- until the handler returns, at most the callback of the register is taken
  have hworks : ∀ msg, Bank.Works s.bank s'.bank i msg →
      (s'.bank.registers i).state = (s.bank.registers i).state →
      (s'.bank.registers i).readlist = (s.bank.registers i).readlist →
      (s'.bank.registers i).acks = (s.bank.registers i).acks → TallyAt Sent selfIdent s' i := by
    intro msg hworks hstate hreadlist hacks
    refine h.entries hposted (by rw [hstate]) hreadlist hacks (by rw [hworks.valueFrom])
      (by rw [hworks.ackFrom]) fun msg' rest hw => ?_
    obtain ⟨rest', hw'⟩ := hacts.running hw
    obtain ⟨hvalues, hcount⟩ := h.running msg' rest' hw'
    rw [hworks.final]
    refine ⟨?_, ?_⟩
    · rw [hstate, hreadlist]
      exact hvalues
    · rw [hstate, hacks]
      exact hcount
  generalize hb : s'.bank = b' at hacts hworks
  cases hacts with
  | silent _ _ _ hw hkeeps _ =>
    refine hworks _ hw ?_ ?_ ?_ <;> rw [hkeeps.registers]
  | put hw _ => exact hworks _ hw rfl rfl rfl
  | broadcast hw _ => exact hworks _ hw rfl rfl rfl
  | complete hw _ => refine hworks _ hw ?_ ?_ ?_ <;> simp [Bank.after]
  | returned hw _ hfinal => exact h.returned hposted hheld hw hfinal hb

/-! ## A process -/

/-- The steps in which clients use new identifiers, client commands receive the indices of
free registers, recovered ones those of the registers they were found in, and no `read_ident`
wraps around. -/
def Process.Orderly (s : Process) (a : Action) : Prop :=
  s.FreshIdent a ∧ s.SentHome a ∧ s.BelowMax a

instance (s : Process) (a : Action) : Decidable (s.Orderly a) := instDecidableAnd

/-- Replies answer broadcasts of this process. -/
def Process.AnswersOwnBroadcasts (Sent : SystemRegisterCommand → Origin → Prop)
    (selfIdent : UInt8) (s : Process) : Prop :=
  ∀ cmd o, Sent cmd o → Process.isRequest cmd = false → ∃ request, o.process = selfIdent ∧
    s.Posted o.index request ∧ Answers request.cmd cmd

/-- **Attribution.** Everything in a process that came from outside has been sent to it, and a
register counts the replies to its own messages only. -/
structure Attributed (N R : ℕ) (selfIdent : UInt8) (Sent : SystemRegisterCommand → Origin → Prop)
    (s : Process) : Prop where
  recorded : Recorded N R selfIdent s
  routes : Routes s
  rounds : Rounds R selfIdent s
  waiting : ∀ cmd o, s.Waiting cmd o → Sent cmd o
  held : ∀ i cmd o, s.Held i cmd o → Sent cmd o ∧
    (Process.isRequest cmd = false → s.ReplyTo selfIdent i cmd o)
  tallies : ∀ i < R, TallyAt Sent selfIdent s i

theorem attributed_init : Attributed N R selfIdent Sent (.init N selfIdent) := by
  refine ⟨recorded_init, routes_init, rounds_init, ?_, ?_, ?_⟩
  · rintro cmd o ⟨task, htask, -⟩
    cases htask
  · rintro i cmd o (⟨task, htask, -⟩ | hm | ⟨rest, hw⟩)
    · cases htask
    · cases hm
    · cases hw
  · exact fun i _ => .of_fresh (Bank.resting_of_eq rfl (.inl rfl)) rfl rfl

/-- More may have been sent. -/
theorem Attributed.mono {Sent' : SystemRegisterCommand → Origin → Prop}
    (h : Attributed N R selfIdent Sent s) (hsent : ∀ cmd o, Sent cmd o → Sent' cmd o) :
    Attributed N R selfIdent Sent' s := by
  have hmay : ∀ {i register q cmd o}, s.MayCount Sent selfIdent i register q cmd o →
      s.MayCount Sent' selfIdent i register q cmd o :=
    fun hc => ⟨hsent _ _ hc.sent, hc.own, hc.process, hc.round⟩
  refine ⟨h.recorded, h.routes, h.rounds, fun cmd o hw => hsent cmd o (h.waiting cmd o hw),
    fun i cmd o hc => ⟨hsent cmd o (h.held i cmd o hc).1, (h.held i cmd o hc).2⟩, fun i hi => ?_⟩
  refine ⟨fun q v hv => ?_, fun q hq => ?_, (h.tallies i hi).running⟩
  · obtain ⟨o, cmd, ho, hcontent, hc⟩ := (h.tallies i hi).values q v hv
    exact ⟨o, cmd, ho, hcontent, hmay hc⟩
  · obtain ⟨o, cmd, ho, hcontent, hc⟩ := (h.tallies i hi).acks q hq
    exact ⟨o, cmd, ho, hcontent, hmay hc⟩

/-- A reply that is routed reaches the register that broadcast the message it answers. -/
theorem Attributed.routed (h : Attributed N R selfIdent Sent s)
    (hown : s.AnswersOwnBroadcasts Sent selfIdent) {i : ℕ} {cmd : SystemRegisterCommand} {o : Origin}
    (hsent : Sent cmd o) (hkind : Process.isRequest cmd = false) {sector : SectorIdx}
    (hentry : s.msgIdHandlerSectorIdx cmd.header.msgIdent = some (i, sector)) :
    s.ReplyTo selfIdent i cmd o := by
  obtain ⟨request, hself, hposted, hanswers⟩ := hown cmd o hsent hkind
  obtain ⟨t, call, -, hcall, hmsg, -, hpc, hstored⟩ := (h.rounds.vouched _ request hposted).call
  rw [hanswers.msgIdent, hmsg] at hentry
  have hi : i = request.register :=
    h.routes.register_eq h.recorded.placed h.recorded.ledger.books hcall hpc hstored hentry
  exact ⟨request, hself, hposted, hi.symm, hanswers⟩

theorem tallies_step (h : Attributed N R selfIdent Sent s)
    (hstep : s.step N R selfIdent a = some s') {i : ℕ} (hi : i < R) :
    TallyAt Sent selfIdent s' i := by
  have hocc := h.recorded.occupied
  have htally := h.tallies i hi
  have hposted : ∀ k out, s.Posted k out → s'.Posted k out := fun k out hk =>
    ⟨outbox_mono hocc hstep hk.1, hk.2⟩
  cases step_event hstep with
  | shuffle _ hs =>
    refine htally.same hposted ?_
    rw [hs.bank]
    exact ⟨rfl, rfl, rfl, rfl, rfl, rfl, rfl⟩
  | @announce j _ hw =>
    by_cases hij : i = j
    · subst hij
      refine htally.entries hposted rfl rfl rfl rfl rfl fun msg rest hrun => ?_
      simp only [Function.update_self, reduceCtorEq] at hrun
    · exact htally.same hposted ⟨Function.update_of_ne hij .., rfl, rfl, rfl, rfl, rfl, rfl⟩
  | @receive j iter bank _ hrec =>
    obtain ⟨msg, mailbox, hr⟩ := hocc.reception hrec
    by_cases hij : i = j
    · subst hij
      have hregisters := congrFun hr.receives.registers i
      refine htally.entries hposted (by rw [hregisters]) (by rw [hregisters]) (by rw [hregisters])
        (by rw [hr.receives.valueFrom]) (by rw [hr.receives.ackFrom]) fun msg' rest hw => ?_
      obtain ⟨rest', hw'⟩ := hr.receives.running
      have heq := hw.symm.trans hw'
      cases heq
      rw [hregisters]
      exact hr.outcome.tally
    · exact htally.same hposted (hr.receives.others i hij)
  | @call j bank finishing _ hcall =>
    have hacts := Bank.call_cases hcall (hocc.register j).steady
    by_cases hij : i = j
    · subst hij
      exact htally.call hposted (h.held i) hacts
    · exact htally.same hposted (hacts.others i hij)
  | crash => exact .of_fresh (Bank.resting_of_eq rfl (.inl rfl)) rfl rfl
  | restart hrestart =>
    -- `readlist` and `acks` are not stored, so a restart empties them
    obtain ⟨cmd, hrestored⟩ := registers_of_restart hrestart hi
    have hrest := (hocc.restarted hrestart).resting i
    rcases restored_cases hrestored with ⟨-, -, hregister⟩ | ⟨_, -, -, -, hregister⟩ <;>
      exact .of_fresh hrest (by rw [hregister]; rfl) (by rw [hregister]; rfl)
  | _ => exact htally.entries hposted rfl rfl rfl rfl rfl htally.running

/-- **Attribution is kept** in orderly steps, if what arrives has been sent. -/
theorem attributed_step (h : Attributed N R selfIdent Sent s)
    (hown : s.AnswersOwnBroadcasts Sent selfIdent)
    (harrive : ∀ cmd o, a = .arrive cmd o → Sent cmd o) (horderly : s.Orderly a)
    (hstep : s.step N R selfIdent a = some s') : Attributed N R selfIdent Sent s' := by
  obtain ⟨hfresh, hhome, hmax⟩ := horderly
  have hocc := h.recorded.occupied
  refine ⟨recorded_step h.recorded hhome hstep, routes_step hocc h.routes hfresh hhome.2 hstep,
    rounds_step h.recorded h.rounds hmax (fun i cmd o hc => (h.held i cmd o hc).2) hstep, ?_, ?_,
    fun i hi => tallies_step h hstep hi⟩
  · intro cmd o hw
    rcases waiting_step hstep hw with hw | ha
    · exact h.waiting cmd o hw
    · exact harrive cmd o ha
  · intro i cmd o hc
    have hmono : s.ReplyTo selfIdent i cmd o → s'.ReplyTo selfIdent i cmd o := fun hr =>
      hr.mono fun k out hk => ⟨outbox_mono hocc hstep hk.1, hk.2⟩
    rcases held_step hocc hstep hc with hc | ⟨hw, hway⟩
    · exact ⟨(h.held i cmd o hc).1, fun hkind => hmono ((h.held i cmd o hc).2 hkind)⟩
    · have hsent := h.waiting cmd o hw
      refine ⟨hsent, fun hkind => hmono ?_⟩
      rcases hway with hrequest | ⟨sector, hentry⟩
      · rw [hkind] at hrequest
        cases hrequest
      · exact h.routed hown hsent hkind hentry

/-! ## Counted replies -/

/-- `cmd` answers `request`, which register `i` has broadcast in the phase it is in, on behalf
of call `t` and for the sector of this call. -/
structure Process.Asked (selfIdent : UInt8) (s : Process) (i : ℕ) (t : Callback) (call : Call)
    (cmd : SystemRegisterCommand) (o : Origin) (request : Output) : Prop where
  own : o.process = selfIdent
  posted : s.Posted o.index request
  register : request.register = i
  phase : request.cmd.header.readIdent = (s.bank.registers i).state.readIdent
  operation : request.call = some t
  known : s.calls[t]? = some call
  sector : request.cmd.header.sectorIdx = call.sector
  answers : Answers request.cmd cmd

/-- **A reply of the current phase** to a message of a busy register was asked for by this
phase. -/
theorem Attributed.asked (h : Attributed N R selfIdent Sent s) {i : ℕ} (hi : i < R)
    {cmd : SystemRegisterCommand} {o : Origin} (hown : s.ReplyTo selfIdent i cmd o)
    (hid : cmd.header.readIdent = (s.bank.registers i).state.readIdent) {t : Callback}
    (hcallback : (s.bank.registers i).callback = some t) :
    ∃ request call, s.Asked selfIdent i t call cmd o request := by
  obtain ⟨request, hself, hposted, hregister, hanswers⟩ := hown
  have hround : request.cmd.header.readIdent = (s.bank.registers i).state.readIdent := by
    rw [← hanswers.readIdent, hid]
  have ht := (h.rounds.round i hi).current.1 _ request t hposted hregister
    (congrArg UInt64.toNat hround) hcallback
  obtain ⟨u, call, hu, hcall, -, hsector, -⟩ := (h.rounds.vouched _ request hposted).call
  rw [ht, Option.some.injEq] at hu
  subst hu
  exact ⟨request, call, hself, hposted, hregister, hround, ht, hcall, hsector, hanswers⟩

/-- The sector of a reply that a register may count is the one of its command. -/
theorem Attributed.sector_eq (h : Attributed N R selfIdent Sent s) {i : ℕ} (hi : i < R)
    {cmd : SystemRegisterCommand} {o : Origin} (hown : s.ReplyTo selfIdent i cmd o)
    (hid : cmd.header.readIdent = (s.bank.registers i).state.readIdent) {t : Callback} {call : Call}
    (hcallback : (s.bank.registers i).callback = some t) (hcall : s.calls[t]? = some call) :
    cmd.header.sectorIdx = call.sector := by
  obtain ⟨request, call', hasked⟩ := h.asked hi hown hid hcallback
  have heq := hasked.known
  rw [hcall, Option.some.injEq] at heq
  rw [heq, hasked.answers.sectorIdx, hasked.sector]

end Executor
end AtomicDiscDrive
