import AtomicDiscDrive.Executor.Routes

/-!
# The phases of a register

Every phase of a register has a `read_ident` of its own, over restarts too: it is stored
before the message of the phase is broadcast. So the messages a register has broadcast under
its current `read_ident` are of the phase it is in (`RoundAt.current`), and they carry the
identifier and the sector of the command it is busy with (`Process.Vouched`).

The second phase takes both from the reply that completes the first quorum. That they are
those of the command is known because the reply answers a message of this register
(`Process.ReplyTo`).
-/

namespace AtomicDiscDrive
namespace Executor

open Utils AtomicRegisterImplementation

/-! ## Rounds -/

/-- The number of the phase a register is in. -/
def round (register : AtomicRegisterImplementation) : ℕ := register.state.readIdent.toNat

/-- The phase a message belongs to. -/
def Output.round (out : Output) : ℕ := out.cmd.header.readIdent.toNat

/-- The last phase of register `i` that has been stored. -/
def Bank.storedRound (b : Bank) (i : ℕ) : ℕ := (b.stableState i).readIdent.toNat

/-- `reply` answers `request`. -/
structure Answers (request reply : SystemRegisterCommand) : Prop where
  msgIdent : reply.header.msgIdent = request.header.msgIdent
  readIdent : reply.header.readIdent = request.header.readIdent
  sectorIdx : reply.header.sectorIdx = request.header.sectorIdx
  kind : Process.isRequest reply = false
  value : ∀ ts wr data, reply.content = .value ts wr data → request.content = .readProc
  ack : reply.content = .ack → isWriteProc request = true

/-- Where a message that opens a phase has its identifier and its sector from: a client
command, or the reply that completes the quorum of the phase before. -/
inductive OpenedBy (register : AtomicRegisterImplementation) (msgIdent : Uuid)
    (sectorIdx : SectorIdx) : WorkerMessage → Prop where
  | client {cmd : ClientRegisterCommand} (t : Callback)
      (hmsg : msgIdent = .fromRequest cmd.header.requestIdentifier)
      (hsector : sectorIdx = cmd.header.sectorIdx) :
      OpenedBy register msgIdent sectorIdx (.client cmd t)
  | quorum {header : SystemCommandHeader} {ts : UInt64} {wr : UInt8} {data : SectorVec}
      (o : Origin) (hid : header.readIdent = register.state.readIdent)
      (hbusy : register.Busy = true) (hmsg : msgIdent = header.msgIdent)
      (hsector : sectorIdx = header.sectorIdx) :
      OpenedBy register msgIdent sectorIdx (.system ⟨header, .value ts wr data⟩ o)

/-- What the handler of a message does to the phase. -/
inductive Turnover (register : AtomicRegisterImplementation) (msg : WorkerMessage)
    (ops : List RegisterOp) (final : AtomicRegisterImplementation) : Prop where
  | same (hround : final.state.readIdent = register.state.readIdent)
      (hnone : ∀ cmd, .broadcast cmd ∉ ops)
      (hcallback : final.callback = register.callback ∨ final.callback = none)
  | next {msgIdent : Uuid} {sectorIdx : SectorIdx} {content : SystemRegisterCommandContent}
      (hround : final.state.readIdent = register.state.readIdent + 1)
      (hops : ops = [.put final.state, .broadcast (final.phaseMessage msgIdent sectorIdx content)])
      (hrequest : Process.isRequest (final.phaseMessage msgIdent sectorIdx content) = true)
      (hfrom : OpenedBy register msgIdent sectorIdx msg)

section

variable {register final : AtomicRegisterImplementation} {msg : WorkerMessage}
  {ops : List RegisterOp}

theorem Outcome.turnover (h : Outcome register msg ops final) :
    final.selfIdent = register.selfIdent ∧ Turnover register msg ops final := by
  have hreport : ∀ op cmd, .broadcast cmd ∉ report register op := by
    intro op cmd
    unfold report
    simp
  cases h with
  | client cmd t =>
    obtain ⟨header, content⟩ := cmd
    cases content <;> exact ⟨rfl, .next rfl rfl rfl (.client t rfl rfl)⟩
  | quiet o _ => exact ⟨rfl, .same rfl (fun _ => List.not_mem_nil) (.inl rfl)⟩
  | collected ts wr data o hid => exact ⟨rfl, .same rfl (fun _ => List.not_mem_nil) (.inl rfl)⟩
  | read o hid hreading hmax hval =>
    refine ⟨rfl, .next rfl rfl rfl (.quorum o hid ?_ rfl rfl)⟩
    rw [Busy, hreading]
    rfl
  | write o hid hreading hwriting hval =>
    refine ⟨rfl, .next rfl rfl rfl (.quorum o hid ?_ rfl rfl)⟩
    rw [Busy, hwriting, Bool.or_true]
  | counted o hid => exact ⟨rfl, .same rfl (fun _ => List.not_mem_nil) (.inl rfl)⟩
  | readDone o hid hreading hval => exact ⟨rfl, .same rfl (hreport _) (.inr rfl)⟩
  | writeDone o hid hreading hwriting hval =>
    refine ⟨rfl, .same rfl (fun cmd hmem => ?_) (.inr rfl)⟩
    rcases List.mem_cons.mp hmem with hmem | hmem
    · cases hmem
    · exact hreport _ cmd hmem

theorem round_succ (hround : final.state.readIdent = register.state.readIdent + 1)
    (hmax : register.state.readIdent.toNat + 1 < 2 ^ 64) : round final = round register + 1 := by
  unfold round
  rw [hround, UInt64.toNat_add, UInt64.toNat_one, Nat.mod_eq_of_lt hmax]

/-- A busy register serves the command in hand. -/
theorem Mode.of_busy {calls : List Call} {hand : Option Callback}
    (h : Mode calls register [] hand) (hbusy : register.Busy = true) :
    ∃ t call, hand = some t ∧ register.callback = some t ∧ calls[t]? = some call ∧
      Serves register t call.cmd := by
  cases h with
  | idle hidle =>
    rw [Busy, hidle.reading, hidle.writing] at hbusy
    cases hbusy
  | serving hcall hserves _ => exact ⟨_, _, rfl, hserves.callback, hcall, hserves⟩
  | completing _ _ _ hops => simp at hops

end

/-! ## The invariant -/

namespace Process

/-- A broadcast of the process: it is on behalf of a call that was handed to the register, and
stored by it if it is a write. -/
structure Vouched (selfIdent : UInt8) (s : Process) (out : Output) : Prop where
  process : out.cmd.header.processIdentifier = selfIdent
  request : isRequest out.cmd = true
  call : ∃ t call, out.call = some t ∧ s.calls[t]? = some call ∧
    out.cmd.header.msgIdent = .fromRequest call.cmd.header.requestIdentifier ∧
    out.cmd.header.sectorIdx = call.sector ∧
    (s.pcs t = .handed out.register ∨ s.pcs t = .lost) ∧
    (call.cmd.content ≠ .read → (out.register, t) ∈ s.bank.stored)

/-- A reply answers a message register `i` of this process has broadcast. -/
def ReplyTo (selfIdent : UInt8) (s : Process) (i : ℕ) (cmd : SystemRegisterCommand)
    (o : Origin) : Prop :=
  ∃ request, o.process = selfIdent ∧ s.Posted o.index request ∧ request.register = i ∧
    Answers request.cmd cmd

/-- The broadcast `cmd` of register `i` is due: it opens a phase of the command in hand. -/
structure Opens (selfIdent : UInt8) (s : Process) (i : ℕ) (cmd : SystemRegisterCommand) :
    Prop where
  process : cmd.header.processIdentifier = selfIdent
  request : isRequest cmd = true
  round : cmd.header.readIdent = (s.bank.final i).state.readIdent
  later : Executor.round (s.bank.registers i) < cmd.header.readIdent.toNat
  unused : ∀ k out, s.Posted k out → out.register = i →
    out.round < cmd.header.readIdent.toNat
  call : ∃ t call, s.bank.inHand i = some t ∧ s.calls[t]? = some call ∧
    cmd.header.msgIdent = .fromRequest call.cmd.header.requestIdentifier ∧
    cmd.header.sectorIdx = call.sector

/-- What register `i` has broadcast in the phase of `register` is for the command `register`
is busy with. -/
def Current (s : Process) (i : ℕ) (register : AtomicRegisterImplementation) : Prop :=
  ∀ k out t, s.Posted k out → out.register = i → out.round = Executor.round register →
    register.callback = some t → out.call = some t

end Process

/-- The phases of register `i`. -/
structure RoundAt (selfIdent : UInt8) (s : Process) (i : ℕ) : Prop where
  self : (s.bank.registers i).selfIdent = selfIdent ∧ (s.bank.final i).selfIdent = selfIdent
  posted : ∀ k out, s.Posted k out → out.register = i → out.round ≤ s.bank.storedRound i
  stored : s.up = true → s.bank.storedRound i ≤ round (s.bank.final i) ∧
    ((∀ state, .put state ∉ s.bank.due i) → s.bank.storedRound i = round (s.bank.final i))
  opens : ∀ cmd, .broadcast cmd ∈ s.bank.due i → s.Opens selfIdent i cmd
  current : s.Current i (s.bank.registers i) ∧ s.Current i (s.bank.final i)

variable {N R : ℕ} {selfIdent : UInt8} {s s' : Process} {a : Action}

/-! ## Registers that do not take part in a step -/

theorem Process.Current.mono {i : ℕ} {register : AtomicRegisterImplementation}
    (h : s.Current i register)
    (hposted : ∀ k out, s'.Posted k out → out.register = i → s.Posted k out) :
    s'.Current i register :=
  fun k out t hk hi hround hcallback => h k out t (hposted k out hk hi) hi hround hcallback

/-- A step that sends nothing for register `i` and does not change what it is at. -/
theorem RoundAt.congr {i : ℕ} (h : RoundAt selfIdent s i) (hup : s'.up = true → s.up = true)
    (hcalls : ∀ (t : ℕ) call, s.calls[t]? = some call → s'.calls[t]? = some call)
    (hregisters : s'.bank.registers i = s.bank.registers i)
    (hfinal : s'.bank.final i = s.bank.final i) (hdue : s'.bank.due i = s.bank.due i)
    (hhand : s'.bank.inHand i = s.bank.inHand i) (hstable : s'.bank.stable i = s.bank.stable i)
    (hposted : ∀ k out, s'.Posted k out → out.register = i → s.Posted k out) :
    RoundAt selfIdent s' i := by
  have hstored : s'.bank.storedRound i = s.bank.storedRound i := by
    unfold Bank.storedRound Bank.stableState
    rw [hstable]
  refine ⟨?_, ?_, ?_, ?_, ?_⟩
  · rw [hregisters, hfinal]
    exact h.self
  · intro k out hk hi
    rw [hstored]
    exact h.posted k out (hposted k out hk hi) hi
  · rw [hstored, hfinal, hdue]
    exact fun hs => h.stored (hup hs)
  · intro cmd hcmd
    rw [hdue] at hcmd
    obtain ⟨hprocess, hrequest, hround, hlater, hunused, t, call, hin, hcall, hmsg⟩ :=
      h.opens cmd hcmd
    refine ⟨hprocess, hrequest, ?_, ?_, ?_, ?_⟩
    · rw [hfinal]
      exact hround
    · rw [hregisters]
      exact hlater
    · exact fun k out hk hi => hunused k out (hposted k out hk hi) hi
    · exact ⟨t, call, hhand.trans hin, hcalls t call hcall, hmsg⟩
  · rw [hregisters, hfinal]
    exact ⟨h.current.1.mono hposted, h.current.2.mono hposted⟩

theorem RoundAt.same {i : ℕ} (h : RoundAt selfIdent s i) (hup : s'.up = s.up)
    (hcalls : s'.calls = s.calls) (hsame : Bank.SameAt s.bank s'.bank i)
    (hposted : ∀ k out, s'.Posted k out → out.register = i → s.Posted k out) :
    RoundAt selfIdent s' i :=
  h.congr (fun hs => hup ▸ hs) (fun _ _ hc => hcalls ▸ hc) hsame.registers hsame.final hsame.due
    hsame.inHand hsame.stable hposted

/-! ## A register takes a message -/

/-- The identifier and the sector of the message that opens a phase are those of the command
in hand. -/
theorem Reception.opened {i : ℕ} {b' : Bank} {msg : WorkerMessage} {mailbox : List WorkerMessage}
    (hr : Reception s b' i msg mailbox) (h : RoundAt selfIdent s i)
    (hvouched : ∀ k out, s.Posted k out → s.Vouched selfIdent out)
    (hreply : ∀ cmd o, msg = .system cmd o → Process.isRequest cmd = false →
      s.ReplyTo selfIdent i cmd o) {msgIdent : Uuid} {sectorIdx : SectorIdx}
    (hfrom : OpenedBy (s.bank.registers i) msgIdent sectorIdx msg) :
    ∃ t call, b'.inHand i = some t ∧ s.calls[t]? = some call ∧
      msgIdent = .fromRequest call.cmd.header.requestIdentifier ∧ sectorIdx = call.sector := by
  obtain ⟨rest, hw⟩ := hr.receives.running
  cases hfrom with
  | @client cmd t hmsg hsector =>
    obtain ⟨-, call, hcall, rfl⟩ := hr.after.starting cmd t rest hw
    exact ⟨t, call, hr.handAfter, hcall, hmsg, hsector⟩
  | @quorum header ts wr data o hid hbusy hmsg hsector =>
    obtain ⟨t, call, hhand, hcallback, hcall, -⟩ := hr.mode.of_busy hbusy
    obtain ⟨request, -, hposted, hregister, hanswers⟩ := hreply _ o rfl rfl
    -- the reply answers a message of this phase, and that one is for the command in hand
    have hround : request.round = round (s.bank.registers i) := by
      unfold Output.round round
      rw [← hanswers.readIdent, hid]
    have ht := h.current.1 _ request t hposted hregister hround hcallback
    obtain ⟨u, call', hu, hcall', hident, hsect, -⟩ := (hvouched _ request hposted).call
    rw [ht, Option.some.injEq] at hu
    subst hu
    rw [hcall, Option.some.injEq] at hcall'
    subst hcall'
    refine ⟨t, call, hr.handAfter.trans hhand, hcall, ?_, ?_⟩
    · rw [hmsg, hanswers.msgIdent.trans hident]
    · rw [hsector, hanswers.sectorIdx.trans hsect]

/-- **A message is taken.** A reply of the current phase answers a message of this register. -/
theorem RoundAt.receive {i : ℕ} (h : RoundAt selfIdent s i) (hup : s.up = true)
    (hvouched : ∀ k out, s.Posted k out → s.Vouched selfIdent out) {msg : WorkerMessage}
    {mailbox : List WorkerMessage} (hr : Reception s s'.bank i msg mailbox)
    (hmax : (s.bank.registers i).state.readIdent.toNat + 1 < 2 ^ 64)
    (hreply : ∀ cmd o, msg = .system cmd o → Process.isRequest cmd = false →
      s.ReplyTo selfIdent i cmd o) (hcalls : s'.calls = s.calls) : RoundAt selfIdent s' i := by
  have hrest : s.bank.Resting i := Bank.resting_of_eq hr.receives.waiting (.inr rfl)
  have hposted : ∀ k out, s'.Posted k out ↔ s.Posted k out := fun k out => by
    unfold Process.Posted
    rw [hr.receives.outbox]
  -- a worker that rests has stored its round
  have hstored : s'.bank.storedRound i = round (s.bank.registers i) := by
    have hold := (h.stored hup).2 (by simp [hrest.due])
    rw [hrest.final] at hold
    unfold Bank.storedRound Bank.stableState at hold ⊢
    rw [hr.receives.stable]
    exact hold
  -- so that all its broadcasts are of this round or of earlier ones
  have hold : ∀ k out, s'.Posted k out → out.register = i →
      out.round ≤ round (s.bank.registers i) := by
    intro k out hk hi
    have hle := h.posted k out ((hposted k out).mp hk) hi
    have hsame : s'.bank.storedRound i = s.bank.storedRound i := by
      unfold Bank.storedRound Bank.stableState
      rw [hr.receives.stable]
    omega
  have hregisters : s'.bank.registers i = s.bank.registers i := by rw [hr.receives.registers]
  have hcurrent : s'.Current i (s.bank.registers i) :=
    h.current.1.mono fun k out hk _ => (hposted k out).mp hk
  obtain ⟨hself, hturn⟩ := hr.outcome.turnover
  have hself' : (s'.bank.final i).selfIdent = selfIdent := hself.trans h.self.1
  cases hturn with
  | same hround hnone hcallback =>
    have hrounds : round (s'.bank.final i) = round (s.bank.registers i) := by
      unfold round
      rw [hround]
    refine ⟨⟨hregisters ▸ h.self.1, hself'⟩, ?_, ?_, ?_, hregisters ▸ hcurrent, ?_⟩
    · intro k out hk hi
      rw [hstored]
      exact hold k out hk hi
    · intro _
      rw [hstored, hrounds]
      exact ⟨le_rfl, fun _ => rfl⟩
    · exact fun cmd hcmd => absurd hcmd (hnone cmd)
    · intro k out t hk hi hout ht
      rcases hcallback with hsame | hgone
      · exact hcurrent k out t hk hi (hout.trans hrounds) (hsame ▸ ht)
      · rw [hgone] at ht
        cases ht
  | @next msgIdent sectorIdx content hround hops hrequest hfrom =>
    have hrounds := round_succ hround hmax
    refine ⟨⟨hregisters ▸ h.self.1, hself'⟩, ?_, ?_, ?_, hregisters ▸ hcurrent, ?_⟩
    · intro k out hk hi
      rw [hstored]
      exact hold k out hk hi
    · intro _
      rw [hstored, hrounds]
      refine ⟨by omega, fun hput => absurd ?_ (hput (s'.bank.final i).state)⟩
      rw [hops]
      exact List.mem_cons_self
    · intro cmd hcmd
      rw [hops] at hcmd
      simp only [List.mem_cons, reduceCtorEq, RegisterOp.broadcast.injEq, List.not_mem_nil,
        or_false, false_or] at hcmd
      subst hcmd
      have hid : ((s'.bank.final i).phaseMessage msgIdent sectorIdx content).header.readIdent.toNat =
          round (s.bank.registers i) + 1 := hrounds
      refine ⟨hself', hrequest, rfl, ?_, ?_, ?_⟩
      · rw [hregisters, hid]
        omega
      · intro k out hk hi
        have := hold k out hk hi
        omega
      · rw [hcalls]
        exact hr.opened h hvouched hreply hfrom
    · -- nothing has been broadcast under the new identifier
      intro k out t hk hi hout
      have := hold k out hk hi
      omega

/-! ## A handler goes on -/

/-- The command in hand is stored before its messages are sent. -/
theorem stored_of_broadcast (hled : Ledger R s) {i : ℕ} {t : Callback} {call : Call}
    {cmd : SystemRegisterCommand} (hin : s.bank.inHand i = some t)
    (hcall : s.calls[t]? = some call) (hdue : s.bank.due i = [.broadcast cmd])
    (hwrite : call.cmd.content ≠ .read) : (i, t) ∈ s.bank.stored := by
  cases hled.records i with
  | vacant hv => exact absurd hv (not_heldBy_none_of_inHand hin)
  | unstored hu _ hun _ _ =>
    obtain ⟨_, hgrants, hmail⟩ := heldBy_of_inHand hu hin
    rcases hun with hg | hm | ⟨_, _, _, state, hput⟩
    · exact absurd hg (hgrants _)
    · rw [hmail] at hm
      cases hm
    · rw [hdue] at hput
      simp at hput
  | writing hh _ _ _ hst _ =>
    rw [hin] at hh
    cases hh
    exact hst
  | closing _ _ hd _ _ =>
    rw [hdue] at hd
    cases hd
  | reading hh hcall' hread _ =>
    rw [hin] at hh
    cases hh
    rw [hcall] at hcall'
    cases hcall'
    exact absurd hread hwrite

/-- A broadcast that is made is one of a call that was handed to the register. -/
theorem vouched_of_opens (hplaced : Placed s) (hled : Ledger R s) {i : ℕ}
    {cmd : SystemRegisterCommand} (hopens : s.Opens selfIdent i cmd)
    (hdue : s.bank.due i = [.broadcast cmd]) :
    s.Vouched selfIdent ⟨cmd, none, i, s.bank.inHand i, none⟩ := by
  obtain ⟨t, call, hin, hcall, hmsg, hsector⟩ := hopens.call
  refine ⟨hopens.process, hopens.request, t, call, hin, hcall, hmsg, hsector, ?_, ?_⟩
  · exact .inl (hplaced.handed i t (.inr hin))
  · exact stored_of_broadcast hled hin hcall hdue

/-- With a broadcast to make, a register keeps the callback of the command in hand. -/
theorem Mode.callback_of_broadcast {calls : List Call} {register : AtomicRegisterImplementation}
    {cmd : SystemRegisterCommand} {hand : Option Callback}
    (h : Mode calls register [.broadcast cmd] hand) : register.callback = hand := by
  cases h with
  | serving _ hserves _ => exact hserves.callback
  | completing _ _ _ hops => simp at hops

theorem posted_of_eq (h : s'.bank.outbox = s.bank.outbox) {k : ℕ} {out : Output}
    (hk : s'.Posted k out) : s.Posted k out := ⟨h ▸ hk.1, hk.2⟩

/-- Replies are no broadcasts. -/
theorem posted_of_append {out : Output} (happend : s'.bank.outbox = s.bank.outbox ++ [out])
    {k : ℕ} {out' : Output} (hk : s'.Posted k out') :
    s.Posted k out' ∨ out' = out ∧ out.target = none := by
  obtain ⟨hk, htarget⟩ := hk
  rw [happend] at hk
  rcases append_cases hk with hk | ⟨-, rfl⟩
  · exact .inl ⟨hk, htarget⟩
  · exact .inr ⟨rfl, htarget⟩

/-- What a register broadcasts is its own. -/
theorem Bank.Acts.posted_other {b b' : Bank} {j : ℕ} (hacts : Bank.Acts b j b') {k : ℕ}
    {out : Output} (hk : b'.outbox[k]? = some out) (htarget : out.target = none)
    (hj : out.register ≠ j) : b.outbox[k]? = some out := by
  rcases hacts.outbox with hsame | ⟨new, hsends, happend⟩
  · exact hsame ▸ hk
  · rw [happend] at hk
    rcases append_cases hk with hold | ⟨-, rfl⟩
    · exact hold
    · cases hsends with
      | broadcast _ => exact absurd rfl hj
      | reply _ => cases htarget

theorem Bank.posted_after {b : Bank} {i : ℕ} {msg : WorkerMessage} {op : RegisterOp}
    {files : SectorFiles} {rest : RegisterProgram AtomicRegisterImplementation}
    (hop : isVisible op = false) {k : ℕ} {out : Output}
    (hk : (b.after i msg op files rest).outbox[k]? = some out) (htarget : out.target = none) :
    b.outbox[k]? = some out := by
  cases op with
  | send cmd target =>
    cases msg with
    | client cmd' t => exact hk
    | system cmd' o =>
      rcases append_cases hk with hk | ⟨-, rfl⟩
      · exact hk
      · cases htarget
  | broadcast cmd => cases hop
  | _ => exact hk

/-- **A handler goes on.** The phase is stored, then its message is broadcast. -/
theorem RoundAt.call {i : ℕ} (hocc : Occupied N selfIdent s) (h : RoundAt selfIdent s i)
    (hacts : Bank.Acts s.bank i s'.bank) (hup : s.up = true) (hcalls : s'.calls = s.calls) :
    RoundAt selfIdent s' i := by
  have hmode := (hocc.register i).mode
  have hcallmono : ∀ (t : ℕ) call, s.calls[t]? = some call → s'.calls[t]? = some call :=
    fun _ _ hc => hcalls ▸ hc
  -- a message that is due stays so until it is made
  have hkeep : s'.bank.registers i = s.bank.registers i → s'.bank.final i = s.bank.final i →
      s'.bank.inHand i = s.bank.inHand i → s'.bank.outbox = s.bank.outbox →
      ∀ cmd, .broadcast cmd ∈ s'.bank.due i → s'.Opens selfIdent i cmd := by
    intro hregisters hfinal hhand houtbox cmd hcmd
    obtain ⟨hprocess, hrequest, hround, hlater, hunused, t, call, hin, hcall, hmsg⟩ :=
      h.opens cmd (hacts.due_subset hcmd)
    refine ⟨hprocess, hrequest, hfinal ▸ hround, hregisters ▸ hlater, ?_, ?_⟩
    · exact fun k out hk hi => hunused k out ⟨houtbox ▸ hk.1, hk.2⟩ hi
    · exact ⟨t, call, hhand.trans hin, hcallmono t call hcall, hmsg⟩
  generalize hb : s'.bank = b' at hacts hkeep
  cases hacts with
  | @silent msg op x files next hw hx hop hworks hkeeps hdue =>
    refine h.congr (fun _ => hup) hcallmono ?_ ?_ ?_ ?_ ?_ ?_
    · rw [hb, hkeeps.registers]
    · rw [hb, hworks.final]
    · rw [hb, hdue]
    · rw [hb, hworks.inHand (congrFun hkeeps.registers i)]
    · rw [hb, hkeeps.stable]
    · exact fun k out hk _ => ⟨Bank.posted_after hop (hb ▸ hk.1) hk.2, hk.2⟩
  | @put msg state rest hworks hdue =>
    obtain ⟨rfl, -⟩ := (hdue ▸ hmode).put
    have hstored : s'.bank.storedRound i = round (s'.bank.final i) := by
      rw [hb, hworks.final]
      unfold Bank.storedRound Bank.stableState round
      simp [Bank.after]
    have hposted : ∀ k out, s'.Posted k out → s.Posted k out := fun k out =>
      posted_of_eq (by rw [hb]; rfl)
    have hfinal : s'.bank.final i = s.bank.final i := by rw [hb, hworks.final]
    have hregisters : s'.bank.registers i = s.bank.registers i := by rw [hb]; rfl
    refine ⟨?_, ?_, ?_, ?_, ?_, ?_⟩
    · rw [hregisters, hfinal]
      exact h.self
    · intro k out hk hi
      have hle := h.posted k out (hposted k out hk) hi
      have := (h.stored hup).1
      rw [hstored, hfinal]
      omega
    · exact fun _ => ⟨hstored.le, fun _ => hstored⟩
    · rw [hb]
      exact hkeep rfl hworks.final (hworks.inHand rfl) rfl
    · rw [hregisters]
      exact h.current.1.mono fun k out hk _ => hposted k out hk
    · rw [hfinal]
      exact h.current.2.mono fun k out hk _ => hposted k out hk
  | @broadcast msg cmd rest hworks hdue =>
    have hnil := (Mode.broadcast (hdue ▸ hmode)).1
    rw [hnil] at hdue
    have hopens := h.opens cmd (by rw [hdue]; exact List.mem_singleton_self _)
    have hfinal : s'.bank.final i = s.bank.final i := by rw [hb, hworks.final]
    have hregisters : s'.bank.registers i = s.bank.registers i := by rw [hb]; rfl
    have hstored : s'.bank.storedRound i = round (s.bank.final i) := by
      have hold := (h.stored hup).2 (by simp [hdue])
      rw [hb]
      exact hold
    have hposted : ∀ k out, s'.Posted k out →
        s.Posted k out ∨ out = ⟨cmd, none, i, s.bank.inHand i, none⟩ := fun k out hk =>
      (posted_of_append (by rw [hb]; rfl) hk).imp id And.left
    have hround : cmd.header.readIdent.toNat = round (s.bank.final i) :=
      congrArg UInt64.toNat hopens.round
    refine ⟨?_, ?_, ?_, ?_, ?_, ?_⟩
    · rw [hregisters, hfinal]
      exact h.self
    · intro k out hk hi
      rw [hstored]
      rcases hposted k out hk with hold | rfl
      · have := hopens.unused k out hold hi
        omega
      · exact hround.le
    · rw [hstored, hfinal]
      exact fun _ => ⟨le_rfl, fun _ => rfl⟩
    · rw [hb, hnil]
      exact fun cmd hcmd => absurd hcmd List.not_mem_nil
    · -- the phase of the message is later than the one the register was in
      rw [hregisters]
      intro k out t hk hi hout ht
      rcases hposted k out hk with hold | rfl
      · exact h.current.1 k out t hold hi hout ht
      · have hsame : cmd.header.readIdent.toNat = round (s.bank.registers i) := hout
        exact absurd hsame hopens.later.ne'
    · rw [hfinal]
      intro k out t hk hi hout ht
      rcases hposted k out hk with hold | rfl
      · exact h.current.2 k out t hold hi hout ht
      · rw [← ht]
        exact (Mode.callback_of_broadcast (hdue ▸ hmode)).symm
  | @complete msg t op rest hworks hdue =>
    obtain ⟨-, hnil, -⟩ := Mode.complete (hdue ▸ hmode)
    have hfinal : s'.bank.final i = s.bank.final i := by rw [hb, hworks.final]
    have hposted : ∀ k out, s'.Posted k out → s.Posted k out := fun k out =>
      posted_of_eq (by rw [hb]; rfl)
    have hstored : s'.bank.storedRound i = s.bank.storedRound i := by rw [hb]; rfl
    have hregister : s'.bank.registers i = { s.bank.registers i with callback := none } := by
      rw [hb]
      exact Function.update_self ..
    refine ⟨?_, ?_, ?_, ?_, ?_, ?_⟩
    · rw [hfinal, hregister]
      exact h.self
    · rw [hstored]
      exact fun k out hk hi => h.posted k out (hposted k out hk) hi
    · rw [hstored, hfinal]
      intro _
      refine ⟨(h.stored hup).1, fun _ => (h.stored hup).2 ?_⟩
      rw [hdue, hnil]
      simp
    · rw [hb, hnil]
      exact fun cmd hcmd => absurd hcmd List.not_mem_nil
    · rw [hregister]
      intro k out t _ _ _ ht
      cases ht
    · rw [hfinal]
      exact h.current.2.mono fun k out hk _ => hposted k out hk
  | @returned msg register hw hdue hfinal =>
    have hw' : (s.bank.returned i msg register).workers i = .ready := Function.update_self ..
    have hrest : s'.bank.Resting i := Bank.resting_of_eq (by rw [hb]; exact hw') (.inl rfl)
    have hregister : s'.bank.registers i = s.bank.final i := by
      rw [hb, hfinal]
      exact Function.update_self ..
    have hposted : ∀ k out, s'.Posted k out → s.Posted k out := fun k out =>
      posted_of_eq (by rw [hb]; rfl)
    have hstored : s'.bank.storedRound i = s.bank.storedRound i := by rw [hb]; rfl
    have hcurrent : s'.Current i (s.bank.final i) :=
      h.current.2.mono fun k out hk _ => hposted k out hk
    refine ⟨?_, ?_, ?_, ?_, ?_⟩
    · rw [hrest.final, hregister]
      exact ⟨h.self.2, h.self.2⟩
    · rw [hstored]
      exact fun k out hk hi => h.posted k out (hposted k out hk) hi
    · rw [hstored, hrest.final, hregister]
      intro _
      refine ⟨(h.stored hup).1, fun _ => (h.stored hup).2 ?_⟩
      rw [hdue]
      exact fun _ => List.not_mem_nil
    · rw [hrest.due]
      exact fun cmd hcmd => absurd hcmd List.not_mem_nil
    · rw [hrest.final, hregister]
      exact ⟨hcurrent, hcurrent⟩

theorem Bank.final_waiting {b : Bank} {i : ℕ} (hw : b.workers i = .ready) (k : ℕ) :
    Bank.final { b with workers := Function.update b.workers i .waiting } k = b.final k := by
  by_cases hk : k = i
  · subst hk
    simp [final, hw]
  · simp only [final, Function.update_of_ne hk]

/-! ## Runs -/

/-- **The phases of all registers.** -/
structure Rounds (R : ℕ) (selfIdent : UInt8) (s : Process) : Prop where
  vouched : ∀ k out, s.Posted k out → s.Vouched selfIdent out
  round : ∀ i < R, RoundAt selfIdent s i

theorem lost_step (h : s.step N R selfIdent a = some s') {t : Callback}
    (ht : t < s.calls.length) (hpc : s.pcs t = .lost) : s'.pcs t = .lost := by
  have hmove : ∀ u pc, u ≠ t → Function.update s.pcs u pc t = .lost := fun u pc hu => by
    rw [Function.update_of_ne hu.symm]
    exact hpc
  cases step_event h with
  | shuffle _ hs => exact (hs.lost t).mp hpc
  | submit _ => exact hmove _ _ ht.ne'
  | dispatch _ _ => exact hmove _ _ ht.ne'
  | take _ howner _ =>
    apply hmove
    rintro rfl
    rw [hpc] at howner
    cases howner
  | hand _ hentered =>
    apply hmove
    rintro rfl
    rw [hpc] at hentered
    cases hentered
  | crash => rfl
  | restart hrestart => exact (restart_aside hrestart).pcs ▸ hpc
  | _ => exact hpc

/-- What is known of a broadcast stays known. -/
theorem vouched_step (hocc : Occupied N selfIdent s) (h : s.step N R selfIdent a = some s')
    {out : Output} (hv : s.Vouched selfIdent out) : s'.Vouched selfIdent out := by
  obtain ⟨hprocess, hrequest, t, call, ht, hcall, hmsg, hsector, hpc, hstored⟩ := hv
  have hevent := step_event h
  refine ⟨hprocess, hrequest, t, call, ht, hevent.calls_mono hcall, hmsg, hsector, ?_, ?_⟩
  · by_cases ha : a = .crash
    · subst ha
      cases hevent with
      | shuffle _ hs =>
        rcases hpc with hpc | hpc
        · exact .inl (hs.handed t _ hpc)
        · exact .inr ((hs.lost t).mp hpc)
      | crash => exact .inr rfl
    · rcases hpc with hpc | hpc
      · exact .inl (hevent.handed_mono hocc.lost ha hpc)
      · exact .inr (lost_step h (List.getElem?_eq_some_iff.mp hcall).1 hpc)
  · exact fun hwrite => stored_step hocc (hstored hwrite) h

/-- `new` keeps the number of the last phase that was stored. -/
theorem round_restored {register : AtomicRegisterImplementation}
    {cmd : Option ClientRegisterCommand} {i : ℕ}
    (h : s.bank.restored N selfIdent i = some (register, cmd)) :
    register.selfIdent = selfIdent ∧ round register = s.bank.storedRound i := by
  rcases restored_cases h with ⟨-, -, rfl⟩ | ⟨_, -, -, -, rfl⟩ <;> exact ⟨rfl, rfl⟩

theorem registers_of_restart (h : s.restart N R selfIdent = some s') {i : ℕ} (hi : i < R) :
    ∃ cmd, s.bank.restored N selfIdent i = some (s'.bank.registers i, cmd) := by
  unfold Process.restart at h
  split at h
  · rename_i hcond
    cases h
    obtain ⟨x, hx⟩ := Option.isSome_iff_exists.mp (hcond.2 i hi)
    refine ⟨x.2, ?_⟩
    show _ = some (((s.bank.restored N selfIdent i).map Prod.fst).getD (s.bank.registers i), x.2)
    rw [hx]
    rfl
  · cases h

/-- A register that no handler is running on. -/
theorem RoundAt.of_idle {i : ℕ} (hrest : s.bank.Resting i) (hidle : Idle (s.bank.registers i))
    (hself : (s.bank.registers i).selfIdent = selfIdent)
    (hposted : ∀ k out, s.Posted k out → out.register = i → out.round ≤ s.bank.storedRound i)
    (hround : s.up = true → s.bank.storedRound i = round (s.bank.registers i)) :
    RoundAt selfIdent s i := by
  have hcurrent : s.Current i (s.bank.registers i) := by
    intro k out t _ _ _ ht
    rw [hidle.callback] at ht
    cases ht
  refine ⟨?_, hposted, ?_, ?_, ?_⟩
  · rw [hrest.final]
    exact ⟨hself, hself⟩
  · rw [hrest.final]
    exact fun hup => ⟨(hround hup).le, fun _ => hround hup⟩
  · rw [hrest.due]
    exact fun cmd hcmd => absurd hcmd List.not_mem_nil
  · rw [hrest.final]
    exact ⟨hcurrent, hcurrent⟩

theorem rounds_init : Rounds R selfIdent (.init N selfIdent) := by
  have hposted : ∀ k out, ¬ (Process.init N selfIdent).Posted k out := by
    intro k out hk
    cases hk.1
  refine ⟨fun k out hk => absurd hk (hposted k out), fun i _ => ?_⟩
  exact .of_idle (Bank.resting_of_eq rfl (.inl rfl)) idle_freshRegister rfl
    (fun k out hk => absurd hk (hposted k out)) fun _ => rfl

/-- **Phases are kept apart**, as long as the numbers do not wrap around and replies reach the
register that asked. -/
theorem rounds_step (hrec : Recorded N R selfIdent s) (h : Rounds R selfIdent s)
    (hmax : s.BelowMax a)
    (hreply : ∀ i cmd o, s.Held i cmd o → Process.isRequest cmd = false →
      s.ReplyTo selfIdent i cmd o)
    (hstep : s.step N R selfIdent a = some s') : Rounds R selfIdent s' := by
  have hocc := hrec.occupied
  have hup : a ≠ .restart → s.up = true := up_of_step hstep
  -- what is broadcast now is vouched for by the round that is about to open
  have hvouched : ∀ k out, s'.Posted k out → s'.Vouched selfIdent out := by
    intro k out hk
    rcases outbox_cases hocc hstep hk.1 with hold | ⟨i, hi, hsends⟩
    · exact vouched_step hocc hstep (h.vouched k out ⟨hold, hk.2⟩)
    · cases hsends with
      | @broadcast cmd ops hdue =>
        have hnil := (Mode.broadcast (hdue ▸ (hocc.register i).mode)).1
        rw [hnil] at hdue
        have hopens := (h.round i hi).opens cmd (by rw [hdue]; exact List.mem_singleton_self _)
        exact vouched_step hocc hstep (vouched_of_opens hrec.placed hrec.ledger hopens hdue)
      | reply _ => cases hk.2
  refine ⟨hvouched, fun i hi => ?_⟩
  have hround := h.round i hi
  have hcalls : ∀ (t : ℕ) call, s.calls[t]? = some call → s'.calls[t]? = some call :=
    fun _ _ hc => (step_event hstep).calls_mono hc
  cases step_event hstep with
  | shuffle _ hs =>
    refine hround.congr (fun hs' => hs.up ▸ hs') hcalls ?_ ?_ ?_ ?_ ?_ ?_
    all_goals first
      | rw [hs.bank]
      | exact fun k out hk _ => ⟨hs.bank ▸ hk.1, hk.2⟩
  | announce _ hw =>
    refine hround.congr id hcalls rfl ?_ (Bank.due_waiting hw i) (Bank.inHand_waiting hw i) rfl
      fun _ _ hk _ => hk
    exact Bank.final_waiting hw i
  | @receive j iter bank hj hrec' =>
    obtain ⟨msg, mailbox, hr⟩ := hocc.reception hrec'
    by_cases hij : i = j
    · subst hij
      refine hround.receive (hup Action.noConfusion) h.vouched hr hmax ?_ rfl
      rintro cmd o rfl hkind
      exact hreply i cmd o (.inr (.inl (hr.receives.first ▸ List.mem_cons_self))) hkind
    · refine hround.same rfl rfl (hr.receives.others i hij) fun k out hk _ => ⟨?_, hk.2⟩
      exact hr.receives.outbox ▸ hk.1
  | @call j bank finishing hj hcall =>
    have hacts := Bank.call_cases hcall (hocc.register j).steady
    by_cases hij : i = j
    · subst hij
      exact hround.call hocc hacts (hup Action.noConfusion) rfl
    · exact hround.same rfl rfl (hacts.others i hij) fun k out hk hi =>
        ⟨hacts.posted_other hk.1 hk.2 (hi ▸ hij), hk.2⟩
  | crash =>
    exact .of_idle (Bank.resting_of_eq rfl (.inl rfl)) idle_freshRegister rfl hround.posted
      fun hs' => by cases hs'
  | restart hrestart =>
    -- a register comes back with the round it has stored, which no broadcast is beyond
    have hr := hocc.restarted hrestart
    obtain ⟨cmd, hrestored⟩ := registers_of_restart hrestart hi
    obtain ⟨hself, hnumber⟩ := round_restored hrestored
    have hstored : s'.bank.storedRound i = s.bank.storedRound i := by
      unfold Bank.storedRound Bank.stableState
      rw [hr.stable]
    refine .of_idle (hr.resting i) (hr.idle i) hself (fun k out hk hi => ?_) fun _ => ?_
    · rw [hstored]
      exact hround.posted k out ⟨hr.outbox ▸ hk.1, hk.2⟩ hi
    · rw [hstored, hnumber]
  | _ => exact hround.congr id hcalls rfl rfl rfl rfl rfl fun _ _ hk _ => hk

end Executor
end AtomicDiscDrive
