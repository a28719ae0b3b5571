import AtomicDiscDrive.Executor.Tallies
import AtomicDiscDrive.Executor.Tokens

/-!
# Registers are not re-used while busy

`single_register_thread` puts its index on the ready queue after every message, whether or
not the register has an operation in progress. So the executor may well hand a client
command to a busy register, whose callback is then overwritten (`reused_while_busy`).

It does not happen as long as no client command receives a surplus index while another one is
in progress: what it receives was announced after a command that has been answered, and it is
the first client command to receive an index of the register since. Then the registers are
free. If the replies that arrive also answer what this process has broadcast, the `Ack`s that
complete a write answer its own `WriteProc`, which carries its data (`register_not_reused`).
-/

namespace AtomicDiscDrive
namespace Executor

open Utils AtomicRegisterImplementation

/-- The data of a `WriteProc` broadcast for a write is the data of the write. -/
def OwnData (calls : List Call) (t : Callback) (cmd : SystemRegisterCommand) : Prop :=
  ∀ call data, calls[t]? = some call → call.cmd.content = .write data → isWriteProc cmd = true →
    ∃ ts wr, cmd.content = .writeProc ts wr data

/-- The `WriteProc` of a write has been broadcast. -/
def WroteFor (calls : List Call) (outbox : List Output) (t : Callback) : Prop :=
  ∀ call data, calls[t]? = some call → call.cmd.content = .write data →
    ∃ out ∈ outbox, out.call = some t ∧ isWriteProc out.cmd = true

/-- A register counts an `Ack` only after the `WriteProc` of its command. -/
def Process.AcksWriteProc (s : Process) : Action → Prop
  | .receive i _ => ∀ msg ∈ (s.bank.mailboxes i).head?, ∀ t ∈ (s.bank.registers i).callback,
      msg.isAck (s.bank.registers i).state.readIdent = true →
      ∃ out ∈ s.bank.outbox, out.call = some t ∧ isWriteProc out.cmd = true
  | _ => True

/-- What is broadcast and answered on behalf of writes. -/
structure WritesOwn (s : Process) : Prop where
  sent : ∀ out ∈ s.bank.outbox, ∀ t, out.call = some t → OwnData s.calls t out.cmd
  due : ∀ i cmd t, .broadcast cmd ∈ s.bank.due i → s.bank.inHand i = some t →
    OwnData s.calls t cmd
  completing : ∀ i t op, .operationComplete t op ∈ s.bank.due i →
    WroteFor s.calls s.bank.outbox t
  fired : ∀ f ∈ s.bank.fired, WroteFor s.calls s.bank.outbox f.1
  known : ∀ out ∈ s.bank.outbox, ∀ t, out.call = some t →
    t < s.calls.length ∧ out.target = none
  knownFired : ∀ f ∈ s.bank.fired, f.1 < s.calls.length

/-- Messages handed to registers, and the callbacks they found there. -/
structure HandsFree (s : Process) : Prop where
  unfired : ∀ h ∈ s.handings, h.unfired = []
  handed : ∀ h ∈ s.handings, h.callback ∈ s.bank.fired.map Prod.fst ∨
    h.callback ∈ s.mail h.register ∨ s.bank.inHand h.register = some h.callback
  started : ∀ x ∈ s.bank.started, x.2 = none

variable {N R : ℕ} {selfIdent : UInt8} {s s' : Process} {a : Action}

/-! ## Handing out -/

theorem HandsFree.of_same (h : HandsFree s) (hhandings : s'.handings = s.handings)
    (hfired : s'.bank.fired = s.bank.fired) (hstarted : s'.bank.started = s.bank.started)
    (hmail : ∀ i, s'.mail i = s.mail i) (hhand : ∀ i, s'.bank.inHand i = s.bank.inHand i) :
    HandsFree s' := by
  refine ⟨fun x hx => ?_, fun x hx => ?_, fun x hx => ?_⟩
  · rw [hhandings] at hx
    exact h.unfired x hx
  · rw [hhandings] at hx
    rw [hfired, hmail, hhand]
    exact h.handed x hx
  · rw [hstarted] at hx
    exact h.started x hx

theorem HandsFree.of_nil (h : HandsFree s) (hhandings : s'.handings = [])
    (hstarted : s'.bank.started = s.bank.started) : HandsFree s' := by
  refine ⟨fun x hx => ?_, fun x hx => ?_, fun x hx => h.started x (hstarted ▸ hx)⟩
  all_goals
    rw [hhandings] at hx
    cases hx

/-- A register whose index a call holds has answered everything it was handed. -/
theorem unfired_eq_nil (hocc : Occupied N selfIdent s) (h : HandsFree s) {i : ℕ} {t : Callback}
    (hgrant : s.grants i t) : s.unfired i = [] := by
  obtain ⟨holder, hholder⟩ := hocc.held i
  obtain ⟨_, hmail, hhand⟩ := heldBy_of_grants hholder hgrant
  unfold Process.unfired
  rw [List.filter_eq_nil_iff]
  intro u hu hnot
  simp only [List.mem_map, List.mem_filter, decide_eq_true_eq] at hu
  obtain ⟨x, ⟨hx, rfl⟩, rfl⟩ := hu
  rcases h.handed x hx with hfired | hmailed | hinhand
  · exact absurd hfired (of_decide_eq_true hnot)
  · rw [hmail] at hmailed
    cases hmailed
  · rw [hhand] at hinhand
    cases hinhand

theorem handsFree_hand (hocc : Occupied N selfIdent s) (h : HandsFree s) {i : ℕ} {t : Callback}
    {cmd : ClientRegisterCommand} (hpc : s.pcs t = .entered i)
    (hbank : s'.bank = s.bank.deliver i (.client cmd t))
    (hhandings : s'.handings = s.handings ++ [⟨i, t, s.unfired i⟩]) : HandsFree s' := by
  have hgrant : s.grants i t := by
    unfold Process.grants
    rw [hpc]
    rfl
  have hmail : ∀ j u, u ∈ s.mail j → u ∈ s'.mail j := fun j u hu => by
    unfold Process.mail at hu ⊢
    rw [hbank]
    by_cases hj : j = i
    · subst hj
      simp only [Bank.deliver, Function.update_self, List.filterMap_append, List.mem_append]
      exact .inl hu
    · simp only [Bank.deliver, Function.update_of_ne hj]
      exact hu
  refine ⟨fun x hx => ?_, fun x hx => ?_, fun x hx => ?_⟩
  · rw [hhandings, List.mem_append, List.mem_singleton] at hx
    rcases hx with hx | rfl
    · exact h.unfired x hx
    · exact unfired_eq_nil hocc h hgrant
  · rw [hhandings, List.mem_append, List.mem_singleton] at hx
    rcases hx with hx | rfl
    · rcases h.handed x hx with hfired | hmailed | hinhand
      · rw [hbank]
        exact .inl hfired
      · exact .inr (.inl (hmail _ _ hmailed))
      · rw [hbank]
        exact .inr (.inr hinhand)
    · -- the message just sent
      refine .inr (.inl ?_)
      unfold Process.mail
      rw [hbank]
      simp [Bank.deliver, WorkerMessage.callback?]
  · rw [hbank] at hx
    exact h.started x hx

theorem handsFree_receive (hocc : Occupied N selfIdent s) (h : HandsFree s) {i : ℕ}
    {iter : IterOrder} (hrec : s.bank.receive i iter = some s'.bank)
    (hhandings : s'.handings = s.handings) : HandsFree s' := by
  obtain ⟨msg, mailbox, hr⟩ := hocc.reception hrec
  refine ⟨fun x hx => h.unfired x (hhandings ▸ hx), fun x hx => ?_, fun x hx => ?_⟩
  · rw [hr.receives.fired]
    by_cases hj : x.register = i
    · rw [hj, hr.handAfter]
      have hx' := h.handed x (hhandings ▸ hx)
      rw [hj] at hx'
      have hmail : s.mail i = msg.callback?.toList ++ s'.mail i := by
        unfold Process.mail
        rw [hr.receives.first, hr.receives.mailbox]
        cases msg <;> rfl
      cases msg with
      | client cmd t =>
        -- what was in the mailbox is in hand now, and nothing was in hand before
        obtain ⟨_, hnil, hnone⟩ := hr.client cmd t rfl
        rcases hx' with hfired | hmailed | hinhand
        · exact .inl hfired
        · have hnil' : s'.mail i = [] := by
            unfold Process.mail
            rw [hr.receives.mailbox, hnil]
          rw [hmail, hnil', List.append_nil] at hmailed
          refine .inr (.inr ?_)
          rw [List.mem_singleton.mp hmailed]
          rfl
        · rw [hnone] at hinhand
          cases hinhand
      | system cmd o =>
        rw [hmail] at hx'
        exact hx'
    · have hsame := hr.receives.others x.register hj
      have hx' := h.handed x (hhandings ▸ hx)
      rwa [← hsame.inHand, ← mail_congr hsame.mailboxes] at hx'
  · rw [hr.receives.started] at hx
    cases msg with
    | client cmd t =>
      simp only [List.mem_append, List.mem_singleton] at hx
      rcases hx with hx | rfl
      · exact h.started x hx
      · exact hr.hand.symm.trans (hr.client cmd t rfl).2.2
    | system cmd o => exact h.started x hx

theorem handsFree_call (hocc : Occupied N selfIdent s) (h : HandsFree s) {i : ℕ}
    (hcall : s.bank.call i = some s'.bank) (hhandings : s'.handings = s.handings) :
    HandsFree s' := by
  have hacts := Bank.call_cases hcall (hocc.register i).steady
  obtain ⟨_, hdeed⟩ := (hocc.register i).call hacts
  have hmail : ∀ j, s'.mail j = s.mail j := fun j => mail_congr (by rw [hacts.mailboxes])
  refine ⟨fun x hx => h.unfired x (hhandings ▸ hx), fun x hx => ?_, fun x hx => ?_⟩
  · rw [hmail]
    rcases h.handed x (hhandings ▸ hx) with hfired | hmailed | hinhand
    · obtain ⟨f, hf, hfx⟩ := List.mem_map.mp hfired
      exact .inl (List.mem_map.mpr ⟨f, hacts.fired_subset hf, hfx⟩)
    · exact .inr (.inl hmailed)
    · by_cases hj : x.register = i
      · rw [hj] at hinhand ⊢
        rcases hdeed.hand with hsame | ⟨_, t, op, hsome, hfired⟩
        · exact .inr (.inr (hsame.trans hinhand))
        · -- the callback has just been called
          rw [hinhand] at hsome
          cases hsome
          rw [hfired]
          exact .inl (by simp)
      · exact .inr (.inr ((hacts.others x.register hj).inHand.trans hinhand))
  · rw [hacts.started] at hx
    exact h.started x hx

/-- **Handing out, step by step.** -/
theorem handsFree_step (hocc : Occupied N selfIdent s) (h : HandsFree s)
    (hstep : s.step N R selfIdent a = some s') : HandsFree s' := by
  cases step_event hstep with
  | shuffle _ hs =>
    exact h.of_same hs.handings (by rw [hs.bank]) (by rw [hs.bank])
      (fun i => mail_congr (by rw [hs.bank])) (fun i => by rw [hs.bank])
  | submit _ => exact ⟨h.unfired, h.handed, h.started⟩
  | dispatch _ _ => exact ⟨h.unfired, h.handed, h.started⟩
  | take _ _ _ => exact ⟨h.unfired, h.handed, h.started⟩
  | hand hcall hpc => exact handsFree_hand hocc h hpc rfl rfl
  | @deliver j i task _ _ =>
    exact h.of_same rfl rfl rfl (fun k => mail_deliver_system rfl k) (fun k => rfl)
  | @announce i _ hw =>
    exact h.of_same rfl rfl rfl (fun k => rfl) (Bank.inHand_waiting hw)
  | receive _ hrec => exact handsFree_receive hocc h hrec rfl
  | call _ hcall => exact handsFree_call hocc h hcall rfl
  | crash => exact h.of_nil rfl rfl
  | restart hrestart =>
    have hr := hocc.restarted hrestart
    exact h.of_nil hr.handings hr.started

/-! ## Writes are answered after their own data was broadcast -/

section

variable {calls : List Call} {t : Callback} {cmd : SystemRegisterCommand}
  {outbox outbox' : List Output}

theorem OwnData.append (h : OwnData calls t cmd) (ht : t < calls.length) (l : List Call) :
    OwnData (calls ++ l) t cmd := by
  intro call data hcall
  rw [List.getElem?_append_left ht] at hcall
  exact h call data hcall

theorem WroteFor.append (h : WroteFor calls outbox t) (ht : t < calls.length) (l : List Call) :
    WroteFor (calls ++ l) outbox t := by
  intro call data hcall
  rw [List.getElem?_append_left ht] at hcall
  exact h call data hcall

theorem WroteFor.mono (h : WroteFor calls outbox t) (hsub : ∀ out ∈ outbox, out ∈ outbox') :
    WroteFor calls outbox' t := by
  intro call data hcall hdata
  obtain ⟨out, hout, hrest⟩ := h call data hcall hdata
  exact ⟨out, hsub out hout, hrest⟩

end

theorem WritesOwn.of_same (h : WritesOwn s) (hcalls : s'.calls = s.calls)
    (houtbox : s'.bank.outbox = s.bank.outbox) (hfired : s'.bank.fired = s.bank.fired)
    (hdue : ∀ i, s'.bank.due i = s.bank.due i ∧ s'.bank.inHand i = s.bank.inHand i ∨
      s'.bank.due i = []) : WritesOwn s' := by
  refine ⟨?_, fun i cmd t hmem hhand => ?_, fun i t op hmem => ?_, ?_, ?_, ?_⟩
  · rw [hcalls, houtbox]
    exact h.sent
  · rw [hcalls]
    rcases hdue i with ⟨hd, hh⟩ | hnil
    · exact h.due i cmd t (hd ▸ hmem) (hh ▸ hhand)
    · rw [hnil] at hmem
      cases hmem
  · rw [hcalls, houtbox]
    rcases hdue i with ⟨hd, _⟩ | hnil
    · exact h.completing i t op (hd ▸ hmem)
    · rw [hnil] at hmem
      cases hmem
  · rw [hcalls, houtbox, hfired]
    exact h.fired
  · rw [hcalls, houtbox]
    exact h.known
  · rw [hcalls, hfired]
    exact h.knownFired

theorem writesOwn_invoke (hocc : Occupied N selfIdent s) (h : WritesOwn s) (call : Call)
    (hbank : s'.bank = s.bank) (hcalls : s'.calls = s.calls ++ [call]) : WritesOwn s' := by
  have hlen : ∀ (t : ℕ) c, s.calls[t]? = some c → t < s.calls.length := fun t c hc =>
    (List.getElem?_eq_some_iff.mp hc).1
  have hgrow : ∀ t, t < s.calls.length → t < (s.calls ++ [call]).length := fun t ht => by
    rw [List.length_append]
    omega
  constructor
  all_goals
    rw [hbank, hcalls]
  · exact fun out hout t ht => (h.sent out hout t ht).append (h.known out hout t ht).1 _
  · intro i cmd t hmem hhand
    obtain ⟨c, hc⟩ := Mode.known (hhand ▸ (hocc.register i).mode)
    exact (h.due i cmd t hmem hhand).append (hlen t c hc) _
  · intro i t op hmem
    obtain ⟨_, c, hc, _⟩ := (hocc.register i).mode.of_mem_complete hmem
    exact (h.completing i t op hmem).append (hlen t c hc) _
  · exact fun f hf => (h.fired f hf).append (h.knownFired f hf) _
  · exact fun out hout t ht =>
      ⟨hgrow t (h.known out hout t ht).1, (h.known out hout t ht).2⟩
  · exact fun f hf => hgrow f.1 (h.knownFired f hf)

theorem not_broadcast_mem_report {register : AtomicRegisterImplementation}
    {op : OperationComplete} {cmd : SystemRegisterCommand} :
    .broadcast cmd ∉ report register op := by
  simp [report]

/-- What a handler will broadcast for a write carries the data of the write. -/
theorem ownData_of_outcome {calls : List Call} {register final : AtomicRegisterImplementation}
    {msg : WorkerMessage} {ops : List RegisterOp} {hand : Option Callback} {t : Callback}
    {cmd : SystemRegisterCommand} (hmode : Mode calls register [] hand)
    (hout : Outcome register msg ops final) (hmem : .broadcast cmd ∈ ops)
    (hhand : msg.callback?.or hand = some t) : OwnData calls t cmd := by
  intro call data hcall hdata hwrite
  -- the operation in hand is the write
  have hserves : msg.callback? = none → (register.reading = true ∨ register.state.writing = true) →
      Serves register t call.cmd := fun hmsg hbusy => by
    rw [hmsg, Option.none_or] at hhand
    rw [hhand] at hmode
    cases hmode with
    | serving hcall' h _ =>
      rw [hcall] at hcall'
      cases hcall'
      exact h
    | completing _ _ _ hops => simp at hops
  cases hout with
  | client cmd u =>
    simp only [List.mem_cons, reduceCtorEq, RegisterOp.broadcast.injEq, List.not_mem_nil, or_false,
      false_or] at hmem
    rw [hmem] at hwrite
    cases hwrite
  | quiet _ _ => cases hmem
  | collected _ _ _ _ _ => cases hmem
  | counted _ _ => cases hmem
  | read o hid hreading hmax hval =>
    have h := (hserves rfl (.inl hreading)).write data hdata
    exact absurd (h.1.symm.trans hreading) Bool.noConfusion
  | write o hid hreading hwriting hval =>
    have h := (hserves rfl (.inr hwriting)).write data hdata
    rw [hval, Option.some.injEq] at h
    simp only [List.mem_cons, reduceCtorEq, RegisterOp.broadcast.injEq, List.not_mem_nil, or_false,
      false_or] at hmem
    rw [hmem, h.2.2]
    exact ⟨_, _, rfl⟩
  | readDone _ _ _ _ => exact absurd hmem not_broadcast_mem_report
  | writeDone _ _ _ _ _ =>
    rw [List.mem_cons] at hmem
    rcases hmem with hmem | hmem
    · cases hmem
    · exact absurd hmem not_broadcast_mem_report

/-- A handler that will call the callback handles an `Ack` of the current phase. -/
theorem isAck_of_outcome {register final : AtomicRegisterImplementation} {msg : WorkerMessage}
    {ops : List RegisterOp} {t : Callback} {op : OperationComplete}
    (hout : Outcome register msg ops final) (hmem : .operationComplete t op ∈ ops) :
    register.callback = some t ∧ msg.isAck register.state.readIdent = true := by
  have hreport : ∀ op', .operationComplete t op ∈ report register op' →
      register.callback = some t := fun op' h => by
    simp only [report, List.mem_map, Option.mem_toList, RegisterOp.operationComplete.injEq] at h
    obtain ⟨u, hu, rfl, _⟩ := h
    exact hu
  cases hout with
  | client cmd u => simp at hmem
  | quiet _ _ => cases hmem
  | collected _ _ _ _ _ => cases hmem
  | counted _ _ => cases hmem
  | read _ _ _ _ _ => simp at hmem
  | write _ _ _ _ _ => simp at hmem
  | readDone o hid _ _ => exact ⟨hreport _ hmem, decide_eq_true hid⟩
  | writeDone o hid _ _ _ =>
    rw [List.mem_cons] at hmem
    rcases hmem with hmem | hmem
    · cases hmem
    · exact ⟨hreport _ hmem, decide_eq_true hid⟩

/-- The `WriteProc` of a write carries its data, and an `Ack` counts only after it. -/
theorem writesOwn_receive (hocc : Occupied N selfIdent s) (h : WritesOwn s) {i : ℕ}
    {iter : IterOrder} (hack : s.AcksWriteProc (.receive i iter))
    (hrec : s.bank.receive i iter = some s'.bank) (hcalls : s'.calls = s.calls) :
    WritesOwn s' := by
  obtain ⟨msg, mailbox, hr⟩ := hocc.reception hrec
  have hfirst : msg ∈ (s.bank.mailboxes i).head? := by rw [hr.receives.first]; rfl
  refine ⟨?_, fun j cmd t hmem hhand => ?_, fun j t op hmem => ?_, ?_, ?_, ?_⟩
  · rw [hcalls, hr.receives.outbox]
    exact h.sent
  · rw [hcalls]
    by_cases hj : j = i
    · subst hj
      exact ownData_of_outcome hr.mode hr.outcome hmem (hr.handAfter ▸ hhand)
    · have hsame := hr.receives.others j hj
      exact h.due j cmd t (hsame.due ▸ hmem) (hsame.inHand ▸ hhand)
  · rw [hcalls, hr.receives.outbox]
    by_cases hj : j = i
    · subst hj
      obtain ⟨hcallback, hisAck⟩ := isAck_of_outcome hr.outcome hmem
      exact fun call data _ _ => hack msg hfirst t hcallback hisAck
    · have hsame := hr.receives.others j hj
      exact h.completing j t op (hsame.due ▸ hmem)
  · rw [hcalls, hr.receives.outbox, hr.receives.fired]
    exact h.fired
  · rw [hcalls, hr.receives.outbox]
    exact h.known
  · rw [hcalls, hr.receives.fired]
    exact h.knownFired

theorem writesOwn_call (hocc : Occupied N selfIdent s) (h : WritesOwn s) {i : ℕ}
    (hcall : s.bank.call i = some s'.bank) (hcalls : s'.calls = s.calls) : WritesOwn s' := by
  have hacts := Bank.call_cases hcall (hocc.register i).steady
  obtain ⟨_, hdeed⟩ := (hocc.register i).call hacts
  have hsub : ∀ out ∈ s.bank.outbox, out ∈ s'.bank.outbox := fun out => hacts.outbox_subset
  have hlen : ∀ (t : ℕ) c, s.calls[t]? = some c → t < s.calls.length := fun t c hc =>
    (List.getElem?_eq_some_iff.mp hc).1
  refine ⟨fun out hout t ht => ?_, fun j cmd t hmem hin => ?_, fun j t op hmem => ?_,
    fun f hf => ?_, fun out hout t ht => ?_, fun f hf => ?_⟩
  · rw [hcalls]
    rcases hacts.outbox_cases hout with hout | hnone | ⟨hmem, hin, _⟩
    · exact h.sent out hout t ht
    · rw [hnone] at ht
      cases ht
    · exact h.due i out.cmd t hmem (hin ▸ ht)
  · rw [hcalls]
    by_cases hj : j = i
    · subst hj
      rcases hdeed.hand with hsame | ⟨hnone, _⟩
      · exact h.due j cmd t (hacts.due_subset hmem) (hsame ▸ hin)
      · rw [hnone] at hin
        cases hin
    · have hsame := hacts.others j hj
      exact h.due j cmd t (hsame.due ▸ hmem) (hsame.inHand ▸ hin)
  · rw [hcalls]
    refine WroteFor.mono ?_ hsub
    by_cases hj : j = i
    · subst hj
      exact h.completing j t op (hacts.due_subset hmem)
    · exact h.completing j t op ((hacts.others j hj).due ▸ hmem)
  · rw [hcalls]
    refine WroteFor.mono ?_ hsub
    rcases hacts.fired_cases hf with hf | hdue
    · exact h.fired f hf
    · exact h.completing i f.1 f.2 hdue
  · rw [hcalls]
    rcases hacts.outbox_cases hout with hout | hnone | ⟨_, hin, htarget⟩
    · exact h.known out hout t ht
    · rw [hnone] at ht
      cases ht
    · -- a message is sent for the command in hand, which is one of the calls
      obtain ⟨c, hc⟩ := Mode.known ((hin.symm.trans ht) ▸ (hocc.register i).mode)
      exact ⟨hlen t c hc, htarget⟩
  · rw [hcalls]
    rcases hacts.fired_cases hf with hf | hdue
    · exact h.knownFired f hf
    · obtain ⟨_, c, hc, _⟩ := (hocc.register i).mode.of_mem_complete hdue
      exact hlen f.1 c hc

/-- **Answers to writes, step by step.** -/
theorem writesOwn_step (hocc : Occupied N selfIdent s) (h : WritesOwn s)
    (hack : s.AcksWriteProc a) (hstep : s.step N R selfIdent a = some s') : WritesOwn s' := by
  cases step_event hstep with
  | shuffle _ hs =>
    exact h.of_same hs.calls (by rw [hs.bank]) (by rw [hs.bank])
      fun i => .inl (by rw [hs.bank]; exact ⟨rfl, rfl⟩)
  | submit _ => exact writesOwn_invoke hocc h _ rfl rfl
  | dispatch _ _ => exact writesOwn_invoke hocc h _ rfl rfl
  | take _ _ _ => exact h.of_same rfl rfl rfl fun i => .inl ⟨rfl, rfl⟩
  | hand _ _ => exact h.of_same rfl rfl rfl fun i => .inl ⟨rfl, rfl⟩
  | deliver _ _ => exact h.of_same rfl rfl rfl fun i => .inl ⟨rfl, rfl⟩
  | @announce i _ hw =>
    exact h.of_same rfl rfl rfl fun k =>
      .inl ⟨Bank.due_waiting hw k, Bank.inHand_waiting hw k⟩
  | receive _ hrec => exact writesOwn_receive hocc h hack hrec rfl
  | call _ hcall => exact writesOwn_call hocc h hcall rfl
  | crash => exact h.of_same rfl rfl rfl fun i => .inr (Bank.due_of_ready rfl)
  | restart hrestart =>
    have hr := hocc.restarted hrestart
    exact h.of_same hr.calls hr.outbox hr.fired fun i => .inr (hr.resting i).due

/-! ## The law, and how it fails -/

theorem handsFree_init : HandsFree (.init N selfIdent) :=
  ⟨fun _ hx => absurd hx List.not_mem_nil, fun _ hx => absurd hx List.not_mem_nil,
    fun _ hx => absurd hx List.not_mem_nil⟩

theorem writesOwn_init : WritesOwn (.init N selfIdent) :=
  ⟨fun _ hx => absurd hx List.not_mem_nil, fun _ _ _ hx => absurd hx List.not_mem_nil,
    fun _ _ _ hx => absurd hx List.not_mem_nil, fun _ hx => absurd hx List.not_mem_nil,
    fun _ hx => absurd hx List.not_mem_nil, fun _ hx => absurd hx List.not_mem_nil⟩

/-! ## Replies -/

instance (request reply : SystemRegisterCommand) : Decidable (Answers request reply) :=
  decidable_of_iff
    (reply.header.msgIdent = request.header.msgIdent ∧
      reply.header.readIdent = request.header.readIdent ∧
      reply.header.sectorIdx = request.header.sectorIdx ∧
      (match reply.content with
        | .value _ _ _ => decide (request.content = .readProc)
        | .ack => isWriteProc request
        | _ => false) = true) (by
    obtain ⟨header, content⟩ := reply
    constructor
    · rintro ⟨hmsg, hread, hsector, hkind⟩
      refine ⟨hmsg, hread, hsector, ?_, fun ts wr data hvalue => ?_, fun hack => ?_⟩
      · cases content with
        | value _ _ _ | ack => rfl
        | readProc | writeProc _ _ _ => cases hkind
      · cases hvalue
        exact of_decide_eq_true hkind
      · cases hack
        exact hkind
    · rintro ⟨hmsg, hread, hsector, hkind, hvalue, hack⟩
      refine ⟨hmsg, hread, hsector, ?_⟩
      cases content with
      | value ts wr data => exact decide_eq_true (hvalue ts wr data rfl)
      | ack => exact hack rfl
      | readProc | writeProc _ _ _ => cases hkind)

/-- A reply that is sent to this process answers one of its broadcasts. -/
def Process.MayArrive (selfIdent : UInt8) (s : Process) (cmd : SystemRegisterCommand) (o : Origin) :
    Prop :=
  Process.isRequest cmd = false → o.process = selfIdent ∧
    ∃ request ∈ s.bank.outbox[o.index]?, request.target = none ∧ Answers request.cmd cmd

/-- The replies that arrive answer broadcasts of this process. -/
def Process.RepliesAnswer (selfIdent : UInt8) (s : Process) : Action → Prop
  | .arrive cmd o => s.MayArrive selfIdent cmd o
  | _ => True

instance (selfIdent : UInt8) (s : Process) (a : Action) : Decidable (s.RepliesAnswer selfIdent a) :=
  match a with
  | .arrive cmd o => inferInstanceAs (Decidable (Process.isRequest cmd = false →
      o.process = selfIdent ∧
        ∃ request ∈ s.bank.outbox[o.index]?, request.target = none ∧ Answers request.cmd cmd))
  | .submit _ | .reject _ | .dispatch | .client _ | .system _ | .announce _ | .receive _ _ | .call _
  | .finish _ _ | .crash | .restart => inferInstanceAs (Decidable True)

/-- Client commands receive no surplus indices, clients choose new identifiers,
recovered commands go back to their registers, no `read_ident` wraps around, and replies answer
broadcasts of this process. -/
def Tokens.Regular (selfIdent : UInt8) (q : Tokens) (a : Action) : Prop :=
  q.TakesReady a ∧ q.process.FreshIdent a ∧ q.process.TakesHome a ∧ q.process.BelowMax a ∧
    q.process.RepliesAnswer selfIdent a

instance (selfIdent : UInt8) (q : Tokens) (a : Action) : Decidable (q.Regular selfIdent a) :=
  instDecidableAnd

/-- **An `Ack` counts only after the `WriteProc`** that it answers. -/
theorem Attributed.acksWriteProc {Sent : SystemRegisterCommand → Origin → Prop}
    (h : Attributed N R selfIdent Sent s) (hstep : s.step N R selfIdent a = some s') :
    s.AcksWriteProc a := by
  cases a with
  | receive i iter =>
    obtain ⟨_, hi, -⟩ := receive_of_step hstep
    intro msg hmsg t ht hack
    cases msg with
    | client cmd u => cases hack
    | system cmd o =>
      obtain ⟨header, content⟩ := cmd
      cases content with
      | ack =>
        have hround : header.readIdent = (s.bank.registers i).state.readIdent :=
          of_decide_eq_true hack
        have hheld : s.Held i ⟨header, .ack⟩ o := .inr (.inl (List.mem_of_mem_head? hmsg))
        have hreply := (h.held i _ o hheld).2 rfl
        -- what it answers was asked by this register, for the command in hand
        obtain ⟨request, call, hasked⟩ := h.asked hi hreply hround ht
        exact ⟨request, List.mem_of_getElem? hasked.posted.1, hasked.operation,
          hasked.answers.ack rfl⟩
      | readProc | value _ _ _ | writeProc _ _ _ => cases hack
  | _ => trivial

theorem attributed_regular {q q' : Tokens}
    (h : Attributed N R selfIdent (q.process.MayArrive selfIdent) q.process) (hq : Provenance q)
    (hregular : q.Regular selfIdent a) (hstep : q.step N R selfIdent a = some q') :
    Attributed N R selfIdent (q'.process.MayArrive selfIdent) q'.process := by
  obtain ⟨htakes, hfresh, hhome, hmax, hreplies⟩ := hregular
  obtain ⟨process, hprocess, rfl⟩ := Option.map_eq_some_iff.mp hstep
  rw [Tokens.record_process]
  have hown : q.process.AnswersOwnBroadcasts (q.process.MayArrive selfIdent) selfIdent := by
    intro cmd o hmay hkind
    obtain ⟨hself, request, hrequest, htarget, hanswers⟩ := hmay hkind
    exact ⟨request, hself, ⟨hrequest, htarget⟩, hanswers⟩
  have harrive : ∀ cmd o, a = .arrive cmd o → q.process.MayArrive selfIdent cmd o := by
    rintro cmd o rfl
    exact hreplies
  have hfree := hq.takesFree h.recorded.occupied h.recorded.placed htakes
  refine (attributed_step h hown harrive ⟨hfresh, ⟨hfree, hhome⟩, hmax⟩ hprocess).mono ?_
  intro cmd o hmay hkind
  obtain ⟨hself, request, hrequest, hrest⟩ := hmay hkind
  exact ⟨hself, request, outbox_mono h.recorded.occupied hprocess hrequest, hrest⟩

/-- **No register is re-used while busy**, in every run in which client commands receive
surplus indices only while no other one is in progress: whenever a `Client` message is sent to
a register, the callbacks of all messages sent to it before have fired, and no
`client_command` finds a callback in place. If besides the steps are regular, the callback of a
write fires only after a `WriteProc` with the data of that very write was broadcast. -/
theorem register_not_reused :
    (∀ q, Reachable (Tokens.step N R selfIdent) Tokens.TakesReady (.init N selfIdent) q →
      (∀ h ∈ q.process.handings, h.unfired = []) ∧ ∀ x ∈ q.process.bank.started, x.2 = none) ∧
    ∀ q, Reachable (Tokens.step N R selfIdent) (Tokens.Regular selfIdent) (.init N selfIdent) q →
      ∀ f ∈ q.process.bank.fired, ∀ call data, q.process.calls[f.1]? = some call →
        call.cmd.content = .write data →
        ∃ out ∈ q.process.bank.outbox, out.target = none ∧ out.call = some f.1 ∧
          ∃ ts wr, out.cmd.content = .writeProc ts wr data := by
  refine ⟨fun q hq => ?_, fun q hq f hf call data hcall hdata => ?_⟩
  · have hinv : Provenance q ∧ Occupied N selfIdent q.process ∧ Placed q.process ∧
        HandsFree q.process := by
      refine hq.invariant (fun q => Provenance q ∧ Occupied N selfIdent q.process ∧
        Placed q.process ∧ HandsFree q.process)
        ⟨provenance_init, occupied_init, placed_init, handsFree_init⟩ ?_
      rintro q a q' - ⟨hprov, hocc, hplaced, hhands⟩ htakes hstep
      refine ⟨hprov.step hocc hstep, ?_⟩
      obtain ⟨process, hprocess, rfl⟩ := Option.map_eq_some_iff.mp hstep
      rw [Tokens.record_process]
      exact ⟨occupied_step hocc (hprov.takesFree hocc hplaced htakes) hprocess,
        placed_step hocc hplaced hprocess, handsFree_step hocc hhands hprocess⟩
    exact ⟨hinv.2.2.2.unfired, hinv.2.2.2.started⟩
  · have hinv : Provenance q ∧ WritesOwn q.process ∧
        Attributed N R selfIdent (q.process.MayArrive selfIdent) q.process := by
      refine hq.invariant (fun q => Provenance q ∧ WritesOwn q.process ∧
        Attributed N R selfIdent (q.process.MayArrive selfIdent) q.process)
        ⟨provenance_init, writesOwn_init, attributed_init⟩ ?_
      rintro q a q' - ⟨hprov, hwrites, hattributed⟩ hregular hstep
      have hocc := hattributed.recorded.occupied
      refine ⟨hprov.step hocc hstep, ?_, attributed_regular hattributed hprov hregular hstep⟩
      obtain ⟨process, hprocess, rfl⟩ := Option.map_eq_some_iff.mp hstep
      rw [Tokens.record_process]
      exact writesOwn_step hocc hwrites (hattributed.acksWriteProc hprocess) hprocess
    obtain ⟨-, hwrites, -⟩ := hinv
    obtain ⟨out, hout, hfor, hwrite⟩ := hwrites.fired f hf call data hcall hdata
    exact ⟨out, hout, (hwrites.known out hout f.1 hfor).2, hfor,
      hwrites.sent out hout f.1 hfor call data hcall hdata hwrite⟩

set_option maxRecDepth 100000 in
/-- One register carries out a write, and is handed another one with an index that it announced
after the first. -/
theorem register_not_reused_two_writes :
    ∃ q, Reachable (Tokens.step 1 1 1) (Tokens.Regular 1) (.init 1 1) q ∧
      q.process.handings.map Handing.callback = [0, 1] ∧
      q.received = [(0, none), (0, some 0)] ∧ (∀ h ∈ q.process.handings, h.unfired = []) ∧
      ∃ out ∈ q.process.bank.outbox, out.call = some 0 ∧
        ∃ ts wr, out.cmd.content = .writeProc ts wr (.fill 1) := by
  have hrun : ∃ q, Reachable (Tokens.step 1 1 1) (Tokens.Regular 1) (.init 1 1) q ∧
      q.process.handings.map Handing.callback = [0, 1] ∧
      q.received = [(0, none), (0, some 0)] ∧ q.process.bank.fired.map Prod.fst = [0] ∧
      q.process.calls[0]? = some ⟨0, ⟨⟨7, 0⟩, .write (.fill 1)⟩, none⟩ :=
    exists_of_exec (writeRun ++ [.submit ⟨⟨8, 1⟩, .write (.fill 2)⟩] ++ handOver 1 ++
      handleNext 0 2) (by decide +kernel)
  obtain ⟨q, hq, hhandings, hreceived, hfired, hcall⟩ := hrun
  obtain ⟨hunfired, -⟩ := register_not_reused.1 q (hq.mono fun _ _ h => h.1)
  have hmem : 0 ∈ q.process.bank.fired.map Prod.fst := by
    rw [hfired]
    exact List.mem_singleton_self 0
  obtain ⟨f, hf, hf0⟩ := List.mem_map.mp hmem
  obtain ⟨out, hout, -, hfor, hcontent⟩ :=
    register_not_reused.2 q hq f hf _ _ (hf0 ▸ hcall) rfl
  exact ⟨q, hq, hhandings, hreceived, hunfired, out, hout, hf0 ▸ hfor, hcontent⟩

set_option maxRecDepth 100000 in
/-- Two writes on different sectors, with different request numbers, and one register: after
`client_command` has broadcast its `ReadProc`, the thread announces the register again. The
second write is handed to it while the first one is in progress, and its callback replaces
the first one's. -/
theorem reused_while_busy : ∃ s, Reachable (Process.step 3 1 1) (fun _ _ => True) (.init 3 1) s ∧
    s.calls = [⟨0, ⟨⟨1, 0⟩, .write (.fill 1)⟩, none⟩, ⟨1, ⟨⟨2, 1⟩, .write (.fill 2)⟩, none⟩] ∧
    s.handings = [⟨0, 0, []⟩, ⟨0, 1, [0]⟩] ∧ s.bank.fired = [] ∧
    s.bank.started = [(0, none), (1, some 0)] :=
  exists_of_exec ([.announce 0, .submit ⟨⟨1, 0⟩, .write (.fill 1)⟩] ++ handOver 0 ++
    handleNext 0 2 ++ [.submit ⟨⟨2, 1⟩, .write (.fill 2)⟩] ++ handOver 1 ++
    [.receive 0 .listed]) (by decide +kernel)

end Executor
end AtomicDiscDrive
