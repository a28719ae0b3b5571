import AtomicDiscDrive.Executor.Occupancy

/-!
# Which requests a register reports

A register reports the completion of a request that it was handed since the last start, never
of one that a restart has found in its stable storage: `new` clears the `writing` flag, and
`client_command` sets what it sets anew. `Traced P` says so for identifiers with the property
`P`, whether or not registers are handed one command at a time.
-/

namespace AtomicDiscDrive
namespace Executor

open Utils AtomicRegisterImplementation

/-- The requests in progress at a register have the property `P`. -/
structure Asked (P : UInt64 → Prop) (register : AtomicRegisterImplementation) : Prop where
  read : register.reading = true →
    ∃ readval, register.readval = some readval ∧ P readval.requestIdentifier
  write : register.state.writing = true →
    ∃ writeval, register.state.writeval = some writeval ∧ P writeval.header.requestIdentifier

/-- The requests at register `i`, and those it will report, have the property `P`. -/
structure Traced (P : UInt64 → Prop) (b : Bank) (i : ℕ) : Prop where
  steady : b.Steady i
  asked : Asked P (b.final i)
  due : ∀ t op, .operationComplete t op ∈ b.due i → P op.requestIdentifier
  mail : ∀ cmd t, .client cmd t ∈ b.mailboxes i → P cmd.header.requestIdentifier

variable {P Q : UInt64 → Prop} {register final : AtomicRegisterImplementation} {b b' : Bank} {i : ℕ}

theorem Asked.sound (h : Asked P register) : Sound register where
  readval := by
    intro hreading hnone
    obtain ⟨readval, hval, -⟩ := h.read hreading
    rw [hval] at hnone
    cases hnone
  writeval := by
    intro hwriting hnone
    obtain ⟨writeval, hval, -⟩ := h.write hwriting
    rw [hval] at hnone
    cases hnone

theorem Asked.of_idle (h : Idle register) : Asked P register where
  read := by
    intro hreading
    rw [h.reading] at hreading
    cases hreading
  write := by
    intro hwriting
    rw [h.writing] at hwriting
    cases hwriting

theorem Asked.mono (h : Asked P register) (hPQ : ∀ id, P id → Q id) : Asked Q register where
  read := by
    intro hreading
    obtain ⟨readval, hval, hP⟩ := h.read hreading
    exact ⟨readval, hval, hPQ _ hP⟩
  write := by
    intro hwriting
    obtain ⟨writeval, hval, hP⟩ := h.write hwriting
    exact ⟨writeval, hval, hPQ _ hP⟩

theorem Asked.startCommand (h : Asked P register) {cmd : ClientRegisterCommand} (t : Callback)
    (hcmd : P cmd.header.requestIdentifier) : Asked P (register.startCommand cmd t) := by
  obtain ⟨header, content⟩ := cmd
  cases content with
  | read => exact ⟨fun _ => ⟨_, rfl, hcmd⟩, h.write⟩
  | write data => exact ⟨h.read, fun _ => ⟨_, rfl, hcmd⟩⟩

/-- A handler reports a request in progress, and leaves no others than there were. -/
theorem Asked.outcome {msg : WorkerMessage} {ops : List RegisterOp} (h : Asked P register)
    (hmsg : ∀ cmd t, msg = .client cmd t → P cmd.header.requestIdentifier)
    (hout : Outcome register msg ops final) :
    Asked P final ∧ ∀ t op, .operationComplete t op ∈ ops → P op.requestIdentifier := by
  have hreport : ∀ {op : OperationComplete} {t : Callback} {op' : OperationComplete},
      .operationComplete t op' ∈ report register op → op' = op := by
    intro op t op' hmem
    simp only [report, List.mem_map] at hmem
    obtain ⟨u, -, heq⟩ := hmem
    cases heq
    rfl
  cases hout with
  | client cmd t =>
    refine ⟨h.startCommand t (hmsg cmd t rfl), fun u op hop => ?_⟩
    simp at hop
  | quiet o hquiet => exact ⟨h, fun u op hop => absurd hop List.not_mem_nil⟩
  | collected ts wr data o hid =>
    exact ⟨⟨h.read, h.write⟩, fun u op hop => absurd hop List.not_mem_nil⟩
  | counted o hid => exact ⟨⟨h.read, h.write⟩, fun u op hop => absurd hop List.not_mem_nil⟩
  | @read header ts wr data o max readval hid hreading hmax hval =>
    obtain ⟨readval', hval', hP⟩ := h.read hreading
    rw [hval, Option.some.injEq] at hval'
    subst hval'
    refine ⟨⟨fun _ => ⟨_, rfl, hP⟩, h.write⟩, fun u op hop => ?_⟩
    simp at hop
  | write o hid hreading hwriting hval =>
    refine ⟨⟨h.read, h.write⟩, fun u op hop => ?_⟩
    simp at hop
  | @readDone header o readval hid hreading hval =>
    obtain ⟨readval', hval', hP⟩ := h.read hreading
    rw [hval, Option.some.injEq] at hval'
    subst hval'
    refine ⟨⟨fun hr => Bool.noConfusion hr, h.write⟩, fun u op hop => ?_⟩
    rw [hreport hop]
    exact hP
  | @writeDone header o writeval hid hreading hwriting hval =>
    obtain ⟨writeval', hval', hP⟩ := h.write hwriting
    rw [hval, Option.some.injEq] at hval'
    subst hval'
    refine ⟨⟨h.read, fun hw => Bool.noConfusion hw⟩, fun u op hop => ?_⟩
    rcases List.mem_cons.mp hop with hop | hop
    · cases hop
    · rw [hreport hop]
      exact hP

/-! ## One register -/

theorem Traced.same (h : Traced P b i) (hsame : Bank.SameAt b b' i) : Traced P b' i where
  steady := hsame.steady h.steady
  asked := by
    rw [hsame.final]
    exact h.asked
  due := by
    rw [hsame.due]
    exact h.due
  mail := by
    rw [hsame.mailboxes]
    exact h.mail

theorem Traced.mono (h : Traced P b i) (hPQ : ∀ id, P id → Q id) : Traced Q b i where
  steady := h.steady
  asked := h.asked.mono hPQ
  due := fun t op hop => hPQ _ (h.due t op hop)
  mail := fun cmd t hm => hPQ _ (h.mail cmd t hm)

theorem Traced.of_resting (hrest : b.Resting i) (hasked : Asked P (b.registers i))
    (hmail : ∀ cmd t, .client cmd t ∈ b.mailboxes i → P cmd.header.requestIdentifier) :
    Traced P b i where
  steady := hrest.steady
  asked := by
    rw [hrest.final]
    exact hasked
  due := by
    rw [hrest.due]
    exact fun t op hop => absurd hop List.not_mem_nil
  mail := hmail

theorem Traced.deliver (h : Traced P b i) (j : ℕ) {msg : WorkerMessage}
    (hmsg : ∀ cmd t, msg = .client cmd t → P cmd.header.requestIdentifier) :
    Traced P (b.deliver j msg) i := by
  refine ⟨h.steady, h.asked, h.due, fun cmd t hm => ?_⟩
  by_cases hij : i = j
  · subst hij
    simp only [Bank.deliver, Function.update_self, List.mem_append, List.mem_singleton] at hm
    rcases hm with hm | hm
    · exact h.mail cmd t hm
    · exact hmsg cmd t hm.symm
  · simp only [Bank.deliver, Function.update_of_ne hij] at hm
    exact h.mail cmd t hm

theorem Traced.announce (h : Traced P b i) {j : ℕ} (hw : b.workers j = .ready) :
    Traced P { b with workers := Function.update b.workers j .waiting } i := by
  by_cases hij : i = j
  · subst hij
    have hrest : b.Resting i := Bank.resting_of_eq hw (.inl rfl)
    apply Traced.of_resting
    · exact Bank.resting_of_eq (Function.update_self ..) (.inr rfl)
    · rw [← hrest.final]
      exact h.asked
    · exact h.mail
  · exact h.same ⟨Function.update_of_ne hij .., rfl, rfl, rfl, rfl, rfl, rfl⟩

theorem Traced.receive {iter : IterOrder} {j : ℕ} (h : ∀ i, Traced P b i)
    (hrec : b.receive j iter = some b') : Traced P b' i := by
  have hrest : b.Resting j := by
    unfold Bank.receive at hrec
    split at hrec
    · rename_i hw _
      exact Bank.resting_of_eq hw (.inr rfl)
    · cases hrec
  have hasked : Asked P (b.registers j) := by
    rw [← hrest.final]
    exact (h j).asked
  obtain ⟨msg, mailbox, hreceives, hsteady, hout⟩ := Bank.receive_cases hrec hasked.sound
  by_cases hij : i = j
  · subst hij
    have hmail : ∀ cmd t, .client cmd t ∈ msg :: mailbox → P cmd.header.requestIdentifier := by
      rw [← hreceives.first]
      exact (h i).mail
    obtain ⟨hfinal, hdue⟩ := hasked.outcome
      (fun cmd t hmsg => hmail cmd t (hmsg ▸ List.mem_cons_self)) hout
    refine ⟨hsteady, hfinal, hdue, fun cmd t hm => ?_⟩
    rw [hreceives.mailbox] at hm
    exact hmail cmd t (List.mem_cons_of_mem _ hm)
  · exact (h i).same (hreceives.others i hij)

theorem Traced.call {j : ℕ} (h : ∀ i, Traced P b i) (hcall : b.call j = some b') :
    Traced P b' i := by
  have hacts := Bank.call_cases hcall (h j).steady
  by_cases hij : i = j
  · subst hij
    have hdue : ∀ t op, .operationComplete t op ∈ b'.due i → P op.requestIdentifier :=
      fun t op hop => (h i).due t op (hacts.due_subset hop)
    have hmail : ∀ cmd t, .client cmd t ∈ b'.mailboxes i → P cmd.header.requestIdentifier := by
      rw [hacts.mailboxes]
      exact (h i).mail
    have hworks : ∀ {msg}, Bank.Works b b' i msg → Traced P b' i := fun hworks =>
      ⟨hworks.steady, hworks.final ▸ (h i).asked, hdue, hmail⟩
    cases hacts with
    | silent _ _ _ hw _ _ => exact hworks hw
    | put hw _ => exact hworks hw
    | broadcast hw _ => exact hworks hw
    | complete hw _ => exact hworks hw
    | @returned msg register hw hnil hfinal =>
      refine .of_resting (Bank.resting_of_eq (Function.update_self ..) (.inl rfl)) ?_ hmail
      rw [show (b.returned i msg register).registers i = register from Function.update_self ..,
        ← hfinal]
      exact (h i).asked
  · exact (h i).same (hacts.others i hij)

/-- The completion a handler is about to report is due. -/
theorem Bank.completing_mem_due (hsteady : b.Steady i) {t : Callback} {op : OperationComplete}
    (hcompleting : b.completing i = some (t, op)) : .operationComplete t op ∈ b.due i := by
  unfold Bank.completing at hcompleting
  split at hcompleting
  · rename_i msg t' op' next hw
    cases hcompleting
    obtain ⟨-, hdue⟩ := Bank.works_after hsteady hw () b.files
    rw [hdue]
    exact List.mem_cons_self
  · cases hcompleting

theorem Traced.completing (h : Traced P b i) {t : Callback} {op : OperationComplete}
    (hcompleting : b.completing i = some (t, op)) : P op.requestIdentifier :=
  h.due t op (Bank.completing_mem_due h.steady hcompleting)

/-! ## A process -/

/-- No handler is running in a process that is down. -/
structure Traces (P : UInt64 → Prop) (s : Process) : Prop where
  register : ∀ i, Traced P s.bank i
  down : s.up = false → ∀ i, s.bank.workers i = .ready ∧ s.bank.mailboxes i = []

variable {N R : ℕ} {selfIdent : UInt8} {s s' : Process} {a : Action}

theorem idle_freshRegister : Idle (freshRegister N selfIdent) := ⟨rfl, rfl, rfl⟩

theorem traces_crash : Traces P (s.crash N selfIdent) where
  register := fun _ => .of_resting (Bank.resting_of_eq rfl (.inl rfl))
    (.of_idle idle_freshRegister) fun _ _ hm => absurd hm List.not_mem_nil
  down := fun _ _ => ⟨rfl, rfl⟩

theorem traces_init : Traces P (.init N selfIdent) where
  register := fun _ => .of_resting (Bank.resting_of_eq rfl (.inl rfl))
    (.of_idle idle_freshRegister) fun _ _ hm => absurd hm List.not_mem_nil
  down := fun hup => by cases hup

/-- Registers start idle, whatever they found in stable storage. -/
theorem Traces.restart (h : Traces P s) (hrestart : s.restart N R selfIdent = some s') :
    Traces P s' := by
  unfold Process.restart at hrestart
  split at hrestart
  · rename_i hcond
    cases hrestart
    refine ⟨fun i => ?_, fun hup => by cases hup⟩
    obtain ⟨hw, hnil⟩ := h.down hcond.1 i
    have hrest : s.bank.Resting i := Bank.resting_of_eq hw (.inl rfl)
    apply Traced.of_resting
    · exact Bank.resting_of_eq hw (.inl rfl)
    · show Asked P (((s.bank.restored N selfIdent i).map Prod.fst).getD (s.bank.registers i))
      cases hrestored : s.bank.restored N selfIdent i with
      | none =>
        rw [Option.map_none, Option.getD_none, ← hrest.final]
        exact (h.register i).asked
      | some x => exact .of_idle (idle_restored hrestored)
    · intro cmd t hm
      rw [hnil] at hm
      cases hm
  · cases hrestart

/-- **Registers report requests they were handed**, step by step: `Q` holds of all that had
the property `P`, and of the request that is handed over. -/
theorem Traces.step (h : Traces P s) (hstep : s.step N R selfIdent a = some s')
    (hPQ : a ≠ .crash → ∀ id, P id → Q id)
    (hhand : ∀ t call i, a = .client t → s.calls[t]? = some call → s.pcs t = .entered i →
      Q call.cmd.header.requestIdentifier) : Traces Q s' := by
  by_cases hcrash : a = .crash
  · subst hcrash
    obtain rfl := crash_of_step hstep
    exact traces_crash
  have hmono : ∀ i, Traced Q s.bank i := fun i => (h.register i).mono (hPQ hcrash)
  by_cases hrestart : a = .restart
  · subst hrestart
    cases step_event hstep with
    | shuffle ha _ => exact absurd rfl ha
    | restart hrestart =>
      have h' := h.restart hrestart
      exact ⟨fun i => (h'.register i).mono (hPQ hcrash), h'.down⟩
  have hup : s.up = true := up_of_step hstep hrestart
  -- nothing but a crash takes a process down
  have hdown : s'.up = s.up → s'.up = false →
      ∀ i, s'.bank.workers i = .ready ∧ s'.bank.mailboxes i = [] := fun heq hfalse => by
    rw [heq, hup] at hfalse
    cases hfalse
  cases step_event hstep with
  | shuffle _ hs => exact ⟨fun i => hs.bank ▸ hmono i, hdown hs.up⟩
  | submit _ => exact ⟨hmono, hdown rfl⟩
  | dispatch _ _ => exact ⟨hmono, hdown rfl⟩
  | take _ _ _ => exact ⟨hmono, hdown rfl⟩
  | @hand t call i hcall hpc =>
    refine ⟨fun k => (hmono k).deliver i fun cmd u hmsg => ?_, hdown rfl⟩
    cases hmsg
    exact hhand t call i rfl hcall hpc
  | deliver _ _ =>
    refine ⟨fun k => (hmono k).deliver _ fun cmd u hmsg => ?_, hdown rfl⟩
    cases hmsg
  | announce _ hw => exact ⟨fun k => (hmono k).announce hw, hdown rfl⟩
  | receive _ hrec => exact ⟨fun k => Traced.receive hmono hrec, hdown rfl⟩
  | call _ hcall => exact ⟨fun k => Traced.call hmono hcall, hdown rfl⟩
  | crash => exact absurd rfl hcrash
  | restart _ => exact absurd rfl hrestart

end Executor
end AtomicDiscDrive
