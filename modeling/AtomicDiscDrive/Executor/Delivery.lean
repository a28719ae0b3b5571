import AtomicDiscDrive.Executor.Recovery
import AtomicDiscDrive.Executor.Exclusion

/-!
# The way of a message through a process

A system command that has arrived waits for its task, then for the register it is sent to.
A request goes to whichever register is ready, a reply to the register that
`msg_id_handler_sector_idx` has for its identifier: `held_step` says that there is no other
way to a register. Messages are sent by the handlers, one at a time (`outbox_step`), and what
has been sent stays in the outbox under its index.
-/

namespace AtomicDiscDrive
namespace Executor

open Utils

namespace Process

/-- The `k`-th message the process has sent is the broadcast `out`. -/
def Posted (s : Process) (k : ℕ) (out : Output) : Prop :=
  s.bank.outbox[k]? = some out ∧ out.target = none

/-- A system command that has arrived and is not on its way to a register yet. -/
def Waiting (s : Process) (cmd : SystemRegisterCommand) (o : Origin) : Prop :=
  ∃ task ∈ s.systems, task.pc = .start ∧ task.cmd = cmd ∧ task.origin = o

/-- A system command on its way to register `i`, in its mailbox, or handled by it. -/
def Held (s : Process) (i : ℕ) (cmd : SystemRegisterCommand) (o : Origin) : Prop :=
  (∃ task ∈ s.systems, task.pc = .send i ∧ task.cmd = cmd ∧ task.origin = o) ∨
    .system cmd o ∈ s.bank.mailboxes i ∨
    ∃ rest, s.bank.workers i = .running (.system cmd o) rest

end Process

variable {N R : ℕ} {selfIdent : UInt8} {s s' : Process} {a : Action}

/-! ## Tasks -/

/-- What a step does to the tasks of `execute_system_command`. -/
theorem systems_step (h : s.step N R selfIdent a = some s') {task : SystemTask}
    (htask : task ∈ s'.systems) :
    task ∈ s.systems ∨ a = .arrive task.cmd task.origin ∧ task.pc = .start ∨ task.pc = .done ∨
      ∃ i old, task.pc = .send i ∧ old ∈ s.systems ∧ old.pc = .start ∧ old.cmd = task.cmd ∧
        old.origin = task.origin ∧ (Process.isRequest task.cmd = true ∨
          ∃ sector, s.msgIdHandlerSectorIdx task.cmd.header.msgIdent = some (i, sector)) := by
  rcases run_or_restart h with hrun | ⟨rfl, hrestart⟩
  swap
  · unfold Process.restart at hrestart
    split at hrestart
    · cases hrestart
      exact .inl htask
    · cases hrestart
  cases a with
  | submit _ | reject _ | dispatch | receive _ _ | call _ | finish _ _ =>
    exact .inl ((queues_of_run hrun).2 ▸ htask)
  | client _ | announce _ => exact .inl (queues_of_run hrun ▸ htask)
  | arrive cmd origin =>
    cases hrun
    rcases List.mem_append.mp htask with htask | htask
    · exact .inl htask
    · rw [List.mem_singleton.mp htask]
      exact .inr (.inl ⟨rfl, rfl⟩)
  | system j =>
    simp only [Process.run, Process.systemStep] at hrun
    split at hrun
    · cases hrun
    rename_i old hold
    have hmem : old ∈ s.systems := List.mem_of_getElem? hold
    split at hrun
    · rename_i hpc
      split at hrun
      · -- a request goes to any register, by the ready queue
        rename_i hrequest
        split at hrun
        · cases hrun
        · rename_i i ready hready
          cases hrun
          rcases List.mem_or_eq_of_mem_set htask with htask | rfl
          · exact .inl htask
          · exact .inr (.inr (.inr ⟨i, old, rfl, hmem, hpc, rfl, rfl, .inl hrequest⟩))
      · -- a reply goes to the register of its request, if there is one
        split at hrun
        · split at hrun
          · cases hrun
            rcases List.mem_or_eq_of_mem_set htask with htask | rfl
            · exact .inl htask
            · exact .inr (.inr (.inl rfl))
          · rename_i entry hentry
            cases hrun
            rcases List.mem_or_eq_of_mem_set htask with htask | rfl
            · exact .inl htask
            · exact .inr (.inr (.inr ⟨entry.1, old, rfl, hmem, hpc, rfl, rfl,
                .inr ⟨entry.2, hentry⟩⟩))
        · cases hrun
    · cases hrun
      rcases List.mem_or_eq_of_mem_set htask with htask | rfl
      · exact .inl htask
      · exact .inr (.inr (.inl rfl))
    · cases hrun
  | crash =>
    cases hrun
    cases htask
  | restart => cases hrun

/-- A system command that waits has arrived. -/
theorem waiting_step (h : s.step N R selfIdent a = some s') {cmd : SystemRegisterCommand}
    {o : Origin} (hw : s'.Waiting cmd o) : s.Waiting cmd o ∨ a = .arrive cmd o := by
  obtain ⟨task, htask, hpc, rfl, rfl⟩ := hw
  rcases systems_step h htask with htask | ⟨ha, -⟩ | hdone | ⟨i, old, hsend, -⟩
  · exact .inl ⟨task, htask, hpc, rfl, rfl⟩
  · exact .inr ha
  · rw [hpc] at hdone
    cases hdone
  · rw [hpc] at hsend
    cases hsend

/-! ## Mailboxes and handlers -/

/-- A message in a mailbox has been there before, or has just been sent by a task. -/
theorem mailbox_step (hocc : Occupied N selfIdent s) (h : s.step N R selfIdent a = some s')
    {i : ℕ} {cmd : SystemRegisterCommand} {o : Origin}
    (hm : .system cmd o ∈ s'.bank.mailboxes i) : s.Held i cmd o := by
  have hold : .system cmd o ∈ s.bank.mailboxes i → s.Held i cmd o := fun hm => .inr (.inl hm)
  cases step_event h with
  | shuffle _ hs => exact hold (hs.bank ▸ hm)
  | @hand t call k hcall hpc =>
    by_cases hk : i = k
    · subst hk
      simp only [Bank.deliver, Function.update_self, List.mem_append, List.mem_singleton,
        reduceCtorEq, or_false] at hm
      exact hold hm
    · simp only [Bank.deliver, Function.update_of_ne hk] at hm
      exact hold hm
  | @deliver j k task htask hpc =>
    by_cases hk : i = k
    · subst hk
      simp only [Bank.deliver, Function.update_self, List.mem_append, List.mem_singleton,
        WorkerMessage.system.injEq] at hm
      rcases hm with hm | ⟨rfl, rfl⟩
      · exact hold hm
      · exact .inl ⟨task, List.mem_of_getElem? htask, hpc, rfl, rfl⟩
    · simp only [Bank.deliver, Function.update_of_ne hk] at hm
      exact hold hm
  | @receive k iter bank hk hrec =>
    obtain ⟨msg, mailbox, hr⟩ := hocc.reception hrec
    apply hold
    by_cases hik : i = k
    · subst hik
      rw [hr.receives.first]
      exact List.mem_cons_of_mem _ (hr.receives.mailbox ▸ hm)
    · exact (hr.receives.others i hik).mailboxes ▸ hm
  | @call k bank finishing hk hcall =>
    have hacts := Bank.call_cases hcall (hocc.register k).steady
    exact hold (hacts.mailboxes ▸ hm)
  | crash => cases hm
  | restart hrestart =>
    rw [(hocc.restarted hrestart).mailboxes] at hm
    cases hm
  | _ => exact hold hm

theorem Bank.Acts.running {b b' : Bank} {i : ℕ} (h : Bank.Acts b i b') {msg : WorkerMessage}
    {rest : RegisterProgram AtomicRegisterImplementation}
    (hw : b'.workers i = .running msg rest) : ∃ rest, b.workers i = .running msg rest := by
  have hworks : ∀ msg', Bank.Works b b' i msg' → ∃ rest, b.workers i = .running msg rest := by
    intro msg' hworks
    obtain ⟨rest', hw'⟩ := hworks.running
    have heq := hw.symm.trans hw'
    cases heq
    exact hworks.before
  cases h with
  | silent _ _ _ h _ _ => exact hworks _ h
  | put h _ => exact hworks _ h
  | broadcast h _ => exact hworks _ h
  | complete h _ => exact hworks _ h
  | @returned msg' register _ _ _ =>
    have hready : (b.returned i msg' register).workers i = .ready := Function.update_self ..
    rw [hready] at hw
    cases hw

/-- A message that is handled was handled before, or has just been taken from the mailbox. -/
theorem running_step (hocc : Occupied N selfIdent s) (h : s.step N R selfIdent a = some s')
    {i : ℕ} {msg : WorkerMessage} {rest : RegisterProgram AtomicRegisterImplementation}
    (hw : s'.bank.workers i = .running msg rest) :
    (∃ rest, s.bank.workers i = .running msg rest) ∨ msg ∈ s.bank.mailboxes i := by
  cases step_event h with
  | shuffle _ hs => exact .inl ⟨rest, hs.bank ▸ hw⟩
  | @announce k hk hready =>
    by_cases hik : i = k
    · subst hik
      simp only [Function.update_self, reduceCtorEq] at hw
    · simp only [Function.update_of_ne hik] at hw
      exact .inl ⟨rest, hw⟩
  | @receive k iter bank hk hrec =>
    obtain ⟨msg', mailbox, hr⟩ := hocc.reception hrec
    by_cases hik : i = k
    · subst hik
      obtain ⟨rest', hw'⟩ := hr.receives.running
      have heq := hw.symm.trans hw'
      cases heq
      exact .inr (hr.receives.first ▸ List.mem_cons_self)
    · exact .inl ⟨rest, (hr.receives.others i hik).workers ▸ hw⟩
  | @call k bank finishing hk hcall =>
    have hacts := Bank.call_cases hcall (hocc.register k).steady
    by_cases hik : i = k
    · subst hik
      exact .inl (hacts.running hw)
    · exact .inl ⟨rest, (hacts.others i hik).workers ▸ hw⟩
  | crash => cases hw
  | restart hrestart =>
    rw [(hocc.restarted hrestart).workers] at hw
    cases hw
  | _ => exact .inl ⟨rest, hw⟩

/-- **The way to a register.** A system command reaches a register as a request that goes to
any register, or as a reply that the handler map has the register for. -/
theorem held_step (hocc : Occupied N selfIdent s) (h : s.step N R selfIdent a = some s') {i : ℕ}
    {cmd : SystemRegisterCommand} {o : Origin} (hheld : s'.Held i cmd o) :
    s.Held i cmd o ∨ s.Waiting cmd o ∧ (Process.isRequest cmd = true ∨
      ∃ sector, s.msgIdHandlerSectorIdx cmd.header.msgIdent = some (i, sector)) := by
  rcases hheld with ⟨task, htask, hpc, rfl, rfl⟩ | hm | ⟨rest, hw⟩
  · rcases systems_step h htask with htask | ⟨-, hstart⟩ | hdone |
      ⟨k, old, hsend, hold, hstart, hcmd, ho, hway⟩
    · exact .inl (.inl ⟨task, htask, hpc, rfl, rfl⟩)
    · rw [hpc] at hstart
      cases hstart
    · rw [hpc] at hdone
      cases hdone
    · rw [hpc] at hsend
      cases hsend
      exact .inr ⟨⟨old, hold, hstart, hcmd, ho⟩, hway⟩
  · exact .inl (mailbox_step hocc h hm)
  · rcases running_step hocc h hw with hw | hm
    · exact .inl (.inr (.inr hw))
    · exact .inl (.inr (.inl hm))

/-! ## The outbox -/

/-- What a step of a handler adds to the outbox: the broadcast that was due, or the answer to
the message that is handled. -/
inductive Sends (b : Bank) (i : ℕ) : Output → Prop where
  | broadcast {cmd : SystemRegisterCommand} {ops : List RegisterOp}
      (hdue : b.due i = .broadcast cmd :: ops) : Sends b i ⟨cmd, none, i, b.inHand i, none⟩
  | reply {cmd cmd' : SystemRegisterCommand} {o : Origin} {target : ℕ}
      {next : Unit → RegisterProgram AtomicRegisterImplementation}
      (hw : b.workers i = .running (.system cmd o) (.call (.send cmd' target) next)) :
      Sends b i ⟨cmd', some target, i, none, some o⟩

theorem Bank.Acts.outbox {b b' : Bank} {i : ℕ} (h : Bank.Acts b i b') :
    b'.outbox = b.outbox ∨ ∃ out, Sends b i out ∧ b'.outbox = b.outbox ++ [out] := by
  cases h with
  | @silent msg op x files next hw hx hop hworks hkeeps hdue =>
    cases op with
    | send cmd target =>
      cases msg with
      | system cmd' o => exact .inr ⟨_, .reply hw, rfl⟩
      | client cmd' t => exact .inl rfl
    | broadcast cmd => cases hop
    | _ => exact .inl rfl
  | broadcast hworks hdue => exact .inr ⟨_, .broadcast hdue, rfl⟩
  | _ => exact .inl rfl

/-- **The outbox** grows by one message in a step of a handler, and stays as it is otherwise. -/
theorem outbox_step (hocc : Occupied N selfIdent s) (h : s.step N R selfIdent a = some s') :
    s'.bank.outbox = s.bank.outbox ∨
      ∃ i < R, ∃ out, Sends s.bank i out ∧ s'.bank.outbox = s.bank.outbox ++ [out] := by
  cases step_event h with
  | shuffle _ hs => exact .inl (by rw [hs.bank])
  | receive _ hrec =>
    obtain ⟨msg, mailbox, hr⟩ := hocc.reception hrec
    exact .inl hr.receives.outbox
  | @call i bank finishing hi hcall =>
    have hacts := Bank.call_cases hcall (hocc.register i).steady
    rcases hacts.outbox with hsame | ⟨out, hsends, happend⟩
    · exact .inl hsame
    · exact .inr ⟨i, hi, out, hsends, happend⟩
  | restart hrestart => exact .inl (hocc.restarted hrestart).outbox
  | _ => exact .inl rfl

/-- What has been sent stays under its index. -/
theorem outbox_mono (hocc : Occupied N selfIdent s) (h : s.step N R selfIdent a = some s') {k : ℕ}
    {out : Output} (hk : s.bank.outbox[k]? = some out) : s'.bank.outbox[k]? = some out := by
  rcases outbox_step hocc h with hsame | ⟨i, -, new, -, happend⟩
  · rw [hsame]
    exact hk
  · rw [happend, List.getElem?_append_left (List.getElem?_eq_some_iff.mp hk).1]
    exact hk

/-- A message in the outbox was there before, or has just been sent. -/
theorem outbox_cases (hocc : Occupied N selfIdent s) (h : s.step N R selfIdent a = some s')
    {k : ℕ} {out : Output} (hk : s'.bank.outbox[k]? = some out) :
    s.bank.outbox[k]? = some out ∨ ∃ i < R, Sends s.bank i out := by
  rcases outbox_step hocc h with hsame | ⟨i, hi, new, hsends, happend⟩
  · exact .inl (hsame ▸ hk)
  · rw [happend] at hk
    rcases append_cases hk with hk | ⟨-, rfl⟩
    · exact .inl hk
    · exact .inr ⟨i, hi, hsends⟩

/-- A callback that has fired had done so before, or was due. -/
theorem fired_cases (hocc : Occupied N selfIdent s) (h : s.step N R selfIdent a = some s')
    {f : Callback × OperationComplete} (hf : f ∈ s'.bank.fired) :
    f ∈ s.bank.fired ∨ ∃ i < R, .operationComplete f.1 f.2 ∈ s.bank.due i := by
  cases step_event h with
  | shuffle _ hs => exact .inl (hs.bank ▸ hf)
  | receive _ hrec =>
    obtain ⟨msg, mailbox, hr⟩ := hocc.reception hrec
    exact .inl (hr.receives.fired ▸ hf)
  | @call i bank finishing hi hcall =>
    have hacts := Bank.call_cases hcall (hocc.register i).steady
    rcases hacts.fired_cases hf with hold | hdue
    · exact .inl hold
    · exact .inr ⟨i, hi, hdue⟩
  | restart hrestart => exact .inl ((hocc.restarted hrestart).fired ▸ hf)
  | _ => exact .inl hf

end Executor
end AtomicDiscDrive
