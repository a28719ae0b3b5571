import AtomicDiscDrive.Executor.Forecast

/-!
# What a step of a process can be

`step_event` sorts the steps of a process by what they mean for the registers and the
client commands. Tickets, notifications, the handler map and the tasks that finish a
command only move tasks about (`Shuffle`): no register, no message to one and no index in
the hands of a client command changes.
-/

namespace AtomicDiscDrive
namespace Executor

open Utils

/-- A step that concerns neither the registers nor the indices client commands hold. -/
structure Shuffle (s s' : Process) : Prop where
  bank : s'.bank = s.bank
  up : s'.up = s.up
  calls : s'.calls = s.calls
  startup : s'.startup = s.startup
  dispatching : s'.dispatching = s.dispatching
  handings : s'.handings = s.handings
  grant : ∀ t, (s'.pcs t).grant = (s.pcs t).grant
  taken : ∀ t, (s'.pcs t).taken = (s.pcs t).taken
  lost : ∀ t, s.pcs t = .lost ↔ s'.pcs t = .lost
  handed : ∀ t i, s.pcs t = .handed i → s'.pcs t = .handed i

variable {N R : ℕ} {selfIdent : UInt8} {s s' : Process}

/-- Tasks other than those of client commands. -/
theorem Shuffle.of_pcs (hbank : s'.bank = s.bank) (hup : s'.up = s.up) (hcalls : s'.calls = s.calls)
    (hstartup : s'.startup = s.startup) (hdispatching : s'.dispatching = s.dispatching)
    (hhandings : s'.handings = s.handings) (hpcs : s'.pcs = s.pcs) : Shuffle s s' :=
  ⟨hbank, hup, hcalls, hstartup, hdispatching, hhandings, fun t => by rw [hpcs],
    fun t => by rw [hpcs], fun t => by rw [hpcs], fun t i h => by rw [hpcs]; exact h⟩

/-- The task of call `t` moves, without taking or using an index. -/
theorem Shuffle.of_move {t : Callback} {pc₀ pc : ClientPc} (hpc : s.pcs t = pc₀)
    (hbank : s'.bank = s.bank) (hup : s'.up = s.up) (hcalls : s'.calls = s.calls)
    (hstartup : s'.startup = s.startup) (hdispatching : s'.dispatching = s.dispatching)
    (hhandings : s'.handings = s.handings) (hpcs : s'.pcs = Function.update s.pcs t pc)
    (hgrant : pc.grant = pc₀.grant) (htaken : pc.taken = pc₀.taken)
    (hlost : pc₀ ≠ .lost ∧ pc ≠ .lost) (hhanded : ∀ i, pc₀ ≠ .handed i) : Shuffle s s' := by
  subst hpc
  refine ⟨hbank, hup, hcalls, hstartup, hdispatching, hhandings, fun u => ?_, fun u => ?_,
    fun u => ?_, fun u i hu => ?_⟩
  all_goals
    rw [hpcs]
    by_cases hut : u = t
    · subst hut
      rw [Function.update_self]
      first
        | exact hgrant
        | exact htaken
        | exact iff_of_false hlost.1 hlost.2
        | exact absurd hu (hhanded i)
    · rw [Function.update_of_ne hut]
      try exact hu

theorem wake_cases (sector : SectorIdx) (t : Callback) :
    s.wake sector t = s.pcs t ∨ ∃ c, s.pcs t = .parked c ∧ s.wake sector t = .check c := by
  unfold Process.wake
  split
  · rename_i c call hc hcall
    split
    · exact .inr ⟨c, hc, rfl⟩
    · exact .inl hc.symm
  · exact .inl rfl

/-- The steps of a process. -/
inductive Event (N R : ℕ) (selfIdent : UInt8) (s : Process) : Action → Process → Prop where
  | shuffle {a : Action} {s' : Process} (ha : a ≠ .restart) (h : Shuffle s s') :
      Event N R selfIdent s a s'
  | submit {cmd : ClientRegisterCommand} (haccepting : s.Accepting) :
      Event N R selfIdent s (.submit cmd) (s.invoke ⟨s.calls.length, cmd, none⟩)
  | dispatch {r : Recovered} {startup : List Recovered} (hstartup : s.startup = r :: startup)
      (hidle : ∀ t ∈ s.dispatching, (s.pcs t).taken = true ∧ (s.pcs t).grant = none) :
      Event N R selfIdent s .dispatch
        { s.invoke ⟨r.operation, r.cmd, some r.register⟩ with
          startup
          dispatching := some s.calls.length }
  | take {t : Callback} {call : Call} {i : ℕ} {readyRegisters : List ℕ}
      (hcall : s.calls[t]? = some call) (hpc : s.pcs t = .owner)
      (hready : s.readyRegisters = i :: readyRegisters) :
      Event N R selfIdent s (.client t) { s.move t (.index i) with readyRegisters }
  | hand {t : Callback} {call : Call} {i : ℕ} (hcall : s.calls[t]? = some call)
      (hpc : s.pcs t = .entered i) :
      Event N R selfIdent s (.client t)
        { s.move t (.handed i) with
          bank := s.bank.deliver i (.client call.cmd t)
          handings := s.handings ++ [⟨i, t, s.unfired i⟩] }
  | deliver {j i : ℕ} {task : SystemTask} (htask : s.systems[j]? = some task)
      (hpc : task.pc = .send i) :
      Event N R selfIdent s (.system j)
        { s.setSystem j task .done with bank := s.bank.deliver i (.system task.cmd task.origin) }
  | announce {i : ℕ} (hi : i < R) (hw : s.bank.workers i = .ready) :
      Event N R selfIdent s (.announce i)
        { s with
          bank := { s.bank with workers := Function.update s.bank.workers i .waiting }
          readyRegisters := s.readyRegisters ++ [i] }
  | receive {i : ℕ} {iter : IterOrder} {bank : Bank} (hi : i < R)
      (h : s.bank.receive i iter = some bank) :
      Event N R selfIdent s (.receive i iter) { s with bank }
  | call {i : ℕ} {bank : Bank} {finishing : List FinishTask} (hi : i < R)
      (h : s.bank.call i = some bank) :
      Event N R selfIdent s (.call i) { s with bank, finishing }
  | crash : Event N R selfIdent s .crash (s.crash N selfIdent)
  | restart {s' : Process} (h : s.restart N R selfIdent = some s') :
      Event N R selfIdent s .restart s'

theorem clientStep_event {t : Callback} (h : s.clientStep t = some s') :
    Event N R selfIdent s (.client t) s' := by
  unfold Process.clientStep at h
  split at h
  · cases h
  rename_i call hcall
  split at h
  · rename_i hpc
    split at h
    · cases h
      exact .shuffle Action.noConfusion (.of_move hpc rfl rfl rfl rfl rfl rfl rfl rfl rfl
        ⟨ClientPc.noConfusion, ClientPc.noConfusion⟩ fun _ => ClientPc.noConfusion)
    · cases h
  · rename_i c hpc
    split at h
    · split at h
      · cases h
      · -- the owner of the sector goes on, others will wait
        rename_i entry hentry
        cases h
        by_cases hc : c = entry.2
        · rw [if_pos hc]
          exact .shuffle Action.noConfusion (.of_move hpc rfl rfl rfl rfl rfl rfl rfl rfl rfl
            ⟨ClientPc.noConfusion, ClientPc.noConfusion⟩ fun _ => ClientPc.noConfusion)
        · rw [if_neg hc]
          exact .shuffle Action.noConfusion (.of_move hpc rfl rfl rfl rfl rfl rfl rfl rfl rfl
            ⟨ClientPc.noConfusion, ClientPc.noConfusion⟩ fun _ => ClientPc.noConfusion)
    · cases h
  · rename_i c hpc
    cases h
    exact .shuffle Action.noConfusion (.of_move hpc rfl rfl rfl rfl rfl rfl rfl rfl rfl
      ⟨ClientPc.noConfusion, ClientPc.noConfusion⟩ fun _ => ClientPc.noConfusion)
  · rename_i hpc
    split at h
    · cases h
    · rename_i i readyRegisters hready
      cases h
      exact .take hcall hpc hready
  · rename_i i hpc
    split at h
    · cases h
      exact .shuffle Action.noConfusion (.of_move hpc rfl rfl rfl rfl rfl rfl rfl rfl rfl
        ⟨ClientPc.noConfusion, ClientPc.noConfusion⟩ fun _ => ClientPc.noConfusion)
    · cases h
  · rename_i i hpc
    cases h
    exact .hand hcall hpc
  · cases h

theorem systemStep_event {j : ℕ} (h : s.systemStep j = some s') :
    Event N R selfIdent s (.system j) s' := by
  unfold Process.systemStep at h
  split at h
  · cases h
  rename_i task htask
  split at h
  · -- a request waits for an index, a reply is looked up; neither reaches a register yet
    split at h
    · split at h
      · cases h
      · cases h
        exact .shuffle Action.noConfusion (.of_pcs rfl rfl rfl rfl rfl rfl rfl)
    · split at h
      · split at h <;> cases h <;> exact .shuffle Action.noConfusion (.of_pcs rfl rfl rfl rfl rfl rfl rfl)
      · cases h
  · rename_i i hpc
    cases h
    exact .deliver htask hpc
  · cases h

theorem finishStep_shuffle {j : ℕ} {written : Bool} (h : s.finishStep j written = some s') :
    Shuffle s s' := by
  unfold Process.finishStep at h
  split at h
  · cases h
  split at h
  · cases h
    exact .of_pcs rfl rfl rfl rfl rfl rfl rfl
  · split at h
    · split at h <;> cases h <;> exact .of_pcs rfl rfl rfl rfl rfl rfl rfl
    · cases h
  · split at h
    · split at h
      · cases h
      · cases h
        exact .of_pcs rfl rfl rfl rfl rfl rfl rfl
    · cases h
  · -- `notify_waiters`: parked tasks hold no index
    rename_i sector hpc
    cases h
    refine ⟨rfl, rfl, rfl, rfl, rfl, rfl, fun t => ?_, fun t => ?_, fun t => ?_, fun t i ht => ?_⟩
    · show (s.wake sector t).grant = (s.pcs t).grant
      rcases wake_cases (s := s) sector t with h | ⟨c, hc, h⟩
      · rw [h]
      · rw [h, hc]
        rfl
    · show (s.wake sector t).taken = (s.pcs t).taken
      rcases wake_cases (s := s) sector t with h | ⟨c, hc, h⟩
      · rw [h]
      · rw [h, hc]
        rfl
    · show s.pcs t = .lost ↔ s.wake sector t = .lost
      rcases wake_cases (s := s) sector t with h | ⟨c, hc, h⟩
      · rw [h]
      · rw [h, hc]
        exact iff_of_false ClientPc.noConfusion ClientPc.noConfusion
    · show s.wake sector t = .handed i
      rcases wake_cases (s := s) sector t with h | ⟨c, hc, h⟩
      · rw [h]
        exact ht
      · rw [hc] at ht
        cases ht
  · cases h

theorem step_of_up {a : Action} (h : s.up = true) :
    s.step N R selfIdent a = s.run N R selfIdent a := by
  unfold Process.step
  rw [if_pos h]

/-- A process that is down can only start again. -/
theorem run_or_restart {a : Action} (h : s.step N R selfIdent a = some s') :
    s.run N R selfIdent a = some s' ∨ a = .restart ∧ s.restart N R selfIdent = some s' := by
  unfold Process.step at h
  split at h
  · exact .inl h
  · cases a with
    | restart => exact .inr ⟨rfl, h⟩
    | _ => cases h

/-- The ready queue and the tasks of `execute_system_command` are left alone by most steps. -/
theorem queues_of_run {a : Action} (h : s.run N R selfIdent a = some s') :
    match a with
    | .submit _ | .reject _ | .dispatch | .receive _ _ | .call _ | .finish _ _ =>
      s'.readyRegisters = s.readyRegisters ∧ s'.systems = s.systems
    | .client _ | .announce _ => s'.systems = s.systems
    | .arrive _ _ => s'.readyRegisters = s.readyRegisters
    | _ => True := by
  cases a with
  | submit cmd =>
    simp only [Process.run] at h
    split at h
    · cases h
      exact ⟨rfl, rfl⟩
    · cases h
  | dispatch =>
    simp only [Process.run, Process.dispatch] at h
    repeat' split at h
    all_goals cases h
    exact ⟨rfl, rfl⟩
  | client t =>
    simp only [Process.run, Process.clientStep] at h
    repeat' split at h
    all_goals cases h
    all_goals rfl
  | announce i =>
    simp only [Process.run] at h
    split at h
    · obtain ⟨bank, -, rfl⟩ := Option.map_eq_some_iff.mp h
      rfl
    · cases h
  | receive i iter =>
    simp only [Process.run] at h
    split at h
    · obtain ⟨bank, -, rfl⟩ := Option.map_eq_some_iff.mp h
      exact ⟨rfl, rfl⟩
    · cases h
  | call i =>
    simp only [Process.run, Process.callStep] at h
    repeat' split at h
    all_goals cases h
    all_goals exact ⟨rfl, rfl⟩
  | finish j written =>
    simp only [Process.run, Process.finishStep] at h
    repeat' split at h
    all_goals cases h
    all_goals exact ⟨rfl, rfl⟩
  | reject _ =>
    cases h
    exact ⟨rfl, rfl⟩
  | arrive _ _ =>
    cases h
    rfl
  | system _ | crash | restart => trivial

theorem crash_of_step (h : s.step N R selfIdent .crash = some s') : s' = s.crash N selfIdent := by
  rcases run_or_restart h with h | ⟨hrestart, -⟩
  · exact (Option.some.inj h).symm
  · cases hrestart

/-- **Every step is one of these.** -/
theorem step_event {a : Action} (h : s.step N R selfIdent a = some s') :
    Event N R selfIdent s a s' := by
  unfold Process.step at h
  split at h
  · cases a with
    | submit cmd =>
      simp only [Process.run] at h
      split at h
      · rename_i hacc
        cases h
        exact .submit hacc
      · cases h
    | reject requestIdentifier =>
      cases h
      exact .shuffle Action.noConfusion (.of_pcs rfl rfl rfl rfl rfl rfl rfl)
    | dispatch =>
      simp only [Process.run, Process.dispatch] at h
      split at h
      · cases h
      · rename_i r startup hstartup
        split at h
        · rename_i hidle
          cases h
          exact .dispatch hstartup hidle
        · cases h
    | client t => exact clientStep_event h
    | arrive cmd origin =>
      cases h
      exact .shuffle Action.noConfusion (.of_pcs rfl rfl rfl rfl rfl rfl rfl)
    | system j => exact systemStep_event h
    | announce i =>
      simp only [Process.run] at h
      split at h
      · rename_i hi
        obtain ⟨bank, hbank, rfl⟩ := Option.map_eq_some_iff.mp h
        unfold Bank.announce at hbank
        split at hbank
        · rename_i hw
          cases hbank
          exact .announce hi hw
        · cases hbank
      · cases h
    | receive i iter =>
      simp only [Process.run] at h
      split at h
      · rename_i hi
        obtain ⟨bank, hbank, rfl⟩ := Option.map_eq_some_iff.mp h
        exact .receive hi hbank
      · cases h
    | call i =>
      simp only [Process.run, Process.callStep] at h
      split at h
      · rename_i hi
        split at h
        · cases h
        · rename_i bank hbank
          cases h
          exact .call hi hbank
      · cases h
    | finish j written => exact .shuffle Action.noConfusion (finishStep_shuffle h)
    | crash =>
      cases h
      exact .crash
    | restart => cases h
  · cases a with
    | restart => exact .restart h
    | _ => cases h

theorem receive_of_step {i : ℕ} {iter : IterOrder}
    (h : s.step N R selfIdent (.receive i iter) = some s') :
    ∃ bank, i < R ∧ s.bank.receive i iter = some bank ∧ s' = { s with bank } := by
  rcases run_or_restart h with h | ⟨hrestart, -⟩
  swap
  · cases hrestart
  simp only [Process.run] at h
  split at h
  · rename_i hi
    obtain ⟨bank, hrec, rfl⟩ := Option.map_eq_some_iff.mp h
    exact ⟨bank, hi, hrec, rfl⟩
  · cases h

end Executor
end AtomicDiscDrive
