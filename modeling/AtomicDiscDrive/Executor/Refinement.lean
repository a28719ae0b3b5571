import AtomicDiscDrive.Executor.Simulation

/-!
# The processes refine the protocol

A register that takes a message from its mailbox makes a step of the protocol: a client command
is invoked, a system command is delivered. Replies to an earlier phase change nothing. What the
protocol expects of its environment follows from how a process hands out messages: a register
is idle when it is given a command, the tickets keep commands on one sector apart, and replies
are counted by the register that asked for them (`matches_step`).
-/

namespace AtomicDiscDrive

open Utils

namespace Protocol

variable {N R : ℕ} {s : System} {p : UInt8} {r : ℕ} {register : AtomicRegisterImplementation}
  {e : HandlerEnv}

theorem handle_eq {program : RegisterProgram AtomicRegisterImplementation}
    (h : program.run HandlerEnv.exec
      ⟨(s.processes p).files, (s.processes p).stable r, [], [], []⟩ = some (register, e)) :
    s.handle N p r program = some (s.commit N p r register e) := by
  unfold System.handle
  dsimp only
  rw [h]

/-- A handler enters no operations. -/
theorem operation_of_commit {k : ℕ} {o' : Operation}
    (h : (s.commit N p r register e).operations k = some o') :
    ∃ o, s.operations k = some o ∧ o'.process = o.process := by
  obtain ⟨o, ho, rfl⟩ := Option.map_eq_some_iff.mp
    (show (s.operations k).map _ = some o' from h)
  exact ⟨o, ho, rfl⟩

theorem abortReads_of_some {k : ℕ} {o : Operation} (ho : s.operations k = some o) :
    abortReads p s.operations k =
      some (if o.process = p ∧ o.finish = none ∧ o.cmd.content = .read then
        { o with aborted := true } else o) := by
  rw [abortReads, ho]
  rfl

/-- A new operation has a number of its own. -/
theorem follows_issue (hlt : ∀ k o, s.operations k = some o → k < s.count)
    (cmd : ClientRegisterCommand) : Follows s ((s.issue p r cmd).called p r) := by
  refine ⟨fun k o ho => ⟨o, ?_, .refl o⟩, fun _ h => h⟩
  show Function.update s.operations s.count _ k = some o
  rw [Function.update_of_ne (hlt k o ho).ne]
  exact ho

/-- What a handler broadcasts is on its way to every process. -/
theorem sent_of_commit {cmd : SystemRegisterCommand} (hcmd : cmd ∈ e.broadcasts) {q : UInt8}
    (hq : IsProcess N q) : (s.commit N p r register e).Sent q.toNat cmd := by
  unfold System.Sent
  rw [commit_net]
  exact List.mem_append_right _ (List.mem_flatMap.mpr ⟨cmd, hcmd, mem_toAll_of_isProcess hq cmd⟩)

theorem sent_of_sends {n : ℕ} {cmd : SystemRegisterCommand} (h : ⟨n, cmd⟩ ∈ e.sends) :
    (s.commit N p r register e).Sent n cmd := by
  unfold System.Sent
  rw [commit_net, List.append_assoc]
  exact List.mem_append_right _ (List.mem_append_left _ h)

/-- A packet is delivered. -/
theorem reachable_of_sent {iter : IterOrder} {cmd : SystemRegisterCommand}
    (hsent : s.Sent p.toNat cmd) (hr : r < R) (hup : (s.processes p).up = true)
    (hhandled : IsReply cmd → Handled s ⟨p.toNat, cmd⟩ r)
    (hrun : (((s.processes p).registers r).systemCommand iter cmd).run HandlerEnv.exec
      ⟨(s.processes p).files, (s.processes p).stable r, [], [], []⟩ = some (register, e)) :
    Reachable (System.step N R) (WithoutRestart N R) s (s.commit N p r register e) := by
  obtain ⟨n, hn⟩ := List.getElem?_of_mem hsent
  refine Reachable.init.step (a := .deliver n r iter) ⟨⟨hr, fun packet hpacket => ?_⟩, trivial⟩ ?_
  · rw [hn, Option.mem_some_iff] at hpacket
    subst hpacket
    exact hhandled
  · simp only [System.step, hn, UInt8.ofNat_toNat]
    rw [if_pos ⟨trivial, hup⟩]
    exact handle_eq hrun

end Protocol

namespace Executor

variable {N R : ℕ} {c c' : Cluster} {s s' : Protocol.System} {κ κ' : Naming}
  {g : Protocol.Ghost} {f : Callback → Option ℕ} {p : UInt8} {x : Process} {a : Action}

/-! ## Ranks -/

theorem isProcess_of_mem_ranks (hN : N < 256) {q : UInt8} (hq : q ∈ Cluster.ranks N) :
    Protocol.IsProcess N q := by
  obtain ⟨n, hn, rfl⟩ := List.mem_map.mp hq
  rw [List.mem_range] at hn
  have hval : (UInt8.ofNat (n + 1)).toNat = n + 1 := by
    rw [UInt8.toNat_ofNat']
    omega
  unfold Protocol.IsProcess
  omega

/-! ## Registers -/

/-- A callback a register will keep is that of the command in hand. -/
theorem Mode.hand_of_callback {calls : List Call} {register : AtomicRegisterImplementation}
    {ops : List RegisterOp} {hand : Option Callback} {t : Callback}
    (h : Mode calls register ops hand) (ht : register.callback = some t) : hand = some t := by
  cases h with
  | idle hidle =>
    rw [hidle.callback] at ht
    cases ht
  | serving _ hserves _ => exact hserves.callback.symm.trans ht
  | completing _ hidle _ _ =>
    rw [hidle.callback] at ht
    cases ht

/-- One completion is reported at a time. -/
theorem Mode.complete_unique {calls : List Call} {register : AtomicRegisterImplementation}
    {ops : List RegisterOp} {hand : Option Callback} {t u : Callback} {op op' : OperationComplete}
    (h : Mode calls register ops hand) (ht : .operationComplete t op ∈ ops)
    (hu : .operationComplete u op' ∈ ops) : op = op' := by
  cases h with
  | idle _ => cases ht
  | serving _ _ hops => rcases hops with rfl | ⟨cmd, rfl | rfl⟩ <;> simp at ht
  | completing _ _ _ hops =>
    rcases hops with rfl | ⟨_, rfl⟩
    all_goals
      simp only [List.mem_cons, reduceCtorEq, RegisterOp.operationComplete.injEq, List.not_mem_nil,
        or_false, false_or] at ht hu
      rw [ht.2, hu.2]

/-- The handler of a client command completes nothing. -/
theorem Outcome.of_client {register final : AtomicRegisterImplementation}
    {cmd : ClientRegisterCommand} {t : Callback} {ops : List RegisterOp}
    (h : Outcome register (.client cmd t) ops final) (u : Callback) (op : OperationComplete) :
    .operationComplete u op ∉ ops := by
  cases h with
  | client _ _ => simp

theorem Outcome.of_request {register final : AtomicRegisterImplementation}
    {cmd : SystemRegisterCommand} {o : Origin} {ops : List RegisterOp}
    (h : Outcome register (.system cmd o) ops final) (hcmd : Process.isRequest cmd = true) :
    ops = [] ∧ final = register := by
  cases h with
  | quiet _ _ => exact ⟨rfl, rfl⟩
  | _ => cases hcmd

theorem Outcome.of_stale {register final : AtomicRegisterImplementation}
    {cmd : SystemRegisterCommand} {o : Origin} {ops : List RegisterOp}
    (h : Outcome register (.system cmd o) ops final)
    (hstale : cmd.header.readIdent ≠ register.state.readIdent) : ops = [] ∧ final = register := by
  cases h with
  | quiet _ _ => exact ⟨rfl, rfl⟩
  | collected _ _ _ _ hid => exact absurd hid hstale
  | read _ hid _ _ _ => exact absurd hid hstale
  | write _ hid _ _ _ => exact absurd hid hstale
  | counted _ hid => exact absurd hid hstale
  | readDone _ hid _ _ => exact absurd hid hstale
  | writeDone _ hid _ _ _ => exact absurd hid hstale

theorem named_congr {g : Callback → Option ℕ} {register : AtomicRegisterImplementation}
    (h : ∀ t, register.callback = some t → g t = f t) : named g register = named f register := by
  cases hcallback : register.callback with
  | none => simp only [named, hcallback, Option.bind_none]
  | some t => simp only [named, hcallback, Option.bind_some, h t hcallback]

/-- What is forecast of the handler of a message is due when a register has taken it. -/
theorem Bank.forecast_of_receive {b b' : Bank} {i : ℕ} {iter : IterOrder} {msg : WorkerMessage}
    {mailbox : List WorkerMessage} {ops : List RegisterOp} {final : AtomicRegisterImplementation}
    (hrec : b.receive i iter = some b') (hfirst : b.mailboxes i = msg :: mailbox)
    (hforeseen : Foreseen (Bank.handler iter (b.registers i) msg) ops final) :
    ops = b'.due i ∧ final = b'.final i := by
  obtain ⟨msg', mailbox', -, hfirst', hworkers, -, -⟩ := b.receive_spec hrec
  rw [hfirst, List.cons.injEq] at hfirst'
  obtain ⟨rfl, -⟩ := hfirst'
  have hw : b'.workers i = .running msg (Bank.handler iter (b.registers i) msg) := by
    rw [hworkers, Function.update_self]
  exact ⟨(Bank.due_running hw hforeseen).symm, (Bank.final_running hw hforeseen).symm⟩

/-- The callbacks of registers go by names. -/
theorem Noted.callback_named (h : Noted N s f p x) (hocc : Occupied N p x) {i : ℕ} {t : Callback}
    (ht : (x.bank.final i).callback = some t) : f t ≠ none := by
  obtain ⟨k, -, hk, -⟩ := h.hand i t ((hocc.register i).mode.hand_of_callback ht)
  rw [hk]
  exact Option.some_ne_none k

/-! ## A system command is received -/

section

variable {b' : Bank} {i : ℕ} {cmd : SystemRegisterCommand} {o : Origin}
  {mailbox : List WorkerMessage}

theorem Noted.receive (h : Noted N s f p x)
    (hr : Reception x b' i (.system cmd o) mailbox)
    (hopening : ∀ cmd, .broadcast cmd ∈ b'.due i → ∀ q ∈ Cluster.ranks N, s.Sent q.toNat cmd)
    (hcompleting : ∀ t op, .operationComplete t op ∈ b'.due i → Reported s f t op) :
    Noted N s f p { x with bank := b' } := by
  have hhand : ∀ j, b'.inHand j = x.bank.inHand j := by
    intro j
    by_cases hji : j = i
    · subst hji
      exact hr.handAfter
    · exact (hr.receives.others j hji).inHand
  refine ⟨h.known, h.injective, fun j t ht => h.mail j t ?_,
    fun j t ht => h.hand j t (hhand j ▸ ht),
    fun out hout => h.spoken out (hr.receives.outbox ▸ hout),
    fun out hout => h.posted out (hr.receives.outbox ▸ hout),
    fun out hout => h.replied out (hr.receives.outbox ▸ hout), fun j cmd' hcmd' => ?_,
    fun y hy => h.fired y (hr.receives.fired ▸ hy), fun j t op hop => ?_⟩
  · by_cases hji : j = i
    · subst hji
      have hmail : t ∈ mailbox.filterMap WorkerMessage.callback? := hr.receives.mailbox ▸ ht
      unfold Process.mail
      rw [hr.receives.first]
      exact hmail
    · have hmail : ({ x with bank := b' } : Process).mail j = x.mail j :=
        mail_congr (hr.receives.others j hji).mailboxes
      exact hmail ▸ ht
  · by_cases hji : j = i
    · subst hji
      exact hopening cmd' hcmd'
    · exact h.opening j cmd' ((hr.receives.others j hji).due ▸ hcmd')
  · by_cases hji : j = i
    · subst hji
      exact hcompleting t op hop
    · exact h.completing j t op ((hr.receives.others j hji).due ▸ hop)

/-- The register that takes a message is at rest. -/
theorem Reception.resting {msg : WorkerMessage} (hr : Reception x b' i msg mailbox) :
    x.bank.Resting i := Bank.resting_of_eq hr.receives.waiting (.inr rfl)

theorem Reception.final_of_ne {msg : WorkerMessage} (hr : Reception x b' i msg mailbox) {j : ℕ}
    (hji : j ≠ i) : b'.final j = x.bank.final j := (hr.receives.others j hji).final

/-- The registers after a handler of the protocol has run to its end. -/
theorem Mirrored.commit (h : Mirrored R s f p x) {S : Protocol.System} {msg : WorkerMessage}
    (hr : Reception x b' i msg mailbox) (hprocess : S.processes p = s.processes p)
    {f' : Callback → Option ℕ} (hf : ∀ j t, (x.bank.final j).callback = some t → f' t = f t)
    {e : Protocol.HandlerEnv}
    (hstore : Ahead R b' e.files (S.commit N p i (named f' (b'.final i)) e).Sent) :
    Mirrored R (S.commit N p i (named f' (b'.final i)) e) f' p { x with bank := b' } := by
  refine ⟨fun j hj => ?_, ?_⟩
  · rw [Protocol.commit_process_self]
    by_cases hji : j = i
    · subst hji
      exact Function.update_self ..
    · show Function.update (S.processes p).registers i _ j = named f' (b'.final j)
      rw [Function.update_of_ne hji, hr.final_of_ne hji, hprocess, h.registers j hj,
        named_congr (hf j)]
  · rw [Protocol.commit_process_self]
    exact hstore

end

/-! ## One process moves -/

/-- Later operations and more names. -/
structure Grows (s : Protocol.System) (κ : Naming) (s' : Protocol.System) (κ' : Naming) : Prop where
  follows : Protocol.Follows s s'
  names : ∀ q t k, κ q t = some k → κ' q t = some k
  fresh : ∀ q t k, κ' q t = some k → κ q t = some k ∨
    ∃ o, s'.operations k = some o ∧ o.start = s.clock

theorem Grows.of_follows (h : Protocol.Follows s s') : Grows s κ s' κ :=
  ⟨h, fun _ _ _ hk => hk, fun _ _ _ hk => .inl hk⟩

/-- The others see only that more has been sent. -/
theorem Matches.of_steps (hm : Matches N R c s κ) (hsteps : Steps N R c c' p a)
    (hfollows : Protocol.Follows s s') (hrestarts : s'.restarts = s.restarts)
    (hpending : ∀ r, (s'.processes p).pending r = none)
    (hothers : ∀ q, q ≠ p → s'.processes q = s.processes q ∧ κ' q = κ q)
    (hup : (s'.processes p).up = (c' p).up)
    (honto : ∀ k o, s'.operations k = some o → ∃ t, κ' o.process t = some k)
    (hnoted : Noted N s' (κ' p) p (c' p))
    (hmirrored : (c' p).up = true → Mirrored R s' (κ' p) p (c' p)) : Matches N R c' s' κ' := by
  refine ⟨hrestarts.trans hm.restarts, fun q r => ?_, fun q => ?_, honto, fun q => ?_,
    fun q hq => ?_⟩
  all_goals
    by_cases hqp : q = p
    · subst hqp
      first
        | exact hpending r
        | exact hup
        | exact hnoted
        | exact hmirrored hq
  · rw [(hothers q hqp).1]
    exact hm.pending q r
  · rw [(hothers q hqp).1, hsteps.others q hqp]
    exact hm.up q
  · rw [(hothers q hqp).2, hsteps.others q hqp]
    exact (hm.noted q).follow hfollows
  · rw [hsteps.others q hqp] at hq ⊢
    rw [(hothers q hqp).2]
    exact (hm.mirrored q hq).follow hfollows (hothers q hqp).1

/-- A handler of the protocol has run to its end, and made no new operation. -/
theorem Matches.of_commit (hm : Matches N R c s κ) (hsteps : Steps N R c c' p a)
    (hup : (c' p).up = (c p).up) {i : ℕ} {register : AtomicRegisterImplementation}
    {e : Protocol.HandlerEnv} (hfollows : Protocol.Follows s (s.commit N p i register e))
    (hnoted : Noted N (s.commit N p i register e) (κ p) p (c' p))
    (hmirrored : Mirrored R (s.commit N p i register e) (κ p) p (c' p)) :
    Matches N R c' (s.commit N p i register e) κ := by
  refine hm.of_steps hsteps hfollows rfl (fun r => ?_)
    (fun q hq => ⟨Protocol.commit_process_of_ne hq, rfl⟩) ?_ (fun k o' ho' => ?_) hnoted
    fun _ => hmirrored
  · rw [Protocol.commit_pending]
    exact hm.pending p r
  · rw [Protocol.commit_up, hup]
    exact hm.up p
  · obtain ⟨o, ho, hprocess⟩ := Protocol.operation_of_commit ho'
    rw [hprocess]
    exact hm.onto k o ho

theorem up_kept {x' : Process} (hstep : x.step N R p a = some x') (hcrash : a ≠ .crash)
    (hrestart : a ≠ .restart) : x'.up = x.up := by
  cases step_event hstep with
  | shuffle _ hs => exact hs.up
  | crash => exact absurd rfl hcrash
  | restart _ => exact absurd rfl hrestart
  | _ => rfl

section

variable (hm : Matches N R c s κ) (hatt : c.Attributed N R) (huptime : ∀ q, Uptime N q (c q))
  (hsteps : Steps N R c c' p a)
include hm hatt huptime hsteps

/-- **Steps the protocol does not see.** -/
theorem matches_quiet (hcrash : a ≠ .crash) (hrestart : a ≠ .restart)
    (hreceive : ∀ i iter, a ≠ .receive i iter) : Matches N R c' s κ := by
  have hocc := (hatt.process p).recorded.occupied
  have hup : (c' p).up = (c p).up := up_kept hsteps.step hcrash hrestart
  refine hm.of_steps hsteps (.refl s) rfl (hm.pending p) (fun q _ => ⟨rfl, rfl⟩)
    ((hm.up p).trans hup.symm) hm.onto ?_ fun hup' => ?_
  · exact (hm.noted p).step hocc (huptime p) (fun hup => (hm.mirrored p hup).store) hrestart
      hreceive hsteps.step
  · exact (hm.mirrored p (hup ▸ hup')).step hocc hrestart hreceive hsteps.step hup'

omit hatt huptime in
/-- **A crash.** -/
theorem matches_crash (hN : N < 256) (ha : a = .crash) :
    ∃ s', Reachable (Protocol.System.step N R) (Protocol.WithoutRestart N R) s s' ∧
      Matches N R c' s' κ ∧ Grows s κ s' κ := by
  subst ha
  have hup : (s.processes p).up = true :=
    (hm.up p).trans (up_of_step hsteps.step Action.noConfusion)
  have hcrash : c' p = (c p).crash N p := crash_of_step hsteps.step
  have hfollows : Protocol.Follows s
      { s with
        processes := Function.update s.processes p { s.processes p with up := false }
        operations := Protocol.abortReads p s.operations
        clock := s.clock + 1 } := by
    refine ⟨fun k o ho => ?_, fun _ h => h⟩
    refine ⟨_, Protocol.abortReads_of_some ho, ?_⟩
    split
    · exact ⟨rfl, rfl, rfl, rfl, fun _ h => h⟩
    · exact .refl o
  refine ⟨_, Reachable.init.step (a := .crash p) ⟨isProcess_of_mem_ranks hN hsteps.rank, trivial⟩
    (if_pos hup), ?_, .of_follows hfollows⟩
  refine hm.of_steps hsteps hfollows rfl (fun r => ?_)
    (fun q hq => ⟨Function.update_of_ne hq .., rfl⟩) ?_ (fun k o' ho' => ?_) ?_ fun hup' => ?_
  · simp only [Function.update_self]
    exact hm.pending p r
  · rw [hcrash]
    simp only [Function.update_self, Process.crash]
  · obtain ⟨o, ho, rfl⟩ := Option.map_eq_some_iff.mp
      (show (s.operations k).map _ = some o' from ho')
    have hprocess : (if o.process = p ∧ o.finish = none ∧ o.cmd.content = .read then
        { o with aborted := true } else o).process = o.process := by
      split <;> rfl
    rw [hprocess]
    exact hm.onto k o ho
  · rw [hcrash]
    exact (hm.noted p).crash.follow hfollows
  · rw [hcrash] at hup'
    cases hup'

end

/-! ## A register takes a message -/

/-- What has arrived at a process has been sent in the protocol. -/
theorem Matches.sent (hm : Matches N R c s κ) {q : UInt8} (hq : q ∈ Cluster.ranks N)
    {cmd : SystemRegisterCommand} {o : Origin} (h : c.Sent N q cmd o) : s.Sent q.toNat cmd := by
  rcases h with ⟨out, hout, htarget, rfl⟩ | ⟨q', -, out, hout, htarget, -, rfl⟩
  · exact (hm.noted o.process).posted out (List.mem_of_getElem? hout) htarget q hq
  · exact (hm.noted q').replied out hout _ htarget

section

variable (hm : Matches N R c s κ) (hatt : c.Attributed N R) {i : ℕ} {iter : IterOrder}
  (hsteps : Steps N R c c' p (.receive i iter)) (hi : i < R) {b' : Bank}
  (hc' : c' p = { c p with bank := b' }) (hrec : (c p).bank.receive i iter = some b')
include hm hatt hsteps

/-- The system command was sent to the process. -/
theorem held_of_reception {cmd : SystemRegisterCommand} {o : Origin}
    {mailbox : List WorkerMessage} (hr : Reception (c p) b' i (.system cmd o) mailbox) :
    s.Sent p.toNat cmd ∧
      (Process.isRequest cmd = false → (c p).ReplyTo p i cmd o) := by
  have hheld : (c p).Held i cmd o :=
    .inr (.inl (hr.receives.first ▸ List.mem_cons_self))
  obtain ⟨hsent, hreply⟩ := (hatt.process p).held i cmd o hheld
  exact ⟨hm.sent hsteps.rank hsent, hreply⟩

include hi hc' hrec

omit hatt hi in
/-- **A reply to an earlier phase** changes nothing. -/
theorem matches_stale {cmd : SystemRegisterCommand} {o : Origin} {mailbox : List WorkerMessage}
    (hr : Reception (c p) b' i (.system cmd o) mailbox) (hcmd : Process.isRequest cmd = false)
    (hstale : cmd.header.readIdent ≠ ((c p).bank.registers i).state.readIdent) :
    Matches N R c' s κ := by
  have hup : (c p).up = true := up_of_step hsteps.step Action.noConfusion
  obtain ⟨hdue, hfinal⟩ := hr.outcome.of_stale hstale
  have hmirrored := hm.mirrored p hup
  refine hm.of_steps hsteps (.refl s) rfl (hm.pending p) (fun q _ => ⟨rfl, rfl⟩) ?_ hm.onto ?_
    fun _ => ?_
  · rw [hc']
    exact hm.up p
  · rw [hc']
    refine (hm.noted p).receive hr (fun cmd' hcmd' => ?_) fun t op hop => ?_
    · rw [hdue] at hcmd'
      cases hcmd'
    · rw [hdue] at hop
      cases hop
  · rw [hc']
    refine ⟨fun j hj => ?_, hmirrored.store.receive_other hrec hr.receives.first hr.mode.sound
      (request?_of_reply hcmd o)⟩
    by_cases hji : j = i
    · subst hji
      show _ = named (κ p) (b'.final j)
      rw [hfinal, ← hr.resting.final]
      exact hmirrored.registers j hj
    · show _ = named (κ p) (b'.final j)
      rw [hr.final_of_ne hji]
      exact hmirrored.registers j hj

/-- **A request** is delivered. -/
theorem matches_request {cmd : SystemRegisterCommand} {o : Origin} {mailbox : List WorkerMessage}
    (hr : Reception (c p) b' i (.system cmd o) mailbox) (hcmd : Process.isRequest cmd = true)
    (hapart : (c p).KeepsApart R (.receive i iter)) :
    ∃ s', Reachable (Protocol.System.step N R) (Protocol.WithoutRestart N R) s s' ∧
      Matches N R c' s' κ ∧ Grows s κ s' κ := by
  have hup : (c p).up = true := up_of_step hsteps.step Action.noConfusion
  have hmirrored := hm.mirrored p hup
  obtain ⟨hsent, -⟩ := held_of_reception hm hatt hsteps hr
  obtain ⟨hdue, hfinal⟩ := hr.outcome.of_request hcmd
  have hregister : (s.processes p).registers i = named (κ p) (b'.final i) := by
    rw [hfinal, ← hr.resting.final]
    exact hmirrored.registers i hi
  have hapart' : ∀ j < R, j ≠ i → ∀ cmd' ∈ (c p).bank.inService j, ¬ Collide cmd cmd' := by
    refine hapart (.system cmd o) ?_ cmd ?_
    · rw [hr.receives.first]
      exact Option.mem_some_self _
    · rw [WorkerMessage.request?, if_pos hcmd]
      exact Option.mem_some_self _
  -- the protocol answers with what is in its store, which is what the process has in its own
  have hcalm := hmirrored.store.calm_of_apart hr.resting hapart'
  obtain ⟨out, hout, hrun⟩ := @run_request (κ p) (b'.final i) iter cmd hcmd
    (s.processes p).files ((s.processes p).stable i)
  rw [← hregister] at hrun
  rw [Handlers.Stage.promise_congr hcalm, hfinal] at hout
  have hreply : Protocol.IsReply cmd = true → Protocol.Handled s ⟨p.toNat, cmd⟩ i := by
    intro hreply
    obtain ⟨header, content⟩ := cmd
    cases content with
    | readProc | writeProc _ _ _ => cases hreply
    | value _ _ _ | ack => cases hcmd
  have hreach := Protocol.reachable_of_sent (N := N) hsent hi ((hm.up p).trans hup) hreply hrun
  rw [hregister] at hreach
  generalize he : (⟨_, _, _, _, _⟩ : Protocol.HandlerEnv) = e at hreach
  have hfollows : Protocol.Follows s (s.commit N p i (named (κ p) (b'.final i)) e) := by
    refine Protocol.follows_commit fun y hy => ?_
    rw [← he] at hy
    cases hy
  refine ⟨_, hreach, ?_, .of_follows hfollows⟩
  refine hm.of_commit hsteps (by rw [hc']) hfollows ?_ ?_
  · rw [hc']
    refine ((hm.noted p).follow hfollows).receive hr (fun cmd' hcmd' => ?_) fun t op hop => ?_
    · rw [hdue] at hcmd'
      cases hcmd'
    · rw [hdue] at hop
      cases hop
  · rw [hc']
    refine hmirrored.commit hr rfl (fun _ _ _ => rfl) ?_
    have hfiles : e.files =
        (Handlers.firstStage cmd).settle (s.processes p).files cmd.header.sectorIdx := by
      rw [← he]
    rw [hfiles]
    refine hmirrored.store.receive_request hi hrec hr.receives.first hcmd hapart'
      (fun _ _ h => hfollows.sent h) fun out' hout' => ?_
    rw [hout, Option.some.injEq] at hout'
    subst hout'
    refine Protocol.sent_of_sends ?_
    rw [← he]
    exact List.mem_singleton_self _

omit hi hc' hrec in
/-- A reply of the current phase is for the operation the register is busy with, if it is busy. -/
theorem handled_of_reception (hI : Protocol.Invariant N R s g) (hi : i < R)
    {cmd : SystemRegisterCommand} {o : Origin} {mailbox : List WorkerMessage}
    (hr : Reception (c p) b' i (.system cmd o) mailbox) (hcmd : Process.isRequest cmd = false)
    (hid : cmd.header.readIdent = ((c p).bank.registers i).state.readIdent) :
    Protocol.Handled s ⟨p.toNat, cmd⟩ i := by
  have hup : (c p).up = true := up_of_step hsteps.step Action.noConfusion
  have hown := (held_of_reception hm hatt hsteps hr).2 hcmd
  obtain ⟨request, -, hposted, hregister, hanswers⟩ := id hown
  -- the broadcast it answers was made for a call of this process
  obtain ⟨t, call, ht, hcall, hmsg, -, -, -⟩ := ((hatt.process p).rounds.vouched _ _ hposted).call
  obtain ⟨k, op, hk, hop, hopreg⟩ :=
    (hm.noted p).spoken request (List.mem_of_getElem? hposted.1) t ht
  obtain ⟨call', op', hcall', hop', hprocess, hopcmd, -⟩ := (hm.noted p).known t k hk
  rw [hop, Option.some.injEq] at hop'
  rw [hcall, Option.some.injEq] at hcall'
  subst hop' hcall'
  refine ⟨k, (hI.operations k op hop).lt_count, op, hop, ?_, ?_, hopreg.trans hregister,
    .inr ⟨hm.restarts, fun k' hk' => ?_⟩⟩
  · rw [hprocess]
  · show Uuid.fromRequest op.cmd.header.requestIdentifier = cmd.header.msgIdent
    rw [hopcmd, hanswers.msgIdent, hmsg]
  · -- and if the register is busy, it is busy with this call
    rw [hprocess, (hm.mirrored p hup).registers i hi, hr.resting.final, Option.mem_def] at hk'
    obtain ⟨t', ht', hkt'⟩ := Option.bind_eq_some_iff.mp hk'
    obtain ⟨request', call', hasked⟩ := (hatt.process p).asked hi hown hid ht'
    have hsame : request' = request :=
      Option.some.inj (hasked.posted.1.symm.trans hposted.1)
    have htt : t' = t := Option.some.inj ((hsame ▸ hasked.operation).symm.trans ht)
    rw [htt, hk, Option.some.injEq] at hkt'
    exact hkt'.symm

/-- **A reply of the current phase** is delivered. -/
theorem matches_reply (hN : N < 256) (hI : Protocol.Invariant N R s g)
    {cmd : SystemRegisterCommand} {o : Origin} {mailbox : List WorkerMessage}
    (hr : Reception (c p) b' i (.system cmd o) mailbox) (hcmd : Process.isRequest cmd = false)
    (hid : cmd.header.readIdent = ((c p).bank.registers i).state.readIdent) :
    ∃ s', Reachable (Protocol.System.step N R) (Protocol.WithoutRestart N R) s s' ∧
      Matches N R c' s' κ ∧ Grows s κ s' κ := by
  have hup : (c p).up = true := up_of_step hsteps.step Action.noConfusion
  have hocc := (hatt.process p).recorded.occupied
  have hnoted := hm.noted p
  have hmirrored := hm.mirrored p hup
  have hhandled := handled_of_reception hm hatt hsteps hI hi hr hcmd hid
  have hregister : (s.processes p).registers i = named (κ p) ((c p).bank.registers i) := by
    rw [← hr.resting.final]
    exact hmirrored.registers i hi
  obtain ⟨ops, final, hforeseen, hrun⟩ := run_reply (f := κ p) iter hr.mode.sound
    (fun t ht => hnoted.callback_named hocc (hr.resting.final ▸ ht)) hcmd
  obtain ⟨rfl, rfl⟩ := Bank.forecast_of_receive hrec hr.receives.first hforeseen
  have hreach := Protocol.reachable_of_sent (N := N) (held_of_reception hm hatt hsteps hr).1 hi
    ((hm.up p).trans hup) (fun _ => hhandled) (hregister ▸ hrun _)
  generalize he : List.foldl _ _ _ = e at hreach
  -- a completion that is due is that of the operation the register is busy with
  have hdue : ∀ t op, .operationComplete t op ∈ b'.due i → ∃ k o, κ p t = some k ∧
      s.operations k = some o ∧ o.finish = none := by
    intro t op hop
    have hhand : (c p).bank.inHand i = some t := by
      rw [← (hr.after.mode.of_mem_complete hop).1]
      exact hr.handAfter.symm
    obtain ⟨k, -, hk, -⟩ := hnoted.hand i t hhand
    have hcb : ((s.processes p).registers i).callback = some k := by
      rw [hregister]
      simp only [named, hr.hand.symm.trans hhand, Option.bind_some, hk]
    obtain ⟨o, ho, -, -, hprogress⟩ := hI.owner (isProcess_of_mem_ranks hN hsteps.rank) hi
      ((hm.up p).trans hup) hcb
    exact ⟨k, o, hk, ho, hprogress.1⟩
  have hcompleted : ∀ y ∈ e.completed, ∃ t, .operationComplete t y.2 ∈ b'.due i ∧
      κ p t = some y.1 := by
    intro y hy
    rw [← he, mem_performed_completed] at hy
    exact hy.resolve_left List.not_mem_nil
  have hfollows : Protocol.Follows s (s.commit N p i (named (κ p) (b'.final i)) e) := by
    refine Protocol.follows_commit fun y hy o ho => ?_
    obtain ⟨t, hop, ht⟩ := hcompleted y hy
    obtain ⟨k, o', hk, ho', hfinish⟩ := hdue t _ hop
    rw [ht, Option.some.injEq] at hk
    rw [← hk, ho, Option.some.injEq] at ho'
    rw [ho']
    exact hfinish
  refine ⟨_, hreach, ?_, .of_follows hfollows⟩
  refine hm.of_commit hsteps (by rw [hc']) hfollows ?_ ?_
  · rw [hc']
    refine (hnoted.follow hfollows).receive hr (fun cmd' hcmd' q hq => ?_) fun t op hop => ?_
    · refine Protocol.sent_of_commit ?_ (isProcess_of_mem_ranks hN hq)
      rw [← he, mem_performed_broadcasts]
      exact .inr hcmd'
    · obtain ⟨k, o', hk, ho', -⟩ := hdue t op hop
      obtain ⟨o'', ho'', hfinish⟩ := Protocol.commit_finish (N := N) (p := p) (r := i) ho'
        (show (k, op) ∈ e.completed by rw [← he, mem_performed_completed]; exact .inr ⟨t, hop, hk⟩)
        fun y hy => by
          obtain ⟨u, hu, -⟩ := hcompleted y hy
          exact hr.after.mode.complete_unique hu hop
      exact ⟨k, o'', _, hk, ho'', hfinish⟩
  · rw [hc']
    refine hmirrored.commit hr rfl (fun _ _ _ => rfl) ?_
    have hfiles : e.files = (s.processes p).files := by
      rw [← he, performed_files]
    rw [hfiles]
    exact (hmirrored.store.receive_other hrec hr.receives.first hr.mode.sound
      (request?_of_reply hcmd o)).mono fun _ _ h => hfollows.sent h

end

/-! ## A client command is received -/

section

variable {b' : Bank} {i k : ℕ} {cmd : ClientRegisterCommand} {t : Callback} {call : Call}
  {mailbox : List WorkerMessage} {o : Protocol.Operation}

/-- A new name takes none away. -/
theorem update_of_named (hnone : f t = none) {u : Callback} {n : ℕ} (hu : f u = some n) :
    Function.update f t (some k) u = some n := by
  have hut : u ≠ t := by
    rintro rfl
    rw [hnone] at hu
    cases hu
  rw [Function.update_of_ne hut, hu]

/-- Call `t` becomes operation `k`. -/
theorem Noted.invoked (h : Noted N s f p x) (hs : Protocol.Follows s s') (hplaced : Placed x)
    (hr : Reception x b' i (.client cmd t) mailbox) (hcall : x.calls[t]? = some call)
    (hcmd : call.cmd = cmd) (hfresh : ∀ u, f u ≠ some k) (ho : s'.operations k = some o)
    (hprocess : o.process = p) (hocmd : o.cmd = cmd) (hregister : o.register = i)
    (hopening : ∀ cmd, .broadcast cmd ∈ b'.due i → ∀ q ∈ Cluster.ranks N, s'.Sent q.toNat cmd) :
    Noted N s' (Function.update f t (some k)) p { x with bank := b' } := by
  have ht : t ∈ x.mail i := by
    unfold Process.mail
    rw [hr.receives.first]
    exact List.mem_cons_self
  have hpc : x.pcs t = .handed i := hplaced.handed i t (.inl ht)
  have hnone : f t = none := h.mail i t ht
  have hnames : ∀ u n, f u = some n → Function.update f t (some k) u = some n :=
    fun _ _ hu => update_of_named hnone hu
  have hself : Function.update f t (some k) t = some k := Function.update_self ..
  refine ⟨fun u n hu => ?_, fun u v n hu hv => ?_, fun j u hu => ?_, fun j u hu => ?_,
    fun out hout u hu => ?_, fun out hout htarget q hq => ?_, fun out hout n hn => ?_,
    fun j cmd' hcmd' q hq => ?_, fun y hy => ?_, fun j u op hop => ?_⟩
  · by_cases hut : u = t
    · subst hut
      rw [hself, Option.some.injEq] at hu
      subst hu
      exact ⟨call, o, hcall, ho, hprocess, hocmd.trans hcmd.symm, .inl (hregister ▸ hpc)⟩
    · rw [Function.update_of_ne hut] at hu
      exact (h.follow hs).known u n hu
  · by_cases hut : u = t <;> by_cases hvt : v = t
    · rw [hut, hvt]
    · rw [hut, hself] at hu
      rw [Function.update_of_ne hvt, ← hu] at hv
      exact absurd hv (hfresh v)
    · rw [hvt, hself] at hv
      rw [Function.update_of_ne hut, ← hv] at hu
      exact absurd hu (hfresh u)
    · rw [Function.update_of_ne hut] at hu
      rw [Function.update_of_ne hvt] at hv
      exact h.injective u v n hu hv
  · by_cases hji : j = i
    · subst hji
      have hmail : u ∈ mailbox.filterMap WorkerMessage.callback? := hr.receives.mailbox ▸ hu
      rw [(hr.client cmd t rfl).2.1] at hmail
      cases hmail
    · have hmail : ({ x with bank := b' } : Process).mail j = x.mail j :=
        mail_congr (hr.receives.others j hji).mailboxes
      rw [hmail] at hu
      have hut : u ≠ t := by
        rintro rfl
        have hpc' := hplaced.handed j u (.inl hu)
        rw [hpc, ClientPc.handed.injEq] at hpc'
        exact hji hpc'.symm
      rw [Function.update_of_ne hut]
      exact h.mail j u hu
  · by_cases hji : j = i
    · subst hji
      have hhand : b'.inHand j = some t := hr.handAfter
      rw [hhand, Option.some.injEq] at hu
      subst hu
      exact ⟨k, o, hself, ho, hregister⟩
    · exact (h.hand j u ((hr.receives.others j hji).inHand ▸ hu)).follow hs (hnames u)
  · exact (h.spoken out (hr.receives.outbox ▸ hout) u hu).follow hs (hnames u)
  · exact hs.sent (h.posted out (hr.receives.outbox ▸ hout) htarget q hq)
  · exact hs.sent (h.replied out (hr.receives.outbox ▸ hout) n hn)
  · by_cases hji : j = i
    · subst hji
      exact hopening cmd' hcmd' q hq
    · exact hs.sent (h.opening j cmd' ((hr.receives.others j hji).due ▸ hcmd') q hq)
  · exact (h.fired y (hr.receives.fired ▸ hy)).follow hs (hnames y.1)
  · by_cases hji : j = i
    · subst hji
      exact absurd hop (hr.outcome.of_client u op)
    · exact (h.completing j u op ((hr.receives.others j hji).due ▸ hop)).follow hs (hnames u)

end

section

variable (hm : Matches N R c s κ) (hatt : c.Attributed N R) (huptime : Uptime N p (c p))
  {i : ℕ} {iter : IterOrder} (hsteps : Steps N R c c' p (.receive i iter)) (hi : i < R) {b' : Bank}
  {cmd : ClientRegisterCommand} {t : Callback} {mailbox : List WorkerMessage}
  (hr : Reception (c p) b' i (.client cmd t) mailbox)
include hm hatt huptime hsteps hi hr

/-- **A register is given a command at the right time**: the register is idle, and no other
command on the sector is in progress. -/
theorem environment_of_reception (hN : N < 256) (hlive : Protocol.Live N R s) :
    Protocol.Environment N R s (.invoke p i cmd) := by
  have hup : (c p).up = true := up_of_step hsteps.step Action.noConfusion
  have hp : Protocol.IsProcess N p := isProcess_of_mem_ranks hN hsteps.rank
  have hplaced := (hatt.process p).recorded.placed
  have ht : t ∈ (c p).mail i := by
    unfold Process.mail
    rw [hr.receives.first]
    exact List.mem_cons_self
  obtain ⟨call, hcall, hcmd⟩ := ((hatt.process p).recorded.occupied.register i).mail cmd t
    (hr.receives.first ▸ List.mem_cons_self)
  refine ⟨hp, hi, fun k hk o ho hprocess => ?_⟩
  -- the operation is another call of the process, which a register has been given as well
  obtain ⟨u, hu⟩ := hm.onto k o ho
  rw [hprocess] at hu
  obtain ⟨call', o', hcall', ho', -, hocmd, hpc'⟩ := (hm.noted p).known u k hu
  rw [Option.mem_def.mp ho, Option.some.injEq] at ho'
  subst ho'
  have hpc' : (c p).pcs u = .handed o.register :=
    hpc'.resolve_right (huptime.present hup u (List.getElem?_eq_some_iff.mp hcall').1)
  have htu : t ≠ u := by
    rintro rfl
    rw [(hm.noted p).mail i t ht] at hu
    cases hu
  refine ⟨fun hprogress => ⟨fun hregister => ?_, fun hsector => ?_⟩, fun hid => ?_⟩
  · have hidle : ((s.processes p).registers i).callback = none := by
      rw [(hm.mirrored p hup).registers i hi, hr.resting.final, named, ← hr.hand,
        (hr.client cmd t rfl).2.2, Option.bind_none]
    rcases (hlive p i hp hi).served k o ho hprocess hregister hprogress ((hm.up p).trans hup) with
      hserved | hpending
    · rw [hidle] at hserved
      cases hserved
    · rw [hm.pending p i] at hpending
      cases hpending
  · have hsame : call.sector = call'.sector := by
      show call.cmd.header.sectorIdx = call'.cmd.header.sectorIdx
      rw [hcmd, ← hocmd]
      exact hsector.symm
    rcases huptime.fired_or_fired htu hcall hcall' hsame (hplaced.handed i t (.inl ht)) hpc' with
      hfired | hfired
    · obtain ⟨y, hy, rfl⟩ := List.mem_map.mp hfired
      exact ((hplaced.fired y hy).2.2 i).1 ht
    · obtain ⟨y, hy, rfl⟩ := List.mem_map.mp hfired
      obtain ⟨k', o', time, hk', ho', hfinish⟩ := (hm.noted p).fired y hy
      rw [hu, Option.some.injEq] at hk'
      rw [← hk', Option.mem_def.mp ho, Option.some.injEq] at ho'
      rw [← ho', hprogress.1] at hfinish
      cases hfinish
  · refine htu ((hatt.process p).routes.distinct t u call call' hcall hcall'
      (huptime.source t call hcall) (huptime.source u call' hcall') ?_)
    rw [hcmd, ← hocmd]
    exact hid.symm

/-- **A client command** is invoked. -/
theorem matches_client (hc' : c' p = { c p with bank := b' })
    (hrec : (c p).bank.receive i iter = some b') (hN : N < 256) (hlive : Protocol.Live N R s)
    (hI : Protocol.Invariant N R s g) :
    ∃ s' κ', Reachable (Protocol.System.step N R) (Protocol.WithoutRestart N R) s s' ∧
      Matches N R c' s' κ' ∧ Grows s κ s' κ' := by
  have hup : (c p).up = true := up_of_step hsteps.step Action.noConfusion
  have hocc := (hatt.process p).recorded.occupied
  have hplaced := (hatt.process p).recorded.placed
  have hnoted := hm.noted p
  have hmirrored := hm.mirrored p hup
  have hlt : ∀ k o, s.operations k = some o → k < s.count := fun k o ho =>
    (hI.operations k o ho).lt_count
  have hnone : κ p t = none := by
    refine hnoted.mail i t ?_
    unfold Process.mail
    rw [hr.receives.first]
    exact List.mem_cons_self
  obtain ⟨call, hcall, hcmd⟩ := (hocc.register i).mail cmd t
    (hr.receives.first ▸ List.mem_cons_self)
  have hfresh : ∀ u, κ p u ≠ some s.count := by
    intro u hu
    obtain ⟨-, o, -, ho, -⟩ := hnoted.known u _ hu
    exact absurd (hlt _ o ho) (Nat.lt_irrefl _)
  have hregister : (s.processes p).registers i = named (κ p) ((c p).bank.registers i) := by
    rw [← hr.resting.final]
    exact hmirrored.registers i hi
  obtain ⟨ops, final, hforeseen, hrun⟩ := run_client (f := κ p)
    (Function.update_self t (some s.count) (κ p)) cmd
    ⟨(s.processes p).files, (s.processes p).stable i, [], [], []⟩
  obtain ⟨rfl, rfl⟩ := Bank.forecast_of_receive hrec hr.receives.first hforeseen
  rw [← hregister] at hrun
  generalize hg : Function.update (κ p) t (some s.count) = f' at hrun
  generalize he : List.foldl _ _ _ = e at hrun
  have hnames : ∀ q u k, κ q u = some k → Function.update κ p f' q u = some k := by
    intro q u k hk
    by_cases hqp : q = p
    · subst hqp
      rw [Function.update_self, ← hg]
      exact update_of_named hnone hk
    · rw [Function.update_of_ne hqp]
      exact hk
  have hcompleted : e.completed = [] := by
    rw [List.eq_nil_iff_forall_not_mem]
    intro y hy
    rw [← he, mem_performed_completed] at hy
    obtain ⟨u, hu, -⟩ := hy.resolve_left List.not_mem_nil
    exact hr.outcome.of_client u y.2 hu
  have hfollows₁ := Protocol.follows_issue (p := p) (r := i) hlt cmd
  have hfollows : Protocol.Follows s
      (((s.issue p i cmd).called p i).commit N p i (named f' (b'.final i)) e) := by
    refine hfollows₁.trans (Protocol.follows_commit fun y hy => ?_)
    rw [hcompleted] at hy
    cases hy
  obtain ⟨o, ho, hcontinues⟩ : ∃ o,
      (((s.issue p i cmd).called p i).commit N p i (named f' (b'.final i)) e).operations s.count =
        some o ∧ Protocol.Operation.Continues ⟨p, i, cmd, s.clock, none, none, false⟩ o :=
    (Protocol.follows_commit fun y hy => by rw [hcompleted] at hy; cases hy).operations _ _
      (Function.update_self ..)
  refine ⟨_, Function.update κ p f', Reachable.init.step (a := .invoke p i cmd)
    ⟨environment_of_reception hm hatt huptime hsteps hi hr hN hlive, trivial⟩
    ((if_pos ((hm.up p).trans hup)).trans (Protocol.handle_eq hrun)), ?_, hfollows, hnames, ?_⟩
  · refine hm.of_steps hsteps hfollows rfl (fun r => ?_)
      (fun q hq => ⟨Protocol.commit_process_of_ne hq, Function.update_of_ne hq ..⟩) ?_
      (fun k o' ho' => ?_) ?_ fun _ => ?_
    · rw [Protocol.commit_pending]
      exact hm.pending p r
    · rw [Protocol.commit_up, hc']
      exact hm.up p
    · by_cases hk : k = s.count
      · subst hk
        obtain rfl := Option.some.inj (ho.symm.trans ho')
        refine ⟨t, ?_⟩
        rw [hcontinues.process, Function.update_self, ← hg, Function.update_self]
      · obtain ⟨o₁, ho₁, hprocess⟩ := Protocol.operation_of_commit ho'
        have ho₁' : s.operations k = some o₁ := by
          rw [← ho₁]
          exact (Function.update_of_ne hk ..).symm
        obtain ⟨u, hu⟩ := hm.onto k o₁ ho₁'
        exact ⟨u, hprocess ▸ hnames _ u k hu⟩
    · rw [hc', Function.update_self]
      have hinvoked := hnoted.invoked hfollows hplaced hr hcall hcmd hfresh ho hcontinues.process
        hcontinues.cmd hcontinues.register
      rw [hg] at hinvoked
      refine hinvoked fun cmd' hcmd' q hq => ?_
      refine Protocol.sent_of_commit ?_ (isProcess_of_mem_ranks hN hq)
      rw [← he, mem_performed_broadcasts]
      exact .inr hcmd'
    · rw [hc', Function.update_self]
      refine hmirrored.commit (S := (s.issue p i cmd).called p i) hr rfl (fun j u hu => ?_) ?_
      · obtain ⟨k, hk⟩ := Option.ne_none_iff_exists'.mp (hnoted.callback_named hocc hu)
        rw [hk, ← hg]
        exact update_of_named hnone hk
      · have hfiles : e.files = (s.processes p).files := by
          rw [← he, performed_files]
        rw [hfiles]
        exact (hmirrored.store.receive_other hrec hr.receives.first hr.mode.sound rfl).mono
          fun _ _ h => hfollows.sent h
  · intro q u k hk
    by_cases hqp : q = p
    · subst hqp
      rw [Function.update_self, ← hg] at hk
      by_cases hut : u = t
      · subst hut
        rw [Function.update_self, Option.some.injEq] at hk
        subst hk
        exact .inr ⟨o, ho, hcontinues.start⟩
      · rw [Function.update_of_ne hut] at hk
        exact .inl hk
    · rw [Function.update_of_ne hqp] at hk
      exact .inl hk

end

/-! ## Every step -/

theorem matches_init : Matches N R (.init N) (.init N) fun _ _ => none := by
  refine ⟨rfl, fun _ _ => rfl, fun _ => rfl, ?_, fun p => ?_,
    fun p _ => ⟨fun i _ => rfl, ahead_boot⟩⟩
  · intro k o ho
    cases ho
  · constructor
    case mail => exact fun _ _ _ => rfl
    all_goals intros; contradiction

/-- **The processes refine the protocol.** A step of a process that is not restarted and keeps
colliding requests apart is a step of the protocol, or none. -/
theorem matches_step (hN : N < 256) (hm : Matches N R c s κ) (hatt : c.Attributed N R)
    (huptime : ∀ q, Uptime N q (c q)) (hlive : Protocol.Live N R s)
    (hI : Protocol.Invariant N R s g) (hrestart : a ≠ .restart)
    (hapart : (c p).KeepsApart R a) (hsteps : Steps N R c c' p a) :
    ∃ s' κ', Reachable (Protocol.System.step N R) (Protocol.WithoutRestart N R) s s' ∧
      Matches N R c' s' κ' ∧ Grows s κ s' κ' := by
  by_cases hcrash : a = .crash
  · obtain ⟨s', hs', hm', hgrows⟩ := matches_crash hm hsteps hN hcrash
    exact ⟨s', κ, hs', hm', hgrows⟩
  by_cases hreceive : ∀ i iter, a ≠ .receive i iter
  · exact ⟨s, κ, .init, matches_quiet hm hatt huptime hsteps hcrash hrestart hreceive,
      .of_follows (.refl s)⟩
  push Not at hreceive
  obtain ⟨i, iter, rfl⟩ := hreceive
  obtain ⟨b', hi, hrec, hc'⟩ := receive_of_step hsteps.step
  obtain ⟨msg, mailbox, hr⟩ := (hatt.process p).recorded.occupied.reception hrec
  cases msg with
  | client cmd t =>
    exact matches_client hm hatt (huptime p) hsteps hi hr hc' hrec hN hlive hI
  | system cmd o =>
    cases hcmd : Process.isRequest cmd with
    | true =>
      obtain ⟨s', hs', hm', hgrows⟩ := matches_request hm hatt hsteps hi hc' hrec hr hcmd hapart
      exact ⟨s', κ, hs', hm', hgrows⟩
    | false =>
      by_cases hid : cmd.header.readIdent = ((c p).bank.registers i).state.readIdent
      · obtain ⟨s', hs', hm', hgrows⟩ := matches_reply hm hatt hsteps hi hc' hrec hN hI hr hcmd hid
        exact ⟨s', κ, hs', hm', hgrows⟩
      · exact ⟨s, κ, .init, matches_stale hm hsteps hc' hrec hr hcmd hid, .of_follows (.refl s)⟩

end Executor
end AtomicDiscDrive
