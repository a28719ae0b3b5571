import AtomicDiscDrive.Executor.Naming
import AtomicDiscDrive.Executor.Uptime

/-!
# Processes as processes of the protocol

`Matches` relates a cluster to a state of the protocol in which every handler that is running
has already run to its end: its register is the one the handler will leave, its broadcasts, its
answer and its completion have been made, and the sector store is the store ahead. All steps of
a process but the reception of a message and a crash change nothing that the protocol sees
(`Noted.step`, `Mirrored.step`).
-/

namespace AtomicDiscDrive

open Utils

/-! ## Answers by their keys -/

theorem mem_of_lookup {α β : Type} [BEq α] [LawfulBEq α] {l : List (α × β)} {k : α} {v : β}
    (h : l.lookup k = some v) : (k, v) ∈ l := by
  obtain ⟨l₁, l₂, rfl, -⟩ := List.lookup_eq_some_iff.mp h
  exact List.mem_append_right l₁ List.mem_cons_self

theorem lookup_of_mem {α β : Type} [BEq α] [LawfulBEq α] {l : List (α × β)} {k : α} {v : β}
    (hmem : (k, v) ∈ l) (honly : ∀ w, (k, w) ∈ l → w = v) : l.lookup k = some v := by
  cases hlookup : l.lookup k with
  | none =>
    rw [List.lookup_eq_none_iff] at hlookup
    simpa using hlookup _ hmem
  | some w => rw [honly w (mem_of_lookup hlookup)]

/-! ## Later states of the protocol -/

namespace Protocol

/-- The packet has been sent. -/
def System.Sent (s : System) (n : ℕ) (cmd : SystemRegisterCommand) : Prop :=
  (⟨n, cmd⟩ : Packet) ∈ s.net

/-- `o'` is `o` at a later time: an answer is given once. -/
structure Operation.Continues (o o' : Operation) : Prop where
  process : o'.process = o.process
  register : o'.register = o.register
  cmd : o'.cmd = o.cmd
  start : o'.start = o.start
  finish : ∀ x, o.finish = some x → o'.finish = some x

theorem Operation.Continues.refl (o : Operation) : o.Continues o :=
  ⟨rfl, rfl, rfl, rfl, fun _ h => h⟩

theorem Operation.Continues.precedes {o₁ o₁' o₂ o₂' : Operation} (h₁ : o₁.Continues o₁')
    (h₂ : o₂.Continues o₂') (h : o₁.Precedes o₂) : o₁'.Precedes o₂' := by
  obtain ⟨time, c, hfinish, hlt⟩ := h
  exact ⟨time, c, h₁.finish _ hfinish, h₂.start ▸ hlt⟩

/-- Operations and packets are not forgotten. -/
structure Follows (s s' : System) : Prop where
  operations : ∀ k o, s.operations k = some o → ∃ o', s'.operations k = some o' ∧ o.Continues o'
  net : ∀ packet ∈ s.net, packet ∈ s'.net

theorem Follows.refl (s : System) : Follows s s := ⟨fun _ o ho => ⟨o, ho, .refl o⟩, fun _ h => h⟩

theorem Follows.of_same {s s' : System} (hoperations : s'.operations = s.operations)
    (hnet : s'.net = s.net) : Follows s s' :=
  ⟨fun _ o ho => ⟨o, hoperations ▸ ho, .refl o⟩, fun _ h => hnet ▸ h⟩

theorem Follows.trans {s₁ s₂ s₃ : System} (h₁ : Follows s₁ s₂) (h₂ : Follows s₂ s₃) :
    Follows s₁ s₃ := by
  refine ⟨fun k o ho => ?_, fun packet h => h₂.net packet (h₁.net packet h)⟩
  obtain ⟨o₂, ho₂, hc₂⟩ := h₁.operations k o ho
  obtain ⟨o₃, ho₃, hc₃⟩ := h₂.operations k o₂ ho₂
  exact ⟨o₃, ho₃, hc₃.process.trans hc₂.process, hc₃.register.trans hc₂.register,
    hc₃.cmd.trans hc₂.cmd, hc₃.start.trans hc₂.start, fun x hx => hc₃.finish x (hc₂.finish x hx)⟩

theorem Follows.sent {s s' : System} (h : Follows s s') {n : ℕ} {cmd : SystemRegisterCommand}
    (hsent : s.Sent n cmd) : s'.Sent n cmd := h.net _ hsent

variable {N : ℕ} {s : System} {p : UInt8} {r : ℕ} {register : AtomicRegisterImplementation}
  {e : HandlerEnv}

theorem commit_operation {k : ℕ} {o : Operation} (ho : s.operations k = some o) :
    (s.commit N p r register e).operations k = some { o with
      writeProc := if ((s.processes p).registers r).callback = some k then
          (e.broadcasts.findSome? writeProcOf).or o.writeProc
        else o.writeProc
      finish := ((e.completed.lookup k).map fun op => (s.clock, op)).or o.finish } := by
  show recordHistory _ _ e s.operations k = _
  rw [recordHistory, ho]
  rfl

/-- A handler completes operations that are not answered yet. -/
theorem follows_commit (hcompleted : ∀ x ∈ e.completed, ∀ o, s.operations x.1 = some o →
    o.finish = none) : Follows s (s.commit N p r register e) := by
  refine ⟨fun k o ho => ?_, fun packet h => ?_⟩
  · refine ⟨_, commit_operation ho, rfl, rfl, rfl, rfl, fun x hx => ?_⟩
    cases hlookup : e.completed.lookup k with
    | none => exact hx
    | some op =>
      rw [hcompleted _ (mem_of_lookup hlookup) o ho] at hx
      cases hx
  · rw [commit_net, List.append_assoc]
    exact List.mem_append_left _ h

/-- The answer of an operation that a handler completes. -/
theorem commit_finish {k : ℕ} {o : Operation} {op : OperationComplete}
    (ho : s.operations k = some o) (hmem : (k, op) ∈ e.completed)
    (honly : ∀ x ∈ e.completed, x.2 = op) :
    ∃ o', (s.commit N p r register e).operations k = some o' ∧
      o'.finish = some (s.clock, op) := by
  have hlookup : e.completed.lookup k = some op := lookup_of_mem hmem fun _ hop => honly _ hop
  refine ⟨_, commit_operation ho, ?_⟩
  rw [hlookup]
  rfl

end Protocol

namespace Executor

/-! ## The relation -/

/-- The operations of the protocol that the calls of the processes are. -/
abbrev Naming := UInt8 → Callback → Option ℕ

/-- Call `t` is an operation that was handed to register `i`. -/
def Names (s : Protocol.System) (f : Callback → Option ℕ) (t : Callback) (i : ℕ) : Prop :=
  ∃ k o, f t = some k ∧ s.operations k = some o ∧ o.register = i

/-- Call `t` is an operation that was answered with `op`. -/
def Reported (s : Protocol.System) (f : Callback → Option ℕ) (t : Callback)
    (op : OperationComplete) : Prop :=
  ∃ k o time, f t = some k ∧ s.operations k = some o ∧ o.finish = some (time, op)

/-- What process `p` has done and will do is in the history of the protocol. -/
structure Noted (N : ℕ) (s : Protocol.System) (f : Callback → Option ℕ) (p : UInt8)
    (x : Process) : Prop where
  known : ∀ t k, f t = some k → ∃ call o, x.calls[t]? = some call ∧ s.operations k = some o ∧
    o.process = p ∧ o.cmd = call.cmd ∧ (x.pcs t = .handed o.register ∨ x.pcs t = .lost)
  injective : ∀ t u k, f t = some k → f u = some k → t = u
  mail : ∀ i, ∀ t ∈ x.mail i, f t = none
  hand : ∀ i t, x.bank.inHand i = some t → Names s f t i
  spoken : ∀ out ∈ x.bank.outbox, ∀ t, out.call = some t → Names s f t out.register
  posted : ∀ out ∈ x.bank.outbox, out.target = none →
    ∀ q ∈ Cluster.ranks N, s.Sent q.toNat out.cmd
  replied : ∀ out ∈ x.bank.outbox, ∀ n, out.target = some n → s.Sent n out.cmd
  opening : ∀ i cmd, .broadcast cmd ∈ x.bank.due i → ∀ q ∈ Cluster.ranks N, s.Sent q.toNat cmd
  fired : ∀ y ∈ x.bank.fired, Reported s f y.1 y.2
  completing : ∀ i t op, .operationComplete t op ∈ x.bank.due i → Reported s f t op

/-- The process of the protocol is where process `p` will be when its handlers have come to
their end. -/
structure Mirrored (R : ℕ) (s : Protocol.System) (f : Callback → Option ℕ) (p : UInt8)
    (x : Process) : Prop where
  registers : ∀ i < R, (s.processes p).registers i = named f (x.bank.final i)
  store : Ahead R x.bank (s.processes p).files s.Sent

/-- **The state of the protocol that a cluster is in.** -/
structure Matches (N R : ℕ) (c : Cluster) (s : Protocol.System) (κ : Naming) : Prop where
  restarts : s.restarts = 0
  pending : ∀ p r, (s.processes p).pending r = none
  up : ∀ p, (s.processes p).up = (c p).up
  onto : ∀ k o, s.operations k = some o → ∃ t, κ o.process t = some k
  noted : ∀ p, Noted N s (κ p) p (c p)
  mirrored : ∀ p, (c p).up = true → Mirrored R s (κ p) p (c p)

section

variable {N R : ℕ} {s s' : Protocol.System} {f g : Callback → Option ℕ} {p : UInt8}
  {x x' : Process} {a : Action}

/-! ### Later states -/

theorem Names.follow {t : Callback} {i : ℕ} (h : Names s f t i) (hs : Protocol.Follows s s')
    (hf : ∀ k, f t = some k → g t = some k) : Names s' g t i := by
  obtain ⟨k, o, hk, ho, hi⟩ := h
  obtain ⟨o', ho', hc⟩ := hs.operations k o ho
  exact ⟨k, o', hf k hk, ho', hc.register.trans hi⟩

theorem Reported.follow {t : Callback} {op : OperationComplete} (h : Reported s f t op)
    (hs : Protocol.Follows s s') (hf : ∀ k, f t = some k → g t = some k) :
    Reported s' g t op := by
  obtain ⟨k, o, time, hk, ho, hfinish⟩ := h
  obtain ⟨o', ho', hc⟩ := hs.operations k o ho
  exact ⟨k, o', time, hf k hk, ho', hc.finish _ hfinish⟩

theorem Noted.follow (h : Noted N s f p x) (hs : Protocol.Follows s s') : Noted N s' f p x where
  known := by
    intro t k hk
    obtain ⟨call, o, hcall, ho, hprocess, hcmd, hpc⟩ := h.known t k hk
    obtain ⟨o', ho', hc⟩ := hs.operations k o ho
    refine ⟨call, o', hcall, ho', hc.process.trans hprocess, hc.cmd.trans hcmd, ?_⟩
    rw [hc.register]
    exact hpc
  injective := h.injective
  mail := h.mail
  hand := fun i t ht => (h.hand i t ht).follow hs fun _ hk => hk
  spoken := fun out hout t ht => (h.spoken out hout t ht).follow hs fun _ hk => hk
  posted := fun out hout htarget q hq => hs.sent (h.posted out hout htarget q hq)
  replied := fun out hout n hn => hs.sent (h.replied out hout n hn)
  opening := fun i cmd hcmd q hq => hs.sent (h.opening i cmd hcmd q hq)
  fired := fun y hy => (h.fired y hy).follow hs fun _ hk => hk
  completing := fun i t op hop => (h.completing i t op hop).follow hs fun _ hk => hk

theorem Mirrored.follow (h : Mirrored R s f p x) (hs : Protocol.Follows s s')
    (hprocess : s'.processes p = s.processes p) : Mirrored R s' f p x := by
  refine ⟨?_, ?_⟩
  · rw [hprocess]
    exact h.registers
  · rw [hprocess]
    exact h.store.mono fun _ _ hsent => hs.sent hsent

/-! ### Steps the protocol does not see -/

/-- Calls that are operations stand where they stood. -/
theorem Noted.known_of (h : Noted N s f p x)
    (hcalls : ∀ (t : ℕ) call, x.calls[t]? = some call → x'.calls[t]? = some call)
    (hhanded : ∀ t i, t < x.calls.length → x.pcs t = .handed i →
      x'.pcs t = .handed i ∨ x'.pcs t = .lost)
    (hlost : ∀ t, t < x.calls.length → x.pcs t = .lost → x'.pcs t = .lost) :
    ∀ t k, f t = some k → ∃ call o, x'.calls[t]? = some call ∧ s.operations k = some o ∧
      o.process = p ∧ o.cmd = call.cmd ∧ (x'.pcs t = .handed o.register ∨ x'.pcs t = .lost) := by
  intro t k hk
  obtain ⟨call, o, hcall, ho, hprocess, hcmd, hpc⟩ := h.known t k hk
  have hlt : t < x.calls.length := (List.getElem?_eq_some_iff.mp hcall).1
  refine ⟨call, o, hcalls t call hcall, ho, hprocess, hcmd, ?_⟩
  rcases hpc with hpc | hpc
  · exact hhanded t _ hlt hpc
  · exact .inr (hlost t hlt hpc)

/-- The bank is the same but for mail that brings no client command. -/
theorem Noted.of_bank (h : Noted N s f p x)
    (hcalls : ∀ (t : ℕ) call, x.calls[t]? = some call → x'.calls[t]? = some call)
    (hhanded : ∀ t i, t < x.calls.length → x.pcs t = .handed i →
      x'.pcs t = .handed i ∨ x'.pcs t = .lost)
    (hlost : ∀ t, t < x.calls.length → x.pcs t = .lost → x'.pcs t = .lost)
    (hmail : ∀ i, ∀ t ∈ x'.mail i, f t = none)
    (hhand : ∀ i, x'.bank.inHand i = x.bank.inHand i) (hdue : ∀ i, x'.bank.due i = x.bank.due i)
    (houtbox : x'.bank.outbox = x.bank.outbox) (hfired : x'.bank.fired = x.bank.fired) :
    Noted N s f p x' where
  known := h.known_of hcalls hhanded hlost
  injective := h.injective
  mail := hmail
  hand := fun i t ht => h.hand i t (hhand i ▸ ht)
  spoken := fun out hout => h.spoken out (houtbox ▸ hout)
  posted := fun out hout => h.posted out (houtbox ▸ hout)
  replied := fun out hout => h.replied out (houtbox ▸ hout)
  opening := fun i cmd hcmd => h.opening i cmd (hdue i ▸ hcmd)
  fired := fun y hy => h.fired y (hfired ▸ hy)
  completing := fun i t op hop => h.completing i t op (hdue i ▸ hop)

/-- A call that is on its way to a register is not an operation yet. -/
theorem Noted.unnamed (h : Noted N s f p x) {t : Callback} (hhanded : ∀ i, x.pcs t ≠ .handed i)
    (hlost : x.pcs t ≠ .lost) : f t = none := by
  rw [Option.eq_none_iff_forall_ne_some]
  intro k hk
  obtain ⟨-, o, -, -, -, -, hpc⟩ := h.known t k hk
  rcases hpc with hpc | hpc
  · exact hhanded _ hpc
  · exact hlost hpc

/-- The task of a call that is not an operation yet moves. -/
theorem Noted.moved (h : Noted N s f p x) {t : Callback} (hnone : f t = none) {pc : ClientPc}
    (hpcs : x'.pcs = Function.update x.pcs t pc)
    (hcalls : ∀ (u : ℕ) call, x.calls[u]? = some call → x'.calls[u]? = some call)
    (hmail : ∀ i, ∀ u ∈ x'.mail i, f u = none)
    (hhand : ∀ i, x'.bank.inHand i = x.bank.inHand i) (hdue : ∀ i, x'.bank.due i = x.bank.due i)
    (houtbox : x'.bank.outbox = x.bank.outbox) (hfired : x'.bank.fired = x.bank.fired) :
    Noted N s f p x' := by
  have hstill : Noted N s f p { x' with pcs := x.pcs } :=
    h.of_bank hcalls (fun _ _ _ h => .inl h) (fun _ _ h => h) hmail hhand hdue houtbox hfired
  refine { hstill with known := fun u k hk => ?_ }
  obtain ⟨call, o, hcall, ho, hprocess, hcmd, hpc⟩ := h.known u k hk
  refine ⟨call, o, hcalls u call hcall, ho, hprocess, hcmd, ?_⟩
  have hut : u ≠ t := by
    rintro rfl
    rw [hnone] at hk
    cases hk
  rw [hpcs, Function.update_of_ne hut]
  exact hpc

/-- A handler goes on: what it does has been noted when it was due. -/
theorem Noted.call (h : Noted N s f p x) (hocc : Occupied N p x)
    (hstore : Ahead R x.bank (s.processes p).files s.Sent) {i : ℕ} {bank : Bank} (hi : i < R)
    (hcall : x.bank.call i = some bank) (finishing : List FinishTask) :
    Noted N s f p { x with bank, finishing } := by
  have hacts := Bank.call_cases hcall (hocc.register i).steady
  have hhand : ∀ j t, bank.inHand j = some t → x.bank.inHand j = some t := by
    intro j t ht
    by_cases hji : j = i
    · subst hji
      obtain ⟨-, hdeed⟩ := (hocc.register j).call hacts
      rcases hdeed.hand with hsame | ⟨hnone, -⟩
      · exact hsame ▸ ht
      · rw [hnone] at ht
        cases ht
    · exact (hacts.others j hji).inHand ▸ ht
  have hdue : ∀ j op, op ∈ bank.due j → op ∈ x.bank.due j := by
    intro j op hop
    by_cases hji : j = i
    · subst hji
      exact hacts.due_subset hop
    · exact (hacts.others j hji).due ▸ hop
  have houtbox : ∀ out ∈ bank.outbox, out ∈ x.bank.outbox ∨ Sends x.bank i out := by
    intro out hout
    rcases hacts.outbox with hsame | ⟨new, hsends, happend⟩
    · exact .inl (hsame ▸ hout)
    · rw [happend, List.mem_append, List.mem_singleton] at hout
      rcases hout with hout | rfl
      · exact .inl hout
      · exact .inr hsends
  refine ⟨h.known, h.injective, fun j t ht => h.mail j t ?_,
    fun j t ht => h.hand j t (hhand j t ht), fun out hout t ht => ?_, fun out hout htarget => ?_, fun out hout n hn => ?_,
    fun j cmd hcmd => h.opening j cmd (hdue j _ hcmd), fun y hy => ?_,
    fun j t op hop => h.completing j t op (hdue j _ hop)⟩
  · have hmail : ({ x with bank, finishing } : Process).mail j = x.mail j :=
      mail_congr (by rw [hacts.mailboxes])
    exact hmail ▸ ht
  · rcases houtbox out hout with hout | hsends
    · exact h.spoken out hout t ht
    · cases hsends with
      | broadcast _ => exact h.hand i t ht
      | reply _ => cases ht
  · rcases houtbox out hout with hout | hsends
    · exact h.posted out hout htarget
    · cases hsends with
      | broadcast hdue =>
        refine h.opening i _ ?_
        rw [hdue]
        exact List.mem_cons_self
      | reply _ => cases htarget
  · rcases houtbox out hout with hout | hsends
    · exact h.replied out hout n hn
    · cases hsends with
      | broadcast _ => cases hn
      | reply hw =>
        cases hn
        exact hstore.sent_of_send hi hw
  · rcases hacts.fired_cases hy with hy | hdue
    · exact h.fired y hy
    · exact h.completing i y.1 y.2 hdue

/-- A crash: what has been noted stays, and nothing is due any more. -/
theorem Noted.crash (h : Noted N s f p x) : Noted N s f p (x.crash N p) := by
  refine ⟨h.known_of (fun _ _ hcall => hcall) (fun _ _ _ _ => .inr rfl) (fun _ _ _ => rfl),
    h.injective, fun i t ht => ?_, fun i t ht => ?_, h.spoken, h.posted, h.replied,
    fun i cmd hcmd => ?_, h.fired, fun i t op hop => ?_⟩
  · cases ht
  · cases ht
  · cases hcmd
  · cases hop

/-- **What is noted** is kept by all steps but the reception of a message. -/
theorem Noted.step (h : Noted N s f p x) (hocc : Occupied N p x) (huptime : Uptime N p x)
    (hstore : x.up = true → Ahead R x.bank (s.processes p).files s.Sent)
    (hrestart : a ≠ .restart) (hreceive : ∀ i iter, a ≠ .receive i iter)
    (hstep : x.step N R p a = some x') : Noted N s f p x' := by
  have hmove : ∀ {t : Callback} {pc₀ : ClientPc}, x.pcs t = pc₀ → (∀ i, pc₀ ≠ .handed i) →
      pc₀ ≠ .lost → f t = none := by
    rintro t pc₀ rfl hhanded hlost
    exact h.unnamed hhanded hlost
  have hup : x.up = true := up_of_step hstep hrestart
  cases step_event hstep with
  | shuffle _ hs =>
    refine h.of_bank (fun t call hcall => hs.calls ▸ hcall)
      (fun t i _ hpc => .inl (hs.handed t i hpc)) (fun t _ hpc => (hs.lost t).mp hpc) (fun i t ht => h.mail i t ?_) (fun i => by rw [hs.bank])
      (fun i => by rw [hs.bank]) (by rw [hs.bank]) (by rw [hs.bank])
    have hmail : x'.mail i = x.mail i := mail_congr (by rw [hs.bank])
    exact hmail ▸ ht
  | submit _ =>
    have hnone : f x.calls.length = none := by
      rw [Option.eq_none_iff_forall_ne_some]
      intro k hk
      obtain ⟨call, -, hcall, -⟩ := h.known _ k hk
      exact absurd (List.getElem?_eq_some_iff.mp hcall).1 (Nat.lt_irrefl _)
    exact h.moved hnone rfl
      (fun u call hcall => (List.getElem?_append_left (List.getElem?_eq_some_iff.mp hcall).1).trans
        hcall) h.mail (fun _ => rfl) (fun _ => rfl) rfl rfl
  | dispatch hstartup _ =>
    rw [huptime.startup] at hstartup
    cases hstartup
  | take _ hpc _ =>
    exact h.moved (hmove hpc (fun _ => ClientPc.noConfusion) ClientPc.noConfusion) rfl
      (fun _ _ hcall => hcall) h.mail (fun _ => rfl) (fun _ => rfl) rfl rfl
  | @hand t call k hcall hpc =>
    have hnone : f t = none := hmove hpc (fun _ => ClientPc.noConfusion) ClientPc.noConfusion
    refine h.moved hnone rfl (fun _ _ hcall => hcall) (fun i u hu => ?_) (fun _ => rfl)
      (fun _ => rfl) rfl rfl
    have hor : u ∈ x.mail i ∨ u = t := by
      by_cases hik : i = k
      · subst hik
        have hadd : u ∈ (x.bank.mailboxes i ++ [WorkerMessage.client call.cmd t]).filterMap
            WorkerMessage.callback? := by
          simpa only [Process.mail, Bank.deliver, Function.update_self] using hu
        rw [List.filterMap_append, List.mem_append] at hadd
        rcases hadd with hadd | hadd
        · exact .inl hadd
        · exact .inr (List.mem_singleton.mp hadd)
      · refine .inl ?_
        simpa only [Process.mail, Bank.deliver, Function.update_of_ne hik] using hu
    rcases hor with hu | rfl
    · exact h.mail i u hu
    · exact hnone
  | @deliver j k task htask hpc =>
    refine h.of_bank (fun _ _ hcall => hcall) (fun _ _ _ hpc => .inl hpc) (fun _ _ hpc => hpc)
      (fun i t ht => h.mail i t ?_) (fun _ => rfl) (fun _ => rfl) rfl rfl
    have hmail : ({ x.setSystem j task .done with
        bank := x.bank.deliver k (.system task.cmd task.origin) } : Process).mail i = x.mail i :=
      mail_deliver_system rfl i
    exact hmail ▸ ht
  | @announce i hi hw =>
    exact h.of_bank (fun _ _ hcall => hcall) (fun _ _ _ hpc => .inl hpc) (fun _ _ hpc => hpc)
      h.mail (Bank.inHand_waiting hw) (Bank.due_waiting hw) rfl rfl
  | @receive i iter bank hi hrec => exact absurd rfl (hreceive i iter)
  | @call i bank finishing hi hcall => exact h.call hocc (hstore hup) hi hcall finishing
  | crash => exact h.crash
  | restart _ => exact absurd rfl hrestart

theorem Bank.Acts.final {b b' : Bank} {i : ℕ} (h : Bank.Acts b i b') (j : ℕ) :
    b'.final j = b.final j := by
  by_cases hji : j = i
  · subst hji
    cases h with
    | silent _ _ _ hworks _ _ => exact hworks.final
    | put hworks _ => exact hworks.final
    | broadcast hworks _ => exact hworks.final
    | complete hworks _ => exact hworks.final
    | @returned msg register hw hdue hfinal =>
      have hready : (b.returned j msg register).workers j = .ready := Function.update_self ..
      rw [(Bank.resting_of_eq hready (.inl rfl)).final, hfinal]
      exact Function.update_self ..
  · exact (h.others j hji).final

/-- **The mirror image** of a process is the same after all steps but the reception of a
message, as long as it is up. -/
theorem Mirrored.step (h : Mirrored R s f p x) (hocc : Occupied N p x) (hrestart : a ≠ .restart)
    (hreceive : ∀ i iter, a ≠ .receive i iter) (hstep : x.step N R p a = some x')
    (hup : x'.up = true) : Mirrored R s f p x' := by
  cases step_event hstep with
  | shuffle _ hs =>
    refine ⟨?_, ?_⟩
    · rw [hs.bank]
      exact h.registers
    · rw [hs.bank]
      exact h.store
  | hand _ _ => exact ⟨h.registers, h.store.same rfl fun _ _ => .inr ⟨rfl, rfl⟩⟩
  | deliver _ _ => exact ⟨h.registers, h.store.same rfl fun _ _ => .inr ⟨rfl, rfl⟩⟩
  | @announce i hi hw =>
    refine ⟨fun j hj => ?_, h.store.same rfl fun j _ => ?_⟩
    · rw [Bank.final_waiting hw]
      exact h.registers j hj
    · by_cases hji : j = i
      · subst hji
        exact .inl ⟨Bank.resting_of_eq (Function.update_self ..) (.inr rfl),
          Bank.resting_of_eq hw (.inl rfl)⟩
      · exact .inr ⟨Function.update_of_ne hji .., rfl⟩
  | @receive i iter bank hi hrec => exact absurd rfl (hreceive i iter)
  | @call i bank finishing hi hcall =>
    have hacts := Bank.call_cases hcall (hocc.register i).steady
    refine ⟨fun j hj => ?_, h.store.call hi hcall⟩
    rw [hacts.final]
    exact h.registers j hj
  | crash => cases hup
  | restart _ => exact absurd rfl hrestart
  | _ => exact ⟨h.registers, h.store⟩

end

end Executor
end AtomicDiscDrive
