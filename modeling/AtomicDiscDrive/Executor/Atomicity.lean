import AtomicDiscDrive.Executor.Refinement

/-!
# Atomicity of the processes

What the clients of a cluster see of a sector is linearizable, however the threads and tasks of
the processes interleave (`executor_linearizable`). The protocol orders the operations by their
tags; a call starts no later and is answered no earlier than the operation it is, so the order
of the operations explains the calls too.
-/

namespace AtomicDiscDrive
namespace Executor

open Utils

/-! ## What clients see -/

/-- The data a call writes. -/
def Call.writes (call : Call) : Option SectorVec :=
  match call.cmd.content with
  | .read => none
  | .write data => some data

/-- The data a client is given. -/
def dataOf (op : OperationComplete) : Option SectorVec :=
  match op.opReturn with
  | .read ret => ret.readData
  | .write => none

/-- All calls that have been made. -/
def Cluster.callSet (N : ℕ) (c : Cluster) : Finset (Σ _ : UInt8, Callback) :=
  (Cluster.ranks N).toFinset.sigma fun p => Finset.range (c p).calls.length

/-- The number of calls that write. -/
def Cluster.writesMade (N : ℕ) (c : Cluster) : ℕ :=
  ((c.callSet N).filter fun a =>
    ((c a.1).calls[a.2]?).any fun call => call.cmd.content ≠ .read).card

/-- A cluster, and the times at which calls were made and their callbacks invoked. -/
structure Timeline where
  cluster : Cluster
  clock : ℕ
  submitted : UInt8 → Callback → Option ℕ
  answered : UInt8 → Callback → Option ℕ

namespace Timeline

/-- The time at which something is seen for the first time. -/
def firstSeen (before : Option ℕ) (now : ℕ) (seen : Bool) : Option ℕ :=
  before.or (if seen then some now else none)

def step (N R : ℕ) (T : Timeline) (x : UInt8 × Action) : Option Timeline :=
  (T.cluster.step N R x).map fun c =>
    { cluster := c
      clock := T.clock + 1
      submitted := fun p t => firstSeen (T.submitted p t) T.clock (t < (c p).calls.length)
      answered := fun p t =>
        firstSeen (T.answered p t) T.clock (t ∈ (c p).bank.fired.map Prod.fst) }

def init (N : ℕ) : Timeline := ⟨.init N, 0, fun _ _ => none, fun _ _ => none⟩

/-- The history of the calls on one sector. -/
def history (N : ℕ) (T : Timeline) (sec : SectorIdx) :
    History (Σ _ : UInt8, Callback) SectorVec where
  ops := (T.cluster.callSet N).filter fun a =>
    ((T.cluster a.1).calls[a.2]?).any fun call => call.sector = sec
  write a := ((T.cluster a.1).calls[a.2]?).bind Call.writes
  start a := (T.submitted a.1 a.2).getD 0
  finish a := T.answered a.1 a.2
  result a := ((T.cluster a.1).bank.fired.lookup a.2).bind dataOf

end Timeline

/-- The steps of orderly processes that are not restarted, that reject no request under the
identifier of a command, and that keep colliding requests apart. -/
def Cluster.Undisturbed (N R : ℕ) (c : Cluster) (x : UInt8 × Action) : Prop :=
  x.2 ≠ .restart ∧ c.Orderly N x ∧ (c x.1).RejectsApart x.2 ∧ (c x.1).KeepsApart R x.2

instance (a : Action) : Decidable (a ≠ .restart) :=
  match a with
  | .restart => .isFalse fun h => h rfl
  | .submit _ | .reject _ | .dispatch | .client _ | .arrive _ _ | .system _ | .announce _
  | .receive _ _ | .call _ | .finish _ _ | .crash => .isTrue Action.noConfusion

instance (N R : ℕ) (c : Cluster) (x : UInt8 × Action) : Decidable (c.Undisturbed N R x) :=
  instDecidableAnd

variable {N R : ℕ} {c c' : Cluster} {s s' : Protocol.System} {κ κ' : Naming}
  {g : Protocol.Ghost} {p : UInt8} {a : Action} {T T' : Timeline}

/-! ## Calls -/

theorem mem_callSet {b : Σ _ : UInt8, Callback} :
    b ∈ c.callSet N ↔ b.1 ∈ Cluster.ranks N ∧ b.2 < (c b.1).calls.length := by
  rw [Cluster.callSet, Finset.mem_sigma, List.mem_toFinset, Finset.mem_range]

theorem calls_kept {x x' : Process} (hstep : x.step N R p a = some x') {t : ℕ} {call : Call}
    (hcall : x.calls[t]? = some call) : x'.calls[t]? = some call := by
  have hlt : t < x.calls.length := (List.getElem?_eq_some_iff.mp hcall).1
  cases step_event hstep with
  | shuffle _ hs => exact hs.calls ▸ hcall
  | submit _ => exact (List.getElem?_append_left hlt).trans hcall
  | dispatch _ _ => exact (List.getElem?_append_left hlt).trans hcall
  | restart hrestart => exact (restart_aside hrestart).calls ▸ hcall
  | _ => exact hcall

theorem Steps.calls_kept (h : Steps N R c c' p a) {q : UInt8} {t : ℕ} {call : Call}
    (hcall : (c q).calls[t]? = some call) : (c' q).calls[t]? = some call := by
  by_cases hqp : q = p
  · subst hqp
    exact Executor.calls_kept h.step hcall
  · rw [h.others q hqp]
    exact hcall

theorem Steps.writesMade (h : Steps N R c c' p a) : c.writesMade N ≤ c'.writesMade N := by
  refine Finset.card_le_card fun b hb => ?_
  rw [Finset.mem_filter, mem_callSet, Option.any_eq_true] at hb ⊢
  obtain ⟨⟨hrank, -⟩, call, hcall, hwrite⟩ := hb
  have hcall' := h.calls_kept hcall
  exact ⟨⟨hrank, (List.getElem?_eq_some_iff.mp hcall').1⟩, call, hcall', hwrite⟩

/-- Only the processes of the cluster do anything. -/
theorem init_of_not_mem_ranks {allowed : Cluster → UInt8 × Action → Prop}
    (hc : Reachable (Cluster.step N R) allowed (.init N) c) {q : UInt8}
    (hq : q ∉ Cluster.ranks N) : c q = .init N q := by
  refine hc.invariant (fun c => c q = .init N q) rfl ?_
  intro c x c' _ h _ hstep
  have hsteps := steps_of_step hstep
  rw [hsteps.others q (fun hqx => hq (hqx ▸ hsteps.rank))]
  exact h

theorem mem_ranks_of_call {allowed : Cluster → UInt8 × Action → Prop}
    (hc : Reachable (Cluster.step N R) allowed (.init N) c) {q : UInt8} {t : ℕ} {call : Call}
    (hcall : (c q).calls[t]? = some call) : q ∈ Cluster.ranks N := by
  by_contra hq
  rw [init_of_not_mem_ranks hc hq] at hcall
  cases hcall

/-- Operations are calls, so there are no more writes than calls that write. -/
theorem Matches.writesIssued_le {allowed : Cluster → UInt8 × Action → Prop}
    (hc : Reachable (Cluster.step N R) allowed (.init N) c) (hm : Matches N R c s κ) :
    s.writesIssued ≤ c.writesMade N := by
  refine Finset.card_le_card_of_surjOn (fun b => (κ b.1 b.2).getD 0) fun k hk => ?_
  rw [Finset.mem_coe, Finset.mem_filter, Option.any_eq_true] at hk
  obtain ⟨-, o, ho, hwrite⟩ := hk
  obtain ⟨t, ht⟩ := hm.onto k o ho
  obtain ⟨call, o', hcall, ho', -, hcmd, -⟩ := (hm.noted o.process).known t k ht
  rw [ho, Option.some.injEq] at ho'
  subst ho'
  refine ⟨⟨o.process, t⟩, ?_, by simp only [ht, Option.getD_some]⟩
  rw [Finset.mem_coe, Finset.mem_filter, mem_callSet, Option.any_eq_true]
  exact ⟨⟨mem_ranks_of_call hc hcall, (List.getElem?_eq_some_iff.mp hcall).1⟩, call, hcall,
    hcmd ▸ hwrite⟩

/-! ## Times -/

/-- The times of the calls fit those of the operations they are. -/
structure Timely (T : Timeline) (s : Protocol.System) (κ : Naming) : Prop where
  submitted_lt : ∀ p t n, T.submitted p t = some n → n < T.clock
  submitted : ∀ p t call, (T.cluster p).calls[t]? = some call → T.submitted p t ≠ none
  answered : ∀ p t, T.answered p t ≠ none → t ∈ (T.cluster p).bank.fired.map Prod.fst
  order : ∀ p t q u n m j k o o', T.answered p t = some n → T.submitted q u = some m → n < m →
    κ p t = some j → κ q u = some k → s.operations j = some o → s.operations k = some o' →
    o.Precedes o'

theorem timely_init : Timely (.init N) (.init N) fun _ _ => none := by
  refine ⟨?_, ?_, fun p t h => absurd rfl h, ?_⟩
  all_goals intros; contradiction

theorem firstSeen_cases (before : Option ℕ) (now : ℕ) (seen : Bool) :
    Timeline.firstSeen before now seen = before ∨
      before = none ∧ seen = true ∧ Timeline.firstSeen before now seen = some now := by
  cases before with
  | some n => exact .inl rfl
  | none =>
    cases seen with
    | false => exact .inl rfl
    | true => exact .inr ⟨rfl, rfl, rfl⟩

theorem firstSeen_ne_none (before : Option ℕ) (now : ℕ) :
    Timeline.firstSeen before now true ≠ none := by
  cases before <;> exact Option.some_ne_none _

/-- A step of the cluster, at its time. -/
structure Advances (N R : ℕ) (T T' : Timeline) (x : UInt8 × Action) : Prop where
  steps : Steps N R T.cluster T'.cluster x.1 x.2
  clock : T'.clock = T.clock + 1
  submitted : ∀ q u, T'.submitted q u = T.submitted q u ∨
    T.submitted q u = none ∧ T'.submitted q u = some T.clock
  called : ∀ q u call, (T'.cluster q).calls[u]? = some call → T'.submitted q u ≠ none
  answered : ∀ q u, T'.answered q u = T.answered q u ∨
    T'.answered q u = some T.clock ∧ u ∈ (T'.cluster q).bank.fired.map Prod.fst

theorem advances_of_step {x : UInt8 × Action} (h : T.step N R x = some T') :
    Advances N R T T' x := by
  obtain ⟨c', hc', rfl⟩ := Option.map_eq_some_iff.mp h
  refine ⟨steps_of_step hc', rfl, fun q u => ?_, fun q u call hcall => ?_, fun q u => ?_⟩
  · rcases firstSeen_cases (T.submitted q u) T.clock (u < (c' q).calls.length) with
      hsame | ⟨hnone, -, hnew⟩
    · exact .inl hsame
    · exact .inr ⟨hnone, hnew⟩
  · have hseen : decide (u < (c' q).calls.length) = true :=
      decide_eq_true (List.getElem?_eq_some_iff.mp hcall).1
    show Timeline.firstSeen (T.submitted q u) T.clock (u < (c' q).calls.length) ≠ none
    rw [hseen]
    exact firstSeen_ne_none _ _
  · rcases firstSeen_cases (T.answered q u) T.clock (u ∈ (c' q).bank.fired.map Prod.fst) with
      hsame | ⟨-, hseen, hnew⟩
    · exact .inl hsame
    · exact .inr ⟨hnew, of_decide_eq_true hseen⟩

theorem timely_step {x : UInt8 × Action} (h : Timely T s κ) (hm : Matches N R T.cluster s κ)
    (hatt : T.cluster.Attributed N R) (hI : Protocol.Invariant N R s g) (hgrows : Grows s κ s' κ')
    (hadvances : Advances N R T T' x) : Timely T' s' κ' := by
  obtain ⟨hsteps, hclock, hsubmitted, hcalls, hanswered⟩ := hadvances
  refine ⟨fun q u m hm' => ?_, hcalls, fun q u hu => ?_, ?_⟩
  · rw [hclock]
    rcases hsubmitted q u with hsame | ⟨-, hnew⟩
    · exact (h.submitted_lt q u m (hsame ▸ hm')).trans (Nat.lt_succ_self _)
    · rw [hnew, Option.some.injEq] at hm'
      omega
  · rcases hanswered q u with hsame | ⟨-, hfired⟩
    · have hfired := h.answered q u (hsame ▸ hu)
      by_cases hqx : q = x.1
      · subst hqx
        exact fired_mono (hatt.process x.1).recorded.occupied hsteps.step hfired
      · rw [hsteps.others q hqx]
        exact hfired
    · exact hfired
  · intro p t q u n m j k o o' hn hm' hlt hj hk ho ho'
    have hle : m ≤ T.clock := by
      rcases hsubmitted q u with hsame | ⟨-, hnew⟩
      · exact (h.submitted_lt q u m (hsame ▸ hm')).le
      · rw [hnew, Option.some.injEq] at hm'
        omega
    -- the answer was given before this step, for calls have not been made after it
    have hold : T.answered p t = some n := by
      rcases hanswered p t with hsame | ⟨hnew, -⟩
      · exact hsame ▸ hn
      · rw [hnew, Option.some.injEq] at hn
        omega
    obtain ⟨y, hy, rfl⟩ := List.mem_map.mp
      (h.answered p t (by rw [hold]; exact Option.some_ne_none n))
    obtain ⟨j', o₁, time, hj', ho₁, hfinish⟩ := (hm.noted p).fired y hy
    have hjj := hgrows.names p y.1 j' hj'
    rw [hj, Option.some.injEq] at hjj
    subst hjj
    obtain ⟨o₁', ho₁', hcontinues⟩ := hgrows.follows.operations j o₁ ho₁
    rw [ho, Option.some.injEq] at ho₁'
    subst ho₁'
    rcases hgrows.fresh q u k hk with hk' | ⟨o₂, ho₂, hstart⟩
    · obtain ⟨call, o₂, hcall, ho₂, -⟩ := (hm.noted q).known u k hk'
      obtain ⟨o₂', ho₂', hcontinues'⟩ := hgrows.follows.operations k o₂ ho₂
      rw [ho', Option.some.injEq] at ho₂'
      subst ho₂'
      have hsame : T'.submitted q u = T.submitted q u :=
        (hsubmitted q u).resolve_right fun hnew => h.submitted q u call hcall hnew.1
      exact hcontinues.precedes hcontinues'
        (h.order p y.1 q u n m j k o₁ o₂ hold (hsame ▸ hm') hlt hj' hk' ho₁ ho₂)
    · -- the operation begins now
      rw [ho', Option.some.injEq] at ho₂
      subst ho₂
      refine ⟨time, y.2, hcontinues.finish _ hfinish, ?_⟩
      rw [hstart]
      exact ((hI.operations j o₁ ho₁).finish_lt time y.2 hfinish).2

/-! ## Histories -/

theorem mem_timeline_history {sec : SectorIdx} {b : Σ _ : UInt8, Callback} :
    b ∈ (T.history N sec).ops ↔
      b.1 ∈ Cluster.ranks N ∧
        ∃ call, (T.cluster b.1).calls[b.2]? = some call ∧ call.sector = sec := by
  rw [Timeline.history, Finset.mem_filter, mem_callSet, Option.any_eq_true]
  constructor
  · rintro ⟨⟨hrank, -⟩, call, hcall, hsec⟩
    exact ⟨hrank, call, hcall, of_decide_eq_true hsec⟩
  · rintro ⟨hrank, call, hcall, hsec⟩
    exact ⟨⟨hrank, (List.getElem?_eq_some_iff.mp hcall).1⟩, call, hcall, decide_eq_true hsec⟩

/-- Each operation is a call. -/
theorem Matches.exists_call (hm : Matches N R c s κ) : ∃ call : ℕ → Σ _ : UInt8, Callback,
    ∀ k o, s.operations k = some o → (call k).1 = o.process ∧ κ (call k).1 (call k).2 = some k := by
  have hcall : ∀ k, ∃ b : Σ _ : UInt8, Callback, ∀ o, s.operations k = some o →
      b.1 = o.process ∧ κ b.1 b.2 = some k := by
    intro k
    cases ho : s.operations k with
    | none => exact ⟨⟨0, 0⟩, fun o ho' => by cases ho'⟩
    | some o =>
      obtain ⟨t, ht⟩ := hm.onto k o ho
      refine ⟨⟨o.process, t⟩, fun o' ho' => ?_⟩
      obtain rfl := Option.some.inj ho'
      exact ⟨rfl, ht⟩
  choose call hcall using hcall
  exact ⟨call, hcall⟩

/-- The data of a completion, above and below. -/
theorem result_of_finish {o : Protocol.Operation} {time : ℕ} {op : OperationComplete}
    (h : o.finish = some (time, op)) : o.result = dataOf op := by
  obtain ⟨status, requestIdentifier, opReturn⟩ := op
  rw [Protocol.Operation.result, h]
  cases opReturn <;> rfl

/-- The calls on a sector implement the operations on it. -/
theorem implements_history {allowed : Cluster → UInt8 × Action → Prop}
    (hc : Reachable (Cluster.step N R) allowed (.init N) T.cluster)
    (hm : Matches N R T.cluster s κ) (htimely : Timely T s κ) (hI : Protocol.Invariant N R s g)
    (sec : SectorIdx) : ∃ call, (T.history N sec).Implements (s.history sec) call := by
  obtain ⟨call, hcall⟩ := hm.exists_call
  -- the call of an operation, and the operation of a call
  have hmade : ∀ k o, s.operations k = some o → ∃ made, (T.cluster (call k).1).calls[(call k).2]? =
      some made ∧ made.cmd = o.cmd := by
    intro k o ho
    obtain ⟨made, o', hmade, ho', -, hcmd, -⟩ := (hm.noted _).known _ k (hcall k o ho).2
    rw [ho, Option.some.injEq] at ho'
    exact ⟨made, hmade, by rw [ho', hcmd]⟩
  have hunique : ∀ p t k o, κ p t = some k → s.operations k = some o → call k = ⟨p, t⟩ := by
    intro p t k o hk ho
    obtain ⟨-, o', -, ho', hprocess, -, -⟩ := (hm.noted p).known t k hk
    obtain ⟨hfst, hsnd⟩ := hcall k o ho
    rw [ho, Option.some.injEq] at ho'
    rw [ho', hprocess] at hfst
    rw [hfst] at hsnd
    exact Sigma.ext hfst (heq_of_eq ((hm.noted p).injective _ _ k hsnd hk))
  refine ⟨call, fun j hj k hk hjk => ?_, fun k hk => ?_, fun k hk => ?_, fun b hb hfinish => ?_,
    fun j hj k hk hprecedes => ?_⟩
  · obtain ⟨-, o, ho, -⟩ := Protocol.mem_history.mp hj
    obtain ⟨-, o', ho', -⟩ := Protocol.mem_history.mp hk
    have h := (hcall j o ho).2
    rw [hjk, (hcall k o' ho').2, Option.some.injEq] at h
    exact h.symm
  · obtain ⟨-, o, ho, hsec⟩ := Protocol.mem_history.mp hk
    obtain ⟨made, hmade, hcmd⟩ := hmade k o ho
    refine mem_timeline_history.mpr ⟨mem_ranks_of_call hc hmade, made, hmade, ?_⟩
    rw [Call.sector, hcmd]
    exact hsec
  · obtain ⟨-, o, ho, -⟩ := Protocol.mem_history.mp hk
    obtain ⟨made, hmade, hcmd⟩ := hmade k o ho
    show ((T.cluster (call k).1).calls[(call k).2]?).bind Call.writes =
      (s.operations k).bind Protocol.Operation.writes
    rw [hmade, ho, Option.bind_some, Option.bind_some, Call.writes, hcmd]
    rfl
  · obtain ⟨-, made, hmade'', hsec⟩ := mem_timeline_history.mp hb
    obtain ⟨y, hy, hyb⟩ := List.mem_map.mp (htimely.answered b.1 b.2 hfinish)
    obtain ⟨k, o, time, hk, ho, hdone⟩ := (hm.noted b.1).fired y hy
    rw [hyb] at hk
    have hcallk : call k = b := hunique b.1 b.2 k o hk ho
    have hanswer : (T.cluster b.1).bank.fired.lookup b.2 = some y.2 := by
      refine lookup_of_mem (hyb ▸ hy) fun op hop => ?_
      obtain ⟨k', o', time', hk', ho', hdone'⟩ := (hm.noted b.1).fired _ hop
      obtain rfl : k' = k := Option.some.inj (hk'.symm.trans hk)
      obtain rfl : o' = o := Option.some.inj (ho'.symm.trans ho)
      rw [hdone, Option.some.injEq, Prod.mk.injEq] at hdone'
      exact hdone'.2.symm
    refine ⟨k, Protocol.mem_history.mpr ⟨(hI.operations k o ho).lt_count, o, ho, ?_⟩, hcallk,
      ?_, ?_⟩
    · obtain ⟨made', hmade', hcmd⟩ := hmade k o ho
      rw [hcallk, hmade'', Option.some.injEq] at hmade'
      rw [Protocol.Operation.sector, ← hcmd, ← hmade']
      exact hsec
    · rw [ne_eq, Protocol.history_finish ho, hdone]
      exact Option.some_ne_none _
    · show ((T.cluster b.1).bank.fired.lookup b.2).bind dataOf =
        (s.operations k).bind Protocol.Operation.result
      rw [hanswer, ho, Option.bind_some, Option.bind_some, result_of_finish hdone]
  · obtain ⟨-, o, ho, -⟩ := Protocol.mem_history.mp hj
    obtain ⟨-, o', ho', -⟩ := Protocol.mem_history.mp hk
    obtain ⟨n, hn, hlt⟩ := hprecedes
    -- the later call has a time, since it is after another one
    obtain ⟨m, hm'⟩ : ∃ m, T.submitted (call k).1 (call k).2 = some m := by
      rw [← Option.ne_none_iff_exists']
      intro hnone
      simp only [Timeline.history, hnone, Option.getD_none] at hlt
      exact absurd hlt (Nat.not_lt_zero n)
    have hlt' : n < m := by simpa only [Timeline.history, hm', Option.getD_some] using hlt
    obtain ⟨time, op, hfinish, hbefore⟩ := htimely.order _ _ _ _ n m j k o o' hn hm' hlt'
      (hcall j o ho).2 (hcall k o' ho').2 ho ho'
    refine ⟨time, ?_, ?_⟩
    · simp only [Protocol.System.history, ho, Option.bind_some, hfinish, Option.map_some]
    · simpa only [Protocol.System.history, ho', Option.map_some, Option.getD_some] using hbefore

/-! ## Runs -/

theorem cluster_reachable (hT : Reachable (Timeline.step N R)
      (fun T x => T.cluster.Undisturbed N R x) (.init N) T) :
    Reachable (Cluster.step N R) (Cluster.Undisturbed N R) (.init N) T.cluster := by
  refine hT.invariant
    (fun T => Reachable (Cluster.step N R) (Cluster.Undisturbed N R) (.init N) T.cluster) .init ?_
  intro T x T' _ h hx hstep
  obtain ⟨c', hc', rfl⟩ := Option.map_eq_some_iff.mp hstep
  exact h.step hx hc'

theorem uptime_reachable (hc : Reachable (Cluster.step N R) (Cluster.Undisturbed N R) (.init N) c)
    (q : UInt8) : Uptime N q (c q) := by
  refine hc.invariant (fun c => Uptime N q (c q)) uptime_init ?_
  intro c x c' _ h hx hstep
  have hsteps := steps_of_step hstep
  by_cases hqx : q = x.1
  · subst hqx
    exact uptime_step h hx.1 hx.2.1.1 hx.2.2.1 hsteps.step
  · rw [hsteps.others q hqx]
    exact h

/-- Every run of the processes is followed by a run of the protocol. -/
theorem exists_protocol_run (hN : N < 256)
    (hT : Reachable (Timeline.step N R) (fun T x => T.cluster.Undisturbed N R x) (.init N) T)
    (hwrites : T.cluster.writesMade N < 2 ^ 64 - 1) :
    ∃ s κ, Reachable (Protocol.System.step N R) (Protocol.WithoutRestart N R) (.init N) s ∧
      Matches N R T.cluster s κ ∧ Timely T s κ := by
  have hrun : ∃ s, Reachable (Protocol.System.step N R) (Protocol.WithoutRestart N R) (.init N) s ∧
      (T.cluster.writesMade N < 2 ^ 64 - 1 → ∃ κ, Matches N R T.cluster s κ ∧ Timely T s κ) := by
    refine hT.simulation (fun T s => T.cluster.writesMade N < 2 ^ 64 - 1 →
      ∃ κ, Matches N R T.cluster s κ ∧ Timely T s κ)
      (fun _ => ⟨_, matches_init, timely_init⟩) ?_
    intro T x T' s hT hs hrel hx hstep
    have hadvances := advances_of_step hstep
    by_cases hwrites' : T'.cluster.writesMade N < 2 ^ 64 - 1
    · obtain ⟨κ, hm, htimely⟩ := hrel (hadvances.steps.writesMade.trans_lt hwrites')
      have hc := cluster_reachable hT
      have hatt := attributed_reachable (hc.mono fun _ _ h => h.2.1)
      obtain ⟨hlive, g, hI⟩ := Protocol.exists_live (hs.mono fun _ _ h => h.allowed)
        ((hm.writesIssued_le hc).trans_lt (hadvances.steps.writesMade.trans_lt hwrites'))
      obtain ⟨s', κ', hs', hm', hgrows⟩ := matches_step hN hm hatt (uptime_reachable hc) hlive hI
        hx.1 hx.2.2.2 hadvances.steps
      exact ⟨s', hs', fun _ => ⟨κ', hm', timely_step htimely hm hatt hI hgrows hadvances⟩⟩
    · exact ⟨s, .init, fun h => absurd h hwrites'⟩
  obtain ⟨s, hs, h⟩ := hrun
  obtain ⟨κ, hm, htimely⟩ := h hwrites
  exact ⟨s, κ, hs, hm, htimely⟩

/-- **Atomicity of the processes.** As long as no process is restarted, no request is rejected
under the identifier of a command, replies reach only their addressees and colliding requests
are kept apart, the history of the calls on every sector is linearizable. -/
theorem executor_linearizable (hN : N < 256)
    (hT : Reachable (Timeline.step N R) (fun T x => T.cluster.Undisturbed N R x) (.init N) T)
    (hwrites : T.cluster.writesMade N < 2 ^ 64 - 1) (sec : SectorIdx) :
    (T.history N sec).Linearizable .new := by
  obtain ⟨s, κ, hs, hm, htimely⟩ := exists_protocol_run hN hT hwrites
  have hc := cluster_reachable hT
  obtain ⟨-, g, hI⟩ := Protocol.exists_live (hs.mono fun _ _ h => h.allowed)
    ((hm.writesIssued_le hc).trans_lt hwrites)
  obtain ⟨call, himplements⟩ := implements_history hc hm htimely hI sec
  exact himplements.linearizable (History.linearizable_of_tags (hI.tagging sec))

/-- Process 1 of three rejects a request and writes sector 0, with the help of process 2. Then
process 2 reads it. -/
def writeReadRun : List (UInt8 × Action) :=
  let on (p : UInt8) (as : List Action) : List (UInt8 × Action) := as.map fun a => (p, a)
  let header (p : UInt8) (request readIdent : UInt64) : SystemCommandHeader :=
    ⟨p, .fromRequest request, readIdent, 0⟩
  on 1 ([.announce 0, .reject 9, .submit ⟨⟨7, 0⟩, .write (.fill 1)⟩] ++ handOver 0 ++
    [.finish 0 true, .finish 0 true] ++ handleNext 0 2 ++
    hear 0 ⟨header 1 7 1, .readProc⟩ ⟨1, 0⟩ ++ handleNext 0 3) ++
  on 2 (.announce 0 :: hear 0 ⟨header 1 7 1, .readProc⟩ ⟨1, 0⟩ ++ handleNext 0 3) ++
  on 1 (hear 1 ⟨header 1 7 1, .value 0 0 .new⟩ ⟨1, 0⟩ ++ handleNext 0 0 ++
    hear 2 ⟨header 2 7 1, .value 0 0 .new⟩ ⟨1, 0⟩ ++ handleNext 0 2 ++
    hear 3 ⟨header 1 7 2, .writeProc 1 1 (.fill 1)⟩ ⟨1, 2⟩ ++ handleNext 0 4) ++
  on 2 (hear 1 ⟨header 1 7 2, .writeProc 1 1 (.fill 1)⟩ ⟨1, 2⟩ ++ handleNext 0 4) ++
  on 1 (hear 4 ⟨header 1 7 2, .ack⟩ ⟨1, 2⟩ ++ handleNext 0 0 ++
    hear 5 ⟨header 2 7 2, .ack⟩ ⟨1, 2⟩ ++ handleNext 0 2) ++
  on 2 ([.submit ⟨⟨7, 0⟩, .read⟩] ++ handOver 0 ++ handleNext 0 2 ++
    hear 2 ⟨header 2 7 1, .readProc⟩ ⟨2, 2⟩ ++ handleNext 0 3) ++
  on 1 (hear 6 ⟨header 2 7 1, .readProc⟩ ⟨2, 2⟩ ++ handleNext 0 3) ++
  on 2 (hear 3 ⟨header 2 7 1, .value 1 1 (.fill 1)⟩ ⟨2, 2⟩ ++ handleNext 0 0 ++
    hear 4 ⟨header 1 7 1, .value 1 1 (.fill 1)⟩ ⟨2, 2⟩ ++ handleNext 0 2 ++
    hear 5 ⟨header 2 7 2, .writeProc 1 1 (.fill 1)⟩ ⟨2, 4⟩ ++ handleNext 0 2) ++
  on 1 (hear 7 ⟨header 2 7 2, .writeProc 1 1 (.fill 1)⟩ ⟨2, 4⟩ ++ handleNext 0 2) ++
  on 2 (hear 6 ⟨header 2 7 2, .ack⟩ ⟨2, 4⟩ ++ handleNext 0 0 ++
    hear 7 ⟨header 1 7 2, .ack⟩ ⟨2, 4⟩ ++ handleNext 0 1)

set_option maxRecDepth 100000 in
theorem executor_linearizable_write_read : ∃ T,
    Reachable (Timeline.step 3 1) (fun T x => T.cluster.Undisturbed 3 1 x) (.init 3) T ∧
      (T.history 3 0).Precedes ⟨1, 0⟩ ⟨2, 0⟩ ∧ (T.history 3 0).result ⟨2, 0⟩ = some (.fill 1) ∧
      (T.history 3 0).Linearizable .new := by
  obtain ⟨T, hT, hwrites, hprecedes, hresult⟩ : ∃ T,
      Reachable (Timeline.step 3 1) (fun T x => T.cluster.Undisturbed 3 1 x) (.init 3) T ∧
        T.cluster.writesMade 3 < 2 ^ 64 - 1 ∧ (T.history 3 0).Precedes ⟨1, 0⟩ ⟨2, 0⟩ ∧
        (T.history 3 0).result ⟨2, 0⟩ = some (.fill 1) :=
    exists_of_exec writeReadRun (by decide +kernel)
  exact ⟨T, hT, hprecedes, hresult, executor_linearizable (by decide) hT hwrites 0⟩

end Executor
end AtomicDiscDrive
