import AtomicDiscDrive.Driver.Relay

/-!
# The ring of requests

The slots of `requests_buf` from `buf_completed_pos` up to `buf_accepted_pos` hold the
requests that are accepted and not ended, in the order of their submission (`Holds`), as
long as there are at most 255 of them: with 256 the two positions are equal, and the ring
looks empty.

`submit_atdd_request` is there to refuse the 256th request. It compares the difference of
the positions, an `int`, with 255, and that is the number of outstanding requests only while
`buf_accepted_pos` has not wrapped past `buf_completed_pos`. So the result about runs is
about those in which a request that finds 255 others outstanding finds `buf_completed_pos`
at zero (`Within`).
-/

namespace AtomicDiscDrive
namespace Driver

open Utils

namespace Relay

/-! ## What the ring holds -/

/-- The ring holds the outstanding requests, of which at most the first is forwarded. -/
structure Holds (relay : Relay) (outstanding : List Request) : Prop where
  slots : window relay.requestsBuf relay.bufCompletedPos outstanding.length =
    outstanding.map some
  accepted : relay.bufAcceptedPos = relay.bufCompletedPos + UInt8.ofNat outstanding.length
  room : outstanding.length ≤ 255
  forwarded : relay.bufTcpForwardedPos = relay.bufCompletedPos ∨
    relay.bufTcpForwardedPos = relay.bufCompletedPos + 1 ∧ outstanding ≠ []

theorem holds_create (id : UInt64) : (create id).Holds [] where
  slots := rfl
  accepted := rfl
  room := Nat.zero_le _
  forwarded := Or.inl rfl

section

variable {relay : Relay} {outstanding : List Request}

/-- The number of outstanding requests, as a difference of eight bits. -/
theorem Holds.toNat_sub (h : relay.Holds outstanding) :
    (relay.bufAcceptedPos - relay.bufCompletedPos).toNat = outstanding.length := by
  rw [h.accepted]
  exact toNat_add_sub_self (Nat.lt_succ_of_le h.room)

/-- The `int` is 255 in one case only. -/
theorem sub_eq_255_iff (a b : UInt8) :
    (a.toNat : ℤ) - b.toNat = 255 ↔ b = 0 ∧ (a - b).toNat = 255 := by
  have ha := a.toNat_lt
  have hb := b.toNat_lt
  constructor
  · intro h
    have hb0 : b.toNat = 0 := by omega
    have hb : b = 0 := UInt8.toNat_inj.mp hb0
    subst hb
    rw [UInt8.sub_zero]
    exact ⟨rfl, by omega⟩
  · rintro ⟨rfl, h⟩
    rw [UInt8.sub_zero] at h
    rw [h]
    rfl

/-- The slot of the request that is outstanding longest. -/
theorem Holds.first {rq : Request} {rest : List Request} (h : relay.Holds (rq :: rest)) :
    relay.requestsBuf relay.bufCompletedPos = some rq ∧
    window relay.requestsBuf (relay.bufCompletedPos + 1) rest.length = rest.map some := by
  have hslots := h.slots
  rw [List.length_cons, window_succ, List.map_cons, List.cons.injEq] at hslots
  exact hslots

/-- **`submit_atdd_request`**: refused at 255 outstanding requests, if `buf_completed_pos` is
zero there, and else appended. -/
theorem Holds.submit (h : relay.Holds outstanding)
    (hzero : outstanding.length = 255 → relay.bufCompletedPos = 0) (rq : Request) :
    (outstanding.length = 255 ∧ relay.submitAtddRequest rq = (some .enospc, relay)) ∨
    (outstanding.length < 255 ∧ ∃ relay', relay.submitAtddRequest rq = (none, relay') ∧
      relay'.Holds (outstanding ++ [rq]) ∧
      relay'.bufTcpForwardedPos = relay.bufTcpForwardedPos ∧
      relay'.bufCompletedPos = relay.bufCompletedPos ∧
      relay'.requestIdentCounter = relay.requestIdentCounter) := by
  unfold submitAtddRequest
  by_cases hfull : outstanding.length = 255
  · left
    refine ⟨hfull, ?_⟩
    -- the positions are compared as integers, so a full ring is noticed only from position 0
    rw [if_pos ((sub_eq_255_iff _ _).mpr ⟨hzero hfull, h.toNat_sub.trans hfull⟩)]
  · right
    have hroom := h.room
    have hlt : outstanding.length < 255 := by omega
    have hnot : ¬ (relay.bufAcceptedPos.toNat : ℤ) - relay.bufCompletedPos.toNat = 255 := by
      intro heq
      have hlen := ((sub_eq_255_iff _ _).mp heq).2
      rw [h.toNat_sub] at hlen
      exact hfull hlen
    rw [if_neg hnot]
    refine ⟨hlt, _, rfl, ?_, rfl, rfl, rfl⟩
    constructor
    · show window (Function.update relay.requestsBuf relay.bufAcceptedPos (some rq))
        relay.bufCompletedPos (outstanding ++ [rq]).length = _
      rw [h.accepted, List.length_append, List.length_singleton,
        window_update _ _ (by omega), h.slots, List.map_append, List.map_singleton]
    · show relay.bufAcceptedPos + 1 = relay.bufCompletedPos + _
      rw [h.accepted, List.length_append, List.length_singleton, add_ofNat_succ]
    · rw [List.length_append, List.length_singleton]
      omega
    · rcases h.forwarded with heq | ⟨heq, -⟩
      · exact Or.inl heq
      · exact Or.inr ⟨heq, by simp⟩

/-- The end of a request leaves all fields but the completed position and the counter. -/
theorem finishRequest_frame (cmdR : CmdReturn) (relay : Relay) :
    (relay.finishRequest cmdR).1.rq = relay.requestsBuf relay.bufCompletedPos ∧
    (relay.finishRequest cmdR).2.bufCompletedPos = relay.bufCompletedPos + 1 ∧
    (relay.finishRequest cmdR).2.bufTcpForwardedPos = relay.bufTcpForwardedPos ∧
    (relay.finishRequest cmdR).2.bufAcceptedPos = relay.bufAcceptedPos ∧
    (relay.finishRequest cmdR).2.requestsBuf = relay.requestsBuf := by
  unfold finishRequest
  cases convertAtddToBlkStatus cmdR.rcode with
  | some err => exact ⟨rfl, rfl, rfl, rfl, rfl⟩
  | none => exact ⟨rfl, rfl, rfl, rfl, rfl⟩

/-- **The end of a forwarded request**: it is the one that was outstanding longest. -/
theorem Holds.finish {rq : Request} {rest : List Request} (h : relay.Holds (rq :: rest))
    (hforwarded : relay.bufTcpForwardedPos = relay.bufCompletedPos + 1) (cmdR : CmdReturn) :
    (relay.finishRequest cmdR).1.rq = some rq ∧ (relay.finishRequest cmdR).2.Holds rest ∧
    (relay.finishRequest cmdR).2.bufTcpForwardedPos =
      (relay.finishRequest cmdR).2.bufCompletedPos := by
  obtain ⟨hrq, hcompleted, hforward, haccepted, hbuf⟩ := relay.finishRequest_frame cmdR
  obtain ⟨hfirst, hrest⟩ := h.first
  have heq : (relay.finishRequest cmdR).2.bufTcpForwardedPos =
      (relay.finishRequest cmdR).2.bufCompletedPos := by
    rw [hforward, hcompleted, hforwarded]
  refine ⟨hrq.trans hfirst, ?_, heq⟩
  constructor
  · rw [hbuf, hcompleted]
    exact hrest
  · rw [haccepted, hcompleted, h.accepted, List.length_cons, ← add_ofNat_succ, UInt8.add_assoc,
      UInt8.add_comm (UInt8.ofNat _), ← UInt8.add_assoc]
  · have hroom := h.room
    rw [List.length_cons] at hroom
    omega
  · exact Or.inl heq

/-! ## Sending -/

/-- While a request is forwarded nothing else is sent. -/
theorem Holds.cmdsToSend_of_forwarded
    (hforwarded : relay.bufTcpForwardedPos = relay.bufCompletedPos + 1) :
    relay.atddCmdsToSend = 0 := by
  have hone : relay.bufTcpForwardedPos - relay.bufCompletedPos = 1 := by
    rw [hforwarded, UInt8.add_comm, UInt8.add_sub_cancel]
  unfold atddCmdsToSend
  rw [hone]
  exact if_neg (fun hlt => Nat.not_lt_zero _ (UInt8.lt_iff_toNat_lt.mp hlt))

/-- Else one request is, if there is one. -/
theorem Holds.cmdsToSend_of_idle (h : relay.Holds outstanding)
    (hidle : relay.bufTcpForwardedPos = relay.bufCompletedPos) :
    relay.atddCmdsToSend = if outstanding = [] then 0 else 1 := by
  have hzero : relay.bufTcpForwardedPos - relay.bufCompletedPos = 0 := by
    rw [hidle, UInt8.sub_self]
  have hdiff := h.toNat_sub
  unfold atddCmdsToSend
  rw [hzero, hidle]
  by_cases hempty : outstanding = []
  · rw [if_pos hempty]
    rw [hempty, List.length_nil] at hdiff
    have hdiff0 : relay.bufAcceptedPos - relay.bufCompletedPos = 0 := UInt8.toNat_inj.mp hdiff
    rw [hdiff0]
    decide
  · have hpos : 0 < outstanding.length := List.length_pos_iff.mpr hempty
    rw [if_neg hempty]
    apply if_neg
    intro hlt
    have hlt' := UInt8.lt_iff_toNat_lt.mp hlt
    rw [hdiff] at hlt'
    change outstanding.length < 1 at hlt'
    omega

/-- `BUG_ON(cmds_to_send > 1)` does not fire. -/
theorem Holds.cmdsToSend_le (h : relay.Holds outstanding) : ¬ relay.atddCmdsToSend > 1 := by
  rcases h.forwarded with hidle | ⟨hforwarded, -⟩
  · rw [h.cmdsToSend_of_idle hidle]
    split
    · decide
    · decide
  · rw [cmdsToSend_of_forwarded hforwarded]
    decide

/-- Something is sent if nothing is forwarded and a request is outstanding. -/
theorem Holds.cmdsToSend_ne_zero (h : relay.Holds outstanding) (hne : relay.atddCmdsToSend ≠ 0) :
    relay.bufTcpForwardedPos = relay.bufCompletedPos ∧ outstanding ≠ [] := by
  rcases h.forwarded with hidle | ⟨hforwarded, -⟩
  · refine ⟨hidle, ?_⟩
    rintro rfl
    rw [h.cmdsToSend_of_idle hidle] at hne
    exact hne rfl
  · exact absurd (cmdsToSend_of_forwarded hforwarded) hne

theorem Holds.forward (h : relay.Holds outstanding)
    (hidle : relay.bufTcpForwardedPos = relay.bufCompletedPos) (hne : outstanding ≠ []) :
    relay.forward.Holds outstanding where
  slots := h.slots
  accepted := h.accepted
  room := h.room
  forwarded := by
    right
    refine ⟨?_, hne⟩
    show relay.bufTcpForwardedPos + 1 = relay.bufCompletedPos + 1
    rw [hidle]

theorem Holds.reset (h : relay.Holds outstanding) : relay.reset.Holds outstanding where
  slots := h.slots
  accepted := h.accepted
  room := h.room
  forwarded := Or.inl rfl

end

/-! ## Runs -/

/-- A request that finds 255 others outstanding finds `buf_completed_pos` at zero. -/
def Within (s : State) : Action → Prop
  | .submit _ => s.outstanding.length = 255 → s.relay.bufCompletedPos = 0
  | .send _ => True
  | .finish _ => True
  | .reset => True

instance (s : State) (a : Action) : Decidable (Within s a) :=
  Action.casesOn (motive := fun a => Decidable (Within s a)) a
    (fun _ => inferInstanceAs (Decidable (_ → _))) (fun _ => inferInstanceAs (Decidable True))
    (fun _ => inferInstanceAs (Decidable True)) (inferInstanceAs (Decidable True))

/-- The requests that are ended are those accepted first, the ring holds the others, and
whoever found 255 outstanding was refused. -/
structure Inv (s : State) : Prop where
  ended_le : s.ended.length ≤ s.accepted.length
  ended_eq : s.ended.map Ended.rq = (s.accepted.take s.ended.length).map some
  holds : s.relay.Holds s.outstanding
  refused : ∀ e ∈ s.submissions, e.1 = 255 → e.2 = true

theorem inv_init (id : UInt64) : Inv (State.init id) where
  ended_le := le_refl _
  ended_eq := rfl
  holds := holds_create id
  refused := fun _ he => absurd he List.not_mem_nil

/-- A step that ends the first outstanding request. -/
theorem take_ended {s : State} {rq : Request} {rest : List Request}
    (h : s.outstanding = rq :: rest) :
    s.accepted.take (s.ended.length + 1) = s.accepted.take s.ended.length ++ [rq] ∧
    s.accepted.drop (s.ended.length + 1) = rest ∧ s.ended.length + 1 ≤ s.accepted.length := by
  obtain ⟨hget, hdrop, hle⟩ := drop_eq_cons h
  refine ⟨?_, hdrop, hle⟩
  rw [List.take_add_one, hget]
  rfl

theorem inv_submit {s : State} (h : Inv s) {rq : Request} (hwithin : Within s (.submit rq)) :
    Inv (s.submit rq) := by
  unfold State.submit
  rcases h.holds.submit hwithin rq with ⟨hfull, hsubmit⟩ | ⟨hlt, relay', hsubmit, hholds, -⟩
  · rw [hsubmit]
    refine ⟨h.ended_le, h.ended_eq, h.holds, ?_⟩
    intro e he
    rcases List.mem_append.mp he with he | he
    · exact h.refused e he
    · rw [List.mem_singleton.mp he]
      exact fun _ => rfl
  · rw [hsubmit]
    constructor
    · show s.ended.length ≤ (s.accepted ++ [rq]).length
      rw [List.length_append]
      exact le_trans h.ended_le (Nat.le_add_right _ _)
    · show _ = ((s.accepted ++ [rq]).take s.ended.length).map some
      rw [List.take_append_of_le_length h.ended_le]
      exact h.ended_eq
    · show relay'.Holds ((s.accepted ++ [rq]).drop s.ended.length)
      rw [List.drop_append_of_le_length h.ended_le]
      exact hholds
    · intro e he
      rcases List.mem_append.mp he with he | he
      · exact h.refused e he
      · rw [List.mem_singleton.mp he]
        intro hfull
        change s.outstanding.length = 255 at hfull
        omega

/-- At most one command is forwarded, so at most one is fetched. -/
theorem inv_finish {s : State} (h : Inv s) {fetched : List CmdReturn}
    (hfetched : fetched.length ≤
      (s.relay.bufTcpForwardedPos - s.relay.bufCompletedPos).toNat) :
    Inv { s with
      relay := (finishRequests fetched s.relay).2
      ended := s.ended ++ (finishRequests fetched s.relay).1 } := by
  cases fetched with
  | nil =>
    show Inv { s with ended := s.ended ++ [] }
    rw [List.append_nil]
    exact h
  | cons cmdR fetched =>
    rcases h.holds.forwarded with hidle | ⟨hforwarded, hne⟩
    · rw [hidle, UInt8.sub_self, List.length_cons] at hfetched
      exact absurd hfetched (Nat.not_succ_le_zero _)
    · rw [hforwarded, UInt8.add_comm, UInt8.add_sub_cancel, List.length_cons] at hfetched
      -- at most one request is forwarded at a time, so at most one can end
      change fetched.length + 1 ≤ 1 at hfetched
      obtain rfl : fetched = [] := List.eq_nil_of_length_eq_zero (by omega)
      obtain ⟨rq, rest, hout⟩ := List.exists_cons_of_ne_nil hne
      have hholds := h.holds
      rw [hout] at hholds
      obtain ⟨hrq, hrest, -⟩ := hholds.finish hforwarded cmdR
      obtain ⟨htake, hdrop, hle⟩ := take_ended hout
      show Inv { s with
        relay := (s.relay.finishRequest cmdR).2
        ended := s.ended ++ [(s.relay.finishRequest cmdR).1] }
      constructor
      · show (s.ended ++ [_]).length ≤ _
        rw [List.length_append]
        exact hle
      · show (s.ended ++ [_]).map Ended.rq = (s.accepted.take (s.ended ++ [_]).length).map some
        rw [List.map_append, h.ended_eq, List.length_append, List.length_singleton, htake,
          List.map_append, List.map_singleton, List.map_singleton, hrq]
      · show (s.relay.finishRequest cmdR).2.Holds (s.accepted.drop (s.ended ++ [_]).length)
        rw [List.length_append, List.length_singleton, hdrop]
        exact hrest
      · exact h.refused

theorem inv_step {s s' : State} {a : Action} (h : Inv s) (hwithin : Within s a)
    (hstep : step s a = some s') : Inv s' := by
  cases a with
  | submit rq =>
    cases hstep
    exact inv_submit h hwithin
  | send result =>
    dsimp only [step] at hstep
    rw [if_neg h.holds.cmdsToSend_le] at hstep
    split_ifs at hstep with hzero
    · cases hstep
      exact h
    · obtain ⟨hidle, hne⟩ := h.holds.cmdsToSend_ne_zero hzero
      cases result with
      | some err =>
        cases hstep
        exact h
      | none =>
        cases hstep
        exact ⟨h.ended_le, h.ended_eq, h.holds.forward hidle hne, h.refused⟩
  | finish fetched =>
    dsimp only [step] at hstep
    split_ifs at hstep with hfetched
    cases hstep
    exact inv_finish h hfetched
  | reset =>
    cases hstep
    exact ⟨h.ended_le, h.ended_eq, h.holds.reset, h.refused⟩

/-- **Nothing is lost and nothing is duplicated.** In every run in which `buf_completed_pos` is
zero whenever a request finds 255 others outstanding: the slots between the two positions hold
the accepted requests that are not ended, in order; the requests that are ended are those that
were accepted first, each once; and a request that found 255 others was refused. -/
theorem ring_keeps_requests (id : UInt64) {s : State}
    (hs : Reachable step Within (State.init id) s) :
    window s.relay.requestsBuf s.relay.bufCompletedPos
        (s.relay.bufAcceptedPos - s.relay.bufCompletedPos).toNat = s.outstanding.map some ∧
    s.ended.length ≤ s.accepted.length ∧
    s.ended.map Ended.rq = (s.accepted.take s.ended.length).map some ∧
    ∀ e ∈ s.submissions, e.1 = 255 → e.2 = true := by
  have hinv : Inv s := hs.invariant Inv (inv_init id)
    (fun s a s' _ hinv hwithin hstep => inv_step hinv hwithin hstep)
  refine ⟨?_, hinv.ended_le, hinv.ended_eq, hinv.refused⟩
  rw [hinv.holds.toNat_sub]
  exact hinv.holds.slots

/-- The `n`-th WRITE. -/
def sampleWrite (n : ℕ) : Request := ⟨n, .write, 0, []⟩

/-- Three requests, of which the first is sent twice and ended. -/
def serveRun : List Action :=
  [.submit (sampleWrite 0), .submit (sampleWrite 1), .send none, .reset, .send none,
    .submit (sampleWrite 2), .finish [⟨0, [], .ok⟩]]

theorem ring_keeps_requests_served : ∃ s, Reachable step Within (State.init 0) s ∧
    s.outstanding = [sampleWrite 1, sampleWrite 2] ∧
    window s.relay.requestsBuf s.relay.bufCompletedPos
      (s.relay.bufAcceptedPos - s.relay.bufCompletedPos).toNat =
        [some (sampleWrite 1), some (sampleWrite 2)] := by
  obtain ⟨s, hs, hout⟩ : ∃ s, Reachable step Within (State.init 0) s ∧
      s.outstanding = [sampleWrite 1, sampleWrite 2] :=
    exists_of_exec serveRun (by decide +kernel)
  refine ⟨s, hs, hout, ?_⟩
  rw [(ring_keeps_requests 0 hs).1, hout]
  rfl

/-- One request is served. Then 255 are outstanding, at `buf_completed_pos` 1, and another one
is submitted. -/
def overflowRun : List Action :=
  [.submit (sampleWrite 0), .send none, .finish [⟨0, [], .ok⟩]] ++
    (List.range 256).map fun n => .submit (sampleWrite (n + 1))

/-- It is not refused, and the ring looks empty. -/
theorem ring_overflow : ∃ s, Reachable step (fun _ _ => True) (State.init 0) s ∧
    (255, false) ∈ s.submissions ∧ s.outstanding.length = 256 ∧
    window s.relay.requestsBuf s.relay.bufCompletedPos
      (s.relay.bufAcceptedPos - s.relay.bufCompletedPos).toNat = [] :=
  exists_of_exec overflowRun (by decide +kernel)

end Relay

end Driver
end AtomicDiscDrive
