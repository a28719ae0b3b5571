import AtomicDiscDrive.Driver.Steps

/-!
# Request identifiers

A request is sent with the number of its thread plus the requests ended before it, as far as
`request_ident_counter` has counted them. The counter does not count a request that ends with
an error: the next request is sent with the identifier of the one that failed. So the result
about runs is about those in which every response has the status `Ok` (`Counted`), besides
what keeps the thread and its client in step.
-/

namespace AtomicDiscDrive
namespace Driver

open Utils

namespace Thread

/-- A response that is fetched has the status `Ok`. -/
def AnswersOk (hmac : List UInt8 → List UInt8) (t : Thread) : Action → Prop
  | .submit _ => True
  | .receive socket => ∀ bytes ∈ socket,
      t.client.pending.acceptedPos ≠ t.client.pending.completedPos →
      Legible hmac (delivered bytes) → (delivered bytes).getD 6 0 = 0
  | .send _ _ => True

instance (hmac : List UInt8 → List UInt8) (t : Thread) (a : Action) :
    Decidable (AnswersOk hmac t a) :=
  Action.casesOn (motive := fun a => Decidable (AnswersOk hmac t a)) a
    (fun _ => inferInstanceAs (Decidable True))
    (fun socket => @Option.decidableForallMem _
      (fun bytes => t.client.pending.acceptedPos ≠ t.client.pending.completedPos →
        Legible hmac (delivered bytes) → (delivered bytes).getD 6 0 = 0) _ socket)
    (fun _ _ => inferInstanceAs (Decidable True))

/-- The thread and its client are kept in step, and every request ends with `Ok`. -/
def Counted (hmac : List UInt8 → List UInt8) (t : Thread) (a : Action) : Prop :=
  Keeps t a ∧ AnswersOk hmac t a

instance (hmac : List UInt8 → List UInt8) (t : Thread) (a : Action) :
    Decidable (Counted hmac t a) :=
  inferInstanceAs (Decidable (_ ∧ _))

/-- The counter has counted the requests that are ended, and a request is sent with its place
in the order of submission. -/
structure Numbered (id : UInt64) (t : Thread) : Prop where
  counter : t.relay.requestIdentCounter = id + UInt64.ofNat t.ended.length
  sent : ∀ p ∈ t.sent, ∃ k : ℕ, k < t.accepted.length ∧ p.1 = t.accepted[k]? ∧
    p.2 = id + UInt64.ofNat k

theorem numbered_init (id : UInt64) (sendBuf : List UInt8) (parseBuf : ℕ → UInt8) :
    Numbered id (init id sendBuf parseBuf) where
  counter := (UInt64.add_zero id).symm
  sent := fun _ hp => absurd hp List.not_mem_nil

/-- With nothing forwarded, the identifier is the counter. -/
theorem identToSend_of_idle {relay : Relay}
    (h : relay.bufTcpForwardedPos = relay.bufCompletedPos) :
    relay.identToSend = relay.requestIdentCounter := by
  unfold Relay.identToSend
  rw [h, sub_self, mul_zero]
  exact UInt64.add_zero _

/-- An `Ok` is counted. -/
theorem finishRequest_counter {relay : Relay} {cmdR : CmdReturn} (h : cmdR.rcode = .ok) :
    (relay.finishRequest cmdR).2.requestIdentCounter =
      relay.requestIdentCounter + UInt64.ofNat atddThreadsCount := by
  unfold Relay.finishRequest
  rw [h]
  rfl

theorem numbered_submit {hmac : List UInt8 → List UInt8} {id : UInt64} {t t' : Thread}
    {rq : Request} (h : InStep t) (hnum : Numbered id t) (hkeeps : Keeps t (.submit rq))
    (hstep : step hmac t (.submit rq) = some t') : Numbered id t' := by
  rcases h.holds.submit hkeeps rq with ⟨-, hsubmit⟩ |
    ⟨-, relay', hsubmit, -, -, -, hcounter⟩
  · dsimp only [step] at hstep
    rw [hsubmit] at hstep
    cases hstep
    exact hnum
  · dsimp only [step] at hstep
    rw [hsubmit] at hstep
    cases hstep
    refine ⟨hcounter.trans hnum.counter, ?_⟩
    intro p hp
    obtain ⟨k, hk, hrq, hident⟩ := hnum.sent p hp
    refine ⟨k, ?_, ?_, hident⟩
    · show k < (t.accepted ++ [rq]).length
      rw [List.length_append]
      omega
    · show p.1 = (t.accepted ++ [rq])[k]?
      rw [List.getElem?_append_left hk]
      exact hrq

theorem numbered_receive {hmac : List UInt8 → List UInt8} {id : UInt64} {t t' : Thread}
    {socket : Option (List Recv)} (h : InStep t) (hnum : Numbered id t)
    (hcounted : Counted hmac t (.receive socket))
    (hstep : step hmac t (.receive socket) = some t') : Numbered id t' := by
  obtain ⟨-, -, rfl | ⟨bytes, err, ended, relay, client, rfl, hfetched, rfl⟩⟩ :=
    receive_cases h hstep
  · exact ⟨hnum.counter, hnum.sent⟩
  · cases hfetched with
    | nothing hpending =>
      rw [List.append_nil]
      exact ⟨hnum.counter, hnum.sent⟩
    | command hpending hlegible cmdR hrcode c' hempty hpending' =>
      have hne : t.client.pending.acceptedPos ≠ t.client.pending.completedPos := by
        rw [hpending]
        exact add_one_ne_self _
      have hok : cmdR.rcode = .ok := by
        rw [hcounted.2 bytes rfl hne hlegible] at hrcode
        exact (Option.some.inj hrcode).symm
      refine ⟨?_, hnum.sent⟩
      show (t.relay.finishRequest cmdR).2.requestIdentCounter =
        id + UInt64.ofNat (t.ended ++ [_]).length
      rw [finishRequest_counter hok, hnum.counter, List.length_append, List.length_singleton,
        UInt64.ofNat_add, UInt64.add_assoc]
      rfl
    | error hpending hnot err c' hpending' hconnected =>
      rw [List.append_nil]
      exact ⟨hnum.counter, hnum.sent⟩

theorem numbered_sendRequest {id : UInt64} {t : Thread} (h : InStep t) (hnum : Numbered id t)
    (hsend : t.relay.atddCmdsToSend ≠ 0) (connects : Bool) (result : Option Errno) :
    Numbered id (t.sendRequest connects result) := by
  obtain ⟨hidle, hne⟩ := h.holds.cmdsToSend_ne_zero hsend
  obtain ⟨rq, rest, hout⟩ := List.exists_cons_of_ne_nil hne
  have hholds := h.holds
  rw [hout] at hholds
  obtain ⟨hget, -, hlt⟩ := drop_eq_cons hout
  -- the request at the forwarded position is the first that is not ended
  have hslot : t.relay.requestsBuf t.relay.bufTcpForwardedPos = t.accepted[t.ended.length]? := by
    rw [hidle, hget]
    exact hholds.first.1
  have hsent : ∀ p ∈ t.sent ++
      [(t.relay.requestsBuf t.relay.bufTcpForwardedPos, t.relay.identToSend)],
      ∃ k : ℕ, k < t.accepted.length ∧ p.1 = t.accepted[k]? ∧ p.2 = id + UInt64.ofNat k := by
    intro p hp
    rcases List.mem_append.mp hp with hp | hp
    · exact hnum.sent p hp
    · rw [List.mem_singleton.mp hp]
      exact ⟨t.ended.length, hlt, hslot, (identToSend_of_idle hidle).trans hnum.counter⟩
  rcases t.sendRequest_cases connects result with ⟨-, hcase⟩ | ⟨-, hcase⟩ | ⟨-, hcase⟩
  · rw [hcase]
    exact ⟨hnum.counter, hnum.sent⟩
  · rw [hcase]
    exact ⟨hnum.counter, hsent⟩
  · rw [hcase]
    exact ⟨hnum.counter, hsent⟩

theorem numbered_step {hmac : List UInt8 → List UInt8} {id : UInt64} {t t' : Thread} {a : Action}
    (h : InStep t) (hnum : Numbered id t) (hcounted : Counted hmac t a)
    (hstep : step hmac t a = some t') : Numbered id t' := by
  cases a with
  | submit rq => exact numbered_submit h hnum hcounted.1 hstep
  | receive socket => exact numbered_receive h hnum hcounted hstep
  | send connects result =>
    dsimp only [step] at hstep
    split_ifs at hstep with hphase hbug hzero
    · cases hstep
      exact ⟨hnum.counter, hnum.sent⟩
    · cases hstep
      exact numbered_sendRequest h hnum hzero connects result

/-- **Identifiers are unique.** In every run that meets the condition, with fewer than 2⁶⁴
requests, requests that are sent with the same identifier are the same. -/
theorem idents_unique (hmac : List UInt8 → List UInt8) (id : UInt64) (sendBuf : List UInt8)
    (parseBuf : ℕ → UInt8) {t : Thread}
    (ht : Reachable (step hmac) (Counted hmac) (init id sendBuf parseBuf) t)
    (hfew : t.accepted.length < 2 ^ 64) {rq rq' : Option Request} {ident : UInt64}
    (hsent : (rq, ident) ∈ t.sent) (hsent' : (rq', ident) ∈ t.sent) : rq = rq' := by
  have hnum : Numbered id t := ht.invariant (Numbered id) (numbered_init id sendBuf parseBuf)
    (fun t a _ ht hnum ha hstep =>
      numbered_step (inStep_reachable (fun _ _ hc => hc.1) ht) hnum ha hstep)
  obtain ⟨k, hk, hrq, hident⟩ := hnum.sent _ hsent
  obtain ⟨k', hk', hrq', hident'⟩ := hnum.sent _ hsent'
  have hsame : UInt64.ofNat k = UInt64.ofNat k' :=
    (UInt64.add_right_inj id).mp (hident.symm.trans hident')
  have heq : k = k' := by
    have htoNat := congrArg UInt64.toNat hsame
    rwa [UInt64.toNat_ofNat_of_lt' (lt_trans hk hfew),
      UInt64.toNat_ofNat_of_lt' (lt_trans hk' hfew)] at htoNat
  subst heq
  exact hrq.trans hrq'.symm

/-- Two requests, both answered with `Ok`. -/
def okRun : List Action :=
  [.submit (Relay.sampleWrite 0), .submit (Relay.sampleWrite 1), .receive none, .send true none,
    .receive (some (unread (sampleResponse 0 0) [])), .send true none]

theorem idents_unique_ok : ∃ t,
    Reachable (step sampleHmac) (Counted sampleHmac) sampleInit t ∧
    t.sent = [(some (Relay.sampleWrite 0), 0), (some (Relay.sampleWrite 1), 1)] ∧
    ∀ rq ∈ t.sent.map Prod.fst, (rq, 0) ∈ t.sent → rq = some (Relay.sampleWrite 0) := by
  obtain ⟨t, ht, hsent, hlength⟩ : ∃ t,
      Reachable (step sampleHmac) (Counted sampleHmac) sampleInit t ∧
      t.sent = [(some (Relay.sampleWrite 0), 0), (some (Relay.sampleWrite 1), 1)] ∧
      t.accepted.length < 2 ^ 64 :=
    exists_of_exec okRun (by decide +kernel)
  refine ⟨t, ht, hsent, ?_⟩
  intro rq _ hrq
  exact idents_unique sampleHmac 0 [] (fun _ => 0) ht hlength hrq
    (by rw [hsent]; exact List.mem_cons_self)

/-- The first request is answered with `InvalidSectorIndex`. -/
def errorRun : List Action :=
  [.submit (Relay.sampleWrite 0), .submit (Relay.sampleWrite 1), .receive none, .send true none,
    .receive (some (unread (sampleResponse 2 0) [])), .send true none]

/-- The second one is sent with the identifier of the first. -/
theorem idents_not_unique : ∃ t, Reachable (step sampleHmac) (fun _ _ => True) sampleInit t ∧
    (some (Relay.sampleWrite 0), 0) ∈ t.sent ∧ (some (Relay.sampleWrite 1), 0) ∈ t.sent :=
  exists_of_exec errorRun (by decide +kernel)

end Thread

end Driver
end AtomicDiscDrive
