import AtomicDiscDrive.Driver.Ring

/-!
# The relay and its client

The thread counts the commands that are forwarded and not answered twice: in the positions
of the ring, and in the positions of the client's `pending` buffer. Each count has a reset of
its own. A failed send resets both, the client's in `atdd_disconnect`. A failed fetch resets
the ring's alone: the client neither disconnects nor forgets its pending command.

After a failed fetch the thread sends the request again, in the same round. If that fails too
the client disconnects, and the counts agree again. If it succeeds, one command is forwarded
and two are pending. So the result about runs is about those in which every round with a
command pending finds a response or does not succeed in sending (`Keeps`).
-/

namespace AtomicDiscDrive
namespace Driver

open Utils

namespace Thread

/-- The requests that have been accepted and not ended. -/
def outstanding (t : Thread) : List Request := t.accepted.drop t.ended.length

/-! ## One half of a round: fetching -/

/-- Both sides count the same, none or one, and the parser is at the start of a response. -/
def Agree (relay : Relay) (c : TcpClient) : Prop :=
  c.parseBufPos = 0 ∧
  ((relay.bufTcpForwardedPos = relay.bufCompletedPos ∧
      c.pending.acceptedPos = c.pending.completedPos) ∨
    (relay.bufTcpForwardedPos = relay.bufCompletedPos + 1 ∧
      c.pending.acceptedPos = c.pending.completedPos + 1 ∧ c.connected = true))

theorem add_one_ne_self (a : UInt8) : a + 1 ≠ a := by
  intro h
  have hsub := congrArg (· - a) h
  simp only [UInt8.add_comm a 1, UInt8.add_sub_cancel, UInt8.sub_self] at hsub
  exact absurd hsub (by decide)

/-- What `atdd_finish_all_completed_requests` does, when the two sides agree: nothing, the end
of one request, or an error. -/
inductive Fetched (hmac : List UInt8 → List UInt8) (relay : Relay) (c : TcpClient)
    (socket : List Recv) : Option Errno → List Ended → Relay → TcpClient → Prop where
  | nothing (hpending : c.pending.acceptedPos = c.pending.completedPos) :
      Fetched hmac relay c socket none [] relay c
  | command (hpending : c.pending.acceptedPos = c.pending.completedPos + 1)
      (hlegible : Legible hmac (delivered socket)) (cmdR : CmdReturn)
      (hrcode : parseStatusCode ((delivered socket).getD 6 0) = some cmdR.rcode) (c' : TcpClient)
      (hempty : c'.parseBufPos = 0)
      (hpending' : c'.pending.acceptedPos = c'.pending.completedPos) :
      Fetched hmac relay c socket none [(relay.finishRequest cmdR).1]
        (relay.finishRequest cmdR).2 c'
  | error (hpending : c.pending.acceptedPos = c.pending.completedPos + 1)
      (hnot : ¬ Legible hmac (delivered socket)) (err : Errno) (c' : TcpClient)
      (hpending' : c'.pending = c.pending) (hconnected : c'.connected = c.connected) :
      Fetched hmac relay c socket (some err) [] relay c'

theorem fetched_of_finish {hmac : List UInt8 → List UInt8} {relay relay' : Relay}
    {c c' : TcpClient} {socket : List Recv} {err : Option Errno} {ended : List Ended} (fuel : ℕ)
    (hagree : Agree relay c)
    (h : finishAllCompletedRequests hmac (fuel + 2) relay ⟨c, socket⟩ =
      .ok (err, ended, relay', c')) :
    Fetched hmac relay c socket err ended relay' c' := by
  obtain ⟨hempty, ⟨-, hpending⟩ | ⟨-, hpending, hconnected⟩⟩ := hagree
  · have hfetch : Connection.atddFetchCommand hmac ⟨c, socket⟩ = .ok (.ok none, ⟨c, socket⟩) :=
      if_pos hpending
    rw [finishAllCompletedRequests, hfetch] at h
    cases h
    exact .nothing hpending
  · have hne : c.pending.acceptedPos ≠ c.pending.completedPos := by
      rw [hpending]
      exact add_one_ne_self _
    by_cases hlegible : Legible hmac (delivered socket)
    · obtain ⟨st, socket', hst, hfetch, -⟩ :=
        Connection.fetch_legible (s := ⟨c, socket⟩) hne hempty hlegible
      have hdone : (Connection.finishFetch
          (Connection.parsed c (delivered socket) st)).2.pending.acceptedPos =
            (Connection.finishFetch
              (Connection.parsed c (delivered socket) st)).2.pending.completedPos := hpending
      -- the second call finds nothing pending
      have hagain : Connection.atddFetchCommand hmac ⟨(Connection.finishFetch
          (Connection.parsed c (delivered socket) st)).2, socket'⟩ = .ok (.ok none, _) :=
        if_pos hdone
      rw [finishAllCompletedRequests, hfetch] at h
      simp only [finishAllCompletedRequests, hagain] at h
      cases h
      exact .command hpending hlegible _ hst _ rfl hdone
    · rw [finishAllCompletedRequests] at h
      cases hfetch : Connection.atddFetchCommand hmac ⟨c, socket⟩ with
      | error halt =>
        rw [hfetch] at h
        cases h
      | ok result =>
        obtain ⟨res, s'⟩ := result
        obtain ⟨⟨err', rfl⟩, hpending', hconnected'⟩ :=
          Connection.fetch_fails (s := ⟨c, socket⟩) hne hempty hlegible hfetch
        rw [hfetch] at h
        cases h
        exact .error hpending hlegible err' s'.client hpending' hconnected'

/-! ## The other half: sending -/

/-- What one command to send leads to: no connection, a failed send, or a command that is
pending at the client and forwarded in the ring. -/
theorem sendRequest_cases (t : Thread) (connects : Bool) (result : Option Errno) :
    (t.client.connected = false ∧
      t.sendRequest connects result = { t with relay := t.relay.reset, phase := .head }) ∨
    (result.isSome = true ∧ t.sendRequest connects result =
      { t with
        relay := t.relay.reset
        client := { t.client with connected := true }.atddDisconnect
        sent := t.sent ++ [(t.relay.requestsBuf t.relay.bufTcpForwardedPos, t.relay.identToSend)]
        phase := .head }) ∨
    (result = none ∧ t.sendRequest connects result =
      { t with
        relay := t.relay.forward
        client := { t.client with
          connected := true
          pending := { t.client.pending with acceptedPos := t.client.pending.acceptedPos + 1 } }
        sent := t.sent ++ [(t.relay.requestsBuf t.relay.bufTcpForwardedPos, t.relay.identToSend)]
        forwarded := t.forwarded ++ [t.relay.requestsBuf t.relay.bufTcpForwardedPos]
        phase := .head }) := by
  unfold sendRequest TcpClient.atddSendCommand TcpClient.sendAtddCmdOverTcp
  by_cases hconnected : (t.client.connected || connects) = true
  · have hnot : (!t.client.connected && !connects) = false := by
      rw [← Bool.not_or, hconnected]
      rfl
    simp only [hconnected, hnot, Bool.false_eq_true, if_false, if_true]
    cases result with
    | some err => exact Or.inr (Or.inl ⟨rfl, rfl⟩)
    | none => exact Or.inr (Or.inr ⟨rfl, rfl⟩)
  · have hfalse : (t.client.connected || connects) = false := by simpa using hconnected
    have hnot : (!t.client.connected && !connects) = true := by
      rw [← Bool.not_or, hfalse]
      rfl
    simp only [hfalse, hnot, Bool.false_eq_true, if_false, if_true]
    exact Or.inl ⟨(Bool.or_eq_false_iff.mp hfalse).1, trivial⟩

/-! ## Counts in step -/

/-- The ring has been reset, and the client has not. -/
structure Behind (t : Thread) : Prop where
  idle : t.relay.bufTcpForwardedPos = t.relay.bufCompletedPos
  pending : t.client.pending.acceptedPos = t.client.pending.completedPos + 1
  connected : t.client.connected = true
  outstanding : t.outstanding ≠ []

/-- The counts agree, except between an error of the fetch and the send that follows. -/
def Counts (t : Thread) : Prop :=
  match t.phase with
  | .sending false => Behind t
  | .sending true => Agree t.relay t.client
  | .head => Agree t.relay t.client

/-- The thread and its client are in step. -/
structure InStep (t : Thread) : Prop where
  ended_le : t.ended.length ≤ t.accepted.length
  holds : t.relay.Holds t.outstanding
  counts : Counts t
  forwarded : t.relay.bufTcpForwardedPos = t.relay.bufCompletedPos + 1 →
    ∃ rq, t.outstanding.head? = some rq ∧ some rq ∈ t.forwarded
  ended : ∀ e ∈ t.ended, e.rq ∈ t.forwarded

/-- The condition on the block layer and the network. A request that finds 255 others
outstanding finds `buf_completed_pos` at zero. A round that has found a command pending, and no
response to it, does not succeed in sending. -/
def Keeps (t : Thread) : Action → Prop
  | .submit _ => t.outstanding.length = 255 → t.relay.bufCompletedPos = 0
  | .receive _ => True
  | .send _ result => t.phase = .sending false → result.isSome = true

instance (t : Thread) (a : Action) : Decidable (Keeps t a) :=
  Action.casesOn (motive := fun a => Decidable (Keeps t a)) a
    (fun _ => inferInstanceAs (Decidable (_ → _))) (fun _ => inferInstanceAs (Decidable True))
    (fun _ _ => inferInstanceAs (Decidable (_ → _)))

theorem inStep_init (id : UInt64) (sendBuf : List UInt8) (parseBuf : ℕ → UInt8) :
    InStep (init id sendBuf parseBuf) where
  ended_le := le_refl _
  holds := Relay.holds_create id
  counts := ⟨rfl, Or.inl ⟨rfl, rfl⟩⟩
  forwarded := fun h => absurd h.symm (add_one_ne_self _)
  ended := fun _ he => absurd he List.not_mem_nil

/-- The counts depend on the positions and the outstanding requests alone. -/
theorem Counts.of_submit {t t' : Thread} (h : Counts t) (hphase : t'.phase = t.phase)
    (hclient : t'.client = t.client)
    (hforwarded : t'.relay.bufTcpForwardedPos = t.relay.bufTcpForwardedPos)
    (hcompleted : t'.relay.bufCompletedPos = t.relay.bufCompletedPos)
    (hout : t.outstanding ≠ [] → t'.outstanding ≠ []) : Counts t' := by
  unfold Counts Agree at h ⊢
  rw [hphase]
  cases hp : t.phase with
  | head =>
    rw [hp] at h
    simp only at h ⊢
    rw [hclient, hforwarded, hcompleted]
    exact h
  | sending legible =>
    rw [hp] at h
    cases legible with
    | true =>
      simp only at h ⊢
      rw [hclient, hforwarded, hcompleted]
      exact h
    | false =>
      obtain ⟨hidle, hpending, hconnected, houtstanding⟩ := h
      refine ⟨?_, ?_, ?_, hout houtstanding⟩
      · rw [hforwarded, hcompleted]
        exact hidle
      · rw [hclient]
        exact hpending
      · rw [hclient]
        exact hconnected

theorem inStep_submit {hmac : List UInt8 → List UInt8} {t t' : Thread} (h : InStep t)
    {rq : Request} (hkeeps : Keeps t (.submit rq)) (hstep : step hmac t (.submit rq) = some t') :
    InStep t' := by
  rcases h.holds.submit hkeeps rq with ⟨-, hsubmit⟩ |
    ⟨-, relay', hsubmit, hholds, hforwarded, hcompleted, -⟩
  · dsimp only [step] at hstep
    rw [hsubmit] at hstep
    cases hstep
    exact h
  · dsimp only [step] at hstep
    rw [hsubmit] at hstep
    cases hstep
    have hout : (t.accepted ++ [rq]).drop t.ended.length = t.outstanding ++ [rq] :=
      List.drop_append_of_le_length h.ended_le
    constructor
    · show t.ended.length ≤ (t.accepted ++ [rq]).length
      rw [List.length_append]
      exact le_trans h.ended_le (Nat.le_add_right _ _)
    · show relay'.Holds ((t.accepted ++ [rq]).drop t.ended.length)
      rw [hout]
      exact hholds
    · refine h.counts.of_submit rfl rfl hforwarded hcompleted ?_
      intro _
      show (t.accepted ++ [rq]).drop t.ended.length ≠ []
      rw [hout]
      simp
    · intro hone
      change relay'.bufTcpForwardedPos = relay'.bufCompletedPos + 1 at hone
      rw [hforwarded, hcompleted] at hone
      obtain ⟨first, hfirst, hmem⟩ := h.forwarded hone
      refine ⟨first, ?_, hmem⟩
      show ((t.accepted ++ [rq]).drop t.ended.length).head? = some first
      rw [hout, List.head?_append, hfirst]
      rfl
    · exact h.ended

/-- What the first half of a round does, and with what the thread goes on. -/
theorem receive_cases {hmac : List UInt8 → List UInt8} {t t' : Thread}
    {socket : Option (List Recv)} (h : InStep t)
    (hstep : step hmac t (.receive socket) = some t') :
    t.phase = .head ∧ Agree t.relay t.client ∧
    (t' = { t with phase := .sending true } ∨
    ∃ bytes err ended relay client, socket = some bytes ∧
      Fetched hmac t.relay t.client bytes err ended relay client ∧
      t' = { t with
        relay := if err.isSome then relay.reset else relay
        client
        ended := t.ended ++ ended
        phase := .sending (Readable hmac t.client bytes) }) := by
  have hphase : t.phase = .head := by
    by_contra hne
    cases socket with
    | none =>
      dsimp only [step] at hstep
      rw [if_neg hne] at hstep
      cases hstep
    | some bytes =>
      dsimp only [step] at hstep
      rw [if_neg hne] at hstep
      cases hstep
  have hagree : Agree t.relay t.client := by
    have hcounts := h.counts
    rw [Counts, hphase] at hcounts
    exact hcounts
  refine ⟨hphase, hagree, ?_⟩
  cases socket with
  | none =>
    dsimp only [step] at hstep
    rw [if_pos hphase] at hstep
    cases hstep
    exact Or.inl rfl
  | some bytes =>
    dsimp only [step] at hstep
    rw [if_pos hphase] at hstep
    cases hfinish : finishAllCompletedRequests hmac 256 t.relay ⟨t.client, bytes⟩ with
    | error halt =>
      rw [hfinish] at hstep
      cases hstep
    | ok result =>
      obtain ⟨err, ended, relay, client⟩ := result
      rw [hfinish] at hstep
      cases hstep
      exact Or.inr ⟨bytes, err, ended, relay, client, rfl,
        fetched_of_finish 254 hagree hfinish, rfl⟩

theorem inStep_receive {hmac : List UInt8 → List UInt8} {t t' : Thread}
    {socket : Option (List Recv)} (h : InStep t)
    (hstep : step hmac t (.receive socket) = some t') : InStep t' := by
  obtain ⟨-, hagree, rfl | ⟨bytes, err, ended, relay, client, -, hfetched, rfl⟩⟩ :=
    receive_cases h hstep
  · exact ⟨h.ended_le, h.holds, hagree, h.forwarded, h.ended⟩
  · cases hfetched with
    -- no command is pending: the two sides have not moved
    | nothing hpending =>
      have hreadable : decide (Readable hmac t.client bytes) = true :=
        decide_eq_true (Or.inl hpending)
      rw [hreadable, List.append_nil]
      exact ⟨h.ended_le, h.holds, hagree, h.forwarded, h.ended⟩
    | command hpending hlegible cmdR hrcode c' hempty hpending' =>
      -- the response is for the one command that has been forwarded, the first of the ring
      have hforwarded : t.relay.bufTcpForwardedPos = t.relay.bufCompletedPos + 1 := by
        obtain ⟨-, ⟨-, hnone⟩ | ⟨hforwarded, -⟩⟩ := hagree
        · exact absurd (hpending.symm.trans hnone) (add_one_ne_self _)
        · exact hforwarded
      have hreadable : decide (Readable hmac t.client bytes) = true :=
        decide_eq_true (Or.inr hlegible)
      obtain ⟨rq, hhead, hmem⟩ := h.forwarded hforwarded
      obtain ⟨rest, hout⟩ := List.head?_eq_some_iff.mp hhead
      have hholds := h.holds
      rw [hout] at hholds
      obtain ⟨hrq, hrest, hidle⟩ := hholds.finish hforwarded cmdR
      obtain ⟨-, hdrop, hle⟩ := drop_eq_cons hout
      rw [hreadable]
      constructor
      · show (t.ended ++ [_]).length ≤ _
        rw [List.length_append]
        exact hle
      · show (t.relay.finishRequest cmdR).2.Holds (t.accepted.drop (t.ended ++ [_]).length)
        rw [List.length_append, List.length_singleton, hdrop]
        exact hrest
      · exact ⟨hempty, Or.inl ⟨hidle, hpending'⟩⟩
      · intro hone
        change (t.relay.finishRequest cmdR).2.bufTcpForwardedPos = _ at hone
        exact absurd (hone.symm.trans hidle) (add_one_ne_self _)
      · intro e he
        rcases List.mem_append.mp he with he | he
        · exact h.ended e he
        · rw [List.mem_singleton.mp he, hrq]
          exact hmem
    | error hpending hnot err c' hpending' hconnected =>
      -- the relay starts again with this command, while the client still counts it as pending
      have hreadable : decide (Readable hmac t.client bytes) = false := by
        apply decide_eq_false
        rintro (hnone | hlegible)
        · exact absurd (hpending.symm.trans hnone) (add_one_ne_self _)
        · exact hnot hlegible
      rw [hreadable, List.append_nil]
      obtain ⟨-, ⟨-, hnone⟩ | ⟨hforwarded, -, hconnected'⟩⟩ := hagree
      · exact absurd (hpending.symm.trans hnone) (add_one_ne_self _)
      · have hout : t.outstanding ≠ [] := by
          rcases h.holds.forwarded with hidle | ⟨-, hne⟩
          · exact absurd (hforwarded.symm.trans hidle) (add_one_ne_self _)
          · exact hne
        constructor
        · exact h.ended_le
        · exact h.holds.reset
        · refine ⟨rfl, ?_, ?_, hout⟩
          · show client.pending.acceptedPos = client.pending.completedPos + 1
            rw [hpending']
            exact hpending
          · exact hconnected.trans hconnected'
        · intro hone
          exact absurd hone.symm (add_one_ne_self _)
        · exact h.ended

/-- The second half of a round, when there is a command to send. -/
theorem inStep_sendRequest {t : Thread} (h : InStep t) {connects : Bool} {result : Option Errno}
    (hkeeps : Keeps t (.send connects result)) (hphase : t.phase ≠ .head)
    (hsend : t.relay.atddCmdsToSend ≠ 0) : InStep (t.sendRequest connects result) := by
  obtain ⟨hidle, hne⟩ := h.holds.cmdsToSend_ne_zero hsend
  obtain ⟨rq, rest, hout⟩ := List.exists_cons_of_ne_nil hne
  have hholds := h.holds
  rw [hout] at hholds
  have hslot : t.relay.requestsBuf t.relay.bufTcpForwardedPos = some rq := by
    rw [hidle]
    exact hholds.first.1
  rcases t.sendRequest_cases connects result with
    ⟨hconnected, hcase⟩ | ⟨-, hcase⟩ | ⟨hresult, hcase⟩
  · -- no connection: nothing was pending
    rw [hcase]
    refine ⟨h.ended_le, h.holds.reset, ?_, ?_, h.ended⟩
    · have hcounts := h.counts
      unfold Counts at hcounts
      cases hp : t.phase with
      | head => exact absurd hp hphase
      | sending legible =>
        rw [hp] at hcounts
        cases legible with
        | true =>
          obtain ⟨hempty, ⟨-, hpending⟩ | ⟨-, -, htrue⟩⟩ := hcounts
          · exact ⟨hempty, Or.inl ⟨rfl, hpending⟩⟩
          · exact absurd (hconnected.symm.trans htrue) (by decide)
        | false => exact absurd (hconnected.symm.trans hcounts.connected) (by decide)
    · intro hone
      exact absurd hone.symm (add_one_ne_self _)
  · -- a failed send: the client disconnects
    rw [hcase]
    refine ⟨h.ended_le, h.holds.reset, ⟨rfl, Or.inl ⟨rfl, rfl⟩⟩, ?_, h.ended⟩
    intro hone
    exact absurd hone.symm (add_one_ne_self _)
  · rw [hcase]
    -- a whole send after a response that could not be read is what `Keeps` excludes
    have hagree : Agree t.relay t.client := by
      have hcounts := h.counts
      unfold Counts at hcounts
      cases hp : t.phase with
      | head => exact absurd hp hphase
      | sending legible =>
        rw [hp] at hcounts
        cases legible with
        | true => exact hcounts
        | false =>
          have hfails := hkeeps hp
          rw [hresult] at hfails
          exact absurd hfails (by decide)
    obtain ⟨hempty, ⟨-, hpending⟩ | ⟨hforwarded, -⟩⟩ := hagree
    · refine ⟨h.ended_le, h.holds.forward hidle hne, ⟨hempty, Or.inr ⟨?_, ?_, rfl⟩⟩, ?_, ?_⟩
      · show t.relay.bufTcpForwardedPos + 1 = t.relay.bufCompletedPos + 1
        rw [hidle]
      · show t.client.pending.acceptedPos + 1 = t.client.pending.completedPos + 1
        rw [hpending]
      · intro _
        refine ⟨rq, ?_, ?_⟩
        · show t.outstanding.head? = some rq
          rw [hout]
          rfl
        · rw [hslot]
          exact List.mem_append_right _ List.mem_cons_self
      · intro e he
        exact List.mem_append_left _ (h.ended e he)
    · exact absurd (hforwarded.symm.trans hidle) (add_one_ne_self _)

/-- **One step** keeps the two sides in step. -/
theorem inStep_step {hmac : List UInt8 → List UInt8} {t t' : Thread} {a : Action} (h : InStep t)
    (hkeeps : Keeps t a) (hstep : step hmac t a = some t') : InStep t' := by
  cases a with
  | submit rq => exact inStep_submit h hkeeps hstep
  | receive socket => exact inStep_receive h hstep
  | send connects result =>
    dsimp only [step] at hstep
    split_ifs at hstep with hphase hbug hzero
    · cases hstep
      refine ⟨h.ended_le, h.holds, ?_, h.forwarded, h.ended⟩
      have hcounts := h.counts
      unfold Counts at hcounts
      cases hp : t.phase with
      | head => exact absurd hp hphase
      | sending legible =>
        rw [hp] at hcounts
        cases legible with
        | true => exact hcounts
        | false =>
          -- the request that was forwarded is still there to be sent
          have hsend := h.holds.cmdsToSend_of_idle hcounts.idle
          rw [if_neg hcounts.outstanding, hzero] at hsend
          exact absurd hsend (by decide)
    · cases hstep
      exact inStep_sendRequest h hkeeps hphase hzero

theorem inStep_reachable {hmac : List UInt8 → List UInt8} {id : UInt64} {sendBuf : List UInt8}
    {parseBuf : ℕ → UInt8} {allowed : Thread → Action → Prop}
    (hallowed : ∀ t a, allowed t a → Keeps t a) {t : Thread}
    (ht : Reachable (step hmac) allowed (init id sendBuf parseBuf) t) : InStep t :=
  ht.invariant InStep (inStep_init id sendBuf parseBuf)
    (fun t a _ _ h ha hstep => inStep_step h (hallowed t a ha) hstep)

/-- **In step.** In every run that meets the condition: at the head of the loop the two counts
are equal and at most 1; there is never more than one command to send; and every request that
is ended has been forwarded. -/
theorem relay_client_in_step (hmac : List UInt8 → List UInt8) (id : UInt64)
    (sendBuf : List UInt8) (parseBuf : ℕ → UInt8) {t : Thread}
    (ht : Reachable (step hmac) Keeps (init id sendBuf parseBuf) t) :
    (t.phase = .head →
      t.relay.bufTcpForwardedPos - t.relay.bufCompletedPos =
        t.client.pending.acceptedPos - t.client.pending.completedPos ∧
      t.relay.bufTcpForwardedPos - t.relay.bufCompletedPos ≤ 1) ∧
    ¬ t.relay.atddCmdsToSend > 1 ∧
    ∀ e ∈ t.ended, e.rq ∈ t.forwarded := by
  have h : InStep t := inStep_reachable (fun _ _ ha => ha) ht
  refine ⟨?_, h.holds.cmdsToSend_le, h.ended⟩
  intro hphase
  have hcounts := h.counts
  rw [Counts, hphase] at hcounts
  obtain ⟨-, ⟨hidle, hpending⟩ | ⟨hforwarded, hpending, -⟩⟩ := hcounts
  · rw [hidle, hpending, UInt8.sub_self, UInt8.sub_self]
    exact ⟨rfl, by decide⟩
  · rw [hforwarded, hpending, UInt8.add_comm, UInt8.add_sub_cancel,
      UInt8.add_comm t.client.pending.completedPos, UInt8.add_sub_cancel]
    exact ⟨rfl, by decide⟩

/-- A keyed function whose tags are zero. -/
def sampleHmac (_ : List UInt8) : List UInt8 := List.replicate 32 0

/-- The response to a WRITE, with a status byte. -/
def sampleResponse (status : UInt8) (ident : UInt64) : List UInt8 :=
  atddMagic ++ [0, 0, status, 0x40 + writeCmd] ++ u64ToBeBytes ident ++ List.replicate 32 0

def sampleInit : Thread := init 0 [] (fun _ => 0)

/-- A response with an unknown status, a send that fails, and the request again. -/
def retryRun : List Action :=
  [.submit (Relay.sampleWrite 0), .receive none, .send true none,
    .receive (some (unread (sampleResponse 9 0) [])), .send true (some .eio),
    .receive none, .send true none, .receive (some (unread (sampleResponse 0 0) []))]

theorem relay_client_in_step_retry : ∃ t, Reachable (step sampleHmac) Keeps sampleInit t ∧
    t.ended.map Ended.rq = [some (Relay.sampleWrite 0)] ∧ ¬ t.relay.atddCmdsToSend > 1 := by
  obtain ⟨t, ht, hended⟩ : ∃ t, Reachable (step sampleHmac) Keeps sampleInit t ∧
      t.ended.map Ended.rq = [some (Relay.sampleWrite 0)] :=
    exists_of_exec retryRun (by decide +kernel)
  exact ⟨t, ht, hended, (relay_client_in_step sampleHmac 0 [] (fun _ => 0) ht).2.1⟩

/-- A response with an unknown status, and the request again. -/
def resendRun : List Action :=
  [.submit (Relay.sampleWrite 0), .submit (Relay.sampleWrite 1), .submit (Relay.sampleWrite 2),
    .receive none, .send true none,
    .receive (some (unread (sampleResponse 9 0) [])), .send true none]

/-- Both commands are answered. -/
def twiceRun : List Action :=
  resendRun ++ [.receive (some (unread (sampleResponse 0 0 ++ sampleResponse 0 0) []))]

/-- One command is forwarded and two are pending. When both are answered a request is ended that
was not forwarded, and there are two commands to send. -/
theorem relay_client_out_of_step :
    (∃ t, Reachable (step sampleHmac) (fun _ _ => True) sampleInit t ∧ t.phase = .head ∧
      t.relay.bufTcpForwardedPos - t.relay.bufCompletedPos = 1 ∧
      t.client.pending.acceptedPos - t.client.pending.completedPos = 2) ∧
    (∃ t, Reachable (step sampleHmac) (fun _ _ => True) sampleInit t ∧
      t.relay.atddCmdsToSend > 1 ∧
      some (Relay.sampleWrite 1) ∈ t.ended.map Ended.rq ∧
      some (Relay.sampleWrite 1) ∉ t.forwarded) :=
  ⟨exists_of_exec resendRun (by decide +kernel), exists_of_exec twiceRun (by decide +kernel)⟩

end Thread

end Driver
end AtomicDiscDrive
