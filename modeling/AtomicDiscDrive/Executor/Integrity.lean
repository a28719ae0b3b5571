import AtomicDiscDrive.Executor.Cluster
import AtomicDiscDrive.Executor.Contents

/-!
# Quorum integrity

In a run of `N` processes a register counts, for the operation it is busy with, replies to the
message it has broadcast for the current phase of this operation (`quorum_integrity`), as long
as all steps are orderly: no client of a process uses a request identifier again, client
commands receive the indices of free registers, recovered ones those of the registers they
were found in, no `read_ident` wraps around, and replies arrive only where they were sent to.

Between the processes the argument is short. A reply copies the identifiers of the request and
goes to the process that asked (`Cluster.Attributed.replies`), so a reply that arrives answers
a broadcast of the process it arrives at; the rest is a matter of each process alone.
-/

namespace AtomicDiscDrive
namespace Executor

open Utils

namespace Cluster

/-- The steps that are orderly for the process that takes them, replies being delivered to
their addressees. -/
def Orderly (N : ℕ) (c : Cluster) (x : UInt8 × Action) : Prop :=
  (c x.1).Orderly x.2 ∧ c.Addressed N x

instance (N : ℕ) (c : Cluster) (x : UInt8 × Action) : Decidable (c.Orderly N x) :=
  instDecidableAnd

/-- Some client has written the data to the sector, or they are those of a sector that has not
been written to. -/
def Written (N : ℕ) (c : Cluster) (idx : SectorIdx) (data : SectorVec) : Prop :=
  data = .new ∨ ∃ q ∈ ranks N, ∃ call ∈ (c q).calls,
    call.sector = idx ∧ call.cmd.content = .write data

/-- The reply `out` of process `q` answers a broadcast, and goes to where it came from. -/
def RepliesTo (c : Cluster) (q : UInt8) (out : Output) : Prop :=
  ∃ o request, out.answers = some o ∧ (c o.process).Posted o.index request ∧
    out.target = some o.process.toNat ∧ Answers request.cmd out.cmd ∧
    out.cmd.header.processIdentifier = q

/-- **Attribution in a cluster.** -/
structure Attributed (N R : ℕ) (c : Cluster) : Prop where
  process : ∀ p, Executor.Attributed N R p (c.Sent N p) (c p)
  contents : ∀ p, Contained R p (c.Written N) (c p)
  replies : ∀ q, ∀ out ∈ (c q).bank.outbox, out.target ≠ none → c.RepliesTo q out

end Cluster

variable {N R : ℕ} {c c' : Cluster}

/-! ## Messages between processes -/

/-- Requests are answered, replies are not. -/
theorem Answers.request {request reply : SystemRegisterCommand} (h : Answers request reply) :
    Process.isRequest request = true := by
  obtain ⟨header, content⟩ := reply
  cases content with
  | value ts wr data =>
    have hcontent := h.value ts wr data rfl
    unfold Process.isRequest
    rw [hcontent]
  | ack =>
    have hkind := h.ack rfl
    unfold isWriteProc at hkind
    unfold Process.isRequest
    split at hkind
    · rename_i heq
      rw [heq]
    · cases hkind
  | readProc => exact absurd h.kind Bool.noConfusion
  | writeProc ts wr data => exact absurd h.kind Bool.noConfusion

namespace Cluster.Attributed

/-- A request that has been sent is a broadcast of the process its header names. -/
theorem of_request (h : c.Attributed N R) {p : UInt8} {cmd : SystemRegisterCommand} {o : Origin}
    (hsent : c.Sent N p cmd o) (hkind : Process.isRequest cmd = true) :
    ∃ out, (c o.process).Posted o.index out ∧ out.cmd = cmd ∧
      cmd.header.processIdentifier = o.process := by
  rcases hsent with ⟨out, hout, htarget, rfl⟩ | ⟨q, -, out, hout, htarget, -, rfl⟩
  · refine ⟨out, ⟨hout, htarget⟩, rfl, ?_⟩
    exact ((h.process o.process).rounds.vouched _ out ⟨hout, htarget⟩).process
  · obtain ⟨o', request, -, -, -, hanswers, -⟩ := h.replies q out hout (by simp [htarget])
    exact absurd (hanswers.kind.symm.trans hkind) Bool.noConfusion

/-- A reply that has been sent to a process answers a broadcast of this process. -/
theorem of_reply (h : c.Attributed N R) {p : UInt8} {cmd : SystemRegisterCommand} {o : Origin}
    (hsent : c.Sent N p cmd o) (hkind : Process.isRequest cmd = false) :
    o.process = p ∧ ∃ q ∈ ranks N, ∃ out ∈ (c q).bank.outbox, out.cmd = cmd ∧
      out.answers = some o ∧ out.target = some p.toNat ∧ cmd.header.processIdentifier = q ∧
      ∃ request, (c p).Posted o.index request ∧ Answers request.cmd cmd := by
  rcases hsent with ⟨out, hout, htarget, rfl⟩ | ⟨q, hq, out, hout, htarget, ho, rfl⟩
  · have hrequest := ((h.process o.process).rounds.vouched _ out ⟨hout, htarget⟩).request
    exact absurd (hkind.symm.trans hrequest) Bool.noConfusion
  · obtain ⟨o', request, ho', hposted, htarget', hanswers, hprocess⟩ :=
      h.replies q out hout (by simp [htarget])
    rw [ho, Option.some.injEq] at ho'
    subst ho'
    rw [htarget, Option.some.injEq] at htarget'
    have hp : o.process = p := (UInt8.toNat_inj.mp htarget').symm
    subst hp
    exact ⟨rfl, q, hq, out, hout, rfl, ho, htarget, hprocess, request, hposted, hanswers⟩

theorem answersOwnBroadcasts (h : c.Attributed N R) (p : UInt8) :
    (c p).AnswersOwnBroadcasts (c.Sent N p) p := by
  intro cmd o hsent hkind
  obtain ⟨hself, _, _, _, _, _, _, _, _, request, hposted, hanswers⟩ := h.of_reply hsent hkind
  exact ⟨request, hself, hposted, hanswers⟩

theorem carries (h : c.Attributed N R) {p : UInt8} {cmd : SystemRegisterCommand} {o : Origin}
    (hsent : c.Sent N p cmd o) : Carries (c.Written N) cmd := by
  rcases hsent with ⟨out, hout, -, rfl⟩ | ⟨q, -, out, hout, -, -, rfl⟩
  · exact (h.contents o.process).outbox out (List.mem_of_getElem? hout)
  · exact (h.contents q).outbox out hout

end Cluster.Attributed

/-! ## Steps -/

/-- A process of the cluster takes a step. -/
structure Steps (N R : ℕ) (c c' : Cluster) (p : UInt8) (a : Action) : Prop where
  rank : p ∈ Cluster.ranks N
  step : (c p).step N R p a = some (c' p)
  others : ∀ q, q ≠ p → c' q = c q

theorem steps_of_step {x : UInt8 × Action} (h : c.step N R x = some c') :
    Steps N R c c' x.1 x.2 := by
  unfold Cluster.step at h
  split at h
  · rename_i hcond
    obtain ⟨s', hs', rfl⟩ := Option.map_eq_some_iff.mp h
    refine ⟨hcond.1, ?_, fun q hq => Function.update_of_ne hq ..⟩
    rw [Function.update_self]
    exact hs'
  · cases h

namespace Steps

variable {p : UInt8} {a : Action} (hsteps : Steps N R c c' p a) (h : c.Attributed N R)
include hsteps h

theorem outbox_mono {q : UInt8} {k : ℕ} {out : Output} (hk : (c q).bank.outbox[k]? = some out) :
    (c' q).bank.outbox[k]? = some out := by
  by_cases hq : q = p
  · subst hq
    exact Executor.outbox_mono (h.process q).recorded.occupied hsteps.step hk
  · rw [hsteps.others q hq]
    exact hk

theorem posted_mono {q : UInt8} {k : ℕ} {out : Output} (hk : (c q).Posted k out) :
    (c' q).Posted k out := ⟨hsteps.outbox_mono h hk.1, hk.2⟩

/-- What has been sent stays so. -/
theorem sent_mono {q : UInt8} {cmd : SystemRegisterCommand} {o : Origin}
    (hsent : c.Sent N q cmd o) : c'.Sent N q cmd o := by
  rcases hsent with ⟨out, hout, hrest⟩ | ⟨r, hr, out, hout, hrest⟩
  · exact .inl ⟨out, hsteps.outbox_mono h hout, hrest⟩
  · obtain ⟨k, hk⟩ := List.getElem?_of_mem hout
    exact .inr ⟨r, hr, out, List.mem_of_getElem? (hsteps.outbox_mono h hk), hrest⟩

omit h in
theorem written_mono {idx : SectorIdx} {data : SectorVec} (hw : c.Written N idx data) :
    c'.Written N idx data := by
  rcases hw with hnew | ⟨q, hq, call, hcall, hwritten⟩
  · exact .inl hnew
  · refine .inr ⟨q, hq, call, ?_, hwritten⟩
    by_cases hqp : q = p
    · subst hqp
      obtain ⟨t, ht⟩ := List.getElem?_of_mem hcall
      exact List.mem_of_getElem? ((step_event hsteps.step).calls_mono ht)
    · rw [hsteps.others q hqp]
      exact hcall

theorem repliesTo_mono {q : UInt8} {out : Output} (hr : c.RepliesTo q out) :
    c'.RepliesTo q out := by
  obtain ⟨o, request, ho, hposted, hrest⟩ := hr
  exact ⟨o, request, ho, hsteps.posted_mono h hposted, hrest⟩

omit hsteps in
/-- **A reply that is sent** answers the broadcast the handled message is. -/
theorem repliesTo_of_sends {i : ℕ} (hi : i < R) {out : Output} (hsends : Sends (c p).bank i out)
    (htarget : out.target ≠ none) : c.RepliesTo p out := by
  cases hsends with
  | broadcast _ => exact absurd rfl htarget
  | @reply cmd cmd' o target next hw =>
    have hreplies := replies_of_sends (h.contents p).filled hi hw
    have hsent := ((h.process p).held i cmd o (.inr (.inr ⟨_, hw⟩))).1
    obtain ⟨request, hposted, rfl, hprocess⟩ := h.of_request hsent hreplies.answers.request
    refine ⟨o, request, rfl, hposted, ?_, hreplies.answers, hreplies.process⟩
    show some target = some o.process.toNat
    rw [hreplies.target, hprocess]

/-- **Attribution is kept.** -/
theorem attributed (horderly : c.Orderly N (p, a)) : c'.Attributed N R := by
  obtain ⟨horderly, haddressed⟩ := horderly
  have hwritten : ∀ call ∈ (c p).calls, ∀ data, call.cmd.content = .write data →
      c.Written N call.sector data := fun call hcall data hdata =>
    .inr ⟨p, hsteps.rank, call, hcall, rfl, hdata⟩
  -- one process moves; the others see only that more has been sent
  refine ⟨fun q => ?_, fun q => ?_, fun q out hout htarget => ?_⟩
  · by_cases hq : q = p
    · subst hq
      have harrive : ∀ cmd o, a = .arrive cmd o → c.Sent N q cmd o := by
        rintro cmd o rfl
        exact haddressed
      exact (attributed_step (h.process q) (h.answersOwnBroadcasts q) harrive horderly
        hsteps.step).mono fun cmd o => hsteps.sent_mono h
    · rw [hsteps.others q hq]
      exact (h.process q).mono fun cmd o => hsteps.sent_mono h
  · by_cases hq : q = p
    · subst hq
      exact (contained_step (h.process q) (h.contents q) (fun _ => .inl rfl)
        (fun cmd o hsent => h.carries hsent) hwritten horderly.2.2 hsteps.step).mono
        fun _ _ => hsteps.written_mono
    · rw [hsteps.others q hq]
      exact (h.contents q).mono fun _ _ => hsteps.written_mono
  · by_cases hq : q = p
    · subst hq
      obtain ⟨k, hk⟩ := List.getElem?_of_mem hout
      apply hsteps.repliesTo_mono h
      -- a reply that is sent now answers the message its handler was given
      rcases outbox_cases (h.process q).recorded.occupied hsteps.step hk with hold | ⟨i, hi, hsends⟩
      · exact h.replies q out (List.mem_of_getElem? hold) htarget
      · exact repliesTo_of_sends h hi hsends htarget
    · rw [hsteps.others q hq] at hout
      exact hsteps.repliesTo_mono h (h.replies q out hout htarget)

end Steps

theorem attributed_cluster_init : (Cluster.init N).Attributed N R :=
  ⟨fun _ => attributed_init, fun _ => contained_init,
    fun _ _ hout => absurd hout List.not_mem_nil⟩

theorem attributed_reachable
    (hc : Reachable (Cluster.step N R) (Cluster.Orderly N) (.init N) c) : c.Attributed N R :=
  hc.invariant _ attributed_cluster_init fun _ _ _ _ h horderly hstep =>
    (steps_of_step hstep).attributed h horderly

/-! ## Quorums -/

/-- `reply` has been sent to process `p` as an answer to the message `o`. -/
def Cluster.SentInAnswer (N : ℕ) (c : Cluster) (p : UInt8) (reply : SystemRegisterCommand)
    (o : Origin) : Prop :=
  reply.header.processIdentifier ∈ ranks N ∧
    ∃ out ∈ (c reply.header.processIdentifier).bank.outbox, out.cmd = reply ∧
      out.target = some p.toNat ∧ out.answers = some o

theorem Cluster.Attributed.counted (h : c.Attributed N R) {p : UInt8} {i : ℕ} (hi : i < R)
    {t : Callback} (ht : ((c p).bank.registers i).callback = some t) {q : UInt8}
    {reply : SystemRegisterCommand} {o : Origin} (hkind : Process.isRequest reply = false)
    (hmay : (c p).MayCount (c.Sent N p) p i ((c p).bank.registers i) q reply o) :
    c.SentInAnswer N p reply o ∧ ∃ request call, (c p).Asked p i t call reply o request := by
  obtain ⟨-, r, hr, out, hout, hcmd, ho, htarget, rfl, -⟩ := h.of_reply hmay.sent hkind
  exact ⟨⟨hr, out, hout, hcmd, htarget, ho⟩, (h.process p).asked hi hmay.own hmay.round ht⟩

/-- **Quorum integrity**, in every run whose steps are orderly. While an operation is in
progress in a register, every entry of `readlist` is a `Value` that was sent in answer to the
`ReadProc`, and every process in `acks` has sent an `Ack` in answer to the `WriteProc`, that
this register has broadcast for the current phase of this operation and for its sector. And
the data a read returns have been written to its sector. -/
theorem quorum_integrity (hc : Reachable (Cluster.step N R) (Cluster.Orderly N) (.init N) c)
    (p : UInt8) :
    (∀ i < R, ∀ t, ((c p).bank.registers i).callback = some t →
      (∀ q v, ((c p).bank.registers i).readlist.lookup q = some v →
        ∃ o reply request call, (c p).bank.valueFrom i q = some o ∧
          reply.header.processIdentifier = q ∧ reply.content = .value v.1 v.2.1 v.2.2 ∧
          c.SentInAnswer N p reply o ∧ (c p).Asked p i t call reply o request ∧
          request.cmd.content = .readProc) ∧
      ∀ q ∈ ((c p).bank.registers i).acks,
        ∃ o reply request call, (c p).bank.ackFrom i q = some o ∧
          reply.header.processIdentifier = q ∧ reply.content = .ack ∧
          c.SentInAnswer N p reply o ∧ (c p).Asked p i t call reply o request ∧
          isWriteProc request.cmd = true) ∧
    ∀ f ∈ (c p).bank.fired, ∀ data, f.2.opReturn = .read ⟨some data⟩ →
      ∃ call, (c p).calls[f.1]? = some call ∧ c.Written N call.sector data := by
  -- by the invariant an entry comes from a reply, and the reply from a broadcast of this register
  have h := attributed_reachable hc
  refine ⟨fun i hi t ht => ⟨fun q v hv => ?_, fun q hq => ?_⟩, (h.contents p).fired⟩
  · obtain ⟨o, reply, ho, hcontent, hmay⟩ := ((h.process p).tallies i hi).values q v hv
    have hkind : Process.isRequest reply = false := by
      unfold Process.isRequest
      rw [hcontent]
    obtain ⟨hsent, request, call, hasked⟩ := h.counted hi ht hkind hmay
    exact ⟨o, reply, request, call, ho, hmay.process, hcontent, hsent, hasked,
      hasked.answers.value _ _ _ hcontent⟩
  · obtain ⟨o, reply, ho, hcontent, hmay⟩ := ((h.process p).tallies i hi).acks q hq
    have hkind : Process.isRequest reply = false := by
      unfold Process.isRequest
      rw [hcontent]
    obtain ⟨hsent, request, call, hasked⟩ := h.counted hi ht hkind hmay
    exact ⟨o, reply, request, call, ho, hmay.process, hcontent, hsent, hasked,
      hasked.answers.ack hcontent⟩

/-- Sectors 0 and 1 are read under two request identifiers, and the `ReadProc` for sector 0 is
answered. -/
def twoReads : List Action :=
  let header : SystemCommandHeader := ⟨1, .fromRequest 7, 1, 0⟩
  [.announce 0, .announce 1, .submit ⟨⟨7, 0⟩, .read⟩] ++ handOver 0 ++
  [.submit ⟨⟨8, 1⟩, .read⟩] ++ handOver 1 ++ handleNext 0 2 ++ handleNext 1 2 ++
  hear 0 ⟨header, .readProc⟩ ⟨1, 0⟩ ++ handleNext 0 3 ++
  hear 1 ⟨header, .value 0 0 .new⟩ ⟨1, 0⟩ ++ handleNext 0 0

set_option maxRecDepth 100000 in
/-- The entry in the `readlist` of register 0 answers its own `ReadProc`. -/
theorem own_read_answered :
    ∃ c, Reachable (Cluster.step 3 2) (Cluster.Orderly 3) (.init 3) c ∧
      ((c 1).bank.registers 0).callback = some 0 ∧
      ((c 1).bank.registers 0).readlist.lookup 1 = some (0, 0, .new) ∧
      ∃ o reply request call, (c 1).bank.valueFrom 0 1 = some o ∧
        c.SentInAnswer 3 1 reply o ∧ (c 1).Asked 1 0 0 call reply o request ∧
        request.cmd.content = .readProc := by
  have hrun : ∃ c, Reachable (Cluster.step 3 2) (Cluster.Orderly 3) (.init 3) c ∧
      ((c 1).bank.registers 0).callback = some 0 ∧
      ((c 1).bank.registers 0).readlist.lookup 1 = some (0, 0, .new) :=
    exists_of_exec (twoReads.map fun a => (1, a)) (by decide +kernel)
  obtain ⟨c, hc, hcallback, hlookup⟩ := hrun
  obtain ⟨o, reply, request, call, ho, -, -, hsent, hasked, hread⟩ :=
    ((quorum_integrity hc 1).1 0 (by decide) 0 hcallback).1 1 _ hlookup
  exact ⟨c, hc, hcallback, hlookup, o, reply, request, call, ho, hsent, hasked, hread⟩

/-! ## The other conditions

New identifiers alone are not enough. A register that is handed a second command mixes the
two, a recovered command in another register counts the replies to the former one, and so
does a command of another process which the replies are replayed to. -/

/-- Sector 0 is written. Then sector 1 is read, and before that is done the register is handed
another write to sector 0. -/
def crossedRead : List Action :=
  let header (readIdent : UInt64) : SystemCommandHeader := ⟨1, .fromRequest 9, readIdent, 0⟩
  writeRun ++ List.replicate 4 (.finish 0 true) ++
  [.submit ⟨⟨8, 1⟩, .read⟩] ++ handOver 1 ++ handleNext 0 2 ++
  [.submit ⟨⟨9, 0⟩, .write (.fill 2)⟩] ++ handOver 2 ++ handleNext 0 2 ++
  hear 4 ⟨header 4, .readProc⟩ ⟨1, 5⟩ ++ handleNext 0 3 ++
  hear 5 ⟨header 4, .value 1 1 (.fill 1)⟩ ⟨1, 5⟩ ++ handleNext 0 2 ++
  hear 6 ⟨header 5, .writeProc 1 1 (.fill 1)⟩ ⟨1, 7⟩ ++ handleNext 0 2 ++
  hear 7 ⟨header 5, .ack⟩ ⟨1, 7⟩ ++ handleNext 0 1

set_option maxRecDepth 100000 in
/-- The read of sector 1, request 8, is answered with the data of sector 0. -/
theorem read_answered_from_other_sector :
    ∃ c, Reachable (Cluster.step 1 1) (fun c x => (c x.1).FreshIdent x.2 ∧
        (c x.1).TakesHome x.2 ∧ (c x.1).BelowMax x.2 ∧ c.Addressed 1 x) (.init 1) c ∧
      (c 1).calls.map Call.cmd =
        [⟨⟨7, 0⟩, .write (.fill 1)⟩, ⟨⟨8, 1⟩, .read⟩, ⟨⟨9, 0⟩, .write (.fill 2)⟩] ∧
      (c 1).bank.fired.map Prod.snd = [⟨.ok, 7, .write⟩, ⟨.ok, 8, .read ⟨some (.fill 1)⟩⟩] :=
  exists_of_exec (crossedRead.map fun a => (1, a)) (by decide +kernel)

/-- Register 0 broadcasts the `ReadProc` of a write, and the process crashes. After the restart
register 1 is handed the write. The `ReadProc` of register 0 is answered. -/
def strayValue : List Action :=
  let header : SystemCommandHeader := ⟨1, .fromRequest 7, 1, 0⟩
  [.announce 0, .submit ⟨⟨7, 0⟩, .write (.fill 1)⟩] ++ handOver 0 ++ handleNext 0 2 ++
  [.crash, .restart, .announce 1, .dispatch] ++ handOver 1 ++ handleNext 1 2 ++
  hear 0 ⟨header, .readProc⟩ ⟨1, 0⟩ ++ handleNext 1 3 ++
  hear 1 ⟨header, .value 0 0 .new⟩ ⟨1, 0⟩ ++ handleNext 1 0

set_option maxRecDepth 100000 in
/-- Register 1 counts a reply to the `ReadProc` of register 0. -/
theorem value_for_other_register :
    ∃ c, Reachable (Cluster.step 3 2) (fun c x => (c x.1).FreshIdent x.2 ∧
        (c x.1).TakesFree x.2 ∧ (c x.1).BelowMax x.2 ∧ c.Addressed 3 x) (.init 3) c ∧
      ((c 1).bank.registers 1).callback = some 1 ∧
      ((c 1).bank.registers 1).readlist.lookup 1 = some (0, 0, .new) ∧
      (c 1).bank.valueFrom 1 1 = some ⟨1, 0⟩ ∧
      (c 1).bank.outbox[0]?.map Output.register = some 0 :=
  exists_of_exec (strayValue.map fun a => (1, a)) (by decide +kernel)

/-- Process 2 reads sector 0 and process 3 sector 1, both under the identifier 7. Process 1
answers process 2, and its reply is replayed to process 3. -/
def replayedValue : List (UInt8 × Action) :=
  let on (p : UInt8) (as : List Action) : List (UInt8 × Action) := as.map fun a => (p, a)
  let read (idx : SectorIdx) : List Action :=
    [.announce 0, .submit ⟨⟨7, idx⟩, .read⟩] ++ handOver 0 ++ handleNext 0 2
  on 2 (read 0) ++ on 3 (read 1) ++
  on 1 (.announce 0 :: hear 0 ⟨⟨2, .fromRequest 7, 1, 0⟩, .readProc⟩ ⟨2, 0⟩ ++ handleNext 0 3) ++
  on 3 (hear 0 ⟨⟨1, .fromRequest 7, 1, 0⟩, .value 0 0 .new⟩ ⟨2, 0⟩ ++ handleNext 0 0)

set_option maxRecDepth 100000 in
/-- Process 3, which reads sector 1, counts the reply to the `ReadProc` of process 2 for
sector 0. -/
theorem value_for_other_process :
    ∃ c, Reachable (Cluster.step 3 1) (fun c x => (c x.1).Orderly x.2) (.init 3) c ∧
      ((c 3).bank.registers 0).callback = some 0 ∧
      (c 3).calls[0]? = some ⟨0, ⟨⟨7, 1⟩, .read⟩, none⟩ ∧
      ((c 3).bank.registers 0).readlist.lookup 1 = some (0, 0, .new) ∧
      (c 3).bank.valueFrom 0 1 = some ⟨2, 0⟩ :=
  exists_of_exec replayedValue (by decide +kernel)

end Executor
end AtomicDiscDrive
