import AtomicDiscDrive.Protocol.Deliver

/-!
# The life of an operation

An operation is issued (`Invariant.issue`) and its register opens the read phase
(`Invariant.start`); with a majority of `Value`s it opens the write phase
(`Invariant.choose`), and a majority of `Ack`s completes it (`Invariant.complete`). The
first two are here, the quorums in `Quorums`.

The quorum argument is spread over these steps. At its answer an operation's tag is held
by a majority; at its issue an operation photographs what everyone holds; at the choice of
its tag the majority that answered meets the majority of every earlier operation.
-/

namespace AtomicDiscDrive
namespace Protocol

open Utils

variable {N R : ℕ} {s : System} {g : Ghost} {p : UInt8} {r : ℕ}

/-! ## Issue -/

/-- Operation `s.count`, on sector `sec`, is issued now. -/
def Ghost.issued (g : Ghost) (s : System) (sec : SectorIdx) : Ghost :=
  { g with snap := Function.update g.snap s.count fun q => s.tagAt q sec }

section Issue

variable {cmd : ClientRegisterCommand}

theorem issue_cases {k : ℕ} {o : Operation} (h : (s.issue p r cmd).operations k = some o) :
    k ≠ s.count ∧ s.operations k = some o ∨
      k = s.count ∧ o = ⟨p, r, cmd, s.clock, none, none, false⟩ := by
  by_cases hk : k = s.count
  · subst hk
    simp only [System.issue, Function.update_self, Option.some.injEq] at h
    exact .inr ⟨rfl, h.symm⟩
  · simp only [System.issue, Function.update_of_ne hk] at h
    exact .inl ⟨hk, h⟩

theorem Invariant.ne_count (hI : Invariant N R s g) {k : ℕ} {o : Operation}
    (ho : s.operations k = some o) : k ≠ s.count :=
  (hI.operations k o ho).lt_count.ne

theorem issue_same (hI : Invariant N R s g) {k : ℕ} {o : Operation}
    (ho : s.operations k = some o) : (s.issue p r cmd).operations k = some o := by
  simp only [System.issue, Function.update_of_ne (hI.ne_count ho)]
  exact ho

theorem issue_extends (hI : Invariant N R s g) (sec : SectorIdx) :
    Extends s g (s.issue p r cmd) (g.issued s sec) := by
  constructor
  · intro k o ho
    exact ⟨o, issue_same hI ho, .refl o⟩
  · intro q sec; exact le_refl _
  · intro k o ho
    simp only [Ghost.issued, Function.update_of_ne (hI.ne_count ho)]
  · intro p r n x h; exact h
  · intro h; exact h
  · intro q r; exact le_refl _
  · exact Nat.le_succ _
  · exact le_refl _

/-- The operation just issued. -/
theorem issue_operationOk (hp : IsProcess N p) (hr : r < R) :
    OperationOk N R (s.issue p r cmd) (g.issued s cmd.header.sectorIdx) s.count
      ⟨p, r, cmd, s.clock, none, none, false⟩ := by
  constructor
  · exact Nat.lt_succ_self _
  · exact hp
  · exact hr
  · exact le_refl _
  · intro q
    simp only [Ghost.issued, Function.update_self]
    exact le_refl _
  all_goals simp

/-- An earlier write of the same process on the same sector is over. -/
theorem issue_precedes (hI : Invariant N R s g) {k : ℕ} {o : Operation}
    (ho : s.operations k = some o) (hsec : o.sector = cmd.header.sectorIdx)
    (hidle : o.InProgress → o.register ≠ r ∧ o.sector ≠ cmd.header.sectorIdx)
    (hw : o.cmd.content ≠ .read) : o.Precedes ⟨p, r, cmd, s.clock, none, none, false⟩ := by
  have hok := hI.operations k o ho
  have hab : o.aborted = false := by
    rw [← Bool.not_eq_true]
    exact fun h => hw (hok.aborted h)
  cases hfin : o.finish with
  | none => exact absurd hsec (hidle ⟨hfin, hab⟩).2
  | some x => exact ⟨x.1, x.2, hfin, (hok.finish_lt x.1 x.2 hfin).2⟩

theorem Invariant.issue (hI : Invariant N R s g) (hp : IsProcess N p) (hr : r < R)
    (henv : ∀ k < s.count, ∀ o ∈ s.operations k, o.process = p →
      (o.InProgress → o.register ≠ r ∧ o.sector ≠ cmd.header.sectorIdx) ∧
      o.cmd.header.requestIdentifier ≠ cmd.header.requestIdentifier) :
    Invariant N R (s.issue p r cmd) (g.issued s cmd.header.sectorIdx) := by
  have hx : Extends s g (s.issue p r cmd) (g.issued s cmd.header.sectorIdx) :=
    issue_extends hI cmd.header.sectorIdx
  have hsame : ∀ k o, s.operations k = some o → (s.issue p r cmd).operations k = some o :=
    fun k o ho => issue_same hI ho
  constructor
  · intro k o ho
    rcases issue_cases ho with ⟨-, ho⟩ | ⟨rfl, rfl⟩
    · exact (hI.operations k o ho).extend hx ho (.refl o) rfl rfl (hI.operations k o ho).aborted
    · exact issue_operationOk hp hr
  · intro k₁ o₁ k₂ o₂ h₁ h₂ hproc hreq
    -- the new operation shares its identifier with none of this process
    rcases issue_cases h₁ with ⟨-, h₁⟩ | ⟨rfl, rfl⟩ <;>
      rcases issue_cases h₂ with ⟨-, h₂⟩ | ⟨rfl, rfl⟩
    · exact hI.identifiers k₁ o₁ k₂ o₂ h₁ h₂ hproc hreq
    · exact absurd hreq (henv k₁ (hI.operations k₁ o₁ h₁).lt_count o₁ h₁ hproc).2
    · exact absurd hreq.symm (henv k₂ (hI.operations k₂ o₂ h₂).lt_count o₂ h₂ hproc.symm).2
    · rfl
  · intro k₁ o₁ k₂ o₂ h₁ h₂ hne hproc hsec hw₁ hw₂
    rcases issue_cases h₁ with ⟨-, h₁⟩ | ⟨rfl, rfl⟩ <;>
      rcases issue_cases h₂ with ⟨-, h₂⟩ | ⟨rfl, rfl⟩
    · exact hI.exclusive k₁ o₁ k₂ o₂ h₁ h₂ hne hproc hsec hw₁ hw₂
    · exact .inl (issue_precedes hI h₁ hsec
        (henv k₁ (hI.operations k₁ o₁ h₁).lt_count o₁ h₁ hproc).1 hw₁)
    · exact .inr (issue_precedes hI h₂ hsec.symm
        (henv k₂ (hI.operations k₂ o₂ h₂).lt_count o₂ h₂ hproc.symm).1 hw₂)
    · exact absurd rfl hne
  · intro k₁ o₁ k₂ o₂ h₁ h₂ hsec hprec t₁ d₁ hwp₁
    rcases issue_cases h₁ with ⟨-, h₁⟩ | ⟨-, rfl⟩
    · rcases issue_cases h₂ with ⟨-, h₂⟩ | ⟨rfl, rfl⟩
      · rw [hx.snap k₂ o₂ h₂]
        exact hI.ordered k₁ o₁ k₂ o₂ h₁ h₂ hsec hprec t₁ d₁ hwp₁
      · -- the photograph shows what the majority of `o₁` still holds
        obtain ⟨time, c, hfin, -⟩ := hprec
        obtain ⟨t, d, hwp, hheld, -⟩ := (hI.operations k₁ o₁ h₁).held time c hfin
        rw [hwp₁, Option.some.injEq, Prod.mk.injEq] at hwp
        rw [← hwp.1, hsec] at hheld
        refine ⟨?_, by simp⟩
        simp only [Ghost.issued, Function.update_self]
        exact hheld
    · -- the new operation is not finished, so it precedes none
      obtain ⟨time, c, hfin, -⟩ := hprec
      simp at hfin
  · intro packet hpacket
    exact (hI.packets packet hpacket).extend hx
  · intro q sec
    exact (hI.files q sec).extend hx
  · intro q r' hq hr' hup
    exact (hI.registers q r' hq hr' hup).extend hx rfl rfl fun k o ho _ _ _ => hsame k o ho
  · intro q r' hq hr'
    exact (hI.stable q r' hq hr').extend hx rfl rfl rfl rfl rfl fun k o ho _ _ _ => hsame k o ho
  · intro q r' hq hr'
    exact (hI.phases q r' hq hr').extend hx rfl rfl

end Issue

/-! ## Opening a phase -/

/-- Register `r` of `p` opens its next phase, for operation `k`. -/
def Ghost.opened (g : Ghost) (p : UInt8) (r : ℕ) (k : ℕ) (b : Bool) : Ghost :=
  { g with
    cnt := Function.update g.cnt p (Function.update (g.cnt p) r (g.cnt p r + 1))
    phase := Function.update g.phase p (Function.update (g.phase p) r
      (Function.update (g.phase p r) (g.cnt p r + 1) (some (k, b)))) }

section Opened

variable {k : ℕ} {b : Bool}

@[simp] theorem opened_cnt : (g.opened p r k b).cnt p r = g.cnt p r + 1 := by
  simp [Ghost.opened]

@[simp] theorem opened_phase (n : ℕ) :
    (g.opened p r k b).phase p r n =
      if n = g.cnt p r + 1 then some (k, b) else g.phase p r n := by
  simp [Ghost.opened, Function.update_apply]

theorem opened_of_ne {q : UInt8} {r' : ℕ} (h : q ≠ p ∨ r' ≠ r) :
    (g.opened p r k b).cnt q r' = g.cnt q r' ∧ (g.opened p r k b).phase q r' = g.phase q r' := by
  by_cases hq : q = p
  · subst hq
    have hr : r' ≠ r := h.resolve_left (by simp)
    simp [Ghost.opened, hr]
  · simp [Ghost.opened, hq]

/-- Phases keep their meaning, as phase numbers only grow. -/
theorem opened_phase_of_some (hph : PhaseOk s g p r) {q : UInt8} {r' n : ℕ} {x : ℕ × Bool}
    (h : g.phase q r' n = some x) : (g.opened p r k b).phase q r' n = some x := by
  by_cases hne : q ≠ p ∨ r' ≠ r
  · rw [(opened_of_ne hne).2]; exact h
  · simp only [not_or, not_not] at hne
    obtain ⟨rfl, rfl⟩ := hne
    have hle := (hph.owner n x.1 x.2 h).1
    rw [opened_phase, if_neg (by omega)]
    exact h

/-- The register's own phases, after it has opened one. -/
theorem opened_phaseOk {s' : System} (hph : PhaseOk s g p r)
    (hops : ∀ k o, s.operations k = some o → ∃ o', s'.operations k = some o' ∧ o.Later o')
    {o : Operation} (ho : s.operations k = some o) (hop : o.process = p) (hor : o.register = r)
    (hroom : g.cnt p r < 2 * s'.calls p r) : PhaseOk s' (g.opened p r k b) p r := by
  constructor
  · rw [opened_cnt]; exact hroom
  · intro n k' b' hn
    have hown : n ≤ g.cnt p r + 1 ∧ ∃ o', s.operations k' = some o' ∧ o'.process = p ∧
        o'.register = r := by
      rw [opened_phase] at hn
      split at hn
      · rename_i heq
        simp only [Option.some.injEq, Prod.mk.injEq] at hn
        rw [← hn.1]
        exact ⟨heq.le, o, ho, hop, hor⟩
      · obtain ⟨hle, hex⟩ := hph.owner n k' b' hn
        exact ⟨hle.trans (Nat.le_succ _), hex⟩
    obtain ⟨hle, o', ho', hp', hr'⟩ := hown
    obtain ⟨o'', ho'', hl⟩ := hops k' o' ho'
    exact ⟨by rw [opened_cnt]; exact hle, o'', ho'', hl.process.trans hp', hl.register.trans hr'⟩

end Opened

theorem mem_toAll {cmd : SystemRegisterCommand} {packet : Packet} (h : packet ∈ toAll N cmd) :
    1 ≤ packet.target ∧ packet.target ≤ N ∧ packet.cmd = cmd := by
  rw [toAll, List.mem_map] at h
  obtain ⟨i, hi, rfl⟩ := h
  rw [List.mem_range] at hi
  exact ⟨by simp, hi, rfl⟩

/-! ## The read phase -/

section Start

variable {cmd : ClientRegisterCommand} {k : ℕ} {o : Operation}

/-- The state after `client_command` of register `r` of `p`, for operation `k`. -/
abbrev started (N : ℕ) (s : System) (p : UInt8) (r : ℕ) (cmd : ClientRegisterCommand) (k : ℕ) :
    System :=
  let register := ((s.processes p).registers r).startCommand cmd k
  ((s.dispatched p r).called p r).commit N p r register
    ⟨(s.processes p).files, some register.state,
      [register.phaseMessage (.fromRequest cmd.header.requestIdentifier) cmd.header.sectorIdx
        .readProc], [], []⟩

theorem started_operations : (started N s p r cmd k).operations = s.operations :=
  recordHistory_eq rfl rfl

theorem started_calls : (started N s p r cmd k).calls =
    Function.update s.calls p (Function.update (s.calls p) r (s.calls p r + 1)) := rfl

theorem started_process_of_ne {q : UInt8} (h : q ≠ p) :
    (started N s p r cmd k).processes q = s.processes q := by
  rw [commit_process_of_ne h]
  simp [System.called, System.dispatched, h]

theorem started_process_self :
    (started N s p r cmd k).processes p =
      { s.processes p with
        registers := Function.update (s.processes p).registers r
          (((s.processes p).registers r).startCommand cmd k)
        stable := Function.update (s.processes p).stable r
          (some (((s.processes p).registers r).startCommand cmd k).state)
        pending := Function.update (s.processes p).pending r none } := by
  rw [commit_process_self]
  simp [System.called, System.dispatched]

theorem started_tagAt (q : UInt8) (sec : SectorIdx) :
    (started N s p r cmd k).tagAt q sec = s.tagAt q sec := by
  unfold System.tagAt
  by_cases h : q = p
  · subst h; rw [started_process_self]
  · rw [started_process_of_ne h]

theorem started_localStep (hph : PhaseOk s g p r) :
    LocalStep p r s g (started N s p r cmd k) (g.opened p r k false) where
  ext := by
    constructor
    · intro k o ho
      exact ⟨o, by rw [started_operations]; exact ho, .refl o⟩
    · intro q sec; rw [started_tagAt]
    · intro k o _; rfl
    · intro q r' n x h; exact opened_phase_of_some hph h
    · intro h; exact h
    · intro q r'
      rw [started_calls]
      by_cases hq : q = p
      · subst hq
        by_cases hr : r' = r
        · subst hr; simp
        · simp [hr]
      · simp [hq]
    · exact le_refl _
    · exact Nat.le_succ _
  operations := by intro k o ho _; rw [started_operations]; exact ho
  process := fun q hq => started_process_of_ne hq
  up := by rw [started_process_self]
  register := by
    intro r' hr'
    rw [started_process_self]
    simp [hr']
  ghost := fun q r' hne => opened_of_ne hne

theorem startCommand_spec {self : AtomicRegisterImplementation} (cmd : ClientRegisterCommand)
    (k : ℕ) (hidle : Idle self) :
    (self.startCommand cmd k).selfIdent = self.selfIdent ∧
    (self.startCommand cmd k).processesCount = self.processesCount ∧
    (self.startCommand cmd k).state.readIdent = self.state.readIdent + 1 ∧
    (self.startCommand cmd k).callback = some k ∧
    (self.startCommand cmd k).readlist = ∅ ∧ Serves (self.startCommand cmd k) cmd := by
  unfold AtomicRegisterImplementation.startCommand Serves
  cases cmd.content with
  | read => exact ⟨rfl, rfl, rfl, rfl, rfl, rfl, hidle.2.1, _, rfl⟩
  | write data => exact ⟨rfl, rfl, rfl, rfl, rfl, hidle.1, rfl, rfl⟩

/-- An idle register that is given a command opens the read phase of its operation. -/
theorem Invariant.start (hI : Invariant N R s g) (hp : IsProcess N p) (hr : r < R)
    (hup : (s.processes p).up = true) (hidle : Idle ((s.processes p).registers r))
    (hin : InProgressOn s p r cmd k o) (hfresh : o.writeProc = none)
    (honly : s.restarts = 0 → ∀ n b, g.phase p r n ≠ some (k, b)) :
    Invariant N R (started N s p r cmd k) (g.opened p r k false) := by
  have hph := hI.phases p r hp hr
  have hl : LocalStep p r s g (started N s p r cmd k) (g.opened p r k false) :=
    started_localStep hph
  have hops : (started N s p r cmd k).operations = s.operations := started_operations
  have hreg := hI.registers p r hp hr hup
  obtain ⟨hself, hcount, hid, hcb, hlist, hserves⟩ := startCommand_spec cmd k hidle
  have hid' : (((s.processes p).registers r).startCommand cmd k).state.readIdent =
      UInt64.ofNat (g.cnt p r + 1) := by
    rw [hid, hreg.readIdent, ofNat_succ]
  -- a call opens at most two phases, and this is the first one of a new call
  have hroom : g.cnt p r + 1 < 2 * (started N s p r cmd k).calls p r := by
    have hle := hph.cnt_le
    have hcalls : (started N s p r cmd k).calls p r = s.calls p r + 1 := by
      rw [started_calls, Function.update_self, Function.update_self]
    omega
  constructor
  · intro k o ho
    rw [hops] at ho
    exact (hI.operations k o ho).extend hl.ext ho (.refl o) rfl rfl (hI.operations k o ho).aborted
  · rw [hops]; exact hI.identifiers
  · rw [hops]; exact hI.exclusive
  · rw [hops]; exact hI.ordered
  · intro packet hpacket
    rw [commit_net, List.mem_append, List.mem_append] at hpacket
    rcases hpacket with (hpacket | hpacket) | hpacket
    · exact (hI.packets packet hpacket).extend hl.ext
    · simp at hpacket
    · rw [List.flatMap_singleton] at hpacket
      -- the `ReadProc` that goes to all processes, under the identifier of the new phase
      obtain ⟨h1, hN, hcmd⟩ := mem_toAll hpacket
      refine ⟨h1, hN, k, o, g.cnt p r + 1, by rw [hops]; exact hin.mem, ?_, ?_, ?_, ?_, ?_⟩
      · rw [hcmd, ← hin.cmd]; rfl
      · rw [hcmd, ← hin.cmd]; rfl
      · rw [hcmd]; exact hid'
      · rw [hin.process, hin.register, opened_phase, if_pos rfl, hcmd]; rfl
      · rw [Promise, hcmd]
        exact (hself.trans hreg.selfIdent).trans hin.process.symm
  · refine hl.files hI fun sec => ?_
    rw [started_tagAt, started_process_self]
    exact (hI.files p sec).extend hl.ext
  · refine hl.registers hI fun _ _ _ => ?_
    rw [commit_registers]
    refine ⟨hself.trans hreg.selfIdent, hcount.trans hreg.processesCount, ?_, .inr ?_⟩
    · rw [opened_cnt]; exact hid'
    · refine ⟨k, o, hcb, by rw [hops]; exact hin.mem, hin.process, hin.register, hin.inProgress,
        by rw [hin.cmd]; exact hserves, .inl ⟨?_, hfresh, ?_, ?_, ?_⟩⟩
      · rw [opened_cnt, opened_phase, if_pos rfl]
      · intro e he
        rw [hlist] at he
        simp at he
      · rw [opened_cnt]; exact hroom
      · intro hrestarts n b hn
        rw [opened_phase] at hn
        split at hn
        · rename_i heq; rw [opened_cnt]; exact heq
        · exact absurd hn (honly hrestarts n b)
  · refine hl.stable hI fun _ _ => ?_
    have hpending : ((started N s p r cmd k).processes p).pending r = none := by
      rw [started_process_self]; simp
    have hu : ((started N s p r cmd k).processes p).up = true := by
      rw [started_process_self]; exact hup
    constructor
    · rw [commit_record, opened_cnt]; exact hid'
    · rw [commit_record, commit_registers]; exact fun _ _ => rfl
    · intro cmd' _ hc
      rw [hpending] at hc
      simp at hc
    · rw [hu]
      simp
  · exact hl.phases hI fun _ _ => opened_phaseOk hph hl.ext.operation hin.mem hin.process
      hin.register (by omega)

end Start

end Protocol
end AtomicDiscDrive
