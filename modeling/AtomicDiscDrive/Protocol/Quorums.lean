import AtomicDiscDrive.Protocol.Phases

/-!
# The two quorums of an operation

With a majority of `Value`s a register chooses a tag and broadcasts its `WriteProc`
(`Invariant.choose`); with a majority of `Ack`s it completes (`Invariant.complete`). The
first is where the operation is ordered after everything answered before it was issued,
the second where its tag becomes one a majority holds.
-/

namespace AtomicDiscDrive
namespace Protocol

open Utils

variable {N R : ℕ} {s : System} {g : Ghost} {p : UInt8} {r : ℕ} {k : ℕ} {o o' : Operation}
  {register : AtomicRegisterImplementation} {e : HandlerEnv}

/-! ## Changing one operation -/

/-- The history with operation `k` replaced. -/
theorem update_cases {operations : ℕ → Option Operation} {k₁ : ℕ} {o₁ : Operation}
    (h : Function.update operations k (some o') k₁ = some o₁) :
    k₁ = k ∧ o₁ = o' ∨ k₁ ≠ k ∧ operations k₁ = some o₁ := by
  by_cases hk : k₁ = k
  · subst hk
    rw [Function.update_self, Option.some.injEq] at h
    exact .inl ⟨rfl, h.symm⟩
  · rw [Function.update_of_ne hk] at h
    exact .inr ⟨hk, h⟩

theorem update_later {operations : ℕ → Option Operation} (ho : operations k = some o)
    (hl : o.Later o') (k₁ : ℕ) (o₁ : Operation) (h : operations k₁ = some o₁) :
    ∃ o₂, Function.update operations k (some o') k₁ = some o₂ ∧ o₁.Later o₂ := by
  by_cases hk : k₁ = k
  · subst hk
    rw [ho, Option.some.injEq] at h
    exact ⟨o', by rw [Function.update_self], h ▸ hl⟩
  · exact ⟨o₁, by rw [Function.update_of_ne hk]; exact h, .refl o₁⟩

/-- What a later version of an operation `o'` stands for in the old history. -/
theorem update_source {operations : ℕ → Option Operation} (ho : operations k = some o)
    (hl : o.Later o') (hfin : ∀ x, o.finish = some x → o'.finish = some x) {k₁ : ℕ}
    {o₁ : Operation} (h : Function.update operations k (some o') k₁ = some o₁) :
    ∃ o₂, operations k₁ = some o₂ ∧ o₂.Later o₁ ∧
      ∀ x, o₂.finish = some x → o₁.finish = some x := by
  rcases update_cases h with ⟨rfl, rfl⟩ | ⟨-, h'⟩
  · exact ⟨o, ho, hl, hfin⟩
  · exact ⟨o₁, h', .refl o₁, fun x hx => hx⟩

theorem Operation.Precedes.later {a a' b b' : Operation} (h : a.Precedes b)
    (hfin : ∀ x, a.finish = some x → a'.finish = some x) (hb : b.Later b') : a'.Precedes b' := by
  obtain ⟨time, c, hx, hlt⟩ := h
  exact ⟨time, c, hfin _ hx, by rw [hb.start]; exact hlt⟩

section Update

variable (hI : Invariant N R s g) (ho : s.operations k = some o) (hl : o.Later o')
  (hfin : ∀ x, o.finish = some x → o'.finish = some x)
include hI ho hl hfin

/-- Request identifiers stay unique. -/
theorem Invariant.identifiers_update (k₁ : ℕ) (o₁ : Operation) (k₂ : ℕ) (o₂ : Operation)
    (h₁ : Function.update s.operations k (some o') k₁ = some o₁)
    (h₂ : Function.update s.operations k (some o') k₂ = some o₂)
    (hproc : o₁.process = o₂.process)
    (hreq : o₁.cmd.header.requestIdentifier = o₂.cmd.header.requestIdentifier) : k₁ = k₂ := by
  obtain ⟨a₁, ha₁, hl₁, -⟩ := update_source ho hl hfin h₁
  obtain ⟨a₂, ha₂, hl₂, -⟩ := update_source ho hl hfin h₂
  rw [hl₁.process, hl₂.process] at hproc
  rw [hl₁.cmd, hl₂.cmd] at hreq
  exact hI.identifiers k₁ a₁ k₂ a₂ ha₁ ha₂ hproc hreq

/-- The writes of a process on a sector stay in sequence. -/
theorem Invariant.exclusive_update (k₁ : ℕ) (o₁ : Operation) (k₂ : ℕ) (o₂ : Operation)
    (h₁ : Function.update s.operations k (some o') k₁ = some o₁)
    (h₂ : Function.update s.operations k (some o') k₂ = some o₂) (hne : k₁ ≠ k₂)
    (hproc : o₁.process = o₂.process) (hsec : o₁.sector = o₂.sector)
    (hw₁ : o₁.cmd.content ≠ .read) (hw₂ : o₂.cmd.content ≠ .read) :
    o₁.Precedes o₂ ∨ o₂.Precedes o₁ := by
  obtain ⟨a₁, ha₁, hl₁, hf₁⟩ := update_source ho hl hfin h₁
  obtain ⟨a₂, ha₂, hl₂, hf₂⟩ := update_source ho hl hfin h₂
  rw [hl₁.process, hl₂.process] at hproc
  rw [Operation.sector, Operation.sector, hl₁.cmd, hl₂.cmd] at hsec
  rw [hl₁.cmd] at hw₁
  rw [hl₂.cmd] at hw₂
  rcases hI.exclusive k₁ a₁ k₂ a₂ ha₁ ha₂ hne hproc hsec hw₁ hw₂ with h | h
  · exact .inl (h.later hf₁ hl₂)
  · exact .inr (h.later hf₂ hl₁)

end Update

/-- A handler that replaces operation `k` of its register and leaves the files alone. -/
theorem commit_localStep {g' : Ghost} (ho : s.operations k = some o) (hop : o.process = p)
    (hor : o.register = r) (hl : o.Later o')
    (hops : (s.commit N p r register e).operations = Function.update s.operations k (some o'))
    (hfiles : e.files = (s.processes p).files)
    (hsnap : g'.snap = g.snap)
    (hphase : ∀ q r' n x, g.phase q r' n = some x → g'.phase q r' n = some x)
    (hghost : ∀ q r', q ≠ p ∨ r' ≠ r → g'.cnt q r' = g.cnt q r' ∧ g'.phase q r' = g.phase q r') :
    LocalStep p r s g (s.commit N p r register e) g' where
  ext := by
    constructor
    · rw [hops]; exact update_later ho hl
    · intro q sec
      rw [commit_tagAt, hfiles]
      split
      · rename_i h; rw [h]; exact le_refl _
      · exact le_refl _
    · intro k o _; rw [hsnap]
    · exact hphase
    · intro h; exact h
    · intro q r'; exact le_refl _
    · exact le_refl _
    · exact Nat.le_succ _
  operations := by
    intro k₁ o₁ h₁ hne
    have hk : k₁ ≠ k := by
      rintro rfl
      rw [ho, Option.some.injEq] at h₁
      subst h₁
      rw [hop, hor] at hne
      simp at hne
    rw [hops, Function.update_of_ne hk]
    exact h₁
  process := fun q hq => commit_process_of_ne hq
  up := commit_up
  register := by
    intro r' hr'
    rw [commit_process_self]
    simp [hr']
  ghost := hghost

/-- A register that serves an operation has nothing pending, and its record is its state. -/
theorem Invariant.pending_none (hI : Invariant N R s g) (hp : IsProcess N p) (hr : r < R)
    (hup : (s.processes p).up = true)
    (hbusy : ¬ Idle ((s.processes p).registers r)) : (s.processes p).pending r = none := by
  cases hpend : (s.processes p).pending r with
  | none => rfl
  | some cmd => exact absurd ((hI.stable p r hp hr).recovered cmd hup hpend).1 hbusy

theorem not_idle_of_callback (hcb : register.callback = some k) : ¬ Idle register := by
  intro hidle
  rw [hidle.2.2] at hcb
  simp at hcb

/-- A record that has just been stored is in order. -/
theorem stableOk_of_stored {g' : Ghost} {s' : System} (hup : (s'.processes p).up = true)
    (hpending : (s'.processes p).pending r = none)
    (hrecord : (s'.processes p).record r = ((s'.processes p).registers r).state)
    (hid : ((s'.processes p).registers r).state.readIdent = UInt64.ofNat (g'.cnt p r)) :
    StableOk s' g' p r := by
  constructor
  · rw [hrecord]; exact hid
  · exact fun _ _ => hrecord
  · intro cmd _ hc
    rw [hpending] at hc
    simp at hc
  · rw [hup]
    simp

/-! ## Choosing a tag -/

section Choose

variable {t : Tag} {d : SectorVec}

/-- What the end of the read phase leaves in the register, and what the majority of
`Value`s says about the tag it has chosen. -/
structure Chosen (N : ℕ) (s : System) (g : Ghost) (p : UInt8) (r k : ℕ) (o : Operation)
    (register : AtomicRegisterImplementation) (t : Tag) (d : SectorVec) : Prop where
  selfIdent : register.selfIdent = p
  processesCount : register.processesCount = N
  callback : register.callback = some k
  readIdent : register.state.readIdent = UInt64.ofNat (g.cnt p r + 1)
  acks : register.acks = ∅
  serves : Serves register o.cmd
  readval : o.cmd.content = .read → register.readval = some ⟨o.cmd.header.requestIdentifier, d⟩
  majority : Majority (members N) N fun q => g.snap k q ≤ t ∧
    (o.cmd.content ≠ .read → g.snap k q < t)
  written : o.cmd.content = .read → s.Written o.sector t d
  own : ∀ data, o.cmd.content = .write data →
    d = data ∧ t.writeRank = p ∧ .zero < t ∧ t.timestamp.toNat ≤ s.writesBroadcast + 1

/-- The state after the handler that opens the write phase. -/
abbrev choseTag (N : ℕ) (s : System) (p : UInt8) (r : ℕ) (o : Operation)
    (register : AtomicRegisterImplementation) (t : Tag) (d : SectorVec) : System :=
  s.commit N p r register ⟨(s.processes p).files, some register.state,
    [register.phaseMessage o.msgIdent o.sector (.writeProc t.timestamp t.writeRank d)], [], []⟩

theorem choseTag_operations (hcb : ((s.processes p).registers r).callback = some k)
    (ho : s.operations k = some o) :
    (choseTag N s p r o register t d).operations =
      Function.update s.operations k (some { o with writeProc := some (t, d) }) := by
  funext k₁
  show recordHistory _ _ _ s.operations k₁ = _
  rw [recordHistory, hcb]
  by_cases hk : k₁ = k
  · subst hk
    rw [Function.update_self, ho]
    simp [writeProcOf, AtomicRegisterImplementation.phaseMessage]
  · rw [Function.update_of_ne hk]
    have hne : ¬ some k = some k₁ := by simpa using fun h : k = k₁ => hk h.symm
    cases s.operations k₁ <;> simp [hne]

/-- One more write has broadcast its `WriteProc`. -/
theorem choseTag_writesBroadcast (hcb : ((s.processes p).registers r).callback = some k)
    (ho : s.operations k = some o) (hlt : k < s.count) (hw : o.cmd.content ≠ .read)
    (hfresh : o.writeProc = none) :
    s.writesBroadcast + 1 ≤ (choseTag N s p r o register t d).writesBroadcast := by
  unfold System.writesBroadcast
  rw [choseTag_operations hcb ho, ← Finset.card_insert_of_notMem (a := k)]
  · refine Finset.card_le_card fun k₁ hk₁ => ?_
    rw [Finset.mem_insert] at hk₁
    by_cases hk : k₁ = k
    · subst hk
      rw [Finset.mem_filter, Function.update_self]
      exact ⟨Finset.mem_range.mpr hlt, by simpa using hw⟩
    · have hmem := hk₁.resolve_left hk
      rw [Finset.mem_filter] at hmem ⊢
      rw [Function.update_of_ne hk]
      exact hmem
  · rw [Finset.mem_filter, ho]
    simp [hfresh]

/-- The choice of a tag: the operation comes after everything answered before its issue. -/
theorem Invariant.choose (hI : Invariant N R s g) (hp : IsProcess N p) (hr : r < R)
    (hup : (s.processes p).up = true)
    (hcb : ((s.processes p).registers r).callback = some k) (ho : s.operations k = some o)
    (hop : o.process = p) (hor : o.register = r) (hin : o.InProgress)
    (hread : ReadPhase N s g p r ((s.processes p).registers r) k o)
    (hc : Chosen N s g p r k o register t d) :
    Invariant N R (choseTag N s p r o register t d) (g.opened p r k true) := by
  set o' : Operation := { o with writeProc := some (t, d) } with ho'
  have hlater : o.Later o' :=
    ⟨rfl, rfl, rfl, rfl, fun x hx => by rw [hread.fresh] at hx; simp at hx⟩
  have hph := hI.phases p r hp hr
  have hops : (choseTag N s p r o register t d).operations =
      Function.update s.operations k (some o') := choseTag_operations hcb ho
  have hl : LocalStep p r s g (choseTag N s p r o register t d) (g.opened p r k true) :=
    commit_localStep ho hop hor hlater hops rfl rfl
      (fun q r' n x h => opened_phase_of_some hph h) (fun q r' hne => opened_of_ne hne)
  have hok := hI.operations k o ho
  have hself : (choseTag N s p r o register t d).operations k = some o' := by
    rw [hops, Function.update_self]
  have hwritten : (choseTag N s p r o register t d).Written o.sector t d := by
    cases hcmd : o.cmd.content with
    | read => exact (hc.written hcmd).extend hl.ext
    | write data =>
      have hd := (hc.own data hcmd).1
      exact .inr ⟨k, o', hself, rfl, by rw [hd]; exact hcmd, rfl⟩
  -- a write answered before `k` was issued met one of the processes `k` has asked
  have hafter : ∀ k₁ o₁, s.operations k₁ = some o₁ → o₁.sector = o.sector → o₁.Precedes o →
      ∀ t₁ d₁, o₁.writeProc = some (t₁, d₁) → t₁ ≤ t ∧ (o.cmd.content ≠ .read → t₁ < t) := by
    intro k₁ o₁ h₁ hsec hprec t₁ d₁ hwp₁
    have hm := (hI.ordered k₁ o₁ k o h₁ ho hsec hprec t₁ d₁ hwp₁).1
    obtain ⟨q, -, hq₁, hq⟩ := hm.exists_common (card_members_le N) hc.majority
    exact ⟨hq₁.trans hq.1, fun hw => hq₁.trans_lt (hq.2 hw)⟩
  constructor
  · intro k₁ o₁ h₁
    rw [hops] at h₁
    rcases update_cases h₁ with ⟨rfl, rfl⟩ | ⟨-, h₁⟩
    · constructor
      · exact hok.lt_count
      · exact hok.process
      · exact hok.register
      · exact hok.start_le.trans (Nat.le_succ _)
      · intro q
        exact (hok.snap_le q).trans (hl.ext.tag q _)
      · exact hok.aborted
      · intro time c hfin
        rw [hin.1] at hfin
        simp at hfin
      · intro t' d' htd
        simp only [ho', Option.some.injEq, Prod.mk.injEq] at htd
        rw [← htd.1, ← htd.2]
        exact hwritten
      · intro t' d' data htd hdata
        simp only [ho', Option.some.injEq, Prod.mk.injEq] at htd
        rw [← htd.1, ← htd.2]
        obtain ⟨hd, hrank, hpos, hts⟩ := hc.own data hdata
        have hw : o.cmd.content ≠ .read := by
          rw [show o.cmd.content = _ from hdata]
          simp
        have hcount : s.writesBroadcast + 1 ≤
            (choseTag N s p r o register t d).writesBroadcast :=
          choseTag_writesBroadcast hcb ho hok.lt_count hw hread.fresh
        exact ⟨hd, hrank.trans hop.symm, hpos, hts.trans hcount⟩
      · intro time c hfin
        rw [hin.1] at hfin
        simp at hfin
    · exact (hI.operations k₁ o₁ h₁).extend hl.ext h₁ (.refl o₁) rfl rfl
        (hI.operations k₁ o₁ h₁).aborted
  · rw [hops]; exact hI.identifiers_update ho hlater fun x hx => hx
  · rw [hops]; exact hI.exclusive_update ho hlater fun x hx => hx
  · intro k₁ o₁ k₂ o₂ h₁ h₂ hsec hprec t₁ d₁ hwp₁
    rw [hops] at h₁ h₂
    rcases update_cases h₁ with ⟨-, rfl⟩ | ⟨-, ha₁⟩
    · obtain ⟨time, c, hfin, -⟩ := hprec
      rw [hin.1] at hfin
      simp at hfin
    · rcases update_cases h₂ with ⟨rfl, rfl⟩ | ⟨-, ha₂⟩
      · refine ⟨(hI.ordered k₁ o₁ _ o ha₁ ho hsec hprec t₁ d₁ hwp₁).1, fun t₂ d₂ htd => ?_⟩
        simp only [ho', Option.some.injEq, Prod.mk.injEq] at htd
        rw [← htd.1]
        exact hafter k₁ o₁ ha₁ hsec hprec t₁ d₁ hwp₁
      · exact hI.ordered k₁ o₁ k₂ o₂ ha₁ ha₂ hsec hprec t₁ d₁ hwp₁
  · intro packet hpacket
    rw [commit_net, List.mem_append, List.mem_append] at hpacket
    rcases hpacket with (hpacket | hpacket) | hpacket
    · exact (hI.packets packet hpacket).extend hl.ext
    · simp at hpacket
    · rw [List.flatMap_singleton] at hpacket
      obtain ⟨h1, hN, hcmd⟩ := mem_toAll hpacket
      refine ⟨h1, hN, k, o', g.cnt p r + 1, hself, ?_, ?_, ?_, ?_, ?_⟩
      · rw [hcmd]; rfl
      · rw [hcmd]; rfl
      · rw [hcmd]; exact hc.readIdent
      · rw [show o'.process = p from hop, show o'.register = r from hor, opened_phase, if_pos rfl,
          hcmd]
        rfl
      · rw [Promise, hcmd]
        exact ⟨hc.selfIdent.trans hop.symm, rfl⟩
  · refine hl.files hI fun sec => ?_
    rw [commit_tagAt, if_pos rfl, commit_process_self]
    exact (hI.files p sec).extend hl.ext
  · refine hl.registers hI fun _ _ _ => ?_
    rw [commit_registers]
    refine ⟨hc.selfIdent, hc.processesCount, by rw [opened_cnt]; exact hc.readIdent, .inr ?_⟩
    refine ⟨k, o', hc.callback, hself, hop, hor, hin, hc.serves, .inr ⟨?_, ?_, ?_⟩⟩
    · rw [opened_cnt, opened_phase, if_pos rfl]
    · refine ⟨t, d, rfl, fun q hq => ?_, hc.readval⟩
      rw [hc.acks] at hq
      simp at hq
    · intro hrestarts n b hn
      rw [opened_phase] at hn
      rw [opened_cnt]
      split at hn
      · omega
      · have := hread.only hrestarts n b hn
        omega
  · refine hl.stable hI fun _ _ => stableOk_of_stored ?_ ?_ ?_ ?_
    · rw [commit_up]; exact hup
    · rw [commit_pending]; exact hI.pending_none hp hr hup (not_idle_of_callback hcb)
    · rw [commit_record, commit_registers, Option.getD_some]
    · rw [commit_registers, opened_cnt]; exact hc.readIdent
  · exact hl.phases hI fun _ _ => opened_phaseOk hph hl.ext.operation ho hop hor hread.room

end Choose

/-! ## Completing -/

section Complete

variable {stable : Option AtomicRegisterStorageState} {c : OperationComplete}

/-- The state after the handler that completes operation `k`. -/
abbrev completed (N : ℕ) (s : System) (p : UInt8) (r k : ℕ)
    (register : AtomicRegisterImplementation) (stable : Option AtomicRegisterStorageState)
    (c : OperationComplete) : System :=
  s.commit N p r register ⟨(s.processes p).files, stable, [], [], [(k, c)]⟩

theorem completed_operations (ho : s.operations k = some o) :
    (completed N s p r k register stable c).operations =
      Function.update s.operations k (some { o with finish := some (s.clock, c) }) := by
  funext k₁
  show recordHistory _ _ _ s.operations k₁ = _
  rw [recordHistory]
  by_cases hk : k₁ = k
  · subst hk
    rw [Function.update_self, ho]
    simp
  · rw [Function.update_of_ne hk]
    have hne : (k₁ == k) = false := by simpa using hk
    cases s.operations k₁ <;> simp [List.lookup_cons, hne]

/-- The answer to an operation: from now on a majority holds its tag. -/
theorem Invariant.complete (hI : Invariant N R s g) (hp : IsProcess N p) (hr : r < R)
    (hup : (s.processes p).up = true)
    (hcb : ((s.processes p).registers r).callback = some k) (ho : s.operations k = some o)
    (hop : o.process = p) (hor : o.register = r) (hin : o.InProgress)
    {t : Tag} {d : SectorVec} (hwp : o.writeProc = some (t, d)) (hheld : Held N s o.sector t)
    (hret : o.cmd.content = .read → c.opReturn = .read ⟨some d⟩)
    (hself : register.selfIdent = p) (hcount : register.processesCount = N)
    (hid : register.state.readIdent = UInt64.ofNat (g.cnt p r)) (hidle : Idle register)
    (hstable : stable.getD .empty = register.state) :
    Invariant N R (completed N s p r k register stable c) g := by
  set o' : Operation := { o with finish := some (s.clock, c) } with ho'
  have hlater : o.Later o' := ⟨rfl, rfl, rfl, rfl, fun x hx => hx⟩
  have hfin : ∀ x, o.finish = some x → o'.finish = some x := fun x hx => by
    rw [hin.1] at hx; simp at hx
  have hops : (completed N s p r k register stable c).operations =
      Function.update s.operations k (some o') := completed_operations ho
  have hl : LocalStep p r s g (completed N s p r k register stable c) g :=
    commit_localStep ho hop hor hlater hops rfl rfl (fun q r' n x h => h)
      (fun q r' hne => ⟨rfl, rfl⟩)
  have hok := hI.operations k o ho
  constructor
  · intro k₁ o₁ h₁
    rw [hops] at h₁
    -- of the operations only the answered one is new, and only its `finish`
    rcases update_cases h₁ with ⟨rfl, rfl⟩ | ⟨-, h₁⟩
    · constructor
      · exact hok.lt_count
      · exact hok.process
      · exact hok.register
      · exact hok.start_le.trans (Nat.le_succ _)
      · intro q
        exact (hok.snap_le q).trans (hl.ext.tag q _)
      · exact hok.aborted
      · intro time c' hc'
        simp only [ho', Option.some.injEq, Prod.mk.injEq] at hc'
        rw [← hc'.1]
        exact ⟨hok.start_le, Nat.lt_succ_self _⟩
      · intro t' d' htd
        exact (hok.written t' d' htd).extend hl.ext
      · intro t' d' data htd hdata
        obtain ⟨hd, hrank, hpos, hts⟩ := hok.own t' d' data htd hdata
        exact ⟨hd, hrank, hpos, hts.trans hl.ext.writesBroadcast_le⟩
      · intro time c' hc'
        simp only [ho', Option.some.injEq, Prod.mk.injEq] at hc'
        rw [← hc'.2]
        exact ⟨t, d, hwp, hheld.extend hl.ext, hret⟩
    · exact (hI.operations k₁ o₁ h₁).extend hl.ext h₁ (.refl o₁) rfl rfl
        (hI.operations k₁ o₁ h₁).aborted
  · rw [hops]; exact hI.identifiers_update ho hlater hfin
  · rw [hops]; exact hI.exclusive_update ho hlater hfin
  · intro k₁ o₁ k₂ o₂ h₁ h₂ hsec hprec t₁ d₁ hwp₁
    rw [hops] at h₁ h₂
    obtain ⟨a₂, ha₂, hl₂, -⟩ := update_source ho hlater hfin h₂
    have hstart := (hI.operations k₂ a₂ ha₂).start_le
    rcases update_cases h₁ with ⟨-, rfl⟩ | ⟨-, ha₁⟩
    · -- nothing has been issued after this answer
      obtain ⟨time, c', hc', hlt⟩ := hprec
      simp only [ho', Option.some.injEq, Prod.mk.injEq] at hc'
      rw [hl₂.start] at hlt
      omega
    · rcases update_cases h₂ with ⟨rfl, rfl⟩ | ⟨-, h₂'⟩
      · exact hI.ordered k₁ o₁ _ o ha₁ ho hsec hprec t₁ d₁ hwp₁
      · exact hI.ordered k₁ o₁ k₂ o₂ ha₁ h₂' hsec hprec t₁ d₁ hwp₁
  · intro packet hpacket
    rw [commit_net, List.flatMap_nil, List.append_nil, List.append_nil] at hpacket
    exact (hI.packets packet hpacket).extend hl.ext
  · refine hl.files hI fun sec => ?_
    rw [commit_tagAt, if_pos rfl, commit_process_self]
    exact (hI.files p sec).extend hl.ext
  · refine hl.registers hI fun _ _ _ => ?_
    rw [commit_registers]
    exact ⟨hself, hcount, hid, .inl hidle⟩
  · -- a register that was busy has no recovered command left to start
    refine hl.stable hI fun _ _ => stableOk_of_stored ?_ ?_ ?_ ?_
    · rw [commit_up]; exact hup
    · rw [commit_pending]; exact hI.pending_none hp hr hup (not_idle_of_callback hcb)
    · rw [commit_record, commit_registers]; exact hstable
    · rw [commit_registers]; exact hid
  · exact hl.phases hI fun _ _ => (hI.phases p r hp hr).extend hl.ext rfl rfl

end Complete

end Protocol
end AtomicDiscDrive
