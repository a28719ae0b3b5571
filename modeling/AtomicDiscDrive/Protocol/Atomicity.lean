import AtomicDiscDrive.Protocol.Steps

/-!
# Atomicity

What the clients of the system see. Without restarts, the tags the registers choose order
all operations on a sector (`AtomicTags`), so the history of every sector is linearizable.

With restarts this holds as long as no process is restarted in the middle of the write
phase of a write: `new` returns such a write as if it had not started, the register
chooses a second tag for it, and the write takes effect twice.
-/

namespace AtomicDiscDrive
namespace Protocol

open Utils

variable {N R : ℕ} {s : System} {g : Ghost}

/-! ## What clients see -/

/-- The data a completed operation returned. -/
def Operation.result (o : Operation) : Option SectorVec :=
  match o.finish with
  | some (_, ⟨_, _, .read ret⟩) => ret.readData
  | _ => none

/-- The data an operation writes. -/
def Operation.writes (o : Operation) : Option SectorVec :=
  match o.cmd.content with
  | .read => none
  | .write data => some data

/-- The history of the operations on one sector. -/
def System.history (s : System) (sec : SectorIdx) : History ℕ SectorVec where
  ops := (Finset.range s.count).filter fun k => (s.operations k).any fun o => o.sector = sec
  write k := (s.operations k).bind Operation.writes
  start k := ((s.operations k).map Operation.start).getD 0
  finish k := (s.operations k).bind fun o => o.finish.map Prod.fst
  result k := (s.operations k).bind Operation.result

/-- The tag of the last `WriteProc` an operation has broadcast. -/
def System.tagOf (s : System) (k : ℕ) : Tag :=
  (((s.operations k).bind Operation.writeProc).map Prod.fst).getD .zero

/-- The operations that have a tag: those answered, and the writes that have broadcast a
`WriteProc`. -/
def Operation.Tagged (o : Operation) : Prop :=
  o.finish ≠ none ∨ o.cmd.content ≠ .read ∧ o.writeProc ≠ none

/-- Tags that explain a run, sector by sector. -/
structure AtomicTags (s : System) (tag : ℕ → Tag) : Prop where
  pos : ∀ k o, s.operations k = some o → o.Tagged → o.cmd.content ≠ .read → .zero < tag k
  distinct : ∀ k₁ o₁ k₂ o₂, s.operations k₁ = some o₁ → s.operations k₂ = some o₂ →
    o₁.Tagged → o₂.Tagged → o₁.cmd.content ≠ .read → o₂.cmd.content ≠ .read →
    o₁.sector = o₂.sector → tag k₁ = tag k₂ → k₁ = k₂
  read : ∀ k o, s.operations k = some o → o.cmd.content = .read → o.finish ≠ none →
    tag k = .zero ∧ o.result = some .new ∨
    ∃ k' o' d, s.operations k' = some o' ∧ o'.sector = o.sector ∧ o'.Tagged ∧
      o'.cmd.content = .write d ∧ tag k' = tag k ∧ o.result = some d
  real_time : ∀ k₁ o₁ k₂ o₂, s.operations k₁ = some o₁ → s.operations k₂ = some o₂ →
    o₁.Tagged → o₂.Tagged → o₁.sector = o₂.sector → o₁.Precedes o₂ →
    tag k₁ ≤ tag k₂ ∧ (o₂.cmd.content ≠ .read → tag k₁ < tag k₂)

/-! ## Tags from the invariant -/

theorem tagOf_eq {k : ℕ} {o : Operation} {t : Tag} {d : SectorVec}
    (ho : s.operations k = some o) (hwp : o.writeProc = some (t, d)) : s.tagOf k = t := by
  simp [System.tagOf, ho, hwp]

theorem Invariant.writeProc_of_tagged (hI : Invariant N R s g) {k : ℕ} {o : Operation}
    (ho : s.operations k = some o) (h : o.Tagged) :
    ∃ t d, o.writeProc = some (t, d) ∧ s.tagOf k = t := by
  have hwp : ∃ t d, o.writeProc = some (t, d) := by
    rcases h with h | ⟨-, h⟩
    · obtain ⟨x, hx⟩ := Option.ne_none_iff_exists'.mp h
      obtain ⟨t, d, hwp, -⟩ := (hI.operations k o ho).held x.1 x.2 hx
      exact ⟨t, d, hwp⟩
    · obtain ⟨x, hx⟩ := Option.ne_none_iff_exists'.mp h
      exact ⟨x.1, x.2, hx⟩
  obtain ⟨t, d, hwp⟩ := hwp
  exact ⟨t, d, hwp, tagOf_eq ho hwp⟩

theorem content_cases (cmd : ClientRegisterCommand) :
    cmd.content = .read ∨ ∃ data, cmd.content = .write data := by
  cases cmd.content with
  | read => exact .inl rfl
  | write data => exact .inr ⟨data, rfl⟩

/-- The tags that were broadcast explain the run. -/
theorem Invariant.atomicTags (hI : Invariant N R s g) : AtomicTags s s.tagOf where
  pos := by
    intro k o ho htagged hw
    obtain ⟨t, d, hwp, htag⟩ := hI.writeProc_of_tagged ho htagged
    obtain ⟨data, hdata⟩ := (content_cases o.cmd).resolve_left hw
    rw [htag]
    exact ((hI.operations k o ho).own t d data hwp hdata).2.2.1
  distinct := by
    intro k₁ o₁ k₂ o₂ ho₁ ho₂ ht₁ ht₂ hw₁ hw₂ hsec htag
    obtain ⟨t₁, d₁, hwp₁, htag₁⟩ := hI.writeProc_of_tagged ho₁ ht₁
    obtain ⟨t₂, d₂, hwp₂, htag₂⟩ := hI.writeProc_of_tagged ho₂ ht₂
    obtain ⟨data₁, hdata₁⟩ := (content_cases o₁.cmd).resolve_left hw₁
    obtain ⟨data₂, hdata₂⟩ := (content_cases o₂.cmd).resolve_left hw₂
    rw [htag₁, htag₂] at htag
    subst htag
    -- equal ranks: two writes of one process on one sector, which are never concurrent
    have hproc : o₁.process = o₂.process := by
      rw [← ((hI.operations k₁ o₁ ho₁).own t₁ d₁ data₁ hwp₁ hdata₁).2.1,
        ← ((hI.operations k₂ o₂ ho₂).own t₁ d₂ data₂ hwp₂ hdata₂).2.1]
    by_contra hne
    rcases hI.exclusive k₁ o₁ k₂ o₂ ho₁ ho₂ hne hproc hsec hw₁ hw₂ with h | h
    · exact lt_irrefl _
        (((hI.ordered k₁ o₁ k₂ o₂ ho₁ ho₂ hsec h t₁ d₁ hwp₁).2 t₁ d₂ hwp₂).2 hw₂)
    · exact lt_irrefl _
        (((hI.ordered k₂ o₂ k₁ o₁ ho₂ ho₁ hsec.symm h t₁ d₂ hwp₂).2 t₁ d₁ hwp₁).2 hw₁)
  read := by
    intro k o ho hread hfin
    obtain ⟨x, hx⟩ := Option.ne_none_iff_exists'.mp hfin
    obtain ⟨t, d, hwp, -, hret⟩ := (hI.operations k o ho).held x.1 x.2 hx
    have hres : o.result = some d := by
      have := hret hread
      obtain ⟨time, status, id, opReturn⟩ := x
      simp only at this
      simp [Operation.result, hx, this]
    rw [tagOf_eq ho hwp]
    rcases (hI.operations k o ho).written t d hwp with ⟨ht, hd⟩ | ⟨k', o', ho', hsec, hcmd, hwp'⟩
    · exact .inl ⟨ht, by rw [hres, hd]⟩
    · refine .inr ⟨k', o', d, ho', hsec, .inr ⟨?_, ?_⟩, hcmd, tagOf_eq ho' hwp', hres⟩
      · rw [hcmd]; simp
      · rw [hwp']; simp
  real_time := by
    intro k₁ o₁ k₂ o₂ ho₁ ho₂ ht₁ ht₂ hsec hprec
    obtain ⟨t₁, d₁, hwp₁, htag₁⟩ := hI.writeProc_of_tagged ho₁ ht₁
    obtain ⟨t₂, d₂, hwp₂, htag₂⟩ := hI.writeProc_of_tagged ho₂ ht₂
    rw [htag₁, htag₂]
    exact (hI.ordered k₁ o₁ k₂ o₂ ho₁ ho₂ hsec hprec t₁ d₁ hwp₁).2 t₂ d₂ hwp₂

/-! ## From tags to the history of a sector -/

theorem mem_history {sec : SectorIdx} {k : ℕ} :
    k ∈ (s.history sec).ops ↔
      k < s.count ∧ ∃ o, s.operations k = some o ∧ o.sector = sec := by
  simp only [System.history, Finset.mem_filter, Finset.mem_range, Option.any_eq_true,
    decide_eq_true_eq]

theorem history_write {sec : SectorIdx} {k : ℕ} {o : Operation} (ho : s.operations k = some o) :
    (s.history sec).write k = none ↔ o.cmd.content = .read := by
  simp only [System.history, ho, Option.bind_some, Operation.writes]
  cases o.cmd.content <;> simp

theorem history_finish {sec : SectorIdx} {k : ℕ} {o : Operation} (ho : s.operations k = some o) :
    (s.history sec).finish k = none ↔ o.finish = none := by
  simp [System.history, ho]

theorem history_precedes {sec : SectorIdx} {k₁ k₂ : ℕ} {o₁ o₂ : Operation}
    (ho₁ : s.operations k₁ = some o₁) (ho₂ : s.operations k₂ = some o₂)
    (h : (s.history sec).Precedes k₁ k₂) : o₁.Precedes o₂ := by
  obtain ⟨t, ht, hlt⟩ := h
  simp only [System.history, ho₁, ho₂, Option.bind_some, Option.map_some, Option.getD_some,
    Option.map_eq_some_iff] at ht hlt
  obtain ⟨x, hx, rfl⟩ := ht
  exact ⟨x.1, x.2, hx, hlt⟩

/-- The operations on a sector that have a tag. -/
noncomputable def taggedOn (s : System) (sec : SectorIdx) : Finset ℕ :=
  open Classical in (s.history sec).ops.filter fun k => ∃ o, s.operations k = some o ∧ o.Tagged

theorem mem_taggedOn {sec : SectorIdx} {k : ℕ} :
    k ∈ taggedOn s sec ↔ k ∈ (s.history sec).ops ∧ ∃ o, s.operations k = some o ∧ o.Tagged := by
  simp [taggedOn]

theorem Invariant.tagging (hI : Invariant N R s g) (sec : SectorIdx) :
    (s.history sec).Tagging .new .zero (taggedOn s sec) s.tagOf := by
  have hT := hI.atomicTags
  have hmem : ∀ k, k ∈ taggedOn s sec → ∃ o, s.operations k = some o ∧ o.sector = sec ∧
      o.Tagged := by
    intro k hk
    rw [mem_taggedOn, mem_history] at hk
    obtain ⟨⟨-, o, ho, hsec⟩, o', ho', htagged⟩ := hk
    have hoo : o' = o := Option.some.inj (ho'.symm.trans ho)
    exact ⟨o, ho, hsec, hoo ▸ htagged⟩
  constructor
  · intro k hk
    exact (mem_taggedOn.mp hk).1
  · intro k hk hfin
    obtain ⟨-, o, ho, -⟩ := mem_history.mp hk
    rw [ne_eq, history_finish ho] at hfin
    exact mem_taggedOn.mpr ⟨hk, o, ho, .inl hfin⟩
  · intro w hw hwrite
    obtain ⟨o, ho, -, htagged⟩ := hmem w hw
    rw [ne_eq, history_write ho] at hwrite
    exact hT.pos w o ho htagged hwrite
  · intro v hv w hw hvw hww htag
    obtain ⟨o₁, ho₁, hs₁, ht₁⟩ := hmem v hv
    obtain ⟨o₂, ho₂, hs₂, ht₂⟩ := hmem w hw
    rw [ne_eq, history_write ho₁] at hvw
    rw [ne_eq, history_write ho₂] at hww
    exact hT.distinct v o₁ w o₂ ho₁ ho₂ ht₁ ht₂ hvw hww (hs₁.trans hs₂.symm) htag
  · intro a ha hread hfin
    obtain ⟨o, ho, hsec, -⟩ := hmem a ha
    rw [history_write ho] at hread
    rw [ne_eq, history_finish ho] at hfin
    have hres : (s.history sec).result a = o.result := by simp [System.history, ho]
    rw [hres]
    -- a read returns the initial value, or that of the write with its tag
    rcases hT.read a o ho hread hfin with h | ⟨w, o', d, ho', hsec', htagged, hcmd, htag, hd⟩
    · exact .inl h
    · have hw : w ∈ (s.history sec).ops :=
        mem_history.mpr ⟨(hI.operations w o' ho').lt_count, o', ho', hsec'.trans hsec⟩
      have hwrite : (s.history sec).write w = some d := by
        simp [System.history, ho', Operation.writes, hcmd]
      refine .inr ⟨w, mem_taggedOn.mpr ⟨hw, o', ho', htagged⟩, htag, ?_, ?_⟩
      · rw [hwrite]; simp
      · rw [hwrite]; exact hd
  · intro a ha b hb hprec
    obtain ⟨o₁, ho₁, hs₁, ht₁⟩ := hmem a ha
    obtain ⟨o₂, ho₂, hs₂, ht₂⟩ := hmem b hb
    rw [ne_eq, history_write ho₂]
    exact hT.real_time a o₁ b o₂ ho₁ ho₂ ht₁ ht₂ (hs₁.trans hs₂.symm)
      (history_precedes ho₁ ho₂ hprec)
  · intro a ha t ht
    obtain ⟨o, ho, -, -⟩ := hmem a ha
    simp only [System.history, ho, Option.bind_some, Option.map_some, Option.getD_some,
      Option.map_eq_some_iff] at ht ⊢
    obtain ⟨x, hx, rfl⟩ := ht
    exact ((hI.operations a o ho).finish_lt x.1 x.2 hx).1

/-! ## Runs that can be played -/

instance (s : System) (packet : Packet) (r : ℕ) : Decidable (Handled s packet r) := by
  dsimp only [Handled]; infer_instance

set_option synthInstance.maxSize 1000 in
instance (N R : ℕ) (s : System) (a : Action) : Decidable (Environment N R s a) := by
  cases a <;> dsimp only [Environment] <;> infer_instance

instance (s : System) (a : Action) : Decidable (CleanRestart s a) := by
  cases a <;> dsimp only [CleanRestart] <;> infer_instance

/-- Packets handled by register 0 of their targets, one after the other. -/
def delivered (packets : List ℕ) : List Action := packets.map fun i => .deliver i 0 .listed

/-! ## Without restarts -/

/-- Processes may stop, but none comes back. -/
def WithoutRestart (N R : ℕ) (s : System) (a : Action) : Prop :=
  Environment N R s a ∧
    match a with
    | .recover _ | .reissue _ _ _ => False
    | _ => True

instance (N R : ℕ) (s : System) (a : Action) : Decidable (WithoutRestart N R s a) := by
  cases a <;> dsimp only [WithoutRestart] <;> infer_instance

theorem WithoutRestart.allowed {a : Action} (h : WithoutRestart N R s a) : Allowed N R s a := by
  refine ⟨h.1, ?_⟩
  cases a with
  | recover p => exact absurd h.2 id
  | _ => trivial

/-- **Atomicity.** In every run without restarts, the tags that are broadcast order the
operations on each sector, and the history of each sector is linearizable. -/
theorem register_atomicity
    (hs : Reachable (System.step N R) (WithoutRestart N R) (System.init N) s)
    (hwrites : s.writesIssued < 2 ^ 64 - 1) :
    (∃ tag : ℕ → Tag, AtomicTags s tag ∧ ∀ k o t d, s.operations k = some o →
      o.writeProc = some (t, d) → tag k = t) ∧
    ∀ sec, (s.history sec).Linearizable .new := by
  obtain ⟨g, hI⟩ := exists_invariant (hs.mono fun _ _ h => h.allowed) hwrites
  refine ⟨⟨s.tagOf, hI.atomicTags, fun k o t d ho hwp => tagOf_eq ho hwp⟩, fun sec => ?_⟩
  exact History.linearizable_of_tags (hI.tagging sec)

/-- One operation of three processes, carried out by the processes `a` and `b`: its packets
are numbered from `n` on. -/
def carriedOut (a b n : ℕ) : List Action :=
  delivered [n + a - 1, n + b - 1, n + 3, n + 4, n + 5 + (a - 1), n + 5 + (b - 1), n + 8, n + 9]

/-- Process 1 writes sector 3 with the help of process 2. Then process 3 reads it, with the help
of process 2. -/
def writeThenRead : List Action :=
  [.invoke 1 0 ⟨⟨7, 3⟩, .write (.fill 9)⟩] ++ carriedOut 1 2 0 ++
  [.invoke 3 0 ⟨⟨8, 3⟩, .read⟩] ++ carriedOut 2 3 10

set_option maxRecDepth 100000 in
theorem register_atomicity_write_read :
    ∃ s, Reachable (System.step 3 1) (WithoutRestart 3 1) (System.init 3) s ∧
      ((s.history 3).result 1 = some (.fill 9)) ∧ (s.history 3).Linearizable .new := by
  obtain ⟨s, hs, hwrites, hres⟩ : ∃ s,
      Reachable (System.step 3 1) (WithoutRestart 3 1) (System.init 3) s ∧
      s.writesIssued < 2 ^ 64 - 1 ∧ (s.history 3).result 1 = some (.fill 9) :=
    exists_of_exec writeThenRead (by decide +kernel)
  exact ⟨s, hs, hres, (register_atomicity hs hwrites).2 3⟩

/-! ## With restarts -/

/-- **Restarts.** If no process is restarted between the `WriteProc` of one of its writes
and its completion, the history of every sector is linearizable, and no value comes back
after another one has been read. -/
theorem linearizable_of_cleanRestart
    (hs : Reachable (System.step N R) (Allowed N R) (System.init N) s)
    (hwrites : s.writesIssued < 2 ^ 64 - 1) (sec : SectorIdx) :
    (s.history sec).Linearizable .new ∧ ¬ (s.history sec).FlipFlop .new := by
  obtain ⟨g, hI⟩ := exists_invariant hs hwrites
  have hlin := History.linearizable_of_tags (hI.tagging sec)
  exact ⟨hlin, hlin.not_flipFlop⟩

/-- A process crashes in the read phase of a write, and completes it after a restart. -/
def crashInReadPhase : List Action :=
  [.invoke 1 0 ⟨⟨7, 0⟩, .write (.fill 9)⟩, .crash 1, .recover 1, .reissue 1 0 0] ++
  carriedOut 1 2 3

instance (N R : ℕ) (s : System) (a : Action) : Decidable (Allowed N R s a) := by
  unfold Allowed; infer_instance

set_option maxRecDepth 100000 in
theorem linearizable_of_cleanRestart_write :
    ∃ s, Reachable (System.step 3 1) (Allowed 3 1) (System.init 3) s ∧ s.restarts = 1 ∧
      (s.history 0).finish 0 ≠ none ∧ (s.history 0).Linearizable .new := by
  obtain ⟨s, hs, hwrites, hrestarts, hfin⟩ : ∃ s,
      Reachable (System.step 3 1) (Allowed 3 1) (System.init 3) s ∧
      s.writesIssued < 2 ^ 64 - 1 ∧ s.restarts = 1 ∧ (s.history 0).finish 0 ≠ none :=
    exists_of_exec crashInReadPhase (by decide +kernel)
  exact ⟨s, hs, hrestarts, hfin, (linearizable_of_cleanRestart hs hwrites 0).1⟩

/-- Process 1 crashes in the write phase of a write of `1`, whose `WriteProc` has reached
process 2 only. Process 3 reads `1`; process 2 writes `2`; process 3 reads `2`. Then
process 1 is restarted, repeats its write with a larger timestamp, and process 3 reads `1`
again. -/
def crashInWritePhase : List Action :=
  [.invoke 1 0 ⟨⟨1, 0⟩, .write (.fill 1)⟩] ++ delivered [0, 1, 3, 4, 6] ++ [.crash 1] ++
  [.invoke 3 0 ⟨⟨1, 0⟩, .read⟩] ++ carriedOut 2 3 9 ++
  [.invoke 2 0 ⟨⟨1, 0⟩, .write (.fill 2)⟩] ++ carriedOut 2 3 19 ++
  [.invoke 3 0 ⟨⟨2, 0⟩, .read⟩] ++ carriedOut 2 3 29 ++
  [.recover 1, .reissue 1 0 0] ++ carriedOut 1 2 39 ++
  [.invoke 3 0 ⟨⟨3, 0⟩, .read⟩] ++ carriedOut 2 3 49

set_option maxRecDepth 100000 in
/-- A write interrupted in its write phase takes effect twice. -/
theorem flipFlop_after_restart :
    ∃ s, Reachable (System.step 3 1) (Environment 3 1) (System.init 3) s ∧
      s.writesIssued < 2 ^ 64 - 1 ∧ (s.history 0).FlipFlop .new ∧
      ¬ (s.history 0).Linearizable .new := by
  obtain ⟨s, hs, hwrites, hflip⟩ : ∃ s,
      Reachable (System.step 3 1) (Environment 3 1) (System.init 3) s ∧
      s.writesIssued < 2 ^ 64 - 1 ∧
      let H := s.history 0
      (1 ∈ H.ops ∧ 3 ∈ H.ops ∧ 4 ∈ H.ops ∧ 0 ∈ H.ops ∧ 2 ∈ H.ops) ∧
      (H.write 1 = none ∧ H.write 3 = none ∧ H.write 4 = none) ∧
      (H.write 0 = some (.fill 1) ∧ ∀ w ∈ H.ops, H.write w = some (.fill 1) → w = 0) ∧
      (H.write 2 = some (.fill 2) ∧ ∀ w ∈ H.ops, H.write w = some (.fill 2) → w = 2) ∧
      SectorVec.fill 1 ≠ .fill 2 ∧ SectorVec.fill 1 ≠ .new ∧ H.Precedes 1 3 ∧
      H.Precedes 3 4 ∧ H.finish 4 ≠ none ∧
      H.result 1 = some (.fill 1) ∧ H.result 3 = some (.fill 2) ∧ H.result 4 = some (.fill 1) :=
    exists_of_exec crashInWritePhase (by decide +kernel)
  have hff : (s.history 0).FlipFlop .new := ⟨1, 3, 4, 0, 2, .fill 1, .fill 2, hflip⟩
  exact ⟨s, hs, hwrites, hff, fun hlin => hlin.not_flipFlop hff⟩

end Protocol
end AtomicDiscDrive
