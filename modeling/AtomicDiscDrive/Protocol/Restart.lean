import AtomicDiscDrive.Protocol.Quorums

/-!
# Crashes and restarts

A crash forgets the registers of a process and gives up its reads. What remains of a write
is the record in stable storage, and `new` gives it back; the record is then the only
trace of the write at its process until the command has been re-issued.
-/

namespace AtomicDiscDrive
namespace Protocol

open Utils

variable {N R : ℕ} {s : System} {g : Ghost} {p : UInt8} {r : ℕ}

/-! ## Crash -/

theorem abortReads_cases {operations : ℕ → Option Operation} {k : ℕ} {o' : Operation}
    (h : abortReads p operations k = some o') :
    ∃ o, operations k = some o ∧ o.Later o' ∧ o'.writeProc = o.writeProc ∧
      o'.finish = o.finish ∧ (o'.aborted = true → o.aborted = true ∨ o.cmd.content = .read) := by
  rw [abortReads, Option.map_eq_some_iff] at h
  obtain ⟨o, ho, rfl⟩ := h
  refine ⟨o, ho, ?_⟩
  split
  · rename_i hread
    exact ⟨⟨rfl, rfl, rfl, rfl, fun _ h => h⟩, rfl, rfl, fun _ => .inr hread.2.2⟩
  · exact ⟨.refl o, rfl, rfl, .inl⟩

/-- Writes, and the operations of other processes, are not given up. -/
theorem abortReads_same {operations : ℕ → Option Operation} {k : ℕ} {o : Operation}
    (ho : operations k = some o) (h : o.process ≠ p ∨ o.cmd.content ≠ .read) :
    abortReads p operations k = some o := by
  rw [abortReads, ho, Option.map_some, if_neg]
  rintro ⟨hp, -, hread⟩
  rcases h with h | h
  · exact h hp
  · exact h hread

theorem abortReads_later {operations : ℕ → Option Operation} {k : ℕ} {o : Operation}
    (ho : operations k = some o) : ∃ o', abortReads p operations k = some o' ∧ o.Later o' := by
  rw [abortReads, ho, Option.map_some]
  refine ⟨_, rfl, ?_⟩
  split
  · exact ⟨rfl, rfl, rfl, rfl, fun _ h => h⟩
  · exact .refl o

/-- The state after process `p` has crashed. -/
abbrev crashed (s : System) (p : UInt8) : System :=
  { s with
    processes := Function.update s.processes p { s.processes p with up := false }
    operations := abortReads p s.operations
    clock := s.clock + 1 }

theorem crashed_process_of_ne {q : UInt8} (h : q ≠ p) :
    (crashed s p).processes q = s.processes q := by
  simp [h]

theorem crashed_tagAt (q : UInt8) (sec : SectorIdx) :
    (crashed s p).tagAt q sec = s.tagAt q sec := by
  unfold System.tagAt
  by_cases h : q = p
  · subst h; simp
  · rw [crashed_process_of_ne h]

theorem crashed_extends : Extends s g (crashed s p) g := by
  constructor
  · intro k o ho; exact abortReads_later ho
  · intro q sec; rw [crashed_tagAt]
  · intro k o _; rfl
  · intro q r n x h; exact h
  · intro h; exact h
  · intro q r; exact le_refl _
  · exact le_refl _
  · exact Nat.le_succ _

/-- The record of a register that was serving a write names this write. -/
theorem Invariant.record_of_writing (hI : Invariant N R s g) (hp : IsProcess N p) (hr : r < R)
    (hup : (s.processes p).up = true) (hw : ((s.processes p).record r).writing = true) :
    ∃ h d, ((s.processes p).record r).writeval = some ⟨h, d⟩ ∧
      ∃ k o, InProgressOn s p r ⟨h, .write d⟩ k o := by
  have hst := hI.stable p r hp hr
  cases hpend : (s.processes p).pending r with
  | some cmd =>
    obtain ⟨-, -, ⟨k, o, hin, -⟩, d, hd, -, hval⟩ := hst.recovered cmd hup hpend
    refine ⟨cmd.header, d, hval, k, o, ?_⟩
    rw [← hd]
    exact hin
  | none =>
    have hrec := hst.served hup hpend
    rw [hrec] at hw ⊢
    rcases (hI.registers p r hp hr hup).serving with hidle | ⟨k, o, -, ho, hop, hor, hin, hserves, -⟩
    · rw [hidle.2.1] at hw
      simp at hw
    · unfold Serves at hserves
      cases hcmd : o.cmd.content with
      | read =>
        simp only [hcmd] at hserves
        rw [hserves.2.1] at hw
        simp at hw
      | write d =>
        simp only [hcmd] at hserves
        exact ⟨o.cmd.header, d, hserves.2.2, k, o, ho, hop, hor, by rw [← hcmd], hin⟩

theorem Invariant.crash (hI : Invariant N R s g) (hup : (s.processes p).up = true) :
    Invariant N R (crashed s p) g := by
  have hx := crashed_extends (s := s) (g := g) (p := p)
  constructor
  · -- a crash aborts the reads of the process, and changes nothing else about an operation
    intro k o' ho'
    obtain ⟨o, ho, hl, hwp, hfin, hab⟩ := abortReads_cases ho'
    refine (hI.operations k o ho).extend hx ho hl hwp hfin fun h => ?_
    rw [hl.cmd]
    exact (hab h).elim (hI.operations k o ho).aborted id
  · intro k₁ o₁' k₂ o₂' h₁ h₂ hproc hreq
    obtain ⟨o₁, ho₁, hl₁, -⟩ := abortReads_cases h₁
    obtain ⟨o₂, ho₂, hl₂, -⟩ := abortReads_cases h₂
    rw [hl₁.process, hl₂.process] at hproc
    rw [hl₁.cmd, hl₂.cmd] at hreq
    exact hI.identifiers k₁ o₁ k₂ o₂ ho₁ ho₂ hproc hreq
  · intro k₁ o₁' k₂ o₂' h₁ h₂ hne hproc hsec hw₁ hw₂
    obtain ⟨o₁, ho₁, hl₁, -, hf₁, -⟩ := abortReads_cases h₁
    obtain ⟨o₂, ho₂, hl₂, -, hf₂, -⟩ := abortReads_cases h₂
    rw [hl₁.process, hl₂.process] at hproc
    rw [Operation.sector, Operation.sector, hl₁.cmd, hl₂.cmd] at hsec
    rw [hl₁.cmd] at hw₁
    rw [hl₂.cmd] at hw₂
    rcases hI.exclusive k₁ o₁ k₂ o₂ ho₁ ho₂ hne hproc hsec hw₁ hw₂ with h | h
    · exact .inl (h.later (fun x hx => hf₁.trans hx) hl₂)
    · exact .inr (h.later (fun x hx => hf₂.trans hx) hl₁)
  · intro k₁ o₁' k₂ o₂' h₁ h₂ hsec hprec t₁ d₁ hwp₁
    obtain ⟨o₁, ho₁, hl₁, hw₁, hf₁, -⟩ := abortReads_cases h₁
    obtain ⟨o₂, ho₂, hl₂, hw₂, -, -⟩ := abortReads_cases h₂
    rw [Operation.sector, Operation.sector, hl₁.cmd, hl₂.cmd] at hsec
    have hprec' : o₁.Precedes o₂ := by
      obtain ⟨time, c, hfin, hlt⟩ := hprec
      exact ⟨time, c, hf₁.symm.trans hfin, by rw [← hl₂.start]; exact hlt⟩
    rw [hw₁] at hwp₁
    rw [hw₂, hl₂.cmd]
    exact hI.ordered k₁ o₁ k₂ o₂ ho₁ ho₂ hsec hprec' t₁ d₁ hwp₁
  · intro packet hpacket
    exact (hI.packets packet hpacket).extend hx
  · intro q sec
    rw [crashed_tagAt]
    by_cases h : q = p
    · subst h
      simp only [Function.update_self]
      exact (hI.files q sec).extend hx
    · rw [crashed_process_of_ne h]
      exact (hI.files q sec).extend hx
  · intro q r' hq hr' hu
    by_cases h : q = p
    · subst h
      simp at hu
    · rw [crashed_process_of_ne h] at hu ⊢
      refine (hI.registers q r' hq hr' hu).extend hx rfl rfl fun k o ho hop _ _ => ?_
      exact abortReads_same ho (.inl (hop ▸ h))
  · intro q r' hq hr'
    by_cases h : q = p
    · subst h
      have hst := hI.stable q r' hq hr'
      constructor
      · simpa using hst.readIdent
      · simp
      · simp
      · intro _ hw
        simp only [Function.update_self] at hw ⊢
        -- a write in progress is in the stable storage, so it is not aborted
        obtain ⟨hd, d, hval, k, o, hin⟩ := hI.record_of_writing hq hr' hup hw
        refine ⟨hd, d, hval, k, o, abortReads_same hin.mem (.inr ?_), hin.process, hin.register,
          hin.cmd, hin.inProgress⟩
        rw [hin.cmd]
        simp
    · refine (hI.stable q r' hq hr').extend hx rfl ?_ ?_ ?_ ?_ fun k o ho hop _ _ => ?_
      · rw [crashed_process_of_ne h]
      · rw [crashed_process_of_ne h]
      · rw [crashed_process_of_ne h]
      · rw [crashed_process_of_ne h]
      · exact abortReads_same ho (.inl (hop ▸ h))
  · intro q r' hq hr'
    exact (hI.phases q r' hq hr').extend hx rfl rfl

/-! ## Restart -/

/-- A process is restarted only when none of its unfinished writes has broadcast a
`WriteProc`. -/
def CleanRestart (s : System) : Action → Prop
  | .recover p => ∀ k < s.count, ∀ o ∈ s.operations k, o.process = p → o.InProgress →
      o.cmd.content ≠ .read → o.writeProc = none
  | _ => True

/-- What `new` rebuilds from a record, if it does not panic. -/
theorem restored_cases {proc : Process} {register : AtomicRegisterImplementation}
    {pending : Option ClientRegisterCommand}
    (h : restored N p proc r = some (register, pending)) :
    register.selfIdent = p ∧ register.processesCount = N ∧
    register.state.readIdent = (proc.record r).readIdent ∧ Idle register ∧
    ((proc.record r).writing = false ∧ pending = none ∧ register.state = proc.record r ∨
      ∃ w, (proc.record r).writing = true ∧ (proc.record r).writeval = some w ∧
        pending = some ⟨w.header, .write w.data⟩) := by
  unfold restored AtomicRegisterImplementation.new at h
  simp only [] at h
  by_cases hw : (proc.record r).writing = true
  · rw [if_pos hw] at h
    cases hval : (proc.record r).writeval with
    | none =>
      rw [Process.record] at hval
      rw [hval, unwrap_none_bind, run_panic] at h
      simp at h
    | some w =>
      rw [Process.record] at hval
      rw [hval, unwrap_some, Program.done_bind] at h
      simp only [Program.pure_eq_done, Program.run_done, Option.map_some, Option.some.injEq,
        Prod.mk.injEq] at h
      obtain ⟨rfl, rfl⟩ := h
      exact ⟨rfl, rfl, rfl, ⟨rfl, rfl, rfl⟩, .inr ⟨w, hw, rfl, rfl⟩⟩
  · rw [if_neg hw] at h
    rw [Bool.not_eq_true] at hw
    simp only [Program.pure_eq_done, Program.run_done, Option.map_some, Option.some.injEq,
      Prod.mk.injEq] at h
    obtain ⟨rfl, rfl⟩ := h
    exact ⟨rfl, rfl, rfl, ⟨rfl, hw, rfl⟩, .inl ⟨hw, rfl, rfl⟩⟩

/-- The state after process `p` has been restarted as `proc`. -/
abbrev restarted (s : System) (p : UInt8) (proc : Process) : System :=
  { s with
    processes := Function.update s.processes p proc
    clock := s.clock + 1
    restarts := s.restarts + 1 }

theorem restart_cases {proc proc' : Process} (h : proc.restart N R p = some proc') :
    proc'.files = proc.files ∧ proc'.stable = proc.stable ∧ proc'.up = true ∧
    ∀ r < R, restored N p proc r = some (proc'.registers r, proc'.pending r) := by
  unfold Process.restart at h
  split at h
  · rename_i hall
    rw [Option.some.injEq] at h
    subst h
    refine ⟨rfl, rfl, rfl, fun r hr => ?_⟩
    obtain ⟨x, hx⟩ := Option.isSome_iff_exists.mp (hall r hr)
    simp [hx]
  · simp at h

theorem Invariant.recover (hI : Invariant N R s g) {proc : Process}
    (hdown : (s.processes p).up = false) (hproc : (s.processes p).restart N R p = some proc)
    (hclean : CleanRestart s (.recover p)) : Invariant N R (restarted s p proc) g := by
  obtain ⟨hfiles, hstable, hup, hrestored⟩ := restart_cases hproc
  have hne : ∀ q, q ≠ p → (restarted s p proc).processes q = s.processes q := fun q h => by
    simp [h]
  have htag : ∀ q sec, (restarted s p proc).tagAt q sec = s.tagAt q sec := by
    intro q sec
    unfold System.tagAt
    by_cases h : q = p
    · subst h; simp [hfiles]
    · rw [hne q h]
  have hx : Extends s g (restarted s p proc) g := by
    constructor
    · intro k o ho; exact ⟨o, ho, .refl o⟩
    · intro q sec; rw [htag]
    · intro k o _; rfl
    · intro q r n x h; exact h
    · intro h; exact absurd h (Nat.succ_ne_zero _)
    · intro q r; exact le_refl _
    · exact le_refl _
    · exact Nat.le_succ _
  constructor
  · intro k o ho
    exact (hI.operations k o ho).extend hx ho (.refl o) rfl rfl (hI.operations k o ho).aborted
  · exact hI.identifiers
  · exact hI.exclusive
  · exact hI.ordered
  · intro packet hpacket
    exact (hI.packets packet hpacket).extend hx
  · intro q sec
    rw [htag]
    by_cases h : q = p
    · subst h
      simp only [Function.update_self, hfiles]
      exact (hI.files q sec).extend hx
    · rw [hne q h]
      exact (hI.files q sec).extend hx
  · intro q r' hq hr' hu
    by_cases h : q = p
    · subst h
      simp only [Function.update_self]
      -- a register starts without an operation, under the identifier it has stored
      obtain ⟨hself, hcount, hid, hidle, -⟩ := restored_cases (hrestored r' hr')
      exact ⟨hself, hcount, hid.trans (hI.stable q r' hq hr').readIdent, .inl hidle⟩
    · rw [hne q h] at hu ⊢
      exact (hI.registers q r' hq hr' hu).extend hx rfl rfl fun k o ho _ _ _ => ho
  · intro q r' hq hr'
    have hst := hI.stable q r' hq hr'
    by_cases h : q = p
    · subst h
      obtain ⟨-, -, -, hidle, hcases⟩ := restored_cases (hrestored r' hr')
      have hrecord : proc.record r' = (s.processes q).record r' := by
        rw [Process.record, hstable]
      constructor
      · simp only [Function.update_self, hrecord]; exact hst.readIdent
      · simp only [Function.update_self, hrecord]
        intro _ hpend
        rcases hcases with ⟨-, -, hstate⟩ | ⟨w, -, -, hpend'⟩
        · exact hstate.symm
        · rw [hpend] at hpend'
          simp at hpend'
      · simp only [Function.update_self, hrecord]
        intro cmd _ hpend
        rcases hcases with ⟨-, hpend', -⟩ | ⟨w, hw, hval, hpend'⟩
        · rw [hpend] at hpend'
          simp at hpend'
        · rw [hpend, Option.some.injEq] at hpend'
          subst hpend'
          -- the command that is found is the operation that was in progress before the crash
          obtain ⟨hd, d, hval', k, o, hin⟩ := hst.down hdown hw
          rw [hval, Option.some.injEq] at hval'
          subst hval'
          refine ⟨hidle, Nat.succ_ne_zero _, ⟨k, o, ⟨hin.mem, hin.process, hin.register, hin.cmd,
            hin.inProgress⟩, ?_⟩, d, rfl, hw, hval⟩
          refine hclean k (hI.operations k o hin.mem).lt_count o hin.mem hin.process
            hin.inProgress ?_
          rw [hin.cmd]
          simp
      · simp [hup]
    · refine hst.extend hx rfl ?_ ?_ ?_ ?_ fun k o ho _ _ _ => ho
      · rw [hne q h]
      · rw [hne q h]
      · rw [hne q h]
      · rw [hne q h]
  · intro q r' hq hr'
    exact (hI.phases q r' hq hr').extend hx rfl rfl

end Protocol
end AtomicDiscDrive
