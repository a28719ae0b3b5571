import AtomicDiscDrive.Protocol.Monotone

/-!
# Steps of one register

Every handler touches one register of one process, its record in stable storage, the
sector files of that process, and at most one operation. `LocalStep` is that frame; what
the invariant says about all other registers follows from it (`LocalStep.registers`,
`LocalStep.stable`, `LocalStep.phases`).

`Invariant.calm` is the first use of it: the handlers that open no phase and complete no
operation.
-/

namespace AtomicDiscDrive
namespace Protocol

open Utils

variable {N R : ℕ} {s s' : System} {g g' : Ghost} {p : UInt8} {r : ℕ}

/-- The frame of a step of register `r` of process `p`. -/
structure LocalStep (p : UInt8) (r : ℕ) (s : System) (g : Ghost) (s' : System) (g' : Ghost) :
    Prop where
  ext : Extends s g s' g'
  operations : ∀ k o, s.operations k = some o → o.process ≠ p ∨ o.register ≠ r →
    s'.operations k = some o
  process : ∀ q, q ≠ p → s'.processes q = s.processes q
  up : (s'.processes p).up = (s.processes p).up
  register : ∀ r', r' ≠ r → (s'.processes p).registers r' = (s.processes p).registers r' ∧
    (s'.processes p).stable r' = (s.processes p).stable r' ∧
    (s'.processes p).pending r' = (s.processes p).pending r'
  ghost : ∀ q r', q ≠ p ∨ r' ≠ r → g'.cnt q r' = g.cnt q r' ∧ g'.phase q r' = g.phase q r'

namespace LocalStep

variable (h : LocalStep p r s g s' g')
include h

/-- Operations of another register are untouched. -/
theorem same {q : UInt8} {r' : ℕ} (hne : q ≠ p ∨ r' ≠ r) :
    ∀ k o, s.operations k = some o → o.process = q → o.register = r' → o.InProgress →
      s'.operations k = some o := by
  intro k o ho hq hr' _
  exact h.operations k o ho (by rw [hq, hr']; exact hne)

theorem registers (hI : Invariant N R s g)
    (hself : (s'.processes p).up = true → r < R → IsProcess N p →
      RegisterOk N s' g' p r ((s'.processes p).registers r)) :
    ∀ q r', IsProcess N q → r' < R → (s'.processes q).up = true →
      RegisterOk N s' g' q r' ((s'.processes q).registers r') := by
  intro q r' hq hr' hup
  by_cases hne : q ≠ p ∨ r' ≠ r
  · have hreg : (s'.processes q).registers r' = (s.processes q).registers r' ∧
        (s'.processes q).up = (s.processes q).up := by
      by_cases hqp : q = p
      · subst hqp
        exact ⟨(h.register r' (hne.resolve_left (by simp))).1, h.up⟩
      · rw [h.process q hqp]; exact ⟨rfl, rfl⟩
    rw [hreg.1]
    exact (hI.registers q r' hq hr' (hreg.2 ▸ hup)).extend h.ext (h.ghost q r' hne).1
      (h.ghost q r' hne).2 (h.same hne)
  · simp only [not_or, not_not] at hne
    obtain ⟨rfl, rfl⟩ := hne
    exact hself hup hr' hq

theorem stable (hI : Invariant N R s g) (hself : r < R → IsProcess N p → StableOk s' g' p r) :
    ∀ q r', IsProcess N q → r' < R → StableOk s' g' q r' := by
  intro q r' hq hr'
  by_cases hne : q ≠ p ∨ r' ≠ r
  · have hst := hI.stable q r' hq hr'
    by_cases hqp : q = p
    · subst hqp
      obtain ⟨h1, h2, h3⟩ := h.register r' (hne.resolve_left (by simp))
      exact hst.extend h.ext (h.ghost q r' hne).1 h2 h1 h3 h.up (h.same hne)
    · have hproc := h.process q hqp
      exact hst.extend h.ext (h.ghost q r' hne).1 (by rw [hproc]) (by rw [hproc]) (by rw [hproc])
        (by rw [hproc]) (h.same hne)
  · simp only [not_or, not_not] at hne
    obtain ⟨rfl, rfl⟩ := hne
    exact hself hr' hq

theorem phases (hI : Invariant N R s g) (hself : r < R → IsProcess N p → PhaseOk s' g' p r) :
    ∀ q r', IsProcess N q → r' < R → PhaseOk s' g' q r' := by
  intro q r' hq hr'
  by_cases hne : q ≠ p ∨ r' ≠ r
  · exact (hI.phases q r' hq hr').extend h.ext (h.ghost q r' hne).1 (h.ghost q r' hne).2
  · simp only [not_or, not_not] at hne
    obtain ⟨rfl, rfl⟩ := hne
    exact hself hr' hq

/-- The files of the other processes are untouched. -/
theorem files (hI : Invariant N R s g)
    (hself : ∀ sec, s'.Written sec (s'.tagAt p sec) ((s'.processes p).files.readData sec)) :
    ∀ q sec, s'.Written sec (s'.tagAt q sec) ((s'.processes q).files.readData sec) := by
  intro q sec
  by_cases hqp : q = p
  · subst hqp; exact hself sec
  · have := (hI.files q sec).extend h.ext
    rw [System.tagAt, h.process q hqp]
    exact this

end LocalStep

/-! ## The fields of a committed handler -/

section Commit

variable {register : AtomicRegisterImplementation} {e : HandlerEnv}

theorem commit_process_self :
    (s.commit N p r register e).processes p =
      { s.processes p with
        files := e.files
        registers := Function.update (s.processes p).registers r register
        stable := Function.update (s.processes p).stable r e.stable } := by
  simp [System.commit]

theorem commit_process_of_ne {q : UInt8} (h : q ≠ p) :
    (s.commit N p r register e).processes q = s.processes q := by
  simp [System.commit, h]

@[simp] theorem commit_registers :
    ((s.commit N p r register e).processes p).registers r = register := by
  rw [commit_process_self]; simp

@[simp] theorem commit_record :
    ((s.commit N p r register e).processes p).record r = e.stable.getD .empty := by
  rw [commit_process_self]; simp [Process.record]

@[simp] theorem commit_pending :
    ((s.commit N p r register e).processes p).pending = (s.processes p).pending := by
  rw [commit_process_self]

@[simp] theorem commit_up :
    ((s.commit N p r register e).processes p).up = (s.processes p).up := by
  rw [commit_process_self]

theorem commit_tagAt (q : UInt8) (sec : SectorIdx) :
    (s.commit N p r register e).tagAt q sec = if q = p then e.files.tag sec else s.tagAt q sec := by
  unfold System.tagAt
  by_cases h : q = p
  · subst h; rw [commit_process_self, if_pos rfl]
  · rw [commit_process_of_ne h, if_neg h]

theorem commit_net :
    (s.commit N p r register e).net = s.net ++ e.sends ++ e.broadcasts.flatMap (toAll N) := rfl

/-- Handlers that neither open a write phase nor complete leave the history alone. -/
theorem recordHistory_eq {clock : ℕ} {callback : Option Callback} {operations : ℕ → Option Operation}
    (hb : e.broadcasts.findSome? writeProcOf = none) (hc : e.completed = []) :
    recordHistory clock callback e operations = operations := by
  funext k
  rw [recordHistory, hb, hc]
  cases operations k <;> simp

end Commit

/-! ## Handlers that only answer or collect -/

section Calm

variable {register : AtomicRegisterImplementation} {files : SectorFiles} {sends : List Packet}

/-- The state after a handler that opens no phase and completes nothing. -/
abbrev calmCommit (N : ℕ) (s : System) (p : UInt8) (r : ℕ)
    (register : AtomicRegisterImplementation) (files : SectorFiles) (sends : List Packet) : System :=
  s.commit N p r register ⟨files, (s.processes p).stable r, [], sends, []⟩

theorem calm_operations : (calmCommit N s p r register files sends).operations = s.operations :=
  recordHistory_eq rfl rfl

theorem calm_localStep (htag : ∀ sec, s.tagAt p sec ≤ files.tag sec) :
    LocalStep p r s g (calmCommit N s p r register files sends) g where
  ext := by
    constructor
    · intro k o ho
      exact ⟨o, by rw [calm_operations]; exact ho, .refl o⟩
    · intro q sec
      rw [commit_tagAt]
      split
      · rename_i h; rw [h]; exact htag sec
      · exact le_refl _
    · intro k o _; rfl
    · intro p r n x h; exact h
    · intro h; exact h
    · intro q r'; exact le_refl _
    · exact le_refl _
    · exact Nat.le_succ _
  operations := by intro k o ho _; rw [calm_operations]; exact ho
  process := fun q hq => commit_process_of_ne hq
  up := commit_up
  register := by
    intro r' hr'
    rw [commit_process_self]
    simp [hr']
  ghost := fun _ _ _ => ⟨rfl, rfl⟩

theorem Invariant.calm (hI : Invariant N R s g) (hp : IsProcess N p) (hr : r < R)
    (hup : (s.processes p).up = true)
    (htag : ∀ sec, s.tagAt p sec ≤ files.tag sec)
    (hfiles : ∀ sec, s.Written sec (files.tag sec) (files.readData sec))
    (hsends : ∀ packet ∈ sends, PacketOk N (calmCommit N s p r register files sends) g packet)
    (hreg : RegisterOk N s g p r register)
    (hstate : register.state = ((s.processes p).registers r).state)
    (hidle : Idle ((s.processes p).registers r) → Idle register) :
    Invariant N R (calmCommit N s p r register files sends) g := by
  have hl : LocalStep p r s g (calmCommit N s p r register files sends) g := calm_localStep htag
  have hops : (calmCommit N s p r register files sends).operations = s.operations :=
    calm_operations
  constructor
  · intro k o ho
    rw [hops] at ho
    exact (hI.operations k o ho).extend hl.ext ho (.refl o) rfl rfl
      (hI.operations k o ho).aborted
  · rw [hops]; exact hI.identifiers
  · rw [hops]; exact hI.exclusive
  · rw [hops]; exact hI.ordered
  · intro packet hpacket
    rw [commit_net, List.mem_append, List.mem_append] at hpacket
    rcases hpacket with (hpacket | hpacket) | hpacket
    · exact (hI.packets packet hpacket).extend hl.ext
    · exact hsends packet hpacket
    · simp at hpacket
  · refine hl.files hI fun sec => ?_
    rw [commit_tagAt, if_pos rfl, commit_process_self]
    exact (hfiles sec).extend hl.ext
  · refine hl.registers hI fun _ _ _ => ?_
    rw [commit_registers]
    exact hreg.extend hl.ext rfl rfl fun k o ho _ _ _ => by rw [hops]; exact ho
  · refine hl.stable hI fun _ _ => ?_
    -- nothing is stored, so the record fits the register as it did before
    have hst := hI.stable p r hp hr
    have hsame : ∀ k o, s.operations k = some o → o.process = p → o.register = r →
        o.InProgress → (calmCommit N s p r register files sends).operations k = some o :=
      fun k o ho _ _ _ => by rw [hops]; exact ho
    constructor
    · rw [commit_record]; exact hst.readIdent
    · rw [commit_record, commit_registers, commit_pending, commit_up, hstate]
      exact hst.served
    · rw [commit_record, commit_registers, commit_pending, commit_up]
      intro cmd hu hc
      obtain ⟨hi, hrestarts, ⟨k, o, hin, hwp⟩, hrec⟩ := hst.recovered cmd hu hc
      exact ⟨hidle hi, hrestarts, ⟨k, o, hin.extend hsame, hwp⟩, hrec⟩
    · rw [commit_up, hup]
      intro hu
      exact absurd hu (by simp)
  · exact hl.phases hI fun hr' hp' => (hI.phases p r hp' hr').extend hl.ext rfl rfl

end Calm

end Protocol
end AtomicDiscDrive
