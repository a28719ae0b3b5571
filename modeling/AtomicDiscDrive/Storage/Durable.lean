import AtomicDiscDrive.Storage.Stable

/-!
# Stable storage keeps what it acknowledged

Over all runs of `StableStorage`, with any number of calls under way, failed operations and
crashes: the calls on one file form a strictly linearizable register. An acknowledged write
is never lost; a write that failed or was cut off took effect before it ended or never
does, and then as a whole; a read returns what the last write left.
The storage directories are assumed to be durable, and errors of writes to be reported
(`Storage.Stable`).

The argument goes by the time at which a file got its name. `Filed` follows the temporary
files: until it is renamed, only the call that made a file writes to it, and after that
nobody does. `Timed` follows the names: the disc may be behind what processes see, but
never behind an acknowledged write or behind what has been read.
-/

namespace AtomicDiscDrive
namespace Storage

open Utils

variable {D : Type}

/-- History of a run: the file each call made, the time that orders a call among those on
its file (of the rename, for a read that of the rename it saw), the time of the rename of a
file, and the writes that a crash undid. -/
structure Times where
  file : ℕ → Option ℕ
  tag : ℕ → Option ℕ
  born : ℕ → ℕ
  lost : ℕ → Prop

/-- The time of a name; a missing file is as old as the disc. -/
def Times.time (g : Times) (x : Option ℕ) : ℕ := x.elim 0 g.born

/-- The file `i` of the call `t` gets its name. -/
def Times.renamed (g : Times) (t i clock : ℕ) : Times :=
  { g with
    tag := Function.update g.tag t (some clock)
    born := Function.update g.born i clock }

/-- The read `t` opens the file of the time `e`. -/
def Times.opened (g : Times) (t e : ℕ) : Times :=
  { g with tag := Function.update g.tag t (some e) }

/-- The disc has the name for the file, or may have it after a crash. -/
def Mentions (fs : FileSystem (Path D)) (p : Path D) (i : ℕ) : Prop :=
  fs.onDisc p = some i ∨ (p, some i) ∈ fs.updates

/-- Where a `write` is, its file and its time. -/
def Standing (fs : FileSystem (Path D)) (g : Times) (t : ℕ) (value : List UInt8) : Pc → Prop
  | .create => g.file t = none ∧ g.tag t = none
  | .writeAll i written =>
    g.file t = some i ∧ g.tag t = none ∧ (fs.files i).content = value.take written
  | .syncData i => g.file t = some i ∧ g.tag t = none ∧ (fs.files i).content = value
  | .rename => ∃ i, g.file t = some i ∧ g.tag t = none ∧ fs.files i = ⟨value, true⟩
  | .openDir | .syncDir | .returned _ => g.tag t ≠ none ∧ ¬ g.lost t
  | .failed => True
  | .openFile | .readFile _ => False

namespace StableStorage

/-- The call `t` is a call on `q`. -/
def Asks (s : StableStorage D) (t : ℕ) (q : Path D) (request : CallRequest) : Prop :=
  ∃ c, s.calls t = some c ∧ c.path = q ∧ c.request = request

/-- Who made which file, and what it holds. -/
structure Filed (s : StableStorage D) (g : Times) : Prop where
  past : ∀ t c, s.calls t = some c → t < s.clock ∧ ∀ e ∈ c.ended, t < e ∧ e < s.clock
  uuids : ∀ t t' q q' v v' u, s.Asks t q (.write v u) → s.Asks t' q' (.write v' u) → t = t'
  owned : ∀ t i, g.file t = some i → i < s.fs.count ∧ t < s.clock
  owner : ∀ t t' i, g.file t = some i → g.file t' = some i → t = t'
  tag_past : ∀ t e, g.tag t = some e → t < s.clock
  tag_le : ∀ t e, g.tag t = some e → e ≤ s.clock
  tag_ended : ∀ t c e₀ e, s.calls t = some c → c.ended = some e₀ → g.tag t = some e → e ≤ e₀
  lost_tag : ∀ t, g.lost t → g.tag t ≠ none
  standing : ∀ t c v u, s.calls t = some c → c.request = .write v u → Standing s.fs g t v c.pc
  tagged : ∀ t q v u e, s.Asks t q (.write v u) → g.tag t = some e → t < e ∧ e < s.clock ∧
    ∃ i, g.file t = some i ∧ g.born i = e ∧ s.fs.files i = ⟨v, true⟩
  tags : ∀ t t' q q' v v' u u' e, s.Asks t q (.write v u) → s.Asks t' q' (.write v' u') →
    g.tag t = some e → g.tag t' = some e → t = t'
  mentioned : ∀ p i, Mentions s.fs p i → ∃ t q v u, s.Asks t q (.write v u) ∧
    g.file t = some i ∧ (p = .temp u ∨ p = q ∧ g.tag t ≠ none ∧ ¬ g.lost t)

/-- The write on `q` that gave a file its name, and was not undone. -/
def WroteAt (s : StableStorage D) (g : Times) (q : Path D) (w i : ℕ) (value : List UInt8)
    (e : ℕ) : Prop :=
  (∃ u, s.Asks w q (.write value u)) ∧ g.file w = some i ∧ g.tag w = some e ∧ ¬ g.lost w

/-- Where a `read` is, and what it has seen. -/
def Looking (s : StableStorage D) (g : Times) (t : ℕ) (q : Path D) : Pc → Prop
  | .openFile => g.tag t = none
  | .readFile i => ∃ w v e, s.WroteAt g q w i v e ∧ g.tag t = some e
  | .returned none => g.tag t = some 0
  | .returned (some v) => ∃ w i e, s.WroteAt g q w i v e ∧ g.tag t = some e
  | .failed => True
  | _ => False

variable [DecidableEq D]

/-- The names, the disc and the calls in the order of time. -/
structure Timed (s : StableStorage D) (g : Times) : Prop where
  removed : ∀ d k, (Path.file d k, none) ∉ s.fs.updates
  newer : ∀ d k i, (Path.file d k, some i) ∈ s.fs.updates →
    g.time (s.fs.onDisc (.file d k)) ≤ g.born i ∧ g.born i ≤ g.time (s.fs.names (.file d k))
  current : ∀ t q v u e, s.Asks t q (.write v u) → g.tag t = some e → ¬ g.lost t →
    e ≤ g.time (s.fs.names q)
  answered : ∀ t c v u x e, s.calls t = some c → c.request = .write v u → c.pc = .returned x →
    g.tag t = some e → e ≤ g.time (s.fs.onDisc c.path)
  seen : ∀ t q e, s.Asks t q .read → g.tag t = some e → e ≤ g.time (s.fs.onDisc q)
  looking : ∀ t c, s.calls t = some c → c.request = .read → s.Looking g t c.path c.pc
  after_write : ∀ t t' q v u e e', s.Asks t q (.write v u) → s.Asks t' q .read →
    g.tag t = some e → ¬ g.lost t → g.tag t' = some e' → e < t' → e ≤ e'
  after_read : ∀ t t' c e₀ e e', s.calls t = some c → c.request = .read →
    s.Asks t' c.path .read → c.ended = some e₀ → e₀ < t' → g.tag t = some e →
    g.tag t' = some e' → e ≤ e'

/-! ## Frames -/

section Frames

omit [DecidableEq D]

variable {s : StableStorage D} {g : Times} {t : ℕ} {c : FileCall D}

@[simp] theorem goOn_path (pc : Pc) (clock : ℕ) : (c.goOn pc clock).path = c.path := rfl

@[simp] theorem goOn_request (pc : Pc) (clock : ℕ) : (c.goOn pc clock).request = c.request := rfl

@[simp] theorem moved_fs (fs : FileSystem (Path D)) (pc : Pc) : (s.moved t c fs pc).fs = fs := rfl

theorem moved_calls {fs : FileSystem (Path D)} {pc : Pc} {t' : ℕ} {c' : FileCall D} :
    (s.moved t c fs pc).calls t' = some c' ↔
      t' = t ∧ c' = c.goOn pc s.clock ∨ t' ≠ t ∧ s.calls t' = some c' := by
  simp only [moved, Function.update_apply]
  split <;> simp_all [eq_comm]

/-- Calls do not change what they ask for. -/
theorem moved_asks {fs : FileSystem (Path D)} {pc : Pc} (hc : s.calls t = some c) {t' : ℕ}
    {q : Path D} {r : CallRequest} : (s.moved t c fs pc).Asks t' q r ↔ s.Asks t' q r := by
  simp only [Asks, moved_calls]
  constructor
  · rintro ⟨c', ⟨rfl, rfl⟩ | ⟨-, hc'⟩, hq, hr⟩
    · exact ⟨c, hc, hq, hr⟩
    · exact ⟨c', hc', hq, hr⟩
  · rintro ⟨c', hc', hq, hr⟩
    by_cases ht : t' = t
    · subst ht
      rw [hc, Option.some.injEq] at hc'
      subst hc'
      exact ⟨_, .inl ⟨rfl, rfl⟩, hq, hr⟩
    · exact ⟨c', .inr ⟨ht, hc'⟩, hq, hr⟩

theorem Filed.asks_lt (h : s.Filed g) {q : Path D} {r : CallRequest} (ha : s.Asks t q r) :
    t < s.clock := by
  obtain ⟨c, hc, -, -⟩ := ha
  exact (h.past t c hc).1

/-- Where a `write` is depends on its own file and its own time only. -/
theorem standing_congr {fs fs' : FileSystem (Path D)} {g' : Times} {value : List UInt8} {pc : Pc}
    (hfile : g'.file t = g.file t) (htag : g'.tag t = g.tag t) (hlost : g'.lost t ↔ g.lost t)
    (hfiles : ∀ i, g.file t = some i → fs'.files i = fs.files i)
    (h : Standing fs g t value pc) : Standing fs' g' t value pc := by
  cases pc with
  | create => exact ⟨hfile.trans h.1, htag.trans h.2⟩
  | writeAll i written => exact ⟨hfile.trans h.1, htag.trans h.2.1, hfiles i h.1 ▸ h.2.2⟩
  | syncData i => exact ⟨hfile.trans h.1, htag.trans h.2.1, hfiles i h.1 ▸ h.2.2⟩
  | rename =>
    obtain ⟨i, hi, ht, hv⟩ := h
    exact ⟨i, hfile.trans hi, htag.trans ht, (hfiles i hi).trans hv⟩
  | openDir => exact ⟨htag ▸ h.1, fun hl => h.2 (hlost.mp hl)⟩
  | syncDir => exact ⟨htag ▸ h.1, fun hl => h.2 (hlost.mp hl)⟩
  | returned x => exact ⟨htag ▸ h.1, fun hl => h.2 (hlost.mp hl)⟩
  | failed => trivial
  | openFile => exact h
  | readFile i => exact h

end Frames

/-- How far a step of the call `t` may change what is known of it: other calls keep their
files and times. -/
structure Apart (s : StableStorage D) (t : ℕ) (fs' : FileSystem (Path D)) (g g' : Times) :
    Prop where
  file : ∀ t' ≠ t, g'.file t' = g.file t'
  tag : ∀ t' ≠ t, g'.tag t' = g.tag t'
  lost : g'.lost = g.lost
  born : ∀ t' ≠ t, ∀ i, g.file t' = some i → g'.born i = g.born i
  files : ∀ t' ≠ t, ∀ i, g.file t' = some i → fs'.files i = s.fs.files i
  count : s.fs.count ≤ fs'.count
  own : ∀ i, g'.file t = some i → i < fs'.count ∧ ∀ t' ≠ t, g.file t' ≠ some i
  keeps : ∀ i, g.file t = some i → g'.file t = some i
  keeps_tag : g.tag t ≠ none → g'.tag t ≠ none

section Steps

omit [DecidableEq D]

variable {s : StableStorage D} {g g' : Times} {t : ℕ} {c : FileCall D}
  {fs' : FileSystem (Path D)} {pc : Pc}

theorem Filed.moved (h : s.Filed g) (hc : s.calls t = some c) (ha : s.Apart t fs' g g')
    (hle : ∀ e, g'.tag t = some e → e ≤ s.clock)
    (hst : ∀ v u, c.request = .write v u → Standing fs' g' t v pc)
    (htagged : ∀ v u e, c.request = .write v u → g'.tag t = some e → t < e ∧ e ≤ s.clock ∧
      (∀ t' ≠ t, ∀ q' v' u', s.Asks t' q' (.write v' u') → g.tag t' ≠ some e) ∧
      ∃ i, g'.file t = some i ∧ g'.born i = e ∧ fs'.files i = ⟨v, true⟩)
    (hment : ∀ p i, Mentions fs' p i → Mentions s.fs p i ∨ ∃ v u, c.request = .write v u ∧
      g'.file t = some i ∧ (p = .temp u ∨ p = c.path ∧ g'.tag t ≠ none ∧ ¬ g'.lost t)) :
    (s.moved t c fs' pc).Filed g' := by
  have hlt : t < s.clock := (h.past t c hc).1
  have hreq : ∀ {q v u}, s.Asks t q (.write v u) → c.request = .write v u := by
    rintro q v u ⟨c', hc', -, hr⟩
    rw [hc, Option.some.injEq] at hc'
    rw [hc', hr]
  refine ⟨?past, ?uuids, ?owned, ?owner, ?tag_past, ?tag_le, ?tag_ended, ?lost_tag, ?standing,
    ?tagged, ?tags, ?mentioned⟩
  case past =>
    intro t' c' hc'
    rcases moved_calls.mp hc' with ⟨rfl, rfl⟩ | ⟨-, hc'⟩
    · refine ⟨hlt.trans (Nat.lt_succ_self _), ?_⟩
      intro e he
      simp only [FileCall.goOn] at he
      split at he
      · cases he
        exact ⟨hlt, Nat.lt_succ_self _⟩
      · cases he
    · obtain ⟨h1, h2⟩ := h.past t' c' hc'
      exact ⟨h1.trans (Nat.lt_succ_self _),
        fun e he => ⟨(h2 e he).1, (h2 e he).2.trans (Nat.lt_succ_self _)⟩⟩
  case uuids =>
    intro t₁ t₂ q q' v v' u h1 h2
    exact h.uuids t₁ t₂ q q' v v' u ((moved_asks hc).mp h1) ((moved_asks hc).mp h2)
  case owned =>
    intro t' i hi
    by_cases ht : t' = t
    · subst ht
      exact ⟨(ha.own i hi).1, hlt.trans (Nat.lt_succ_self _)⟩
    · rw [ha.file t' ht] at hi
      exact ⟨(h.owned t' i hi).1.trans_le ha.count, (h.owned t' i hi).2.trans (Nat.lt_succ_self _)⟩
  case owner =>
    intro t₁ t₂ i h1 h2
    by_cases ht₁ : t₁ = t <;> by_cases ht₂ : t₂ = t
    · rw [ht₁, ht₂]
    · subst ht₁
      rw [ha.file t₂ ht₂] at h2
      exact absurd h2 ((ha.own i h1).2 t₂ ht₂)
    · subst ht₂
      rw [ha.file t₁ ht₁] at h1
      exact absurd h1 ((ha.own i h2).2 t₁ ht₁)
    · rw [ha.file t₁ ht₁] at h1
      rw [ha.file t₂ ht₂] at h2
      exact h.owner t₁ t₂ i h1 h2
  case tag_past =>
    intro t' e he
    by_cases ht : t' = t
    · subst ht
      exact hlt.trans (Nat.lt_succ_self _)
    · rw [ha.tag t' ht] at he
      exact (h.tag_past t' e he).trans (Nat.lt_succ_self _)
  case tag_le =>
    intro t' e he
    by_cases ht : t' = t
    · subst ht
      exact (hle e he).trans (Nat.le_succ _)
    · rw [ha.tag t' ht] at he
      exact (h.tag_le t' e he).trans (Nat.le_succ _)
  case tag_ended =>
    intro t' c' e₀ e hc' hended he
    rcases moved_calls.mp hc' with ⟨rfl, rfl⟩ | ⟨ht, hc'⟩
    · simp only [FileCall.goOn] at hended
      split at hended
      · cases hended
        exact hle e he
      · cases hended
    · rw [ha.tag t' ht] at he
      exact h.tag_ended t' c' e₀ e hc' hended he
  case lost_tag =>
    intro t' hl
    rw [ha.lost] at hl
    by_cases ht : t' = t
    · subst ht
      exact ha.keeps_tag (h.lost_tag t' hl)
    · rw [ha.tag t' ht]
      exact h.lost_tag t' hl
  case standing =>
    intro t' c' v u hc' hr
    rcases moved_calls.mp hc' with ⟨rfl, rfl⟩ | ⟨ht, hc'⟩
    · exact hst v u hr
    · exact standing_congr (ha.file t' ht) (ha.tag t' ht) (by rw [ha.lost]) (ha.files t' ht)
        (h.standing t' c' v u hc' hr)
  case tagged =>
    intro t' q v u e hasks he
    rw [moved_asks hc] at hasks
    by_cases ht : t' = t
    · subst ht
      obtain ⟨h1, h2, -, h3⟩ := htagged v u e (hreq hasks) he
      exact ⟨h1, Nat.lt_succ_of_le h2, h3⟩
    · rw [ha.tag t' ht] at he
      obtain ⟨h1, h2, i, hi, hb, hf⟩ := h.tagged t' q v u e hasks he
      refine ⟨h1, h2.trans (Nat.lt_succ_self _), i, (ha.file t' ht).trans hi, ?_, ?_⟩
      · rw [ha.born t' ht i hi, hb]
      · rw [← hf]
        exact ha.files t' ht i hi
  case tags =>
    intro t₁ t₂ q q' v v' u u' e h1 h2 he1 he2
    rw [moved_asks hc] at h1 h2
    by_cases ht₁ : t₁ = t <;> by_cases ht₂ : t₂ = t
    · rw [ht₁, ht₂]
    · subst ht₁
      rw [ha.tag t₂ ht₂] at he2
      exact absurd he2 ((htagged v u e (hreq h1) he1).2.2.1 t₂ ht₂ q' v' u' h2)
    · subst ht₂
      rw [ha.tag t₁ ht₁] at he1
      exact absurd he1 ((htagged v' u' e (hreq h2) he2).2.2.1 t₁ ht₁ q v u h1)
    · rw [ha.tag t₁ ht₁] at he1
      rw [ha.tag t₂ ht₂] at he2
      exact h.tags t₁ t₂ q q' v v' u u' e h1 h2 he1 he2
  case mentioned =>
    intro p i hm
    rcases hment p i hm with hm | ⟨v, u, hr, hi, hp⟩
    · obtain ⟨t', q, v, u, hasks, hi, hp⟩ := h.mentioned p i hm
      refine ⟨t', q, v, u, (moved_asks hc).mpr hasks, ?_, ?_⟩
      · by_cases ht : t' = t
        · subst ht
          exact ha.keeps i hi
        · rw [ha.file t' ht, hi]
      · refine hp.imp id (fun hp => ⟨hp.1, ?_, ha.lost ▸ hp.2.2⟩)
        by_cases ht : t' = t
        · subst ht
          exact ha.keeps_tag hp.2.1
        · rw [ha.tag t' ht]
          exact hp.2.1
    · exact ⟨t, c.path, v, u, (moved_asks hc).mpr ⟨c, hc, rfl, hr⟩, hi, hp⟩

/-- A step of a call that makes no file and renames none. -/
theorem Filed.moved_same (h : s.Filed g) (hc : s.calls t = some c)
    (hcount : fs'.count = s.fs.count)
    (hfiles : ∀ i, fs'.files i ≠ s.fs.files i → g.file t = some i ∧ g.tag t = none)
    (hment : ∀ p i, Mentions fs' p i → Mentions s.fs p i)
    (hst : ∀ v u, c.request = .write v u → Standing fs' g t v pc) :
    (s.moved t c fs' pc).Filed g := by
  have hkept : ∀ i, g.tag t ≠ none → fs'.files i = s.fs.files i := by
    intro i htag
    by_contra hne
    exact htag (hfiles i hne).2
  have hothers : ∀ t' ≠ t, ∀ i, g.file t' = some i → fs'.files i = s.fs.files i := by
    intro t' ht i hi
    by_contra hne
    exact ht (h.owner t' t i hi (hfiles i hne).1)
  refine h.moved hc ⟨fun _ _ => rfl, fun _ _ => rfl, rfl, fun _ _ _ _ => rfl, hothers,
    hcount.ge, ?_, fun _ hi => hi, id⟩ (h.tag_le t) hst ?_ fun p i hm => .inl (hment p i hm)
  · intro i hi
    exact ⟨hcount ▸ (h.owned t i hi).1, fun t' ht hi' => ht (h.owner t' t i hi' hi)⟩
  · intro v u e hr he
    have hasks : s.Asks t c.path (.write v u) := ⟨c, hc, rfl, hr⟩
    obtain ⟨h1, h2, i, hi, hb, hv⟩ := h.tagged t c.path v u e hasks he
    refine ⟨h1, h2.le, ?_, i, hi, hb, (hkept i (by simp [he])).trans hv⟩
    exact fun t' ht q' v' u' ha' he' => ht (h.tags t' t q' c.path v' v u' u e ha' hasks he' he)

/-- What a `read` has seen stays. -/
theorem looking_mono {s s' : StableStorage D} {q : Path D}
    (hasks : ∀ {w r}, s.Asks w q r → s'.Asks w q r)
    (hfile : ∀ {w i}, g.file w = some i → g'.file w = some i)
    (htag : ∀ {w v u e}, s.Asks w q (.write v u) → g.tag w = some e → g'.tag w = some e)
    (hlost : ∀ {w e}, g.tag t = some e → g.tag w = some e → ¬ g.lost w → ¬ g'.lost w)
    (ht : g'.tag t = g.tag t) (h : s.Looking g t q pc) : s'.Looking g' t q pc := by
  have hwrote : ∀ {w i v e}, g.tag t = some e → s.WroteAt g q w i v e → s'.WroteAt g' q w i v e := by
    rintro w i v e hte ⟨⟨u, hu⟩, hi, he, hl⟩
    exact ⟨⟨u, hasks hu⟩, hfile hi, htag hu he, hlost hte he hl⟩
  cases pc with
  | openFile => exact ht.trans h
  | readFile i =>
    obtain ⟨w, v, e, hw, he⟩ := h
    exact ⟨w, v, e, hwrote he hw, ht.trans he⟩
  | returned x =>
    cases x with
    | none => exact ht.trans h
    | some v =>
      obtain ⟨w, i, e, hw, he⟩ := h
      exact ⟨w, i, e, hwrote he hw, ht.trans he⟩
  | failed => trivial
  | _ => exact h.elim

/-- The file of a key was written by a call on that key. -/
theorem Filed.named (h : s.Filed g) {d : D} {k : String} {i : ℕ}
    (hm : Mentions s.fs (.file d k) i) : ∃ w v u, s.Asks w (.file d k) (.write v u) ∧
      g.file w = some i ∧ g.tag w = some (g.born i) ∧ ¬ g.lost w ∧ g.born i < s.clock := by
  obtain ⟨w, q, v, u, hasks, hi, hp | ⟨rfl, htag, hl⟩⟩ := h.mentioned _ _ hm
  · cases hp
  · obtain ⟨e, he⟩ := Option.ne_none_iff_exists'.mp htag
    obtain ⟨-, hlt, i', hi', hb, -⟩ := h.tagged w _ v u e hasks he
    rw [hi, Option.some.injEq] at hi'
    subst hi'
    subst hb
    exact ⟨w, v, u, hasks, hi, he, hl, hlt⟩

end Steps

section Orders

variable {s : StableStorage D} {g g' : Times} {t : ℕ} {c : FileCall D}
  {fs' : FileSystem (Path D)} {pc : Pc}

/-- A step that gives no file a new name: the disc can only catch up. -/
theorem Timed.moved (h : s.Timed g) (hf : s.Filed g) (hc : s.calls t = some c)
    (hfile : ∀ {t' i}, g.file t' = some i → g'.file t' = some i) (htag : g'.tag = g.tag)
    (hborn : g'.born = g.born) (hlost : g'.lost = g.lost)
    (hdisc : ∀ d k, g.time (s.fs.onDisc (.file d k)) ≤ g.time (fs'.onDisc (.file d k)))
    (hnames : ∀ d k, fs'.names (.file d k) = s.fs.names (.file d k))
    (hup : ∀ d k x, (Path.file d k, x) ∈ fs'.updates → (Path.file d k, x) ∈ s.fs.updates ∧
      fs'.onDisc (.file d k) = s.fs.onDisc (.file d k))
    (hans : ∀ v u x e, c.request = .write v u → pc = .returned x → g.tag t = some e →
      e ≤ g.time (fs'.onDisc c.path))
    (hlook : c.request = .read → s.Looking g t c.path pc) : (s.moved t c fs' pc).Timed g' := by
  have hat : g'.time = g.time := by
    funext x
    simp only [Times.time, hborn]
  have hpath : ∀ {t' q r}, s.Asks t' q r → ∃ d k, q = .file d k := by
    rintro t' q r ⟨c', -, rfl, -⟩
    exact ⟨c'.dir, c'.key, rfl⟩
  have hmono : ∀ {t' q pc'}, s.Looking g t' q pc' → (s.moved t c fs' pc).Looking g' t' q pc' :=
    looking_mono ((moved_asks hc).mpr ·) hfile (fun _ he => htag ▸ he) (fun _ _ hl => hlost ▸ hl)
      (by rw [htag])
  refine ⟨?removed, ?newer, ?current, ?answered, ?seen, ?looking, ?after_write, ?after_read⟩
  case removed => exact fun d k hmem => h.removed d k (hup d k none hmem).1
  case newer =>
    intro d k i hmem
    obtain ⟨hmem, hsame⟩ := hup d k _ hmem
    have hn := h.newer d k i hmem
    simp only [moved_fs, hat, hborn, hnames, hsame]
    exact hn
  case current =>
    intro t' q v u e hasks he hl
    rw [moved_asks hc] at hasks
    rw [htag] at he
    rw [hlost] at hl
    obtain ⟨d, k, rfl⟩ := hpath hasks
    simp only [moved_fs, hat, hnames]
    exact h.current t' _ v u e hasks he hl
  case answered =>
    intro t' c' v u x e hc' hr hpc he
    rw [htag] at he
    rw [hat]
    rcases moved_calls.mp hc' with ⟨rfl, rfl⟩ | ⟨ht, hc'⟩
    · exact hans v u x e hr hpc he
    · exact (h.answered t' c' v u x e hc' hr hpc he).trans (hdisc c'.dir c'.key)
  case seen =>
    intro t' q e hasks he
    rw [moved_asks hc] at hasks
    rw [htag] at he
    rw [hat]
    obtain ⟨d, k, rfl⟩ := hpath hasks
    exact (h.seen t' _ e hasks he).trans (hdisc d k)
  case looking =>
    intro t' c' hc' hr
    rcases moved_calls.mp hc' with ⟨rfl, rfl⟩ | ⟨ht, hc'⟩
    · exact hmono (hlook hr)
    · exact hmono (h.looking t' c' hc' hr)
  case after_write =>
    intro t₁ t₂ q v u e e' h1 h2
    rw [moved_asks hc] at h1 h2
    rw [htag, hlost]
    exact h.after_write t₁ t₂ q v u e e' h1 h2
  case after_read =>
    intro t₁ t₂ c' e₀ e e' hc' hr h2 hended hlt
    rw [moved_asks hc] at h2
    rw [htag]
    rcases moved_calls.mp hc' with ⟨rfl, rfl⟩ | ⟨ht, hc'⟩
    · -- a call that ends now has ended before no call
      have hclock := hf.asks_lt h2
      simp only [FileCall.goOn] at hended
      split at hended
      · cases hended
        exact absurd hlt hclock.not_gt
      · cases hended
    · exact h.after_read t₁ t₂ c' e₀ e e' hc' hr h2 hended hlt

theorem mentions_of_names {fs : FileSystem (Path D)} {p : Path D} {i : ℕ}
    (h : fs.names p = some i) : Mentions fs p i := by
  rcases FileSystem.applied_cases fs.onDisc fs.updates p with hp | hp
  · exact .inl (hp.symm.trans h)
  · exact .inr (h ▸ hp)

/-- A temporary name points to the file of its call. -/
theorem Filed.temp_names (h : s.Filed g) (hc : s.calls t = some c) {v : List UInt8} {u : Uuid}
    (hr : c.request = .write v u) {i : ℕ} (hn : s.fs.names (.temp u) = some i) :
    g.file t = some i := by
  obtain ⟨t', q, v', u', hasks, hi, hp | ⟨hp, -⟩⟩ := h.mentioned _ _ (mentions_of_names hn)
  · injection hp with hu
    subst hu
    rw [h.uuids t t' c.path q v v' u ⟨c, hc, rfl, hr⟩ hasks]
    exact hi
  · obtain ⟨c', -, rfl, -⟩ := hasks
    cases hp

theorem Filed.time_names_le (h : s.Filed g) (d : D) (k : String) :
    g.time (s.fs.names (.file d k)) ≤ s.clock := by
  cases hn : s.fs.names (.file d k) with
  | none => exact Nat.zero_le _
  | some i =>
    obtain ⟨-, -, -, -, -, -, -, hlt⟩ := h.named (mentions_of_names hn)
    exact hlt.le

/-- What processes see is not older than the disc. -/
theorem Timed.onDisc_le (h : s.Timed g) (d : D) (k : String) :
    g.time (s.fs.onDisc (.file d k)) ≤ g.time (s.fs.names (.file d k)) := by
  rcases FileSystem.applied_cases s.fs.onDisc s.fs.updates (.file d k) with hq | hq
  · exact le_of_eq (congrArg g.time hq.symm)
  · change (Path.file d k, s.fs.names (.file d k)) ∈ s.fs.updates at hq
    cases hn : s.fs.names (.file d k) with
    | none => exact absurd (hn ▸ hq) (h.removed d k)
    | some i => exact (h.newer d k i (hn ▸ hq)).1

/-- The names after the file `i` got the name `q` instead of a temporary one. -/
theorem names_renamed (fs : FileSystem (Path D)) (d d' : D) (k k' : String) (u : Uuid) (i : ℕ) :
    FileSystem.names { fs with updates := fs.updates ++ [(.file d k, some i), (.temp u, none)] }
      (.file d' k') = if d' = d ∧ k' = k then some i else fs.names (.file d' k') := by
  rw [FileSystem.names_append, FileSystem.applied_apply]
  simp [eq_comm]

/-- The rename gives the file the time of the rename, which is later than all before. -/
theorem Timed.renamed (h : s.Timed g) (hf : s.Filed g) (hc : s.calls t = some c)
    {v : List UInt8} {u : Uuid} (hr : c.request = .write v u) {i : ℕ} (hi : g.file t = some i)
    (hnone : g.tag t = none)
    (hfs : fs' = { s.fs with updates := s.fs.updates ++ [(c.path, some i), (.temp u, none)] }) :
    (s.moved t c fs' .openDir).Timed (g.renamed t i s.clock) := by
  obtain ⟨d, k, hpath⟩ : ∃ d k, c.path = .file d k := ⟨_, _, rfl⟩
  have hasked : s.Asks t (.file d k) (.write v u) := ⟨c, hc, hpath, hr⟩
  -- no name of a key points to the file yet
  have hnew : ∀ d' k', ¬ Mentions s.fs (.file d' k') i := by
    intro d' k' hm
    obtain ⟨w, -, -, -, hw, htag, -⟩ := hf.named hm
    rw [hf.owner w t i hw hi, hnone] at htag
    cases htag
  have hborn : ∀ {d' k' j}, Mentions s.fs (.file d' k') j →
      (g.renamed t i s.clock).born j = g.born j := by
    intro d' k' j hm
    refine Function.update_of_ne ?_ _ _
    rintro rfl
    exact hnew d' k' hm
  have hat : ∀ {d' k' x}, (∀ j, x = some j → Mentions s.fs (.file d' k') j) →
      (g.renamed t i s.clock).time x = g.time x := by
    intro d' k' x hx
    cases x with
    | none => rfl
    | some j => exact hborn (hx j rfl)
  have hdisc : ∀ d' k', (g.renamed t i s.clock).time (s.fs.onDisc (.file d' k')) =
      g.time (s.fs.onDisc (.file d' k')) := fun d' k' => hat (fun _ hj => .inl hj)
  have hnames : ∀ d' k', (g.renamed t i s.clock).time (fs'.names (.file d' k')) =
      if d' = d ∧ k' = k then s.clock else g.time (s.fs.names (.file d' k')) := by
    intro d' k'
    rw [hfs, hpath, names_renamed]
    split
    · simp [Times.time, Times.renamed]
    · exact hat (fun _ hj => mentions_of_names hj)
  have hle : ∀ d' k', g.time (s.fs.names (.file d' k')) ≤
      (g.renamed t i s.clock).time (fs'.names (.file d' k')) := by
    intro d' k'
    rw [hnames]
    split
    · exact hf.time_names_le d' k'
    · exact le_rfl
  have hsame : ∀ {t'}, t' ≠ t → (g.renamed t i s.clock).tag t' = g.tag t' :=
    fun ht => Function.update_of_ne ht _ _
  have htag : ∀ {t' e}, t' ≠ t → (g.renamed t i s.clock).tag t' = some e → g.tag t' = some e :=
    fun ht he => (hsame ht).symm.trans he
  have hread : ∀ {t' q}, s.Asks t' q .read → t' ≠ t := by
    rintro t' q ⟨c', hc', -, hr'⟩ rfl
    rw [hc, Option.some.injEq] at hc'
    rw [← hc', hr] at hr'
    cases hr'
  refine ⟨?removed, ?newer, ?current, ?answered, ?seen, ?looking, ?after_write, ?after_read⟩
  case removed =>
    intro d' k' hmem
    simp only [moved_fs, hfs, List.mem_append, List.mem_cons, Prod.mk.injEq, reduceCtorEq,
      and_false, false_and, List.not_mem_nil, or_false] at hmem
    exact h.removed d' k' hmem
  case newer =>
    intro d' k' j hmem
    simp only [moved_fs, hfs, hpath, List.mem_append, List.mem_cons, Prod.mk.injEq, reduceCtorEq,
      false_and, List.not_mem_nil, or_false, Path.file.injEq, Option.some.injEq] at hmem
    have hdisc' : fs'.onDisc = s.fs.onDisc := by rw [hfs]
    rw [moved_fs, hdisc', hdisc]
    rcases hmem with hmem | ⟨⟨rfl, rfl⟩, rfl⟩
    · have hold := h.newer d' k' j hmem
      simp only [hborn (.inr hmem)]
      exact ⟨hold.1, hold.2.trans (hle d' k')⟩
    · rw [hnames, if_pos ⟨rfl, rfl⟩]
      simp only [Times.renamed, Function.update_self]
      exact ⟨(h.onDisc_le d' k').trans (hf.time_names_le d' k'), le_rfl⟩
  case current =>
    intro t' q v' u' e hasks he hl
    rw [moved_asks hc] at hasks
    obtain ⟨d', k', rfl⟩ : ∃ d' k', q = .file d' k' := by
      obtain ⟨c', -, rfl, -⟩ := hasks
      exact ⟨_, _, rfl⟩
    by_cases ht : t' = t
    · subst ht
      simp only [Times.renamed, Function.update_self, Option.some.injEq] at he
      obtain ⟨c', hc', hq, -⟩ := hasks
      rw [hc, Option.some.injEq] at hc'
      subst hc'
      rw [hpath, Path.file.injEq] at hq
      rw [moved_fs, hnames, if_pos ⟨hq.1.symm, hq.2.symm⟩, he]
    · exact (h.current t' _ v' u' e hasks (htag ht he) hl).trans (hle d' k')
  case answered =>
    intro t' c' v' u' x e hc' hr' hpc he
    rcases moved_calls.mp hc' with ⟨rfl, rfl⟩ | ⟨ht, hc'⟩
    · cases hpc
    · have hold := h.answered t' c' v' u' x e hc' hr' hpc (htag ht he)
      rw [moved_fs, hfs]
      exact hold.trans_eq (hdisc c'.dir c'.key).symm
  case seen =>
    intro t' q e hasks he
    rw [moved_asks hc] at hasks
    have hold := h.seen t' q e hasks (htag (hread hasks) he)
    obtain ⟨c', -, rfl, -⟩ := hasks
    rw [moved_fs, hfs]
    exact hold.trans_eq (hdisc c'.dir c'.key).symm
  case looking =>
    intro t' c' hc' hr'
    rcases moved_calls.mp hc' with ⟨rfl, rfl⟩ | ⟨ht, hc'⟩
    · rw [goOn_request, hr] at hr'
      cases hr'
    · refine looking_mono (g := g) ((moved_asks hc).mpr ·) id ?_ (fun _ _ hl => hl) (hsame ht)
        (h.looking t' c' hc' hr')
      intro w v' u' e _ he
      have hw : w ≠ t := by
        rintro rfl
        rw [hnone] at he
        cases he
      exact (hsame hw).trans he
  case after_write =>
    intro t₁ t₂ q v' u' e e' h1 h2 he hl he' hlt
    rw [moved_asks hc] at h1 h2
    by_cases ht : t₁ = t
    · subst ht
      simp only [Times.renamed, Function.update_self, Option.some.injEq] at he
      exact absurd (he ▸ hlt) (hf.asks_lt h2).not_gt
    · exact h.after_write t₁ t₂ q v' u' e e' h1 h2 (htag ht he) hl (htag (hread h2) he') hlt
  case after_read =>
    intro t₁ t₂ c' e₀ e e' hc' hr' h2 hended hlt he he'
    rw [moved_asks hc] at h2
    rcases moved_calls.mp hc' with ⟨rfl, rfl⟩ | ⟨ht, hc'⟩
    · rw [goOn_request, hr] at hr'
      cases hr'
    · exact h.after_read t₁ t₂ c' e₀ e e' hc' hr' h2 hended hlt (htag ht he)
        (htag (hread h2) he')

/-- Opening a file whose name is synced: the disc will never be behind what was read. -/
theorem Timed.opened (h : s.Timed g) (hf : s.Filed g) (hc : s.calls t = some c)
    (hr : c.request = .read) (hnone : g.tag t = none)
    (hquiet : ∀ u ∈ s.fs.updates, u.1 ≠ c.path)
    (hlook : s.Looking (g.opened t (g.time (s.fs.names c.path))) t c.path pc) :
    (s.moved t c s.fs pc).Timed (g.opened t (g.time (s.fs.names c.path))) := by
  have hsynced : s.fs.names c.path = s.fs.onDisc c.path := by
    rcases FileSystem.applied_cases s.fs.onDisc s.fs.updates c.path with hq | hq
    · exact hq
    · exact absurd rfl (hquiet _ hq)
  have hsame : ∀ {t'}, t' ≠ t → (g.opened t (g.time (s.fs.names c.path))).tag t' = g.tag t' :=
    fun ht => Function.update_of_ne ht _ _
  have hself : (g.opened t (g.time (s.fs.names c.path))).tag t = some (g.time (s.fs.names c.path)) :=
    Function.update_self _ _ _
  have hat : (g.opened t (g.time (s.fs.names c.path))).time = g.time := rfl
  have hwrite : ∀ {t' q v u}, s.Asks t' q (.write v u) → t' ≠ t := by
    rintro t' q v u ⟨c', hc', -, hr'⟩ rfl
    rw [hc, Option.some.injEq] at hc'
    rw [← hc', hr] at hr'
    cases hr'
  have hmine : ∀ {q r}, s.Asks t q r → q = c.path := by
    rintro q r ⟨c', hc', rfl, -⟩
    rw [hc, Option.some.injEq] at hc'
    rw [hc']
  refine ⟨h.removed, h.newer, ?current, ?answered, ?seen, ?looking, ?after_write, ?after_read⟩
  case current =>
    intro t' q v u e hasks he hl
    rw [moved_asks hc] at hasks
    rw [hsame (hwrite hasks)] at he
    exact h.current t' q v u e hasks he hl
  case answered =>
    intro t' c' v u x e hc' hr' hpc he
    rcases moved_calls.mp hc' with ⟨rfl, rfl⟩ | ⟨ht, hc'⟩
    · rw [goOn_request, hr] at hr'
      cases hr'
    · rw [hsame ht] at he
      exact h.answered t' c' v u x e hc' hr' hpc he
  case seen =>
    intro t' q e hasks he
    rw [moved_asks hc] at hasks
    by_cases ht : t' = t
    · subst ht
      rw [hself, Option.some.injEq] at he
      rw [hat, hmine hasks, moved_fs, ← hsynced, he]
    · rw [hsame ht] at he
      exact h.seen t' q e hasks he
  case looking =>
    intro t' c' hc' hr'
    rcases moved_calls.mp hc' with ⟨rfl, rfl⟩ | ⟨ht, hc'⟩
    · exact looking_mono ((moved_asks hc).mpr ·) id (fun _ he => he) (fun _ _ hl => hl) rfl hlook
    · refine looking_mono (g := g) ((moved_asks hc).mpr ·) id ?_ (fun _ _ hl => hl) (hsame ht)
        (h.looking t' c' hc' hr')
      exact fun hasks he => (hsame (hwrite hasks)).trans he
  case after_write =>
    intro t₁ t₂ q v u e e' h1 h2 he hl he' hlt
    rw [moved_asks hc] at h1 h2
    rw [hsame (hwrite h1)] at he
    by_cases ht : t₂ = t
    · subst ht
      rw [hself, Option.some.injEq] at he'
      rw [← he', ← hmine h2]
      exact h.current t₁ q v u e h1 he hl
    · rw [hsame ht] at he'
      exact h.after_write t₁ t₂ q v u e e' h1 h2 he hl he' hlt
  case after_read =>
    intro t₁ t₂ c' e₀ e e' hc' hr' h2 hended hlt he he'
    rw [moved_asks hc] at h2
    rcases moved_calls.mp hc' with ⟨rfl, rfl⟩ | ⟨ht, hold⟩
    · have hclock := hf.asks_lt h2
      simp only [FileCall.goOn] at hended
      split at hended
      · cases hended
        exact absurd hlt hclock.not_gt
      · cases hended
    · rw [hsame ht] at he
      by_cases ht₂ : t₂ = t
      · subst ht₂
        rw [hself, Option.some.injEq] at he'
        have hold := h.seen t₁ c'.path e ⟨c', hold, rfl, hr'⟩ he
        rw [hmine h2, ← hsynced, he'] at hold
        exact hold
      · rw [hsame ht₂] at he'
        exact h.after_read t₁ t₂ c' e₀ e e' hold hr' h2 hended hlt he he'

/-! ## A new call -/

section Called

variable {dir : D} {key : String} {r : CallRequest}

omit [DecidableEq D] in
theorem called_calls {t' : ℕ} {c' : FileCall D} :
    (s.call dir key r pc).calls t' = some c' ↔
      t' = s.clock ∧ c' = ⟨dir, key, r, pc, none⟩ ∨ t' ≠ s.clock ∧ s.calls t' = some c' := by
  simp only [call, Function.update_apply]
  split <;> simp_all [eq_comm]

omit [DecidableEq D] in
theorem called_asks {t' : ℕ} {q : Path D} {r' : CallRequest} :
    (s.call dir key r pc).Asks t' q r' ↔
      t' = s.clock ∧ q = .file dir key ∧ r' = r ∨ t' ≠ s.clock ∧ s.Asks t' q r' := by
  simp only [Asks, called_calls]
  constructor
  · rintro ⟨c', ⟨rfl, rfl⟩ | ⟨ht, hc'⟩, hq, hr⟩
    · exact .inl ⟨rfl, hq.symm, hr.symm⟩
    · exact .inr ⟨ht, c', hc', hq, hr⟩
  · rintro (⟨rfl, rfl, rfl⟩ | ⟨ht, c', hc', hq, hr⟩)
    · exact ⟨_, .inl ⟨rfl, rfl⟩, rfl, rfl⟩
    · exact ⟨c', .inr ⟨ht, hc'⟩, hq, hr⟩

omit [DecidableEq D] in
theorem Filed.tag_clock (h : s.Filed g) : g.tag s.clock = none := by
  cases htag : g.tag s.clock with
  | none => rfl
  | some e => exact absurd (h.tag_past _ e htag) (lt_irrefl _)

omit [DecidableEq D] in
theorem Filed.file_clock (h : s.Filed g) : g.file s.clock = none := by
  cases hfile : g.file s.clock with
  | none => rfl
  | some i => exact absurd (h.owned _ i hfile).2 (lt_irrefl _)

omit [DecidableEq D] in
theorem Filed.called (h : s.Filed g)
    (hr : ∀ v u, r = .write v u → s.FreshUuid u ∧ pc = .create) :
    (s.call dir key r pc).Filed g := by
  have hold : ∀ {t' q r'}, s.Asks t' q r' → (s.call dir key r pc).Asks t' q r' :=
    fun ha => called_asks.mpr (.inr ⟨(h.asks_lt ha).ne, ha⟩)
  have htagged : ∀ {t' q r' e}, (s.call dir key r pc).Asks t' q r' → g.tag t' = some e →
      s.Asks t' q r' := by
    intro t' q r' e ha he
    rcases called_asks.mp ha with ⟨rfl, -, -⟩ | ⟨-, ha⟩
    · rw [h.tag_clock] at he
      cases he
    · exact ha
  have hfresh : ∀ {t' q v v' u}, s.Asks t' q (.write v u) → r ≠ .write v' u := by
    rintro t' q v v' u ⟨c', hc', -, hreq⟩ hr'
    exact (hr v' u hr').1 t' (h.past t' c' hc').1 c' hc' (by rw [hreq]; rfl)
  refine ⟨?past, ?uuids, ?owned, h.owner, ?tag_past, ?tag_le, ?tag_ended, h.lost_tag, ?standing,
    ?tagged, ?tags, ?mentioned⟩
  case past =>
    intro t' c' hc'
    rcases called_calls.mp hc' with ⟨rfl, rfl⟩ | ⟨-, hc'⟩
    · exact ⟨Nat.lt_succ_self _, fun e he => by cases he⟩
    · obtain ⟨h1, h2⟩ := h.past t' c' hc'
      exact ⟨h1.trans (Nat.lt_succ_self _),
        fun e he => ⟨(h2 e he).1, (h2 e he).2.trans (Nat.lt_succ_self _)⟩⟩
  case uuids =>
    intro t₁ t₂ q q' v v' u h1 h2
    rcases called_asks.mp h1 with ⟨rfl, -, hv⟩ | ⟨-, h1⟩ <;>
      rcases called_asks.mp h2 with ⟨rfl, -, hv'⟩ | ⟨-, h2⟩
    · rfl
    · exact absurd hv.symm (hfresh h2)
    · exact absurd hv'.symm (hfresh h1)
    · exact h.uuids t₁ t₂ q q' v v' u h1 h2
  case owned =>
    exact fun t' i hi => ⟨(h.owned t' i hi).1, (h.owned t' i hi).2.trans (Nat.lt_succ_self _)⟩
  case tag_past => exact fun t' e he => (h.tag_past t' e he).trans (Nat.lt_succ_self _)
  case tag_le => exact fun t' e he => (h.tag_le t' e he).trans (Nat.le_succ _)
  case tag_ended =>
    intro t' c' e₀ e hc' hended he
    rcases called_calls.mp hc' with ⟨rfl, rfl⟩ | ⟨-, hc'⟩
    · cases hended
    · exact h.tag_ended t' c' e₀ e hc' hended he
  case standing =>
    intro t' c' v u hc' hr'
    rcases called_calls.mp hc' with ⟨rfl, rfl⟩ | ⟨-, hc'⟩
    · rw [(hr v u hr').2]
      exact ⟨h.file_clock, h.tag_clock⟩
    · exact h.standing t' c' v u hc' hr'
  case tagged =>
    intro t' q v u e ha he
    obtain ⟨h1, h2, h3⟩ := h.tagged t' q v u e (htagged ha he) he
    exact ⟨h1, h2.trans (Nat.lt_succ_self _), h3⟩
  case tags =>
    intro t₁ t₂ q q' v v' u u' e h1 h2 he he'
    exact h.tags t₁ t₂ q q' v v' u u' e (htagged h1 he) (htagged h2 he') he he'
  case mentioned =>
    intro p i hm
    obtain ⟨t', q, v, u, ha, hrest⟩ := h.mentioned p i hm
    exact ⟨t', q, v, u, hold ha, hrest⟩

theorem Timed.called (h : s.Timed g) (hf : s.Filed g) (hr : r = .read → pc = .openFile)
    (hpc : ∀ x, pc ≠ .returned x) : (s.call dir key r pc).Timed g := by
  have hold : ∀ {t' q r'}, s.Asks t' q r' → (s.call dir key r pc).Asks t' q r' :=
    fun ha => called_asks.mpr (.inr ⟨(hf.asks_lt ha).ne, ha⟩)
  have htagged : ∀ {t' q r' e}, (s.call dir key r pc).Asks t' q r' → g.tag t' = some e →
      s.Asks t' q r' := by
    intro t' q r' e ha he
    rcases called_asks.mp ha with ⟨rfl, -, -⟩ | ⟨-, ha⟩
    · rw [hf.tag_clock] at he
      cases he
    · exact ha
  refine ⟨h.removed, h.newer, ?current, ?answered, ?seen, ?looking, ?after_write, ?after_read⟩
  case current => exact fun t' q v u e ha he hl => h.current t' q v u e (htagged ha he) he hl
  case answered =>
    intro t' c' v u x e hc' hr' hx he
    rcases called_calls.mp hc' with ⟨rfl, rfl⟩ | ⟨-, hc'⟩
    · exact absurd hx (hpc x)
    · exact h.answered t' c' v u x e hc' hr' hx he
  case seen => exact fun t' q e ha he => h.seen t' q e (htagged ha he) he
  case looking =>
    intro t' c' hc' hr'
    rcases called_calls.mp hc' with ⟨rfl, rfl⟩ | ⟨-, hc'⟩
    · rw [hr hr']
      exact hf.tag_clock
    · exact looking_mono hold id (fun _ he => he) (fun _ _ hl => hl) rfl (h.looking t' c' hc' hr')
  case after_write =>
    intro t₁ t₂ q v u e e' h1 h2 he hl he' hlt
    exact h.after_write t₁ t₂ q v u e e' (htagged h1 he) (htagged h2 he') he hl he' hlt
  case after_read =>
    intro t₁ t₂ c' e₀ e e' hc' hr' h2 hended hlt he he'
    rcases called_calls.mp hc' with ⟨rfl, rfl⟩ | ⟨-, hc'⟩
    · cases hended
    · exact h.after_read t₁ t₂ c' e₀ e e' hc' hr' (htagged h2 he') hended hlt he he'

end Called

/-! ## A crash -/

section Crash

variable {kept : List (Path D × Option ℕ)} {garbage : ℕ → List UInt8}

/-- The state after a crash. -/
def crashed (s : StableStorage D) (kept : List (Path D × Option ℕ)) (garbage : ℕ → List UInt8) :
    StableStorage D :=
  { fs := s.fs.crash kept garbage
    calls := fun t => (s.calls t).map fun c => c.cutOff s.clock
    clock := s.clock + 1 }

/-- A crash undoes the renames that are later than what the disc has then. -/
def undone (s : StableStorage D) (g : Times) (kept : List (Path D × Option ℕ)) : Times :=
  { g with lost := fun t => g.lost t ∨ ∃ q v u e, s.Asks t q (.write v u) ∧ g.tag t = some e ∧
      g.time (FileSystem.applied s.fs.onDisc kept q) < e }

omit [DecidableEq D] in
theorem cutOff_path (clock : ℕ) : (c.cutOff clock).path = c.path := by
  unfold FileCall.cutOff
  split <;> rfl

omit [DecidableEq D] in
theorem cutOff_request (clock : ℕ) : (c.cutOff clock).request = c.request := by
  unfold FileCall.cutOff
  split <;> rfl

theorem crashed_calls {t' : ℕ} {c' : FileCall D} :
    (s.crashed kept garbage).calls t' = some c' ↔
      ∃ c, s.calls t' = some c ∧ c.cutOff s.clock = c' := by
  simp [crashed]

theorem crashed_asks {t' : ℕ} {q : Path D} {r : CallRequest} :
    (s.crashed kept garbage).Asks t' q r ↔ s.Asks t' q r := by
  simp only [Asks, crashed_calls]
  constructor
  · rintro ⟨_, ⟨c, hc, rfl⟩, hq, hr⟩
    exact ⟨c, hc, cutOff_path (c := c) _ ▸ hq, cutOff_request (c := c) _ ▸ hr⟩
  · rintro ⟨c, hc, hq, hr⟩
    exact ⟨_, ⟨c, hc, rfl⟩, (cutOff_path _).trans hq, (cutOff_request _).trans hr⟩

theorem crashed_mentions (hkept : kept.Sublist s.fs.updates) {p : Path D} {i : ℕ}
    (hm : Mentions (s.crashed kept garbage).fs p i) : Mentions s.fs p i := by
  rcases hm with hm | hm
  · change FileSystem.applied s.fs.onDisc kept p = some i at hm
    rcases FileSystem.applied_cases s.fs.onDisc kept p with hp | hp
    · exact .inl (hp.symm.trans hm)
    · rw [hm] at hp
      exact .inr (hkept.subset hp)
  · cases hm

/-- The disc does not go back. -/
theorem Timed.onDisc_crash_le (h : s.Timed g) (hkept : kept.Sublist s.fs.updates) (d : D)
    (k : String) : g.time (s.fs.onDisc (.file d k)) ≤
      g.time (FileSystem.applied s.fs.onDisc kept (.file d k)) := by
  rcases FileSystem.applied_cases s.fs.onDisc kept (.file d k) with hq | hq
  · rw [hq]
  · have hup := hkept.subset hq
    cases hx : FileSystem.applied s.fs.onDisc kept (.file d k) with
    | none => exact absurd (hx ▸ hup) (h.removed d k)
    | some i => exact (h.newer d k i (hx ▸ hup)).1

/-- An acknowledged write is not undone, and neither is one that has been read. -/
theorem Timed.not_undone (h : s.Timed g) (hkept : kept.Sublist s.fs.updates) {q : Path D}
    {r : CallRequest} (hasks : s.Asks t q r) {e : ℕ} (he : g.tag t = some e) (hl : ¬ g.lost t)
    (hle : e ≤ g.time (s.fs.onDisc q)) : ¬ (s.undone g kept).lost t := by
  rintro (hl' | ⟨q', v, u, e', hasks', he', hlt⟩)
  · exact hl hl'
  · obtain ⟨c, hc, rfl, -⟩ := hasks
    obtain ⟨c', hc', rfl, -⟩ := hasks'
    rw [hc, Option.some.injEq] at hc'
    subst hc'
    rw [he, Option.some.injEq] at he'
    subst he'
    exact absurd (hle.trans (h.onDisc_crash_le hkept c.dir c.key)) hlt.not_ge

theorem Filed.crashed (h : s.Filed g) (ht : s.Timed g) (hkept : kept.Sublist s.fs.updates) :
    (s.crashed kept garbage).Filed (s.undone g kept) := by
  refine ⟨?past, ?uuids, ?owned, h.owner, ?tag_past, ?tag_le, ?tag_ended, ?lost_tag, ?standing,
    ?tagged, ?tags, ?mentioned⟩
  case past =>
    intro t' c' hc'
    obtain ⟨c, hc, rfl⟩ := crashed_calls.mp hc'
    obtain ⟨h1, h2⟩ := h.past t' c hc
    refine ⟨h1.trans (Nat.lt_succ_self _), ?_⟩
    intro e he
    unfold FileCall.cutOff at he
    split at he
    · exact ⟨(h2 e he).1, (h2 e he).2.trans (Nat.lt_succ_self _)⟩
    · cases he
      exact ⟨h1, Nat.lt_succ_self _⟩
  case uuids =>
    intro t₁ t₂ q q' v v' u h1 h2
    exact h.uuids t₁ t₂ q q' v v' u (crashed_asks.mp h1) (crashed_asks.mp h2)
  case owned =>
    exact fun t' i hi => ⟨(h.owned t' i hi).1, (h.owned t' i hi).2.trans (Nat.lt_succ_self _)⟩
  case tag_past => exact fun t' e he => (h.tag_past t' e he).trans (Nat.lt_succ_self _)
  case tag_le => exact fun t' e he => (h.tag_le t' e he).trans (Nat.le_succ _)
  case tag_ended =>
    intro t' c' e₀ e hc' hended he
    obtain ⟨c, hc, rfl⟩ := crashed_calls.mp hc'
    unfold FileCall.cutOff at hended
    split at hended
    · exact h.tag_ended t' c e₀ e hc hended he
    · cases hended
      exact h.tag_le t' e he
  case lost_tag =>
    rintro t' (hl | ⟨-, -, -, e, -, he, -⟩)
    · exact h.lost_tag t' hl
    · exact Option.ne_none_iff_exists'.mpr ⟨e, he⟩
  case standing =>
    intro t' c' v u hc' hr
    obtain ⟨c, hc, rfl⟩ := crashed_calls.mp hc'
    rw [cutOff_request] at hr
    have hst := h.standing t' c v u hc hr
    cases hpc : c.pc with
    | returned x =>
      rw [hpc] at hst
      have hover : c.cutOff s.clock = c := by simp [FileCall.cutOff, hpc, FileCall.isOver]
      obtain ⟨e, he⟩ := Option.ne_none_iff_exists'.mp hst.1
      rw [hover, hpc]
      exact ⟨hst.1, ht.not_undone hkept ⟨c, hc, rfl, hr⟩ he hst.2
        (ht.answered t' c v u x e hc hr hpc he)⟩
    | _ =>
      have hover : (c.cutOff s.clock).pc = .failed := by
        simp [FileCall.cutOff, hpc, FileCall.isOver, FileCall.goOn]
      rw [hover]
      trivial
  case tagged =>
    intro t' q v u e hasks he
    obtain ⟨h1, h2, i, hi, hb, hv⟩ := h.tagged t' q v u e (crashed_asks.mp hasks) he
    refine ⟨h1, h2.trans (Nat.lt_succ_self _), i, hi, hb, ?_⟩
    simp [StableStorage.crashed, FileSystem.crash, hv]
  case tags =>
    intro t₁ t₂ q q' v v' u u' e h1 h2 he he'
    exact h.tags t₁ t₂ q q' v v' u u' e (crashed_asks.mp h1) (crashed_asks.mp h2) he he'
  case mentioned =>
    intro p i hm
    obtain ⟨t', q, v, u, hasks, hi, hp | ⟨rfl, htag, hl⟩⟩ :=
      h.mentioned p i (crashed_mentions hkept hm)
    · exact ⟨t', q, v, u, crashed_asks.mpr hasks, hi, .inl hp⟩
    · refine ⟨t', p, v, u, crashed_asks.mpr hasks, hi, .inr ⟨rfl, htag, ?_⟩⟩
      -- the name the disc has is that of the time it is compared with
      rintro (hl' | ⟨q', v', u', e, hasks', he, hlt⟩)
      · exact hl hl'
      · obtain ⟨-, -, j, hj, hb, -⟩ := h.tagged t' q' v' u' e hasks' he
        rw [hi, Option.some.injEq] at hj
        obtain ⟨c, hc, rfl, -⟩ := hasks
        obtain ⟨c', hc', rfl, -⟩ := hasks'
        rw [hc, Option.some.injEq] at hc'
        subst hc'
        have hdisc : FileSystem.applied s.fs.onDisc kept c.path = some i :=
          hm.resolve_right List.not_mem_nil
        rw [hdisc] at hlt
        subst hj
        exact hlt.ne hb

theorem Timed.crashed (h : s.Timed g) (hf : s.Filed g) (hkept : kept.Sublist s.fs.updates) :
    (s.crashed kept garbage).Timed (s.undone g kept) := by
  have hdisc : ∀ q, (s.crashed kept garbage).fs.onDisc q =
      FileSystem.applied s.fs.onDisc kept q := fun _ => rfl
  refine ⟨?removed, ?newer, ?current, ?answered, ?seen, ?looking, ?after_write, ?after_read⟩
  case removed => exact fun d k => List.not_mem_nil
  case newer => exact fun d k i hmem => absurd hmem List.not_mem_nil
  case current =>
    intro t' q v u e hasks he hl
    by_contra hlt
    exact hl (.inr ⟨q, v, u, e, crashed_asks.mp hasks, he, not_le.mp hlt⟩)
  case answered =>
    intro t' c' v u x e hc' hr hpc he
    obtain ⟨c, hc, rfl⟩ := crashed_calls.mp hc'
    rw [cutOff_request] at hr
    have hpc' : c.pc = .returned x := by
      unfold FileCall.cutOff at hpc
      split at hpc
      · exact hpc
      · cases hpc
    rw [cutOff_path]
    exact (h.answered t' c v u x e hc hr hpc' he).trans (h.onDisc_crash_le hkept c.dir c.key)
  case seen =>
    intro t' q e hasks he
    rw [crashed_asks] at hasks
    have hold := h.seen t' q e hasks he
    obtain ⟨c, -, rfl, -⟩ := hasks
    exact hold.trans (h.onDisc_crash_le hkept c.dir c.key)
  case looking =>
    intro t' c' hc' hr
    obtain ⟨c, hc, rfl⟩ := crashed_calls.mp hc'
    rw [cutOff_request] at hr
    rw [cutOff_path]
    have hasks : s.Asks t' c.path .read := ⟨c, hc, rfl, hr⟩
    have hlook := h.looking t' c hc hr
    cases hpc : c.pc with
    | returned x =>
      have hover : c.cutOff s.clock = c := by simp [FileCall.cutOff, hpc, FileCall.isOver]
      rw [hover, hpc]
      rw [hpc] at hlook
      cases x with
      | none => exact hlook
      | some v =>
        obtain ⟨w, i, e, ⟨⟨u, hu⟩, hi, he, hl⟩, hte⟩ := hlook
        refine ⟨w, i, e, ⟨⟨u, crashed_asks.mpr hu⟩, hi, he, ?_⟩, hte⟩
        exact h.not_undone hkept hu he hl (h.seen t' c.path e hasks hte)
    | _ =>
      have hover : (c.cutOff s.clock).pc = .failed := by
        simp [FileCall.cutOff, hpc, FileCall.isOver, FileCall.goOn]
      rw [hover]
      trivial
  case after_write =>
    intro t₁ t₂ q v u e e' h1 h2 he hl he' hlt
    exact h.after_write t₁ t₂ q v u e e' (crashed_asks.mp h1) (crashed_asks.mp h2) he
      (fun hl' => hl (.inl hl')) he' hlt
  case after_read =>
    intro t₁ t₂ c' e₀ e e' hc' hr h2 hended hlt he he'
    obtain ⟨c, hc, rfl⟩ := crashed_calls.mp hc'
    rw [cutOff_request] at hr
    rw [cutOff_path, crashed_asks] at h2
    unfold FileCall.cutOff at hended
    split at hended
    · exact h.after_read t₁ t₂ c e₀ e e' hc hr h2 hended hlt he he'
    · cases hended
      exact absurd hlt (hf.asks_lt h2).not_gt

end Crash

/-! ## The operations of a call -/

/-- The two invariants together. -/
structure Sound (s : StableStorage D) (g : Times) : Prop where
  filed : s.Filed g
  timed : s.Timed g

/-- An operation that leaves the names alone. -/
theorem Sound.moved (h : s.Sound g) (hc : s.calls t = some c) (hdisc : fs'.onDisc = s.fs.onDisc)
    (hup : fs'.updates = s.fs.updates) (hcount : fs'.count = s.fs.count)
    (hfiles : ∀ i, fs'.files i ≠ s.fs.files i → g.file t = some i ∧ g.tag t = none)
    (hst : ∀ v u, c.request = .write v u → Standing fs' g t v pc ∧ ∀ x, pc ≠ .returned x)
    (hlook : c.request = .read → s.Looking g t c.path pc) : (s.moved t c fs' pc).Sound g := by
  have hment : ∀ p i, Mentions fs' p i → Mentions s.fs p i := by
    intro p i hm
    simpa only [Mentions, hdisc, hup] using hm
  refine ⟨h.filed.moved_same hc hcount hfiles hment fun v u hr => (hst v u hr).1, ?_⟩
  refine h.timed.moved h.filed hc id rfl rfl rfl ?_ ?_ ?_ ?_ hlook
  · exact fun d k => by rw [hdisc]
  · exact fun d k => by rw [FileSystem.names, FileSystem.names, hdisc, hup]
  · exact fun d k x hx => ⟨hup ▸ hx, by rw [hdisc]⟩
  · exact fun v u x e hr hpc _ => absurd hpc ((hst v u hr).2 x)

/-- An operation that fails. -/
theorem Sound.failed (h : s.Sound g) (hc : s.calls t = some c) :
    (s.moved t c s.fs .failed).Sound g :=
  h.moved hc rfl rfl rfl (fun _ hne => absurd rfl hne) (fun _ _ _ => ⟨trivial, by simp⟩)
    fun _ => trivial

section Write

variable {v : List UInt8} {u : Uuid}

/-- The temporary file is new. -/
theorem Sound.created (h : s.Sound g) (hc : s.calls t = some c) (hr : c.request = .write v u)
    (hpc : c.pc = .create) : ∃ g', (s.moved t c (s.fs.create (.temp u)).1
      (.writeAll (s.fs.create (.temp u)).2 0)).Sound g' := by
  obtain ⟨hfile, htag⟩ : g.file t = none ∧ g.tag t = none := by
    have hst := h.filed.standing t c v u hc hr
    rwa [hpc] at hst
  have hnone : s.fs.names (.temp u) = none := by
    cases hn : s.fs.names (.temp u) with
    | none => rfl
    | some i => exact absurd (h.filed.temp_names hc hr hn) (by simp [hfile])
  obtain ⟨fs', hfs⟩ : ∃ fs' : FileSystem (Path D), fs' = { s.fs with
      files := Function.update s.fs.files s.fs.count ⟨[], false⟩
      count := s.fs.count + 1
      updates := s.fs.updates ++ [(.temp u, some s.fs.count)] } := ⟨_, rfl⟩
  have hcreate : s.fs.create (.temp u) = (fs', s.fs.count) := by
    simp only [FileSystem.create, hnone, hfs]
  rw [hcreate]
  -- other calls have other files
  have hold : ∀ {t' i}, g.file t' = some i → i ≠ s.fs.count :=
    fun hi => (h.filed.owned _ _ hi).1.ne
  have hother : ∀ {t' i}, t' ≠ t → (Function.update g.file t (some s.fs.count) t' = some i ↔
      g.file t' = some i) := by
    intro t' i ht
    rw [Function.update_of_ne ht]
  refine ⟨{ g with file := Function.update g.file t (some s.fs.count) }, ?_, ?_⟩
  · refine h.filed.moved hc ⟨fun t' ht => Function.update_of_ne ht _ _, fun _ _ => rfl, rfl,
      fun _ _ _ _ => rfl, ?_, by simp [hfs], ?_, ?_, id⟩ (h.filed.tag_le t) ?_ ?_ ?_
    · intro t' _ i hi
      rw [hfs]
      exact Function.update_of_ne (hold hi) _ _
    · intro i hi
      simp only [Function.update_self, Option.some.injEq] at hi
      subst hi
      exact ⟨by simp [hfs], fun t' _ hi' => hold hi' rfl⟩
    · intro i hi
      rw [hfile] at hi
      cases hi
    · intro v' u' _
      refine ⟨Function.update_self _ _ _, htag, ?_⟩
      simp [hfs]
    · intro v' u' e _ he
      rw [htag] at he
      cases he
    · intro p i hm
      rcases hm with hm | hm
      · rw [hfs] at hm
        exact .inl (.inl hm)
      · simp only [hfs, List.mem_append, List.mem_singleton, Prod.mk.injEq, Option.some.injEq] at hm
        rcases hm with hm | ⟨rfl, rfl⟩
        · exact .inl (.inr hm)
        · exact .inr ⟨v, u, hr, Function.update_self _ _ _, .inl rfl⟩
  · refine h.timed.moved h.filed hc ?_ rfl rfl rfl ?_ ?_ ?_ ?_ ?_
    · intro t' i hi
      by_cases ht : t' = t
      · subst ht
        rw [hfile] at hi
        cases hi
      · exact (hother ht).mpr hi
    · exact fun d k => by rw [hfs]
    · intro d k
      rw [hfs]
      change FileSystem.applied s.fs.onDisc (s.fs.updates ++ [(.temp u, some s.fs.count)])
        (.file d k) = _
      rw [FileSystem.applied_append, FileSystem.applied_apply]
      simp [FileSystem.names]
    · intro d k x hx
      simp only [hfs, List.mem_append, List.mem_singleton, Prod.mk.injEq, reduceCtorEq, false_and,
        or_false] at hx
      exact ⟨hx, by rw [hfs]⟩
    · exact fun _ _ x _ _ hpc' _ => absurd hpc' (by simp)
    · intro hr'
      rw [hr] at hr'
      cases hr'

/-- Some more bytes are in the temporary file. -/
theorem Sound.wrote (h : s.Sound g) (hc : s.calls t = some c) (hr : c.request = .write v u)
    {file written n : ℕ} (hpc : c.pc = .writeAll file written) :
    (s.moved t c (s.fs.write file ((v.drop written).take n)) (.writeAll file (written + n))).Sound
      g := by
  obtain ⟨hfile, htag, hcontent⟩ : g.file t = some file ∧ g.tag t = none ∧
      (s.fs.files file).content = v.take written := by
    have hst := h.filed.standing t c v u hc hr
    rwa [hpc] at hst
  refine h.moved hc rfl rfl rfl ?_ ?_ ?_
  · intro i hne
    have hi : i = file := by
      by_contra hi
      exact hne (Function.update_of_ne hi _ _)
    exact hi ▸ ⟨hfile, htag⟩
  · intro v' u' hr'
    rw [hr, CallRequest.write.injEq] at hr'
    obtain ⟨rfl, rfl⟩ := hr'
    refine ⟨⟨hfile, htag, ?_⟩, by simp⟩
    simp [FileSystem.write, hcontent, List.take_add]
  · intro hr'
    rw [hr] at hr'
    cases hr'

/-- The bytes are all there. -/
theorem Sound.complete (h : s.Sound g) (hc : s.calls t = some c) (hr : c.request = .write v u)
    {file written : ℕ} (hpc : c.pc = .writeAll file written) (hlen : v.length ≤ written) :
    (s.moved t c s.fs (.syncData file)).Sound g := by
  obtain ⟨hfile, htag, hcontent⟩ : g.file t = some file ∧ g.tag t = none ∧
      (s.fs.files file).content = v.take written := by
    have hst := h.filed.standing t c v u hc hr
    rwa [hpc] at hst
  refine h.moved hc rfl rfl rfl (fun _ hne => absurd rfl hne) ?_ ?_
  · intro v' u' hr'
    rw [hr, CallRequest.write.injEq] at hr'
    obtain ⟨rfl, rfl⟩ := hr'
    exact ⟨⟨hfile, htag, hcontent.trans (List.take_of_length_le hlen)⟩, by simp⟩
  · intro hr'
    rw [hr] at hr'
    cases hr'

/-- The bytes are on the disc. -/
theorem Sound.synced (h : s.Sound g) (hc : s.calls t = some c) (hr : c.request = .write v u)
    {file : ℕ} (hpc : c.pc = .syncData file) :
    (s.moved t c (s.fs.syncData file) .rename).Sound g := by
  obtain ⟨hfile, htag, hcontent⟩ : g.file t = some file ∧ g.tag t = none ∧
      (s.fs.files file).content = v := by
    have hst := h.filed.standing t c v u hc hr
    rwa [hpc] at hst
  refine h.moved hc rfl rfl rfl ?_ ?_ ?_
  · intro i hne
    have hi : i = file := by
      by_contra hi
      exact hne (Function.update_of_ne hi _ _)
    exact hi ▸ ⟨hfile, htag⟩
  · intro v' u' hr'
    rw [hr, CallRequest.write.injEq] at hr'
    obtain ⟨rfl, rfl⟩ := hr'
    refine ⟨⟨file, hfile, htag, ?_⟩, by simp⟩
    simp [FileSystem.syncData, hcontent]
  · intro hr'
    rw [hr] at hr'
    cases hr'

/-- The rename: the write takes effect. -/
theorem Sound.renamed (h : s.Sound g) (hc : s.calls t = some c) (hr : c.request = .write v u)
    (hpc : c.pc = .rename) (hfs : s.fs.rename (.temp u) c.path = some fs') :
    ∃ g', (s.moved t c fs' .openDir).Sound g' := by
  obtain ⟨i, hi, htag, hv⟩ : ∃ i, g.file t = some i ∧ g.tag t = none ∧
      s.fs.files i = ⟨v, true⟩ := by
    have hst := h.filed.standing t c v u hc hr
    rwa [hpc] at hst
  have hlt := (h.filed.past t c hc).1
  obtain ⟨j, hj, rfl⟩ := Option.map_eq_some_iff.mp hfs
  have hij : i = j := Option.some.inj (hi.symm.trans (h.filed.temp_names hc hr hj))
  subst hij
  have hself : (g.renamed t i s.clock).tag t = some s.clock := Function.update_self _ _ _
  refine ⟨g.renamed t i s.clock, ?_, h.timed.renamed h.filed hc hr hi htag rfl⟩
  refine h.filed.moved hc ⟨fun _ _ => rfl, fun t' ht => Function.update_of_ne ht _ _, rfl, ?_,
    fun _ _ _ _ => rfl, le_rfl, ?_, fun _ hi => hi, fun _ => by simp [hself]⟩ ?_ ?_ ?_ ?_
  · intro t' ht j hj'
    refine Function.update_of_ne ?_ _ _
    rintro rfl
    exact ht (h.filed.owner t' t j hj' hi)
  · intro j hj'
    exact ⟨(h.filed.owned t j hj').1, fun t' ht hj'' => ht (h.filed.owner t' t j hj'' hj')⟩
  · intro e he
    rw [hself, Option.some.injEq] at he
    exact he.ge
  · intro v' u' _
    exact ⟨by simp [hself], fun hl => h.filed.lost_tag t hl htag⟩
  · intro v' u' e hr' he
    rw [hr, CallRequest.write.injEq] at hr'
    obtain ⟨rfl, rfl⟩ := hr'
    rw [hself, Option.some.injEq] at he
    subst he
    refine ⟨hlt, le_rfl, ?_, i, hi, Function.update_self _ _ _, hv⟩
    intro t' _ q' v' u' ha' he'
    exact absurd (h.filed.tagged t' q' v' u' _ ha' he').2.1 (lt_irrefl _)
  · intro p j hm
    rcases hm with hm | hm
    · exact .inl (.inl hm)
    · simp only [List.mem_append, List.mem_cons, Prod.mk.injEq, Option.some.injEq, reduceCtorEq,
        and_false, List.not_mem_nil, or_false] at hm
      rcases hm with hm | ⟨rfl, rfl⟩
      · exact .inl (.inr hm)
      · exact .inr ⟨v, u, hr, hi, .inr ⟨rfl, by simp [hself], fun hl => h.filed.lost_tag t hl htag⟩⟩

/-- The directory is on the disc, and the write returns. -/
theorem Sound.syncedDir (h : s.Sound g) (hc : s.calls t = some c) (hr : c.request = .write v u)
    (hpc : c.pc = .syncDir) :
    (s.moved t c (s.fs.syncDir (Path.inDir c.dir)) (.returned none)).Sound g := by
  obtain ⟨htag, hl⟩ : g.tag t ≠ none ∧ ¬ g.lost t := by
    have hst := h.filed.standing t c v u hc hr
    rwa [hpc] at hst
  have hdisc : ∀ d k, (s.fs.syncDir (Path.inDir c.dir)).onDisc (.file d k) =
      if d = c.dir then s.fs.names (.file d k) else s.fs.onDisc (.file d k) := by
    intro d k
    rw [FileSystem.onDisc_syncDir]
    simp [Path.inDir]
  constructor
  · refine h.filed.moved_same hc rfl (fun _ hne => absurd rfl hne) ?_ fun _ _ _ => ⟨htag, hl⟩
    intro p i hm
    rcases hm with hm | hm
    · rw [FileSystem.onDisc_syncDir] at hm
      split at hm
      · exact mentions_of_names hm
      · exact .inl hm
    · exact .inr (List.mem_filter.mp hm).1
  · refine h.timed.moved h.filed hc id rfl rfl rfl ?_ ?_ ?_ ?_ ?_
    · intro d k
      rw [hdisc]
      split
      · exact h.timed.onDisc_le d k
      · exact le_rfl
    · exact fun d k => by rw [FileSystem.names_syncDir]
    · intro d k x hx
      obtain ⟨hx, hdir⟩ := List.mem_filter.mp hx
      have hne : d ≠ c.dir := by simpa [Path.inDir] using hdir
      exact ⟨hx, by rw [hdisc, if_neg hne]⟩
    · intro v' u' x e hr' _ he
      change e ≤ g.time ((s.fs.syncDir (Path.inDir c.dir)).onDisc (.file c.dir c.key))
      rw [hdisc, if_pos rfl]
      exact h.timed.current t c.path v' u' e ⟨c, hc, rfl, hr'⟩ he hl
    · intro hr'
      rw [hr] at hr'
      cases hr'

/-- Whatever a `write` does next. -/
theorem Sound.writeStep (h : s.Sound g) (hc : s.calls t = some c) (hr : c.request = .write v u)
    {ok : Bool} {n : ℕ} (hmove : c.writeStep v u ok n s.fs = some (fs', pc)) :
    ∃ g', (s.moved t c fs' pc).Sound g' := by
  have hstand := h.filed.standing t c v u hc hr
  unfold FileCall.writeStep at hmove
  split at hmove
  · next hpc =>
    split at hmove
    · cases hmove
      exact h.created hc hr hpc
    · cases hmove
      exact ⟨g, h.failed hc⟩
  · next file written hpc =>
    split at hmove
    · next hlen =>
      cases hmove
      exact ⟨g, h.complete hc hr hpc hlen⟩
    · split at hmove
      · cases hmove
        exact ⟨g, h.wrote hc hr hpc⟩
      · cases hmove
        exact ⟨g, h.failed hc⟩
  · next file hpc =>
    split at hmove
    · cases hmove
      exact ⟨g, h.synced hc hr hpc⟩
    · cases hmove
      exact ⟨g, h.failed hc⟩
  · next hpc =>
    split at hmove
    · next hfs =>
      split at hmove
      · cases hmove
        exact h.renamed hc hr hpc hfs
      · cases hmove
        exact ⟨g, h.failed hc⟩
    · cases hmove
      exact ⟨g, h.failed hc⟩
  · next hpc =>
    rw [hpc] at hstand
    cases ok
    · cases hmove
      exact ⟨g, h.failed hc⟩
    · cases hmove
      refine ⟨g, h.moved hc rfl rfl rfl (fun _ hne => absurd rfl hne)
        (fun _ _ _ => ⟨hstand, by simp⟩) fun hr' => ?_⟩
      rw [hr] at hr'
      cases hr'
  · next hpc =>
    split at hmove
    · cases hmove
      exact ⟨g, h.syncedDir hc hr hpc⟩
    · cases hmove
      exact ⟨g, h.failed hc⟩
  · cases hmove

end Write

section Read

variable (hr : c.request = .read)

include hr

/-- A read opens its file, or finds none. -/
theorem Sound.opened (h : s.Sound g) (hc : s.calls t = some c) (hpc : c.pc = .openFile)
    (hquiet : ∀ u ∈ s.fs.updates, u.1 ≠ c.path)
    (hpc' : pc = (s.fs.names c.path).elim (.returned none) .readFile) :
    ∃ g', (s.moved t c s.fs pc).Sound g' := by
  have htag : g.tag t = none := by
    have hlook := h.timed.looking t c hc hr
    rwa [hpc] at hlook
  have hself : (g.opened t (g.time (s.fs.names c.path))).tag t =
      some (g.time (s.fs.names c.path)) := Function.update_self _ _ _
  refine ⟨g.opened t (g.time (s.fs.names c.path)), ?_, ?_⟩
  · refine h.filed.moved hc ⟨fun _ _ => rfl, fun t' ht => Function.update_of_ne ht _ _, rfl,
      fun _ _ _ _ => rfl, fun _ _ _ _ => rfl, le_rfl, ?_, fun _ hi => hi, ?_⟩ ?_ ?_ ?_ ?_
    · intro i hi
      exact ⟨(h.filed.owned t i hi).1, fun t' ht hi' => ht (h.filed.owner t' t i hi' hi)⟩
    · exact fun _ => by simp [hself]
    · intro e he
      rw [hself, Option.some.injEq] at he
      exact he ▸ h.filed.time_names_le c.dir c.key
    · intro v u hr'
      rw [hr] at hr'
      cases hr'
    · intro v u e hr'
      rw [hr] at hr'
      cases hr'
    · exact fun p i hm => .inl hm
  · refine h.timed.opened h.filed hc hr htag hquiet ?_
    rw [hpc']
    cases hn : s.fs.names c.path with
    | none =>
      rw [hn] at hself
      exact hself
    | some i =>
      obtain ⟨w, v, u, hasks, hi, hw, hl, -⟩ := h.filed.named (mentions_of_names hn)
      have hwt : w ≠ t := by
        rintro rfl
        rw [htag] at hw
        cases hw
      have hwopened : (g.opened t (g.born i)).tag w = some (g.born i) :=
        (Function.update_of_ne hwt _ _).trans hw
      exact ⟨w, v, g.born i, ⟨⟨u, hasks⟩, hi, hwopened, hl⟩, Function.update_self _ _ _⟩

/-- A read returns the bytes of the file it opened. -/
theorem Sound.read (h : s.Sound g) (hc : s.calls t = some c) {file : ℕ}
    (hpc : c.pc = .readFile file) :
    (s.moved t c s.fs (.returned (some (s.fs.files file).content))).Sound g := by
  obtain ⟨w, v, e, hw, he⟩ : ∃ w v e, s.WroteAt g c.path w file v e ∧ g.tag t = some e := by
    have hlook := h.timed.looking t c hc hr
    rwa [hpc] at hlook
  refine h.moved hc rfl rfl rfl (fun _ hne => absurd rfl hne) ?_ ?_
  · intro v u hr'
    rw [hr] at hr'
    cases hr'
  · intro _
    obtain ⟨⟨u, hu⟩, hi, hwe, hl⟩ := hw
    obtain ⟨-, -, i, hi', -, hv⟩ := h.filed.tagged w c.path v u e hu hwe
    rw [hi, Option.some.injEq] at hi'
    subst hi'
    rw [hv]
    exact ⟨w, file, e, ⟨⟨u, hu⟩, hi, hwe, hl⟩, he⟩

/-- Whatever a `read` does next. -/
theorem Sound.readStep (h : s.Sound g) (hc : s.calls t = some c) {ok : Bool}
    (hok : ok = true ∧ (c.pc = .openFile → ∀ u ∈ s.fs.updates, u.1 ≠ c.path))
    (hmove : c.readStep ok s.fs = some pc) : ∃ g', (s.moved t c s.fs pc).Sound g' := by
  obtain ⟨rfl, hquiet⟩ := hok
  unfold FileCall.readStep at hmove
  split at hmove
  · next hpc =>
    refine h.opened hr hc hpc (hquiet hpc) ?_
    split at hmove
    · next file hn =>
      rw [hn]
      simpa using hmove.symm
    · next hn =>
      rw [hn]
      simpa using hmove.symm
  · next file hpc =>
    simp only [if_true, Option.some.injEq] at hmove
    subst hmove
    exact ⟨g, h.read hr hc hpc⟩
  · cases hmove

end Read

/-! ## Runs -/

theorem Sound.step (h : s.Sound g) {a : StableAction D} (ha : s.Settled a)
    {s' : StableStorage D} (hstep : s.step a = some s') : ∃ g', s'.Sound g' := by
  cases a with
  | write dir key value uuid =>
    simp only [StableStorage.step, Option.some.injEq] at hstep
    subst hstep
    refine ⟨g, h.filed.called ?_, h.timed.called h.filed (by simp) (by simp)⟩
    intro v u hv
    cases hv
    exact ⟨ha, rfl⟩
  | read dir key =>
    simp only [StableStorage.step, Option.some.injEq] at hstep
    subst hstep
    exact ⟨g, h.filed.called (by simp), h.timed.called h.filed (fun _ => rfl) (by simp)⟩
  | crash kept garbage =>
    simp only [StableStorage.step] at hstep
    split at hstep
    · next hkept =>
      cases hstep
      exact ⟨_, h.filed.crashed h.timed hkept, h.timed.crashed h.filed hkept⟩
    · cases hstep
  | advance t ok n =>
    simp only [StableStorage.step] at hstep
    split at hstep
    · cases hstep
    · next c hc =>
      split at hstep
      · next v u hr =>
        obtain ⟨⟨fs, pc⟩, hmove, rfl⟩ := Option.map_eq_some_iff.mp hstep
        exact h.writeStep hc hr hmove
      · next hr =>
        obtain ⟨pc, hmove, rfl⟩ := Option.map_eq_some_iff.mp hstep
        exact h.readStep hr hc (ha c hc hr) hmove

end Orders

theorem exists_sound {s : StableStorage D} (hs : Reachable step Settled init s) :
    ∃ g, s.Sound g := by
  refine hs.invariant (fun s => ∃ g, s.Sound g) ?_ ?_
  · have hcalls : ∀ {t} {c : FileCall D}, (init : StableStorage D).calls t ≠ some c := by
      simp [init]
    have hasks : ∀ {t} {q : Path D} {r}, ¬ (init : StableStorage D).Asks t q r :=
      fun ⟨_, hc, _⟩ => hcalls hc
    refine ⟨⟨fun _ => none, fun _ => none, fun _ => 0, fun _ => False⟩, ?_, ?_⟩
    · exact ⟨fun _ _ hc => absurd hc hcalls, fun _ _ _ _ _ _ _ ha => absurd ha hasks,
        by simp, by simp, by simp, by simp, by simp, by simp,
        fun _ _ _ _ hc => absurd hc hcalls, by simp, by simp,
        fun p i hm => by simp [Mentions, init, FileSystem.empty] at hm⟩
    · exact ⟨by simp [init, FileSystem.empty], by simp [init, FileSystem.empty], by simp, by simp,
        by simp, fun _ _ hc => absurd hc hcalls, by simp, by simp⟩
  · rintro s a s' - ⟨g, h⟩ ha hstep
    exact h.step ha hstep

/-! ## Strict linearizability -/

section History

variable {s : StableStorage D} {g : Times} {dir : D} {key : String}

theorem mem_history_ops (h : s.Filed g) {t : ℕ} :
    t ∈ (s.history dir key).ops ↔ ∃ r, s.Asks t (.file dir key) r := by
  simp only [history, Finset.mem_filter, Finset.mem_range, Option.any_eq_true, decide_eq_true_eq]
  constructor
  · rintro ⟨-, c, hc, hpath⟩
    exact ⟨c.request, c, hc, hpath, rfl⟩
  · rintro ⟨r, c, hc, hpath, -⟩
    exact ⟨(h.past t c hc).1, c, hc, hpath⟩

theorem history_write {t : ℕ} {v : List UInt8} {u : Uuid}
    (ha : s.Asks t (.file dir key) (.write v u)) : (s.history dir key).write t = some (some v) := by
  obtain ⟨c, hc, -, hr⟩ := ha
  simp [history, hc, hr]

theorem history_read {t : ℕ} (ha : s.Asks t (.file dir key) .read) :
    (s.history dir key).write t = none := by
  obtain ⟨c, hc, -, hr⟩ := ha
  simp [history, hc, hr]

/-- Operations end when their calls do. -/
theorem ended_of_finish {kept : Finset ℕ} {t e : ℕ}
    (hfin : ((s.history dir key).decided s.gaveUp kept).finish t = some e) :
    ∃ c, s.calls t = some c ∧ c.ended = some e ∧
      ((∃ x, c.pc = .returned x) ∨ c.pc = .failed ∧ s.gaveUp t ≠ none) := by
  simp only [History.decided, history, gaveUp] at hfin
  cases hc : s.calls t with
  | none => simp [hc] at hfin
  | some c =>
    refine ⟨c, rfl, ?_⟩
    cases hpc : c.pc <;> simp [hc, hpc, gaveUp] at hfin ⊢ <;> simp [hfin]

/-- The writes that gave up but took effect. -/
noncomputable def effective (s : StableStorage D) (g : Times) : Finset ℕ :=
  open Classical in (Finset.range s.clock).filter fun t =>
    (∃ q v u, s.Asks t q (.write v u)) ∧ g.tag t ≠ none ∧ ¬ g.lost t

/-- The calls that count: reads that returned, writes that took effect. -/
noncomputable def counted (s : StableStorage D) (g : Times) (dir : D) (key : String) : Finset ℕ :=
  open Classical in ((s.history dir key).decided s.gaveUp (s.effective g)).ops.filter fun t =>
    (∃ q v u, s.Asks t q (.write v u)) ∧ g.tag t ≠ none ∧ ¬ g.lost t ∨
      ∃ c x, s.calls t = some c ∧ c.request = .read ∧ c.pc = .returned x

theorem mem_counted {t : ℕ} : t ∈ s.counted g dir key ↔
    t ∈ ((s.history dir key).decided s.gaveUp (s.effective g)).ops ∧
      ((∃ q v u, s.Asks t q (.write v u)) ∧ g.tag t ≠ none ∧ ¬ g.lost t ∨
        ∃ c x, s.calls t = some c ∧ c.request = .read ∧ c.pc = .returned x) := by
  simp only [counted, Finset.mem_filter]

omit [DecidableEq D] in
theorem mem_effective (h : s.Filed g) {t : ℕ} {q : Path D} {v : List UInt8} {u : Uuid}
    (ha : s.Asks t q (.write v u)) (htag : g.tag t ≠ none) (hl : ¬ g.lost t) :
    t ∈ s.effective g := by
  simp only [effective, Finset.mem_filter, Finset.mem_range]
  exact ⟨h.asks_lt ha, ⟨q, v, u, ha⟩, htag, hl⟩

theorem Filed.counted_of_write (h : s.Filed g) {t : ℕ} {v : List UInt8} {u : Uuid}
    (ha : s.Asks t (.file dir key) (.write v u)) (htag : g.tag t ≠ none) (hl : ¬ g.lost t) :
    t ∈ s.counted g dir key := by
  refine mem_counted.mpr ⟨Finset.mem_filter.mpr ⟨(mem_history_ops h).mpr ⟨_, ha⟩, ?_⟩, ?_⟩
  · exact .inr (mem_effective h ha htag hl)
  · exact .inl ⟨⟨_, v, u, ha⟩, htag, hl⟩

/-- A call that counts is a write that took effect or a read that returned. -/
theorem Filed.counted_cases (h : s.Filed g) {t : ℕ} (ht : t ∈ s.counted g dir key) :
    (∃ v u e, s.Asks t (.file dir key) (.write v u) ∧ g.tag t = some e ∧ ¬ g.lost t) ∨
      ∃ c x, s.calls t = some c ∧ c.path = .file dir key ∧ c.request = .read ∧
        c.pc = .returned x := by
  obtain ⟨hops, hcase⟩ := mem_counted.mp ht
  have hops := (Finset.mem_filter.mp hops).1
  obtain ⟨r, c, hc, hpath, hr⟩ := (mem_history_ops h).mp hops
  rcases hcase with ⟨⟨q, v, u, c', hc', -, hr'⟩, htag, hl⟩ | ⟨c', x, hc', hr', hpc⟩
  · obtain ⟨e, he⟩ := Option.ne_none_iff_exists'.mp htag
    rw [hc, Option.some.injEq] at hc'
    subst hc'
    exact .inl ⟨v, u, e, ⟨c, hc, hpath, hr'⟩, he, hl⟩
  · rw [hc, Option.some.injEq] at hc'
    subst hc'
    exact .inr ⟨c, x, hc, hpath, hr', hpc⟩

/-- A read that returned has seen something. -/
theorem Timed.tag_of_returned (h : s.Timed g) {t : ℕ} {c : FileCall D} {x : Option (List UInt8)}
    (hc : s.calls t = some c) (hr : c.request = .read) (hpc : c.pc = .returned x) :
    ∃ e, g.tag t = some e := by
  have hlook := h.looking t c hc hr
  rw [hpc] at hlook
  cases x with
  | none => exact ⟨0, hlook⟩
  | some v =>
    obtain ⟨w, i, e, -, he⟩ := hlook
    exact ⟨e, he⟩

/-- The times of the renames order the calls on a file. -/
theorem Sound.tagging (h : s.Sound g) (dir : D) (key : String) :
    ((s.history dir key).decided s.gaveUp (s.effective g)).Tagging none 0
      (s.counted g dir key) (fun t => (g.tag t).getD 0) := by
  refine ⟨?sub, ?complete, ?bot_lt, ?distinct, ?read, ?real_time, ?start_le⟩
  case sub => exact fun t ht => (mem_counted.mp ht).1
  case complete =>
    intro t ht hfin
    obtain ⟨e, he⟩ := Option.ne_none_iff_exists'.mp hfin
    obtain ⟨c, hc, -, hpc⟩ := ended_of_finish he
    refine mem_counted.mpr ⟨ht, ?_⟩
    cases hr : c.request with
    | write v u =>
      refine .inl ⟨⟨c.path, v, u, c, hc, rfl, hr⟩, ?_⟩
      rcases hpc with ⟨x, hpc⟩ | ⟨-, hgave⟩
      · have hst := h.filed.standing t c v u hc hr
        rwa [hpc] at hst
      · -- it gave up, so it is there because it took effect
        have hkept := (Finset.mem_filter.mp ht).2.resolve_left hgave
        simp only [effective, Finset.mem_filter] at hkept
        exact hkept.2.2
    | read =>
      rcases hpc with ⟨x, hpc⟩ | ⟨-, hgave⟩
      · exact .inr ⟨c, x, hc, hr, hpc⟩
      · have hkept := (Finset.mem_filter.mp ht).2.resolve_left hgave
        simp only [effective, Finset.mem_filter] at hkept
        exact .inl hkept.2
  case bot_lt =>
    intro t ht hwrite
    rcases h.filed.counted_cases ht with ⟨v, u, e, ha, he, -⟩ | ⟨c, x, hc, hpath, hr, -⟩
    · rw [he, Option.getD_some]
      exact (Nat.zero_le t).trans_lt (h.filed.tagged t _ v u e ha he).1
    · exact absurd (history_read ⟨c, hc, hpath, hr⟩) hwrite
  case distinct =>
    intro t ht t' ht' hwrite hwrite' heq
    rcases h.filed.counted_cases ht with ⟨v, u, e, ha, he, -⟩ | ⟨c, x, hc, hpath, hr, -⟩
    · rcases h.filed.counted_cases ht' with ⟨v', u', e', ha', he', -⟩ | ⟨c, x, hc, hpath, hr, -⟩
      · rw [he, he', Option.getD_some, Option.getD_some] at heq
        exact h.filed.tags t t' _ _ v v' u u' e ha ha' he (heq ▸ he')
      · exact absurd (history_read ⟨c, hc, hpath, hr⟩) hwrite'
    · exact absurd (history_read ⟨c, hc, hpath, hr⟩) hwrite
  case read =>
    intro t ht hwrite _
    rcases h.filed.counted_cases ht with ⟨v, u, e, ha, -, -⟩ | ⟨c, x, hc, hpath, hr, hpc⟩
    · exact absurd ((history_write ha).symm.trans hwrite) (by simp)
    · have hresult : ((s.history dir key).decided s.gaveUp (s.effective g)).result t = some x := by
        simp [History.decided, history, hc, hpc]
      have hlook := h.timed.looking t c hc hr
      rw [hpc, hpath] at hlook
      cases x with
      | none =>
        refine .inl ⟨?_, hresult⟩
        rw [show g.tag t = some 0 from hlook, Option.getD_some]
      | some v =>
        obtain ⟨w, i, e, ⟨⟨u, hw⟩, -, hwe, hl⟩, he⟩ := hlook
        refine .inr ⟨w, h.filed.counted_of_write hw (by simp [hwe]) hl, by rw [hwe, he], ?_, ?_⟩
        · exact (history_write hw).trans_ne (by simp)
        · exact hresult.trans (history_write hw).symm
  case real_time =>
    intro t ht t' ht' hprec
    obtain ⟨e₀, hfin, hlt⟩ := hprec
    change e₀ < t' at hlt
    obtain ⟨c, hc, hended, -⟩ := ended_of_finish hfin
    obtain ⟨e, he⟩ : ∃ e, g.tag t = some e := by
      rcases h.filed.counted_cases ht with ⟨-, -, e, -, he, -⟩ | ⟨c, x, hc, -, hr, hpc⟩
      · exact ⟨e, he⟩
      · exact h.timed.tag_of_returned hc hr hpc
    have hle := h.filed.tag_ended t c e₀ e hc hended he
    simp only [he, Option.getD_some]
    rcases h.filed.counted_cases ht' with ⟨v', u', e', ha', he', -⟩ | ⟨c', x', hc', hpath', hr', hpc'⟩
    · -- a later write is renamed later
      rw [he', Option.getD_some]
      have hstart := (h.filed.tagged t' _ v' u' e' ha' he').1
      exact ⟨by omega, fun _ => by omega⟩
    · obtain ⟨e', he'⟩ := h.timed.tag_of_returned hc' hr' hpc'
      rw [he', Option.getD_some]
      have hread : s.Asks t' (.file dir key) .read := ⟨c', hc', hpath', hr'⟩
      refine ⟨?_, fun hwrite => absurd (history_read hread) hwrite⟩
      rcases h.filed.counted_cases ht with ⟨v, u, e₁, ha, -, hl⟩ | ⟨c₁, x, hc₁, hpath, hr, -⟩
      · exact h.timed.after_write t t' _ v u e e' ha hread he hl he' (by omega)
      · rw [hc, Option.some.injEq] at hc₁
        subst hc₁
        exact h.timed.after_read t t' c e₀ e e' hc hr (hpath ▸ hread) hended hlt he he'
  case start_le =>
    intro t _ e hfin
    obtain ⟨c, hc, hended, -⟩ := ended_of_finish hfin
    exact ((h.filed.past t c hc).2 e hended).1.le

end History

/-- **Stable storage is durable and atomic.** In every run, with any number of reads and
writes under way, failing operations and crashes at any point, the calls on one file are
those of a register: every write that returned `Ok` counts, one that failed or was cut off
by a crash took effect before that, as a whole, or never will, and a read returns the bytes
of the last write that counts. -/
theorem stable_storage_strictly_linearizable {s : StableStorage D}
    (hs : Reachable step Settled init s) (dir : D) (key : String) :
    (s.history dir key).StrictlyLinearizable none s.gaveUp := by
  obtain ⟨g, h⟩ := exists_sound hs
  exact ⟨s.effective g, History.linearizable_of_tags (h.tagging dir key)⟩

/-- A write is acknowledged, a second one is cut off by a crash after its rename, which the
disc does not have, and a read follows. -/
def crashAfterRename : List (StableAction Unit) :=
  .write () "state" [1] 11 :: List.replicate 7 (.advance 0 true 1) ++
    .write () "state" [2] 12 :: List.replicate 5 (.advance 8 true 1) ++
    [.crash [] fun _ => [], .read () "state", .advance 15 true 0, .advance 15 true 0]

theorem stable_storage_strictly_linearizable_crash :
    ∃ s : StableStorage Unit, Reachable step Settled init s ∧
      (s.history () "state").StrictlyLinearizable none s.gaveUp ∧
      (s.gaveUp 8).isSome = true ∧ (s.history () "state").result 15 = some (some [1]) := by
  obtain ⟨s, hs, hgave, hresult⟩ : ∃ s : StableStorage Unit, Reachable step Settled init s ∧
      (s.gaveUp 8).isSome = true ∧ (s.history () "state").result 15 = some (some [1]) :=
    exists_of_exec crashAfterRename (by decide +kernel)
  exact ⟨s, hs, stable_storage_strictly_linearizable hs () "state", hgave, hresult⟩

end StableStorage

end Storage
end AtomicDiscDrive
