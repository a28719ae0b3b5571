import Mathlib.Data.Finset.Sort
import Mathlib.Tactic

/-!
# Linearizable registers

A `History` is what the clients of one shared register see: reads and writes with the
times they were issued and answered. It is `Linearizable` if its operations can be put in
one sequence that respects real time and in which every read returns what the latest write
before it wrote. An operation occurs at most once in the sequence, and an unanswered one
may be left out: it then took no effect.

`linearizable_of_tags` is the usual way to get there. If every operation carries a tag,
such that writes have different tags, a read returns the data of the write with its tag,
and tags never contradict real time, then ordering by tag is a linearization.

`Linearizable.not_flipFlop` is what clients notice first: the value of a write does not
come back once a later read has returned another one.
-/

namespace Utils

/-- The operations on one register, as its clients see them. -/
structure History (ι V : Type) where
  ops : Finset ι
  /-- the value written, `none` for a read -/
  write : ι → Option V
  start : ι → ℕ
  finish : ι → Option ℕ
  /-- what a read returned -/
  result : ι → Option V

namespace History

variable {ι V : Type}

/-- `a` was answered before `b` was issued. -/
def Precedes (H : History ι V) (a b : ι) : Prop := ∃ t, H.finish a = some t ∧ t < H.start b

instance (H : History ι V) (a b : ι) : Decidable (H.Precedes a b) :=
  decidable_of_iff ((H.finish a).any fun t => t < H.start b) (by simp [Precedes, Option.any_eq_true])

/-- The value the register holds after the operations of a list, in their order. -/
def valueAfter (H : History ι V) (init : V) (l : List ι) : V :=
  l.foldl (fun v a => (H.write a).getD v) init

/-- A sequence of operations that explains a history. -/
structure IsLinearization (H : History ι V) (init : V) (l : List ι) : Prop where
  nodup : l.Nodup
  mem_ops : ∀ a ∈ l, a ∈ H.ops
  complete : ∀ a ∈ H.ops, H.finish a ≠ none → a ∈ l
  order : l.Pairwise fun a b => ¬ H.Precedes b a
  legal : ∀ l₁ a l₂, l = l₁ ++ a :: l₂ → H.write a = none → H.finish a ≠ none →
    H.result a = some (H.valueAfter init l₁)

/-- Some sequence of the operations explains the history. -/
def Linearizable (H : History ι V) (init : V) : Prop := ∃ l, H.IsLinearization init l

variable {H : History ι V} {init : V}

theorem valueAfter_append (l₁ l₂ : List ι) :
    H.valueAfter init (l₁ ++ l₂) = H.valueAfter (H.valueAfter init l₁) l₂ := by
  simp [valueAfter]

theorem valueAfter_cons (a : ι) (l : List ι) :
    H.valueAfter init (a :: l) = H.valueAfter ((H.write a).getD init) l := rfl

/-- Reads do not change the value. -/
theorem valueAfter_of_reads {l : List ι} (h : ∀ a ∈ l, H.write a = none) :
    H.valueAfter init l = init := by
  induction l generalizing init with
  | nil => rfl
  | cons a l ih =>
    rw [valueAfter_cons, h a List.mem_cons_self, Option.getD_none]
    exact ih fun b hb => h b (List.mem_cons_of_mem a hb)

/-- The value after a list is the initial one, or that of its last write. -/
theorem valueAfter_cases (l : List ι) :
    H.valueAfter init l = init ∨
      ∃ l₁ w v l₂, l = l₁ ++ w :: l₂ ∧ H.write w = some v ∧ H.valueAfter init l = v ∧
        ∀ a ∈ l₂, H.write a = none := by
  induction l using List.reverseRecOn with
  | nil => exact .inl rfl
  | append_singleton l a ih =>
    rw [valueAfter_append]
    cases ha : H.write a with
    | some v =>
      refine .inr ⟨l, a, v, [], rfl, ha, ?_, by simp⟩
      simp [valueAfter, ha]
    | none =>
      have hsame : H.valueAfter (H.valueAfter init l) [a] = H.valueAfter init l :=
        valueAfter_of_reads (by simpa using ha)
      rw [hsame]
      rcases ih with h | ⟨l₁, w, v, l₂, hl, hw, hv, hreads⟩
      · exact .inl h
      · refine .inr ⟨l₁, w, v, l₂ ++ [a], by rw [hl]; simp, hw, hv, ?_⟩
        intro b hb
        rcases List.mem_append.mp hb with hb | hb
        · exact hreads b hb
        · rw [List.mem_singleton.mp hb, ha]

/-! ## From tags to a linearization -/

section Tags

variable {T : Type} [LinearOrder T]

/-- Tags for a set of operations that contains all answered ones. -/
structure Tagging (H : History ι V) (init : V) (bot : T) (tagged : Finset ι) (tag : ι → T) :
    Prop where
  sub : tagged ⊆ H.ops
  complete : ∀ a ∈ H.ops, H.finish a ≠ none → a ∈ tagged
  bot_lt : ∀ w ∈ tagged, H.write w ≠ none → bot < tag w
  distinct : ∀ v ∈ tagged, ∀ w ∈ tagged, H.write v ≠ none → H.write w ≠ none →
    tag v = tag w → v = w
  read : ∀ a ∈ tagged, H.write a = none → H.finish a ≠ none →
    tag a = bot ∧ H.result a = some init ∨
      ∃ w ∈ tagged, tag w = tag a ∧ H.write w ≠ none ∧ H.result a = H.write w
  real_time : ∀ a ∈ tagged, ∀ b ∈ tagged, H.Precedes a b →
    tag a ≤ tag b ∧ (H.write b ≠ none → tag a < tag b)
  start_le : ∀ a ∈ tagged, ∀ t, H.finish a = some t → H.start a ≤ t

/-- By tag; on equal tags the write first, then reads in the order they were issued. -/
def tagOrder (H : History ι V) (tag : ι → T) (a b : ι) : Prop :=
  tag a < tag b ∨ tag a = tag b ∧
    (H.write a ≠ none ∨ H.write b = none ∧ H.start a ≤ H.start b)

theorem tagOrder_trans {tag : ι → T} {a b c : ι} (hab : H.tagOrder tag a b)
    (hbc : H.tagOrder tag b c) : H.tagOrder tag a c := by
  rcases hab with hab | ⟨htab, hab⟩
  · rcases hbc with hbc | ⟨htbc, -⟩
    · exact .inl (hab.trans hbc)
    · exact .inl (htbc ▸ hab)
  · rcases hbc with hbc | ⟨htbc, hbc⟩
    · exact .inl (htab ▸ hbc)
    · refine .inr ⟨htab.trans htbc, ?_⟩
      rcases hab with ha | ⟨hb, hs⟩
      · exact .inl ha
      · rcases hbc with hb' | ⟨hc, hs'⟩
        · exact absurd hb hb'
        · exact .inr ⟨hc, hs.trans hs'⟩

theorem tagOrder_total (tag : ι → T) (a b : ι) : H.tagOrder tag a b ∨ H.tagOrder tag b a := by
  rcases lt_trichotomy (tag a) (tag b) with h | h | h
  · exact .inl (.inl h)
  · by_cases ha : H.write a = none
    · by_cases hb : H.write b = none
      · rcases le_total (H.start a) (H.start b) with hs | hs
        · exact .inl (.inr ⟨h, .inr ⟨hb, hs⟩⟩)
        · exact .inr (.inr ⟨h.symm, .inr ⟨ha, hs⟩⟩)
      · exact .inr (.inr ⟨h.symm, .inl hb⟩)
    · exact .inl (.inr ⟨h, .inl ha⟩)
  · exact .inr (.inl h)

/-- The operations before a read in tag order leave the value of the write with its tag. -/
theorem Tagging.legal {bot : T} {tagged : Finset ι} {tag : ι → T}
    (hT : H.Tagging init bot tagged tag) {l l₁ l₂ : List ι} {a : ι} (hl : l = l₁ ++ a :: l₂)
    (hmem : ∀ b, b ∈ l ↔ b ∈ tagged) (hnd : l.Nodup) (hsorted : l.Pairwise (H.tagOrder tag))
    (ha : H.write a = none) (hfin : H.finish a ≠ none) :
    H.result a = some (H.valueAfter init l₁) := by
  subst hl
  have hmem₁ : ∀ b ∈ l₁, b ∈ tagged := fun b hb => (hmem b).mp (by simp [hb])
  have hbefore : ∀ b ∈ l₁, H.tagOrder tag b a := fun b hb =>
    (List.pairwise_append.mp hsorted).2.2 b hb a List.mem_cons_self
  have hle : ∀ b ∈ l₁, tag b ≤ tag a := fun b hb =>
    (hbefore b hb).elim le_of_lt fun h => h.1.le
  rcases hT.read a ((hmem a).mp (by simp)) ha hfin with ⟨htag, hres⟩ | ⟨w, hw, htag, hwr, hres⟩
  · -- nothing was written below the initial tag
    rw [hres, valueAfter_of_reads]
    intro b hb
    by_contra hwb
    exact absurd (hT.bot_lt b (hmem₁ b hb) hwb) (not_lt.mpr (htag ▸ hle b hb))
  · have hwa : w ≠ a := fun h => hwr (h ▸ ha)
    -- the write that was read is before the read, and no write is between them
    have hw₁ : w ∈ l₁ := by
      have hwl := (hmem w).mpr hw
      rw [List.mem_append, List.mem_cons] at hwl
      rcases hwl with h | h | h
      · exact h
      · exact absurd h hwa
      · -- after the read only reads share its tag
        have haw : H.tagOrder tag a w :=
          (List.pairwise_cons.mp (List.pairwise_append.mp hsorted).2.1).1 w h
        rcases haw with haw | ⟨-, haw | ⟨haw, -⟩⟩
        · exact absurd haw (by rw [htag]; exact lt_irrefl _)
        · exact absurd ha haw
        · exact absurd haw hwr
    obtain ⟨m₁, m₂, hm⟩ := List.append_of_mem hw₁
    have hreads : ∀ b ∈ m₂, H.write b = none := by
      intro b hb
      by_contra hwb
      have hb₁ : b ∈ l₁ := by rw [hm]; simp [hb]
      have hwb' : tag w ≤ tag b := by
        have hp : (m₁ ++ w :: m₂).Pairwise (H.tagOrder tag) :=
          hm ▸ (List.pairwise_append.mp hsorted).1
        have := (List.pairwise_cons.mp (List.pairwise_append.mp hp).2.1).1 b hb
        exact this.elim le_of_lt fun h => h.1.le
      have heq : tag b = tag w := le_antisymm ((hle b hb₁).trans_eq htag.symm) hwb'
      have hbw : b = w := hT.distinct b (hmem₁ b hb₁) w hw hwb hwr heq
      have hnd₁ : (m₁ ++ w :: m₂).Nodup := hm ▸ (List.nodup_append.mp hnd).1
      exact (List.nodup_cons.mp (List.nodup_append.mp hnd₁).2.1).1 (hbw ▸ hb)
    obtain ⟨v, hv⟩ := Option.ne_none_iff_exists'.mp hwr
    rw [hres, hv, hm, valueAfter_append, valueAfter_cons, hv, Option.getD_some,
      valueAfter_of_reads hreads]

/-- **Ordering by tag is a linearization.** -/
theorem linearizable_of_tags {bot : T} {tagged : Finset ι} {tag : ι → T}
    (hT : H.Tagging init bot tagged tag) : H.Linearizable init := by
  classical
  let le : ι → ι → Bool := fun a b => decide (H.tagOrder tag a b)
  have hsorted : (tagged.toList.mergeSort le).Pairwise (H.tagOrder tag) := by
    have h := @List.pairwise_mergeSort _ le
      (fun a b c hab hbc => by
        simp only [le, decide_eq_true_eq] at hab hbc ⊢
        exact tagOrder_trans hab hbc)
      (fun a b => by
        simp only [le, Bool.or_eq_true, decide_eq_true_eq]
        exact tagOrder_total tag a b) tagged.toList
    exact h.imp fun hab => by simpa [le] using hab
  have hmem : ∀ b, b ∈ tagged.toList.mergeSort le ↔ b ∈ tagged := by simp
  have hnd : (tagged.toList.mergeSort le).Nodup :=
    (List.mergeSort_perm _ _).nodup_iff.mpr tagged.nodup_toList
  refine ⟨tagged.toList.mergeSort le, hnd, ?_, ?_, ?_, ?_⟩
  · intro a ha
    exact hT.sub ((hmem a).mp ha)
  · intro a ha hfin
    exact (hmem a).mpr (hT.complete a ha hfin)
  · -- an operation that was answered before another was issued does not have the larger tag
    refine hsorted.imp_of_mem ?_
    intro a b ha hb hab hba
    have hrt := hT.real_time b ((hmem b).mp hb) a ((hmem a).mp ha) hba
    rcases hab with hab | ⟨htag, hwa | ⟨-, hs⟩⟩
    · exact absurd hrt.1 (not_le.mpr hab)
    · exact absurd htag (hrt.2 hwa).ne'
    · -- two reads: the later one was not answered before the earlier one was issued
      obtain ⟨t, ht, hlt⟩ := hba
      have := hT.start_le b ((hmem b).mp hb) t ht
      omega
  · intro l₁ a l₂ hl ha hfin
    exact hT.legal hl hmem hnd hsorted ha hfin

end Tags

/-! ## Histories of two levels -/

/-- `H'` is a history of the same operations, `call k` being what `k` was called above. It may
leave out operations of `H` that were not answered. Seen from above every operation takes at
least as long. -/
structure Implements {κ : Type} (H : History ι V) (H' : History κ V) (call : κ → ι) : Prop where
  injective : ∀ j ∈ H'.ops, ∀ k ∈ H'.ops, call j = call k → j = k
  mem_ops : ∀ k ∈ H'.ops, call k ∈ H.ops
  write : ∀ k ∈ H'.ops, H.write (call k) = H'.write k
  answered : ∀ a ∈ H.ops, H.finish a ≠ none →
    ∃ k ∈ H'.ops, call k = a ∧ H'.finish k ≠ none ∧ H.result a = H'.result k
  precedes : ∀ j ∈ H'.ops, ∀ k ∈ H'.ops, H.Precedes (call j) (call k) → H'.Precedes j k

variable {κ : Type} {H' : History κ V} {call : κ → ι}

theorem Implements.valueAfter (h : H.Implements H' call) {l : List κ} (hl : ∀ k ∈ l, k ∈ H'.ops) :
    H.valueAfter init (l.map call) = H'.valueAfter init l := by
  induction l generalizing init with
  | nil => rfl
  | cons k l ih =>
    rw [List.map_cons, valueAfter_cons, valueAfter_cons, h.write k (hl k List.mem_cons_self)]
    exact ih fun j hj => hl j (List.mem_cons_of_mem k hj)

/-- **Linearizability is inherited** from the history below. -/
theorem Implements.linearizable (h : H.Implements H' call) (hlin : H'.Linearizable init) :
    H.Linearizable init := by
  obtain ⟨l, hl⟩ := hlin
  have hcomplete : ∀ a ∈ H.ops, H.finish a ≠ none → ∃ k ∈ l, call k = a := by
    intro a ha hfin
    obtain ⟨k, hk, hka, hfin', -⟩ := h.answered a ha hfin
    exact ⟨k, hl.complete k hk hfin', hka⟩
  refine ⟨l.map call, ?_, ?_, ?_, ?_, ?_⟩
  · refine List.Nodup.map_on ?_ hl.nodup
    intro j hj k hk
    exact h.injective j (hl.mem_ops j hj) k (hl.mem_ops k hk)
  · intro a ha
    obtain ⟨k, hk, rfl⟩ := List.mem_map.mp ha
    exact h.mem_ops k (hl.mem_ops k hk)
  · intro a ha hfin
    exact List.mem_map.mpr (hcomplete a ha hfin)
  · rw [List.pairwise_map]
    refine hl.order.imp_of_mem ?_
    intro j k hj hk hjk hprec
    exact hjk (h.precedes k (hl.mem_ops k hk) j (hl.mem_ops j hj) hprec)
  · -- cut the list below where the list above is cut
    intro l₁ a l₂ hcut ha hfin
    obtain ⟨m₁, m₂, hm, rfl, hm₂⟩ := List.map_eq_append_iff.mp hcut
    obtain ⟨k, m₂, rfl, rfl, rfl⟩ := List.map_eq_cons_iff.mp hm₂
    have hmem : ∀ j ∈ m₁ ++ k :: m₂, j ∈ H'.ops := fun j hj => hl.mem_ops j (hm ▸ hj)
    have hk : k ∈ H'.ops := hmem k (List.mem_append_right m₁ List.mem_cons_self)
    obtain ⟨j, hj, hjk, hfin', hres⟩ := h.answered (call k) (h.mem_ops k hk) hfin
    have hjk : j = k := h.injective j hj k hk hjk
    subst hjk
    rw [hres, h.valueAfter fun i hi => hmem i (List.mem_append_left _ hi)]
    exact hl.legal m₁ j m₂ hm (h.write j hk ▸ ha) hfin'

/-! ## What a linearizable register never shows -/

/-- In a linearization an operation answered before `b` was issued stands before `b`. -/
theorem IsLinearization.mem_of_precedes {l l₁ l₂ : List ι} {a b : ι}
    (h : H.IsLinearization init l) (hl : l = l₁ ++ b :: l₂) (ha : a ∈ H.ops) (hab : a ≠ b)
    (hprec : H.Precedes a b) : a ∈ l₁ := by
  have hfin : H.finish a ≠ none := by
    obtain ⟨t, ht, -⟩ := hprec
    simp [ht]
  have hm := h.complete a ha hfin
  have horder := h.order
  rw [hl] at hm horder
  rw [List.mem_append, List.mem_cons] at hm
  rcases hm with hm | hm | hm
  · exact hm
  · exact absurd hm hab
  · exact absurd hprec ((List.pairwise_cons.mp (List.pairwise_append.mp horder).2.1).1 a hm)

/-- A value other than the initial one was written by some operation of the list. -/
theorem mem_of_valueAfter {l : List ι} {x : V} {w : ι} (hv : H.valueAfter init l = x)
    (hinit : x ≠ init) (honce : ∀ a ∈ l, H.write a = some x → a = w) :
    ∃ l₁ l₂, l = l₁ ++ w :: l₂ ∧ ∀ a ∈ l₂, H.write a = none := by
  rcases @valueAfter_cases _ _ H init l with h | ⟨l₁, u, v, l₂, hl, hu, hv', hd⟩
  · exact absurd (hv.symm.trans h) hinit
  · have hux : H.write u = some x := by rw [hu, ← hv', hv]
    have huw : u = w := honce u (by rw [hl]; simp) hux
    exact ⟨l₁, l₂, huw ▸ hl, hd⟩

/-- If a list and an extension of it leave the same value, written only once, then the
extension writes nothing. -/
theorem reads_of_valueAfter_eq {l m : List ι} {x : V} {w : ι} (hnd : (l ++ m).Nodup)
    (hl : H.valueAfter init l = x) (hlm : H.valueAfter init (l ++ m) = x) (hinit : x ≠ init)
    (honce : ∀ a ∈ l ++ m, H.write a = some x → a = w) : ∀ a ∈ m, H.write a = none := by
  obtain ⟨e, f, hef, -⟩ := mem_of_valueAfter hl hinit fun a ha => honce a (by simp [ha])
  obtain ⟨c, d, hcd, hd⟩ := mem_of_valueAfter hlm hinit honce
  have hsplit : e ++ w :: (f ++ m) = c ++ w :: d := by rw [← hcd, hef]; simp
  have hnd' : (e ++ w :: (f ++ m)).Nodup := by rw [hsplit, ← hcd]; exact hnd
  have hwe : w ∉ e := fun hw =>
    (List.nodup_append.mp hnd').2.2 w hw w List.mem_cons_self rfl
  have hwf : w ∉ f ++ m := (List.nodup_cons.mp (List.nodup_append.mp hnd').2.1).1
  have htail : f ++ m = d := ((List.append_cons_inj_of_notMem hwe hwf).mp hsplit).2.2
  intro a ha
  exact hd a (htail ▸ List.mem_append_right f ha)

/-- A read returns the value of the write `a`, a read issued after its answer returns the
value of another write `b`, and a third read issued after that returns the value of `a`
again, although both values were written only once. -/
def FlipFlop (H : History ι V) (init : V) : Prop :=
  ∃ r₁ r₂ r₃ a b : ι, ∃ x y : V,
    (r₁ ∈ H.ops ∧ r₂ ∈ H.ops ∧ r₃ ∈ H.ops ∧ a ∈ H.ops ∧ b ∈ H.ops) ∧
    (H.write r₁ = none ∧ H.write r₂ = none ∧ H.write r₃ = none) ∧
    (H.write a = some x ∧ ∀ w ∈ H.ops, H.write w = some x → w = a) ∧
    (H.write b = some y ∧ ∀ w ∈ H.ops, H.write w = some y → w = b) ∧
    x ≠ y ∧ x ≠ init ∧ H.Precedes r₁ r₂ ∧ H.Precedes r₂ r₃ ∧ H.finish r₃ ≠ none ∧
    H.result r₁ = some x ∧ H.result r₂ = some y ∧ H.result r₃ = some x

/-- A value that was written once does not come back. -/
theorem Linearizable.not_flipFlop (h : H.Linearizable init) : ¬ H.FlipFlop init := by
  rintro ⟨r₁, r₂, r₃, w, b, x, y, hops, hreads, ⟨-, honce⟩, -, hxy, hinit, h₁₂, h₂₃, hfin,
    hx₁, hy, hx₃⟩
  obtain ⟨l, hl⟩ := h
  have hfin₁ : H.finish r₁ ≠ none := by obtain ⟨t, ht, -⟩ := h₁₂; simp [ht]
  have hfin₂ : H.finish r₂ ≠ none := by obtain ⟨t, ht, -⟩ := h₂₃; simp [ht]
  have hne₁₂ : r₁ ≠ r₂ := fun h => hxy (Option.some.inj (hx₁.symm.trans (h ▸ hy)))
  have hne₂₃ : r₂ ≠ r₃ := fun h => hxy (Option.some.inj (hx₃.symm.trans (h ▸ hy)))
  -- cut the sequence at the third read, then at the second, then at the first
  obtain ⟨a₃, b₃, h₃⟩ := List.append_of_mem (hl.complete r₃ hops.2.2.1 hfin)
  obtain ⟨a₂, b₂, h₂⟩ := List.append_of_mem (hl.mem_of_precedes h₃ hops.2.1 hne₂₃ h₂₃)
  have hcut₂ : l = a₂ ++ r₂ :: (b₂ ++ r₃ :: b₃) := by rw [h₃, h₂]; simp
  obtain ⟨a₁, b₁, h₁⟩ := List.append_of_mem (hl.mem_of_precedes hcut₂ hops.1 hne₁₂ h₁₂)
  have hcut₁ : l = a₁ ++ r₁ :: (b₁ ++ r₂ :: (b₂ ++ r₃ :: b₃)) := by rw [hcut₂, h₁]; simp
  have hcut₃ : l = (a₁ ++ (r₁ :: b₁ ++ r₂ :: b₂)) ++ r₃ :: b₃ := by rw [hcut₁]; simp
  have hv₁ : H.valueAfter init a₁ = x :=
    Option.some.inj ((hl.legal a₁ r₁ _ hcut₁ hreads.1 hfin₁).symm.trans hx₁)
  have hv₂ : H.valueAfter init a₂ = y :=
    Option.some.inj ((hl.legal a₂ r₂ _ hcut₂ hreads.2.1 hfin₂).symm.trans hy)
  have hv₃ : H.valueAfter init (a₁ ++ (r₁ :: b₁ ++ r₂ :: b₂)) = x :=
    Option.some.inj ((hl.legal _ r₃ _ hcut₃ hreads.2.2 hfin).symm.trans hx₃)
  have hnd : (a₁ ++ (r₁ :: b₁ ++ r₂ :: b₂)).Nodup :=
    (List.nodup_append.mp (hcut₃ ▸ hl.nodup)).1
  have hmem : ∀ a ∈ a₁ ++ (r₁ :: b₁ ++ r₂ :: b₂), a ∈ H.ops := fun a ha =>
    hl.mem_ops a (by rw [hcut₃]; exact List.mem_append_left _ ha)
  -- the value is `x` before and after, so nothing was written in between
  have hquiet := reads_of_valueAfter_eq hnd hv₁ hv₃ hinit fun a ha => honce a (hmem a ha)
  have hsame : H.valueAfter init a₂ = H.valueAfter init a₁ := by
    rw [h₁, valueAfter_append, valueAfter_of_reads]
    intro a ha
    exact hquiet a (List.mem_append_left _ ha)
  exact hxy (hv₁.symm.trans (hsame.symm.trans hv₂))

/-! ## Operations that give up -/

/-- The history in which the operations of `kept` count as answered when they gave up, and
the others that gave up as never issued. -/
def decided [DecidableEq ι] (H : History ι V) (gaveUp : ι → Option ℕ) (kept : Finset ι) :
    History ι V :=
  { H with
    ops := H.ops.filter fun a => gaveUp a = none ∨ a ∈ kept
    finish := fun a => (H.finish a).or (gaveUp a) }

/-- An operation that gave up took effect before that or never will. -/
def StrictlyLinearizable [DecidableEq ι] (H : History ι V) (init : V) (gaveUp : ι → Option ℕ) :
    Prop :=
  ∃ kept, (H.decided gaveUp kept).Linearizable init

end History

end Utils
