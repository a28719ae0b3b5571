import AtomicDiscDrive.Handlers.Stages

/-!
# Lost updates

A `WriteProc` handler compares its tag with the stored one and stores it in separate calls
on a store other handlers use as well. As long as none of them stores a larger tag in
between, the stored tag only grows; if one does, the larger tag is replaced by the smaller
one, although it may have been acknowledged.
-/

namespace AtomicDiscDrive
namespace Handlers

open Utils

variable {R : ℕ} {registers : ℕ → AtomicRegisterImplementation} {s s' : Store}

/-- What a `WriteProc` handler knows about the stored tag of its sector: no larger than its
own between the comparison and the metadata step, no smaller from then on. -/
def TagKnown (files : SectorFiles) (task : Task) : Stage → Prop
  | .data t _ | .metadata t => files.tag task.cmd.header.sectorIdx ≤ t
  | .acknowledge => ∀ t ∈ writeTag task.cmd, t ≤ files.tag task.cmd.header.sectorIdx
  | _ => True

/-- What runs without overtaking keep. -/
structure Orderly (R : ℕ) (registers : ℕ → AtomicRegisterImplementation) (s : Store) :
    Prop where
  bound : ∀ r task, s.tasks r = some task → r < R
  tasks : TasksAt registers s (TagKnown s.files)
  past : ∀ files ∈ s.past, ∀ sec, files.tag sec ≤ s.files.tag sec
  replies : ∀ x ∈ s.replies, ∀ t ∈ writeTag x.1, t ≤ s.files.tag x.1.header.sectorIdx

/-- The stored tags after a call at a point. -/
theorem tag_files (files : SectorFiles) (idx sec : SectorIdx) (st : Stage) :
    (st.files files idx).tag sec = files.tag sec ∨
      ∃ t, st = .metadata t ∧ sec = idx ∧ (st.files files idx).tag sec = t := by
  cases st with
  | metadata t =>
    by_cases h : sec = idx
    · subst h
      refine .inr ⟨t, rfl, rfl, ?_⟩
      simp [Stage.files]
    · exact .inl (SectorFiles.tag_writeMetadata_of_ne files h _ _)
  | _ => exact .inl rfl

theorem tag_le_files {files : SectorFiles} {task : Task} {st : Stage}
    (h : TagKnown files task st) (sec : SectorIdx) :
    files.tag sec ≤ (st.files files task.cmd.header.sectorIdx).tag sec := by
  rcases tag_files files task.cmd.header.sectorIdx sec st with heq | ⟨t, rfl, rfl, heq⟩
  · rw [heq]
  · rw [heq]; exact h

/-- The tag of the command a handler at a write point handles. -/
theorem writeTag_of {cmd : SystemRegisterCommand} {t : Tag} {d : SectorVec}
    (h : cmd.content = .writeProc t.timestamp t.writeRank d) : writeTag cmd = some t := by
  simp [writeTag, h]

/-- The task that moves knows what it needs at its next point. -/
theorem tagKnown_next {files : SectorFiles} {task task' : Task} {st : Stage}
    (hK : TagKnown files task st) (hof : st.Of task.cmd) (hcmd : task'.cmd = task.cmd) :
    TagKnown (st.files files task.cmd.header.sectorIdx) task'
      (st.next files task.cmd.header.sectorIdx) := by
  cases st with
  | compare t d =>
    simp only [Stage.next, Stage.files]
    split
    · rename_i hlt
      rw [TagKnown, hcmd]
      exact hlt.le
    · rename_i hge
      rw [TagKnown, hcmd, writeTag_of hof]
      intro t' ht'
      rw [← Option.some.inj ht']
      exact not_lt.mp hge
  | data t d =>
    simp only [Stage.next, Stage.files]
    rw [TagKnown, hcmd, SectorFiles.tag_writeData]
    exact hK
  | metadata t =>
    obtain ⟨d, hd⟩ := hof
    simp only [Stage.next, Stage.files]
    rw [TagKnown, hcmd, writeTag_of hd]
    intro t' ht'
    rw [← Option.some.inj ht', SectorFiles.tag_writeMetadata_self]
  | _ => trivial

/-- The write a task at a write point is in the middle of. -/
theorem midWrite_at {register : AtomicRegisterImplementation} {task : Task} {st : Stage}
    (hat : task.At register s st) {t : Tag} (hst : (∃ d, st = .data t d) ∨ st = .metadata t) :
    task.midWrite = some (task.cmd.header.sectorIdx, t) := by
  have hof := hat.of
  rw [Task.midWrite, hat.nextCall]
  rcases hst with ⟨d, rfl⟩ | rfl
  · simp only [Stage.call, writeTag_of hof, Option.map_some]
  · rfl

/-- The other tasks still know what they knew, if none of them is overtaken. -/
theorem tagKnown_other {r r₀ : ℕ} {task task₀ : Task} {st st₀ : Stage} (hne : r ≠ r₀)
    (hr : r < R) (htask : s.tasks r = some task) (htask₀ : s.tasks r₀ = some task₀)
    (hat : task.At (registers r) s st) (hat₀ : task₀.At (registers r₀) s st₀)
    (hK : TagKnown s.files task st) (hK₀ : TagKnown s.files task₀ st₀)
    (hu : Undisturbed R s (.call r₀)) :
    TagKnown (st₀.files s.files task₀.cmd.header.sectorIdx) task st := by
  have hgrow := tag_le_files hK₀ task.cmd.header.sectorIdx
  -- a smaller tag that is about to be stored is not overtaken by a larger one
  have hmid : ∀ t, (∃ d, st = .data t d) ∨ st = .metadata t →
      s.files.tag task.cmd.header.sectorIdx ≤ t →
      (st₀.files s.files task₀.cmd.header.sectorIdx).tag task.cmd.header.sectorIdx ≤ t := by
    intro t hst hle
    rcases tag_files s.files task₀.cmd.header.sectorIdx task.cmd.header.sectorIdx st₀ with
      heq | ⟨t₀, rfl, hsec, heq⟩
    · rw [heq]; exact hle
    · have hfree := hu r hr hne task₀ htask₀ task htask
      simp only [overtakes, hat₀.nextCall, Stage.call, midWrite_at hat hst, hsec, true_and,
        decide_eq_false_iff_not, not_lt] at hfree
      rw [heq]
      exact hfree
  cases st with
  | data t d => exact hmid t (.inl ⟨d, rfl⟩) hK
  | metadata t => exact hmid t (.inr rfl) hK
  | acknowledge => exact fun t ht => (hK t ht).trans hgrow
  | _ => trivial

theorem Orderly.step (hO : Orderly R registers s) {a : Action} (ha : Undisturbed R s a)
    (h : s.step R registers a = some s') : Orderly R registers s' := by
  have hc := step_cases hO.tasks h
  cases hc with
  | @receive r cmd hr hidle hcmd =>
    refine ⟨bound_update hO.bound fun _ _ => hr, ?_, hO.past, hO.replies⟩
    refine hO.tasks.receive hcmd (fun task _ => ?_) fun task st hK => hK
    unfold firstStage
    split <;> trivial
  | finish htask hat =>
    exact ⟨bound_update hO.bound (by simp), hO.tasks.finish, hO.past, hO.replies⟩
  | @call r task st op htask hat hK hop =>
    have hgrow := tag_le_files hK
    refine ⟨bound_update hO.bound fun _ _ => hO.bound r task htask, ?_, ?_, ?_⟩
    · refine hO.tasks.call hat (tagKnown_next hK hat.of rfl) ?_
      intro r' task' st' hne htask' hat' hK'
      -- a handler that has found the tag to be older is not overtaken before it writes
      exact tagKnown_other hne (hO.bound r' task' htask') htask' htask hat' hat hK' hK ha
    · intro files hfiles sec
      simp only [Store.after, List.mem_cons] at hfiles
      rcases hfiles with rfl | hfiles
      · exact hgrow sec
      · exact (hO.past files hfiles sec).trans (hgrow sec)
    · -- tags only grow, so the replies from before stay right
      have hold : ∀ x ∈ s.replies, ∀ t ∈ writeTag x.1, t ≤
          (st.files s.files task.cmd.header.sectorIdx).tag x.1.header.sectorIdx :=
        fun x hx t ht => (hO.replies x hx t ht).trans (hgrow _)
      intro x hx t ht
      cases st with
      | acknowledge =>
        rw [← Option.some.inj hop] at hx
        simp only [Store.after, List.mem_append, List.mem_singleton] at hx
        rcases hx with hx | rfl
        · exact hold x hx t ht
        · exact hK t ht
      | reply value stored =>
        rw [← Option.some.inj hop] at hx
        simp only [Store.after, List.mem_append, List.mem_singleton] at hx
        rcases hx with hx | rfl
        · exact hold x hx t ht
        · have hread : task.cmd.content = .readProc := hat.of
          simp [writeTag, hread] at ht
      | finished => simp [Stage.call] at hop
      | _ =>
        rw [← Option.some.inj hop] at hx
        exact hold x hx t ht

theorem on_orderly (files : SectorFiles) : Orderly R registers (.on files) where
  bound := by simp [Store.on]
  tasks := by intro r task htask; simp [Store.on] at htask
  past := by simp [Store.on]
  replies := by simp [Store.on]

/-- **No lost update without overtaking.** If no handler is overtaken between its
comparison and its metadata step, the tag `read_metadata` reports never decreases, and a
`WriteProc` that has been acknowledged is stored, or something newer is, from then on. -/
theorem tag_mono_of_undisturbed {files : SectorFiles}
    (hs : Reachable (Store.step R registers) (Undisturbed R) (.on files) s) :
    (∀ files ∈ s.past, ∀ sec, files.tag sec ≤ s.files.tag sec) ∧
    ∀ x ∈ s.replies, ∀ t ∈ writeTag x.1, t ≤ s.files.tag x.1.header.sectorIdx := by
  have hO : Orderly R registers s := by
    refine hs.invariant (Orderly R registers) (on_orderly files) ?_
    intro s a s' _ hO ha h
    exact hO.step ha h
  exact ⟨hO.past, hO.replies⟩

/-- Two `WriteProc`s handled at the same time. Both compare with the initial tag, and the
data files are replaced before either record is; the smaller tag is stored first. -/
def inOrder : List Action :=
  [.receive 0 (writeProc 1 1), .receive 1 (writeProc 2 2), .call 0, .call 1, .call 1, .call 0,
    .call 0, .call 1, .call 1, .call 0]

set_option maxRecDepth 100000 in
theorem tag_mono_of_undisturbed_inOrder :
    ∃ s, Reachable (Store.step 2 fun _ => freshRegister 3 1) (Undisturbed 2) (.on .empty) s ∧
      s.replies.length = 2 ∧ ∀ x ∈ s.replies, ∀ t ∈ writeTag x.1,
        t ≤ s.files.tag x.1.header.sectorIdx := by
  obtain ⟨s, hs, hlen⟩ : ∃ s,
      Reachable (Store.step 2 fun _ => freshRegister 3 1) (Undisturbed 2) (.on .empty) s ∧
      s.replies.length = 2 :=
    exists_of_exec inOrder (by decide +kernel)
  exact ⟨s, hs, hlen, (tag_mono_of_undisturbed hs).2⟩

/-- Both handlers compare with the initial tag; the larger tag is stored first. -/
def overtaking : List Action :=
  [.receive 0 (writeProc 1 1), .receive 1 (writeProc 2 2), .call 0, .call 1,
    .call 1, .call 1, .call 1, .call 0, .call 0]

set_option maxRecDepth 100000 in
/-- The smaller tag replaces the larger one, which has been acknowledged. -/
theorem update_lost_by_overtaking :
    ∃ s, Reachable (Store.step 2 fun _ => freshRegister 3 1) (fun _ _ => True) (.on .empty) s ∧
      (∃ files ∈ s.past, s.files.tag 0 < files.tag 0) ∧
      ∃ x ∈ s.replies, ∃ t ∈ writeTag x.1, s.files.tag x.1.header.sectorIdx < t :=
  exists_of_exec overtaking (by decide +kernel)

end Handlers
end AtomicDiscDrive
