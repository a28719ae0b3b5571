import AtomicDiscDrive.Handlers.Stages

/-!
# Torn replies

A `ReadProc` handler reads data and metadata in separate calls, and `write` replaces the
data file before the metadata record. As long as nobody reads or writes data between the two
steps of `write`, and no record is replaced between the two reads, a reader finds the record
of the `WriteProc` whose data it has read (`Paired.matched`), and the triple it answers with
is one that was received; otherwise tag and data may come from different `WriteProc`s.
-/

namespace AtomicDiscDrive
namespace Handlers

open Utils

variable {R : ℕ} {registers : ℕ → AtomicRegisterImplementation} {s s' : Store}

/-- When a `ReadProc` handler reads the metadata of its sector, the record is that of the
`WriteProc` whose data it has read (or there is none, and it has read none). -/
def Matched (s : Store) : Action → Prop
  | .call r => ∀ task ∈ s.tasks r, task.cmd.content = .readProc →
      task.nextCall = some (.readMetadata task.cmd.header.sectorIdx) →
      s.metadataBy task.cmd.header.sectorIdx = task.saw
  | .receive _ _ => True

/-- The triple of a `Value` for sector `sec` is the initial one, or that of one `WriteProc`
received for this sector. -/
def Received (received : List SystemRegisterCommand) (sec : SectorIdx) (timestamp : UInt64)
    (writeRank : UInt8) (data : SectorVec) : Prop :=
  timestamp = 0 ∧ writeRank = 0 ∧ data = .new ∨
    ∃ cmd ∈ received, cmd.header.sectorIdx = sec ∧
      cmd.content = .writeProc timestamp writeRank data

/-- `cmd` is the `k`-th command received, a `WriteProc` for sector `sec`. -/
structure IsWriteProc (received : List SystemRegisterCommand) (sec : SectorIdx) (k : ℕ)
    (cmd : SystemRegisterCommand) (timestamp : UInt64) (writeRank : UInt8) (data : SectorVec) :
    Prop where
  mem : received[k]? = some cmd
  sector : cmd.header.sectorIdx = sec
  content : cmd.content = .writeProc timestamp writeRank data

/-- What a handler knows about the `WriteProc`s behind what it has read, and that the data
file of a sector is written before its metadata record. -/
def SourceKnown (s : Store) (task : Task) : Stage → Prop
  | .metadata _ => s.dataBy task.cmd.header.sectorIdx ≠ none
  | .readMetadata value =>
    match task.saw with
    | none => value = .new
    | some k => ∃ cmd ts wr, IsWriteProc s.received task.cmd.header.sectorIdx k cmd ts wr value
  | .reply value stored => Received s.received task.cmd.header.sectorIdx stored.1 stored.2 value
  | _ => True

/-- Where the files and the replies come from. -/
structure Sourced (registers : ℕ → AtomicRegisterImplementation) (s : Store) : Prop where
  tasks : TasksAt registers s (SourceKnown s)
  data : ∀ sec k, s.dataBy sec = some k → ∃ cmd ts wr d, IsWriteProc s.received sec k cmd ts wr d ∧
    s.files.data sec = some d
  metadata : ∀ sec k, s.metadataBy sec = some k → ∃ cmd ts wr d,
    IsWriteProc s.received sec k cmd ts wr d ∧ s.files.metadata sec = some (ts, wr) ∧
    s.dataBy sec ≠ none
  absent : ∀ sec, s.metadataBy sec = none → s.files.metadata sec = none
  replies : ∀ x ∈ s.replies, ∀ ts wr d, x.2.content = .value ts wr d →
    Received s.received x.1.header.sectorIdx ts wr d

section Sources

variable {l l' : List SystemRegisterCommand}

theorem IsWriteProc.mono {sec : SectorIdx} {k : ℕ} {cmd : SystemRegisterCommand} {ts : UInt64}
    {wr : UInt8} {d : SectorVec} (h : IsWriteProc l sec k cmd ts wr d)
    (hr : ∀ (k : ℕ) cmd, l[k]? = some cmd → l'[k]? = some cmd) :
    IsWriteProc l' sec k cmd ts wr d :=
  ⟨hr k cmd h.mem, h.sector, h.content⟩

theorem Received.mono {sec : SectorIdx} {ts : UInt64} {wr : UInt8} {d : SectorVec}
    (h : Received l sec ts wr d) (hr : ∀ (k : ℕ) cmd, l[k]? = some cmd → l'[k]? = some cmd) :
    Received l' sec ts wr d := by
  rcases h with h | ⟨cmd, hcmd, hrest⟩
  · exact .inl h
  · obtain ⟨k, hk⟩ := List.mem_iff_getElem?.mp hcmd
    exact .inr ⟨cmd, List.mem_iff_getElem?.mpr ⟨k, hr k cmd hk⟩, hrest⟩

/-- Sources are kept when commands are only added and data files stay written. -/
theorem SourceKnown.mono {task : Task} {st : Stage} (h : SourceKnown s task st)
    (hr : ∀ (k : ℕ) cmd, s.received[k]? = some cmd → s'.received[k]? = some cmd)
    (hd : ∀ sec, s.dataBy sec ≠ none → s'.dataBy sec ≠ none) : SourceKnown s' task st := by
  cases st with
  | metadata t => exact hd _ h
  | readMetadata value =>
    unfold SourceKnown at h ⊢
    cases hsaw : task.saw with
    | none =>
      simp only [hsaw] at h ⊢
      exact h
    | some k =>
      simp only [hsaw] at h ⊢
      obtain ⟨cmd, ts, wr, hw⟩ := h
      exact ⟨cmd, ts, wr, hw.mono hr⟩
  | reply value stored => exact Received.mono h hr
  | _ => trivial

/-- With a metadata record, `read_data` returns the data of the last data-file step. -/
theorem Sourced.readData (hS : Sourced registers s) {sec : SectorIdx}
    (hm : (s.files.metadata sec).isSome = true) :
    ∃ k cmd ts wr, s.dataBy sec = some k ∧
      IsWriteProc s.received sec k cmd ts wr (s.files.readData sec) := by
  obtain ⟨x, hx⟩ := Option.isSome_iff_exists.mp hm
  have hby : s.metadataBy sec ≠ none := by
    intro hnone
    rw [hS.absent sec hnone] at hx
    simp at hx
  obtain ⟨k', hk'⟩ := Option.ne_none_iff_exists'.mp hby
  obtain ⟨-, -, -, -, -, -, hd⟩ := hS.metadata sec k' hk'
  obtain ⟨k, hk⟩ := Option.ne_none_iff_exists'.mp hd
  obtain ⟨cmd, ts, wr, d, hw, hdata⟩ := hS.data sec k hk
  have hread : s.files.readData sec = d := by
    simp [SectorFiles.readData, hx, hdata]
  exact ⟨k, cmd, ts, wr, hk, hread ▸ hw⟩

/-- A reader that has seen the data of one `WriteProc` and finds its metadata record takes
the triple of this `WriteProc`. -/
theorem Sourced.readMetadata (hS : Sourced registers s) {task : Task} {value : SectorVec}
    (hK : SourceKnown s task (.readMetadata value))
    (hm : s.metadataBy task.cmd.header.sectorIdx = task.saw) :
    Received s.received task.cmd.header.sectorIdx
      (s.files.readMetadata task.cmd.header.sectorIdx).1
      (s.files.readMetadata task.cmd.header.sectorIdx).2 value := by
  unfold SourceKnown at hK
  cases hsaw : task.saw with
  | none =>
    rw [hsaw] at hm
    simp only [hsaw] at hK
    have habsent := hS.absent _ hm
    exact .inl ⟨by simp [SectorFiles.readMetadata, habsent],
      by simp [SectorFiles.readMetadata, habsent], hK⟩
  | some k =>
    rw [hsaw] at hm
    simp only [hsaw] at hK
    obtain ⟨cmd, ts, wr, hw⟩ := hK
    obtain ⟨cmd', ts', wr', d', hw', hmeta, -⟩ := hS.metadata _ k hm
    have hcmd : cmd' = cmd := Option.some.inj (hw'.mem.symm.trans hw.mem)
    subst hcmd
    have hcontent := hw'.content.symm.trans hw.content
    simp only [SystemRegisterCommandContent.writeProc.injEq] at hcontent
    obtain ⟨rfl, rfl, rfl⟩ := hcontent
    refine .inr ⟨cmd', List.mem_iff_getElem?.mpr ⟨k, hw.mem⟩, hw.sector, ?_⟩
    simpa [SectorFiles.readMetadata, hmeta] using hw.content

variable {r : ℕ} {task : Task} {st : Stage} {op : RegisterOp}

/-- The task that moves knows the sources it needs at its next point. -/
theorem Sourced.next (hS : Sourced registers s) (htask : s.tasks r = some task)
    (hat : task.At (registers r) s st) (hK : SourceKnown s task st)
    (hop : st.call (registers r) task.cmd.header = some op) (ha : Matched s (.call r)) :
    SourceKnown (s.after r task op (st.files s.files task.cmd.header.sectorIdx)
        ((st.next s.files task.cmd.header.sectorIdx).rest (registers r) task.cmd.header))
      (task.moved s op
        ((st.next s.files task.cmd.header.sectorIdx).rest (registers r) task.cmd.header))
      (st.next s.files task.cmd.header.sectorIdx) := by
  cases st with
  | compare t d =>
    simp only [Stage.next]
    split <;> trivial
  | data t d =>
    rw [← Option.some.inj hop]
    show Function.update s.dataBy task.cmd.header.sectorIdx (some task.serial)
      task.cmd.header.sectorIdx ≠ none
    rw [Function.update_self]
    simp
  | readData =>
    rw [← Option.some.inj hop]
    simp only [Stage.next]
    by_cases hm : (s.files.metadata task.cmd.header.sectorIdx).isSome = true
    · obtain ⟨k, cmd, ts, wr, hby, hw⟩ := hS.readData hm
      simp only [SourceKnown, Task.moved, if_pos hm, hby]
      exact ⟨cmd, ts, wr, hw.mem, hw.sector, hw.content⟩
    · simp only [SourceKnown, Task.moved, if_neg hm]
      rw [Option.not_isSome_iff_eq_none] at hm
      simp [SectorFiles.readData, hm]
  | readMetadata value =>
    have hm := ha task htask hat.of (by rw [hat.nextCall]; rfl)
    exact hS.readMetadata hK hm
  | _ => trivial

/-- The data files after a call. -/
theorem Sourced.data_step (hS : Sourced registers s) (hat : task.At (registers r) s st)
    (hop : st.call (registers r) task.cmd.header = some op)
    {rest : RegisterProgram AtomicRegisterImplementation} (sec : SectorIdx) (k : ℕ)
    (hby : (s.after r task op (st.files s.files task.cmd.header.sectorIdx) rest).dataBy sec =
      some k) :
    ∃ cmd ts wr d, IsWriteProc s.received sec k cmd ts wr d ∧
      (st.files s.files task.cmd.header.sectorIdx).data sec = some d := by
  cases st with
  | data t d =>
    rw [← Option.some.inj hop] at hby
    simp only [Store.after] at hby
    simp only [Stage.files, SectorFiles.writeData]
    by_cases hsec : sec = task.cmd.header.sectorIdx
    · subst hsec
      rw [Function.update_self, Option.some.injEq] at hby
      rw [Function.update_self]
      subst hby
      exact ⟨task.cmd, t.timestamp, t.writeRank, d, ⟨hat.serial, rfl, hat.of⟩, rfl⟩
    · rw [Function.update_of_ne hsec] at hby ⊢
      exact hS.data sec k hby
  | finished => simp [Stage.call] at hop
  | _ =>
    rw [← Option.some.inj hop] at hby
    exact hS.data sec k hby

/-- The metadata records after a call. -/
theorem Sourced.metadata_step (hS : Sourced registers s) (hat : task.At (registers r) s st)
    (hK : SourceKnown s task st) (hop : st.call (registers r) task.cmd.header = some op)
    {rest : RegisterProgram AtomicRegisterImplementation} (sec : SectorIdx) (k : ℕ)
    (hby : (s.after r task op (st.files s.files task.cmd.header.sectorIdx) rest).metadataBy sec =
      some k) :
    ∃ cmd ts wr d, IsWriteProc s.received sec k cmd ts wr d ∧
      (st.files s.files task.cmd.header.sectorIdx).metadata sec = some (ts, wr) ∧
      s.dataBy sec ≠ none := by
  cases st with
  | metadata t =>
    rw [← Option.some.inj hop] at hby
    simp only [Store.after] at hby
    simp only [Stage.files, SectorFiles.writeMetadata]
    by_cases hsec : sec = task.cmd.header.sectorIdx
    · subst hsec
      obtain ⟨d, hd⟩ := hat.of
      rw [Function.update_self, Option.some.injEq] at hby
      rw [Function.update_self]
      subst hby
      exact ⟨task.cmd, t.timestamp, t.writeRank, d, ⟨hat.serial, rfl, hd⟩, rfl, hK⟩
    · rw [Function.update_of_ne hsec] at hby ⊢
      exact hS.metadata sec k hby
  | finished => simp [Stage.call] at hop
  | _ =>
    rw [← Option.some.inj hop] at hby
    exact hS.metadata sec k hby

theorem Sourced.absent_step (hS : Sourced registers s)
    (hop : st.call (registers r) task.cmd.header = some op)
    {rest : RegisterProgram AtomicRegisterImplementation} (sec : SectorIdx)
    (hby : (s.after r task op (st.files s.files task.cmd.header.sectorIdx) rest).metadataBy sec =
      none) :
    (st.files s.files task.cmd.header.sectorIdx).metadata sec = none := by
  cases st with
  | metadata t =>
    rw [← Option.some.inj hop] at hby
    simp only [Store.after] at hby
    simp only [Stage.files, SectorFiles.writeMetadata]
    by_cases hsec : sec = task.cmd.header.sectorIdx
    · subst hsec
      simp at hby
    · rw [Function.update_of_ne hsec] at hby ⊢
      exact hS.absent sec hby
  | finished => simp [Stage.call] at hop
  | _ =>
    rw [← Option.some.inj hop] at hby
    exact hS.absent sec hby

theorem Sourced.replies_step (hS : Sourced registers s) (hK : SourceKnown s task st)
    (hop : st.call (registers r) task.cmd.header = some op)
    {files : SectorFiles} {rest : RegisterProgram AtomicRegisterImplementation} :
    ∀ x ∈ (s.after r task op files rest).replies, ∀ ts wr d, x.2.content = .value ts wr d →
      Received s.received x.1.header.sectorIdx ts wr d := by
  intro x hx ts wr d hval
  cases st with
  | acknowledge =>
    rw [← Option.some.inj hop] at hx
    simp only [Store.after, List.mem_append, List.mem_singleton] at hx
    rcases hx with hx | rfl
    · exact hS.replies x hx ts wr d hval
    · simp [Stage.ackOf] at hval
  | reply value stored =>
    rw [← Option.some.inj hop] at hx
    simp only [Store.after, List.mem_append, List.mem_singleton] at hx
    rcases hx with hx | rfl
    · exact hS.replies x hx ts wr d hval
    · simp only [Stage.valueOf, SystemRegisterCommandContent.value.injEq] at hval
      obtain ⟨rfl, rfl, rfl⟩ := hval
      exact hK
  | finished => simp [Stage.call] at hop
  | _ =>
    rw [← Option.some.inj hop] at hx
    exact hS.replies x hx ts wr d hval

/-- Data files stay written. -/
theorem after_dataBy {files : SectorFiles} {rest : RegisterProgram AtomicRegisterImplementation}
    (sec : SectorIdx) (h : s.dataBy sec ≠ none) :
    (s.after r task op files rest).dataBy sec ≠ none := by
  simp only [Store.after]
  split
  · rename_i idx _
    by_cases hsec : sec = idx
    · subst hsec
      simp
    · rw [Function.update_of_ne hsec]
      exact h
  · exact h

end Sources

theorem Sourced.step (hS : Sourced registers s) {a : Action} (ha : Matched s a)
    (h : s.step R registers a = some s') : Sourced registers s' := by
  have hc := step_cases hS.tasks h
  cases hc with
  | @receive r cmd hr hidle hcmd =>
    have hr' : ∀ (k : ℕ) c, s.received[k]? = some c → (s.received ++ [cmd])[k]? = some c :=
      fun k c h => received_append h
    constructor
    · refine hS.tasks.receive hcmd (fun task _ => ?_) fun task st hK => hK.mono hr' fun _ h => h
      unfold firstStage
      split <;> trivial
    · intro sec k hby
      obtain ⟨c, ts, wr, d, hw, hd⟩ := hS.data sec k hby
      exact ⟨c, ts, wr, d, hw.mono hr', hd⟩
    · intro sec k hby
      obtain ⟨c, ts, wr, d, hw, hd⟩ := hS.metadata sec k hby
      exact ⟨c, ts, wr, d, hw.mono hr', hd⟩
    · exact hS.absent
    · intro x hx ts wr d hval
      exact (hS.replies x hx ts wr d hval).mono hr'
  | finish =>
    refine ⟨?_, hS.data, hS.metadata, hS.absent, hS.replies⟩
    intro r' task' htask'
    obtain ⟨st, hat, hK⟩ := hS.tasks.finish r' task' htask'
    exact ⟨st, hat, hK.mono (fun _ _ h => h) fun _ h => h⟩
  | @call r task st op htask hat hK hop =>
    constructor
    · refine hS.tasks.call hat (hS.next htask hat hK hop ha) ?_
      intro r' task' st' _ _ _ hK'
      exact hK'.mono (fun _ _ h => h) after_dataBy
    · exact hS.data_step hat hop
    · intro sec k hby
      obtain ⟨c, ts, wr, d, hw, hm, hd⟩ := hS.metadata_step hat hK hop sec k hby
      exact ⟨c, ts, wr, d, hw, hm, after_dataBy sec hd⟩
    · exact hS.absent_step hop
    · exact hS.replies_step hK hop

theorem empty_sourced : Sourced registers (.on .empty) where
  tasks := by intro r task htask; simp [Store.on] at htask
  data := by intro sec k hk; simp [Store.on] at hk
  metadata := by intro sec k hk; simp [Store.on] at hk
  absent := fun _ _ => rfl
  replies := by simp [Store.on]

/-! ## Reads and writes in pairs -/

/-- The handler that wrote the data last is about to write the record; the record is as it was
when the data were read. -/
def PairKnown (s : Store) (task : Task) : Stage → Prop
  | .metadata _ => s.dataBy task.cmd.header.sectorIdx = some task.serial
  | .readMetadata _ => s.metadataBy task.cmd.header.sectorIdx = task.saw
  | _ => True

/-- What runs without intrusion keep. -/
structure Paired (R : ℕ) (registers : ℕ → AtomicRegisterImplementation) (s : Store) :
    Prop where
  bound : ∀ r task, s.tasks r = some task → r < R
  tasks : TasksAt registers s (PairKnown s)
  /-- data and record of a sector nobody is writing come from the same `WriteProc` -/
  level : ∀ sec, (∀ r task, s.tasks r = some task → task.halfWritten sec = false) →
    s.dataBy sec = s.metadataBy sec
  alone : ∀ sec r r' task task', s.tasks r = some task → s.tasks r' = some task' →
    task.halfWritten sec = true → task'.halfWritten sec = true → r = r'

section Pairs

variable {r : ℕ} {task : Task} {st : Stage} {register : AtomicRegisterImplementation}

theorem halfWritten_at (hat : task.At register s st) (sec : SectorIdx) :
    task.halfWritten sec = true ↔ (∃ t, st = .metadata t) ∧ task.cmd.header.sectorIdx = sec := by
  rw [Task.halfWritten, hat.nextCall]
  cases st <;> simp [Stage.call]

theorem halfRead_at (hat : task.At register s st) (sec : SectorIdx) :
    task.halfRead sec = true ↔
      (∃ value, st = .readMetadata value) ∧ task.cmd.header.sectorIdx = sec := by
  have hof := hat.of
  rw [Task.halfRead, hat.nextCall]
  cases st with
  | readMetadata value =>
    have hread : task.cmd.content = .readProc := hof
    simp [Stage.call, hread]
  | compare t d =>
    have hwrite : task.cmd.content = .writeProc t.timestamp t.writeRank d := hof
    simp [hwrite]
  | _ => simp [Stage.call]

/-- A reader finds the record of the data it has read. -/
theorem Paired.matched (hP : Paired R registers s) (a : Action) : Matched s a := by
  cases a with
  | receive r cmd => trivial
  | call r =>
    intro task htask hread hcall
    obtain ⟨st, hat, hK⟩ := hP.tasks r task htask
    have hhalf : task.halfRead task.cmd.header.sectorIdx = true := by
      simp [Task.halfRead, hread, hcall]
    obtain ⟨⟨value, rfl⟩, -⟩ := (halfRead_at hat _).mp hhalf
    exact hK

variable {op : RegisterOp} (htask : s.tasks r = some task) (hat : task.At (registers r) s st)
include htask hat

/-- Nobody is between the two steps of `write` when data are read or written. -/
theorem Unbroken.halfWritten (hu : Unbroken R s (.call r))
    (hop : st = .readData ∨ ∃ t d, st = .data t d) {r' : ℕ} {task' : Task} (hr : r' < R)
    (hne : r' ≠ r) (htask' : s.tasks r' = some task') :
    task'.halfWritten task.cmd.header.sectorIdx = false := by
  have hfree := hu r' hr hne task htask task' htask'
  rw [intrudes, hat.nextCall] at hfree
  rcases hop with rfl | ⟨t, d, rfl⟩
  · exact hfree
  · exact hfree

/-- Nobody is between two reads when a record is written. -/
theorem Unbroken.halfRead {t : Tag} (hu : Unbroken R s (.call r)) (hst : st = .metadata t)
    {r' : ℕ} {task' : Task} (hr : r' < R) (hne : r' ≠ r) (htask' : s.tasks r' = some task') :
    task'.halfRead task.cmd.header.sectorIdx = false := by
  subst hst
  have hfree := hu r' hr hne task htask task' htask'
  rw [intrudes, hat.nextCall] at hfree
  exact hfree

/-- Who is between the two steps of `write` after a call was so before, unless it is the
handler that has called. -/
theorem halfWritten_back {files : SectorFiles} {sec : SectorIdx} {r' : ℕ} {task' : Task}
    (htask' : (s.after r task op files
      ((st.next s.files task.cmd.header.sectorIdx).rest (registers r) task.cmd.header)).tasks r' =
        some task')
    (hhalf : task'.halfWritten sec = true) :
    r' ≠ r ∧ s.tasks r' = some task' ∨
      r' = r ∧ (∃ t, st.next s.files task.cmd.header.sectorIdx = .metadata t) ∧
        task.cmd.header.sectorIdx = sec := by
  by_cases hr : r' = r
  · subst hr
    simp only [Store.after, Function.update_self, Option.some.injEq] at htask'
    subst htask'
    exact .inr ⟨rfl, (halfWritten_at (hat.moved r' op files _) sec).mp hhalf⟩
  · simp only [Store.after, Function.update_of_ne hr] at htask'
    exact .inl ⟨hr, htask'⟩

/-- A sector nobody is writing to after a call, nobody was writing to before, unless the
record has been written by it. -/
theorem Paired.level_before (hP : Paired R registers s) {files : SectorFiles} {sec : SectorIdx}
    (hst : (∃ t, st = .metadata t) → task.cmd.header.sectorIdx ≠ sec)
    (hall : ∀ r' task', (s.after r task op files
      ((st.next s.files task.cmd.header.sectorIdx).rest (registers r) task.cmd.header)).tasks r' =
        some task' → task'.halfWritten sec = false) :
    s.dataBy sec = s.metadataBy sec := by
  apply hP.level sec
  intro r' task' htask'
  by_cases hr : r' = r
  · subst hr
    obtain rfl : task = task' := Option.some.inj (htask.symm.trans htask')
    rw [← Bool.not_eq_true, halfWritten_at hat]
    exact fun ⟨hmeta, hsec⟩ => hst hmeta hsec
  · apply hall r' task'
    simp only [Store.after, Function.update_of_ne hr]
    exact htask'

/-- A call at any other point than the two steps of `write`. -/
theorem Paired.quiet (hP : Paired R registers s) {files : SectorFiles}
    (hst : ∀ t, st ≠ .metadata t)
    (hnext : ∀ t, st.next s.files task.cmd.header.sectorIdx ≠ .metadata t)
    (hdata : ∀ rest, (s.after r task op files rest).dataBy = s.dataBy)
    (hmeta : ∀ rest, (s.after r task op files rest).metadataBy = s.metadataBy)
    (hself : PairKnown s (task.moved s op
      ((st.next s.files task.cmd.header.sectorIdx).rest (registers r) task.cmd.header))
      (st.next s.files task.cmd.header.sectorIdx)) :
    Paired R registers (s.after r task op files
      ((st.next s.files task.cmd.header.sectorIdx).rest (registers r) task.cmd.header)) := by
  have hknown : ∀ rest task' st', PairKnown s task' st' →
      PairKnown (s.after r task op files rest) task' st' := by
    intro rest task' st' hK
    cases st' with
    | metadata t => exact (congrFun (hdata rest) _).trans hK
    | readMetadata value => exact (congrFun (hmeta rest) _).trans hK
    | _ => trivial
  refine ⟨bound_update hP.bound fun _ _ => hP.bound r task htask, ?_, ?_, ?_⟩
  · exact hP.tasks.call hat (hknown _ _ _ hself) fun _ _ _ _ _ _ hK => hknown _ _ _ hK
  · intro sec hall
    rw [hdata, hmeta]
    exact hP.level_before htask hat (fun ⟨t, ht⟩ => absurd ht (hst t)) hall
  · intro sec r₁ r₂ task₁ task₂ h₁ h₂ hhalf₁ hhalf₂
    rcases halfWritten_back htask hat h₁ hhalf₁ with ⟨-, hold₁⟩ | ⟨-, ⟨t, ht⟩, -⟩
    · rcases halfWritten_back htask hat h₂ hhalf₂ with ⟨-, hold₂⟩ | ⟨-, ⟨t, ht⟩, -⟩
      · exact hP.alone sec r₁ r₂ task₁ task₂ hold₁ hold₂ hhalf₁ hhalf₂
      · exact absurd ht (hnext t)
    · exact absurd ht (hnext t)

/-- The data-file step of `write`, nobody else being between its two steps. -/
theorem Paired.data (hP : Paired R registers s) {files : SectorFiles} {t : Tag} {d : SectorVec}
    (hst : st = .data t d) (hop : op = .writeData task.cmd.header.sectorIdx d)
    (hu : Unbroken R s (.call r)) :
    Paired R registers (s.after r task op files
      ((st.next s.files task.cmd.header.sectorIdx).rest (registers r) task.cmd.header)) := by
  have hfree : ∀ {r' task'}, r' ≠ r → s.tasks r' = some task' →
      task'.halfWritten task.cmd.header.sectorIdx = false := fun hne htask' =>
    hu.halfWritten htask hat (.inr ⟨t, d, hst⟩) (hP.bound _ _ htask') hne htask'
  have hmoved := hat.moved r op files task.cmd.header.sectorIdx
  subst hst hop
  refine ⟨bound_update hP.bound fun _ _ => hP.bound r task htask, ?_, ?_, ?_⟩
  · apply hP.tasks.call hat
    · show Function.update s.dataBy task.cmd.header.sectorIdx (some task.serial)
        task.cmd.header.sectorIdx = some task.serial
      exact Function.update_self _ _ _
    · intro r' task' st' hne htask' hat' hK
      cases st' with
      | metadata t' =>
        show Function.update s.dataBy _ _ _ = _
        rw [Function.update_of_ne]
        · exact hK
        · intro hsec
          have hhalf := (halfWritten_at hat' task.cmd.header.sectorIdx).mpr ⟨⟨t', rfl⟩, hsec⟩
          rw [hfree hne htask'] at hhalf
          cases hhalf
      | readMetadata value => exact hK
      | _ => trivial
  · intro sec hall
    by_cases hsec : sec = task.cmd.header.sectorIdx
    · -- the handler itself is between its two steps now
      have hself := hall r _ (Function.update_self r _ s.tasks)
      rw [(halfWritten_at hmoved sec).mpr ⟨⟨t, rfl⟩, hsec.symm⟩] at hself
      cases hself
    · show Function.update s.dataBy _ _ _ = _
      rw [Function.update_of_ne hsec]
      exact hP.level_before htask hat (fun ⟨_, ht⟩ => by cases ht) hall
  · intro sec r₁ r₂ task₁ task₂ h₁ h₂ hhalf₁ hhalf₂
    rcases halfWritten_back htask hat h₁ hhalf₁ with ⟨hne₁, hold₁⟩ | ⟨hr₁, -, hsec₁⟩
    · rcases halfWritten_back htask hat h₂ hhalf₂ with ⟨hne₂, hold₂⟩ | ⟨hr₂, -, hsec₂⟩
      · exact hP.alone sec r₁ r₂ task₁ task₂ hold₁ hold₂ hhalf₁ hhalf₂
      · rw [← hsec₂, hfree hne₁ hold₁] at hhalf₁
        cases hhalf₁
    · rcases halfWritten_back htask hat h₂ hhalf₂ with ⟨hne₂, hold₂⟩ | ⟨hr₂, -, hsec₂⟩
      · rw [← hsec₁, hfree hne₂ hold₂] at hhalf₂
        cases hhalf₂
      · rw [hr₁, hr₂]

/-- The metadata step of `write`, nobody being between two reads. -/
theorem Paired.metadata (hP : Paired R registers s) {files : SectorFiles} {t : Tag}
    (hst : st = .metadata t) (hK : PairKnown s task st)
    (hop : op = .writeMetadata task.cmd.header.sectorIdx t.timestamp t.writeRank)
    (hu : Unbroken R s (.call r)) :
    Paired R registers (s.after r task op files
      ((st.next s.files task.cmd.header.sectorIdx).rest (registers r) task.cmd.header)) := by
  have hfree : ∀ {r' task'}, r' ≠ r → s.tasks r' = some task' →
      task'.halfRead task.cmd.header.sectorIdx = false := fun hne htask' =>
    hu.halfRead htask hat hst (hP.bound _ _ htask') hne htask'
  subst hst hop
  refine ⟨bound_update hP.bound fun _ _ => hP.bound r task htask, ?_, ?_, ?_⟩
  · apply hP.tasks.call hat
    · trivial
    · intro r' task' st' hne htask' hat' hK'
      cases st' with
      | metadata t' => exact hK'
      | readMetadata value =>
        show Function.update s.metadataBy _ _ _ = _
        rw [Function.update_of_ne]
        · exact hK'
        · intro hsec
          have hhalf := (halfRead_at hat' task.cmd.header.sectorIdx).mpr ⟨⟨value, rfl⟩, hsec⟩
          rw [hfree hne htask'] at hhalf
          cases hhalf
      | _ => trivial
  · intro sec hall
    by_cases hsec : sec = task.cmd.header.sectorIdx
    · subst hsec
      show _ = Function.update s.metadataBy _ _ _
      rw [Function.update_self]
      exact hK
    · show _ = Function.update s.metadataBy _ _ _
      rw [Function.update_of_ne hsec]
      exact hP.level_before htask hat (fun _ heq => hsec heq.symm) hall
  · intro sec r₁ r₂ task₁ task₂ h₁ h₂ hhalf₁ hhalf₂
    rcases halfWritten_back htask hat h₁ hhalf₁ with ⟨-, hold₁⟩ | ⟨-, ⟨t', ht⟩, -⟩
    · rcases halfWritten_back htask hat h₂ hhalf₂ with ⟨-, hold₂⟩ | ⟨-, ⟨t', ht⟩, -⟩
      · exact hP.alone sec r₁ r₂ task₁ task₂ hold₁ hold₂ hhalf₁ hhalf₂
      · cases ht
    · cases ht

/-- A reader sees the data of the last record, nobody being between the steps of `write`. -/
theorem Paired.readData (hP : Paired R registers s) (hS : Sourced registers s)
    (hst : st = .readData) (hu : Unbroken R s (.call r)) :
    s.metadataBy task.cmd.header.sectorIdx =
      if (s.files.metadata task.cmd.header.sectorIdx).isSome then
        s.dataBy task.cmd.header.sectorIdx
      else none := by
  have hlevel : s.dataBy task.cmd.header.sectorIdx = s.metadataBy task.cmd.header.sectorIdx := by
    apply hP.level
    intro r' task' htask'
    by_cases hr : r' = r
    · subst hr
      obtain rfl : task = task' := Option.some.inj (htask.symm.trans htask')
      rw [← Bool.not_eq_true, halfWritten_at hat, hst]
      rintro ⟨⟨t, ht⟩, -⟩
      cases ht
    · exact hu.halfWritten htask hat (.inl hst) (hP.bound _ _ htask') hr htask'
  by_cases hm : (s.files.metadata task.cmd.header.sectorIdx).isSome = true
  · rw [if_pos hm, hlevel]
  · rw [if_neg hm]
    cases hby : s.metadataBy task.cmd.header.sectorIdx with
    | none => rfl
    | some k =>
      obtain ⟨-, ts, wr, -, -, hrecord, -⟩ := hS.metadata _ k hby
      rw [hrecord] at hm
      exact absurd rfl hm

end Pairs

theorem Paired.step (hP : Paired R registers s) (hS : Sourced registers s) {a : Action}
    (ha : Unbroken R s a) (h : s.step R registers a = some s') : Paired R registers s' := by
  cases step_cases hP.tasks h with
  | @receive r cmd hr hidle hcmd =>
    have hback : ∀ {sec r' task'}, (s.afterReceive registers r cmd).tasks r' = some task' →
        task'.halfWritten sec = true → s.tasks r' = some task' := by
      intro sec r' task' htask' hhalf
      by_cases hr' : r' = r
      · subst hr'
        simp only [Function.update_self, Option.some.injEq] at htask'
        subst htask'
        obtain ⟨⟨t, ht⟩, -⟩ := (halfWritten_at (at_firstStage hcmd) sec).mp hhalf
        rw [firstStage] at ht
        split at ht <;> cases ht
      · simpa only [Function.update_of_ne hr'] using htask'
    refine ⟨bound_update hP.bound fun _ _ => hr, ?_, ?_, ?_⟩
    · refine hP.tasks.receive hcmd (fun task _ => ?_) fun task st hK => by cases st <;> exact hK
      unfold firstStage
      split <;> trivial
    · intro sec hall
      apply hP.level sec
      intro r' task' htask'
      apply hall r' task'
      have hne : r' ≠ r := by
        rintro rfl
        rw [hidle] at htask'
        cases htask'
      simpa only [Function.update_of_ne hne] using htask'
    · exact fun sec r₁ r₂ task₁ task₂ h₁ h₂ hhalf₁ hhalf₂ =>
        hP.alone sec r₁ r₂ task₁ task₂ (hback h₁ hhalf₁) (hback h₂ hhalf₂) hhalf₁ hhalf₂
  | @finish r task htask hat =>
    have hback : ∀ {r' task'}, Function.update s.tasks r none r' = some task' →
        s.tasks r' = some task' := by
      intro r' task' htask'
      by_cases hr' : r' = r
      · subst hr'
        simp at htask'
      · rwa [Function.update_of_ne hr'] at htask'
    refine ⟨bound_update hP.bound (by simp), ?_, ?_, ?_⟩
    · intro r' task' htask'
      obtain ⟨st, hat', hK⟩ := hP.tasks r' task' (hback htask')
      exact ⟨st, ⟨hat'.rest, hat'.of, hat'.serial⟩, by cases st <;> exact hK⟩
    · intro sec hall
      apply hP.level sec
      intro r' task' htask'
      by_cases hr' : r' = r
      · -- the handler that ends has no step of `write` to make
        subst hr'
        obtain rfl : task = task' := Option.some.inj (htask.symm.trans htask')
        rw [← Bool.not_eq_true, halfWritten_at hat]
        rintro ⟨⟨t, ht⟩, -⟩
        cases ht
      · apply hall r' task'
        simpa only [Function.update_of_ne hr'] using htask'
    · exact fun sec r₁ r₂ task₁ task₂ h₁ h₂ => hP.alone sec r₁ r₂ task₁ task₂ (hback h₁) (hback h₂)
  | @call r task st op htask hat hK hop =>
    cases st with
    | compare t d =>
      rw [← Option.some.inj hop]
      have hnext : ∀ t', (Stage.compare t d).next s.files task.cmd.header.sectorIdx ≠
          .metadata t' := by
        intro t' ht'
        simp only [Stage.next] at ht'
        split at ht' <;> cases ht'
      apply hP.quiet htask hat (by simp) hnext (fun _ => rfl) (fun _ => rfl)
      simp only [Stage.next]
      split <;> trivial
    | data t d => exact hP.data htask hat rfl (Option.some.inj hop).symm ha
    | metadata t => exact hP.metadata htask hat rfl hK (Option.some.inj hop).symm ha
    | readData =>
      rw [← Option.some.inj hop]
      have hsaw := hP.readData htask hat hS rfl ha
      exact hP.quiet htask hat (by simp) (by simp [Stage.next]) (fun _ => rfl) (fun _ => rfl) hsaw
    | finished => cases hop
    | _ =>
      rw [← Option.some.inj hop]
      exact hP.quiet htask hat (by simp) (by simp [Stage.next]) (fun _ => rfl) (fun _ => rfl)
        trivial

theorem empty_paired : Paired R registers (.on .empty) where
  bound := by simp [Store.on]
  tasks := by intro r task htask; simp [Store.on] at htask
  level := fun _ _ => rfl
  alone := by intro sec r r' task task' htask; simp [Store.on] at htask

/-- **No torn reply without intrusion.** Suppose that nobody reads or writes the data of a
sector while a handler is between the two steps of `write` on this sector, and no metadata
record is written while a `ReadProc` handler is between its two reads of the sector. Then the
triple of every `Value` is the initial one or that of one `WriteProc` received for the
sector. -/
theorem value_received_of_unbroken
    (hs : Reachable (Store.step R registers) (Unbroken R) (.on .empty) s) :
    ∀ x ∈ s.replies, ∀ ts wr d, x.2.content = .value ts wr d →
      Received s.received x.1.header.sectorIdx ts wr d := by
  have hboth : Sourced registers s ∧ Paired R registers s := by
    refine hs.invariant (fun s => Sourced registers s ∧ Paired R registers s)
      ⟨empty_sourced, empty_paired⟩ ?_
    rintro s a s' - ⟨hS, hP⟩ ha h
    exact ⟨hS.step (hP.matched a) h, hP.step hS ha h⟩
  exact hboth.1.replies

/-- A `ReadProc` handler reads data and metadata, with the data-file step of a `WriteProc` in
between; another one comes after the metadata step. -/
def overlapping : List Action :=
  [.receive 0 (writeProc 1 1), .receive 1 readProc, .call 0, .call 1, .call 0, .call 1, .call 0,
    .call 1, .call 0, .call 1, .receive 1 readProc, .call 1, .call 1, .call 1]

set_option maxRecDepth 100000 in
theorem value_received_of_unbroken_overlapping :
    ∃ s, Reachable (Store.step 2 fun _ => freshRegister 3 1) (Unbroken 2) (.on .empty) s ∧
      (∃ x ∈ s.replies, x.2.content = .value 0 0 .new) ∧
      ∃ x ∈ s.replies, x.2.content = .value 1 1 (.fill 1) ∧ Received s.received 0 1 1 (.fill 1) := by
  obtain ⟨s, hs, hfirst, x, hx, hsec, hval⟩ : ∃ s,
      Reachable (Store.step 2 fun _ => freshRegister 3 1) (Unbroken 2) (.on .empty) s ∧
      (∃ x ∈ s.replies, x.2.content = .value 0 0 .new) ∧
      ∃ x ∈ s.replies, x.1.header.sectorIdx = 0 ∧ x.2.content = .value 1 1 (.fill 1) :=
    exists_of_exec overlapping (by decide +kernel)
  exact ⟨s, hs, hfirst, x, hx, hval, hsec ▸ value_received_of_unbroken hs x hx 1 1 (.fill 1) hval⟩

/-- A `ReadProc` handler reads the data before, and the metadata after a `WriteProc`. -/
def tearing : List Action :=
  [.receive 0 readProc, .receive 1 (writeProc 1 1), .call 0, .call 1, .call 1, .call 1,
    .call 0, .call 0]

set_option maxRecDepth 100000 in
/-- The reply has the tag of the `WriteProc` and the data from before it. -/
theorem value_torn :
    ∃ s, Reachable (Store.step 2 fun _ => freshRegister 3 1) (fun _ _ => True) (.on .empty) s ∧
      ∃ x ∈ s.replies, ∃ ts wr d, x.2.content = .value ts wr d ∧
        ¬ Received s.received x.1.header.sectorIdx ts wr d := by
  obtain ⟨s, hs, hrec, x, hx, hval⟩ : ∃ s,
      Reachable (Store.step 2 fun _ => freshRegister 3 1) (fun _ _ => True) (.on .empty) s ∧
      s.received = [readProc, writeProc 1 1] ∧
      ∃ x ∈ s.replies, x.2.content = .value 1 1 .new :=
    exists_of_exec tearing (by decide +kernel)
  refine ⟨s, hs, x, hx, 1, 1, .new, hval, ?_⟩
  rintro (⟨h, -⟩ | ⟨cmd, hcmd, -, hcontent⟩)
  · exact absurd h (by decide)
  · rw [hrec, List.mem_cons, List.mem_singleton] at hcmd
    have hne : SectorVec.fill 1 ≠ .new := by decide +kernel
    rcases hcmd with rfl | rfl
    · simp [readProc] at hcontent
    · simp only [writeProc, SystemRegisterCommandContent.writeProc.injEq] at hcontent
      exact hne hcontent.2.2

end Handlers
end AtomicDiscDrive
