import AtomicDiscDrive.Network.RegisterClient

/-!
# What a step of the client does

`step_event` says once what each step can do. From it follows what holds of the calls in
every state of every run, whatever the environment does (`Calls`): which process a command
is for, and that an operation has one broadcast under way at a time.
-/

namespace AtomicDiscDrive
namespace Network

open Utils

namespace Client

variable {N self : ℕ} {ident : Operation → Uuid}

/-! ## Inversion -/

/-- A step of the client. -/
inductive Event (N self : ℕ) (ident : Operation → Uuid) (s : Client) : Action → Client → Prop where
  | send {o : Operation} {cmd : SystemRegisterCommand} (hident : cmd.header.msgIdent = ident o) :
      Event N self ident s (.send o cmd)
        { s with tasks := s.tasks ++ [⟨cmd, o, some o.process, [o.process], .ready⟩] }
  | broadcast {o : Operation} {cmd : SystemRegisterCommand}
      (hident : cmd.header.msgIdent = ident o) (hself : o.process = self)
      (hdone : s.broadcastsDone o = true) :
      Event N self ident s (.broadcast o cmd)
        { s with tasks := s.tasks ++ [⟨cmd, o, none, List.range' 1 N, .ready⟩] }
  | toSelf {k : ℕ} {ok : Bool} {task : Task} {rest : List ℕ} (hk : s.tasks[k]? = some task)
      (htargets : task.targets = self :: rest) (hpc : task.pc = .ready) :
      Event N self ident s (.call k ok)
        { s.proceed k task with
          selfChannel := s.selfChannel ++ [copyOf task k s.attempts]
          attempts := s.attempts + 1 }
  | sent {k target connection : ℕ} {task : Task} {rest : List ℕ} (hk : s.tasks[k]? = some task)
      (htargets : task.targets = target :: rest) (hpc : task.pc = .ready) (hself : target ≠ self)
      (hfree : s.heldByCall target = false ∧ s.heldByMonitor target = false)
      (hstream : s.streams target = some connection) :
      Event N self ident s (.call k true)
        { s.proceed k task with
          written := s.written ++ [⟨target, connection, copyOf task k s.attempts⟩]
          attempts := s.attempts + 1 }
  | failed {k target : ℕ} {ok : Bool} {task : Task} {rest : List ℕ} (hk : s.tasks[k]? = some task)
      (htargets : task.targets = target :: rest) (hpc : task.pc = .ready) (hself : target ≠ self)
      (hfree : s.heldByCall target = false ∧ s.heldByMonitor target = false)
      (hstream : s.streams target = none ∨ ok = false) :
      Event N self ident s (.call k ok) (s.fail k task target)
  | added {k target stamp : ℕ} {ok : Bool} {task : Task} {rest : List ℕ}
      (hk : s.tasks[k]? = some task) (htargets : task.targets = target :: rest)
      (hpc : task.pc = .failed stamp) (hfree : s.isReplaying = false) :
      Event N self ident s (.call k ok)
        { s.proceed k task with pendingCmds := addPendingCmd s.pendingCmds (copyOf task k stamp) }
  | finish {o : Operation} :
      Event N self ident s (.finish o) { s with finished := s.finished ++ [o] }
  | remove {o : Operation} (hfinished : o ∈ s.finished) (hself : o.process = self)
      (hfree : s.isReplaying = false) :
      Event N self ident s (.remove o)
        { s with pendingCmds := removePendingCmd s.pendingCmds (ident o) }
  | pass {target : ℕ} {ok : Bool} (hmonitor : s.monitor = .visiting target) :
      Event N self ident s (.visit ok) { s with monitor := .visiting (nextTarget N target) }
  | connect {target : ℕ} (hmonitor : s.monitor = .visiting target) (hself : target ≠ self)
      (hfree : s.heldByCall target = false) (hstream : s.streams target = none) :
      Event N self ident s (.visit true)
        { s with monitor := .connected target s.connections, connections := s.connections + 1 }
  | replay {target connection : ℕ} {order : List Copy}
      (hmonitor : s.monitor = .connected target connection) (hperm : order.Perm s.pendingCmds) :
      Event N self ident s (.replay order)
        { s with monitor := .replaying target connection order false }
  | replayed {target connection : ℕ} {copy : Copy} {rest : List Copy} {failed : Bool}
      (hmonitor : s.monitor = .replaying target connection (copy :: rest) failed) :
      Event N self ident s (.replayStep true)
        { s with
          monitor := .replaying target connection rest failed
          written := s.written ++ [⟨target, connection, copy⟩] }
  | unreplayed {target connection : ℕ} {copy : Copy} {rest : List Copy} {failed : Bool}
      (hmonitor : s.monitor = .replaying target connection (copy :: rest) failed) :
      Event N self ident s (.replayStep false)
        { s with monitor := .replaying target connection rest true }
  | dropped {target connection : ℕ}
      (hmonitor : s.monitor = .replaying target connection [] true) :
      Event N self ident s .markActive { s with monitor := .visiting (nextTarget N target) }
  | marked {target connection : ℕ}
      (hmonitor : s.monitor = .replaying target connection [] false) :
      Event N self ident s .markActive
        { s with
          monitor := .visiting (nextTarget N target)
          streams := Function.update s.streams target (some connection)
          owed := s.owed.filter fun o => o.target != target }

theorem callStep_event {s s' : Client} {k : ℕ} {ok : Bool} (h : s.callStep self k ok = some s') :
    Event N self ident s (.call k ok) s' := by
  unfold callStep at h
  cases hk : s.tasks[k]? with
  | none =>
    rw [hk] at h
    cases h
  | some task =>
    rw [hk] at h
    dsimp only at h
    cases htargets : task.targets with
    | nil =>
      rw [htargets] at h
      cases h
    | cons target rest =>
      rw [htargets] at h
      cases hpc : task.pc with
      | failed stamp =>
        rw [hpc] at h
        dsimp only at h
        split_ifs at h with hreplaying
        cases h
        exact .added hk htargets hpc (by simpa using hreplaying)
      | ready =>
        rw [hpc] at h
        dsimp only [attempt] at h
        by_cases hself : target = self
        · rw [if_pos hself] at h
          cases h
          exact .toSelf hk (hself ▸ htargets) hpc
        · rw [if_neg hself] at h
          by_cases hheld : (s.heldByCall target || s.heldByMonitor target) = true
          · rw [if_pos hheld] at h
            cases h
          · rw [if_neg hheld] at h
            have hfree : s.heldByCall target = false ∧ s.heldByMonitor target = false := by
              simpa using hheld
            cases hstream : s.streams target with
            | none =>
              rw [hstream] at h
              cases h
              exact .failed hk htargets hpc hself hfree (Or.inl hstream)
            | some connection =>
              rw [hstream] at h
              cases ok with
              | true =>
                cases h
                exact .sent hk htargets hpc hself hfree hstream
              | false =>
                cases h
                exact .failed hk htargets hpc hself hfree (Or.inr rfl)

theorem visit_event {s s' : Client} {ok : Bool} (h : s.visit N self ok = some s') :
    Event N self ident s (.visit ok) s' := by
  unfold visit at h
  split at h
  · rename_i target hmonitor
    by_cases hself : target = self
    · rw [if_pos hself] at h
      cases h
      exact .pass hmonitor
    · rw [if_neg hself] at h
      by_cases hheld : s.heldByCall target = true
      · rw [if_pos hheld] at h
        cases h
      · rw [if_neg hheld] at h
        cases hstream : s.streams target with
        | some connection =>
          rw [hstream] at h
          cases h
          exact .pass hmonitor
        | none =>
          rw [hstream] at h
          cases ok with
          | true =>
            cases h
            exact .connect hmonitor hself (by simpa using hheld) hstream
          | false =>
            cases h
            exact .pass hmonitor
  · cases h

/-- **Inversion.** Every step is one of these. -/
theorem step_event {s s' : Client} {a : Action} (h : s.step N self ident a = some s') :
    Event N self ident s a s' := by
  cases a with
  | send o cmd =>
    rw [step] at h
    split_ifs at h with hident
    cases h
    exact .send hident
  | broadcast o cmd =>
    rw [step] at h
    split_ifs at h with hguard
    cases h
    exact .broadcast hguard.1 hguard.2.1 hguard.2.2
  | call k ok => exact callStep_event h
  | finish o =>
    cases h
    exact .finish
  | remove o =>
    rw [step] at h
    split_ifs at h with hguard
    cases h
    exact .remove hguard.1 hguard.2.1 hguard.2.2
  | visit ok => exact visit_event h
  | replay order =>
    rw [step, replay] at h
    split at h
    · rename_i target connection hmonitor
      split_ifs at h with hperm
      cases h
      exact .replay hmonitor hperm
    · cases h
  | replayStep ok =>
    rw [step, replayStep] at h
    split at h
    · rename_i target connection copy rest failed hmonitor
      cases ok with
      | true =>
        cases h
        exact .replayed hmonitor
      | false =>
        cases h
        exact .unreplayed hmonitor
    · cases h
  | markActive =>
    rw [step, markActive] at h
    split at h
    · rename_i target connection failed hmonitor
      cases failed with
      | true =>
        cases h
        exact .dropped hmonitor
      | false =>
        cases h
        exact .marked hmonitor
    · cases h

/-! ## Failed sends -/

/-- The call that puts its command away in this step, having failed to send it. -/
def putAway (s : Client) : Action → Option (ℕ × Task)
  | .call k _ =>
    match s.tasks[k]? with
    | none => none
    | some task =>
      match task.pc with
      | .ready => none
      | .failed _ => some (k, task)
  | _ => none

section

variable {s : Client} {k : ℕ} {ok : Bool} {task : Task} (hk : s.tasks[k]? = some task)
include hk

theorem putAway_ready (hpc : task.pc = .ready) : s.putAway (.call k ok) = none := by
  simp only [putAway, hk, hpc]

theorem putAway_failed {stamp : ℕ} (hpc : task.pc = .failed stamp) :
    s.putAway (.call k ok) = some (k, task) := by
  simp only [putAway, hk, hpc]

end

/-! ## Calls -/

/-- What is true of all calls made so far by the process `p`. -/
structure Calls (p : ℕ) (ident : Operation → Uuid) (tasks : List Task) (attempts : ℕ) :
    Prop where
  ident : ∀ task ∈ tasks, task.cmd.header.msgIdent = ident task.operation
  /-- what is sent to one process answers an operation of that process -/
  answer : ∀ task ∈ tasks, ∀ t, task.addressee = some t →
    task.operation.process = t ∧ ∀ u ∈ task.targets, u = t
  /-- what is broadcast belongs to an operation of this process -/
  own : ∀ task ∈ tasks, task.addressee = none → task.operation.process = p
  failed : ∀ task ∈ tasks, ∀ stamp, task.pc = .failed stamp →
    stamp < attempts ∧ ∃ target, task.targets.head? = some target ∧ target ≠ p
  sequential : ∀ (i j : ℕ) (task task' : Task), i < j → tasks[i]? = some task → tasks[j]? = some task' →
    task.addressee = none → task'.addressee = none → task.operation = task'.operation →
    task.targets = []

/-- The calls go on: each keeps its command, its operation and its addressee. -/
def Extends (tasks tasks' : List Task) : Prop :=
  ∀ (k : ℕ) (task : Task), tasks[k]? = some task → ∃ task', tasks'[k]? = some task' ∧
    task'.cmd = task.cmd ∧ task'.operation = task.operation ∧ task'.addressee = task.addressee

theorem Extends.refl (tasks : List Task) : Extends tasks tasks :=
  fun _ task hk => ⟨task, hk, rfl, rfl, rfl⟩

theorem Extends.append (tasks new : List Task) : Extends tasks (tasks ++ new) := by
  intro k task hk
  have hlt : k < tasks.length := (List.getElem?_eq_some_iff.mp hk).1
  exact ⟨task, by rw [List.getElem?_append_left hlt, hk], rfl, rfl, rfl⟩

theorem Extends.set {tasks : List Task} {k : ℕ} {task task' : Task} (hk : tasks[k]? = some task)
    (hcmd : task'.cmd = task.cmd) (hop : task'.operation = task.operation)
    (hto : task'.addressee = task.addressee) : Extends tasks (tasks.set k task') := by
  intro i t hi
  have hlt : k < tasks.length := (List.getElem?_eq_some_iff.mp hk).1
  by_cases hik : k = i
  · subst hik
    rw [hk, Option.some.injEq] at hi
    subst hi
    exact ⟨task', List.getElem?_set_self hlt, hcmd, hop, hto⟩
  · exact ⟨t, by rw [List.getElem?_set_ne hik, hi], rfl, rfl, rfl⟩

/-- No call is ever taken back. -/
theorem Event.extends {s s' : Client} {a : Action} (h : Event N self ident s a s') :
    Extends s.tasks s'.tasks := by
  cases h with
  | send hident => exact .append _ _
  | broadcast hident hself hdone => exact .append _ _
  | toSelf hk htargets hpc => exact .set hk rfl rfl rfl
  | sent hk htargets hpc hself hfree hstream => exact .set hk rfl rfl rfl
  | failed hk htargets hpc hself hfree hstream => exact .set hk rfl rfl rfl
  | added hk htargets hpc hfree => exact .set hk rfl rfl rfl
  | _ => exact .refl _

section Calls

variable {tasks : List Task} {attempts : ℕ}

theorem Calls.mono (h : Calls self ident tasks attempts) {attempts' : ℕ}
    (hle : attempts ≤ attempts') : Calls self ident tasks attempts' :=
  { h with
    failed := by
      intro task htask stamp hpc
      obtain ⟨hlt, hhead⟩ := h.failed task htask stamp hpc
      exact ⟨by omega, hhead⟩ }

theorem Calls.append (h : Calls self ident tasks attempts) {new : Task} (hpc : new.pc = .ready)
    (hident : new.cmd.header.msgIdent = ident new.operation)
    (hanswer : ∀ t, new.addressee = some t → new.operation.process = t ∧ ∀ u ∈ new.targets, u = t)
    (hown : new.addressee = none → new.operation.process = self ∧
      ∀ task ∈ tasks, task.addressee = none → task.operation = new.operation → task.targets = []) :
    Calls self ident (tasks ++ [new]) attempts where
  ident := by
    intro task htask
    rcases List.mem_append.mp htask with htask | htask
    · exact h.ident task htask
    · rw [List.mem_singleton.mp htask]
      exact hident
  answer := by
    intro task htask
    rcases List.mem_append.mp htask with htask | htask
    · exact h.answer task htask
    · rw [List.mem_singleton.mp htask]
      exact hanswer
  own := by
    intro task htask
    rcases List.mem_append.mp htask with htask | htask
    · exact h.own task htask
    · rw [List.mem_singleton.mp htask]
      exact fun hto => (hown hto).1
  failed := by
    intro task htask stamp hfailed
    rcases List.mem_append.mp htask with htask | htask
    · exact h.failed task htask stamp hfailed
    · rw [List.mem_singleton.mp htask, hpc] at hfailed
      cases hfailed
  sequential := by
    intro i j task task' hij hi hj hto hto' hop
    have hj' : j < tasks.length + 1 := by
      simpa using (List.getElem?_eq_some_iff.mp hj).1
    have hi' : i < tasks.length := by omega
    rw [List.getElem?_append_left hi'] at hi
    by_cases hlast : j < tasks.length
    · rw [List.getElem?_append_left hlast] at hj
      exact h.sequential i j task task' hij hi hj hto hto' hop
    · -- the broadcast that begins: all others of the operation are through
      have hjl : j = tasks.length := by omega
      subst hjl
      rw [List.getElem?_append_right (le_refl _), Nat.sub_self] at hj
      have hnew : new = task' := by simpa using hj
      subst hnew
      exact (hown hto').2 task (List.mem_of_getElem? hi) hto hop

/-- A call that goes on, to the next process or to the failure of this send. -/
theorem Calls.set (h : Calls self ident tasks attempts) {k : ℕ} {task task' : Task}
    (hk : tasks[k]? = some task) (hcmd : task'.cmd = task.cmd)
    (hop : task'.operation = task.operation) (hto : task'.addressee = task.addressee)
    (htargets : ∀ u ∈ task'.targets, u ∈ task.targets)
    (hfailed : ∀ stamp, task'.pc = .failed stamp →
      stamp < attempts ∧ ∃ target, task'.targets.head? = some target ∧ target ≠ self) :
    Calls self ident (tasks.set k task') attempts := by
  have htask : task ∈ tasks := List.mem_of_getElem? hk
  have hlen : k < tasks.length := (List.getElem?_eq_some_iff.mp hk).1
  -- any other call is as it was
  have hmem : ∀ t ∈ tasks.set k task', t ∈ tasks ∨ t = task' := fun t ht =>
    List.mem_or_eq_of_mem_set ht
  refine ⟨?_, ?_, ?_, ?_, ?_⟩
  · intro t ht
    rcases hmem t ht with ht | rfl
    · exact h.ident t ht
    · rw [hcmd, hop]
      exact h.ident task htask
  · intro t ht a ha
    rcases hmem t ht with ht | rfl
    · exact h.answer t ht a ha
    · rw [hto] at ha
      rw [hop]
      obtain ⟨hprocess, hall⟩ := h.answer task htask a ha
      exact ⟨hprocess, fun u hu => hall u (htargets u hu)⟩
  · intro t ht hnone
    rcases hmem t ht with ht | rfl
    · exact h.own t ht hnone
    · rw [hop]
      exact h.own task htask (hto ▸ hnone)
  · intro t ht stamp hpc
    rcases hmem t ht with ht | rfl
    · exact h.failed t ht stamp hpc
    · exact hfailed stamp hpc
  · -- what stood at `i` had the same operation, and no fewer targets
    have hback : ∀ (i : ℕ) (t : Task), (tasks.set k task')[i]? = some t →
        ∃ t₀ : Task, tasks[i]? = some t₀ ∧ t.operation = t₀.operation ∧ t.addressee = t₀.addressee ∧
        (t₀.targets = [] → t.targets = []) := by
      intro i t hi
      by_cases hik : k = i
      · subst hik
        rw [List.getElem?_set_self hlen, Option.some.injEq] at hi
        subst hi
        refine ⟨task, hk, hop, hto, fun hnil => ?_⟩
        rw [List.eq_nil_iff_forall_not_mem]
        intro u hu
        have := htargets u hu
        rw [hnil] at this
        cases this
      · rw [List.getElem?_set_ne hik] at hi
        exact ⟨t, hi, rfl, rfl, id⟩
    intro i j t t' hij hi hj hnone hnone' heq
    obtain ⟨t₀, hi₀, hop₀, hto₀, hnil⟩ := hback i t hi
    obtain ⟨t₁, hj₁, hop₁, hto₁, -⟩ := hback j t' hj
    exact hnil (h.sequential i j t₀ t₁ hij hi₀ hj₁ (hto₀ ▸ hnone) (hto₁ ▸ hnone')
      (hop₀ ▸ hop₁ ▸ heq))

theorem Calls.proceed {s : Client} (h : Calls self ident s.tasks attempts) {k : ℕ} {task : Task}
    (hk : s.tasks[k]? = some task) : Calls self ident (s.proceed k task).tasks attempts :=
  h.set hk rfl rfl rfl (fun _ hu => List.mem_of_mem_tail hu) (fun stamp hpc => by cases hpc)

end Calls

theorem Event.calls {s s' : Client} {a : Action} (h : Event N self ident s a s')
    (hcalls : Calls self ident s.tasks s.attempts) : Calls self ident s'.tasks s'.attempts := by
  cases h with
  | send hident =>
    apply hcalls.append rfl hident
    · rintro t ⟨⟩
      exact ⟨rfl, fun u hu => List.mem_singleton.mp hu⟩
    · intro hto
      cases hto
  | @broadcast o cmd hident hself hdone =>
    apply hcalls.append rfl hident
    · intro t hto
      cases hto
    · refine fun _ => ⟨hself, fun task htask hto hop => ?_⟩
      have := List.all_eq_true.mp hdone task htask
      have hop' : task.operation = o := hop
      simpa [hop', hto] using this
  | toSelf hk htargets hpc => exact (hcalls.proceed hk).mono (Nat.le_succ _)
  | sent hk htargets hpc hself hfree hstream => exact (hcalls.proceed hk).mono (Nat.le_succ _)
  | @failed k target ok task rest hk htargets hpc hself hfree hstream =>
    refine (hcalls.mono (Nat.le_succ _)).set hk rfl rfl rfl (fun u hu => hu) ?_
    intro stamp hstamp
    cases hstamp
    exact ⟨Nat.lt_succ_self _, target, by rw [htargets, List.head?_cons], hself⟩
  | added hk htargets hpc hfree => exact hcalls.proceed hk
  | _ => exact hcalls

theorem calls_init : Calls self ident init.tasks init.attempts where
  ident := by simp [init]
  answer := by simp [init]
  own := by simp [init]
  failed := by simp [init]
  sequential := by simp [init]

end Client

end Network
end AtomicDiscDrive
