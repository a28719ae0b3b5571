import AtomicDiscDrive.Executor.HandlerMap
import AtomicDiscDrive.Executor.Wakeups

/-!
# One command on a sector at a time

`Ticketed` holds in every run in which request identifiers are different
(`ticketed_reachable`). It follows that at most one command on a sector is with a register
and not finished, that commands on a sector are handed over in the order of their tickets,
and that the counters of a sector tell how many commands are not finished
(`sector_exclusion`).
-/

namespace AtomicDiscDrive
namespace Executor

open Utils

variable {N R : ℕ} {selfIdent : UInt8} {s s' : Log} {a : Action}

/-! ## The order of the tickets -/

/-- Steps in which nothing is handed over. -/
theorem Ordered.frame (h : Ordered s) (hn : Numbered s)
    (hcalls : ∀ (t : ℕ) call, s.process.calls[t]? = some call → s'.process.calls[t]? = some call)
    (hhandings : s'.process.handings = s.process.handings)
    (hhanded : ∀ t i, s'.process.pcs t = .handed i ↔ s.process.pcs t = .handed i)
    (hqueue : ∀ sector, s.queue sector <+: s'.queue sector)
    (hcounted : ∀ x ∈ s'.counted, x ∈ s.counted ∨ s'.process.Handed x.2.1) : Ordered s' := by
  refine ⟨?_, ?_, ?_⟩
  · intro t
    rw [hhandings, ← h.handed t]
    exact exists_congr (hhanded t)
  · intro sector
    have heq : s'.handedOn sector = s.handedOn sector := by
      unfold Log.handedOn Log.isOn
      rw [hhandings]
      apply List.filter_congr
      intro t ht
      obtain ⟨i, hi⟩ := (h.handed t).mpr ht
      have hlt : t < s.process.calls.length := by
        by_contra hge
        rw [hn.known t (Nat.not_lt.mp hge)] at hi
        cases hi
      rw [hcalls t _ (List.getElem?_eq_getElem hlt), List.getElem?_eq_getElem hlt]
    rw [heq]
    exact (h.order sector).trans (hqueue sector)
  · intro x hx
    rcases hcounted x hx with hx | hx
    · exact (h.counted x hx).mono hcalls fun t i hi => (hhanded t i).mpr hi
    · exact hx

/-- The next element after an initial segment. -/
theorem append_singleton_isPrefix {α : Type*} {l l' : List α} {n : ℕ} {x : α} (hpre : l' <+: l)
    (hnodup : l.Nodup) (hx : l[n]? = some x) (hnot : x ∉ l')
    (hbefore : ∀ k < n, ∀ y, l[k]? = some y → y ∈ l') : l' ++ [x] <+: l := by
  obtain ⟨rest, hrest⟩ := hpre
  have hinj : ∀ {j k : ℕ} {y : α}, l[j]? = some y → l[k]? = some y → j = k := by
    intro j k y hj hk
    exact (List.getElem?_inj (List.getElem?_eq_some_iff.mp hj).1 hnodup).mp (hj.trans hk.symm)
  have hmem : ∀ (k : ℕ) y, l[k]? = some y → (y ∈ l' ↔ k < l'.length) := by
    intro k y hk
    constructor
    · intro hy
      obtain ⟨j, hj⟩ := List.getElem?_of_mem hy
      have hlt := (List.getElem?_eq_some_iff.mp hj).1
      have hj' : l[j]? = some y := by
        rw [← hrest, List.getElem?_append_left hlt]
        exact hj
      rw [hinj hk hj']
      exact hlt
    · intro hlt
      rw [← hrest, List.getElem?_append_left hlt] at hk
      exact List.mem_of_getElem? hk
  have hn : n = l'.length := by
    apply le_antisymm
    · -- an earlier element beyond the segment would be in it
      by_contra hgt
      have hlt : l'.length < l.length :=
        (Nat.not_le.mp hgt).trans (List.getElem?_eq_some_iff.mp hx).1
      have hy := List.getElem?_eq_getElem hlt
      have := (hmem _ _ hy).mp (hbefore _ (Nat.not_le.mp hgt) _ hy)
      omega
    · by_contra hlt
      exact hnot ((hmem n x hx).mpr (Nat.not_le.mp hlt))
  rw [← hrest, hn, List.getElem?_append_right (le_refl _), Nat.sub_self] at hx
  cases rest with
  | nil => cases hx
  | cons y rest =>
    rw [List.getElem?_cons_zero, Option.some.injEq] at hx
    rw [← hrest, ← hx]
    exact ⟨rest, by rw [List.append_assoc]; rfl⟩

/-- A command whose ticket has been served is with a register. -/
theorem Numbered.handed_of_lt (h : Numbered s) {sector : SectorIdx} {k : ℕ} {t : Callback}
    (hk : (s.queue sector)[k]? = some t) (hlt : k < (s.process.counters sector).2) :
    ∃ i, s.process.pcs t = .handed i := by
  have hplace := h.place sector k t hk
  cases hpc : s.process.pcs t with
  | handed i => exact ⟨i, rfl⟩
  | check c | yield c | parked c =>
    rw [hpc] at hplace
    exact absurd hplace.2.1 (Nat.not_le.mpr hlt)
  | owner =>
    rw [hpc] at hplace
    exact absurd hplace.1 (Nat.ne_of_lt hlt)
  | index i | entered i =>
    rw [hpc] at hplace
    exact absurd hplace.1 (Nat.ne_of_lt hlt)
  | ticket | lost =>
    rw [hpc] at hplace
    exact hplace.elim

/-- A command is handed over: its ticket is the next one. -/
theorem Ordered.hand (h : Ordered s) (hn : Numbered s) {t : Callback} {call : Call} {i : ℕ}
    {unfired : List Callback} (hcall : s.process.calls[t]? = some call)
    (hpc : s.process.pcs t = .entered i) (hcalls : s'.process.calls = s.process.calls)
    (hpcs : s'.process.pcs = Function.update s.process.pcs t (.handed i))
    (hhandings : s'.process.handings = s.process.handings ++ [⟨i, t, unfired⟩])
    (htickets : s'.tickets = s.tickets) (hcounted : s'.counted = s.counted) : Ordered s' := by
  have hqueue : ∀ sector, s'.queue sector = s.queue sector :=
    queue_congr (fun t _ => by rw [hcalls]) htickets
  have hother : ∀ u, u ≠ t → s'.process.pcs u = s.process.pcs u := fun u hu => by
    rw [hpcs, Function.update_of_ne hu]
  have hself : s'.process.pcs t = .handed i := by rw [hpcs, Function.update_self]
  have hon : ∀ sector, s'.isOn sector = s.isOn sector := by
    intro sector
    funext u
    unfold Log.isOn
    rw [hcalls]
  refine ⟨?_, ?_, ?_⟩
  · intro u
    rw [hhandings, List.map_append, List.mem_append, ← h.handed u]
    by_cases hut : u = t
    · rw [hut, hself]
      exact iff_of_true ⟨i, rfl⟩ (Or.inr (List.mem_singleton_self _))
    · rw [hother u hut]
      exact (or_iff_left fun hu => hut (List.mem_singleton.mp hu)).symm
  · intro sector
    have hsplit : s'.handedOn sector =
        s.handedOn sector ++ [t].filter (s.isOn sector) := by
      unfold Log.handedOn
      rw [hon, hhandings, List.map_append, List.filter_append]
      rfl
    rw [hqueue, hsplit]
    by_cases hsector : s.isOn sector t = true
    · rw [List.filter_singleton, hsector, cond_true]
      obtain ⟨call', hcall', hsector'⟩ := Log.isOn_iff.mp hsector
      rw [hcall, Option.some.injEq] at hcall'
      subst hcall' hsector'
      obtain ⟨k, hk, hplace⟩ := hn.exists_place hcall (by simp [hpc]) (by simp [hpc])
      rw [hpc] at hplace
      -- the task is the owner of its sector, so the tickets before it are those below the total,
      -- and these have been handed over
      refine append_singleton_isPrefix (h.order call.sector) (hn.nodup_queue _) hk ?_ ?_
      · intro hmem
        obtain ⟨i', hi'⟩ := (h.handed t).mpr (List.mem_filter.mp hmem).1
        rw [hpc] at hi'
        cases hi'
      · intro j hj u hu
        have hlt : j < (s.process.counters call.sector).2 := hplace.1 ▸ hj
        obtain ⟨-, hlive⟩ := Log.mem_queue.mp (List.mem_of_getElem? hu)
        exact List.mem_filter.mpr ⟨(h.handed u).mp (hn.handed_of_lt hu hlt), hlive⟩
    · rw [Bool.not_eq_true] at hsector
      rw [List.filter_singleton, hsector, cond_false, List.append_nil]
      exact h.order sector
  · intro x hx
    rw [hcounted] at hx
    refine (h.counted x hx).mono (fun _ _ hu => hcalls ▸ hu) fun u k hu => ?_
    rw [hother u]
    · exact hu
    · rintro rfl
      rw [hpc] at hu
      cases hu

theorem Ordered.of_lost (hpcs : ∀ t, s.process.pcs t = .lost) (hhandings : s.process.handings = [])
    (hcounted : s.counted = []) : Ordered s := by
  refine ⟨?_, ?_, ?_⟩
  · intro t
    rw [hhandings, hpcs]
    refine iff_of_false ?_ List.not_mem_nil
    rintro ⟨i, hi⟩
    cases hi
  · intro sector
    unfold Log.handedOn
    rw [hhandings]
    exact List.nil_prefix
  · intro x hx
    rw [hcounted] at hx
    cases hx

/-! ## Steps -/

theorem Event.calls_mono {s s' : Process} (h : Event N R selfIdent s a s') {t : ℕ} {call : Call}
    (hcall : s.calls[t]? = some call) : s'.calls[t]? = some call := by
  have happend : ∀ new, (s.calls ++ [new])[t]? = some call := by
    intro new
    rw [List.getElem?_append_left (List.getElem?_eq_some_iff.mp hcall).1]
    exact hcall
  cases h with
  | shuffle _ hs => exact hs.calls ▸ hcall
  | submit _ | dispatch _ _ => exact happend _
  | restart hrestart => exact (restart_aside hrestart).calls ▸ hcall
  | _ => exact hcall

/-- A command stays with its register until a crash. -/
theorem Event.handed_mono {s s' : Process} (h : Event N R selfIdent s a s')
    (hknown : ∀ t, s.calls.length ≤ t → s.pcs t = .lost) (ha : a ≠ .crash) {t : Callback} {i : ℕ}
    (hpc : s.pcs t = .handed i) : s'.pcs t = .handed i := by
  have hupdate : ∀ (u : ℕ) pc, s.pcs u ≠ .handed i → Function.update s.pcs u pc t = .handed i := by
    intro u pc hu
    rw [Function.update_of_ne]
    · exact hpc
    · rintro rfl
      exact hu hpc
  have hnew : s.pcs s.calls.length ≠ .handed i := by simp [hknown s.calls.length (le_refl _)]
  cases h with
  | shuffle _ hs => exact hs.handed t i hpc
  | submit _ | dispatch _ _ => exact hupdate _ _ hnew
  | take _ howner _ => exact hupdate _ _ (by simp [howner])
  | hand _ hentered => exact hupdate _ _ (by simp [hentered])
  | crash => exact absurd rfl ha
  | restart hrestart => exact (restart_aside hrestart).pcs ▸ hpc
  | _ => exact hpc

theorem Log.record_process (s : Log) (a : Action) (process : Process) :
    (s.record a process).process = process := by
  cases a with
  | finish j written =>
    unfold Log.record
    dsimp only
    split <;> rfl
  | _ => rfl

/-- Steps in which no ticket is taken, and nothing is counted. -/
theorem Log.record_same (process : Process) (hclient : ∀ t, a ≠ .client t)
    (hfinish : ∀ j written, a ≠ .finish j written) (hcrash : a ≠ .crash)
    (hreject : ∀ id, a ≠ .reject id) :
    (s.record a process).process = process ∧ (s.record a process).tickets = s.tickets ∧
      (s.record a process).counted = s.counted ∧ (s.record a process).rejected = s.rejected := by
  cases a with
  | client t => exact absurd rfl (hclient t)
  | finish j written => exact absurd rfl (hfinish j written)
  | crash => exact absurd rfl hcrash
  | reject id => exact absurd rfl (hreject id)
  | _ => exact ⟨rfl, rfl, rfl, rfl⟩

theorem Log.record_client {process : Process} {t : Callback} (hpc : s.process.pcs t ≠ .ticket) :
    (s.record (.client t) process).tickets = s.tickets := if_neg hpc

/-- What a completion task adds to the history. -/
theorem Log.record_finish (process : Process) {j : ℕ} (written : Bool) {task : FinishTask}
    (hj : s.process.finishing[j]? = some task) :
    (s.record (.finish j written) process).process = process ∧
      (s.record (.finish j written) process).tickets = s.tickets ∧
      (s.record (.finish j written) process).rejected = s.rejected ∧
      (s.record (.finish j written) process).counted = match task.pc with
        | .count sector => s.counted ++ [(j, task.requestIdentifier, sector)]
        | _ => s.counted := by
  obtain ⟨requestIdentifier, pc⟩ := task
  cases pc <;> simp [Log.record, hj]

/-- A command that has not taken its ticket has not been counted. -/
theorem Ticketed.isDone_of_ticket (h : Ticketed s) {t : Callback} (hpc : s.process.pcs t = .ticket) :
    s.isDone t = false := by
  rw [Bool.eq_false_iff]
  intro hdone
  obtain ⟨call, hcall, x, hx, hid⟩ := Log.isDone_iff.mp hdone
  obtain ⟨u, callu, i, hcallu, hpcu, hidu⟩ := h.ordered.counted x hx
  have htu : t = u := h.numbered.distinct t u call callu hcall hcallu (by simp [hpc])
    (by simp [hpcu]) (hid.symm.trans hidu.symm)
  rw [← htu, hpc] at hpcu
  cases hpcu

/-- Steps of a client task that only change its program counter. -/
theorem Ticketed.moves (h : Ticketed s) {t : Callback} {pc : ClientPc} {process : Process}
    (hcalls : process.calls = s.process.calls)
    (hpcs : process.pcs = Function.update s.process.pcs t pc)
    (hcounters : process.sectorCounters = s.process.sectorCounters)
    (hmap : process.msgIdHandlerSectorIdx = s.process.msgIdHandlerSectorIdx)
    (hlock : process.handlerLock = s.process.handlerLock)
    (hfinishing : process.finishing = s.process.finishing)
    (hhandings : process.handings = s.process.handings)
    (hold : (s.process.pcs t).taken = false ∧ s.process.pcs t ≠ .lost ∧ s.process.pcs t ≠ .ticket)
    (hnew : (∀ i, pc ≠ .handed i) ∧ pc ≠ .lost ∧ pc ≠ .ticket)
    (hplace : ∀ (k : ℕ) call, s.process.calls[t]? = some call →
      Place (s.process.counters call.sector).2 k (s.isDone t) (s.process.pcs t) →
      Place (s.process.counters call.sector).2 k (s.isDone t) pc) :
    Numbered (s.record (.client t) process) ∧ Mapped (s.record (.client t) process) ∧
      Ordered (s.record (.client t) process) := by
  have htickets : (s.record (.client t) process).tickets = s.tickets :=
    Log.record_client hold.2.2
  have hhanded : ∀ i, s.process.pcs t ≠ .handed i := by
    intro i hi
    rw [hi] at hold
    exact Bool.noConfusion hold.1
  refine ⟨?_, ?_, ?_⟩
  · exact h.numbered.move hcalls hpcs hcounters htickets rfl rfl hold.2 hnew.2 hplace
  · refine h.mapped.move hcalls hpcs hmap hlock hfinishing rfl rfl ?_ hhanded
    intro i hi
    rw [hi] at hold
    exact Bool.noConfusion hold.1
  · refine h.ordered.frame h.numbered (fun _ _ hu => hcalls ▸ hu) hhandings ?_ ?_
      fun x hx => Or.inl hx
    · intro u i
      show process.pcs u = .handed i ↔ _
      rw [hpcs]
      by_cases hut : u = t
      · rw [hut, Function.update_self]
        exact iff_of_false (hnew.1 i) (hhanded i)
      · rw [Function.update_of_ne hut]
    · intro sector
      have hqueue : (s.record (.client t) process).queue sector = s.queue sector :=
        queue_congr (fun _ _ => congrArg (fun calls => calls[_]?) hcalls) htickets sector
      rw [hqueue]

/-- Steps of a completion task that leave tickets, map and locks alone. -/
theorem Ticketed.finishes (h : Ticketed s) {j : ℕ} {written : Bool} {task : FinishTask}
    {pc : FinishPc} (hj : s.process.finishing[j]? = some task)
    (hpc : task.pc = .respond ∨ task.pc = .remove) (hnew : pc = .remove ∨ pc = .done) :
    let s' := s.record (.finish j written) (s.process.setFinish j task pc)
    Numbered s' ∧ Mapped s' ∧ Ordered s' := by
  intro s'
  obtain ⟨hprocess, htickets, hrejected, hcounted⟩ :=
    Log.record_finish (s.process.setFinish j task pc) written hj
  have hcounted' : s'.counted = s.counted := by
    rw [hcounted]
    rcases hpc with hpc | hpc <;> rw [hpc]
  refine ⟨?_, ?_, ?_⟩
  · apply h.numbered.of_same (by rw [hprocess]; rfl) (by rw [hprocess]; rfl) (by rw [hprocess]; rfl)
      htickets hcounted'
    rw [hrejected]
    exact h.numbered.accepted
  · apply h.mapped.frame (fun _ _ hu => by rw [hprocess]; exact hu) (by rw [hprocess]; rfl)
      (by rw [hprocess]; rfl) (fun _ _ hu => by rw [hprocess]; exact Or.inl hu)
      (fun _ _ hu => by rw [hprocess]; exact hu) hcounted' (fun _ hid => by rw [hrejected]; exact hid)
    intro k other hk
    rw [hprocess] at hk ⊢
    rw [hrejected]
    rcases setFinish_cases hk with ⟨-, rfl⟩ | ⟨-, hk⟩
    · rcases hnew with rfl | rfl
      · exact Or.inr (Or.inr ⟨Or.inr rfl, h.mapped.asks task (List.mem_of_getElem? hj) hpc⟩)
      · exact Or.inr (Or.inl rfl)
    · exact Or.inl hk
  · refine h.ordered.frame h.numbered (fun _ _ hu => by rw [hprocess]; exact hu)
      (by rw [hprocess]; rfl) (fun _ _ => by rw [hprocess]; rfl) ?_ ?_
    · intro sector
      rw [queue_congr (fun _ _ => by rw [hprocess]; rfl) htickets sector]
    · intro x hx
      rw [hcounted'] at hx
      exact Or.inl hx

/-- Steps that leave tickets and tasks alone, but may spawn a completion task. -/
theorem Ticketed.spawns (h : Ticketed s) (hprocess : s'.process.calls = s.process.calls ∧
      s'.process.pcs = s.process.pcs ∧ s'.process.handings = s.process.handings)
    (hcounters : s'.process.sectorCounters = s.process.sectorCounters)
    (hmap : s'.process.msgIdHandlerSectorIdx = s.process.msgIdHandlerSectorIdx)
    (hlock : s'.process.handlerLock = s.process.handlerLock)
    (htickets : s'.tickets = s.tickets) (hcounted : s'.counted = s.counted)
    (haccepted : ∀ (t : ℕ) call, s.process.calls[t]? = some call → s.process.pcs t ≠ .lost →
      call.cmd.header.requestIdentifier ∉ s'.rejected)
    (hrejected : ∀ id ∈ s.rejected, id ∈ s'.rejected)
    (hfinishing : ∀ (j : ℕ) task, s'.process.finishing[j]? = some task →
      s.process.finishing[j]? = some task ∨ (task.pc = .respond ∨ task.pc = .remove) ∧
        (task.requestIdentifier ∈ s'.rejected ∨ s.process.Handed task.requestIdentifier)) :
    Numbered s' ∧ Mapped s' ∧ Ordered s' := by
  obtain ⟨hcalls, hpcs, hhandings⟩ := hprocess
  refine ⟨h.numbered.of_same hcalls hpcs hcounters htickets hcounted haccepted, ?_, ?_⟩
  · apply h.mapped.frame (fun _ _ hu => hcalls ▸ hu) hmap hlock (fun _ _ hu => Or.inl (hpcs ▸ hu))
      (fun _ _ hu => hpcs ▸ hu) hcounted hrejected
    intro j task hj
    rcases hfinishing j task hj with hj | ⟨hstart, hid⟩
    · exact Or.inl hj
    · refine Or.inr (Or.inr ⟨hstart, hid.imp_right fun hid => ?_⟩)
      exact hid.mono (fun _ _ hu => hcalls ▸ hu) fun _ _ hu => hpcs ▸ hu
  · apply h.ordered.frame h.numbered (fun _ _ hu => hcalls ▸ hu) hhandings
      (fun _ _ => by rw [hpcs]) ?_ fun x hx => Or.inl (hcounted ▸ hx)
    intro sector
    rw [queue_congr (fun _ _ => by rw [hcalls]) htickets sector]

/-- A request is rejected. -/
theorem Ticketed.rejects (h : Ticketed s) {requestIdentifier : UInt64}
    (hunused : s.Unused requestIdentifier) :
    let s' := s.record (.reject requestIdentifier)
      { s.process with finishing := s.process.finishing ++ [⟨requestIdentifier, .respond⟩] }
    Numbered s' ∧ Mapped s' ∧ Ordered s' := by
  intro s'
  refine h.spawns ⟨rfl, rfl, rfl⟩ rfl rfl rfl rfl rfl ?_ ?_ ?_
  · intro t call hcall hlost hmem
    rcases List.mem_append.mp hmem with hmem | hmem
    · exact h.numbered.accepted t call hcall hlost hmem
    · exact hunused t (List.getElem?_eq_some_iff.mp hcall).1 hlost call hcall
        (List.mem_singleton.mp hmem)
  · exact fun id hid => List.mem_append_left _ hid
  · intro j task hj
    rcases append_cases hj with hj | ⟨-, rfl⟩
    · exact Or.inl hj
    · exact Or.inr ⟨Or.inl rfl, Or.inl (List.mem_append_right _ (List.mem_singleton_self _))⟩

/-- A new call. -/
theorem Ticketed.invokes (h : Ticketed s) {call : Call}
    (hcalls : s'.process.calls = s.process.calls ++ [call])
    (hpcs : s'.process.pcs = Function.update s.process.pcs s.process.calls.length .ticket)
    (hcounters : s'.process.sectorCounters = s.process.sectorCounters)
    (hmap : s'.process.msgIdHandlerSectorIdx = s.process.msgIdHandlerSectorIdx)
    (hlock : s'.process.handlerLock = s.process.handlerLock)
    (hfinishing : s'.process.finishing = s.process.finishing)
    (hhandings : s'.process.handings = s.process.handings)
    (htickets : s'.tickets = s.tickets) (hcounted : s'.counted = s.counted)
    (hrejected : s'.rejected = s.rejected)
    (hunused : s.Unused call.cmd.header.requestIdentifier)
    (haccepted : call.cmd.header.requestIdentifier ∉ s.rejected) :
    Numbered s' ∧ Mapped s' ∧ Ordered s' := by
  -- the place of the new task has not been used
  have hlost := h.numbered.known s.process.calls.length (le_refl _)
  have hold : ∀ (t : ℕ) call, s.process.calls[t]? = some call →
      s'.process.calls[t]? = some call := by
    intro t call ht
    rw [hcalls, List.getElem?_append_left (List.getElem?_eq_some_iff.mp ht).1]
    exact ht
  have hother : ∀ t, s.process.pcs t ≠ .lost → s'.process.pcs t = s.process.pcs t := by
    intro t ht
    rw [hpcs, Function.update_of_ne]
    rintro rfl
    exact ht hlost
  refine ⟨h.numbered.invoke hcalls hpcs hcounters htickets hcounted hrejected hunused haccepted,
    ?_, ?_⟩
  · apply h.mapped.frame hold hmap hlock _ _ hcounted (fun _ hid => hrejected ▸ hid)
      (fun _ _ hj => Or.inl (hfinishing ▸ hj))
    · intro t i hi
      rw [hother t (by simp [hi])]
      exact Or.inl hi
    · intro t i hi
      rw [hother t (by simp [hi])]
      exact hi
  · apply h.ordered.frame h.numbered hold hhandings _ _ fun x hx => Or.inl (hcounted ▸ hx)
    · intro t i
      by_cases ht : t = s.process.calls.length
      · rw [hpcs, ht, Function.update_self, hlost]
        exact iff_of_false ClientPc.noConfusion ClientPc.noConfusion
      · rw [hpcs, Function.update_of_ne ht]
    · intro sector
      rw [queue_congr _ htickets sector]
      intro t ht
      obtain ⟨hlive, -⟩ := (h.numbered.taken t).mp ht
      have hlt : t < s.process.calls.length := by
        by_contra hge
        exact hlive (h.numbered.known t (Nat.not_lt.mp hge))
      rw [hcalls, List.getElem?_append_left hlt]

/-- A client task takes its ticket. -/
theorem Ticketed.takes (h : Ticketed s) {t : Callback} {call : Call}
    (hcall : s.process.calls[t]? = some call) (hpc : s.process.pcs t = .ticket) :
    let s' := s.record (.client t)
      { s.process.move t (.check (s.process.counters call.sector).1) with
        sectorCounters := Function.update s.process.sectorCounters call.sector
          (some ((s.process.counters call.sector).1 + 1, (s.process.counters call.sector).2)) }
    Numbered s' ∧ Mapped s' ∧ Ordered s' := by
  intro s'
  have htickets : s'.tickets = s.tickets ++ [t] := if_pos hpc
  have hhanded : ∀ i, s.process.pcs t ≠ .handed i := fun i => by simp [hpc]
  refine ⟨?_, ?_, ?_⟩
  · exact h.numbered.ticket hcall hpc (h.isDone_of_ticket hpc) rfl rfl rfl htickets rfl rfl
  · refine h.mapped.move rfl rfl rfl rfl rfl rfl rfl (fun i hi => ?_) hhanded
    rw [hpc] at hi
    cases hi
  · refine h.ordered.frame h.numbered (fun _ _ hu => hu) rfl ?_ ?_ fun x hx => Or.inl hx
    · intro u i
      show Function.update s.process.pcs t _ u = .handed i ↔ _
      by_cases hut : u = t
      · rw [hut, Function.update_self]
        exact iff_of_false ClientPc.noConfusion (hhanded i)
      · rw [Function.update_of_ne hut]
    · intro sector
      show s.tickets.filter (s.isOn sector) <+: s'.tickets.filter (s.isOn sector)
      rw [htickets, List.filter_append]
      exact List.prefix_append ..

/-- A client task enters its command in the map. -/
theorem Ticketed.enters (h : Ticketed s) {t : Callback} {call : Call} {i : ℕ}
    (hcall : s.process.calls[t]? = some call) (hpc : s.process.pcs t = .index i)
    (hfree : s.process.handlerLock = none) :
    let s' := s.record (.client t)
      { s.process.move t (.entered i) with
        msgIdHandlerSectorIdx := Function.update s.process.msgIdHandlerSectorIdx
          (.fromRequest call.cmd.header.requestIdentifier) (some (i, call.sector)) }
    Numbered s' ∧ Mapped s' ∧ Ordered s' := by
  intro s'
  have htickets : s'.tickets = s.tickets := Log.record_client (by simp [hpc])
  obtain ⟨k, hk, hplace⟩ := h.numbered.exists_place hcall (by simp [hpc]) (by simp [hpc])
  rw [hpc] at hplace
  refine ⟨?_, ?_, ?_⟩
  · refine h.numbered.move rfl rfl rfl htickets rfl rfl (by simp [hpc]) (by simp) ?_
    intro k' call' _ hplace'
    rw [hpc] at hplace'
    exact hplace'
  · exact h.mapped.enter hcall hpc hfree hplace.2 rfl rfl rfl rfl rfl rfl
  · refine h.ordered.frame h.numbered (fun _ _ hu => hu) rfl ?_ ?_ fun x hx => Or.inl hx
    · intro u j
      show Function.update s.process.pcs t _ u = .handed j ↔ _
      by_cases hut : u = t
      · rw [hut, Function.update_self, hpc]
        exact iff_of_false ClientPc.noConfusion ClientPc.noConfusion
      · rw [Function.update_of_ne hut]
    · intro sector
      have hcalls : ∀ u ∈ s.tickets, s'.process.calls[u]? = s.process.calls[u]? := fun _ _ => rfl
      rw [queue_congr hcalls htickets sector]

/-- A client task hands its command to a register. -/
theorem Ticketed.hands (h : Ticketed s) {t : Callback} {call : Call} {i : ℕ} {bank : Bank}
    {unfired : List Callback} (hcall : s.process.calls[t]? = some call)
    (hpc : s.process.pcs t = .entered i) :
    let s' := s.record (.client t)
      { s.process.move t (.handed i) with
        bank
        handings := s.process.handings ++ [⟨i, t, unfired⟩] }
    Numbered s' ∧ Mapped s' ∧ Ordered s' := by
  intro s'
  have htickets : s'.tickets = s.tickets := Log.record_client (by simp [hpc])
  refine ⟨?_, ?_, ?_⟩
  · refine h.numbered.move rfl rfl rfl htickets rfl rfl (by simp [hpc]) (by simp) ?_
    intro k call' _ hplace
    rw [hpc] at hplace
    refine ⟨Nat.le_of_eq hplace.1, iff_of_false ?_ ?_⟩
    · rw [hplace.2]
      exact Bool.noConfusion
    · rw [hplace.1]
      exact Nat.lt_irrefl _
  · refine h.mapped.move rfl rfl rfl rfl rfl rfl rfl (fun j hj => ?_) (fun j => by simp [hpc])
    rw [hpc, ClientPc.entered.injEq] at hj
    rw [hj]
  · exact h.ordered.hand h.numbered hcall hpc rfl rfl rfl htickets rfl

/-- A completion task takes a command out of the map. -/
theorem Ticketed.removes (h : Ticketed s) {j : ℕ} (written : Bool) {task : FinishTask}
    {entry : ℕ × SectorIdx} (hj : s.process.finishing[j]? = some task) (hpc : task.pc = .remove)
    (hfree : s.process.handlerLock = none)
    (hentry : s.process.msgIdHandlerSectorIdx (.fromRequest task.requestIdentifier) = some entry) :
    let s' := s.record (.finish j written)
      { s.process.setFinish j task (.count entry.2) with
        msgIdHandlerSectorIdx := Function.update s.process.msgIdHandlerSectorIdx
          (.fromRequest task.requestIdentifier) none
        handlerLock := some j }
    Numbered s' ∧ Mapped s' ∧ Ordered s' := by
  intro s'
  obtain ⟨hprocess, htickets, hrejected, hcounted⟩ := Log.record_finish _ written hj
  have hcounted' : s'.counted = s.counted := by
    rw [hcounted, hpc]
  refine ⟨?_, ?_, ?_⟩
  · apply h.numbered.of_same (by rw [hprocess]; rfl) (by rw [hprocess]; rfl) (by rw [hprocess]; rfl)
      htickets hcounted'
    rw [hrejected]
    exact h.numbered.accepted
  · exact h.mapped.removes h.numbered hj hpc hfree hentry (by rw [hprocess]; rfl)
      (by rw [hprocess]; rfl) (by rw [hprocess]) (by rw [hprocess]) (by rw [hprocess]; rfl)
      hcounted' hrejected
  · refine h.ordered.frame h.numbered (fun _ _ hu => by rw [hprocess]; exact hu)
      (by rw [hprocess]; rfl) (fun _ _ => by rw [hprocess]; rfl) ?_ ?_
    · intro sector
      rw [queue_congr (fun _ _ => by rw [hprocess]; rfl) htickets sector]
    · intro x hx
      rw [hcounted'] at hx
      exact Or.inl hx

/-- A completion task counts a command. -/
theorem Ticketed.counts (h : Ticketed s) {j : ℕ} (written : Bool) {task : FinishTask}
    {sector : SectorIdx} {entry : ℕ × ℕ} (hj : s.process.finishing[j]? = some task)
    (hpc : task.pc = .count sector) (hentry : s.process.sectorCounters sector = some entry) :
    let s' := s.record (.finish j written)
      { s.process.setFinish j task (.notify sector) with
        sectorCounters :=
          Function.update s.process.sectorCounters sector (some (entry.1, entry.2 + 1))
        countersLock := some j }
    Numbered s' ∧ Mapped s' ∧ Ordered s' := by
  intro s'
  obtain ⟨-, -, t, call, i, hcall, hid, hsector, hpct, hopen⟩ :=
    h.mapped.counting j task sector hj hpc
  subst hsector
  obtain ⟨hprocess, htickets, hrejected, hcounted⟩ := Log.record_finish _ written hj
  have hcounted' : s'.counted =
      s.counted ++ [(j, call.cmd.header.requestIdentifier, call.sector)] := by
    rw [hcounted, hpc, hid]
  refine ⟨?_, ?_, ?_⟩
  · exact h.numbered.counts hcall hpct hopen hentry (by rw [hprocess]; rfl) (by rw [hprocess]; rfl)
      (by rw [hprocess]) htickets hcounted' hrejected
  · exact h.mapped.counts h.numbered hj hpc hcall (by simp [hpct]) hid (by rw [hprocess]; rfl)
      (by rw [hprocess]; rfl) (by rw [hprocess]; rfl) (by rw [hprocess]; rfl)
      (by rw [hprocess]; rfl) hcounted' hrejected
  · refine h.ordered.frame h.numbered (fun _ _ hu => by rw [hprocess]; exact hu)
      (by rw [hprocess]; rfl) (fun _ _ => by rw [hprocess]; rfl) ?_ ?_
    · intro sector
      rw [queue_congr (fun _ _ => by rw [hprocess]; rfl) htickets sector]
    · intro x hx
      rw [hcounted'] at hx
      rcases List.mem_append.mp hx with hx | hx
      · exact Or.inl hx
      · rw [List.mem_singleton.mp hx, hprocess]
        exact Or.inr ⟨t, call, i, hcall, hpct, rfl⟩

/-- A completion task wakes the tasks that wait for the sector. -/
theorem Ticketed.notifies (h : Ticketed s) {j : ℕ} (written : Bool) {task : FinishTask}
    {sector : SectorIdx} (hj : s.process.finishing[j]? = some task)
    (hpc : task.pc = .notify sector) :
    let s' := s.record (.finish j written)
      { s.process.setFinish j task .done with
        pcs := s.process.wake sector
        handlerLock := none
        countersLock := none }
    Numbered s' ∧ Mapped s' ∧ Ordered s' := by
  intro s'
  obtain ⟨hprocess, htickets, hrejected, hcounted⟩ := Log.record_finish _ written hj
  have hcounted' : s'.counted = s.counted := by
    rw [hcounted, hpc]
  refine ⟨?_, ?_, ?_⟩
  · exact h.numbered.wake (by rw [hprocess]; rfl) (by rw [hprocess]) (by rw [hprocess]; rfl)
      htickets hcounted' hrejected
  · exact h.mapped.notifies hj hpc (by rw [hprocess]; rfl) (by rw [hprocess]) (by rw [hprocess]; rfl)
      (by rw [hprocess]; rfl) hcounted' hrejected
  · refine h.ordered.frame h.numbered (fun _ _ hu => by rw [hprocess]; exact hu)
      (by rw [hprocess]; rfl) ?_ ?_ ?_
    · intro u i
      rw [hprocess]
      show s.process.wake sector u = .handed i ↔ _
      rcases wake_cases (s := s.process) sector u with heq | ⟨c, hc, heq⟩
      · rw [heq]
      · rw [heq, hc]
        exact iff_of_false ClientPc.noConfusion ClientPc.noConfusion
    · intro sector
      rw [queue_congr (fun _ _ => by rw [hprocess]; rfl) htickets sector]
    · intro x hx
      rw [hcounted'] at hx
      exact Or.inl hx

/-- What a step does to tickets, map and order. -/
theorem Ticketed.turn (h : Ticketed s) {process : Process}
    (hturn : Turn N R selfIdent s.process a process) (hdistinct : s.Distinct a) :
    Numbered (s.record a process) ∧ Mapped (s.record a process) ∧
      Ordered (s.record a process) := by
  -- a case for each kind of step; those that only move a task on are `Ticketed.moves`
  cases hturn with
  | aside haside hclient hfinish hcall ha =>
    obtain ⟨hprocess, htickets, hcounted, hrejected⟩ :=
      Log.record_same (s := s) process hclient hfinish ha.1 ha.2.2.2.2
    apply h.spawns _ _ _ _ htickets hcounted
    · rw [hrejected]
      exact h.numbered.accepted
    · rw [hrejected]
      exact fun _ hid => hid
    · intro j task hj
      rw [hprocess, haside.finishing] at hj
      exact Or.inl hj
    · rw [hprocess]
      exact ⟨haside.calls, haside.pcs, haside.handings⟩
    · rw [hprocess]
      exact haside.sectorCounters
    · rw [hprocess]
      exact haside.handlers
    · rw [hprocess]
      exact haside.handlerLock
  | @spawn i bank t op hcompleting =>
    refine h.spawns ⟨rfl, rfl, rfl⟩ rfl rfl rfl rfl rfl h.numbered.accepted (fun _ hid => hid) ?_
    intro j task hj
    rcases append_cases hj with hj | ⟨-, rfl⟩
    · exact Or.inl hj
    · refine Or.inr ⟨?_, Or.inr ((h.traces.register i).completing hcompleting)⟩
      unfold Process.finishTask
      dsimp only
      split
      · exact Or.inr rfl
      · exact Or.inl rfl
  | reject => exact h.rejects hdistinct
  | submit =>
    exact h.invokes rfl rfl rfl rfl rfl rfl rfl rfl rfl rfl hdistinct.1 hdistinct.2
  | @dispatch r startup hstartup =>
    obtain ⟨hunused, haccepted⟩ := hdistinct r (by rw [hstartup]; rfl)
    exact h.invokes rfl rfl rfl rfl rfl rfl rfl rfl rfl rfl hunused haccepted
  | ticket hcall hpc hfree => exact h.takes hcall hpc
  | @owns t call c entry hcall hpc hfree hentry hc =>
    refine h.moves rfl rfl rfl rfl rfl rfl rfl ?_ ?_ fun k call' hcall' hplace => ?_
    · rw [hpc]
      exact ⟨rfl, ClientPc.noConfusion, ClientPc.noConfusion⟩
    · exact ⟨fun _ => ClientPc.noConfusion, ClientPc.noConfusion, ClientPc.noConfusion⟩
    · -- the ticket that is served is the one of this task
      rw [hcall, Option.some.injEq] at hcall'
      subst hcall'
      rw [hpc] at hplace
      refine ⟨?_, hplace.2.2⟩
      rw [← hplace.1, hc, Process.counters, hentry]
      rfl
  | defers hcall hpc hfree hentry hc =>
    refine h.moves rfl rfl rfl rfl rfl rfl rfl ?_ ?_ fun k call' hcall' hplace => ?_
    · rw [hpc]
      exact ⟨rfl, ClientPc.noConfusion, ClientPc.noConfusion⟩
    · exact ⟨fun _ => ClientPc.noConfusion, ClientPc.noConfusion, ClientPc.noConfusion⟩
    · rw [hpc] at hplace
      exact hplace
  | parks hcall hpc =>
    refine h.moves rfl rfl rfl rfl rfl rfl rfl ?_ ?_ fun k call' hcall' hplace => ?_
    · rw [hpc]
      exact ⟨rfl, ClientPc.noConfusion, ClientPc.noConfusion⟩
    · exact ⟨fun _ => ClientPc.noConfusion, ClientPc.noConfusion, ClientPc.noConfusion⟩
    · rw [hpc] at hplace
      exact hplace
  | take hcall hpc =>
    refine h.moves rfl rfl rfl rfl rfl rfl rfl ?_ ?_ fun k call' hcall' hplace => ?_
    · rw [hpc]
      exact ⟨rfl, ClientPc.noConfusion, ClientPc.noConfusion⟩
    · exact ⟨fun _ => ClientPc.noConfusion, ClientPc.noConfusion, ClientPc.noConfusion⟩
    · rw [hpc] at hplace
      exact hplace
  | enter hcall hpc hfree => exact h.enters hcall hpc hfree
  | hand hcall hpc => exact h.hands hcall hpc
  | @respond j written task hj hpc =>
    apply h.finishes hj (Or.inl hpc)
    cases written
    · exact Or.inr rfl
    · exact Or.inl rfl
  | missing hj hpc hfree hnone => exact h.finishes hj (Or.inr hpc) (Or.inr rfl)
  | removes hj hpc hfree hentry => exact h.removes _ hj hpc hfree hentry
  | counts hj hpc hfree hentry => exact h.counts _ hj hpc hentry
  | notifies hj hpc => exact h.notifies _ hj hpc
  | crash =>
    exact ⟨.of_lost (fun _ => rfl) (fun _ => rfl) rfl, .of_lost (fun _ => rfl) rfl,
      .of_lost (fun _ => rfl) rfl rfl⟩
  | restart hrestart =>
    have haside := restart_aside hrestart
    exact h.spawns ⟨haside.calls, haside.pcs, haside.handings⟩ haside.sectorCounters
      haside.handlers haside.handlerLock rfl rfl h.numbered.accepted (fun _ hid => hid)
      fun j task hj => Or.inl (haside.finishing ▸ hj)

/-- **The ticket lock, step by step.** -/
theorem Ticketed.step (h : Ticketed s) (hdistinct : s.Distinct a)
    (hstep : s.step N R selfIdent a = some s') : Ticketed s' := by
  obtain ⟨process, hprocess, rfl⟩ := Option.map_eq_some_iff.mp hstep
  obtain ⟨hnumbered, hmapped, hordered⟩ := h.turn (step_turn hprocess) hdistinct
  refine ⟨hnumbered, hmapped, hordered, ?_⟩
  have hevent := step_event hprocess
  rw [Log.record_process]
  apply h.traces.step hprocess
  · intro ha id hid
    exact hid.mono (fun _ _ hu => hevent.calls_mono hu)
      fun _ _ hu => hevent.handed_mono h.numbered.known ha hu
  · rintro t call i rfl hcall hpc
    refine ⟨t, call, i, hevent.calls_mono hcall, ?_, rfl⟩
    cases step_turn hprocess with
    | hand _ hentered =>
      rw [hpc, ClientPc.entered.injEq] at hentered
      rw [hentered]
      exact Function.update_self ..
    | aside _ hclient => exact absurd rfl (hclient t)
    | ticket _ hpc' | owns _ hpc' | defers _ hpc' | parks _ hpc' | take _ hpc' | enter _ hpc' =>
      rw [hpc] at hpc'
      cases hpc'

theorem ticketed_init : Ticketed (.init N selfIdent) :=
  ⟨.of_lost (fun _ => rfl) (fun _ => rfl) rfl, .of_lost (fun _ => rfl) rfl,
    .of_lost (fun _ => rfl) rfl rfl, traces_init⟩

theorem ticketed_reachable (hs : Reachable (Log.step N R selfIdent) Log.Distinct
    (.init N selfIdent) s) : Ticketed s :=
  hs.invariant Ticketed ticketed_init fun _ _ _ _ h hdistinct hstep => h.step hdistinct hstep

/-! ## Exclusion and order -/

/-- The commands that are not finished have the last tickets of a sector. -/
theorem Numbered.unfinished (h : Numbered s) (sector : SectorIdx) :
    (s.queue sector).filter (fun t => !s.isDone t) =
      (s.queue sector).drop (s.process.counters sector).2 := by
  -- the total cuts the queue: what is done is before it, what is open behind it
  have hfinished : ∀ t ∈ (s.queue sector).take (s.process.counters sector).2,
      s.isDone t = true := by
    intro t ht
    obtain ⟨k, hk⟩ := List.getElem?_of_mem ht
    have hlt : k < (s.process.counters sector).2 := by
      have hlen := (List.getElem?_eq_some_iff.mp hk).1
      rw [List.length_take] at hlen
      omega
    rw [List.getElem?_take_of_lt hlt] at hk
    obtain ⟨i, hi⟩ := h.handed_of_lt hk hlt
    have hplace := h.place sector k t hk
    rw [hi] at hplace
    exact hplace.2.mpr hlt
  have hopen : ∀ t ∈ (s.queue sector).drop (s.process.counters sector).2, s.isDone t = false := by
    intro t ht
    obtain ⟨k, hk⟩ := List.getElem?_of_mem ht
    rw [List.getElem?_drop] at hk
    have hplace := h.place sector _ t hk
    cases hpc : s.process.pcs t with
    | check c | yield c | parked c =>
      rw [hpc] at hplace
      exact hplace.2.2
    | owner =>
      rw [hpc] at hplace
      exact hplace.2
    | index i | entered i =>
      rw [hpc] at hplace
      exact hplace.2
    | handed i =>
      rw [hpc] at hplace
      rw [Bool.eq_false_iff]
      intro hdone
      have := hplace.2.mp hdone
      omega
    | ticket | lost =>
      rw [hpc] at hplace
      exact hplace.elim
  conv_lhs => rw [← List.take_append_drop (s.process.counters sector).2 (s.queue sector)]
  rw [List.filter_append, List.filter_eq_nil_iff.mpr, List.filter_eq_self.mpr, List.nil_append]
  · intro t ht
    rw [hopen t ht]
    rfl
  · intro t ht
    rw [hfinished t ht]
    exact Bool.noConfusion

/-- The command is with a register, and not finished. -/
def Log.InProgress (s : Log) (sector : SectorIdx) (t : Callback) : Prop :=
  s.isOn sector t = true ∧ (∃ i, s.process.pcs t = .handed i) ∧ s.isDone t = false

/-- **Commands on one sector take turns**, in the order of their tickets. The counters do not
exceed the number of calls. -/
theorem sector_exclusion
    (hs : Reachable (Log.step N R selfIdent) Log.Distinct (.init N selfIdent) s)
    (sector : SectorIdx) :
    (∀ t u, s.InProgress sector t → s.InProgress sector u → t = u) ∧
      s.handedOn sector <+: s.queue sector ∧
      (s.process.counters sector).2 ≤ (s.process.counters sector).1 ∧
      (s.process.counters sector).1 - (s.process.counters sector).2 =
        ((s.queue sector).filter fun t => !s.isDone t).length ∧
      (s.process.counters sector).1 ≤ s.process.calls.length := by
  have h := ticketed_reachable hs
  have hserved : ∀ t, s.InProgress sector t →
      (s.queue sector)[(s.process.counters sector).2]? = some t := by
    rintro t ⟨hon, ⟨i, hi⟩, hopen⟩
    obtain ⟨call, hcall, rfl⟩ := Log.isOn_iff.mp hon
    exact h.numbered.served hcall hi hopen
  refine ⟨?_, h.ordered.order sector, ?_, ?_, (h.numbered.counters_le_calls sector).1⟩
  · intro t u ht hu
    have heq := (hserved t ht).symm.trans (hserved u hu)
    exact Option.some.inj heq
  · rw [h.numbered.counter]
    exact h.numbered.total sector
  · rw [h.numbered.unfinished, List.length_drop, h.numbered.counter]

set_option maxRecDepth 100000 in
/-- The first read is finished and the second one has its ticket: two tickets, one of them
finished. -/
theorem second_read_is_next :
    ∃ s, Reachable (Log.step 1 1 1) Log.Distinct (.init 1 1) s ∧ s.queue 0 = [0, 1] ∧
      s.handedOn 0 = [0] ∧ s.process.counters 0 = (2, 1) ∧
      (s.handedOn 0 <+: s.queue 0 ∧
        (s.process.counters 0).1 - (s.process.counters 0).2 =
          ((s.queue 0).filter fun t => !s.isDone t).length) := by
  have hrun : ∃ s, Reachable (Log.step 1 1 1) Log.Distinct (.init 1 1) s ∧
      s.queue 0 = [0, 1] ∧ s.handedOn 0 = [0] ∧ s.process.counters 0 = (2, 1) :=
    exists_of_exec (beginRead ++ List.replicate 3 (.client 1) ++ carryOutRead ++
      List.replicate 4 (.finish 0 true)) (by decide +kernel)
  obtain ⟨s, hs, hqueue, hhanded, hcounters⟩ := hrun
  obtain ⟨-, horder, -, hopen, -⟩ := sector_exclusion hs 0
  exact ⟨s, hs, hqueue, hhanded, hcounters, horder, hopen⟩

end Executor
end AtomicDiscDrive
