import AtomicDiscDrive.Executor.Numbers

/-!
# The handler map

The entries of `msg_id_handler_sector_idx` are those of commands that are with a register
and not counted (`Mapped`). `finish_client_command` removes an entry before it counts, with
the lock of the map in hand, so no command is counted twice. Each kind of step has a lemma
here.
-/

namespace AtomicDiscDrive
namespace Executor

open Utils

variable {s s' : Log}

theorem Process.Handed.mono {s s' : Process} {requestIdentifier : UInt64}
    (h : s.Handed requestIdentifier)
    (hcalls : ∀ (t : ℕ) call, s.calls[t]? = some call → s'.calls[t]? = some call)
    (hhanded : ∀ t i, s.pcs t = .handed i → s'.pcs t = .handed i) : s'.Handed requestIdentifier := by
  obtain ⟨t, call, i, hcall, hpc, hid⟩ := h
  exact ⟨t, call, i, hcalls t call hcall, hhanded t i hpc, hid⟩

/-- Steps that leave the map, its lock and the tasks that hold it alone. -/
theorem Mapped.frame (h : Mapped s)
    (hcalls : ∀ (t : ℕ) call, s.process.calls[t]? = some call → s'.process.calls[t]? = some call)
    (hmap : s'.process.msgIdHandlerSectorIdx = s.process.msgIdHandlerSectorIdx)
    (hlock : s'.process.handlerLock = s.process.handlerLock)
    (hentered : ∀ t i, s.process.pcs t = .entered i →
      s'.process.pcs t = .entered i ∨ s'.process.pcs t = .handed i)
    (hhanded : ∀ t i, s.process.pcs t = .handed i → s'.process.pcs t = .handed i)
    (hcounted : s'.counted = s.counted) (hrejected : ∀ id ∈ s.rejected, id ∈ s'.rejected)
    (hfinishing : ∀ (j : ℕ) task, s'.process.finishing[j]? = some task →
      s.process.finishing[j]? = some task ∨ task.pc = .done ∨
        (task.pc = .respond ∨ task.pc = .remove) ∧
          (task.requestIdentifier ∈ s'.rejected ∨ s'.process.Handed task.requestIdentifier)) :
    Mapped s' := by
  have hdone : ∀ (t : ℕ) call, s.process.calls[t]? = some call → s'.isDone t = s.isDone t := by
    intro t call hcall
    exact isDone_congr ((hcalls t call hcall).trans hcall.symm) hcounted
  refine ⟨?_, ?_, ?_, ?_⟩
  · intro uuid x hx
    rw [hmap] at hx
    obtain ⟨t, call, hcall, hid, hsector, hpc, hopen⟩ := h.entry uuid x hx
    refine ⟨t, call, hcalls t call hcall, hid, hsector, ?_, (hdone t call hcall).trans hopen⟩
    rcases hpc with hpc | hpc
    · exact hentered t x.1 hpc
    · exact Or.inr (hhanded t x.1 hpc)
  · intro j task sector hj hpc
    rcases hfinishing j task hj with hj | hend | ⟨hstart, -⟩
    · obtain ⟨hheld, hnone, t, call, i, hcall, hid, hsector, hpct, hopen⟩ :=
        h.counting j task sector hj hpc
      rw [hlock, hmap]
      exact ⟨hheld, hnone, t, call, i, hcalls t call hcall, hid, hsector, hhanded t i hpct,
        (hdone t call hcall).trans hopen⟩
    · rw [hpc] at hend
      cases hend
    · rw [hpc] at hstart
      rcases hstart with hstart | hstart <;> cases hstart
  · intro j task sector hj hpc
    rcases hfinishing j task hj with hj | hend | ⟨hstart, -⟩
    · rw [hlock]
      exact h.notifying j task sector hj hpc
    · rw [hpc] at hend
      cases hend
    · rw [hpc] at hstart
      rcases hstart with hstart | hstart <;> cases hstart
  · intro task htask hpc
    obtain ⟨j, hj⟩ := List.getElem?_of_mem htask
    rcases hfinishing j task hj with hj | hend | ⟨-, hasks⟩
    · rcases h.asks task (List.mem_of_getElem? hj) hpc with hid | hid
      · exact Or.inl (hrejected _ hid)
      · exact Or.inr (hid.mono hcalls hhanded)
    · rw [hend] at hpc
      rcases hpc with hpc | hpc <;> cases hpc
    · exact hasks

/-- Client tasks that have not received an index move. -/
theorem Mapped.move (h : Mapped s) {t : Callback} {pc : ClientPc}
    (hcalls : s'.process.calls = s.process.calls)
    (hpcs : s'.process.pcs = Function.update s.process.pcs t pc)
    (hmap : s'.process.msgIdHandlerSectorIdx = s.process.msgIdHandlerSectorIdx)
    (hlock : s'.process.handlerLock = s.process.handlerLock)
    (hfinishing : s'.process.finishing = s.process.finishing)
    (hcounted : s'.counted = s.counted) (hrejected : s'.rejected = s.rejected)
    (hentered : ∀ i, s.process.pcs t = .entered i → pc = .handed i)
    (hhanded : ∀ i, s.process.pcs t ≠ .handed i) : Mapped s' := by
  apply h.frame (fun _ _ hcall => hcalls ▸ hcall) hmap hlock ?_ ?_ hcounted
    (fun _ hid => hrejected ▸ hid) (fun _ _ hj => Or.inl (hfinishing ▸ hj))
  · intro u i hu
    rw [hpcs]
    by_cases hut : u = t
    · subst hut
      rw [Function.update_self]
      exact Or.inr (hentered i hu)
    · rw [Function.update_of_ne hut]
      exact Or.inl hu
  · intro u i hu
    rw [hpcs]
    by_cases hut : u = t
    · subst hut
      exact absurd hu (hhanded i)
    · rw [Function.update_of_ne hut]
      exact hu

/-- With the lock of the map free, no task is counting or notifying. -/
theorem Mapped.not_counting (h : Mapped s) (hfree : s.process.handlerLock = none) {j : ℕ}
    {task : FinishTask} (hj : s.process.finishing[j]? = some task) (sector : SectorIdx) :
    task.pc ≠ .count sector ∧ task.pc ≠ .notify sector := by
  constructor
  · intro hpc
    have hheld := (h.counting j task sector hj hpc).1
    rw [hfree] at hheld
    cases hheld
  · intro hpc
    have hheld := h.notifying j task sector hj hpc
    rw [hfree] at hheld
    cases hheld

/-- A task enters its command in the map. -/
theorem Mapped.enter (h : Mapped s) {t : Callback} {call : Call} {i : ℕ}
    (hcall : s.process.calls[t]? = some call) (hpc : s.process.pcs t = .index i)
    (hfree : s.process.handlerLock = none) (hopen : s.isDone t = false)
    (hcalls : s'.process.calls = s.process.calls)
    (hpcs : s'.process.pcs = Function.update s.process.pcs t (.entered i))
    (hmap : s'.process.msgIdHandlerSectorIdx = Function.update s.process.msgIdHandlerSectorIdx
      (.fromRequest call.cmd.header.requestIdentifier) (some (i, call.sector)))
    (hfinishing : s'.process.finishing = s.process.finishing)
    (hcounted : s'.counted = s.counted) (hrejected : s'.rejected = s.rejected) : Mapped s' := by
  have hdone : ∀ u, s'.isDone u = s.isDone u := fun u => isDone_congr (by rw [hcalls]) hcounted
  have hother : ∀ u, u ≠ t → s'.process.pcs u = s.process.pcs u := fun u hu => by
    rw [hpcs, Function.update_of_ne hu]
  refine ⟨?_, ?_, ?_, ?_⟩
  · intro uuid x hx
    rw [hmap] at hx
    by_cases huuid : uuid = .fromRequest call.cmd.header.requestIdentifier
    · rw [huuid, Function.update_self, Option.some.injEq] at hx
      subst hx
      refine ⟨t, call, hcalls ▸ hcall, huuid.symm, rfl, Or.inl ?_, (hdone t).trans hopen⟩
      rw [hpcs, Function.update_self]
    · rw [Function.update_of_ne huuid] at hx
      obtain ⟨u, callu, hcallu, hid, hsector, hpcu, hopenu⟩ := h.entry uuid x hx
      have hut : u ≠ t := by
        rintro rfl
        rw [hpc] at hpcu
        rcases hpcu with hpcu | hpcu <;> cases hpcu
      refine ⟨u, callu, hcalls ▸ hcallu, hid, hsector, ?_, (hdone u).trans hopenu⟩
      rw [hother u hut]
      exact hpcu
  · intro j task sector hj hcount
    rw [hfinishing] at hj
    exact absurd hcount (h.not_counting hfree hj sector).1
  · intro j task sector hj hnotify
    rw [hfinishing] at hj
    exact absurd hnotify (h.not_counting hfree hj sector).2
  · intro task htask hstart
    rw [hfinishing] at htask
    rcases h.asks task htask hstart with hid | hid
    · exact Or.inl (hrejected ▸ hid)
    · refine Or.inr (hid.mono (fun _ _ hu => hcalls ▸ hu) fun u k hu => ?_)
      rw [hother u]
      · exact hu
      · rintro rfl
        rw [hpc] at hu
        cases hu

/-- What the tasks are after one of them moves. -/
theorem setFinish_cases {tasks : List FinishTask} {j k : ℕ} {task other : FinishTask}
    (hk : (tasks.set j task)[k]? = some other) :
    (k = j ∧ other = task) ∨ (k ≠ j ∧ tasks[k]? = some other) := by
  rw [List.getElem?_set] at hk
  by_cases hjk : j = k
  · rw [if_pos hjk] at hk
    split at hk
    · rw [Option.some.injEq] at hk
      exact Or.inl ⟨hjk.symm, hk.symm⟩
    · cases hk
  · rw [if_neg hjk] at hk
    exact Or.inr ⟨Ne.symm hjk, hk⟩

theorem append_cases {α : Type*} {tasks : List α} {k : ℕ} {new other : α}
    (hk : (tasks ++ [new])[k]? = some other) :
    tasks[k]? = some other ∨ (k = tasks.length ∧ other = new) := by
  by_cases hlt : k < tasks.length
  · rw [List.getElem?_append_left hlt] at hk
    exact Or.inl hk
  · rw [List.getElem?_append_right (Nat.not_lt.mp hlt)] at hk
    have hidx : k - tasks.length < 1 := (List.getElem?_eq_some_iff.mp hk).1
    exact Or.inr ⟨by omega, List.mem_singleton.mp (List.mem_of_getElem? hk)⟩

/-- A task goes on in `finish_client_command`; the others still ask for what they asked for. -/
theorem Mapped.asks_set (h : Mapped s) {j : ℕ} {task : FinishTask}
    (hnew : task.pc ≠ .respond ∧ task.pc ≠ .remove) (hcalls : s'.process.calls = s.process.calls)
    (hhanded : ∀ t i, s.process.pcs t = .handed i → s'.process.pcs t = .handed i)
    (hfinishing : s'.process.finishing = s.process.finishing.set j task)
    (hrejected : s'.rejected = s.rejected) :
    ∀ task ∈ s'.process.finishing, task.pc = .respond ∨ task.pc = .remove →
      task.requestIdentifier ∈ s'.rejected ∨ s'.process.Handed task.requestIdentifier := by
  intro other hother hstart
  rw [hfinishing] at hother
  obtain ⟨k, hk⟩ := List.getElem?_of_mem hother
  rcases setFinish_cases hk with ⟨-, rfl⟩ | ⟨-, hk⟩
  · rcases hstart with hstart | hstart
    · exact absurd hstart hnew.1
    · exact absurd hstart hnew.2
  · rw [hrejected]
    rcases h.asks other (List.mem_of_getElem? hk) hstart with hid | hid
    · exact Or.inl hid
    · exact Or.inr (hid.mono (fun _ _ hu => hcalls ▸ hu) hhanded)

/-- `finish_client_command` takes the entry of a command out of the map. -/
theorem Mapped.removes (h : Mapped s) (hn : Numbered s) {j : ℕ} {task : FinishTask}
    {entry : ℕ × SectorIdx} (hj : s.process.finishing[j]? = some task) (hpc : task.pc = .remove)
    (hfree : s.process.handlerLock = none)
    (hentry : s.process.msgIdHandlerSectorIdx (.fromRequest task.requestIdentifier) = some entry)
    (hcalls : s'.process.calls = s.process.calls) (hpcs : s'.process.pcs = s.process.pcs)
    (hmap : s'.process.msgIdHandlerSectorIdx = Function.update s.process.msgIdHandlerSectorIdx
      (.fromRequest task.requestIdentifier) none)
    (hlock : s'.process.handlerLock = some j)
    (hfinishing : s'.process.finishing =
      s.process.finishing.set j { task with pc := .count entry.2 })
    (hcounted : s'.counted = s.counted) (hrejected : s'.rejected = s.rejected) : Mapped s' := by
  have hdone : ∀ u, s'.isDone u = s.isDone u := fun u => isDone_congr (by rw [hcalls]) hcounted
  refine ⟨?_, ?_, ?_, ?_⟩
  · intro uuid x hx
    rw [hmap] at hx
    by_cases huuid : uuid = .fromRequest task.requestIdentifier
    · rw [huuid, Function.update_self] at hx
      cases hx
    · rw [Function.update_of_ne huuid] at hx
      rw [hcalls, hpcs]
      obtain ⟨u, callu, hcallu, hid, hsector, hpcu, hopenu⟩ := h.entry uuid x hx
      exact ⟨u, callu, hcallu, hid, hsector, hpcu, (hdone u).trans hopenu⟩
  · intro k other sector hk hcount
    rw [hfinishing] at hk
    rcases setFinish_cases hk with ⟨rfl, rfl⟩ | ⟨hkj, hk⟩
    · rw [FinishPc.count.injEq] at hcount
      subst hcount
      refine ⟨hlock, by rw [hmap, Function.update_self], ?_⟩
      -- the command in the map is the one that the task has been spawned for
      obtain ⟨t, call, hcall, hid, hsector, hpct, hopen⟩ := h.entry _ _ hentry
      have hid' := Uuid.fromRequest_injective hid
      have hlive : s.process.pcs t ≠ .lost := by
        rcases hpct with hpct | hpct <;> simp [hpct]
      rcases h.asks task (List.mem_of_getElem? hj) (Or.inr hpc) with hbad | hgood
      · exact absurd (hid' ▸ hbad) (hn.accepted t call hcall hlive)
      · obtain ⟨u, callu, i, hcallu, hpcu, hidu⟩ := hgood
        have htu : t = u := hn.distinct t u call callu hcall hcallu hlive (by simp [hpcu])
          (hid'.trans hidu.symm)
        subst htu
        rw [hcalls, hpcs]
        exact ⟨t, call, i, hcall, hid', hsector.symm, hpcu, (hdone t).trans hopen⟩
    · exact absurd hcount (h.not_counting hfree hk sector).1
  · intro k other sector hk hnotify
    rw [hfinishing] at hk
    rcases setFinish_cases hk with ⟨rfl, rfl⟩ | ⟨hkj, hk⟩
    · cases hnotify
    · exact absurd hnotify (h.not_counting hfree hk sector).2
  · exact h.asks_set ⟨FinishPc.noConfusion, FinishPc.noConfusion⟩ hcalls (fun _ _ hu => hpcs ▸ hu)
      hfinishing hrejected

/-- `finish_client_command` counts a command. -/
theorem Mapped.counts (h : Mapped s) (hn : Numbered s) {j : ℕ} {task : FinishTask}
    {sector : SectorIdx} {t : Callback} {call : Call}
    (hj : s.process.finishing[j]? = some task) (hpc : task.pc = .count sector)
    (hcall : s.process.calls[t]? = some call) (hlive : s.process.pcs t ≠ .lost)
    (hid : call.cmd.header.requestIdentifier = task.requestIdentifier)
    (hcalls : s'.process.calls = s.process.calls) (hpcs : s'.process.pcs = s.process.pcs)
    (hmap : s'.process.msgIdHandlerSectorIdx = s.process.msgIdHandlerSectorIdx)
    (hlock : s'.process.handlerLock = s.process.handlerLock)
    (hfinishing : s'.process.finishing =
      s.process.finishing.set j { task with pc := .notify sector })
    (hcounted : s'.counted =
      s.counted ++ [(j, call.cmd.header.requestIdentifier, call.sector)])
    (hrejected : s'.rejected = s.rejected) : Mapped s' := by
  obtain ⟨hheld, hnone, -⟩ := h.counting j task sector hj hpc
  refine ⟨?_, ?_, ?_, ?_⟩
  · intro uuid x hx
    rw [hmap] at hx
    rw [hcalls, hpcs]
    obtain ⟨u, callu, hcallu, hidu, hsector, hpcu, hopenu⟩ := h.entry uuid x hx
    have hlost : s.process.pcs u ≠ .lost := by
      rcases hpcu with hpcu | hpcu <;> simp [hpcu]
    refine ⟨u, callu, hcallu, hidu, hsector, hpcu, ?_⟩
    rw [hn.isDone_counts hcall hlive hcalls hcounted hlost]
    · exact hopenu
    · -- the entry of the command that is counted has been removed
      rintro rfl
      rw [hcall, Option.some.injEq] at hcallu
      rw [← hidu, ← hcallu, hid, hnone] at hx
      cases hx
  · intro k other sector' hk hcount
    rw [hfinishing] at hk
    rcases setFinish_cases hk with ⟨rfl, rfl⟩ | ⟨hkj, hk⟩
    · cases hcount
    · have hheld' := (h.counting k other sector' hk hcount).1
      rw [hheld, Option.some.injEq] at hheld'
      exact absurd hheld'.symm hkj
  · intro k other sector' hk hnotify
    rw [hfinishing] at hk
    rw [hlock]
    rcases setFinish_cases hk with ⟨rfl, rfl⟩ | ⟨-, hk⟩
    · exact hheld
    · exact h.notifying k other sector' hk hnotify
  · exact h.asks_set ⟨FinishPc.noConfusion, FinishPc.noConfusion⟩ hcalls (fun _ _ hu => hpcs ▸ hu)
      hfinishing hrejected

/-- `finish_client_command` returns, and drops its locks. -/
theorem Mapped.notifies (h : Mapped s) {j : ℕ} {task : FinishTask} {sector : SectorIdx}
    (hj : s.process.finishing[j]? = some task) (hpc : task.pc = .notify sector)
    (hcalls : s'.process.calls = s.process.calls) (hpcs : s'.process.pcs = s.process.wake sector)
    (hmap : s'.process.msgIdHandlerSectorIdx = s.process.msgIdHandlerSectorIdx)
    (hfinishing : s'.process.finishing = s.process.finishing.set j { task with pc := .done })
    (hcounted : s'.counted = s.counted) (hrejected : s'.rejected = s.rejected) : Mapped s' := by
  have hheld := h.notifying j task sector hj hpc
  have hdone : ∀ u, s'.isDone u = s.isDone u := fun u => isDone_congr (by rw [hcalls]) hcounted
  have hwake : ∀ u, (∀ c, s.process.pcs u ≠ .parked c) → s'.process.pcs u = s.process.pcs u := by
    intro u hu
    rw [hpcs]
    rcases wake_cases (s := s.process) sector u with heq | ⟨c, hc, -⟩
    · exact heq
    · exact absurd hc (hu c)
  refine ⟨?_, ?_, ?_, ?_⟩
  · intro uuid x hx
    rw [hmap] at hx
    obtain ⟨u, callu, hcallu, hid, hsector, hpcu, hopenu⟩ := h.entry uuid x hx
    refine ⟨u, callu, hcalls ▸ hcallu, hid, hsector, ?_, (hdone u).trans hopenu⟩
    rw [hwake u]
    · exact hpcu
    · intro c hc
      rw [hc] at hpcu
      rcases hpcu with hpcu | hpcu <;> cases hpcu
  · intro k other sector' hk hcount
    rw [hfinishing] at hk
    rcases setFinish_cases hk with ⟨rfl, rfl⟩ | ⟨hkj, hk⟩
    · cases hcount
    · have hheld' := (h.counting k other sector' hk hcount).1
      rw [hheld, Option.some.injEq] at hheld'
      exact absurd hheld'.symm hkj
  · intro k other sector' hk hnotify
    rw [hfinishing] at hk
    rcases setFinish_cases hk with ⟨rfl, rfl⟩ | ⟨hkj, hk⟩
    · cases hnotify
    · have hheld' := h.notifying k other sector' hk hnotify
      rw [hheld, Option.some.injEq] at hheld'
      exact absurd hheld'.symm hkj
  · refine h.asks_set ⟨FinishPc.noConfusion, FinishPc.noConfusion⟩ hcalls (fun u i hu => ?_)
      hfinishing hrejected
    rw [hwake u]
    · exact hu
    · intro c hc
      rw [hc] at hu
      cases hu

theorem Mapped.of_lost (hmap : ∀ uuid, s.process.msgIdHandlerSectorIdx uuid = none)
    (hfinishing : s.process.finishing = []) : Mapped s := by
  refine ⟨?_, ?_, ?_, ?_⟩
  · intro uuid x hx
    rw [hmap] at hx
    cases hx
  · intro j task sector hj
    rw [hfinishing] at hj
    cases hj
  · intro j task sector hj
    rw [hfinishing] at hj
    cases hj
  · intro task htask
    rw [hfinishing] at htask
    cases htask

end Executor
end AtomicDiscDrive
