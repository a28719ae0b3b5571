import AtomicDiscDrive.Executor.Exclusion
import AtomicDiscDrive.Executor.Places

/-!
# Completion tasks

`finish_client_command` removes the entry of a command from `msg_id_handler_sector_idx` and
counts it in `total_finished`; the task of a completion callback calls it last, after the
response. `Stage` says what a completion task has done at each of its program counters, for
runs in which a register is handed one command at a time: otherwise a callback may be called
with the answer to another command.
-/

namespace AtomicDiscDrive
namespace Executor

open Utils

namespace Log

/-- Client commands receive the indices of free registers only. -/
def TakesFree (s : Log) (a : Action) : Prop := s.process.TakesFree a

instance (s : Log) (a : Action) : Decidable (s.TakesFree a) :=
  inferInstanceAs (Decidable (s.process.TakesFree a))

/-- The entry of a command is in the handler map. -/
def Held (s : Log) (call : Call) : Prop :=
  s.process.msgIdHandlerSectorIdx (.fromRequest call.cmd.header.requestIdentifier) ≠ none

/-- What the `j`-th completion task has counted. -/
def countedBy (s : Log) (j : ℕ) : List (ℕ × UInt64 × SectorIdx) :=
  s.counted.filter fun x => x.1 == j

/-- The `j`-th completion task is through with the response: it has written it, or there is
none to write. -/
def Answered (s : Log) (j : ℕ) (call : Call) : Prop :=
  call.source ≠ none ∨ (j, true) ∈ s.responses

/-- The `j`-th completion task has removed the entry of the command and counted it once. -/
def Counted (s : Log) (j : ℕ) (call : Call) : Prop :=
  ¬s.Held call ∧ s.countedBy j = [(j, call.cmd.header.requestIdentifier, call.sector)]

/-- The `j`-th completion task has ended. -/
def Ended (s : Log) (j : ℕ) : Prop := ∃ task, s.process.finishing[j]? = some task ∧ task.pc = .done

end Log

/-- What a completion task has done, by where it stands. -/
def Stage (s : Log) (j : ℕ) (call : Call) : FinishPc → Prop
  | .respond => s.Held call ∧ s.countedBy j = [] ∧ ¬s.Answered j call
  | .remove => s.Held call ∧ s.countedBy j = [] ∧ s.Answered j call
  | .count sector =>
    sector = call.sector ∧ ¬s.Held call ∧ s.countedBy j = [] ∧ s.Answered j call
  | .notify _ => s.Counted j call ∧ s.Answered j call
  | .done => s.Counted j call ∧ s.Answered j call ∨ s.countedBy j = [] ∧ ¬s.Answered j call

/-- **Completion tasks.** -/
structure Releasing (s : Log) : Prop where
  length : s.spawned.length = s.process.finishing.length
  stage : ∀ (j : ℕ) (t : Callback) (task : FinishTask), s.spawned[j]? = some (some t) →
    s.process.finishing[j]? = some task →
    ∃ call i, s.process.calls[t]? = some call ∧ s.process.pcs t = .handed i ∧
      task.requestIdentifier = call.cmd.header.requestIdentifier ∧ Stage s j call task.pc
  once : ∀ (j k : ℕ) (t : Callback), s.spawned[j]? = some (some t) →
    s.spawned[k]? = some (some t) → j = k
  fired : ∀ t, some t ∈ s.spawned → t ∈ s.process.bank.fired.map Prod.fst
  waiting : ∀ (t : ℕ) call, s.process.calls[t]? = some call →
    (∃ i, s.process.pcs t = .entered i ∨ s.process.pcs t = .handed i) → some t ∉ s.spawned →
    s.Held call
  rejects : ∀ (j : ℕ) (task : FinishTask), s.spawned[j]? = some none →
    s.process.finishing[j]? = some task → task.requestIdentifier ∈ s.rejected
  responses : ∀ x ∈ s.responses, x.1 < s.spawned.length
  counted : ∀ x ∈ s.counted, ∃ t, s.spawned[x.1]? = some (some t)

variable {N R : ℕ} {selfIdent : UInt8} {s s' : Log} {a : Action}

/-- A stage depends on the entry of the command and on what the task has done. -/
theorem Stage.congr {j : ℕ} {call : Call} {pc : FinishPc} (h : Stage s j call pc)
    (hheld : s'.Held call ↔ s.Held call) (hcounted : s'.countedBy j = s.countedBy j)
    (hresponses : (j, true) ∈ s'.responses ↔ (j, true) ∈ s.responses) : Stage s' j call pc := by
  have hanswered : s'.Answered j call ↔ s.Answered j call := or_congr_right hresponses
  cases pc <;> unfold Stage at * <;>
    simpa only [Log.Counted, hheld, hcounted, hanswered] using h

/-! ## What a callback is called with -/

theorem call_of_step {s s' : Process} {i : ℕ} (h : s.step N R selfIdent (.call i) = some s') :
    s.bank.call i = some s'.bank := by
  rcases run_or_restart h with hrun | ⟨hrestart, -⟩
  swap
  · cases hrestart
  simp only [Process.run, Process.callStep] at hrun
  split at hrun
  · split at hrun
    · cases hrun
    · rename_i bank hbank
      cases hrun
      exact hbank
  · cases hrun

/-- The callback a register calls has fired then. -/
theorem Bank.fired_of_completing {b b' : Bank} {i : ℕ} {t : Callback} {op : OperationComplete}
    (hcompleting : b.completing i = some (t, op)) (hcall : b.call i = some b') :
    b'.fired = b.fired ++ [(t, op)] := by
  unfold Bank.completing at hcompleting
  split at hcompleting
  · rename_i msg t' op' next hw
    cases hcompleting
    unfold Bank.call at hcall
    rw [hw] at hcall
    dsimp only [Bank.answer] at hcall
    cases hcall
    rfl
  · cases hcompleting

/-- A register calls the callback of the command in hand, with the answer to that command. -/
theorem completing_inHand {s : Process} (hocc : Occupied N selfIdent s) {i : ℕ} {t : Callback}
    {op : OperationComplete} (hcompleting : s.bank.completing i = some (t, op)) :
    s.bank.inHand i = some t ∧
      ∃ call, s.calls[t]? = some call ∧
        op.requestIdentifier = call.cmd.header.requestIdentifier := by
  have hregister := hocc.register i
  obtain ⟨hhand, call, hcall, hanswer⟩ :=
    hregister.mode.of_mem_complete (Bank.completing_mem_due hregister.steady hcompleting)
  exact ⟨hhand, call, hcall, hanswer.requestIdentifier⟩

/-- Callbacks that have fired stay so. -/
theorem fired_mono {s s' : Process} (hocc : Occupied N selfIdent s)
    (hstep : s.step N R selfIdent a = some s') {t : Callback}
    (ht : t ∈ s.bank.fired.map Prod.fst) : t ∈ s'.bank.fired.map Prod.fst := by
  obtain ⟨f, hf, hft⟩ := List.mem_map.mp ht
  refine List.mem_map.mpr ⟨f, ?_, hft⟩
  cases step_event hstep with
  | shuffle _ hs => exact hs.bank ▸ hf
  | receive _ hrec =>
    obtain ⟨msg, mailbox, hreception⟩ := hocc.reception hrec
    exact hreception.receives.fired ▸ hf
  | call _ hcall =>
    exact (Bank.call_cases hcall (hocc.register _).steady).fired_subset hf
  | restart hrestart => exact (hocc.restarted hrestart).fired ▸ hf
  | _ => exact hf

/-! ## Stages -/

/-- Steps in which no completion task moves, and no entry of the map changes. -/
theorem Releasing.frame (h : Releasing s)
    (hcalls : ∀ (t : ℕ) call, s.process.calls[t]? = some call → s'.process.calls[t]? = some call)
    (hhanded : ∀ t i, s.process.pcs t = .handed i → s'.process.pcs t = .handed i)
    (hentered : ∀ (t : ℕ) call i, s'.process.calls[t]? = some call →
      s'.process.pcs t = .entered i ∨ s'.process.pcs t = .handed i →
      s.process.calls[t]? = some call ∧
        (s.process.pcs t = .entered i ∨ s.process.pcs t = .handed i))
    (hmap : s'.process.msgIdHandlerSectorIdx = s.process.msgIdHandlerSectorIdx)
    (hfinishing : s'.process.finishing = s.process.finishing)
    (hspawned : s'.spawned = s.spawned) (hcounted : s'.counted = s.counted)
    (hresponses : s'.responses = s.responses) (hrejected : s'.rejected = s.rejected)
    (hfired : ∀ t ∈ s.process.bank.fired.map Prod.fst, t ∈ s'.process.bank.fired.map Prod.fst) :
    Releasing s' := by
  have hheld : ∀ call, s'.Held call ↔ s.Held call := by
    intro call
    unfold Log.Held
    rw [hmap]
  refine ⟨?_, ?_, ?_, ?_, ?_, ?_, ?_, ?_⟩
  · rw [hspawned, hfinishing]
    exact h.length
  · intro j t task hj htask
    rw [hspawned] at hj
    rw [hfinishing] at htask
    obtain ⟨call, i, hcall, hpc, hid, hstage⟩ := h.stage j t task hj htask
    refine ⟨call, i, hcalls t call hcall, hhanded t i hpc, hid, ?_⟩
    apply hstage.congr (hheld call)
    · unfold Log.countedBy
      rw [hcounted]
    · rw [hresponses]
  · rw [hspawned]
    exact h.once
  · rw [hspawned]
    exact fun t ht => hfired t (h.fired t ht)
  · intro t call hcall ⟨i, hi⟩ hnot
    rw [hspawned] at hnot
    obtain ⟨hcall, hpc⟩ := hentered t call i hcall hi
    exact (hheld call).mpr (h.waiting t call hcall ⟨i, hpc⟩ hnot)
  · rw [hspawned, hfinishing, hrejected]
    exact h.rejects
  · rw [hresponses, hspawned]
    exact h.responses
  · rw [hcounted, hspawned]
    exact h.counted

/-- A command is entered in the map. -/
theorem Releasing.enter (h : Releasing s) (hn : Numbered s) {t : Callback} {call : Call} {i : ℕ}
    (hcall : s.process.calls[t]? = some call) (hpc : s.process.pcs t = .index i)
    (hcalls : s'.process.calls = s.process.calls)
    (hpcs : s'.process.pcs = Function.update s.process.pcs t (.entered i))
    (hmap : s'.process.msgIdHandlerSectorIdx = Function.update s.process.msgIdHandlerSectorIdx
      (.fromRequest call.cmd.header.requestIdentifier) (some (i, call.sector)))
    (hfinishing : s'.process.finishing = s.process.finishing)
    (hspawned : s'.spawned = s.spawned) (hcounted : s'.counted = s.counted)
    (hresponses : s'.responses = s.responses) (hrejected : s'.rejected = s.rejected)
    (hbank : s'.process.bank = s.process.bank) : Releasing s' := by
  have hother : ∀ u, u ≠ t → s'.process.pcs u = s.process.pcs u := fun u hu => by
    rw [hpcs, Function.update_of_ne hu]
  -- the entry of another command is under another identifier
  have hheld : ∀ (u : ℕ) callu, s.process.calls[u]? = some callu → s.process.pcs u ≠ .lost →
      u ≠ t → (s'.Held callu ↔ s.Held callu) := by
    intro u callu hcallu hlost hut
    unfold Log.Held
    rw [hmap, Function.update_of_ne]
    intro hid
    exact hut (hn.distinct u t callu call hcallu hcall hlost (by simp [hpc])
      (Uuid.fromRequest_injective hid))
  refine ⟨?_, ?_, ?_, ?_, ?_, ?_, ?_, ?_⟩
  · rw [hspawned, hfinishing]
    exact h.length
  · intro j u task hj htask
    rw [hspawned] at hj
    rw [hfinishing] at htask
    obtain ⟨callu, k, hcallu, hpcu, hid, hstage⟩ := h.stage j u task hj htask
    have hut : u ≠ t := by
      rintro rfl
      rw [hpc] at hpcu
      cases hpcu
    refine ⟨callu, k, hcalls ▸ hcallu, (hother u hut).trans hpcu, hid, ?_⟩
    apply hstage.congr (hheld u callu hcallu (by simp [hpcu]) hut)
    · unfold Log.countedBy
      rw [hcounted]
    · rw [hresponses]
  · rw [hspawned]
    exact h.once
  · rw [hspawned, hbank]
    exact h.fired
  · intro u callu hcallu ⟨k, hk⟩ hnot
    rw [hcalls] at hcallu
    by_cases hut : u = t
    · subst hut
      rw [hcall, Option.some.injEq] at hcallu
      subst hcallu
      unfold Log.Held
      rw [hmap, Function.update_self]
      exact Option.some_ne_none _
    · rw [hother u hut] at hk
      rw [hspawned] at hnot
      refine (hheld u callu hcallu ?_ hut).mpr (h.waiting u callu hcallu ⟨k, hk⟩ hnot)
      rcases hk with hk | hk <;> simp [hk]
  · rw [hspawned, hfinishing, hrejected]
    exact h.rejects
  · rw [hresponses, hspawned]
    exact h.responses
  · rw [hcounted, hspawned]
    exact h.counted

/-- A completion task moves. -/
theorem Releasing.set (h : Releasing s) {j : ℕ} {task : FinishTask} {pc : FinishPc}
    (hj : s.process.finishing[j]? = some task) (hcalls : s'.process.calls = s.process.calls)
    (hpcs : ∀ t i, (s'.process.pcs t = .entered i ↔ s.process.pcs t = .entered i) ∧
      (s'.process.pcs t = .handed i ↔ s.process.pcs t = .handed i))
    (hfinishing : s'.process.finishing = s.process.finishing.set j { task with pc })
    (hspawned : s'.spawned = s.spawned) (hrejected : s'.rejected = s.rejected)
    (hbank : s'.process.bank = s.process.bank)
    (hheld : ∀ (t : ℕ) call, s.process.calls[t]? = some call → s.process.pcs t ≠ .lost →
      call.cmd.header.requestIdentifier ≠ task.requestIdentifier →
      (s'.Held call ↔ s.Held call))
    (hcounted : ∀ x ∈ s'.counted, x ∈ s.counted ∨ ∃ t, s.spawned[x.1]? = some (some t))
    (hcountedBy : ∀ k ≠ j, s'.countedBy k = s.countedBy k)
    (hresponses : ∀ x ∈ s'.responses, x ∈ s.responses ∨ x.1 = j)
    (hanswered : ∀ k ≠ j, (k, true) ∈ s'.responses ↔ (k, true) ∈ s.responses)
    (hstage : ∀ t call i, s.spawned[j]? = some (some t) → s.process.calls[t]? = some call →
      s.process.pcs t = .handed i →
      task.requestIdentifier = call.cmd.header.requestIdentifier → Stage s j call task.pc →
      Stage s' j call pc) (hn : Numbered s) : Releasing s' := by
  have hlt : j < s.spawned.length := by
    rw [h.length]
    exact (List.getElem?_eq_some_iff.mp hj).1
  -- the command of the task that moves is the only one with its identifier
  have hforeign : ∀ (t : ℕ) call, s.process.calls[t]? = some call → s.process.pcs t ≠ .lost →
      s.spawned[j]? ≠ some (some t) →
      call.cmd.header.requestIdentifier ≠ task.requestIdentifier := by
    intro t call hcall hlost hne hid
    cases howner : s.spawned[j]? with
    | none => exact absurd hlt (Nat.not_lt.mpr (List.getElem?_eq_none_iff.mp howner))
    | some owner =>
      cases owner with
      | none => exact hn.accepted t call hcall hlost (hid ▸ h.rejects j task howner hj)
      | some u =>
        obtain ⟨callu, i, hcallu, hpcu, hidu, -⟩ := h.stage j u task howner hj
        have htu : t = u := hn.distinct t u call callu hcall hcallu hlost (by simp [hpcu])
          (hid.trans hidu)
        exact hne (htu ▸ howner)
  refine ⟨?_, ?_, ?_, ?_, ?_, ?_, ?_, ?_⟩
  · rw [hspawned, hfinishing, List.length_set]
    exact h.length
  · intro k t other hk hother
    rw [hspawned] at hk
    rw [hfinishing] at hother
    rw [hcalls]
    rcases setFinish_cases hother with ⟨rfl, rfl⟩ | ⟨hkj, hother⟩
    · obtain ⟨call, i, hcall, hpc, hid, hst⟩ := h.stage k t task hk hj
      exact ⟨call, i, hcall, ((hpcs t i).2).mpr hpc, hid, hstage t call i hk hcall hpc hid hst⟩
    · obtain ⟨call, i, hcall, hpc, hid, hst⟩ := h.stage k t other hk hother
      have hne : s.spawned[j]? ≠ some (some t) := fun hj' => hkj (h.once k j t hk hj')
      refine ⟨call, i, hcall, ((hpcs t i).2).mpr hpc, hid, ?_⟩
      exact hst.congr (hheld t call hcall (by simp [hpc])
        (hforeign t call hcall (by simp [hpc]) hne)) (hcountedBy k hkj) (hanswered k hkj)
  · rw [hspawned]
    exact h.once
  · rw [hspawned, hbank]
    exact h.fired
  · intro t call hcall ⟨i, hi⟩ hnot
    rw [hcalls] at hcall
    rw [hspawned] at hnot
    rw [(hpcs t i).1, (hpcs t i).2] at hi
    have hlost : s.process.pcs t ≠ .lost := by
      rcases hi with hi | hi <;> simp [hi]
    refine (hheld t call hcall hlost (hforeign t call hcall hlost ?_)).mpr
      (h.waiting t call hcall ⟨i, hi⟩ hnot)
    exact fun hmem => hnot (List.mem_of_getElem? hmem)
  · intro k other hk hother
    rw [hspawned] at hk
    rw [hfinishing] at hother
    rw [hrejected]
    rcases setFinish_cases hother with ⟨rfl, rfl⟩ | ⟨-, hother⟩
    · exact h.rejects k task hk hj
    · exact h.rejects k other hk hother
  · intro x hx
    rw [hspawned]
    rcases hresponses x hx with hx | rfl
    · exact h.responses x hx
    · exact hlt
  · intro x hx
    rw [hspawned]
    rcases hcounted x hx with hx | howner
    · exact h.counted x hx
    · exact howner

theorem Releasing.of_lost (hpcs : ∀ t, s.process.pcs t = .lost)
    (hfinishing : s.process.finishing = []) (hspawned : s.spawned = [])
    (hresponses : s.responses = []) (hcounted : s.counted = []) : Releasing s := by
  refine ⟨?_, ?_, ?_, ?_, ?_, ?_, ?_, ?_⟩
  · rw [hspawned, hfinishing]
    rfl
  · intro j t task hj
    rw [hspawned] at hj
    cases hj
  · intro j k t hj
    rw [hspawned] at hj
    cases hj
  · intro t ht
    rw [hspawned] at ht
    cases ht
  · rintro t call - ⟨i, hi⟩
    rw [hpcs] at hi
    rcases hi with hi | hi <;> cases hi
  · intro j task hj
    rw [hspawned] at hj
    cases hj
  · intro x hx
    rw [hresponses] at hx
    cases hx
  · intro x hx
    rw [hcounted] at hx
    cases hx

/-- A completion task is spawned. -/
theorem Releasing.append (h : Releasing s) {owner : Option Callback} {new : FinishTask}
    (hcalls : s'.process.calls = s.process.calls) (hpcs : s'.process.pcs = s.process.pcs)
    (hmap : s'.process.msgIdHandlerSectorIdx = s.process.msgIdHandlerSectorIdx)
    (hfinishing : s'.process.finishing = s.process.finishing ++ [new])
    (hspawned : s'.spawned = s.spawned ++ [owner]) (hcounted : s'.counted = s.counted)
    (hresponses : s'.responses = s.responses) (hrejected : ∀ id ∈ s.rejected, id ∈ s'.rejected)
    (hfired : ∀ t ∈ s.process.bank.fired.map Prod.fst, t ∈ s'.process.bank.fired.map Prod.fst)
    (hreject : owner = none → new.requestIdentifier ∈ s'.rejected)
    (howner : ∀ t, owner = some t → some t ∉ s.spawned ∧ t ∈ s'.process.bank.fired.map Prod.fst ∧
      ∃ call i, s.process.calls[t]? = some call ∧ s.process.pcs t = .handed i ∧
        new.requestIdentifier = call.cmd.header.requestIdentifier ∧
        (new.pc = .respond ∧ call.source = none ∨ new.pc = .remove ∧ call.source ≠ none)) :
    Releasing s' := by
  have hheld : ∀ call, s'.Held call ↔ s.Held call := by
    intro call
    unfold Log.Held
    rw [hmap]
  have hcases : ∀ (j : ℕ) x, s'.spawned[j]? = some x →
      s.spawned[j]? = some x ∨ (j = s.spawned.length ∧ x = owner) := by
    intro j x hj
    rw [hspawned] at hj
    by_cases hlt : j < s.spawned.length
    · rw [List.getElem?_append_left hlt] at hj
      exact Or.inl hj
    · rw [List.getElem?_append_right (Nat.not_lt.mp hlt)] at hj
      have hidx : j - s.spawned.length < 1 := (List.getElem?_eq_some_iff.mp hj).1
      exact Or.inr ⟨by omega, List.mem_singleton.mp (List.mem_of_getElem? hj)⟩
  have hbound : ∀ {j : ℕ} {x}, s.spawned[j]? = some x → j < s.process.finishing.length :=
    fun hj => h.length ▸ (List.getElem?_eq_some_iff.mp hj).1
  -- which task an index belongs to
  have hold : ∀ (j : ℕ) x task, s.spawned[j]? = some x → s'.process.finishing[j]? = some task →
      s.process.finishing[j]? = some task := by
    intro j x task hj htask
    rw [hfinishing, List.getElem?_append_left (hbound hj)] at htask
    exact htask
  have hnew : ∀ task, s'.process.finishing[s.spawned.length]? = some task → task = new := by
    intro task htask
    rw [hfinishing, h.length, List.getElem?_append_right (le_refl _), Nat.sub_self,
      List.getElem?_cons_zero, Option.some.injEq] at htask
    exact htask.symm
  refine ⟨?_, ?_, ?_, ?_, ?_, ?_, ?_, ?_⟩
  · rw [hspawned, hfinishing, List.length_append, List.length_append, h.length]
    rfl
  · intro j t task hj htask
    rw [hcalls, hpcs]
    rcases hcases j _ hj with hj | ⟨rfl, heq⟩
    · obtain ⟨call, i, hcall, hpc, hid, hstage⟩ := h.stage j t task hj (hold j _ task hj htask)
      refine ⟨call, i, hcall, hpc, hid, ?_⟩
      apply hstage.congr (hheld call)
      · unfold Log.countedBy
        rw [hcounted]
      · rw [hresponses]
    · obtain ⟨hfresh, -, call, i, hcall, hpc, hid, hsource⟩ := howner t heq.symm
      rw [hnew task htask]
      refine ⟨call, i, hcall, hpc, hid, ?_⟩
      have hheld' : s'.Held call := (hheld call).mpr (h.waiting t call hcall ⟨i, Or.inr hpc⟩ hfresh)
      have hnone : s'.countedBy s.spawned.length = [] := by
        unfold Log.countedBy
        rw [hcounted, List.filter_eq_nil_iff]
        intro x hx hidx
        obtain ⟨u, hu⟩ := h.counted x hx
        rw [beq_iff_eq.mp hidx, List.getElem?_eq_none (le_refl _)] at hu
        cases hu
      rcases hsource with ⟨hrespond, hsource⟩ | ⟨hremove, hsource⟩
      · rw [hrespond]
        refine ⟨hheld', hnone, ?_⟩
        rintro (hne | hmem)
        · exact hne hsource
        · rw [hresponses] at hmem
          exact Nat.lt_irrefl _ (h.responses _ hmem)
      · rw [hremove]
        exact ⟨hheld', hnone, Or.inl hsource⟩
  · intro j k t hj hk
    rcases hcases j _ hj with hj' | ⟨hjlen, hjeq⟩
    · rcases hcases k _ hk with hk' | ⟨hklen, hkeq⟩
      · exact h.once j k t hj' hk'
      · exact absurd (List.mem_of_getElem? hj') (howner t hkeq.symm).1
    · rcases hcases k _ hk with hk' | ⟨hklen, hkeq⟩
      · exact absurd (List.mem_of_getElem? hk') (howner t hjeq.symm).1
      · rw [hjlen, hklen]
  · intro t ht
    rw [hspawned] at ht
    rcases List.mem_append.mp ht with ht | ht
    · exact hfired t (h.fired t ht)
    · exact (howner t (List.mem_singleton.mp ht).symm).2.1
  · intro t call hcall hpc hnot
    rw [hcalls] at hcall
    rw [hpcs] at hpc
    refine (hheld call).mpr (h.waiting t call hcall hpc fun hmem => hnot ?_)
    rw [hspawned]
    exact List.mem_append_left _ hmem
  · intro j task hj htask
    rcases hcases j _ hj with hj | ⟨rfl, heq⟩
    · exact hrejected _ (h.rejects j task hj (hold j _ task hj htask))
    · rw [hnew task htask]
      exact hreject heq.symm
  · intro x hx
    rw [hresponses] at hx
    rw [hspawned, List.length_append]
    exact Nat.lt_add_right _ (h.responses x hx)
  · intro x hx
    rw [hcounted] at hx
    obtain ⟨u, hu⟩ := h.counted x hx
    refine ⟨u, ?_⟩
    rw [hspawned, List.getElem?_append_left (List.getElem?_eq_some_iff.mp hu).1]
    exact hu

/-! ## Steps -/

/-- A client task moves, and no entry of the map changes. -/
theorem Releasing.moves (h : Releasing s) {t : Callback} {pc : ClientPc} {process : Process}
    (hcalls : process.calls = s.process.calls)
    (hpcs : process.pcs = Function.update s.process.pcs t pc)
    (hmap : process.msgIdHandlerSectorIdx = s.process.msgIdHandlerSectorIdx)
    (hfinishing : process.finishing = s.process.finishing)
    (hfired : process.bank.fired = s.process.bank.fired)
    (hold : ∀ i, s.process.pcs t ≠ .handed i) (hnew : ∀ i, pc ≠ .entered i)
    (hhand : ∀ i, pc = .handed i → s.process.pcs t = .entered i) :
    Releasing (s.record (.client t) process) := by
  refine h.frame (fun _ _ hu => hcalls ▸ hu) (fun u i hu => ?_) (fun u call i hu hi => ?_) hmap
    hfinishing rfl rfl rfl rfl fun _ hu => hfired ▸ hu
  · show process.pcs u = .handed i
    rw [hpcs, Function.update_of_ne]
    · exact hu
    · rintro rfl
      exact hold i hu
  · change process.pcs u = .entered i ∨ process.pcs u = .handed i at hi
    refine ⟨hcalls ▸ hu, ?_⟩
    rw [hpcs] at hi
    by_cases hut : u = t
    · rw [hut, Function.update_self] at hi
      rw [hut]
      rcases hi with hi | hi
      · exact absurd hi (hnew i)
      · exact Or.inl (hhand i hi)
    · rw [Function.update_of_ne hut] at hi
      exact hi

/-- A new call. -/
theorem Releasing.invokes (h : Releasing s) (hn : Numbered s) {call : Call}
    (hcalls : s'.process.calls = s.process.calls ++ [call])
    (hpcs : s'.process.pcs = Function.update s.process.pcs s.process.calls.length .ticket)
    (hmap : s'.process.msgIdHandlerSectorIdx = s.process.msgIdHandlerSectorIdx)
    (hfinishing : s'.process.finishing = s.process.finishing)
    (hbank : s'.process.bank = s.process.bank)
    (hspawned : s'.spawned = s.spawned) (hcounted : s'.counted = s.counted)
    (hresponses : s'.responses = s.responses) (hrejected : s'.rejected = s.rejected) :
    Releasing s' := by
  have hlost := hn.known s.process.calls.length (le_refl _)
  refine h.frame (fun u callu hu => ?_) (fun u i hu => ?_) (fun u callu i hu hi => ?_) hmap
    hfinishing hspawned hcounted hresponses hrejected fun _ hu => hbank ▸ hu
  · rw [hcalls, List.getElem?_append_left (List.getElem?_eq_some_iff.mp hu).1]
    exact hu
  · rw [hpcs, Function.update_of_ne]
    · exact hu
    · rintro rfl
      rw [hlost] at hu
      cases hu
  · have hne : u ≠ s.process.calls.length := by
      rintro rfl
      rw [hpcs, Function.update_self] at hi
      rcases hi with hi | hi <;> cases hi
    have hlt := (List.getElem?_eq_some_iff.mp hu).1
    rw [hcalls, List.length_append, List.length_singleton] at hlt
    rw [hcalls, List.getElem?_append_left (by omega)] at hu
    rw [hpcs, Function.update_of_ne hne] at hi
    exact ⟨hu, hi⟩

/-- Steps in which no callback is called. -/
theorem Log.record_aside (process : Process) (hclient : ∀ t, a ≠ .client t)
    (hfinish : ∀ j written, a ≠ .finish j written) (hcrash : a ≠ .crash)
    (hreject : ∀ id, a ≠ .reject id)
    (hcall : ∀ i, a = .call i → s.process.bank.completing i = none) :
    (s.record a process).spawned = s.spawned ∧
      (s.record a process).responses = s.responses := by
  cases a with
  | client t => exact absurd rfl (hclient t)
  | finish j written => exact absurd rfl (hfinish j written)
  | crash => exact absurd rfl hcrash
  | reject id => exact absurd rfl (hreject id)
  | call i =>
    simp only [Log.record, hcall i rfl, Option.toList_none, List.map_nil, List.append_nil]
    exact ⟨trivial, trivial⟩
  | _ => exact ⟨rfl, rfl⟩

/-- What a completion task adds to the history. -/
theorem Log.record_tasks (process : Process) {j : ℕ} (written : Bool) {task : FinishTask}
    (hj : s.process.finishing[j]? = some task) :
    (s.record (.finish j written) process).spawned = s.spawned ∧
      (s.record (.finish j written) process).responses =
        if task.pc = .respond then s.responses ++ [(j, written)] else s.responses := by
  obtain ⟨requestIdentifier, pc⟩ := task
  cases pc <;> simp [Log.record, hj]

/-- Only the task of a callback counts a command: that of a rejected request finds no entry. -/
theorem Releasing.counting_owned (h : Releasing s) (ht : Ticketed s) {j : ℕ} {task : FinishTask}
    {sector : SectorIdx} (hj : s.process.finishing[j]? = some task) (hpc : task.pc = .count sector) :
    ∃ t, s.spawned[j]? = some (some t) := by
  obtain ⟨-, -, t, call, i, hcall, hid, -, hhanded, -⟩ := ht.mapped.counting j task sector hj hpc
  have hlt : j < s.spawned.length := h.length ▸ (List.getElem?_eq_some_iff.mp hj).1
  cases howner : s.spawned.get ⟨j, hlt⟩ with
  | some u => exact ⟨u, (List.getElem?_eq_getElem hlt).trans (congrArg some howner)⟩
  | none =>
    have hrejected := h.rejects j task
      ((List.getElem?_eq_getElem hlt).trans (congrArg some howner)) hj
    have hlive : s.process.pcs t ≠ .lost := by rw [hhanded]; exact ClientPc.noConfusion
    exact absurd (hid ▸ hrejected) (ht.numbered.accepted t call hcall hlive)

/-- A completion task moves: what `Releasing.set` asks of the history. -/
theorem Releasing.finishes (h : Releasing s) (ht : Ticketed s) {j : ℕ} {written : Bool}
    {task : FinishTask} {pc : FinishPc} {process : Process}
    (hj : s.process.finishing[j]? = some task) (hcalls : process.calls = s.process.calls)
    (hpcs : ∀ t i, (process.pcs t = .entered i ↔ s.process.pcs t = .entered i) ∧
      (process.pcs t = .handed i ↔ s.process.pcs t = .handed i))
    (hfinishing : process.finishing = s.process.finishing.set j { task with pc })
    (hbank : process.bank = s.process.bank)
    (hmap : ∀ uuid, uuid ≠ .fromRequest task.requestIdentifier →
      process.msgIdHandlerSectorIdx uuid = s.process.msgIdHandlerSectorIdx uuid)
    (hstage : ∀ t call i, s.spawned[j]? = some (some t) → s.process.calls[t]? = some call →
      s.process.pcs t = .handed i →
      task.requestIdentifier = call.cmd.header.requestIdentifier → Stage s j call task.pc →
      Stage (s.record (.finish j written) process) j call pc) :
    Releasing (s.record (.finish j written) process) := by
  obtain ⟨hprocess, -, hrejected, hcounted⟩ := Log.record_finish process written hj
  obtain ⟨hspawned, hresponses⟩ := Log.record_tasks process written hj
  -- what the task adds to the log bears its own number
  have hcounted' : ∀ k, k ≠ j →
      (s.record (.finish j written) process).countedBy k = s.countedBy k := by
    intro k hk
    unfold Log.countedBy
    rw [hcounted]
    split
    · rw [List.filter_append, List.filter_singleton]
      have hne : (j == k) = false := beq_eq_false_iff_ne.mpr (Ne.symm hk)
      simp only [hne, cond_false, List.append_nil]
    · rfl
  refine h.set hj (by rw [hprocess, hcalls]) (by rw [hprocess]; exact hpcs)
    (by rw [hprocess, hfinishing]) hspawned hrejected (by rw [hprocess, hbank]) ?_ ?_ hcounted'
    ?_ ?_ hstage ht.numbered
  · intro t call _ _ hne
    unfold Log.Held
    rw [hprocess, hmap]
    intro hid
    exact hne (Uuid.fromRequest_injective hid)
  · intro x hx
    rw [hcounted] at hx
    split at hx
    · rename_i hpc
      rcases List.mem_append.mp hx with hx | hx
      · exact Or.inl hx
      · rw [List.mem_singleton.mp hx]
        exact Or.inr (h.counting_owned ht hj hpc)
    · exact Or.inl hx
  · intro x hx
    rw [hresponses] at hx
    split at hx
    · rcases List.mem_append.mp hx with hx | hx
      · exact Or.inl hx
      · exact Or.inr (by rw [List.mem_singleton.mp hx])
    · exact Or.inl hx
  · intro k hk
    rw [hresponses]
    split
    · rw [List.mem_append, List.mem_singleton]
      refine or_iff_left fun heq => hk ?_
      exact congrArg Prod.fst heq
    · rfl

/-- What a step of a completion task means for its own command. -/
theorem Log.record_stage (process : Process) {j : ℕ} (written : Bool) {task : FinishTask}
    (hj : s.process.finishing[j]? = some task) (call : Call) :
    ((s.record (.finish j written) process).Held call ↔ process.msgIdHandlerSectorIdx
      (.fromRequest call.cmd.header.requestIdentifier) ≠ none) ∧
    ((s.record (.finish j written) process).countedBy j = match task.pc with
      | .count sector => s.countedBy j ++ [(j, task.requestIdentifier, sector)]
      | _ => s.countedBy j) ∧
    ((s.record (.finish j written) process).Answered j call ↔
      s.Answered j call ∨ task.pc = .respond ∧ written = true) := by
  obtain ⟨hprocess, -, -, hcounted⟩ := Log.record_finish process written hj
  obtain ⟨-, hresponses⟩ := Log.record_tasks process written hj
  refine ⟨?_, ?_, ?_⟩
  · unfold Log.Held
    rw [hprocess]
  · unfold Log.countedBy
    rw [hcounted]
    cases task.pc with
    | count sector => rw [List.filter_append, List.filter_singleton, beq_self_eq_true, cond_true]
    | _ => rfl
  · unfold Log.Answered
    rw [hresponses, or_assoc]
    apply or_congr_right
    split
    · rename_i hpc
      rw [List.mem_append, List.mem_singleton, Prod.mk.injEq]
      simp [hpc, eq_comm]
    · rename_i hpc
      simp [hpc]

/-- **Completion tasks, step by step.** -/
theorem Releasing.step {process : Process} (h : Releasing s) (ht : Ticketed s)
    (hocc : Occupied N selfIdent s.process) (hplaced : Placed s.process)
    (hstep : s.process.step N R selfIdent a = some process) : Releasing (s.record a process) := by
  have hfired : ∀ t ∈ s.process.bank.fired.map Prod.fst, t ∈ process.bank.fired.map Prod.fst :=
    fun t => fired_mono hocc hstep
  have hsame : ∀ t i, (s.process.pcs t = .entered i ↔ s.process.pcs t = .entered i) ∧
      (s.process.pcs t = .handed i ↔ s.process.pcs t = .handed i) := fun _ _ => ⟨Iff.rfl, Iff.rfl⟩
  cases step_turn hstep with
  | aside haside hclient hfinish hcall ha =>
    obtain ⟨hprocess, -, hcounted, hrejected⟩ :=
      Log.record_same (s := s) process hclient hfinish ha.1 ha.2.2.2.2
    obtain ⟨hspawned, hresponses⟩ :=
      Log.record_aside (s := s) process hclient hfinish ha.1 ha.2.2.2.2 hcall
    refine h.frame (fun _ _ hu => ?_) (fun _ _ hu => ?_) (fun _ _ _ hu hi => ?_) ?_ ?_ hspawned
      hcounted hresponses hrejected ?_
    · rw [hprocess, haside.calls]
      exact hu
    · rw [hprocess, haside.pcs]
      exact hu
    · rw [hprocess, haside.calls] at hu
      rw [hprocess, haside.pcs] at hi
      exact ⟨hu, hi⟩
    · rw [hprocess, haside.handlers]
    · rw [hprocess, haside.finishing]
    · rw [hprocess]
      exact hfired
  | @spawn i bank t op hcompleting =>
    obtain ⟨hhand, call, hcall, hid⟩ := completing_inHand hocc hcompleting
    have hfires := Bank.fired_of_completing hcompleting (call_of_step hstep)
    refine h.append rfl rfl rfl rfl ?_ rfl rfl (fun _ hid => hid) hfired
      (fun hnone => absurd hnone (Option.some_ne_none t)) ?_
    · show s.spawned ++ (s.process.bank.completing i).toList.map _ = s.spawned ++ [some t]
      rw [hcompleting]
      rfl
    · intro u hu
      rw [Option.some.injEq] at hu
      subst hu
      refine ⟨fun hmem => ?_, ?_, call, i, hcall, hplaced.handed i t (Or.inr hhand), hid, ?_⟩
      · -- a callback that has fired is in no hand any more
        obtain ⟨f, hf, hft⟩ := List.mem_map.mp (h.fired t hmem)
        exact ((hplaced.fired f hf).2.2 i).2 (hft ▸ hhand)
      · show t ∈ bank.fired.map Prod.fst
        rw [hfires, List.map_append]
        exact List.mem_append_right _ (List.mem_singleton_self _)
      · unfold Process.finishTask
        rw [hcall]
        obtain ⟨operation, cmd, source⟩ := call
        cases source with
        | none => exact Or.inl ⟨rfl, rfl⟩
        | some register => exact Or.inr ⟨rfl, Option.some_ne_none _⟩
  | reject =>
    refine h.append rfl rfl rfl rfl rfl rfl rfl (fun _ => List.mem_append_left _)
      (fun _ ht => ht) (fun _ => ?_) fun t ht => ?_
    · exact List.mem_append_right _ (List.mem_singleton_self _)
    · cases ht
  | submit => exact h.invokes ht.numbered rfl rfl rfl rfl rfl rfl rfl rfl rfl
  | dispatch hstartup => exact h.invokes ht.numbered rfl rfl rfl rfl rfl rfl rfl rfl rfl
  | ticket _ hpc | owns _ hpc | defers _ hpc | parks _ hpc | take _ hpc =>
    exact h.moves rfl rfl rfl rfl rfl (fun i => by simp [hpc]) (fun i => ClientPc.noConfusion)
      fun i => ClientPc.noConfusion
  | enter hcall hpc _ =>
    exact h.enter ht.numbered hcall hpc rfl rfl rfl rfl rfl rfl rfl rfl rfl
  | hand hcall hpc =>
    refine h.moves rfl rfl rfl rfl rfl (fun i => by simp [hpc]) (fun i => ClientPc.noConfusion)
      fun i hi => ?_
    rw [ClientPc.handed.injEq] at hi
    rw [hpc, hi]
  | @respond j written task hj hpc =>
    refine h.finishes ht hj rfl hsame rfl rfl (fun _ _ => rfl) ?_
    intro t call i _ _ _ _ hstage
    obtain ⟨hheld, hcounted, hanswered⟩ := Log.record_stage (s.process.setFinish j task
      (if written then .remove else .done)) written hj call
    rw [hpc] at hstage hcounted hanswered
    have hnone := hcounted.trans hstage.2.1
    cases written with
    | true => exact ⟨hheld.mpr hstage.1, hnone, hanswered.mpr (Or.inr ⟨rfl, rfl⟩)⟩
    | false =>
      refine Or.inr ⟨hnone, fun hans => ?_⟩
      rcases hanswered.mp hans with hans | ⟨-, hfalse⟩
      · exact hstage.2.2 hans
      · cases hfalse
  | @missing j written task hj hpc _ hnone =>
    refine h.finishes ht hj rfl hsame rfl rfl (fun _ _ => rfl) ?_
    intro t call i _ _ _ hid hstage
    -- the entry of the command is still there
    rw [hpc] at hstage
    rw [hid] at hnone
    exact absurd hnone hstage.1
  | @removes j written task entry hj hpc _ hentry =>
    refine h.finishes ht hj rfl hsame rfl rfl
      (fun uuid huuid => Function.update_of_ne huuid ..) ?_
    intro t call i _ hcall hpct hid hstage
    obtain ⟨hheld, hcounted, hanswered⟩ := Log.record_stage
      { s.process.setFinish j task (.count entry.2) with
        msgIdHandlerSectorIdx := Function.update s.process.msgIdHandlerSectorIdx
          (.fromRequest task.requestIdentifier) none
        handlerLock := some j } written hj call
    rw [hpc] at hstage hcounted hanswered
    refine ⟨?_, ?_, hcounted.trans hstage.2.1, hanswered.mpr (Or.inl hstage.2.2)⟩
    · -- the entry is that of the command
      obtain ⟨u, callu, hcallu, hidu, hsector, hpcu, -⟩ := ht.mapped.entry _ _ hentry
      have hlive : s.process.pcs u ≠ .lost := by
        rcases hpcu with hpcu | hpcu <;> simp [hpcu]
      have hut : u = t := ht.numbered.distinct u t callu call hcallu hcall hlive (by simp [hpct])
        ((Uuid.fromRequest_injective hidu).trans hid)
      rw [hut, hcall, Option.some.injEq] at hcallu
      rw [hsector, hcallu]
    · rw [hheld, hid]
      exact not_not.mpr (Function.update_self ..)
  | @counts j written task sector entry hj hpc _ hentry =>
    refine h.finishes ht hj rfl hsame rfl rfl (fun _ _ => rfl) ?_
    intro t call i _ _ _ hid hstage
    obtain ⟨hheld, hcounted, hanswered⟩ := Log.record_stage
      { s.process.setFinish j task (.notify sector) with
        sectorCounters :=
          Function.update s.process.sectorCounters sector (some (entry.1, entry.2 + 1))
        countersLock := some j } written hj call
    rw [hpc] at hstage hcounted hanswered
    obtain ⟨hsector, hnot, hnone, hans⟩ := hstage
    refine ⟨⟨hheld.not.mpr hnot, hcounted.trans ?_⟩, hanswered.mpr (Or.inl hans)⟩
    rw [hnone, hid, hsector]
    rfl
  | @notifies j written task sector hj hpc =>
    refine h.finishes ht hj rfl (fun t i => ?_) rfl rfl (fun _ _ => rfl) ?_
    · show (s.process.wake sector t = _ ↔ _) ∧ (s.process.wake sector t = _ ↔ _)
      rcases wake_cases (s := s.process) sector t with heq | ⟨c, hc, heq⟩
      · rw [heq]
        exact hsame t i
      · rw [heq, hc]
        exact ⟨iff_of_false ClientPc.noConfusion ClientPc.noConfusion,
          iff_of_false ClientPc.noConfusion ClientPc.noConfusion⟩
    · intro t call i _ _ _ _ hstage
      obtain ⟨hheld, hcounted, hanswered⟩ := Log.record_stage
        { s.process.setFinish j task .done with
          pcs := s.process.wake sector
          handlerLock := none
          countersLock := none } written hj call
      rw [hpc] at hstage hcounted hanswered
      exact Or.inl ⟨⟨hheld.not.mpr hstage.1.1, hcounted.trans hstage.1.2⟩,
        hanswered.mpr (Or.inl hstage.2)⟩
  | crash => exact .of_lost (fun _ => rfl) rfl rfl rfl rfl
  | restart hrestart =>
    have haside := restart_aside hrestart
    refine h.frame (fun _ _ hu => haside.calls ▸ hu) (fun _ _ hu => haside.pcs ▸ hu)
      (fun _ _ _ hu hi => ⟨haside.calls ▸ hu, ?_⟩) haside.handlers haside.finishing rfl rfl rfl rfl
      hfired
    change process.pcs _ = _ ∨ process.pcs _ = _ at hi
    rw [haside.pcs] at hi
    exact hi

end Executor
end AtomicDiscDrive
