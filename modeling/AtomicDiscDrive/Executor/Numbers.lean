import AtomicDiscDrive.Executor.Tickets

/-!
# The numbers of tickets

A task keeps its place among the tickets of its sector while it waits, until its command is
counted (`Numbered`). Each kind of step has a lemma here.
-/

namespace AtomicDiscDrive
namespace Executor

open Utils

variable {s s' : Log}

/-! ## Reading the history -/

theorem Log.isOn_iff {sector : SectorIdx} {t : Callback} :
    s.isOn sector t = true ↔ ∃ call, s.process.calls[t]? = some call ∧ call.sector = sector := by
  simp only [Log.isOn, Option.any_eq_true, beq_iff_eq]

theorem Log.isDone_iff {t : Callback} : s.isDone t = true ↔
    ∃ call, s.process.calls[t]? = some call ∧
      ∃ x ∈ s.counted, x.2.1 = call.cmd.header.requestIdentifier := by
  simp only [Log.isDone, Option.any_eq_true, List.any_eq_true, beq_iff_eq]

theorem Log.mem_queue {sector : SectorIdx} {t : Callback} :
    t ∈ s.queue sector ↔ t ∈ s.tickets ∧ s.isOn sector t = true := List.mem_filter

theorem Numbered.nodup_queue (h : Numbered s) (sector : SectorIdx) : (s.queue sector).Nodup :=
  h.nodup.filter _

/-- A call is in the queue of one sector, at one place. -/
theorem Numbered.index_unique (h : Numbered s) {sector : SectorIdx} {j k : ℕ} {t : Callback}
    (hj : (s.queue sector)[j]? = some t) (hk : (s.queue sector)[k]? = some t) : j = k := by
  have hlt : j < (s.queue sector).length := (List.getElem?_eq_some_iff.mp hj).1
  exact (List.getElem?_inj hlt (h.nodup_queue sector)).mp (hj.trans hk.symm)

/-- A call with a ticket has its place. -/
theorem Numbered.exists_place (h : Numbered s) {t : Callback} {call : Call}
    (hcall : s.process.calls[t]? = some call) (hlost : s.process.pcs t ≠ .lost)
    (hticket : s.process.pcs t ≠ .ticket) :
    ∃ k : ℕ, (s.queue call.sector)[k]? = some t ∧
      Place (s.process.counters call.sector).2 k (s.isDone t) (s.process.pcs t) := by
  have hmem : t ∈ s.queue call.sector :=
    Log.mem_queue.mpr ⟨(h.taken t).mpr ⟨hlost, hticket⟩, Log.isOn_iff.mpr ⟨call, hcall, rfl⟩⟩
  obtain ⟨k, hk⟩ := List.getElem?_of_mem hmem
  exact ⟨k, hk, h.place call.sector k t hk⟩

/-- What is in a queue. -/
theorem Numbered.of_queue (h : Numbered s) {sector : SectorIdx} {k : ℕ} {t : Callback}
    (hk : (s.queue sector)[k]? = some t) : t < s.process.calls.length ∧
      s.process.pcs t ≠ .lost ∧ s.process.pcs t ≠ .ticket ∧
      ∃ call, s.process.calls[t]? = some call ∧ call.sector = sector := by
  obtain ⟨hmem, hon⟩ := Log.mem_queue.mp (List.mem_of_getElem? hk)
  obtain ⟨call, hcall, hsector⟩ := Log.isOn_iff.mp hon
  obtain ⟨hlost, hticket⟩ := (h.taken t).mp hmem
  exact ⟨(List.getElem?_eq_some_iff.mp hcall).1, hlost, hticket, call, hcall, hsector⟩

/-- **Counters are small**: no more tickets are taken, and no more commands counted, than there
are calls. -/
theorem Numbered.counters_le_calls (h : Numbered s) (sector : SectorIdx) :
    (s.process.counters sector).1 ≤ s.process.calls.length ∧
      (s.process.counters sector).2 ≤ s.process.calls.length := by
  have hsub : s.queue sector ⊆ List.range s.process.calls.length := by
    intro t ht
    obtain ⟨k, hk⟩ := List.getElem?_of_mem ht
    exact List.mem_range.mpr (h.of_queue hk).1
  have hlen := ((h.nodup_queue sector).subperm hsub).length_le
  rw [List.length_range] at hlen
  rw [h.counter]
  exact ⟨hlen, (h.total sector).trans hlen⟩

/-! ## Tickets -/

theorem queue_congr (hcalls : ∀ t ∈ s.tickets, s'.process.calls[t]? = s.process.calls[t]?)
    (htickets : s'.tickets = s.tickets) (sector : SectorIdx) : s'.queue sector = s.queue sector := by
  unfold Log.queue Log.isOn
  rw [htickets]
  apply List.filter_congr
  intro t ht
  rw [hcalls t ht]

theorem isDone_congr {t : Callback} (hcalls : s'.process.calls[t]? = s.process.calls[t]?)
    (hcounted : s'.counted = s.counted) : s'.isDone t = s.isDone t := by
  unfold Log.isDone
  rw [hcalls, hcounted]

/-- Steps in which no ticket is taken or counted: tasks keep their places. -/
theorem Numbered.frame (h : Numbered s) (hcalls : s'.process.calls = s.process.calls)
    (hcounters : s'.process.sectorCounters = s.process.sectorCounters)
    (htickets : s'.tickets = s.tickets) (hcounted : s'.counted = s.counted)
    (haccepted : ∀ (t : ℕ) call, s.process.calls[t]? = some call → s.process.pcs t ≠ .lost →
      call.cmd.header.requestIdentifier ∉ s'.rejected)
    (hlost : ∀ t, s'.process.pcs t = .lost ↔ s.process.pcs t = .lost)
    (hticket : ∀ t, s'.process.pcs t = .ticket ↔ s.process.pcs t = .ticket)
    (hplace : ∀ (t k : ℕ) call, s.process.calls[t]? = some call →
      Place (s.process.counters call.sector).2 k (s.isDone t) (s.process.pcs t) →
      Place (s.process.counters call.sector).2 k (s.isDone t) (s'.process.pcs t)) :
    Numbered s' := by
  have hqueue : ∀ sector, s'.queue sector = s.queue sector :=
    queue_congr (fun t _ => by rw [hcalls]) htickets
  have hdone : ∀ t, s'.isDone t = s.isDone t := fun t => isDone_congr (by rw [hcalls]) hcounted
  refine ⟨?_, ?_, ?_, ?_, ?_, ?_, ?_, ?_⟩
  · intro t ht
    rw [hcalls] at ht
    exact (hlost t).mpr (h.known t ht)
  · intro t
    rw [htickets, Ne, Ne, hlost, hticket]
    exact h.taken t
  · rw [htickets]
    exact h.nodup
  · intro t u call call' ht hu hlt hlu
    rw [hcalls] at ht hu
    rw [Ne, hlost] at hlt hlu
    exact h.distinct t u call call' ht hu hlt hlu
  · intro t call ht hlt
    rw [hcalls] at ht
    rw [Ne, hlost] at hlt
    exact haccepted t call ht hlt
  · intro sector
    rw [hqueue, Process.counters, hcounters]
    exact h.counter sector
  · intro sector
    rw [hqueue, Process.counters, hcounters]
    exact h.total sector
  · intro sector k t hk
    rw [hqueue] at hk
    rw [hdone, Process.counters, hcounters]
    obtain ⟨-, -, -, call, hcall, rfl⟩ := h.of_queue hk
    exact hplace t k call hcall (h.place call.sector k t hk)

/-- Steps in which no ticket is taken or counted, and no task moves. -/
theorem Numbered.of_same (h : Numbered s) (hcalls : s'.process.calls = s.process.calls)
    (hpcs : s'.process.pcs = s.process.pcs)
    (hcounters : s'.process.sectorCounters = s.process.sectorCounters)
    (htickets : s'.tickets = s.tickets) (hcounted : s'.counted = s.counted)
    (haccepted : ∀ (t : ℕ) call, s.process.calls[t]? = some call → s.process.pcs t ≠ .lost →
      call.cmd.header.requestIdentifier ∉ s'.rejected) : Numbered s' := by
  apply h.frame hcalls hcounters htickets hcounted haccepted
  · intro t
    rw [hpcs]
  · intro t
    rw [hpcs]
  · intro t k call _ hplace
    rw [hpcs]
    exact hplace

/-- The task of call `t` moves, and keeps its place. -/
theorem Numbered.move (h : Numbered s) {t : Callback} {pc : ClientPc}
    (hcalls : s'.process.calls = s.process.calls)
    (hpcs : s'.process.pcs = Function.update s.process.pcs t pc)
    (hcounters : s'.process.sectorCounters = s.process.sectorCounters)
    (htickets : s'.tickets = s.tickets) (hcounted : s'.counted = s.counted)
    (hrejected : s'.rejected = s.rejected)
    (hold : s.process.pcs t ≠ .lost ∧ s.process.pcs t ≠ .ticket) (hnew : pc ≠ .lost ∧ pc ≠ .ticket)
    (hplace : ∀ (k : ℕ) call, s.process.calls[t]? = some call →
      Place (s.process.counters call.sector).2 k (s.isDone t) (s.process.pcs t) →
      Place (s.process.counters call.sector).2 k (s.isDone t) pc) : Numbered s' := by
  apply h.frame hcalls hcounters htickets hcounted (by rw [hrejected]; exact h.accepted)
  · intro u
    rw [hpcs]
    by_cases hut : u = t
    · rw [hut, Function.update_self]
      exact iff_of_false hnew.1 hold.1
    · rw [Function.update_of_ne hut]
  · intro u
    rw [hpcs]
    by_cases hut : u = t
    · rw [hut, Function.update_self]
      exact iff_of_false hnew.2 hold.2
    · rw [Function.update_of_ne hut]
  · intro u k call hcall hold'
    rw [hpcs]
    by_cases hut : u = t
    · subst hut
      rw [Function.update_self]
      exact hplace k call hcall hold'
    · rw [Function.update_of_ne hut]
      exact hold'

/-- Waiting tasks of a sector are woken. -/
theorem Numbered.wake (h : Numbered s) {sector : SectorIdx}
    (hcalls : s'.process.calls = s.process.calls)
    (hpcs : s'.process.pcs = s.process.wake sector)
    (hcounters : s'.process.sectorCounters = s.process.sectorCounters)
    (htickets : s'.tickets = s.tickets) (hcounted : s'.counted = s.counted)
    (hrejected : s'.rejected = s.rejected) : Numbered s' := by
  apply h.frame hcalls hcounters htickets hcounted (by rw [hrejected]; exact h.accepted)
  · intro t
    rw [hpcs]
    rcases wake_cases (s := s.process) sector t with heq | ⟨c, hc, heq⟩
    · rw [heq]
    · rw [heq, hc]
      exact iff_of_false ClientPc.noConfusion ClientPc.noConfusion
  · intro t
    rw [hpcs]
    rcases wake_cases (s := s.process) sector t with heq | ⟨c, hc, heq⟩
    · rw [heq]
    · rw [heq, hc]
      exact iff_of_false ClientPc.noConfusion ClientPc.noConfusion
  · intro t k call _ hplace
    rw [hpcs]
    rcases wake_cases (s := s.process) sector t with heq | ⟨c, hc, heq⟩
    · rw [heq]
      exact hplace
    · rw [heq]
      rw [hc] at hplace
      exact hplace

/-- A new call. -/
theorem Numbered.invoke (h : Numbered s) {call : Call}
    (hcalls : s'.process.calls = s.process.calls ++ [call])
    (hpcs : s'.process.pcs = Function.update s.process.pcs s.process.calls.length .ticket)
    (hcounters : s'.process.sectorCounters = s.process.sectorCounters)
    (htickets : s'.tickets = s.tickets) (hcounted : s'.counted = s.counted)
    (hrejected : s'.rejected = s.rejected)
    (hunused : s.Unused call.cmd.header.requestIdentifier)
    (haccepted : call.cmd.header.requestIdentifier ∉ s.rejected) : Numbered s' := by
  have hold : ∀ t < s.process.calls.length, s'.process.calls[t]? = s.process.calls[t]? ∧
      s'.process.pcs t = s.process.pcs t := by
    intro t ht
    rw [hcalls, hpcs, List.getElem?_append_left ht, Function.update_of_ne (Nat.ne_of_lt ht)]
    exact ⟨rfl, rfl⟩
  have hknown : ∀ t ∈ s.tickets, t < s.process.calls.length := by
    intro t ht
    by_contra hge
    exact ((h.taken t).mp ht).1 (h.known t (Nat.not_lt.mp hge))
  have hqueue : ∀ sector, s'.queue sector = s.queue sector :=
    queue_congr (fun t ht => (hold t (hknown t ht)).1) htickets
  -- a live call is an old one, or the new one
  have hcases : ∀ (t : ℕ) call', s'.process.calls[t]? = some call' → s'.process.pcs t ≠ .lost →
      (s.process.calls[t]? = some call' ∧ s.process.pcs t ≠ .lost ∧ t < s.process.calls.length) ∨
        (t = s.process.calls.length ∧ call' = call) := by
    intro t call' ht hlost
    by_cases hlt : t < s.process.calls.length
    · rw [(hold t hlt).1] at ht
      rw [(hold t hlt).2] at hlost
      exact Or.inl ⟨ht, hlost, hlt⟩
    · have hlen := (List.getElem?_eq_some_iff.mp ht).1
      rw [hcalls, List.length_append, List.length_singleton] at hlen
      have heq : t = s.process.calls.length := by omega
      rw [hcalls, heq, List.getElem?_append_right (le_refl _), Nat.sub_self] at ht
      have hcall : call = call' := by simpa using ht
      exact Or.inr ⟨heq, hcall.symm⟩
  refine ⟨?_, ?_, ?_, ?_, ?_, ?_, ?_, ?_⟩
  · intro t ht
    rw [hcalls, List.length_append, List.length_singleton] at ht
    rw [hpcs, Function.update_of_ne (by omega)]
    exact h.known t (by omega)
  · intro t
    rw [htickets]
    by_cases hlt : t < s.process.calls.length
    · rw [(hold t hlt).2]
      exact h.taken t
    · constructor
      · intro ht
        exact absurd (hknown t ht) hlt
      · rintro ⟨hlost, hticket⟩
        exfalso
        rw [hpcs] at hlost hticket
        by_cases heq : t = s.process.calls.length
        · rw [heq, Function.update_self] at hticket
          exact hticket rfl
        · rw [Function.update_of_ne heq] at hlost
          exact hlost (h.known t (Nat.not_lt.mp hlt))
  · rw [htickets]
    exact h.nodup
  · intro t u callt callu ht hu hlt hlu hid
    rcases hcases t callt ht hlt with ⟨ht, hlt, htlt⟩ | ⟨rfl, rfl⟩
    · rcases hcases u callu hu hlu with ⟨hu, hlu, -⟩ | ⟨rfl, rfl⟩
      · exact h.distinct t u callt callu ht hu hlt hlu hid
      · exact absurd hid (hunused t htlt hlt callt ht)
    · rcases hcases u callu hu hlu with ⟨hu, hlu, hult⟩ | ⟨rfl, rfl⟩
      · exact absurd hid.symm (hunused u hult hlu callu hu)
      · rfl
  · intro t callt ht hlt
    rw [hrejected]
    rcases hcases t callt ht hlt with ⟨ht, hlt, -⟩ | ⟨rfl, rfl⟩
    · exact h.accepted t callt ht hlt
    · exact haccepted
  · intro sector
    rw [hqueue, Process.counters, hcounters]
    exact h.counter sector
  · intro sector
    rw [hqueue, Process.counters, hcounters]
    exact h.total sector
  · intro sector k t hk
    rw [hqueue] at hk
    obtain ⟨hlt, -⟩ := h.of_queue hk
    rw [isDone_congr (hold t hlt).1 hcounted, (hold t hlt).2, Process.counters, hcounters]
    exact h.place sector k t hk

/-- A task takes its ticket: it comes last in the queue of its sector. -/
theorem Numbered.ticket (h : Numbered s) {t : Callback} {call : Call}
    (hcall : s.process.calls[t]? = some call) (hpc : s.process.pcs t = .ticket)
    (hdone : s.isDone t = false) (hcalls : s'.process.calls = s.process.calls)
    (hpcs : s'.process.pcs =
      Function.update s.process.pcs t (.check (s.process.counters call.sector).1))
    (hcounters : s'.process.sectorCounters = Function.update s.process.sectorCounters call.sector
      (some ((s.process.counters call.sector).1 + 1, (s.process.counters call.sector).2)))
    (htickets : s'.tickets = s.tickets ++ [t]) (hcounted : s'.counted = s.counted)
    (hrejected : s'.rejected = s.rejected) : Numbered s' := by
  have hnot : t ∉ s.tickets := fun ht => ((h.taken t).mp ht).2 hpc
  have hon : ∀ sector u, s'.isOn sector u = s.isOn sector u := by
    intro sector u
    unfold Log.isOn
    rw [hcalls]
  have hdone' : ∀ u, s'.isDone u = s.isDone u := fun u => isDone_congr (by rw [hcalls]) hcounted
  -- the ticket goes to the end of the queue of its sector, and to no other queue
  have hqueue : ∀ sector, s'.queue sector =
      s.queue sector ++ if call.sector = sector then [t] else [] := by
    intro sector
    unfold Log.queue
    rw [htickets, show s'.isOn sector = s.isOn sector from funext (hon sector), List.filter_append,
      List.filter_singleton]
    by_cases hsector : call.sector = sector
    · rw [if_pos hsector, Log.isOn_iff.mpr ⟨call, hcall, hsector⟩, cond_true]
    · have hoff : s.isOn sector t = false := by
        rw [Bool.eq_false_iff]
        intro hon'
        obtain ⟨call', hcall', hsector'⟩ := Log.isOn_iff.mp hon'
        rw [hcall, Option.some.injEq] at hcall'
        exact hsector (hcall' ▸ hsector')
      rw [if_neg hsector, hoff, cond_false]
  have htotal : ∀ sector, (s'.process.counters sector).2 = (s.process.counters sector).2 := by
    intro sector
    unfold Process.counters
    rw [hcounters]
    by_cases hsector : sector = call.sector
    · rw [hsector, Function.update_self]
      rfl
    · rw [Function.update_of_ne hsector]
  have hother : ∀ u, u ≠ t → s'.process.pcs u = s.process.pcs u := fun u hu => by
    rw [hpcs, Function.update_of_ne hu]
  have hself : s'.process.pcs t = .check (s.process.counters call.sector).1 := by
    rw [hpcs, Function.update_self]
  have hlost : ∀ u, s'.process.pcs u ≠ .lost → s.process.pcs u ≠ .lost := by
    intro u hu
    by_cases hut : u = t
    · rw [hut, hpc]
      exact ClientPc.noConfusion
    · rw [← hother u hut]
      exact hu
  refine ⟨?_, ?_, ?_, ?_, ?_, ?_, ?_, ?_⟩
  · intro u hu
    rw [hcalls] at hu
    rw [hother u (by
      rintro rfl
      exact absurd (List.getElem?_eq_some_iff.mp hcall).1 (Nat.not_lt.mpr hu))]
    exact h.known u hu
  · intro u
    rw [htickets, List.mem_append, List.mem_singleton]
    by_cases hut : u = t
    · rw [hut, hself]
      exact iff_of_true (Or.inr rfl) ⟨ClientPc.noConfusion, ClientPc.noConfusion⟩
    · rw [hother u hut, or_iff_left hut]
      exact h.taken u
  · rw [htickets, List.nodup_append]
    refine ⟨h.nodup, List.nodup_singleton t, fun u hu v hv => ?_⟩
    rw [List.mem_singleton.mp hv]
    rintro rfl
    exact hnot hu
  · intro u v call' call'' hu hv hlu hlv
    rw [hcalls] at hu hv
    exact h.distinct u v call' call'' hu hv (hlost u hlu) (hlost v hlv)
  · intro u call' hu hlu
    rw [hcalls] at hu
    rw [hrejected]
    exact h.accepted u call' hu (hlost u hlu)
  · intro sector
    rw [hqueue, List.length_append]
    unfold Process.counters
    rw [hcounters]
    by_cases hsector : call.sector = sector
    · subst hsector
      rw [Function.update_self, if_pos rfl, ← h.counter call.sector]
      rfl
    · rw [Function.update_of_ne (Ne.symm hsector), if_neg hsector]
      exact h.counter sector
  · intro sector
    rw [htotal, hqueue, List.length_append]
    exact Nat.le_add_right_of_le (h.total sector)
  · intro sector k u hk
    rw [hdone', htotal]
    rw [hqueue] at hk
    by_cases hlt : k < (s.queue sector).length
    · -- a ticket from before keeps its place
      rw [List.getElem?_append_left hlt] at hk
      have hut : u ≠ t := by
        rintro rfl
        exact (h.of_queue hk).2.2.1 hpc
      rw [hother u hut]
      exact h.place sector k u hk
    · -- the new ticket is the number of tickets before it
      rw [List.getElem?_append_right (Nat.not_lt.mp hlt)] at hk
      by_cases hsector : call.sector = sector
      · subst hsector
        rw [if_pos rfl] at hk
        have hidx : k - (s.queue call.sector).length < 1 := (List.getElem?_eq_some_iff.mp hk).1
        have hkeq : k = (s.queue call.sector).length := by omega
        rw [List.mem_singleton.mp (List.mem_of_getElem? hk), hself]
        refine ⟨?_, ?_, hdone⟩
        · rw [h.counter, hkeq]
        · rw [hkeq]
          exact h.total call.sector
      · rw [if_neg hsector] at hk
        cases hk

/-- The total of a sector grows past the place of another task. -/
theorem Place.succ {total k : ℕ} {done : Bool} {pc : ClientPc} (h : Place total k done pc)
    (hk : k ≠ total) : Place (total + 1) k done pc := by
  cases pc with
  | check c | yield c | parked c => exact ⟨h.1, by have := h.2.1; omega, h.2.2⟩
  | owner => exact absurd h.1 hk
  | index i | entered i => exact absurd h.1 hk
  | handed i =>
    refine ⟨Nat.le_succ_of_le h.1, h.2.trans ?_⟩
    have := h.1
    omega
  | ticket | lost => exact h

/-- A command that is with a register and not counted has the ticket that is served. -/
theorem Numbered.served (h : Numbered s) {t : Callback} {call : Call} {i : ℕ}
    (hcall : s.process.calls[t]? = some call) (hpc : s.process.pcs t = .handed i)
    (hdone : s.isDone t = false) :
    (s.queue call.sector)[(s.process.counters call.sector).2]? = some t := by
  obtain ⟨k, hk, hplace⟩ := h.exists_place hcall (by simp [hpc]) (by simp [hpc])
  rw [hdone, hpc] at hplace
  have hle : k ≤ (s.process.counters call.sector).2 := hplace.1
  have hlt : ¬k < (s.process.counters call.sector).2 := fun hlt => Bool.noConfusion (hplace.2.mpr hlt)
  rw [show (s.process.counters call.sector).2 = k by omega]
  exact hk

/-- When a command is counted, no other one is. -/
theorem Numbered.isDone_counts (h : Numbered s) {j : ℕ} {t u : Callback} {call : Call}
    (hcall : s.process.calls[t]? = some call) (hlive : s.process.pcs t ≠ .lost)
    (hcalls : s'.process.calls = s.process.calls)
    (hcounted : s'.counted =
      s.counted ++ [(j, call.cmd.header.requestIdentifier, call.sector)])
    (hlost : s.process.pcs u ≠ .lost) (hne : u ≠ t) : s'.isDone u = s.isDone u := by
  rw [Bool.eq_iff_iff, Log.isDone_iff, Log.isDone_iff, hcalls, hcounted]
  apply exists_congr
  intro callu
  apply and_congr_right
  intro hcallu
  constructor
  · rintro ⟨x, hx, hid⟩
    rcases List.mem_append.mp hx with hx | hx
    · exact ⟨x, hx, hid⟩
    · -- only the identifier of `t` is new
      rw [List.mem_singleton.mp hx] at hid
      exact absurd (h.distinct t u call callu hcall hcallu hlive hlost hid).symm hne
  · rintro ⟨x, hx, hid⟩
    exact ⟨x, List.mem_append_left _ hx, hid⟩

/-- A command is counted. -/
theorem Numbered.counts (h : Numbered s) {j : ℕ} {t : Callback} {call : Call} {i : ℕ}
    {entry : ℕ × ℕ} (hcall : s.process.calls[t]? = some call) (hpc : s.process.pcs t = .handed i)
    (hdone : s.isDone t = false) (hentry : s.process.sectorCounters call.sector = some entry)
    (hcalls : s'.process.calls = s.process.calls) (hpcs : s'.process.pcs = s.process.pcs)
    (hcounters : s'.process.sectorCounters =
      Function.update s.process.sectorCounters call.sector (some (entry.1, entry.2 + 1)))
    (htickets : s'.tickets = s.tickets)
    (hcounted : s'.counted =
      s.counted ++ [(j, call.cmd.header.requestIdentifier, call.sector)])
    (hrejected : s'.rejected = s.rejected) : Numbered s' := by
  -- the command that is done is the one whose turn it was, at the place of the total
  have hserved := h.served hcall hpc hdone
  have hqueue : ∀ sector, s'.queue sector = s.queue sector :=
    queue_congr (fun t _ => by rw [hcalls]) htickets
  have heq : s.process.counters call.sector = entry := by
    unfold Process.counters
    rw [hentry]
    rfl
  have hself : s'.process.counters call.sector = (entry.1, entry.2 + 1) := by
    unfold Process.counters
    rw [hcounters, Function.update_self]
    rfl
  have hother : ∀ sector, sector ≠ call.sector →
      s'.process.counters sector = s.process.counters sector := by
    intro sector hne
    unfold Process.counters
    rw [hcounters, Function.update_of_ne hne]
  rw [heq] at hserved
  have hlt : entry.2 < (s.queue call.sector).length := (List.getElem?_eq_some_iff.mp hserved).1
  have hdone' : ∀ u, s.process.pcs u ≠ .lost → u ≠ t → s'.isDone u = s.isDone u := fun u =>
    h.isDone_counts hcall (by simp [hpc]) hcalls hcounted
  have hdonet : s'.isDone t = true := by
    rw [Log.isDone_iff, hcalls, hcounted]
    exact ⟨call, hcall, _, List.mem_append_right _ (List.mem_singleton_self _), rfl⟩
  refine ⟨?_, ?_, ?_, ?_, ?_, ?_, ?_, ?_⟩
  · rw [hcalls, hpcs]
    exact h.known
  · rw [htickets, hpcs]
    exact h.taken
  · rw [htickets]
    exact h.nodup
  · rw [hcalls, hpcs]
    exact h.distinct
  · rw [hcalls, hpcs, hrejected]
    exact h.accepted
  · intro sector
    rw [hqueue, ← h.counter sector]
    by_cases hsector : sector = call.sector
    · rw [hsector, hself, heq]
    · rw [hother sector hsector]
  · intro sector
    rw [hqueue]
    by_cases hsector : sector = call.sector
    · rw [hsector, hself]
      exact hlt
    · rw [hother sector hsector]
      exact h.total sector
  · intro sector k u hk
    rw [hqueue] at hk
    obtain ⟨-, hlost, -, callu, hcallu, hsectoru⟩ := h.of_queue hk
    have hplace := h.place sector k u hk
    rw [hpcs]
    by_cases hsector : sector = call.sector
    · subst hsector
      rw [hself]
      rw [heq] at hplace
      by_cases hut : u = t
      · -- its own ticket is below the new total
        have hkeq : k = entry.2 := h.index_unique hk (hut ▸ hserved)
        rw [hut, hdonet, hpc, hkeq]
        exact ⟨Nat.le_succ _, iff_of_true rfl (Nat.lt_succ_self _)⟩
      · -- another ticket of the sector is not at the old total
        rw [hdone' u hlost hut]
        apply hplace.succ
        rintro rfl
        rw [hk, Option.some.injEq] at hserved
        exact hut hserved
    · rw [hother sector hsector, hdone' u hlost]
      · exact hplace
      · rintro rfl
        rw [hcall, Option.some.injEq] at hcallu
        exact hsector (hcallu ▸ hsectoru).symm

/-- After a crash there are no tickets. -/
theorem Numbered.of_lost (hpcs : ∀ t, s.process.pcs t = .lost)
    (hcounters : ∀ sector, s.process.sectorCounters sector = none) (htickets : s.tickets = []) :
    Numbered s := by
  have hqueue : ∀ sector, s.queue sector = [] := by
    intro sector
    unfold Log.queue
    rw [htickets]
    rfl
  refine ⟨fun t _ => hpcs t, ?_, ?_, ?_, ?_, ?_, ?_, ?_⟩
  · intro t
    rw [htickets]
    exact iff_of_false List.not_mem_nil fun hne => hne.1 (hpcs t)
  · rw [htickets]
    exact List.nodup_nil
  · intro t u call call' _ _ hlost
    exact absurd (hpcs t) hlost
  · intro t call _ hlost
    exact absurd (hpcs t) hlost
  · intro sector
    rw [hqueue, Process.counters, hcounters]
    rfl
  · intro sector
    rw [hqueue, Process.counters, hcounters]
    exact Nat.zero_le _
  · intro sector k t hk
    rw [hqueue] at hk
    cases hk

end Executor
end AtomicDiscDrive
