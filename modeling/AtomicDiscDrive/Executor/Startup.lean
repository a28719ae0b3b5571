import AtomicDiscDrive.Executor.Durability
import AtomicDiscDrive.Executor.Turns

/-!
# The start-up loop does not wait for itself

Commands on one sector take turns, so two records are never about the same sector
(`Apart`): a restart collects at most one command for each. The sector of a recovered
command that has not been handed over has not been touched since the restart (`Untouched`),
so its ticket is the first one and the start-up loop goes on (`recovery_not_blocked`).

A recovered write that is stored by another register has two records. After another crash
the start-up loop dispatches it twice, and waits for the second one before it accepts a
connection (`recovery_waits_for_itself`).
-/

namespace AtomicDiscDrive
namespace Executor

open Utils

variable {N R : ℕ} {selfIdent : UInt8} {s s' : Process} {a : Action}

/-- The sector of a recovered command. -/
abbrev Recovered.sector (r : Recovered) : SectorIdx := r.cmd.header.sectorIdx

/-! ## Commands that have received a register -/

/-- Call `t` has received a register, and its callback has not fired. -/
def Process.Busy (s : Process) (t : Callback) : Prop :=
  (s.pcs t).taken = true ∧ t ∉ s.bank.fired.map Prod.fst

/-- **Commands on one sector take turns.** -/
def Exclusive (s : Process) : Prop :=
  ∀ (t u : ℕ) c d, s.calls[t]? = some c → s.calls[u]? = some d → t ≠ u → s.Busy t → s.Busy u →
    c.sector ≠ d.sector

/-- Steps in which no command receives a register. -/
theorem Exclusive.mono (h : Exclusive s)
    (hbusy : ∀ (t : ℕ) c, s'.calls[t]? = some c → s'.Busy t → s.calls[t]? = some c ∧ s.Busy t) :
    Exclusive s' := by
  intro t u c d hc hd hne ht hu
  obtain ⟨hc, ht⟩ := hbusy t c hc ht
  obtain ⟨hd, hu⟩ := hbusy u d hd hu
  exact h t u c d hc hd hne ht hu

theorem Exclusive.of_pcs (h : Exclusive s) (hcalls : s'.calls = s.calls)
    (htaken : ∀ t, (s'.pcs t).taken = true → (s.pcs t).taken = true)
    (hfired : ∀ f ∈ s.bank.fired, f ∈ s'.bank.fired) : Exclusive s' := by
  refine h.mono fun t c hc ht => ⟨hcalls ▸ hc, htaken t ht.1, fun hmem => ht.2 ?_⟩
  obtain ⟨f, hf, heq⟩ := List.mem_map.mp hmem
  exact List.mem_map.mpr ⟨f, hfired f hf, heq⟩

theorem exclusive_invoke (h : Exclusive s) {call : Call} (hi : Invokes s s' call) :
    Exclusive s' := by
  refine h.mono fun t c hc ht => ?_
  have hne : t ≠ s.calls.length := by
    rintro rfl
    have htaken := ht.1
    rw [hi.pcs, Function.update_self] at htaken
    cases htaken
  rcases hi.getElem_cases hc with hc | ⟨heq, _⟩
  · refine ⟨hc, ?_, ?_⟩
    · rw [← hi.pcs_of_ne hne]
      exact ht.1
    · rw [← hi.bank]
      exact ht.2
  · exact absurd heq hne

theorem exclusive_take (h : Exclusive s) {t : Callback} {i : ℕ} {call : Call}
    (hcall : s.calls[t]? = some call)
    (hturns : ∀ u < s.calls.length, u ≠ t → (s.pcs u).taken = true →
      u ∉ s.bank.fired.map Prod.fst → ∀ other ∈ s.calls[u]?, other.sector ≠ call.sector)
    (hbank : s'.bank = s.bank) (hcalls : s'.calls = s.calls)
    (hpcs : s'.pcs = Function.update s.pcs t (.index i)) : Exclusive s' := by
  have hold : ∀ u ≠ t, s'.Busy u → s.Busy u := fun u hu hbusy => by
    obtain ⟨htaken, hfired⟩ := hbusy
    rw [hpcs, Function.update_of_ne hu] at htaken
    rw [hbank] at hfired
    exact ⟨htaken, hfired⟩
  have hother : ∀ (u : ℕ) d, s.calls[u]? = some d → u ≠ t → s'.Busy u → d.sector ≠ call.sector :=
    fun u d hd hu hbusy => by
      obtain ⟨htaken, hfired⟩ := hold u hu hbusy
      exact hturns u (List.getElem?_eq_some_iff.mp hd).1 hu htaken hfired d hd
  intro u v c d hc hd hne hu hv
  rw [hcalls] at hc hd
  by_cases hut : u = t
  · subst hut
    rw [hcall] at hc
    cases hc
    exact (hother v d hd hne.symm hv).symm
  · by_cases hvt : v = t
    · subst hvt
      rw [hcall] at hd
      cases hd
      exact hother u c hc hut hu
    · exact h u v c d hc hd hne (hold u hut hu) (hold v hvt hv)

theorem exclusive_step (hocc : Occupied N selfIdent s) (h : Exclusive s) (hturns : s.TakesTurns a)
    (hstep : s.step N R selfIdent a = some s') : Exclusive s' := by
  cases step_event hstep with
  | shuffle _ hs =>
    exact h.of_pcs hs.calls (fun t ht => hs.taken t ▸ ht) fun f hf => by rw [hs.bank]; exact hf
  | submit _ => exact exclusive_invoke h (invokes_submit s _)
  | dispatch _ _ => exact exclusive_invoke h (invokes_dispatch s _ _ _)
  | @take t call i _ hcall hpc hready =>
    have htakes : (t, i) ∈ s.takes (.client t) := by simp [Process.takes, hpc, hready]
    exact exclusive_take h hcall (hturns (t, i) htakes call hcall) rfl rfl rfl
  | @hand t call i hcall hpc =>
    refine h.of_pcs rfl (fun u hu => ?_) fun f hf => hf
    by_cases hut : u = t
    · subst hut
      rw [hpc]
      rfl
    · have hsame : (s.move t (.handed i)).pcs u = s.pcs u := Function.update_of_ne hut ..
      exact hsame ▸ hu
  | receive _ hrec =>
    obtain ⟨_, _, hr⟩ := hocc.reception hrec
    refine h.of_pcs rfl (fun t ht => ht) fun f hf => ?_
    show f ∈ Bank.fired _
    rw [hr.receives.fired]
    exact hf
  | @call i _ _ _ hcall =>
    exact h.of_pcs rfl (fun t ht => ht) fun f hf =>
      (Bank.call_cases hcall (hocc.register i).steady).fired_subset hf
  | crash => exact h.mono fun t c _ ht => absurd ht.1 Bool.noConfusion
  | restart hrestart =>
    refine h.mono fun t c _ ht => ?_
    have htaken := ht.1
    rw [(hocc.restarted hrestart).pcs t] at htaken
    cases htaken
  | _ => exact h.of_pcs rfl (fun t ht => ht) fun f hf => hf

/-! ## Records -/

/-- **No two records are about one sector.** -/
def Apart (s : Process) : Prop :=
  ∀ i j ri rj, i ≠ j → s.recordAt i = some ri → s.recordAt j = some rj → ri.sector ≠ rj.sector

/-- A call that is with register `i` is busy. -/
theorem Placed.busy (h : Placed s) {i : ℕ} {t : Callback}
    (hwith : s.grants i t ∨ t ∈ s.mail i ∨ s.bank.inHand i = some t) :
    s.Busy t ∧ ((s.pcs t).grant = some i ∨ s.pcs t = .handed i) := by
  have hplace : (s.pcs t).grant = some i ∨ s.pcs t = .handed i := by
    rcases hwith with hg | hwith
    · exact .inl hg
    · exact .inr (h.handed i t hwith)
  refine ⟨⟨?_, fun hmem => ?_⟩, hplace⟩
  · rcases hplace with hg | hp
    · cases hpc : s.pcs t <;> rw [hpc] at hg <;> first | rfl | cases hg
    · rw [hp]
      rfl
  · obtain ⟨f, hf, rfl⟩ := List.mem_map.mp hmem
    obtain ⟨_, hpc, hnowhere⟩ := h.fired f hf
    rcases hwith with hg | hm | hin
    · rcases hpc with ⟨j, hp⟩ | hl
      · exact not_grants_of_handed (.inl hp) hg
      · exact not_grants_of_handed (j := 0) (.inr hl) hg
    · exact (hnowhere i).1 hm
    · exact (hnowhere i).2 hin

/-- A record belongs to a register that is vacant, or busy with a call on its sector. -/
theorem Ledger.holder_of_record (h : Ledger R s) (hplaced : Placed s) {i : ℕ} {r : Recovered}
    (hr : s.recordAt i = some r) :
    s.HeldBy i none ∨ ∃ t call, s.calls[t]? = some call ∧ call.sector = r.sector ∧ s.Busy t ∧
      ((s.pcs t).grant = some i ∨ s.pcs t = .handed i) := by
  cases h.records i with
  | vacant hv => exact .inl hv
  | @unstored t call hheld hcall hun hfresh hhome =>
    cases hs : call.source with
    | none =>
      rw [hfresh hs] at hr
      cases hr
    | some j =>
      rw [(hhome j hs).2] at hr
      cases hr
      refine .inr ⟨t, call, hcall, rfl, hplaced.busy ?_⟩
      rcases hun with hg | hm | ⟨_, _, hw, _⟩
      · exact .inl hg
      · exact .inr (.inl hm)
      · exact .inr (.inr (Bank.inHand_running_client hw))
  | writing hin hcall _ _ _ hrec =>
    rw [hrec] at hr
    cases hr
    exact .inr ⟨_, _, hcall, rfl, hplaced.busy (.inr (.inr hin))⟩
  | closing _ _ _ _ hrec =>
    rw [hrec] at hr
    cases hr
  | reading _ _ _ hrec =>
    rw [hrec] at hr
    cases hr

/-- Steps that add no record. -/
theorem Apart.mono (h : Apart s) (hrec : ∀ i r, s'.recordAt i = some r → s.recordAt i = some r) :
    Apart s' :=
  fun i j ri rj hij hi hj => h i j ri rj hij (hrec i ri hi) (hrec j rj hj)

/-- A new write is stored: no other register has a record of its sector. -/
theorem apart_open (hr : Recorded N R selfIdent s) (h : Apart s) (hex : Exclusive s)
    (hup : s.up = true) {i : ℕ} {t : Callback} {call : Call} (hc : CallStep s s' i)
    (hin : s.bank.inHand i = some t) (hcall : s.calls[t]? = some call)
    (hfresh : call.source = none) (hrec : s'.recordAt i = some ⟨call.operation, call.cmd, i⟩) :
    Apart s' := by
  obtain ⟨hbusy, hplace⟩ := hr.placed.busy (.inr (.inr hin))
  have hlost : s.pcs t ≠ .lost := by
    rw [hr.placed.handed i t (.inr hin)]
    exact ClientPc.noConfusion
  have hacc := hr.ledger.startup.fresh t call hcall hfresh hlost
  have hother : ∀ j rj, j ≠ i → s.recordAt j = some rj → rj.sector ≠ call.sector :=
    fun j rj hj hrj => by
      rcases hr.ledger.holder_of_record hr.placed hrj with hv | ⟨u, d, hd, hsector, hu, hplaceu⟩
      · rw [hr.ledger.no_record hup hacc hv] at hrj
        cases hrj
      · have hne : u ≠ t := by
          rintro rfl
          rw [hr.placed.handed i u (.inr hin)] at hplaceu
          rcases hplaceu with hg | hp
          · cases hg
          · cases hp
            exact hj rfl
        rw [← hsector]
        exact hex u t d call hd hcall hne hu hbusy
  intro j k rj rk hjk hrj hrk
  by_cases hj : j = i
  · subst hj
    rw [hrec] at hrj
    cases hrj
    rw [hc.recordAt_of_ne hjk.symm] at hrk
    exact (hother k rk hjk.symm hrk).symm
  · rw [hc.recordAt_of_ne hj] at hrj
    by_cases hk : k = i
    · subst hk
      rw [hrec] at hrk
      cases hrk
      exact hother j rj hj hrj
    · rw [hc.recordAt_of_ne hk] at hrk
      exact h j k rj rk hjk hrj hrk

theorem apart_call (hr : Recorded N R selfIdent s) (h : Apart s) (hex : Exclusive s)
    (hup : s.up = true) {i : ℕ} (hc : CallStep s s' i) : Apart s' := by
  -- a store that leaves the record of `i` as it was, or clears it
  have hat : (∀ r, s'.recordAt i = some r → s.recordAt i = some r) → Apart s' := fun hat =>
    h.mono fun j r hj => by
      by_cases hji : j = i
      · subst hji
        exact hat r hj
      · rw [hc.recordAt_of_ne hji] at hj
        exact hj
  cases hc.posting hr.occupied hr.placed hr.ledger with
  | none hsame _ _ =>
    refine hat fun r hri => ?_
    rw [recordAt_congr hc.calls (by rw [hsame.stable]) (by rw [hsame.storedBy])] at hri
    exact hri
  | @put t call state hin hhand hcall hdue hfired hentry =>
    cases hentry with
    | opened hwrite hun hfresh hhome hstored _ _ hrec =>
      cases hs : call.source with
      | none => exact apart_open hr h hex hup hc hin hcall hs hrec
      | some j => exact hat fun r hri => (hhome j hs).2.trans (hrec.symm.trans hri)
    | kept _ _ _ _ _ hbefore hrec => exact hat fun r hri => hbefore.trans (hrec.symm.trans hri)
    | closed _ _ _ _ _ _ hrec =>
      refine hat fun r hri => ?_
      rw [hrec] at hri
      cases hri
    | read _ _ _ _ hrec =>
      refine hat fun r hri => ?_
      rw [hrec] at hri
      cases hri
  | complete _ _ _ hstable hstoredBy _ _ =>
    refine hat fun r hri => ?_
    rw [recordAt_congr hc.calls (by rw [hstable]) (by rw [hstoredBy])] at hri
    exact hri

theorem apart_step (hr : Recorded N R selfIdent s) (h : Apart s) (hex : Exclusive s)
    (hstep : s.step N R selfIdent a = some s') : Apart s' := by
  have hup : a ≠ .restart → s.up = true := up_of_step hstep
  -- steps that leave stable storage alone
  have hsame : s'.calls = s.calls → s'.bank.stable = s.bank.stable →
      s'.bank.storedBy = s.bank.storedBy → Apart s' := fun hcalls hstable hstoredBy =>
    h.mono fun i r hi => by
      rw [recordAt_congr hcalls (by rw [hstable]) (by rw [hstoredBy])] at hi
      exact hi
  cases step_event hstep with
  | shuffle _ hs => exact hsame hs.calls (by rw [hs.bank]) (by rw [hs.bank])
  | submit _ =>
    refine h.mono fun i r hi => ?_
    rw [(invokes_submit s _).recordAt hr.ledger.books hr.placed] at hi
    exact hi
  | dispatch _ _ =>
    refine h.mono fun i r hi => ?_
    rw [(invokes_dispatch s _ _ _).recordAt hr.ledger.books hr.placed] at hi
    exact hi
  | receive _ hrec =>
    obtain ⟨_, _, hrc⟩ := hr.occupied.reception hrec
    exact hsame rfl hrc.receives.stable hrc.receives.storedBy
  | @call i _ _ _ hcall =>
    have hacts := Bank.call_cases hcall (hr.occupied.register i).steady
    exact apart_call hr h hex (hup Action.noConfusion) ⟨hacts, rfl, rfl, rfl, rfl, rfl⟩
  | restart hrestart =>
    have hrs := hr.occupied.restarted hrestart
    exact hsame hrs.calls hrs.stable hrs.storedBy
  | _ => exact hsame rfl rfl rfl

/-- A restart collects at most one command for each sector. -/
theorem Apart.pendingCmds_nodup (h : Apart s) :
    ((s.pendingCmds N R selfIdent).map Recovered.sector).Nodup := by
  refine List.Nodup.map_on ?_ (pendingCmds_registers_nodup.of_map)
  intro r hr r' hr' hsector
  obtain ⟨_, hrec⟩ := mem_pendingCmds.mp hr
  obtain ⟨_, hrec'⟩ := mem_pendingCmds.mp hr'
  by_cases hregister : r.register = r'.register
  · rw [hregister, hrec'] at hrec
    exact (Option.some.inj hrec).symm
  · exact absurd hsector (h _ _ r r' hregister hrec hrec')

/-! ## Tickets -/

/-- The start-up loop has a command on the sector that no register has been found for. -/
def Process.Awaits (s : Process) (sector : SectorIdx) : Prop :=
  (∃ r ∈ s.startup, r.sector = sector) ∨
    ∃ t call, s.dispatching = some t ∧ s.calls[t]? = some call ∧ (s.pcs t).taken = false ∧
      s.pcs t ≠ .lost ∧ call.sector = sector

/-- **The sectors of the commands that wait have not been touched** since the restart, but
for the ticket of the command the start-up loop is in. -/
structure Untouched (s : Process) : Prop where
  waiting : ∀ r ∈ s.startup, s.sectorCounters r.sector = none
  current : ∀ t call, s.dispatching = some t → s.calls[t]? = some call →
    (s.pcs t).taken = false → s.pcs t ≠ .lost →
    s.pcs t = .ticket ∧ s.sectorCounters call.sector = none ∨
      s.pcs t = .check 0 ∧ s.sectorCounters call.sector = some (1, 0) ∨ s.pcs t = .owner
  handlers : ∀ m entry, s.msgIdHandlerSectorIdx m = some entry → ¬ s.Awaits entry.2
  finishing : ∀ task ∈ s.finishing, ∀ sector,
    task.pc = .count sector ∨ task.pc = .notify sector → ¬ s.Awaits sector

theorem Accepting.not_awaits (h : s.Accepting) (sector : SectorIdx) : ¬ s.Awaits sector := by
  rintro (⟨r, hr, _⟩ | ⟨t, _, ht, _, htaken, _⟩)
  · rw [h.1] at hr
    cases hr
  · rw [(h.2 t ht).1] at htaken
    cases htaken

/-- After the start-up loop nothing waits. -/
theorem untouched_of_accepting (h : s.Accepting) : Untouched s := by
  refine ⟨?_, ?_, fun m entry _ => Accepting.not_awaits h _,
    fun task _ sector _ => Accepting.not_awaits h sector⟩
  · rw [h.1]
    exact fun r hr => absurd hr List.not_mem_nil
  · intro t call ht _ htaken
    rw [(h.2 t ht).1] at htaken
    cases htaken

/-- What waits has a record, in a vacant register. -/
theorem Recorded.record_of_awaits (h : Recorded N R selfIdent s) {sector : SectorIdx}
    (hawaits : s.Awaits sector) :
    ∃ i r, s.recordAt i = some r ∧ s.HeldBy i none ∧ r.sector = sector := by
  rcases hawaits with ⟨r, hr, rfl⟩ | ⟨t, call, ht, hcall, htaken, hlost, rfl⟩
  · obtain ⟨hrec, hheld⟩ := h.ledger.startup.entry r hr
    exact ⟨r.register, r, hrec, hheld, rfl⟩
  · obtain ⟨j, _, hrec, hheld, _⟩ := h.ledger.startup.current t call ht hcall htaken hlost
    exact ⟨j, _, hrec, hheld, rfl⟩

theorem Awaits.mono {sector : SectorIdx} (h : s'.Awaits sector) (hstartup : s'.startup = s.startup)
    (hdispatching : s'.dispatching = s.dispatching) (hcalls : s'.calls = s.calls)
    (hpcs : ∀ t, s.dispatching = some t → (s'.pcs t).taken = false → s'.pcs t ≠ .lost →
      (s.pcs t).taken = false ∧ s.pcs t ≠ .lost) : s.Awaits sector := by
  rcases h with ⟨r, hr, hsector⟩ | ⟨t, call, ht, hcall, htaken, hlost, hsector⟩
  · exact .inl ⟨r, hstartup ▸ hr, hsector⟩
  · rw [hdispatching] at ht
    obtain ⟨htaken, hlost⟩ := hpcs t ht htaken hlost
    exact .inr ⟨t, call, ht, hcalls ▸ hcall, htaken, hlost, hsector⟩

/-- Steps of other tasks: the sectors that wait are left alone. -/
theorem Untouched.frame (h : Untouched s) (hstartup : s'.startup = s.startup)
    (hdispatching : s'.dispatching = s.dispatching) (hcalls : s'.calls = s.calls)
    (hpcs : ∀ t, s.dispatching = some t → (s'.pcs t).taken = false → s'.pcs t ≠ .lost →
      s'.pcs t = s.pcs t)
    (hcounters : ∀ sector, s.Awaits sector → s'.sectorCounters sector = s.sectorCounters sector)
    (hhandlers : ∀ m entry, s'.msgIdHandlerSectorIdx m = some entry → ¬ s.Awaits entry.2)
    (hfinishing : ∀ task ∈ s'.finishing, ∀ sector,
      task.pc = .count sector ∨ task.pc = .notify sector → ¬ s.Awaits sector) : Untouched s' := by
  have hawaits : ∀ sector, s'.Awaits sector → s.Awaits sector := fun sector hs => by
    refine Awaits.mono hs hstartup hdispatching hcalls fun t ht htaken hlost => ?_
    rw [← hpcs t ht htaken hlost]
    exact ⟨htaken, hlost⟩
  refine ⟨fun r hr => ?_, fun t call ht hcall htaken hlost => ?_,
    fun m entry hm hs => hhandlers m entry hm (hawaits _ hs),
    fun task htask sector hpc hs => hfinishing task htask sector hpc (hawaits _ hs)⟩
  · rw [hstartup] at hr
    rw [hcounters _ (.inl ⟨r, hr, rfl⟩)]
    exact h.waiting r hr
  · rw [hdispatching] at ht
    rw [hcalls] at hcall
    have hsame := hpcs t ht htaken hlost
    rw [hsame] at htaken hlost ⊢
    rw [hcounters _ (.inr ⟨t, call, ht, hcall, htaken, hlost, rfl⟩)]
    exact h.current t call ht hcall htaken hlost

theorem startup_kept_of_step (hstep : s.step N R selfIdent a = some s')
    (ha : a ≠ .crash ∧ a ≠ .restart ∧ a ≠ .dispatch) :
    s'.startup = s.startup ∧ s'.dispatching = s.dispatching := by
  cases step_event hstep with
  | shuffle _ hs => exact ⟨hs.startup, hs.dispatching⟩
  | dispatch _ _ => exact absurd rfl ha.2.2
  | crash => exact absurd rfl ha.1
  | restart _ => exact absurd rfl ha.2.1
  | _ => exact ⟨rfl, rfl⟩

/-- A task that has not received a register moves: the process was accepting, and still is,
or it is the command of the start-up loop. -/
theorem untouched_of_move (hr : Recorded N R selfIdent s) {t : Callback} {call : Call}
    {pc : ClientPc} (hcall : s.calls[t]? = some call) (hlost : s.pcs t ≠ .lost)
    (htaken : (s.pcs t).taken = false) (hpcs : s'.pcs = Function.update s.pcs t pc)
    (hstartup : s'.startup = s.startup) (hdispatching : s'.dispatching = s.dispatching)
    (hcurrent : s.dispatching = some t →
      (∀ r ∈ s.startup, r.sector ≠ call.sector) → Untouched s') (hapart : Apart s) :
    Untouched s' := by
  rcases hr.ledger.source_cases hcall hlost htaken with ⟨_, hacc⟩ | ⟨ht, j, _, hrec, hne⟩
  · refine untouched_of_accepting (Accepting.mono hacc hstartup hdispatching fun u hu hg => ?_)
    have hut : u ≠ t := by
      rintro rfl
      rw [htaken] at hu
      cases hu
    rw [hpcs, Function.update_of_ne hut]
    exact ⟨hu, hg⟩
  · refine hcurrent ht fun r hmem => ?_
    exact hapart _ _ r _ (hne r hmem) (hr.ledger.startup.entry r hmem).1 hrec

/-- The command of the start-up loop moves on, without a register yet. -/
theorem Untouched.current_moves (h : Untouched s) {t : Callback} {call : Call} {pc : ClientPc}
    (hcall : s.calls[t]? = some call) (ht : s.dispatching = some t)
    (hlost : s.pcs t ≠ .lost) (htaken : (s.pcs t).taken = false)
    (hpcs : s'.pcs = Function.update s.pcs t pc) (hcalls : s'.calls = s.calls)
    (hstartup : s'.startup = s.startup) (hdispatching : s'.dispatching = s.dispatching)
    (hcounters : ∀ r ∈ s.startup, s'.sectorCounters r.sector = s.sectorCounters r.sector)
    (hhandlers : s'.msgIdHandlerSectorIdx = s.msgIdHandlerSectorIdx)
    (hfinishing : s'.finishing = s.finishing)
    (hnow : pc = .ticket ∧ s'.sectorCounters call.sector = none ∨
      pc = .check 0 ∧ s'.sectorCounters call.sector = some (1, 0) ∨ pc = .owner) :
    Untouched s' := by
  have hawaits : ∀ sector, s'.Awaits sector → s.Awaits sector := fun sector hs => by
    refine Awaits.mono hs hstartup hdispatching hcalls fun u hu _ _ => ?_
    rw [ht] at hu
    cases hu
    exact ⟨htaken, hlost⟩
  refine ⟨fun r hr => ?_, fun u c hu hc _ _ => ?_, fun m entry hm hs => ?_,
    fun task htask sector hpc hs => ?_⟩
  · rw [hstartup] at hr
    rw [hcounters r hr]
    exact h.waiting r hr
  · rw [hdispatching, ht] at hu
    cases hu
    rw [hcalls, hcall] at hc
    cases hc
    rw [hpcs, Function.update_self]
    exact hnow
  · rw [hhandlers] at hm
    exact h.handlers m entry hm (hawaits _ hs)
  · rw [hfinishing] at htask
    exact h.finishing task htask sector hpc (hawaits _ hs)

/-- A task that finishes a command moves on. -/
theorem Untouched.finish_moves (h : Untouched s) {j : ℕ} {task : FinishTask} {pc : FinishPc}
    (hpc : ∀ sector, pc = .count sector ∨ pc = .notify sector → ¬ s.Awaits sector) :
    ∀ task' ∈ s.finishing.set j { task with pc }, ∀ sector,
      task'.pc = .count sector ∨ task'.pc = .notify sector → ¬ s.Awaits sector := by
  intro task' hmem sector hpc'
  rcases List.mem_or_eq_of_mem_set hmem with hmem | rfl
  · exact h.finishing task' hmem sector hpc'
  · exact hpc sector hpc'

/-- A command is entered in the handler map: nothing waits on its sector. -/
theorem not_awaits_of_granted (hr : Recorded N R selfIdent s) (hapart : Apart s) {t : Callback}
    {call : Call} {i : ℕ} (hcall : s.calls[t]? = some call) (hgrant : s.grants i t) :
    ¬ s.Awaits call.sector := by
  intro hawaits
  obtain ⟨holder, hholder⟩ := hr.occupied.held i
  obtain ⟨hgrants, hmail, hhand⟩ := heldBy_of_grants hholder hgrant
  have hheld : s.HeldBy i (some t) := .granted hgrants hmail hhand
  have hlost : s.pcs t ≠ .lost := by
    intro hl
    unfold Process.grants at hgrant
    rw [hl] at hgrant
    cases hgrant
  cases hs : call.source with
  | none => exact Accepting.not_awaits (hr.ledger.startup.fresh t call hcall hs hlost) _ hawaits
  | some j =>
    have hrec : s.recordAt i = some ⟨call.operation, call.cmd, i⟩ := by
      cases hr.ledger.records i with
      | vacant hv => exact absurd hv (not_heldBy_none hheld)
      | @unstored u c hu hc _ _ hhome =>
        have hut : u = t := by
          cases hu with
          | granted hg _ _ => exact ((hg t).mp hgrant).symm
          | mailed hg _ _ => exact absurd hgrant (hg t)
          | inHand hg _ _ => exact absurd hgrant (hg t)
        subst hut
        rw [hcall] at hc
        cases hc
        exact (hhome j hs).2
      | writing hin _ _ _ _ _ => rw [hhand] at hin; cases hin
      | closing hin _ _ _ _ => rw [hhand] at hin; cases hin
      | reading hin _ _ _ => rw [hhand] at hin; cases hin
    obtain ⟨k, r, hk, hvacant, hsector⟩ := hr.record_of_awaits hawaits
    have hki : k ≠ i := by
      rintro rfl
      exact not_heldBy_none hheld hvacant
    exact hapart k i r _ hki hk hrec hsector

/-- The start-up loop comes to the next command. -/
theorem untouched_dispatch (h : Untouched s) {r : Recovered} {startup : List Recovered}
    (hi : Invokes s s' ⟨r.operation, r.cmd, some r.register⟩)
    (hstartup : s.startup = r :: startup) (hstartup' : s'.startup = startup)
    (hdispatching : s'.dispatching = some s.calls.length)
    (hcounters : s'.sectorCounters = s.sectorCounters)
    (hhandlers : s'.msgIdHandlerSectorIdx = s.msgIdHandlerSectorIdx)
    (hfinishing : s'.finishing = s.finishing) : Untouched s' := by
  have hmem : ∀ r' ∈ s'.startup, r' ∈ s.startup := fun r' hr' => by
    rw [hstartup'] at hr'
    rw [hstartup]
    exact List.mem_cons_of_mem _ hr'
  have hfirst : r ∈ s.startup := by
    rw [hstartup]
    exact List.mem_cons_self
  have hcurrent : ∀ t call, s'.dispatching = some t → s'.calls[t]? = some call →
      s'.pcs t = .ticket ∧ call.sector = r.sector := fun t call ht hc => by
    rw [hdispatching] at ht
    cases ht
    rcases hi.getElem_cases hc with hc | ⟨_, rfl⟩
    · exact absurd (List.getElem?_eq_some_iff.mp hc).1 (lt_irrefl _)
    · rw [hi.pcs, Function.update_self]
      exact ⟨rfl, rfl⟩
  -- what waits afterwards has waited before
  have hawaits : ∀ sector, s'.Awaits sector → s.Awaits sector := fun sector hs => by
    rcases hs with ⟨r', hr', hsector⟩ | ⟨t, call, ht, hc, _, _, hsector⟩
    · exact .inl ⟨r', hmem r' hr', hsector⟩
    · exact .inl ⟨r, hfirst, (hcurrent t call ht hc).2.symm.trans hsector⟩
  refine ⟨fun r' hr' => ?_, fun t call ht hc _ _ => ?_, fun m entry hm hs => ?_,
    fun task htask sector hpc hs => ?_⟩
  · rw [hcounters]
    exact h.waiting r' (hmem r' hr')
  · obtain ⟨hpc, hsector⟩ := hcurrent t call ht hc
    rw [hsector, hcounters]
    exact .inl ⟨hpc, h.waiting r hfirst⟩
  · rw [hhandlers] at hm
    exact h.handlers m entry hm (hawaits _ hs)
  · rw [hfinishing] at htask
    exact h.finishing task htask sector hpc (hawaits _ hs)

/-- A command takes its ticket: the first one, if it is the command of the start-up loop. -/
theorem untouched_ticket (hr : Recorded N R selfIdent s) (hapart : Apart s) (h : Untouched s)
    {t : Callback} {call : Call} (hcall : s.calls[t]? = some call) (hpc : s.pcs t = .ticket)
    (hpcs : s'.pcs = Function.update s.pcs t (.check (s.counters call.sector).1))
    (hcounters : s'.sectorCounters = Function.update s.sectorCounters call.sector
      (some ((s.counters call.sector).1 + 1, (s.counters call.sector).2)))
    (hcalls : s'.calls = s.calls) (hstartup : s'.startup = s.startup)
    (hdispatching : s'.dispatching = s.dispatching)
    (hhandlers : s'.msgIdHandlerSectorIdx = s.msgIdHandlerSectorIdx)
    (hfinishing : s'.finishing = s.finishing) : Untouched s' := by
  have hlost : s.pcs t ≠ .lost := by rw [hpc]; exact ClientPc.noConfusion
  have htaken : (s.pcs t).taken = false := by rw [hpc]; rfl
  refine untouched_of_move hr hcall hlost htaken hpcs hstartup hdispatching (fun ht hne => ?_) hapart
  have hnone : s.sectorCounters call.sector = none := by
    rcases h.current t call ht hcall htaken hlost with ⟨_, hnone⟩ | ⟨hc, _⟩ | hc
    · exact hnone
    · rw [hpc] at hc
      cases hc
    · rw [hpc] at hc
      cases hc
  have hzero : s.counters call.sector = (0, 0) := by
    unfold Process.counters
    rw [hnone]
    rfl
  refine h.current_moves hcall ht hlost htaken hpcs hcalls hstartup hdispatching (fun r hmem => ?_)
    hhandlers hfinishing (.inr (.inl ⟨?_, ?_⟩))
  · rw [hcounters, Function.update_of_ne (hne r hmem)]
  · rw [hzero]
  · rw [hcounters, Function.update_self, hzero]

theorem untouched_step (hr : Recorded N R selfIdent s) (hapart : Apart s) (h : Untouched s)
    (hstep : s.step N R selfIdent a = some s') : Untouched s' := by
  cases step_turn hstep with
  | aside hs _ _ _ ha =>
    obtain ⟨hstartup, hdispatching⟩ := startup_kept_of_step hstep ⟨ha.1, ha.2.1, ha.2.2.1⟩
    refine h.frame hstartup hdispatching hs.calls (fun t _ _ _ => by rw [hs.pcs])
      (fun sector _ => by rw [hs.sectorCounters]) ?_ ?_
    · rw [hs.handlers]
      exact h.handlers
    · rw [hs.finishing]
      exact h.finishing
  | @spawn i bank t op _ =>
    refine h.frame rfl rfl rfl (fun t _ _ _ => rfl) (fun _ _ => rfl) h.handlers ?_
    intro task hmem sector hpc
    rcases List.mem_append.mp hmem with hmem | hmem
    · exact h.finishing task hmem sector hpc
    · -- the task of a callback starts with the response, or with `finish_client_command`
      rw [List.mem_singleton.mp hmem] at hpc
      unfold Process.finishTask at hpc
      dsimp only at hpc
      split at hpc <;> rcases hpc with hpc | hpc <;> cases hpc
  | reject =>
    refine h.frame rfl rfl rfl (fun t _ _ _ => rfl) (fun _ _ => rfl) h.handlers ?_
    intro task hmem sector hpc
    rcases List.mem_append.mp hmem with hmem | hmem
    · exact h.finishing task hmem sector hpc
    · rw [List.mem_singleton.mp hmem] at hpc
      rcases hpc with hpc | hpc <;> cases hpc
  | submit =>
    cases step_event hstep with
    | shuffle _ hs =>
      have hlen := congrArg List.length hs.calls
      rw [Process.invoke, List.length_append, List.length_singleton] at hlen
      omega
    | submit hacc =>
      refine untouched_of_accepting ⟨hacc.1, fun t ht => ?_⟩
      have hne : t ≠ s.calls.length := by
        rintro rfl
        have htaken := (hacc.2 _ ht).1
        rw [hr.occupied.lost _ le_rfl] at htaken
        cases htaken
      rw [(invokes_submit s _).pcs_of_ne hne]
      exact hacc.2 t ht
  | dispatch hstartup => exact untouched_dispatch h (invokes_dispatch s _ _ _) hstartup rfl rfl rfl rfl rfl
  | ticket hcall hpc _ => exact untouched_ticket hr hapart h hcall hpc rfl rfl rfl rfl rfl rfl rfl
  | @owns t call c entry hcall hpc hfree hentry hc =>
    have hlost : s.pcs t ≠ .lost := by rw [hpc]; exact ClientPc.noConfusion
    have htaken : (s.pcs t).taken = false := by rw [hpc]; rfl
    refine untouched_of_move hr hcall hlost htaken rfl rfl rfl (fun ht _ => ?_) hapart
    exact h.current_moves hcall ht hlost htaken rfl rfl rfl rfl (fun _ _ => rfl) rfl rfl
      (.inr (.inr rfl))
  | @defers t call c entry hcall hpc hfree hentry hc =>
    have hlost : s.pcs t ≠ .lost := by rw [hpc]; exact ClientPc.noConfusion
    have htaken : (s.pcs t).taken = false := by rw [hpc]; rfl
    refine untouched_of_move hr hcall hlost htaken rfl rfl rfl (fun ht _ => ?_) hapart
    -- the first ticket is served
    rcases h.current t call ht hcall htaken hlost with ⟨hc', _⟩ | ⟨hc', hentry'⟩ | hc'
    · rw [hpc] at hc'
      cases hc'
    · rw [hpc] at hc'
      cases hc'
      rw [hentry] at hentry'
      cases hentry'
      exact absurd rfl hc
    · rw [hpc] at hc'
      cases hc'
  | @parks t call c hcall hpc =>
    have hlost : s.pcs t ≠ .lost := by rw [hpc]; exact ClientPc.noConfusion
    have htaken : (s.pcs t).taken = false := by rw [hpc]; rfl
    refine untouched_of_move hr hcall hlost htaken rfl rfl rfl (fun ht _ => ?_) hapart
    rcases h.current t call ht hcall htaken hlost with ⟨hc, _⟩ | ⟨hc, _⟩ | hc <;>
      (rw [hpc] at hc; cases hc)
  | @take t call i _ hcall hpc =>
    refine h.frame rfl rfl rfl (fun u _ hu _ => ?_) (fun _ _ => rfl) h.handlers h.finishing
    refine Function.update_of_ne ?_ ..
    rintro rfl
    rw [show Process.pcs _ u = .index i from Function.update_self ..] at hu
    cases hu
  | @enter t call i hcall hpc hfree =>
    have hgrant : s.grants i t := by
      unfold Process.grants
      rw [hpc]
      rfl
    refine h.frame rfl rfl rfl (fun u _ hu _ => ?_) (fun _ _ => rfl) (fun m entry hm => ?_)
      h.finishing
    · refine Function.update_of_ne ?_ ..
      rintro rfl
      rw [show Process.pcs _ u = .entered i from Function.update_self ..] at hu
      cases hu
    · by_cases hm' : m = .fromRequest call.cmd.header.requestIdentifier
      · subst hm'
        simp only [Function.update_self] at hm
        cases hm
        exact not_awaits_of_granted hr hapart hcall hgrant
      · simp only [Function.update_of_ne hm'] at hm
        exact h.handlers m entry hm
  | @hand t call i hcall hpc =>
    refine h.frame rfl rfl rfl (fun u _ hu _ => ?_) (fun _ _ => rfl) h.handlers h.finishing
    refine Function.update_of_ne ?_ ..
    rintro rfl
    rw [show Process.pcs _ u = .handed i from Function.update_self ..] at hu
    cases hu
  | @respond j written task hj hpc =>
    refine h.frame rfl rfl rfl (fun _ _ _ _ => rfl) (fun _ _ => rfl) h.handlers
      (h.finish_moves fun sector hpc' => ?_)
    cases written <;> rcases hpc' with hpc' | hpc' <;> cases hpc'
  | missing hj hpc hfree hnone =>
    refine h.frame rfl rfl rfl (fun _ _ _ _ => rfl) (fun _ _ => rfl) h.handlers
      (h.finish_moves fun sector hpc' => ?_)
    rcases hpc' with hpc' | hpc' <;> cases hpc'
  | @removes j written task entry hj hpc hfree hentry =>
    refine h.frame rfl rfl rfl (fun _ _ _ _ => rfl) (fun _ _ => rfl) (fun m e hm => ?_)
      (h.finish_moves fun sector hpc' => ?_)
    · by_cases hm' : m = .fromRequest task.requestIdentifier
      · subst hm'
        simp only [Function.update_self] at hm
        cases hm
      · simp only [Function.update_of_ne hm'] at hm
        exact h.handlers m e hm
    · rcases hpc' with hpc' | hpc' <;> cases hpc'
      exact h.handlers _ entry hentry
  | @counts j written task sector entry hj hpc hfree hentry =>
    have hnot : ¬ s.Awaits sector :=
      h.finishing task (List.mem_of_getElem? hj) sector (.inl hpc)
    refine h.frame rfl rfl rfl (fun _ _ _ _ => rfl) (fun sec hsec => ?_) h.handlers
      (h.finish_moves fun sec hpc' => ?_)
    · refine Function.update_of_ne ?_ ..
      rintro rfl
      exact hnot hsec
    · rcases hpc' with hpc' | hpc' <;> cases hpc'
      exact hnot
  | @notifies j written task sector hj hpc =>
    refine h.frame rfl rfl rfl (fun t ht htaken hlost => ?_) (fun _ _ => rfl) h.handlers
      (h.finish_moves fun sec hpc' => by rcases hpc' with hpc' | hpc' <;> cases hpc')
    -- the command of the start-up loop is not parked
    show s.wake sector t = s.pcs t
    rcases wake_cases (s := s) sector t with hsame | ⟨c, hparked, _⟩
    · exact hsame
    · by_cases hlt : t < s.calls.length
      · have hcall : s.calls[t]? = some s.calls[t] := List.getElem?_eq_getElem hlt
        rcases h.current t _ ht hcall (by rw [hparked]; rfl)
          (by rw [hparked]; exact ClientPc.noConfusion) with ⟨hc, _⟩ | ⟨hc, _⟩ | hc <;>
          (rw [hparked] at hc; cases hc)
      · rw [hr.occupied.lost t (not_lt.mp hlt)] at hparked
        cases hparked
  | crash =>
    refine untouched_of_accepting ⟨rfl, fun t ht => ?_⟩
    cases ht
  | restart hrestart =>
    have hrs := hr.occupied.restarted hrestart
    refine ⟨fun r _ => hrs.sectorCounters r.sector, fun t call ht => ?_, fun m entry hm => ?_,
      fun task htask => ?_⟩
    · rw [hrs.dispatching] at ht
      cases ht
    · rw [hrs.handlers] at hm
      cases hm
    · rw [hrs.finishing] at htask
      cases htask

/-! ## The law, and how it fails -/

/-- **Recovery does not wait for itself**, in every run in which client commands receive the
indices of free registers only and one at a time on each sector, and recovered commands
those of the registers they were found in: a restart collects at most one command for each
sector, and the command the start-up loop is in never has to wait for the ticket before
its own. -/
theorem recovery_not_blocked
    (hs : Reachable (Process.step N R selfIdent) (fun s a => s.SentHome a ∧ s.TakesTurns a)
      (.init N selfIdent) s) :
    (∀ s', s.step N R selfIdent .restart = some s' →
      (s'.startup.map Recovered.sector).Nodup) ∧
    ∀ t, s.dispatching = some t → ∀ c, s.pcs t ≠ .yield c ∧ s.pcs t ≠ .parked c := by
  have hinv : Recorded N R selfIdent s ∧ Exclusive s ∧ Apart s ∧ Untouched s := by
    refine hs.invariant
      (fun s => Recorded N R selfIdent s ∧ Exclusive s ∧ Apart s ∧ Untouched s)
      ⟨recorded_init, ?_, ?_, untouched_of_accepting ⟨rfl, fun t ht => by cases ht⟩⟩ ?_
    · intro t u c d hc
      cases hc
    · intro i j ri rj _ hi
      cases hi
    · rintro s a s' - ⟨hr, hex, hapart, huntouched⟩ ⟨hhome, hturns⟩ hstep
      exact ⟨recorded_step hr hhome hstep, exclusive_step hr.occupied hex hturns hstep,
        apart_step hr hapart hex hstep, untouched_step hr hapart huntouched hstep⟩
  obtain ⟨hr, _, hapart, huntouched⟩ := hinv
  refine ⟨fun s' hrestart => ?_, fun t ht c => ?_⟩
  · rw [startup_of_restart hr.occupied hrestart]
    exact hapart.pendingCmds_nodup
  · -- where the command stands before it has received a register
    have hstands : (s.pcs t).taken = false → s.pcs t ≠ .lost →
        s.pcs t = .ticket ∨ s.pcs t = .check 0 ∨ s.pcs t = .owner := fun htaken hlost => by
      have hlt : t < s.calls.length := by
        by_contra hge
        exact hlost (hr.occupied.lost t (not_lt.mp hge))
      rcases huntouched.current t _ ht (List.getElem?_eq_getElem hlt) htaken hlost with
        ⟨hpc, _⟩ | ⟨hpc, _⟩ | hpc
      · exact .inl hpc
      · exact .inr (.inl hpc)
      · exact .inr (.inr hpc)
    constructor
    · intro hpc
      rw [hpc] at hstands
      rcases hstands rfl ClientPc.noConfusion with h | h | h <;> cases h
    · intro hpc
      rw [hpc] at hstands
      rcases hstands rfl ClientPc.noConfusion with h | h | h <;> cases h

set_option maxRecDepth 100000 in
/-- Two writes on different sectors are recovered: the second one is the owner of its sector
while the first one is in progress. -/
theorem second_recovered_is_owner :
    ∃ s, Reachable (Process.step 3 2 1) (fun s a => s.SentHome a ∧ s.TakesTurns a) (.init 3 1) s ∧
      s.dispatching = some 3 ∧ s.pcs 2 = .handed 0 ∧ s.pcs 3 = .check 0 ∧
      ∀ c, s.pcs 3 ≠ .yield c ∧ s.pcs 3 ≠ .parked c := by
  have hrun : ∃ s, Reachable (Process.step 3 2 1) (fun s a => s.SentHome a ∧ s.TakesTurns a)
      (.init 3 1) s ∧ s.dispatching = some 3 ∧ s.pcs 2 = .handed 0 ∧ s.pcs 3 = .check 0 :=
    exists_of_exec (twoWrites ++ [.restart, .announce 0, .announce 1, .dispatch] ++ handOver 2 ++
      [.dispatch, .client 3]) (by decide +kernel)
  obtain ⟨s, hs, hdispatching, hfirst, hsecond⟩ := hrun
  exact ⟨s, hs, hdispatching, hfirst, hsecond, (recovery_not_blocked hs).2 3 hdispatching⟩

set_option maxRecDepth 100000 in
/-- The write of register 0 has been stored by register 1 as well when the process crashes.
The restart collects it twice; the start-up loop hands the first copy over and waits for it
with the second one, and no connection is accepted that could bring an answer. -/
theorem recovery_waits_for_itself :
    ∃ s, Reachable (Process.step 3 2 1) (fun s a => s.TakesFree a ∧ s.TakesTurns a) (.init 3 1) s ∧
      (s.step 3 2 1 .restart).map (fun s' => s'.startup.map Recovered.sector) = some [0, 0] ∧
    ∃ s', Reachable (Process.step 3 2 1) (fun s a => s.TakesFree a ∧ s.TakesTurns a) (.init 3 1) s' ∧
      s'.calls.map Call.operation = [0, 1, 0, 0, 0] ∧ s'.dispatching = some 4 ∧
      s'.pcs 3 = .handed 0 ∧ s'.pcs 4 = .parked 1 ∧ ¬ s'.Accepting := by
  have hrun : ∃ s, Reachable (Process.step 3 2 1) (fun s a => s.TakesFree a ∧ s.TakesTurns a)
      (.init 3 1) s ∧
      (s.step 3 2 1 .restart).map (fun s' => s'.startup.map Recovered.sector) = some [0, 0] :=
    exists_of_exec overwriting (by decide +kernel)
  have hrun' : ∃ s', Reachable (Process.step 3 2 1) (fun s a => s.TakesFree a ∧ s.TakesTurns a)
      (.init 3 1) s' ∧ s'.calls.map Call.operation = [0, 1, 0, 0, 0] ∧ s'.dispatching = some 4 ∧
      s'.pcs 3 = .handed 0 ∧ s'.pcs 4 = .parked 1 ∧ ¬ s'.Accepting :=
    exists_of_exec (overwriting ++ [.restart, .announce 0, .announce 1, .dispatch] ++ handOver 3 ++
      [.dispatch] ++ List.replicate 3 (.client 4)) (by decide +kernel)
  obtain ⟨s, hs, hstartup⟩ := hrun
  exact ⟨s, hs, hstartup, hrun'⟩

end Executor
end AtomicDiscDrive
