import AtomicDiscDrive.Executor.Ledger

/-!
# The ledger on the way to a register

A call is made, by a client or by the start-up loop, it receives the index of a register
and is sent there. None of this touches stable storage. What has to be shown is that a new
command never reaches a register whose record still waits to be dispatched, and that a
recovered one finds its own (`Ledger.source_cases`).
-/

namespace AtomicDiscDrive
namespace Executor

open Utils

variable {N R : ℕ} {selfIdent : UInt8} {s s' : Process}

theorem Unstored.congr {i : ℕ} {t : Callback} (h : s.Unstored i t)
    (hgrants : s'.grants i t ↔ s.grants i t) (hmail : s'.mail i = s.mail i)
    (hworkers : s'.bank.workers i = s.bank.workers i) : s'.Unstored i t := by
  have hdue : s'.bank.due i = s.bank.due i := by
    unfold Bank.due
    rw [hworkers]
  unfold Process.Unstored
  rw [hgrants, hmail, hworkers, hdue]
  exact h

/-! ## A new call -/

/-- `s'` is `s` with one more call, at its start. -/
structure Invokes (s s' : Process) (call : Call) : Prop where
  bank : s'.bank = s.bank
  up : s'.up = s.up
  calls : s'.calls = s.calls ++ [call]
  pcs : s'.pcs = Function.update s.pcs s.calls.length .ticket

theorem invokes_submit (s : Process) (call : Call) : Invokes s (s.invoke call) call :=
  ⟨rfl, rfl, rfl, rfl⟩

theorem invokes_dispatch (s : Process) (call : Call) (startup : List Recovered)
    (dispatching : Option Callback) :
    Invokes s { s.invoke call with startup, dispatching } call :=
  ⟨rfl, rfl, rfl, rfl⟩

namespace Invokes

variable {call : Call}

theorem getElem_old (h : Invokes s s' call) {t : ℕ} {c : Call} (hc : s.calls[t]? = some c) :
    s'.calls[t]? = some c := by
  rw [h.calls, List.getElem?_append_left (List.getElem?_eq_some_iff.mp hc).1]
  exact hc

theorem getElem_cases (h : Invokes s s' call) {t : ℕ} {c : Call} (hc : s'.calls[t]? = some c) :
    s.calls[t]? = some c ∨ t = s.calls.length ∧ c = call := by
  rw [h.calls] at hc
  by_cases ht : t < s.calls.length
  · rw [List.getElem?_append_left ht] at hc
    exact .inl hc
  · have hlen := (List.getElem?_eq_some_iff.mp hc).1
    rw [List.length_append, List.length_singleton] at hlen
    have heq : t = s.calls.length := by omega
    subst heq
    rw [List.getElem?_concat_length] at hc
    exact .inr ⟨rfl, (Option.some.inj hc).symm⟩

theorem operationOf (h : Invokes s s' call) {t : ℕ} (ht : t < s.calls.length) :
    s'.operationOf t = s.operationOf t := by
  unfold Process.operationOf
  rw [h.calls, List.getElem?_append_left ht]

theorem pcs_of_ne (h : Invokes s s' call) {t : ℕ} (ht : t ≠ s.calls.length) :
    s'.pcs t = s.pcs t := by
  rw [h.pcs, Function.update_of_ne ht]

theorem grants (h : Invokes s s' call) (hocc : Occupied N selfIdent s) (i t : ℕ) :
    s'.grants i t ↔ s.grants i t := by
  unfold Process.grants
  by_cases ht : t = s.calls.length
  · subst ht
    rw [h.pcs, Function.update_self, hocc.lost _ le_rfl]
    rfl
  · rw [h.pcs_of_ne ht]

theorem heldBy (h : Invokes s s' call) (hocc : Occupied N selfIdent s) {i : ℕ}
    {holder : Option Callback} : s'.HeldBy i holder ↔ s.HeldBy i holder := by
  constructor
  · exact heldBy_congr (fun t => (h.grants hocc i t).symm) (mail_congr (by rw [h.bank]))
      (by rw [h.bank])
  · exact heldBy_congr (h.grants hocc i) (mail_congr (by rw [h.bank])) (by rw [h.bank])

/-- The new call has not been stored, so it is not what a record is about. -/
theorem recordAt (h : Invokes s s' call) (hbooks : Books R s) (hplaced : Placed s) (i : ℕ) :
    s'.recordAt i = s.recordAt i := by
  have hstable : s'.bank.stableState i = s.bank.stableState i := by rw [h.bank]
  cases hrec : s.recordAt i with
  | some r =>
    obtain ⟨hwriting, _, hop, writeval, hval, _⟩ := recordAt_eq_some hrec
    have hlt := (hplaced.stored _ (hbooks.record i r hrec).1).1
    rw [recordAt_of_writing (hstable ▸ hwriting) (hstable ▸ hval), h.bank, h.operationOf hlt,
      ← recordAt_of_writing hwriting hval, hrec]
  | none =>
    cases hrec' : s'.recordAt i with
    | none => rfl
    | some r =>
      obtain ⟨hwriting, _, _, writeval, hval, _⟩ := recordAt_eq_some hrec'
      rw [recordAt_of_writing (hstable ▸ hwriting) (hstable ▸ hval)] at hrec
      cases hrec

theorem fired (h : Invokes s s' call) (hplaced : Placed s) {k : ℕ} : s'.Fired k ↔ s.Fired k := by
  unfold Process.Fired
  rw [h.bank]
  constructor
  · rintro ⟨f, hf, hop⟩
    exact ⟨f, hf, (h.operationOf (hplaced.fired f hf).1) ▸ hop⟩
  · rintro ⟨f, hf, hop⟩
    exact ⟨f, hf, (h.operationOf (hplaced.fired f hf).1).trans hop⟩

end Invokes

/-- The books after a new call. A recovered command is a write that was stored, and has the
command of its operation. -/
theorem Books.invoke (h : Books R s) (hplaced : Placed s) {call : Call} (hi : Invokes s s' call)
    (hfresh : call.source = none → call.operation = s.calls.length)
    (hrecovered : ∀ j, call.source = some j → call.cmd.content ≠ .read ∧
      ∃ x ∈ s.bank.stored, x.1 = j ∧ s.operationOf x.2 = call.operation)
    (horiginal : ∀ j, call.source = some j →
      ∃ orig, s.calls[call.operation]? = some orig ∧ orig.source = none ∧ orig.cmd = call.cmd) :
    Books R s' := by
  have hop : ∀ x ∈ s.bank.stored, s'.operationOf x.2 = s.operationOf x.2 := fun x hx =>
    hi.operationOf (hplaced.stored x hx).1
  refine ⟨fun t c hc hs => ?_, fun t c j hc hs => ?_, fun t c hc => ?_, ?_, ?_, ?_, ?_⟩
  · rcases hi.getElem_cases hc with hc | ⟨rfl, rfl⟩
    · exact h.fresh t c hc hs
    · exact hfresh hs
  · have hold : c.cmd.content ≠ .read ∧
        ∃ x ∈ s.bank.stored, x.1 = j ∧ s.operationOf x.2 = c.operation := by
      rcases hi.getElem_cases hc with hc | ⟨rfl, rfl⟩
      · exact h.recovered t c j hc hs
      · exact hrecovered j hs
    obtain ⟨hwrite, x, hx, hj, hopx⟩ := hold
    rw [hi.bank]
    exact ⟨hwrite, x, hx, hj, (hop x hx).trans hopx⟩
  · rcases hi.getElem_cases hc with hc | ⟨rfl, rfl⟩
    · obtain ⟨orig, horig, hnone, hcmd⟩ := h.original t c hc
      exact ⟨orig, hi.getElem_old horig, hnone, hcmd⟩
    · cases hs : c.source with
      | none => exact ⟨c, by rw [hfresh hs]; exact hc, hs, rfl⟩
      | some j =>
        obtain ⟨orig, horig, hnone, hcmd⟩ := horiginal j hs
        exact ⟨orig, hi.getElem_old horig, hnone, hcmd⟩
  · rw [hi.bank]
    intro x hx
    obtain ⟨hR, c, hc, hwrite⟩ := h.stored x hx
    exact ⟨hR, c, hi.getElem_old hc, hwrite⟩
  · rw [hi.bank]
    intro x hx
    rw [hop x hx]
    exact h.storedFirst x hx
  · rw [hi.bank]
    intro x hx y hy hxy
    rw [hop x hx, hop y hy] at hxy
    exact h.home x hx y hy hxy
  · intro i r hrec
    rw [hi.recordAt h hplaced] at hrec
    obtain ⟨hmem, c, hc, hcmd⟩ := h.record i r hrec
    rw [hi.bank]
    exact ⟨hmem, c, hi.getElem_old hc, hcmd⟩

/-- A new call is at no register. -/
theorem Ledger.records_invoke (h : Ledger R s) (hocc : Occupied N selfIdent s) (hplaced : Placed s)
    {call : Call} (hi : Invokes s s' call) (i : ℕ) : RecordAt s' i := by
  refine (h.records i).congr (fun t c hc => hi.getElem_old hc) (fun holder => (hi.heldBy hocc).mpr)
    (fun t hun => ?_) (hi.recordAt h.books hplaced i) (by rw [hi.bank]) (by rw [hi.bank])
    (fun x hx => by rw [hi.bank]; exact hx)
  exact Unstored.congr hun (hi.grants hocc i t) (mail_congr (by rw [hi.bank])) (by rw [hi.bank])

/-- **A client submits a command**, to a process whose start-up loop is through. -/
theorem ledger_submit (hocc : Occupied N selfIdent s) (hplaced : Placed s) (h : Ledger R s)
    {call : Call} (hi : Invokes s s' call) (hfresh : call.source = none)
    (hop : call.operation = s.calls.length) (hacc : s.Accepting)
    (hstartup : s'.startup = s.startup) (hdispatching : s'.dispatching = s.dispatching) :
    Ledger R s' := by
  have hrec := hi.recordAt h.books hplaced
  -- the call the start-up loop was in is not the new one
  have hne : ∀ t, s.dispatching = some t → t ≠ s.calls.length := by
    rintro t ht rfl
    have htaken := (hacc.2 _ ht).1
    rw [hocc.lost _ le_rfl] at htaken
    cases htaken
  have hacc' : s'.Accepting := by
    refine ⟨hstartup.trans hacc.1, fun t ht => ?_⟩
    rw [hdispatching] at ht
    rw [hi.pcs_of_ne (hne t ht)]
    exact hacc.2 t ht
  refine ⟨h.books.invoke hplaced hi (fun _ => hop) ?_ ?_, h.records_invoke hocc hplaced hi, ?_, ?_⟩
  · intro j hj
    rw [hfresh] at hj
    cases hj
  · intro j hj
    rw [hfresh] at hj
    cases hj
  · refine ⟨?_, ?_, ?_, ?_, fun _ _ _ _ _ => hacc', ?_⟩
    · rw [hacc'.1]
      exact List.nodup_nil
    · rw [hacc'.1]
      exact fun r hr => absurd hr List.not_mem_nil
    · intro t c ht hc htaken
      rw [(hacc'.2 t ht).1] at htaken
      cases htaken
    · intro t c j hc hj hl htaken
      rcases hi.getElem_cases hc with hc | ⟨rfl, rfl⟩
      · have ht : t ≠ s.calls.length := (List.getElem?_eq_some_iff.mp hc).1.ne
        rw [hi.pcs_of_ne ht] at hl htaken
        rw [hdispatching]
        exact h.startup.recovered t c j hc hj hl htaken
      · rw [hfresh] at hj
        cases hj
    · intro hup i r hvacant hr
      rw [hi.heldBy hocc] at hvacant
      rw [hrec] at hr
      rcases h.startup.vacant (hi.up ▸ hup) i r hvacant hr with hmem | ⟨t, c, ht, _, _, htaken, _⟩
      · rw [hacc.1] at hmem
        cases hmem
      · rw [(hacc.2 t ht).1] at htaken
        cases htaken
  · intro i r hr
    rw [hi.fired hplaced]
    rw [hrec] at hr
    exact h.unfired i r hr

/-- **The start-up loop dispatches** the next recovered command. -/
theorem ledger_dispatch (hocc : Occupied N selfIdent s) (hplaced : Placed s) (h : Ledger R s)
    {r : Recovered} {startup : List Recovered} (hstartup : s.startup = r :: startup)
    (hidle : ∀ t ∈ s.dispatching, (s.pcs t).taken ∧ (s.pcs t).grant = none)
    (hi : Invokes s s' ⟨r.operation, r.cmd, some r.register⟩) (hstartup' : s'.startup = startup)
    (hdispatching : s'.dispatching = some s.calls.length) : Ledger R s' := by
  have hrec := hi.recordAt h.books hplaced
  obtain ⟨hr, hvacant⟩ := h.startup.entry r (by rw [hstartup]; exact List.mem_cons_self)
  obtain ⟨_, _, hop, writeval, _, hcmd⟩ := recordAt_eq_some hr
  obtain ⟨hmem, stored, hstored, hcmd'⟩ := h.books.record _ r hr
  have hnew : s'.pcs s.calls.length = .ticket := by rw [hi.pcs, Function.update_self]
  have hnodup := h.startup.nodup
  rw [hstartup, List.map_cons, List.nodup_cons] at hnodup
  refine ⟨h.books.invoke hplaced hi ?_ ?_ ?_, h.records_invoke hocc hplaced hi, ?_, ?_⟩
  · intro hnone
    cases hnone
  · intro j hj
    cases hj
    refine ⟨?_, _, hmem, rfl, hop.symm⟩
    rw [hcmd]
    exact ClientRegisterCommandContent.noConfusion
  · intro j hj
    rw [hop, operationOf_of_call hstored, ← hcmd']
    exact h.books.original _ stored hstored
  · refine ⟨?_, ?_, ?_, ?_, ?_, ?_⟩
    · rw [hstartup']
      exact hnodup.2
    · rw [hstartup']
      intro r' hr'
      obtain ⟨hrec', hvacant'⟩ := h.startup.entry r' (by rw [hstartup]; exact .tail _ hr')
      exact ⟨(hrec _).trans hrec', (hi.heldBy hocc).mpr hvacant'⟩
    · intro t c ht hc _ _
      rw [hdispatching] at ht
      cases ht
      rcases hi.getElem_cases hc with hc | ⟨_, rfl⟩
      · exact absurd (List.getElem?_eq_some_iff.mp hc).1 (lt_irrefl _)
      · refine ⟨r.register, rfl, (hrec _).trans hr, (hi.heldBy hocc).mpr hvacant, ?_⟩
        rw [hstartup']
        -- no other entry is at the register of the first one
        exact fun r' hr' heq => hnodup.1 (heq ▸ List.mem_map_of_mem hr')
    · intro t c j hc hj hl htaken
      rcases hi.getElem_cases hc with hc | ⟨rfl, rfl⟩
      · -- the command before it has been handed over
        have ht : t ≠ s.calls.length := (List.getElem?_eq_some_iff.mp hc).1.ne
        rw [hi.pcs_of_ne ht] at hl htaken
        rw [(hidle t (h.startup.recovered t c j hc hj hl htaken)).1] at htaken
        cases htaken
      · exact hdispatching
    · intro t c hc hs hl
      rcases hi.getElem_cases hc with hc | ⟨rfl, rfl⟩
      · have ht : t ≠ s.calls.length := (List.getElem?_eq_some_iff.mp hc).1.ne
        rw [hi.pcs_of_ne ht] at hl
        have hnil := (h.startup.fresh t c hc hs hl).1
        -- no client command is accepted before the list is empty
        rw [hstartup] at hnil
        cases hnil
      · cases hs
    · intro hup i r' hvacant' hr'
      rw [hi.heldBy hocc] at hvacant'
      rw [hrec] at hr'
      rcases h.startup.vacant (hi.up ▸ hup) i r' hvacant' hr' with hmem | ⟨t, c, ht, _, _, htaken, _⟩
      · rw [hstartup] at hmem
        rcases List.mem_cons.mp hmem with rfl | hmem
        · obtain rfl := (recordAt_eq_some hr').2.1
          have hcall : s'.calls[s.calls.length]? =
              some ⟨r'.operation, r'.cmd, some r'.register⟩ := by
            rw [hi.calls, List.getElem?_concat_length]
          refine .inr ⟨s.calls.length, _, hdispatching, hcall, rfl, ?_, ?_⟩
          · rw [hnew]
            rfl
          · rw [hnew]
            exact ClientPc.noConfusion
        · exact .inl (hstartup' ▸ hmem)
      · rw [(hidle t ht).1] at htaken
        cases htaken
  · intro i r' hr'
    rw [hi.fired hplaced]
    rw [hrec] at hr'
    exact h.unfired i r' hr'

/-! ## Commands on their way to a register -/

/-- Nothing else is with a register that a new or recovered command receives: a new one
comes after the start-up loop, and a recovered one comes home. -/
theorem Ledger.source_cases (h : Ledger R s) {t : Callback} {call : Call}
    (hcall : s.calls[t]? = some call) (hlost : s.pcs t ≠ .lost)
    (htaken : (s.pcs t).taken = false) :
    call.source = none ∧ s.Accepting ∨
      s.dispatching = some t ∧ ∃ j, call.source = some j ∧
        s.recordAt j = some ⟨call.operation, call.cmd, j⟩ ∧ ∀ r ∈ s.startup, r.register ≠ j := by
  cases hsource : call.source with
  | none => exact .inl ⟨rfl, h.startup.fresh t call hcall hsource hlost⟩
  | some j =>
    have hdispatching := h.startup.recovered t call j hcall hsource hlost htaken
    obtain ⟨j', hsource', hrec, _, hne⟩ := h.startup.current t call hdispatching hcall htaken hlost
    rw [hsource] at hsource'
    cases hsource'
    exact .inr ⟨hdispatching, j, rfl, hrec, hne⟩

/-- A vacant register without a command waiting for it has no record. -/
theorem Ledger.no_record (h : Ledger R s) (hup : s.up = true) (hacc : s.Accepting) {i : ℕ}
    (hvacant : s.HeldBy i none) : s.recordAt i = none := by
  cases hrec : s.recordAt i with
  | none => rfl
  | some r =>
    rcases h.startup.vacant hup i r hvacant hrec with hmem | ⟨t, _, ht, _, _, htaken, _⟩
    · rw [hacc.1] at hmem
      cases hmem
    · rw [(hacc.2 t ht).1] at htaken
      cases htaken

theorem heldBy_of_free (hocc : Occupied N selfIdent s) {i : ℕ} (hfree : s.Free i) :
    s.HeldBy i none := by
  obtain ⟨hgrants, hmail, hhand⟩ := hfree
  refine .vacant (fun u hu => ?_) (List.filterMap_eq_nil_iff.mpr hmail) hhand
  by_cases hlt : u < s.calls.length
  · exact hgrants u hlt hu
  · unfold Process.grants at hu
    rw [hocc.lost u (not_lt.mp hlt)] at hu
    cases hu

theorem not_heldBy_none {i : ℕ} {t : Callback} (h : s.HeldBy i (some t)) : ¬ s.HeldBy i none := by
  intro hnone
  cases hnone with
  | vacant hgrants hmail hhand =>
    cases h with
    | granted hg _ _ => exact hgrants t ((hg t).mpr rfl)
    | mailed _ hm _ => rw [hmail] at hm; cases hm
    | inHand _ _ hh => rw [hhand] at hh; cases hh

/-- **A command receives an index.** -/
theorem ledger_take (hocc : Occupied N selfIdent s) (h : Ledger R s) (hup : s.up = true)
    {t : Callback} {call : Call} {i : ℕ} (hcall : s.calls[t]? = some call)
    (hpc : s.pcs t = .owner) (hfree : s.Free i) (hhome : ∀ j, call.source = some j → j = i)
    (hbank : s'.bank = s.bank) (hup' : s'.up = s.up) (hcalls : s'.calls = s.calls)
    (hpcs : s'.pcs = Function.update s.pcs t (.index i)) (hstartup : s'.startup = s.startup)
    (hdispatching : s'.dispatching = s.dispatching) : Ledger R s' := by
  have hvacant := heldBy_of_free hocc hfree
  have hlost : s.pcs t ≠ .lost := by rw [hpc]; exact ClientPc.noConfusion
  have htaken : (s.pcs t).taken = false := by rw [hpc]; rfl
  have hcases := h.source_cases hcall hlost htaken
  have hself : s'.pcs t = .index i := by rw [hpcs, Function.update_self]
  have hother : ∀ u, u ≠ t → s'.pcs u = s.pcs u := fun u hu => by
    rw [hpcs, Function.update_of_ne hu]
  have hrec : ∀ j, s'.recordAt j = s.recordAt j := fun j =>
    recordAt_congr hcalls (by rw [hbank]) (by rw [hbank])
  have hgrants : ∀ j ≠ i, ∀ u, s'.grants j u ↔ s.grants j u := fun j hj u => by
    refine grants_move hpcs (iff_of_false ?_ ?_) u
    · exact fun hij => hj (Option.some.inj hij).symm
    · unfold Process.grants
      rw [hpc]
      exact fun hnone => by cases hnone
  have hheld : ∀ j ≠ i, ∀ holder, s.HeldBy j holder ↔ s'.HeldBy j holder := fun j hj holder => by
    constructor
    · exact heldBy_congr (hgrants j hj) (mail_congr (by rw [hbank])) (by rw [hbank])
    · exact heldBy_congr (fun u => (hgrants j hj u).symm) (mail_congr (by rw [hbank]))
        (by rw [hbank])
  -- the register was free, so the task that took its index is the one that holds it
  have hnow : s'.HeldBy i (some t) := by
    obtain ⟨holder, hholder⟩ :=
      (occupied_take hocc hup hcall hpc hfree hbank hup' hcalls hpcs).held i
    obtain ⟨hgrants', hmail, hhand⟩ := heldBy_of_grants hholder ((grants_move_self hpcs).mpr rfl)
    exact .granted hgrants' hmail hhand
  refine ⟨h.books.of_same hcalls (by rw [hbank]) (by rw [hbank]) (by rw [hbank]), fun j => ?_,
    ⟨hstartup ▸ h.startup.nodup, ?_, ?_, ?_, ?_, ?_⟩, fun j r hr => ?_⟩
  · by_cases hj : j = i
    · subst hj
      refine .unstored hnow (by rw [hcalls]; exact hcall) (.inl ((grants_move_self hpcs).mpr rfl))
        (fun hsource => ?_) (fun k hsource => ?_)
      · -- a new command: the start-up loop is through
        rw [hrec]
        rcases hcases with ⟨_, hacc⟩ | ⟨_, k, hk, _⟩
        · exact h.no_record hup hacc hvacant
        · rw [hsource] at hk
          cases hk
      · -- a recovered command: it has taken the index of the register it was found in
        obtain rfl := hhome k hsource
        rw [hrec]
        rcases hcases with ⟨hnone, _⟩ | ⟨_, k', hk', hr, _⟩
        · rw [hsource] at hnone
          cases hnone
        · rw [hsource] at hk'
          cases hk'
          exact ⟨rfl, hr⟩
    · refine (h.records j).congr (fun u c hc => by rw [hcalls]; exact hc)
        (fun holder => (hheld j hj holder).mp) (fun u hun => ?_) (hrec j) (by rw [hbank])
        (by rw [hbank]) (fun x hx => by rw [hbank]; exact hx)
      exact Unstored.congr hun (hgrants j hj u) (mail_congr (by rw [hbank])) (by rw [hbank])
  · rw [hstartup]
    -- an entry of the start-up list is at a register whose index has not been taken
    intro r hr
    obtain ⟨hr', hheld'⟩ := h.startup.entry r hr
    have hne : r.register ≠ i := by
      rcases hcases with ⟨_, hacc⟩ | ⟨_, k, hk, _, hne⟩
      · rw [hacc.1] at hr
        cases hr
      · rw [← hhome k hk]
        exact hne r hr
    exact ⟨(hrec _).trans hr', (hheld _ hne none).mp hheld'⟩
  · -- the command that is being dispatched waits for its own index, so it is this one
    intro u c hu hc hut hul
    have hne : u ≠ t := by
      rintro rfl
      rw [hself] at hut
      cases hut
    rw [hother u hne] at hut hul
    rw [hdispatching] at hu
    rcases hcases with ⟨_, hacc⟩ | ⟨ht, _⟩
    · rw [(hacc.2 u hu).1] at hut
      cases hut
    · rw [hu] at ht
      exact absurd (Option.some.inj ht) hne
  · intro u c j hc hj hul hut
    have hne : u ≠ t := by
      rintro rfl
      rw [hself] at hut
      cases hut
    rw [hother u hne] at hut hul
    rw [hdispatching]
    exact h.startup.recovered u c j (hcalls ▸ hc) hj hul hut
  · intro u c hc hs hul
    have hul' : s.pcs u ≠ .lost := by
      by_cases hne : u = t
      · rw [hne]
        exact hlost
      · rw [← hother u hne]
        exact hul
    refine Accepting.mono (h.startup.fresh u c (hcalls ▸ hc) hs hul') hstartup hdispatching ?_
    intro v hv hg
    have hne : v ≠ t := by
      rintro rfl
      rw [htaken] at hv
      cases hv
    rw [hother v hne]
    exact ⟨hv, hg⟩
  · intro _ j r hj hr
    have hne : j ≠ i := by
      rintro rfl
      exact not_heldBy_none hnow hj
    rw [hrec] at hr
    rcases h.startup.vacant hup j r ((hheld j hne none).mpr hj) hr with
      hmem | ⟨u, c, hu, hc, hsource, hut, hul⟩
    · exact .inl (hstartup ▸ hmem)
    · -- the command that took the index was not the one this register waits for
      have hne' : u ≠ t := by
        rintro rfl
        rw [hcall] at hc
        cases hc
        exact hne (hhome j hsource)
      refine .inr ⟨u, c, hdispatching ▸ hu, hcalls ▸ hc, hsource, ?_, ?_⟩
      · rw [hother u hne']
        exact hut
      · rw [hother u hne']
        exact hul
  · rw [hrec] at hr
    rw [Fired.congr hcalls (by rw [hbank])]
    exact h.unfired j r hr

/-- **The message is sent.** -/
theorem ledger_hand (hocc : Occupied N selfIdent s) (h : Ledger R s) (hup : s.up = true)
    {t : Callback} {call : Call} {i : ℕ} (hcall : s.calls[t]? = some call)
    (hpc : s.pcs t = .entered i) (hbank : s'.bank = s.bank.deliver i (.client call.cmd t))
    (hup' : s'.up = s.up) (hcalls : s'.calls = s.calls)
    (hpcs : s'.pcs = Function.update s.pcs t (.handed i)) (hstartup : s'.startup = s.startup)
    (hdispatching : s'.dispatching = s.dispatching) : Ledger R s' := by
  have hself : s'.pcs t = .handed i := by rw [hpcs, Function.update_self]
  have hother : ∀ u, u ≠ t → s'.pcs u = s.pcs u := fun u hu => by
    rw [hpcs, Function.update_of_ne hu]
  have hgrant : s.grants i t := by
    unfold Process.grants
    rw [hpc]
    rfl
  have hstable : s'.bank.stable = s.bank.stable := by rw [hbank]; rfl
  have hstoredBy : s'.bank.storedBy = s.bank.storedBy := by rw [hbank]; rfl
  have hhand : ∀ j, s'.bank.inHand j = s.bank.inHand j := fun j => by rw [hbank]; rfl
  have hrec : ∀ j, s'.recordAt j = s.recordAt j := fun j =>
    recordAt_congr hcalls (by rw [hstable]) (by rw [hstoredBy])
  have hgrants : ∀ j ≠ i, ∀ u, s'.grants j u ↔ s.grants j u := fun j hj u => by
    refine grants_move hpcs (iff_of_false (fun hnone => by cases hnone) ?_) u
    unfold Process.grants
    rw [hpc]
    exact fun hij => hj (Option.some.inj hij).symm
  have hmail : ∀ j ≠ i, s'.mail j = s.mail j := fun j hj => mail_congr (by
    rw [hbank]
    exact Function.update_of_ne hj ..)
  -- the register is held by this task before and after: first by the index, then by the message
  obtain ⟨holder, hholder⟩ := hocc.held i
  obtain ⟨holder', hholder'⟩ := (occupied_hand hocc hup hcall hpc hbank hup' hcalls hpcs).held i
  have hin : t ∈ s'.mail i := by
    unfold Process.mail
    rw [hbank]
    simp [Bank.deliver, WorkerMessage.callback?]
  have hnow : s'.HeldBy i (some t) := by
    obtain ⟨rfl, _⟩ := heldBy_of_mail hholder' hin
    exact hholder'
  have hbefore : s.HeldBy i (some t) := by
    obtain ⟨hg, hm, hh⟩ := heldBy_of_grants hholder hgrant
    exact .granted hg hm hh
  have hheld : ∀ j, s.HeldBy j none ↔ s'.HeldBy j none := fun j => by
    by_cases hj : j = i
    · subst hj
      exact iff_of_false (not_heldBy_none hbefore) (not_heldBy_none hnow)
    · constructor
      · exact heldBy_congr (hgrants j hj) (hmail j hj) (hhand j)
      · exact heldBy_congr (fun u => (hgrants j hj u).symm) (hmail j hj).symm (hhand j).symm
  refine h.of_same hup' hcalls hstartup hdispatching (fun u => ?_) (fun u => ?_) (fun u hu hg => ?_)
    hstable hstoredBy (by rw [hbank]; rfl) (by rw [hbank]; rfl) hheld fun j => ?_
  · by_cases hu : u = t
    · rw [hu, hself, hpc]
      rfl
    · rw [hother u hu]
  · by_cases hu : u = t
    · rw [hu, hself, hpc]
      exact iff_of_false ClientPc.noConfusion ClientPc.noConfusion
    · rw [hother u hu]
  · by_cases hut : u = t
    · rw [hut, hself]
      rfl
    · rw [hother u hut]
      exact hg
  · by_cases hj : j = i
    · subst hj
      obtain ⟨_, hmailNil, hhandNone⟩ := heldBy_of_grants hholder hgrant
      cases h.records j with
      | vacant hv => exact absurd hv (not_heldBy_none hbefore)
      | @unstored u c hu hc hun hfresh hhome =>
        have hut : u = t := by
          cases hu with
          | granted hg _ _ => exact ((hg t).mp hgrant).symm
          | mailed hg _ _ => exact absurd hgrant (hg t)
          | inHand hg _ _ => exact absurd hgrant (hg t)
        subst hut
        exact .unstored hnow (hcalls ▸ hc) (.inr (.inl hin)) (hrec j ▸ hfresh) (hrec j ▸ hhome)
      -- the index had not been used, so no command is in hand
      | writing hh _ _ _ _ _ => rw [hhandNone] at hh; cases hh
      | closing hh _ _ _ _ => rw [hhandNone] at hh; cases hh
      | reading hh _ _ _ => rw [hhandNone] at hh; cases hh
    · refine (h.records j).congr (fun u c hc => by rw [hcalls]; exact hc)
        (fun holder => heldBy_congr (hgrants j hj) (hmail j hj) (hhand j)) (fun u hun => ?_)
        (hrec j) (hhand j) (by rw [hbank]; rfl) (fun x hx => by rw [hbank]; exact hx)
      exact Unstored.congr hun (hgrants j hj u) (hmail j hj) (by rw [hbank]; rfl)

end Executor
end AtomicDiscDrive
