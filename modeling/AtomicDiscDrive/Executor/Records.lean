import AtomicDiscDrive.Executor.Admission

/-!
# The ledger in the registers

The steps of the registers and their threads, crashes and restarts. A write is entered in
the ledger when `client_command` stores it and struck out when the cleared `writing` flag is
stored, right before the callback is called. With the steps of the module before, the ledger
is kept by every step in which client commands receive the indices of free registers only,
and recovered commands those of the registers they were found in (`ledger_step`).
-/

namespace AtomicDiscDrive
namespace Executor

open Utils

variable {N R : ℕ} {selfIdent : UInt8} {s s' : Process} {a : Action}

/-! ## Steps of the registers -/

theorem ledger_shuffle (h : Ledger R s) (hs : Shuffle s s') : Ledger R s' := by
  have hgrants : ∀ i t, s'.grants i t ↔ s.grants i t := fun i t => by
    unfold Process.grants
    rw [hs.grant]
  have hmail : ∀ i, s'.mail i = s.mail i := fun i => mail_congr (by rw [hs.bank])
  have hheld : ∀ i holder, s.HeldBy i holder → s'.HeldBy i holder := fun i holder =>
    heldBy_congr (hgrants i) (hmail i) (by rw [hs.bank])
  refine h.of_same hs.up hs.calls hs.startup hs.dispatching hs.taken hs.lost
    (fun t _ hg => by rw [hs.grant]; exact hg) (by rw [hs.bank]) (by rw [hs.bank]) (by rw [hs.bank])
    (by rw [hs.bank]) (fun i => ⟨hheld i none, ?_⟩) fun i => ?_
  · exact heldBy_congr (fun t => (hgrants i t).symm) (hmail i).symm (by rw [hs.bank])
  · refine (h.records i).congr (fun t c hc => by rw [hs.calls]; exact hc) (hheld i)
      (fun t hun => ?_) (recordAt_congr hs.calls (by rw [hs.bank]) (by rw [hs.bank]))
      (by rw [hs.bank]) (by rw [hs.bank]) (fun x hx => by rw [hs.bank]; exact hx)
    exact Unstored.congr hun (hgrants i t) (hmail i) (by rw [hs.bank])

/-- Steps of the bank that move no client command: a system command reaches a mailbox, or a
thread goes back to waiting. -/
theorem ledger_idle (h : Ledger R s) (hup : s'.up = s.up) (hcalls : s'.calls = s.calls)
    (hpcs : s'.pcs = s.pcs) (hstartup : s'.startup = s.startup)
    (hdispatching : s'.dispatching = s.dispatching) (hstable : s'.bank.stable = s.bank.stable)
    (hstoredBy : s'.bank.storedBy = s.bank.storedBy) (hstored : s'.bank.stored = s.bank.stored)
    (hfired : s'.bank.fired = s.bank.fired) (hmail : ∀ i, s'.mail i = s.mail i)
    (hhand : ∀ i, s'.bank.inHand i = s.bank.inHand i)
    (hdue : ∀ i, s'.bank.due i = s.bank.due i)
    (hclient : ∀ i cmd t rest, s.bank.workers i = .running (.client cmd t) rest →
      s'.bank.workers i = .running (.client cmd t) rest) : Ledger R s' := by
  have hgrants : ∀ i t, s'.grants i t ↔ s.grants i t := fun i t => by
    unfold Process.grants
    rw [hpcs]
  have hheld : ∀ i holder, s.HeldBy i holder → s'.HeldBy i holder := fun i holder =>
    heldBy_congr (hgrants i) (hmail i) (hhand i)
  refine h.of_same hup hcalls hstartup hdispatching (fun t => by rw [hpcs]) (fun t => by rw [hpcs])
    (fun t _ hg => by rw [hpcs]; exact hg) hstable hstoredBy hstored hfired
    (fun i => ⟨hheld i none, ?_⟩) fun i => ?_
  · exact heldBy_congr (fun t => (hgrants i t).symm) (hmail i).symm (hhand i).symm
  · refine (h.records i).congr (fun t c hc => by rw [hcalls]; exact hc) (hheld i)
      (fun t hun => ?_) (recordAt_congr hcalls (by rw [hstable]) (by rw [hstoredBy]))
      (hhand i) (hdue i) (fun x hx => by rw [hstored]; exact hx)
    rcases hun with hg | hm | ⟨cmd, rest, hw, hput⟩
    · exact .inl ((hgrants i t).mpr hg)
    · exact .inr (.inl (hmail i ▸ hm))
    · exact .inr (.inr ⟨cmd, rest, hclient i cmd t rest hw, hdue i ▸ hput⟩)

/-- A register that does not take part in a step of the bank. -/
theorem RecordAt.same {i : ℕ} (h : RecordAt s i) (hsame : Bank.SameAt s.bank s'.bank i)
    (hcalls : s'.calls = s.calls) (hpcs : s'.pcs = s.pcs)
    (hstored : ∀ x ∈ s.bank.stored, x ∈ s'.bank.stored) : RecordAt s' i := by
  refine h.congr (fun t c hc => by rw [hcalls]; exact hc)
    (fun holder => heldBy_bank hpcs hsame.mailboxes hsame.inHand) (fun t hun => ?_)
    (recordAt_congr hcalls hsame.stable hsame.storedBy) hsame.inHand hsame.due hstored
  refine Unstored.congr hun ?_ (mail_congr hsame.mailboxes) hsame.workers
  unfold Process.grants
  rw [hpcs]

/-- A write never goes straight to its callback: the cleared flag is stored first. -/
theorem Serves.not_report {register final : AtomicRegisterImplementation} {t : Callback}
    {cmd : ClientRegisterCommand} {ops : List RegisterOp} {msg : WorkerMessage}
    (h : Serves register t cmd) (hwrite : cmd.content ≠ .read)
    (hout : Outcome register msg ops final) (op : OperationComplete) :
    ops ≠ [.operationComplete t op] := by
  rintro rfl
  cases hcontent : cmd.content with
  | read => exact hwrite hcontent
  | write data =>
    generalize hops : [RegisterOp.operationComplete t op] = ops at hout
    cases hout with
    | readDone o hid hreading hval =>
      rw [(h.write data hcontent).1] at hreading
      cases hreading
    | _ => cases hops

/-- `client_command` stores its state. -/
theorem Outcome.put_client {register final : AtomicRegisterImplementation}
    {cmd : ClientRegisterCommand} {t : Callback} {ops : List RegisterOp}
    (h : Outcome register (.client cmd t) ops final) : ∃ state, .put state ∈ ops := by
  cases h
  exact ⟨_, List.mem_cons_self⟩

/-- **A register takes a message.** -/
theorem ledger_receive (hocc : Occupied N selfIdent s) (h : Ledger R s) {i : ℕ}
    {iter : IterOrder} (hrec : s.bank.receive i iter = some s'.bank) (hup : s'.up = s.up)
    (hcalls : s'.calls = s.calls) (hpcs : s'.pcs = s.pcs) (hstartup : s'.startup = s.startup)
    (hdispatching : s'.dispatching = s.dispatching) : Ledger R s' := by
  obtain ⟨msg, mailbox, hr⟩ := hocc.reception hrec
  have hrecord : s'.recordAt i = s.recordAt i :=
    recordAt_congr hcalls (by rw [hr.receives.stable]) (by rw [hr.receives.storedBy])
  have hgrants : ∀ t, s'.grants i t ↔ s.grants i t := fun t => by
    unfold Process.grants
    rw [hpcs]
  have hrest : s.bank.Resting i := Bank.resting_of_eq hr.receives.waiting (.inr rfl)
  obtain ⟨rest, hw⟩ := hr.receives.running
  have hfirst : s.mail i = msg.callback?.toList ++ s'.mail i := by
    unfold Process.mail
    rw [hr.receives.first, hr.receives.mailbox, List.filterMap_cons]
    cases msg <;> rfl
  -- only the register that takes the message changes, and nothing is stored yet
  have hat : (s.HeldBy i none ↔ s'.HeldBy i none) ∧ RecordAt s' i := by
    cases msg with
    | client cmd t =>
      obtain ⟨hnone, hnil, hhand⟩ := hr.client cmd t rfl
      have hhand' : s'.bank.inHand i = some t := hr.handAfter
      have hmail : t ∈ s.mail i := by
        rw [hfirst]
        exact List.mem_cons_self
      have hnow : s'.HeldBy i (some t) := by
        refine .inHand (fun u hu => hnone u ((hgrants u).mp hu)) ?_ hhand'
        unfold Process.mail
        rw [hr.receives.mailbox]
        exact hnil
      obtain ⟨holder, hholder⟩ := hocc.held i
      obtain ⟨rfl, _⟩ := heldBy_of_mail hholder hmail
      refine ⟨iff_of_false (not_heldBy_none hholder) (not_heldBy_none hnow), ?_⟩
      cases h.records i with
      | vacant hv => exact absurd hv (not_heldBy_none hholder)
      | @unstored u c hu hc hun hfresh hhome =>
        have hut : u = t := (Option.some.inj (heldBy_of_mail hu hmail).1)
        subst hut
        exact .unstored hnow (hcalls ▸ hc) (.inr (.inr ⟨cmd, rest, hw, hr.outcome.put_client⟩))
          (hrecord ▸ hfresh) (hrecord ▸ hhome)
      -- a client command is only taken by a register that has none in hand
      | writing hh _ _ _ _ _ => rw [hhand] at hh; cases hh
      | closing hh _ _ _ _ => rw [hhand] at hh; cases hh
      | reading hh _ _ _ => rw [hhand] at hh; cases hh
    | system cmd o =>
      have hhand' : s'.bank.inHand i = s.bank.inHand i := hr.handAfter
      have hheld : ∀ holder, s.HeldBy i holder → s'.HeldBy i holder := fun holder =>
        heldBy_congr hgrants hfirst.symm hhand'
      refine ⟨⟨hheld none, heldBy_congr (fun t => (hgrants t).symm) hfirst hhand'.symm⟩, ?_⟩
      cases h.records i with
      | vacant hv => exact .vacant (hheld none hv)
      | @unstored u c hu hc hun hfresh hhome =>
        refine .unstored (hheld _ hu) (hcalls ▸ hc) ?_ (hrecord ▸ hfresh) (hrecord ▸ hhome)
        rcases hun with hg | hm | ⟨cmd', rest', hw', _⟩
        · exact .inl ((hgrants u).mpr hg)
        · rw [hfirst] at hm
          exact .inr (.inl hm)
        · exact absurd hw' (hrest _ _)
      | @writing t c hh hc hwrite hopen hst hrc =>
        refine .writing (hhand'.trans hh) (hcalls ▸ hc) hwrite (fun op => ?_)
          (by rw [hr.receives.stored]; exact hst) (hrecord.trans hrc)
        have hmode := hr.mode
        rw [hh] at hmode
        cases hmode with
        | @serving _ c' _ hc' hserves _ =>
          rw [hc] at hc'
          cases hc'
          exact hserves.not_report hwrite hr.outcome op
        | completing _ _ _ hops => rcases hops with hops | ⟨_, hops⟩ <;> cases hops
      | closing _ _ hd _ _ =>
        rw [hrest.due] at hd
        cases hd
      | reading hh hc hread hrc =>
        exact .reading (hhand'.trans hh) (hcalls ▸ hc) hread (hrecord.trans hrc)
  refine h.of_same hup hcalls hstartup hdispatching (fun t => by rw [hpcs]) (fun t => by rw [hpcs])
    (fun t _ hg => by rw [hpcs]; exact hg) hr.receives.stable hr.receives.storedBy
    hr.receives.stored hr.receives.fired (fun j => ?_) fun j => ?_
  · by_cases hj : j = i
    · rw [hj]
      exact hat.1
    · have hsame := hr.receives.others j hj
      exact ⟨heldBy_bank hpcs hsame.mailboxes hsame.inHand,
        heldBy_bank hpcs.symm hsame.mailboxes.symm hsame.inHand.symm⟩
  · by_cases hj : j = i
    · rw [hj]
      exact hat.2
    · exact (h.records j).same (hr.receives.others j hj) hcalls hpcs
        fun x hx => by rw [hr.receives.stored]; exact hx

/-! ## Calls of the handlers -/

/-- Steps in which nothing is stored but records may be cleared. -/
theorem Books.of_records (h : Books R s) (hcalls : s'.calls = s.calls)
    (hstored : s'.bank.stored = s.bank.stored)
    (hrec : ∀ i r, s'.recordAt i = some r →
      s.recordAt i = some r ∧ s'.bank.storedBy i = s.bank.storedBy i) : Books R s' := by
  have hop : ∀ t, s'.operationOf t = s.operationOf t := operationOf_congr hcalls
  constructor
  case record =>
    intro i r hr
    obtain ⟨hr, hby⟩ := hrec i r hr
    rw [hby, hstored, hcalls]
    exact h.record i r hr
  all_goals
    simp only [hcalls, hstored, hop]
  · exact h.fresh
  · exact h.recovered
  · exact h.original
  · exact h.stored
  · exact h.storedFirst
  · exact h.home

/-- What a register stores while it is busy with call `t`: in the phases of a write the
write, and nothing in those of a read or once the write is acknowledged. -/
theorem Mode.stored_state {calls : List Call} {register : AtomicRegisterImplementation}
    {ops : List RegisterOp} {t : Callback} {call : Call} {state : AtomicRegisterStorageState}
    (h : Mode calls register (.put state :: ops) (some t)) (hcall : calls[t]? = some call) :
    (∃ cmd, ops = [.broadcast cmd]) ∧
        (call.cmd.content = .read → state.writing = false) ∧
        (∀ data, call.cmd.content = .write data →
          state.writing = true ∧ state.writeval = some ⟨call.cmd.header, data⟩) ∨
      (∃ op, ops = [.operationComplete t op]) ∧ call.cmd.content ≠ .read ∧
        state.writing = false := by
  have hstate := h.put.1
  cases h with
  | serving hc hserves hops =>
    rw [hcall] at hc
    cases hc
    rcases hops with hops | ⟨cmd, hops | hops⟩
    · cases hops
    · cases hops
    · cases hops
      refine .inl ⟨⟨cmd, rfl⟩, fun hread => (hserves.read hread).2.1, fun data hdata => ?_⟩
      exact (hserves.write data hdata).2
  | completing hc hidle hop hops =>
    rw [hcall] at hc
    cases hc
    rcases hops with hops | ⟨hwrite, hops⟩
    · cases hops
    · cases hops
      exact .inr ⟨⟨_, rfl⟩, hwrite, hidle.writing⟩

/-- A register that has a call to make is busy. -/
theorem Mode.hand_of_due {calls : List Call} {register : AtomicRegisterImplementation}
    {op : RegisterOp} {ops : List RegisterOp} {hand : Option Callback}
    (h : Mode calls register (op :: ops) hand) :
    ∃ t call, hand = some t ∧ calls[t]? = some call := by
  cases h with
  | serving hcall _ _ => exact ⟨_, _, rfl, hcall⟩
  | completing hcall _ _ _ => exact ⟨_, _, rfl, hcall⟩

theorem stableState_of_some {b : Bank} {i : ℕ} {state : AtomicRegisterStorageState}
    (h : b.stable i = some state) : b.stableState i = state := by
  unfold Bank.stableState
  rw [h, Option.getD_some]

/-- Before call `t` has been stored, no record and no completion is about it, unless it was
recovered. -/
theorem Ledger.fresh_unstored (h : Ledger R s) (hplaced : Placed s) {i : ℕ} {t : Callback}
    {call : Call} (hcall : s.calls[t]? = some call) (hsource : call.source = none)
    (hin : s.bank.inHand i = some t) (hun : s.Unstored i t) :
    (∀ x ∈ s.bank.stored, s.operationOf x.2 ≠ call.operation) ∧ ¬ s.Fired call.operation := by
  have hop : call.operation = t := h.books.fresh t call hcall hsource
  have hplace := hplaced.handed i t (.inr hin)
  have hstored : ∀ x ∈ s.bank.stored, s.operationOf x.2 ≠ call.operation := fun x hx heq => by
    -- the first call of the operation would have been stored
    obtain ⟨y, hy, hyt⟩ := h.books.storedFirst x hx
    rw [heq, hop] at hyt
    obtain ⟨_, hpc, hnot⟩ := hplaced.stored y hy
    rw [hyt, hplace] at hpc
    rcases hpc with hpc | hpc
    · cases hpc
      exact hnot (by rw [hyt]; exact hun)
    · cases hpc
  refine ⟨hstored, ?_⟩
  rintro ⟨f, hf, hfop⟩
  obtain ⟨hlt, _, hnowhere⟩ := hplaced.fired f hf
  have hc : s.calls[f.1]? = some s.calls[f.1] := List.getElem?_eq_getElem hlt
  rw [operationOf_of_call hc, hop] at hfop
  cases hfs : s.calls[f.1].source with
  | none =>
    have heq := h.books.fresh f.1 _ hc hfs
    exact (hnowhere i).2 (hin.trans (by rw [← heq, hfop]))
  | some j =>
    obtain ⟨_, x, hx, _, hxop⟩ := h.books.recovered f.1 _ j hc hfs
    exact hstored x hx (hxop.trans (hfop.trans hop.symm))

/-- `client_command` stores a write: the books, if the operation has no other home. -/
theorem Books.store (h : Books R s) {i : ℕ} {t : Callback} {call : Call} (hi : i < R)
    (hcall : s.calls[t]? = some call) (hwrite : call.cmd.content ≠ .read)
    (hhome : ∀ x ∈ s.bank.stored, s.operationOf x.2 = call.operation → x.1 = i)
    (hcalls : s'.calls = s.calls) (hstored : s'.bank.stored = s.bank.stored ++ [(i, t)])
    (hstoredBy : s'.bank.storedBy i = t)
    (hrec : s'.recordAt i = some ⟨call.operation, call.cmd, i⟩)
    (hothers : ∀ j ≠ i, s'.recordAt j = s.recordAt j ∧
      s'.bank.storedBy j = s.bank.storedBy j) : Books R s' := by
  have hop : ∀ u, s'.operationOf u = s.operationOf u := operationOf_congr hcalls
  have hopt : s.operationOf t = call.operation := operationOf_of_call hcall
  have hmem : ∀ {x}, x ∈ s'.bank.stored ↔ x ∈ s.bank.stored ∨ x = (i, t) := fun {x} => by
    rw [hstored, List.mem_append, List.mem_singleton]
  refine ⟨by rw [hcalls]; exact h.fresh, fun u c j hc hs => ?_, by rw [hcalls]; exact h.original,
    fun x hx => ?_, fun x hx => ?_, fun x hx y hy hxy => ?_, fun j r hr => ?_⟩
  · rw [hcalls] at hc
    obtain ⟨hw, x, hx, hj, hopx⟩ := h.recovered u c j hc hs
    exact ⟨hw, x, hmem.mpr (.inl hx), hj, (hop _).trans hopx⟩
  · rw [hcalls]
    rcases hmem.mp hx with hx | rfl
    · exact h.stored x hx
    · exact ⟨hi, call, hcall, hwrite⟩
  · -- the first store of an operation is by its own call; a recovered one has been stored before
    rw [hop]
    rcases hmem.mp hx with hx | rfl
    · obtain ⟨y, hy, hyx⟩ := h.storedFirst x hx
      exact ⟨y, hmem.mpr (.inl hy), hyx⟩
    · rw [hopt]
      cases hs : call.source with
      | none => exact ⟨(i, t), hmem.mpr (.inr rfl), (h.fresh t call hcall hs).symm⟩
      | some j =>
        obtain ⟨_, x, hx, _, hopx⟩ := h.recovered t call j hcall hs
        obtain ⟨y, hy, hyx⟩ := h.storedFirst x hx
        exact ⟨y, hmem.mpr (.inl hy), hyx.trans hopx⟩
  · rw [hop, hop] at hxy
    rcases hmem.mp hx with hx | rfl
    · rcases hmem.mp hy with hy | rfl
      · exact h.home x hx y hy hxy
      · exact hhome x hx (hxy.trans hopt)
    · rcases hmem.mp hy with hy | rfl
      · exact (hhome y hy (hxy.symm.trans hopt)).symm
      · rfl
  · by_cases hj : j = i
    · subst hj
      rw [hrec] at hr
      cases hr
      rw [hstoredBy, hcalls]
      exact ⟨hmem.mpr (.inr rfl), call, hcall, rfl⟩
    · rw [(hothers j hj).1] at hr
      obtain ⟨hm, c, hc, hcmd⟩ := h.record j r hr
      rw [(hothers j hj).2, hcalls]
      exact ⟨hmem.mpr (.inl hm), c, hc, hcmd⟩

/-- The handler of register `i` goes on, in a process that keeps its ledger. -/
structure CallStep (s s' : Process) (i : ℕ) : Prop where
  acts : Bank.Acts s.bank i s'.bank
  up : s'.up = s.up
  calls : s'.calls = s.calls
  pcs : s'.pcs = s.pcs
  startup : s'.startup = s.startup
  dispatching : s'.dispatching = s.dispatching

namespace CallStep

variable {i : ℕ}

theorem grants (hc : CallStep s s' i) (j t : ℕ) : s'.grants j t ↔ s.grants j t := by
  unfold Process.grants
  rw [hc.pcs]

theorem mail (hc : CallStep s s' i) (j : ℕ) : s'.mail j = s.mail j :=
  mail_congr (by rw [hc.acts.mailboxes])

theorem heldBy_of_ne (hc : CallStep s s' i) {j : ℕ} (hj : j ≠ i) {holder : Option Callback} :
    s.HeldBy j holder ↔ s'.HeldBy j holder := by
  have hsame := hc.acts.others j hj
  constructor
  · exact heldBy_bank hc.pcs hsame.mailboxes hsame.inHand
  · exact heldBy_bank hc.pcs.symm hsame.mailboxes.symm hsame.inHand.symm

theorem heldBy (hc : CallStep s s' i) (hhand : s'.bank.inHand i = s.bank.inHand i)
    {holder : Option Callback} : s.HeldBy i holder ↔ s'.HeldBy i holder := by
  constructor
  · exact heldBy_congr (hc.grants i) (hc.mail i) hhand
  · exact heldBy_congr (fun t => (hc.grants i t).symm) (hc.mail i).symm hhand.symm

theorem recordAt_of_ne (hc : CallStep s s' i) {j : ℕ} (hj : j ≠ i) :
    s'.recordAt j = s.recordAt j :=
  recordAt_congr hc.calls (hc.acts.others j hj).stable (hc.acts.others j hj).storedBy

theorem startup_kept (hc : CallStep s s' i) (h : Startup s)
    (hvacant : s.HeldBy i none → s'.HeldBy i none ∧ s'.recordAt i = s.recordAt i)
    (hvacant' : ∀ r, s'.HeldBy i none → s'.recordAt i = some r →
      s.HeldBy i none ∧ s.recordAt i = some r) : Startup s' := by
  refine h.of_same hc.up hc.calls hc.startup hc.dispatching (fun t => by rw [hc.pcs])
    (fun t => by rw [hc.pcs]) (fun t _ hg => by rw [hc.pcs]; exact hg) (fun j hj => ?_)
    fun j r hj hr => ?_
  · by_cases hji : j = i
    · subst hji
      exact hvacant hj
    · exact ⟨(hc.heldBy_of_ne hji).mp hj, hc.recordAt_of_ne hji⟩
  · by_cases hji : j = i
    · subst hji
      exact hvacant' r hj hr
    · exact ⟨(hc.heldBy_of_ne hji).mpr hj, (hc.recordAt_of_ne hji) ▸ hr⟩

/-- A handler that has visible calls to make goes on with its message. -/
theorem running (hc : CallStep s s' i) {msg : WorkerMessage}
    {rest : RegisterProgram AtomicRegisterImplementation}
    (hw : s.bank.workers i = .running msg rest) (hdue : s.bank.due i ≠ []) :
    ∃ rest, s'.bank.workers i = .running msg rest := by
  have hworks : ∀ {msg'}, Bank.Works s.bank s'.bank i msg' →
      ∃ rest, s'.bank.workers i = .running msg rest := fun hworks => by
    obtain ⟨rest₀, hw₀⟩ := hworks.before
    rw [hw] at hw₀
    cases hw₀
    exact hworks.running
  have hacts := hc.acts
  generalize s'.bank = b' at hacts hworks ⊢
  cases hacts with
  | silent _ _ _ h _ _ => exact hworks h
  | put h _ => exact hworks h
  | broadcast h _ => exact hworks h
  | complete h _ => exact hworks h
  | returned _ hnil _ => exact absurd hnil hdue

end CallStep

/-- Nothing is stored and nothing completed. -/
theorem ledger_quiet (hocc : Occupied N selfIdent s) (h : Ledger R s) {i : ℕ}
    (hc : CallStep s s' i) (hsame : SameRecords s.bank s'.bank)
    (hhand : s'.bank.inHand i = s.bank.inHand i)
    (hdue : s'.bank.due i = s.bank.due i ∨ ∃ cmd, s.bank.due i = .broadcast cmd :: s'.bank.due i) :
    Ledger R s' := by
  have hrec : ∀ j, s'.recordAt j = s.recordAt j := fun j =>
    recordAt_congr hc.calls (by rw [hsame.stable]) (by rw [hsame.storedBy])
  have hstored : ∀ x ∈ s.bank.stored, x ∈ s'.bank.stored := fun x hx => by
    rw [hsame.stored]
    exact hx
  refine h.of_same hc.up hc.calls hc.startup hc.dispatching (fun t => by rw [hc.pcs])
    (fun t => by rw [hc.pcs]) (fun t _ hg => by rw [hc.pcs]; exact hg) hsame.stable hsame.storedBy
    hsame.stored hsame.fired (fun j => ?_) fun j => ?_
  · by_cases hj : j = i
    · subst hj
      exact hc.heldBy hhand
    · exact hc.heldBy_of_ne hj
  · by_cases hj : j = i
    swap
    · exact (h.records j).same (hc.acts.others j hj) hc.calls hc.pcs hstored
    subst hj
    cases h.records j with
    | vacant hv => exact .vacant ((hc.heldBy hhand).mp hv)
    | @unstored u c hu hcu hun hfresh hhome =>
      refine .unstored ((hc.heldBy hhand).mp hu) (hc.calls ▸ hcu) ?_ (hrec j ▸ hfresh)
        (hrec j ▸ hhome)
      -- a command that has not been stored is still on its way, or its handler is still to store it
      rcases hun with hg | hm | ⟨cmd, rest, hw, state, hput⟩
      · exact .inl ((hc.grants j u).mpr hg)
      · exact .inr (.inl (hc.mail j ▸ hm))
      · obtain ⟨rest', hw'⟩ := hc.running hw (List.ne_nil_of_mem hput)
        refine .inr (.inr ⟨cmd, rest', hw', state, ?_⟩)
        rcases hdue with hdue | ⟨out, hdue⟩
        · rw [hdue]
          exact hput
        · rw [hdue] at hput
          exact (List.mem_cons.mp hput).resolve_left RegisterOp.noConfusion
    | @writing u c hin hcu hwrite hopen hst hr =>
      refine .writing (hhand.trans hin) (hc.calls ▸ hcu) hwrite (fun op => ?_) (hstored _ hst)
        ((hrec j).trans hr)
      rcases hdue with hdue | ⟨out, hdue⟩
      · rw [hdue]
        exact hopen op
      · have hmode := (hocc.register j).mode
        rw [hdue] at hmode
        rw [hmode.broadcast.1]
        exact (List.cons_ne_nil _ _).symm
    | @closing u c op hin hcu hd hst hr =>
      have hd' : s'.bank.due j = [.operationComplete u op] := by
        rcases hdue with hdue | ⟨out, hdue⟩
        · exact hdue.trans hd
        · rw [hdue] at hd
          cases hd
      exact .closing (hhand.trans hin) (hc.calls ▸ hcu) hd' (fun hw => hstored _ (hst hw))
        ((hrec j).trans hr)
    | reading hin hcu hread hr =>
      exact .reading (hhand.trans hin) (hc.calls ▸ hcu) hread ((hrec j).trans hr)

theorem not_heldBy_none_of_inHand {i : ℕ} {t : Callback} (hin : s.bank.inHand i = some t) :
    ¬ s.HeldBy i none := by
  intro hv
  cases hv with
  | vacant _ _ hh =>
    rw [hin] at hh
    cases hh

/-- `client_command` does not complete its command. -/
theorem RegisterOk.not_complete {calls : List Call} {b : Bank} {i : ℕ} (h : RegisterOk calls b i)
    {cmd : ClientRegisterCommand} {t : Callback}
    {rest : RegisterProgram AtomicRegisterImplementation}
    (hw : b.workers i = .running (.client cmd t) rest) (op : OperationComplete) :
    .operationComplete t op ∉ b.due i := by
  intro hmem
  have hmode := h.mode
  rw [Bank.inHand_running_client hw] at hmode
  generalize b.due i = ops at hmode hmem
  cases hmode with
  | serving _ _ hops => rcases hops with rfl | ⟨out, rfl | rfl⟩ <;> simp at hmem
  | completing _ hidle _ _ =>
    have hcallback := (h.starting cmd t rest hw).1
    rw [hidle.callback] at hcallback
    cases hcallback

/-- What a register is at when it is about to store its state. -/
theorem RecordAt.of_put {i : ℕ} {t : Callback} {call : Call} {state : AtomicRegisterStorageState}
    {ops : List RegisterOp} (h : RecordAt s i) (hin : s.bank.inHand i = some t)
    (hcall : s.calls[t]? = some call) (hdue : s.bank.due i = .put state :: ops) :
    (∃ cmd rest, s.bank.workers i = .running (.client cmd t) rest ∧
        (call.source = none → s.recordAt i = none) ∧
        ∀ j, call.source = some j → j = i ∧ s.recordAt i = some ⟨call.operation, call.cmd, i⟩) ∨
      (call.cmd.content ≠ .read ∧ (i, t) ∈ s.bank.stored ∧
        s.recordAt i = some ⟨call.operation, call.cmd, i⟩) ∨
      call.cmd.content = .read ∧ s.recordAt i = none := by
  cases h with
  | vacant hv => exact absurd hv (not_heldBy_none_of_inHand hin)
  | @unstored u c hu hc hun hfresh hhome =>
    obtain ⟨heq, hgrants, hmail⟩ := heldBy_of_inHand hu hin
    cases heq
    rw [hcall] at hc
    cases hc
    rcases hun with hg | hm | ⟨cmd, rest, hw, _⟩
    · exact absurd hg (hgrants _)
    · rw [hmail] at hm
      cases hm
    · exact .inl ⟨cmd, rest, hw, hfresh, hhome⟩
  | writing hh hc hwrite _ hst hr =>
    rw [hin] at hh
    cases hh
    rw [hcall] at hc
    cases hc
    exact .inr (.inl ⟨hwrite, hst, hr⟩)
  | closing _ _ hd _ _ =>
    rw [hdue] at hd
    cases hd
  | reading hh hc hread hr =>
    rw [hin] at hh
    cases hh
    rw [hcall] at hc
    cases hc
    exact .inr (.inr ⟨hread, hr⟩)

/-- Register `i`, busy with call `t`, stores its state: what this means for its record. -/
inductive Entry (s s' : Process) (i : ℕ) (t : Callback) (call : Call) : Prop where
  /-- `client_command` stores a write: a new one, or a recovered one where it was -/
  | opened (hwrite : call.cmd.content ≠ .read) (hun : s.Unstored i t)
      (hfresh : call.source = none → s.recordAt i = none)
      (hhome : ∀ j, call.source = some j →
        j = i ∧ s.recordAt i = some ⟨call.operation, call.cmd, i⟩)
      (hstored : s'.bank.stored = s.bank.stored ++ [(i, t)]) (hstoredBy : s'.bank.storedBy i = t)
      (hdue : ∀ op, s'.bank.due i ≠ [.operationComplete t op])
      (hrec : s'.recordAt i = some ⟨call.operation, call.cmd, i⟩)
  /-- a phase of a write -/
  | kept (hwrite : call.cmd.content ≠ .read) (hmem : (i, t) ∈ s.bank.stored)
      (hstored : s'.bank.stored = s.bank.stored)
      (hstoredBy : s'.bank.storedBy i = s.bank.storedBy i)
      (hdue : ∀ op, s'.bank.due i ≠ [.operationComplete t op])
      (hbefore : s.recordAt i = some ⟨call.operation, call.cmd, i⟩)
      (hrec : s'.recordAt i = some ⟨call.operation, call.cmd, i⟩)
  /-- the end of a write -/
  | closed {op : OperationComplete} (hwrite : call.cmd.content ≠ .read)
      (hmem : (i, t) ∈ s.bank.stored) (hstored : s'.bank.stored = s.bank.stored)
      (hstoredBy : s'.bank.storedBy i = s.bank.storedBy i)
      (hdue : s'.bank.due i = [.operationComplete t op])
      (hbefore : s.recordAt i = some ⟨call.operation, call.cmd, i⟩)
      (hrec : s'.recordAt i = none)
  /-- a phase of a read -/
  | read (hread : call.cmd.content = .read) (hstored : s'.bank.stored = s.bank.stored)
      (hstoredBy : s'.bank.storedBy i = s.bank.storedBy i) (hbefore : s.recordAt i = none)
      (hrec : s'.recordAt i = none)

/-- The store of `client_command`, for a write. -/
theorem entry_of_write (hocc : Occupied N selfIdent s) (hplaced : Placed s) (h : Ledger R s)
    {i : ℕ} (hcalls : s'.calls = s.calls) {header : ClientCommandHeader} {data : SectorVec}
    {t : Callback} {call : Call} {state : AtomicRegisterStorageState}
    {rest : RegisterProgram AtomicRegisterImplementation} (hcall : s.calls[t]? = some call)
    (hw : s.bank.workers i = .running (.client ⟨header, .write data⟩ t) rest)
    (hdue : s.bank.due i = .put state :: s'.bank.due i)
    (hstable : s'.bank.stable i = some state)
    (hstoredBy : s'.bank.storedBy i = t) (hstored : s'.bank.stored = s.bank.stored ++ [(i, t)]) :
    Entry s s' i t call := by
  have hin : s.bank.inHand i = some t := Bank.inHand_running_client hw
  have hcmd : call.cmd = ⟨header, .write data⟩ := by
    obtain ⟨_, c, hc, hcmd⟩ := (hocc.register i).starting _ _ _ hw
    rw [hcall] at hc
    cases hc
    exact hcmd
  have hread : call.cmd.content ≠ .read := by
    rw [hcmd]
    exact ClientRegisterCommandContent.noConfusion
  have hun : s.Unstored i t :=
    .inr (.inr ⟨_, rest, hw, state, by rw [hdue]; exact List.mem_cons_self⟩)
  have hmode := (hocc.register i).mode
  rw [hdue, hin] at hmode
  rcases hmode.stored_state hcall with ⟨⟨out, hops⟩, _, hstate⟩ | ⟨⟨op, hops⟩, _, _⟩
  · obtain ⟨hwriting, hval⟩ := hstate data (by rw [hcmd])
    have hrec : s'.recordAt i = some ⟨call.operation, call.cmd, i⟩ := by
      have hst := stableState_of_some hstable
      rw [recordAt_of_writing (by rw [hst]; exact hwriting) (by rw [hst]; exact hval), hstoredBy,
        operationOf_congr hcalls, operationOf_of_call hcall, hcmd]
    rcases (h.records i).of_put hin hcall hdue with ⟨_, _, _, hfresh, hhome⟩ | ⟨_, hst, _⟩ | ⟨hr, _⟩
    · refine .opened hread hun hfresh hhome hstored hstoredBy (fun op heq => ?_) hrec
      rw [hops] at heq
      cases heq
    · exact absurd hun (hplaced.stored _ hst).2.2
    · exact absurd hr hread
  · have hnot := (hocc.register i).not_complete hw op
    rw [hdue, hops] at hnot
    exact absurd (.tail _ List.mem_cons_self) hnot

/-- The stores of `client_command` for a read, and of `system_command`. -/
theorem entry_of_phase (hocc : Occupied N selfIdent s) (h : Ledger R s) {i : ℕ}
    (hcalls : s'.calls = s.calls) {msg : WorkerMessage} {t : Callback} {call : Call}
    {state : AtomicRegisterStorageState} (hmsg : msg.storedFor = none)
    (hw : ∃ rest, s.bank.workers i = .running msg rest) (hin : s.bank.inHand i = some t)
    (hcall : s.calls[t]? = some call) (hdue : s.bank.due i = .put state :: s'.bank.due i)
    (hstable : s'.bank.stable i = some state)
    (hstoredBy : s'.bank.storedBy i = s.bank.storedBy i)
    (hstored : s'.bank.stored = s.bank.stored) : Entry s s' i t call := by
  have hmode := (hocc.register i).mode
  rw [hdue, hin] at hmode
  have hst := stableState_of_some hstable
  -- of a command that is starting, this is the store of a read
  have hclient : ∀ cmd rest, s.bank.workers i = .running (.client cmd t) rest →
      call.cmd.content = .read := fun cmd rest hw' => by
    obtain ⟨_, c, hcc, rfl⟩ := (hocc.register i).starting _ _ _ hw'
    rw [hcall] at hcc
    cases hcc
    obtain ⟨_, hw⟩ := hw
    rw [hw'] at hw
    cases hw
    obtain ⟨operation, ⟨header, content⟩, source⟩ := call
    cases content with
    | read => rfl
    | write data => cases hmsg
  have hcases := (h.records i).of_put hin hcall hdue
  have hwrite : call.cmd.content ≠ .read → (i, t) ∈ s.bank.stored ∧
      s.recordAt i = some ⟨call.operation, call.cmd, i⟩ := fun hne => by
    rcases hcases with ⟨cmd, rest, hw', _⟩ | ⟨_, hmem, hr⟩ | ⟨hr, _⟩
    · exact absurd (hclient cmd rest hw') hne
    · exact ⟨hmem, hr⟩
    · exact absurd hr hne
  rcases hmode.stored_state hcall with ⟨⟨out, hops⟩, hread, hval⟩ | ⟨⟨op, hops⟩, hne, hwriting⟩
  · cases hcontent : call.cmd.content with
    | read =>
      refine .read hcontent hstored hstoredBy ?_ (recordAt_eq_none (by rw [hst]; exact hread hcontent))
      rcases hcases with ⟨cmd, rest, hw', hfresh, _⟩ | ⟨hne, _⟩ | ⟨_, hr⟩
      · cases hs : call.source with
        | none => exact hfresh hs
        | some j => exact absurd hcontent (h.books.recovered t call j hcall hs).1
      · exact absurd hcontent hne
      · exact hr
    | write data =>
      have hne : call.cmd.content ≠ .read := by
        rw [hcontent]
        exact ClientRegisterCommandContent.noConfusion
      obtain ⟨hmem, hr⟩ := hwrite hne
      obtain ⟨hwriting, hval⟩ := hval data hcontent
      have hcmd : (⟨call.cmd.header, .write data⟩ : ClientRegisterCommand) = call.cmd := by
        rw [← hcontent]
      refine .kept hne hmem hstored hstoredBy (fun op heq => ?_) hr ?_
      · rw [hops] at heq
        cases heq
      · rw [recordAt_of_writing (by rw [hst]; exact hwriting) (by rw [hst]; exact hval),
          hstoredBy, operationOf_congr hcalls, ← (recordAt_eq_some hr).2.2.1, hcmd]
  · obtain ⟨hmem, hr⟩ := hwrite hne
    exact .closed hne hmem hstored hstoredBy hops hr (recordAt_eq_none (by rw [hst]; exact hwriting))

/-- The books after a store. -/
theorem Entry.books (hplaced : Placed s) (h : Ledger R s) {i : ℕ} {t : Callback} {call : Call}
    (hi : i < R) (hc : CallStep s s' i) (hin : s.bank.inHand i = some t)
    (hcall : s.calls[t]? = some call) (hentry : Entry s s' i t call) : Books R s' := by
  -- a store that does not enter anything
  have hkeep : s'.bank.stored = s.bank.stored → s'.bank.storedBy i = s.bank.storedBy i →
      (∀ r, s'.recordAt i = some r → s.recordAt i = some r) → Books R s' :=
    fun hstored hstoredBy hat => by
      refine h.books.of_records hc.calls hstored fun j r hr => ?_
      by_cases hj : j = i
      · subst hj
        exact ⟨hat r hr, hstoredBy⟩
      · rw [hc.recordAt_of_ne hj] at hr
        exact ⟨hr, (hc.acts.others j hj).storedBy⟩
  cases hentry with
  | opened hwrite hun hfresh hhome hstored hstoredBy _ hrec =>
    refine h.books.store hi hcall hwrite (fun y hy hop => ?_) hc.calls hstored hstoredBy hrec
      fun j hj => ⟨hc.recordAt_of_ne hj, (hc.acts.others j hj).storedBy⟩
    cases hs : call.source with
    | none => exact absurd hop ((h.fresh_unstored hplaced hcall hs hin hun).1 y hy)
    | some j =>
      obtain ⟨rfl, _⟩ := hhome j hs
      obtain ⟨_, x, hx, hxj, hxop⟩ := h.books.recovered t call j hcall hs
      exact (h.books.home y hy x hx (hop.trans hxop.symm)).trans hxj
  | kept _ _ hstored hstoredBy _ hbefore hrec =>
    exact hkeep hstored hstoredBy fun r hr => hbefore.trans (hrec.symm.trans hr)
  | closed _ _ hstored hstoredBy _ _ hrec =>
    refine hkeep hstored hstoredBy fun r hr => ?_
    rw [hrec] at hr
    cases hr
  | read _ hstored hstoredBy _ hrec =>
    refine hkeep hstored hstoredBy fun r hr => ?_
    rw [hrec] at hr
    cases hr

/-- What a register has stored has not been completed. -/
theorem Entry.unfired (hplaced : Placed s) (h : Ledger R s) {i : ℕ} {t : Callback} {call : Call}
    (hin : s.bank.inHand i = some t) (hcall : s.calls[t]? = some call)
    (hentry : Entry s s' i t call) {r : Recovered} (hr : s'.recordAt i = some r) :
    ¬ s.Fired r.operation := by
  cases hentry with
  | opened _ hun _ hhome _ _ _ hrec =>
    rw [hrec] at hr
    cases hr
    cases hs : call.source with
    | none => exact (h.fresh_unstored hplaced hcall hs hin hun).2
    | some j => exact h.unfired i _ (hhome j hs).2
  | kept _ _ _ _ _ hbefore hrec => exact h.unfired i r (hbefore.trans (hrec.symm.trans hr))
  | closed _ _ _ _ _ _ hrec =>
    rw [hrec] at hr
    cases hr
  | read _ _ _ _ hrec =>
    rw [hrec] at hr
    cases hr

/-- **`store_state`.** -/
theorem ledger_put (hplaced : Placed s) (h : Ledger R s) {i : ℕ} {t : Callback} {call : Call}
    (hi : i < R) (hc : CallStep s s' i) (hin : s.bank.inHand i = some t)
    (hhand : s'.bank.inHand i = some t) (hcall : s.calls[t]? = some call)
    (hfired : s'.bank.fired = s.bank.fired) (hentry : Entry s s' i t call) : Ledger R s' := by
  have hcall' : s'.calls[t]? = some call := hc.calls ▸ hcall
  have hstored : ∀ x ∈ s.bank.stored, x ∈ s'.bank.stored := fun x hx => by
    cases hentry with
    | opened _ _ _ _ hstored _ _ _ =>
      rw [hstored]
      exact List.mem_append_left _ hx
    | kept _ _ hstored _ _ _ _ => exact hstored ▸ hx
    | closed _ _ hstored _ _ _ _ => exact hstored ▸ hx
    | read _ hstored _ _ _ => exact hstored ▸ hx
  refine ⟨hentry.books hplaced h hi hc hin hcall, fun j => ?_, ?_, fun j r hr => ?_⟩
  · by_cases hj : j = i
    swap
    · exact (h.records j).same (hc.acts.others j hj) hc.calls hc.pcs hstored
    subst hj
    cases hentry with
    | opened hwrite _ _ _ hst _ hdue hrec =>
      refine .writing hhand hcall' hwrite hdue ?_ hrec
      rw [hst]
      exact List.mem_append_right _ (List.mem_singleton_self _)
    | kept hwrite hmem _ _ hdue _ hrec => exact .writing hhand hcall' hwrite hdue (hstored _ hmem) hrec
    | closed _ hmem _ _ hdue _ hrec =>
      exact .closing hhand hcall' hdue (fun _ => hstored _ hmem) hrec
    | read hread _ _ _ hrec => exact .reading hhand hcall' hread hrec
  · exact hc.startup_kept h.startup (fun hv => absurd hv (not_heldBy_none_of_inHand hin))
      fun r hv _ => absurd hv (not_heldBy_none_of_inHand hhand)
  · rw [Fired.congr hc.calls hfired]
    by_cases hj : j = i
    · subst hj
      exact hentry.unfired hplaced h hin hcall hr
    · rw [hc.recordAt_of_ne hj] at hr
      exact h.unfired j r hr

/-- A record is not about the operation of a call that another register completes. -/
theorem Books.ne_of_home (h : Books R s) {i j : ℕ} {t : Callback} {call : Call} {r : Recovered}
    (hcall : s.calls[t]? = some call)
    (hstored : call.cmd.content ≠ .read → (i, t) ∈ s.bank.stored)
    (hrec : s.recordAt j = some r) (hj : j ≠ i) : r.operation ≠ s.operationOf t := by
  intro heq
  obtain ⟨hmem, c, hc, hcmd⟩ := h.record j r hrec
  have hop : s.operationOf (s.bank.storedBy j) = s.operationOf t :=
    (recordAt_eq_some hrec).2.2.1.symm.trans heq
  by_cases hread : call.cmd.content = .read
  · -- both calls have the command of their operation, and reads are not stored
    obtain ⟨orig, horig, _, hsame⟩ := h.original _ call hcall
    obtain ⟨orig', horig', _, hsame'⟩ := h.original _ c hc
    rw [operationOf_of_call hc, operationOf_of_call hcall] at hop
    rw [hop, horig] at horig'
    cases horig'
    obtain ⟨_, c', hc', hwrite⟩ := h.stored _ hmem
    rw [hc] at hc'
    cases hc'
    rw [← hsame', hsame] at hwrite
    exact hwrite hread
  · exact hj (h.home _ hmem _ (hstored hread) hop)

/-- **The callback is called.** -/
theorem ledger_complete (hocc : Occupied N selfIdent s) (h : Ledger R s) {i : ℕ}
    (hc : CallStep s s' i) {t : Callback} {op : OperationComplete} (hin : s.bank.inHand i = some t) (hnone : s'.bank.inHand i = none)
    (hdue : s.bank.due i = [.operationComplete t op])
    (hstable : s'.bank.stable = s.bank.stable) (hstoredBy : s'.bank.storedBy = s.bank.storedBy)
    (hstored : s'.bank.stored = s.bank.stored)
    (hfired : s'.bank.fired = s.bank.fired ++ [(t, op)]) : Ledger R s' := by
  have hrec : ∀ j, s'.recordAt j = s.recordAt j := fun j =>
    recordAt_congr hc.calls (by rw [hstable]) (by rw [hstoredBy])
  -- the record has been cleared before
  have hat : s.recordAt i = none ∧ ∃ call, s.calls[t]? = some call ∧
      (call.cmd.content ≠ .read → (i, t) ∈ s.bank.stored) := by
    cases h.records i with
    | vacant hv => exact absurd hv (not_heldBy_none_of_inHand hin)
    | unstored hu _ hun _ _ =>
      obtain ⟨_, hgrants, hmail⟩ := heldBy_of_inHand hu hin
      rcases hun with hg | hm | ⟨_, _, _, state, hput⟩
      · exact absurd hg (hgrants _)
      · rw [hmail] at hm
        cases hm
      · rw [hdue] at hput
        simp at hput
    | writing hh _ _ hopen _ _ =>
      rw [hin] at hh
      cases hh
      exact absurd hdue (hopen op)
    | closing hh hcall _ hst hr =>
      rw [hin] at hh
      cases hh
      exact ⟨hr, _, hcall, hst⟩
    | reading hh hcall hread hr =>
      rw [hin] at hh
      cases hh
      exact ⟨hr, _, hcall, fun hw => absurd hread hw⟩
  obtain ⟨hclear, call, hcall, hst⟩ := hat
  have hvacant : s'.HeldBy i none := by
    obtain ⟨holder, hholder⟩ := hocc.held i
    obtain ⟨_, hgrants, hmail⟩ := heldBy_of_inHand hholder hin
    exact .vacant (fun u hu => hgrants u ((hc.grants i u).mp hu)) ((hc.mail i).trans hmail) hnone
  refine ⟨h.books.of_same hc.calls hstable hstoredBy hstored, fun j => ?_, ?_, fun j r hr => ?_⟩
  · by_cases hj : j = i
    · subst hj
      exact .vacant hvacant
    · exact (h.records j).same (hc.acts.others j hj) hc.calls hc.pcs
        fun x hx => by rw [hstored]; exact hx
  · refine hc.startup_kept h.startup (fun hv => absurd hv (not_heldBy_none_of_inHand hin))
      fun r _ hr => ?_
    rw [hrec, hclear] at hr
    cases hr
  · rw [hrec] at hr
    rintro ⟨f, hf, hop⟩
    rw [operationOf_congr hc.calls] at hop
    rw [hfired, List.mem_append, List.mem_singleton] at hf
    rcases hf with hf | rfl
    · exact h.unfired j r hr ⟨f, hf, hop⟩
    · have hj : j ≠ i := by
        rintro rfl
        rw [hclear] at hr
        cases hr
      exact h.books.ne_of_home hcall hst hr hj hop.symm

/-- What a step of a handler means for the records. -/
inductive Posting (s s' : Process) (i : ℕ) : Prop where
  | none (hsame : SameRecords s.bank s'.bank) (hhand : s'.bank.inHand i = s.bank.inHand i)
      (hdue : s'.bank.due i = s.bank.due i ∨
        ∃ cmd, s.bank.due i = .broadcast cmd :: s'.bank.due i)
  | put {t : Callback} {call : Call} {state : AtomicRegisterStorageState}
      (hin : s.bank.inHand i = some t) (hhand : s'.bank.inHand i = some t)
      (hcall : s.calls[t]? = some call) (hdue : s.bank.due i = .put state :: s'.bank.due i)
      (hfired : s'.bank.fired = s.bank.fired) (hentry : Entry s s' i t call)
  | complete {t : Callback} {op : OperationComplete} (hin : s.bank.inHand i = some t)
      (hhand : s'.bank.inHand i = Option.none) (hdue : s.bank.due i = [.operationComplete t op])
      (hstable : s'.bank.stable = s.bank.stable) (hstoredBy : s'.bank.storedBy = s.bank.storedBy)
      (hstored : s'.bank.stored = s.bank.stored)
      (hfired : s'.bank.fired = s.bank.fired ++ [(t, op)])

theorem CallStep.posting (hocc : Occupied N selfIdent s) (hplaced : Placed s) (h : Ledger R s)
    {i : ℕ} (hc : CallStep s s' i) : Posting s s' i := by
  obtain ⟨_, hdeed⟩ := (hocc.register i).call hc.acts
  cases hdeed with
  | quiet hsame hhand hdue _ => exact .none hsame hhand hdue
  | @put msg state hhand hdue hw _ hstable hfired hstoredBy hstored =>
    have hmode := (hocc.register i).mode
    rw [hdue] at hmode
    obtain ⟨t, call, hin, hcall⟩ := hmode.hand_of_due
    refine .put hin (hhand.trans hin) hcall hdue hfired ?_
    cases hmsg : msg.storedFor with
    | none =>
      rw [hmsg] at hstoredBy hstored
      exact entry_of_phase hocc h hc.calls hmsg hw hin hcall hdue hstable hstoredBy
        (hstored.trans (List.append_nil _))
    | some u =>
      obtain ⟨rest, hw⟩ := hw
      rw [hmsg] at hstoredBy hstored
      rcases msg with cmd | ⟨⟨header, _ | data⟩, u⟩
      · cases hmsg
      · cases hmsg
      · cases hmsg
        rw [Bank.inHand_running_client hw] at hin
        cases hin
        exact entry_of_write hocc hplaced h hc.calls hcall hw hdue hstable hstoredBy hstored
  | complete hin hnone hdue _ hstable hstoredBy hstored hfired _ =>
    exact .complete hin hnone hdue hstable hstoredBy hstored hfired

/-- **A handler goes on.** -/
theorem ledger_call (hocc : Occupied N selfIdent s) (hplaced : Placed s) (h : Ledger R s) {i : ℕ}
    (hi : i < R) (hc : CallStep s s' i) : Ledger R s' := by
  cases hc.posting hocc hplaced h with
  | none hsame hhand hdue => exact ledger_quiet hocc h hc hsame hhand hdue
  | put hin hhand hcall _ hfired hentry =>
    exact ledger_put hplaced h hi hc hin hhand hcall hfired hentry
  | complete hin hnone hdue hstable hstoredBy hstored hfired =>
    exact ledger_complete hocc h hc hin hnone hdue hstable hstoredBy hstored hfired

/-! ## Crashes and restarts -/

/-- A process in which every call is lost and every register vacant. -/
theorem ledger_lost (h : Ledger R s) (hcalls : s'.calls = s.calls)
    (hstable : s'.bank.stable = s.bank.stable) (hstoredBy : s'.bank.storedBy = s.bank.storedBy)
    (hstored : s'.bank.stored = s.bank.stored) (hfired : s'.bank.fired = s.bank.fired)
    (hvacant : ∀ i, s'.HeldBy i none) (hstartup : Startup s') : Ledger R s' := by
  refine ⟨h.books.of_same hcalls hstable hstoredBy hstored, fun i => .vacant (hvacant i), hstartup,
    fun i r hr => ?_⟩
  rw [recordAt_congr hcalls (by rw [hstable]) (by rw [hstoredBy])] at hr
  rw [Fired.congr hcalls hfired]
  exact h.unfired i r hr

theorem ledger_crash (h : Ledger R s) : Ledger R (s.crash N selfIdent) := by
  have hvacant : ∀ i, (s.crash N selfIdent).HeldBy i none := fun i => by
    refine .vacant (fun u hu => ?_) rfl rfl
    cases hu
  refine ledger_lost h rfl rfl rfl rfl rfl hvacant ⟨List.nodup_nil, ?_, ?_, ?_, ?_, ?_⟩
  · exact fun r hr => absurd hr List.not_mem_nil
  · exact fun t call ht => by cases ht
  · exact fun t call j _ _ hl => absurd rfl hl
  · exact fun t call _ _ hl => absurd rfl hl
  · exact fun hup => Bool.noConfusion hup

theorem ledger_restart (hocc : Occupied N selfIdent s) (h : Ledger R s)
    (hrestart : s.restart N R selfIdent = some s') : Ledger R s' := by
  have hr := hocc.restarted hrestart
  have hrec : ∀ i, s'.recordAt i = s.recordAt i := fun i =>
    recordAt_congr hr.calls (by rw [hr.stable]) (by rw [hr.storedBy])
  refine ledger_lost h hr.calls hr.stable hr.storedBy hr.stored hr.fired hr.vacant
    ⟨?_, ?_, ?_, ?_, ?_, ?_⟩
  · rw [hr.startup]
    exact pendingCmds_registers_nodup
  · rw [hr.startup]
    intro r hmem
    exact ⟨(hrec _).trans (mem_pendingCmds.mp hmem).2, hr.vacant _⟩
  · intro t call ht
    rw [hr.dispatching] at ht
    cases ht
  · exact fun t call j _ _ hl => absurd (hr.pcs t) hl
  · exact fun t call _ _ hl => absurd (hr.pcs t) hl
  · intro _ i r _ hri
    rw [hrec] at hri
    obtain rfl := (recordAt_eq_some hri).2.1
    obtain ⟨hmem, _⟩ := h.books.record _ r hri
    refine .inl ?_
    rw [hr.startup]
    exact mem_pendingCmds.mpr ⟨(h.books.stored _ hmem).1, hri⟩

theorem ledger_init : Ledger R (.init N selfIdent) := by
  have hrec : ∀ i r, (Process.init N selfIdent).recordAt i ≠ some r := fun i r hr => by cases hr
  refine ⟨⟨?_, ?_, ?_, ?_, ?_, ?_, ?_⟩, fun i => .vacant ?_, ⟨List.nodup_nil, ?_, ?_, ?_, ?_, ?_⟩, ?_⟩
  · exact fun t call hc => by cases hc
  · exact fun t call j hc => by cases hc
  · exact fun t call hc => by cases hc
  · exact fun x hx => absurd hx List.not_mem_nil
  · exact fun x hx => absurd hx List.not_mem_nil
  · exact fun x hx => absurd hx List.not_mem_nil
  · exact fun i r hr => absurd hr (hrec i r)
  · exact .vacant (fun u hu => by cases hu) rfl rfl
  · exact fun r hr => absurd hr List.not_mem_nil
  · exact fun t call ht => by cases ht
  · exact fun t call j hc => by cases hc
  · exact fun t call hc => by cases hc
  · exact fun _ i r _ hr => absurd hr (hrec i r)
  · exact fun i r hr => absurd hr (hrec i r)

/-- **The ledger, step by step.** -/
theorem ledger_step (hocc : Occupied N selfIdent s) (hplaced : Placed s) (h : Ledger R s)
    (hfree : s.TakesFree a) (hhome : s.TakesHome a) (hstep : s.step N R selfIdent a = some s') :
    Ledger R s' := by
  have hup : a ≠ .restart → s.up = true := up_of_step hstep
  cases step_event hstep with
  | shuffle _ hs => exact ledger_shuffle h hs
  | submit hacc =>
    exact ledger_submit hocc hplaced h (invokes_submit s _) rfl rfl hacc rfl rfl
  | dispatch hstartup hidle =>
    exact ledger_dispatch hocc hplaced h hstartup hidle (invokes_dispatch s _ _ _) rfl rfl
  | @take t call i _ hcall hpc hready =>
    have htakes : (t, i) ∈ s.takes (.client t) := by simp [Process.takes, hpc, hready]
    exact ledger_take hocc h (hup Action.noConfusion) hcall hpc (hfree (t, i) htakes)
      (fun j hj => hhome (t, i) htakes call hcall j hj) rfl rfl rfl rfl rfl rfl
  | hand hcall hpc =>
    exact ledger_hand hocc h (hup Action.noConfusion) hcall hpc rfl rfl rfl rfl rfl rfl
  | @deliver j i task htask hpc =>
    exact ledger_idle h rfl rfl rfl rfl rfl rfl rfl rfl rfl (fun k => mail_deliver_system rfl k)
      (fun k => rfl) (fun k => rfl) fun k cmd t rest hw => hw
  | @announce i _ hw =>
    refine ledger_idle h rfl rfl rfl rfl rfl rfl rfl rfl rfl (fun k => rfl)
      (Bank.inHand_waiting hw) (Bank.due_waiting hw) fun k cmd t rest hrun => ?_
    by_cases hk : k = i
    · subst hk
      rw [hw] at hrun
      cases hrun
    · simpa only [Function.update_of_ne hk] using hrun
  | receive _ hrec => exact ledger_receive hocc h hrec rfl rfl rfl rfl rfl
  | @call i bank finishing hi hcall =>
    have hacts := Bank.call_cases hcall (hocc.register i).steady
    exact ledger_call hocc hplaced h hi ⟨hacts, rfl, rfl, rfl, rfl, rfl⟩
  | crash => exact ledger_crash h
  | restart hrestart => exact ledger_restart hocc h hrestart

end Executor
end AtomicDiscDrive
