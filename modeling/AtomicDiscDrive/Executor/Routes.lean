import AtomicDiscDrive.Executor.Delivery

/-!
# Where replies are sent

`msg_id_handler_sector_idx` has the register of a command under the identifier the client
chose. Calls with one identifier are calls of one operation, if no client uses an identifier
twice (`Process.FreshIdent`), and an operation has one register, if recovered commands go
back to the register they were found in: so the map leads to the register the messages of the
command are from (`Routes.register_eq`).
-/

namespace AtomicDiscDrive
namespace Executor

open Utils

/-- The register whose index a task has received. -/
def ClientPc.received : ClientPc → Option ℕ
  | .index i | .entered i | .handed i => some i
  | _ => none

/-- The identifier of a new request has not been used before, at this process. -/
def Process.FreshIdent (s : Process) : Action → Prop
  | .submit cmd =>
    ∀ call ∈ s.calls, call.cmd.header.requestIdentifier ≠ cmd.header.requestIdentifier
  | _ => True

instance (s : Process) (a : Action) : Decidable (s.FreshIdent a) :=
  match a with
  | .submit cmd => inferInstanceAs (Decidable (∀ call ∈ s.calls,
      call.cmd.header.requestIdentifier ≠ cmd.header.requestIdentifier))
  | .arrive _ _ | .reject _ | .dispatch | .client _ | .system _ | .announce _ | .receive _ _ | .call _
  | .finish _ _ | .crash | .restart => inferInstanceAs (Decidable True)

/-- The handler map, and the calls that made its entries. -/
structure Routes (s : Process) : Prop where
  distinct : ∀ (t u : ℕ) call call', s.calls[t]? = some call → s.calls[u]? = some call' →
    call.source = none → call'.source = none →
    call.cmd.header.requestIdentifier = call'.cmd.header.requestIdentifier → t = u
  homed : ∀ (t : ℕ) call j i, s.calls[t]? = some call → call.source = some j →
    (s.pcs t).received = some i → i = j
  entry : ∀ uuid i sector, s.msgIdHandlerSectorIdx uuid = some (i, sector) →
    ∃ (t : ℕ) (call : Call), s.calls[t]? = some call ∧
      uuid = .fromRequest call.cmd.header.requestIdentifier ∧
      (s.pcs t = .entered i ∨ s.pcs t = .handed i)

variable {N R : ℕ} {selfIdent : UInt8} {s s' : Process} {a : Action}

/-! ## Steps -/

theorem received_eq_some {pc : ClientPc} {i : ℕ} :
    pc.received = some i ↔ pc.grant = some i ∨ pc = .handed i := by
  cases pc <;> simp [ClientPc.received, ClientPc.grant]

/-- A task has received an index before, or receives it in this step. -/
theorem received_step (hocc : Occupied N selfIdent s) (h : s.step N R selfIdent a = some s')
    {t : Callback} {i : ℕ} (hi : (s'.pcs t).received = some i) :
    (s.pcs t).received = some i ∨ (t, i) ∈ s.takes a := by
  -- the task of call `u` moves
  have hmove : ∀ u pc, s'.pcs = Function.update s.pcs u pc →
      (pc.received = some i → t = u → (s.pcs t).received = some i ∨ (t, i) ∈ s.takes a) →
      (s.pcs t).received = some i ∨ (t, i) ∈ s.takes a := by
    intro u pc hpcs hpc
    rw [hpcs] at hi
    by_cases htu : t = u
    · subst htu
      rw [Function.update_self] at hi
      exact hpc hi rfl
    · rw [Function.update_of_ne htu] at hi
      exact .inl hi
  cases step_event h with
  | shuffle _ hs =>
    refine .inl (received_eq_some.mpr ?_)
    rcases received_eq_some.mp hi with hgrant | hhanded
    · exact .inl (hs.grant t ▸ hgrant)
    · -- the command was with a register, and it is the same one
      have htaken := hs.taken t
      have hnone := hs.grant t
      rw [hhanded] at htaken hnone
      cases hpc : s.pcs t with
      | handed k =>
        have hk := hs.handed t k hpc
        rw [hhanded] at hk
        cases hk
        exact .inr rfl
      | index k | entered k =>
        rw [hpc] at hnone
        cases hnone
      | ticket | check c | yield c | parked c | owner | lost =>
        rw [hpc] at htaken
        cases htaken
  | submit _ => exact hmove _ _ rfl fun hpc _ => by cases hpc
  | dispatch _ _ => exact hmove _ _ rfl fun hpc _ => by cases hpc
  | @take u call k _ hcall hpc hready =>
    refine hmove _ _ rfl fun hk htu => .inr ?_
    cases hk
    simp [Process.takes, hpc, hready, htu]
  | @hand u call k hcall hpc =>
    refine hmove _ _ rfl fun hk htu => .inl ?_
    rw [htu, hpc]
    exact hk
  | crash => cases hi
  | restart hrestart =>
    rw [(hocc.restarted hrestart).pcs] at hi
    cases hi
  | _ => exact .inl hi

/-- A command that is in the handler map is handed to the register it has there. -/
theorem entered_step (hocc : Occupied N selfIdent s) (h : s.step N R selfIdent a = some s')
    (ha : a ≠ .crash) {t : Callback} {i : ℕ} (ht : s.pcs t = .entered i ∨ s.pcs t = .handed i) :
    s'.pcs t = .entered i ∨ s'.pcs t = .handed i := by
  have hmove : ∀ u pc, s'.pcs = Function.update s.pcs u pc →
      (∀ i, s.pcs u ≠ .entered i) → (∀ i, s.pcs u ≠ .handed i) →
      s'.pcs t = .entered i ∨ s'.pcs t = .handed i := by
    intro u pc hpcs hentered hhanded
    rw [hpcs, Function.update_of_ne]
    · exact ht
    · rintro rfl
      exact ht.elim (hentered i) (hhanded i)
  have hnew : s.pcs s.calls.length = .lost := hocc.lost _ le_rfl
  cases step_turn h with
  | aside hs _ _ _ _ => exact hs.pcs ▸ ht
  | submit | dispatch _ => exact hmove _ _ rfl (by simp [hnew]) (by simp [hnew])
  | ticket _ hpc | owns _ hpc | defers _ hpc | parks _ hpc | take _ hpc | enter _ hpc =>
    exact hmove _ _ rfl (by simp [hpc]) (by simp [hpc])
  | @hand u call k hcall hpc =>
    by_cases htu : t = u
    · subst htu
      rw [hpc] at ht
      rcases ht with ht | ht
      · cases ht
        exact .inr (Function.update_self ..)
      · cases ht
    · show Function.update s.pcs u _ t = _ ∨ Function.update s.pcs u _ t = _
      rw [Function.update_of_ne htu]
      exact ht
  | @notifies j written task sector hj hpc =>
    show s.wake sector t = _ ∨ s.wake sector t = _
    rcases wake_cases (s := s) sector t with heq | ⟨c, hc, -⟩
    · rw [heq]
      exact ht
    · rw [hc] at ht
      rcases ht with ht | ht <;> cases ht
  | crash => exact absurd rfl ha
  | restart hrestart => exact (restart_aside hrestart).pcs ▸ ht
  | _ => exact ht

/-- What is in the handler map was there before, or is entered in this step. -/
theorem handlers_step (h : s.step N R selfIdent a = some s') {uuid : Uuid} {i : ℕ}
    {sector : SectorIdx} (hentry : s'.msgIdHandlerSectorIdx uuid = some (i, sector)) :
    a ≠ .crash ∧ (s.msgIdHandlerSectorIdx uuid = some (i, sector) ∨
      ∃ (t : ℕ) (call : Call), s.calls[t]? = some call ∧
        uuid = .fromRequest call.cmd.header.requestIdentifier ∧ s'.pcs t = .entered i) := by
  cases step_turn h with
  | aside hs _ _ _ ha => exact ⟨ha.1, .inl (hs.handlers ▸ hentry)⟩
  | @enter t call k hcall hpc hfree =>
    refine ⟨Action.noConfusion, ?_⟩
    by_cases hid : uuid = .fromRequest call.cmd.header.requestIdentifier
    · subst hid
      simp only [Function.update_self, Option.some.injEq, Prod.mk.injEq] at hentry
      obtain ⟨rfl, rfl⟩ := hentry
      exact .inr ⟨t, call, hcall, rfl, Function.update_self ..⟩
    · simp only [Function.update_of_ne hid] at hentry
      exact .inl hentry
  | @removes j written task entry hj hpc hfree hold =>
    refine ⟨Action.noConfusion, .inl ?_⟩
    by_cases hid : uuid = .fromRequest task.requestIdentifier
    · subst hid
      simp only [Function.update_self, reduceCtorEq] at hentry
    · simp only [Function.update_of_ne hid] at hentry
      exact hentry
  | crash => cases hentry
  | restart hrestart =>
    exact ⟨Action.noConfusion, .inl ((restart_aside hrestart).handlers ▸ hentry)⟩
  | _ => exact ⟨Action.noConfusion, .inl hentry⟩

/-- A call is an old one, or the one that is made in this step. -/
theorem calls_step (h : s.step N R selfIdent a = some s') {t : ℕ} {call : Call}
    (hcall : s'.calls[t]? = some call) :
    s.calls[t]? = some call ∨ t = s.calls.length ∧
      ((∃ j, call.source = some j) ∨ ∃ cmd, a = .submit cmd ∧ call = ⟨t, cmd, none⟩) := by
  cases step_event h with
  | shuffle _ hs => exact .inl (hs.calls ▸ hcall)
  | submit _ =>
    rcases append_cases hcall with hold | ⟨rfl, rfl⟩
    · exact .inl hold
    · exact .inr ⟨rfl, .inr ⟨_, rfl, rfl⟩⟩
  | dispatch _ _ =>
    rcases append_cases hcall with hold | ⟨rfl, rfl⟩
    · exact .inl hold
    · exact .inr ⟨rfl, .inl ⟨_, rfl⟩⟩
  | restart hrestart => exact .inl ((restart_aside hrestart).calls ▸ hcall)
  | _ => exact .inl hcall

/-- **Routes are kept**, if new requests have new identifiers and recovered commands go home. -/
theorem routes_step (hocc : Occupied N selfIdent s) (h : Routes s) (hfresh : s.FreshIdent a)
    (hhome : s.TakesHome a) (hstep : s.step N R selfIdent a = some s') : Routes s' := by
  have hevent := step_event hstep
  refine ⟨?_, ?_, ?_⟩
  · -- a new call is not recovered only if its identifier is new
    have hnew : ∀ (t u : ℕ) call call', s.calls[t]? = some call → s'.calls[u]? = some call' →
        s.calls[u]? ≠ some call' → call'.source = none →
        call.cmd.header.requestIdentifier ≠ call'.cmd.header.requestIdentifier := by
      intro t u call call' ht hu hnot hsource
      rcases calls_step hstep hu with hu | ⟨-, ⟨j, hj⟩ | ⟨cmd, rfl, rfl⟩⟩
      · exact absurd hu hnot
      · rw [hsource] at hj
        cases hj
      · exact hfresh call (List.mem_of_getElem? ht)
    intro t u call call' ht hu hst hsu hid
    rcases calls_step hstep ht with hold | ⟨htlen, -⟩
    · rcases calls_step hstep hu with hold' | ⟨hulen, -⟩
      · exact h.distinct t u call call' hold hold' hst hsu hid
      · refine absurd hid (hnew t u call call' hold hu ?_ hsu)
        simp [hulen]
    · rcases calls_step hstep hu with hold' | ⟨hulen, -⟩
      · refine absurd hid.symm (hnew u t call' call hold' ht ?_ hst)
        simp [htlen]
      · rw [htlen, hulen]
  · intro t call j i hcall hsource hi
    rcases received_step hocc hstep hi with hold | htakes
    · rcases calls_step hstep hcall with hcall | ⟨rfl, -⟩
      · exact h.homed t call j i hcall hsource hold
      · rw [hocc.lost _ le_rfl] at hold
        cases hold
    · -- the index is the one of the register the command was found in
      rcases calls_step hstep hcall with hcall | ⟨rfl, -⟩
      · exact (hhome (t, i) htakes call hcall j hsource).symm
      · cases a with
        | client u =>
          simp only [Process.takes, Option.mem_def, Option.ite_none_right_eq_some,
            Option.map_eq_some_iff] at htakes
          obtain ⟨howner, k, -, hk⟩ := htakes
          cases hk
          rw [hocc.lost _ le_rfl] at howner
          cases howner
        | _ => cases htakes
  · intro uuid i sector hentry
    -- an entry was there before, or has just been made by the task of its command
    obtain ⟨ha, hentry | ⟨t, call, hcall, huuid, hpc⟩⟩ := handlers_step hstep hentry
    · obtain ⟨t, call, hcall, huuid, hpc⟩ := h.entry uuid i sector hentry
      exact ⟨t, call, hevent.calls_mono hcall, huuid, entered_step hocc hstep ha hpc⟩
    · exact ⟨t, call, hevent.calls_mono hcall, huuid, .inl hpc⟩

theorem routes_init : Routes (.init N selfIdent) := by
  refine ⟨?_, ?_, ?_⟩
  · intro t u call call' ht
    cases ht
  · intro t call j i ht
    cases ht
  · intro uuid i sector hentry
    cases hentry

/-! ## One identifier, one register -/

/-- Calls with one identifier are calls of one operation. -/
theorem Routes.operation_eq (h : Routes s) (hbooks : Books R s) {t u : ℕ} {call call' : Call}
    (ht : s.calls[t]? = some call) (hu : s.calls[u]? = some call')
    (hid : call.cmd.header.requestIdentifier = call'.cmd.header.requestIdentifier) :
    call.operation = call'.operation := by
  obtain ⟨orig, horig, hsource, hcmd⟩ := hbooks.original t call ht
  obtain ⟨orig', horig', hsource', hcmd'⟩ := hbooks.original u call' hu
  apply h.distinct _ _ orig orig' horig horig' hsource hsource'
  rw [hcmd, hcmd', hid]

/-- **A reply is sent to the register that asked.** Call `t` has been handed to register `k`,
and stored there if it is a write: the handler map has no other register for its identifier. -/
theorem Routes.register_eq (h : Routes s) (hplaced : Placed s) (hbooks : Books R s) {t : ℕ}
    {call : Call} {i k : ℕ} {sector : SectorIdx} (hcall : s.calls[t]? = some call)
    (hplace : s.pcs t = .handed k ∨ s.pcs t = .lost)
    (hstored : call.cmd.content ≠ .read → (k, t) ∈ s.bank.stored)
    (hentry : s.msgIdHandlerSectorIdx (.fromRequest call.cmd.header.requestIdentifier) =
      some (i, sector)) : i = k := by
  obtain ⟨u, call', hcall', huuid, hpc⟩ := h.entry _ i sector hentry
  have hop := h.operation_eq hbooks hcall hcall' (Uuid.fromRequest_injective huuid)
  by_cases htu : t = u
  · subst htu
    rcases hplace with hplace | hplace <;> rw [hplace] at hpc <;> rcases hpc with hpc | hpc <;>
      cases hpc
    rfl
  -- otherwise the operation is a write, and one of the two calls is a recovered one
  have hcmd : call.cmd = call'.cmd := by
    obtain ⟨orig, horig, -, hsame⟩ := hbooks.original t call hcall
    obtain ⟨orig', horig', -, hsame'⟩ := hbooks.original u call' hcall'
    rw [hop, horig'] at horig
    cases horig
    rw [← hsame, hsame']
  have hoperation : s.operationOf t = call'.operation := by rw [operationOf_of_call hcall, hop]
  cases hsource' : call'.source with
  | some j =>
    obtain ⟨hwrite, x, hx, hxj, hxop⟩ := hbooks.recovered u call' j hcall' hsource'
    have hi : i = j := h.homed u call' j i hcall' hsource' (by rcases hpc with hpc | hpc <;> rw [hpc] <;> rfl)
    rw [hi, ← hxj]
    exact hbooks.home x hx (k, t) (hstored (hcmd ▸ hwrite)) (hxop.trans hoperation.symm)
  | none =>
    cases hsource : call.source with
    | none =>
      have ht := hbooks.fresh t call hcall hsource
      have hu := hbooks.fresh u call' hcall' hsource'
      exact absurd (ht.symm.trans (hop.trans hu)) htu
    | some j =>
      obtain ⟨hwrite, x, hx, hxj, hxop⟩ := hbooks.recovered t call j hcall hsource
      obtain ⟨y, hy, hyop⟩ := hbooks.storedFirst x hx
      have hyu : y.2 = u := by rw [hyop, hxop, hop, hbooks.fresh u call' hcall' hsource']
      obtain ⟨-, hyplace, -⟩ := hplaced.stored y hy
      have hiy : i = y.1 := by
        rw [hyu] at hyplace
        rcases hyplace with hp | hp <;> rw [hp] at hpc <;> rcases hpc with hpc | hpc <;> cases hpc
        rfl
      rw [hiy]
      refine hbooks.home y hy (k, t) (hstored hwrite) ?_
      rw [hyu, operationOf_of_call hcall', hoperation]

end Executor
end AtomicDiscDrive
