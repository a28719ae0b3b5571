import AtomicDiscDrive.Executor.Occupancy

/-!
# Where a call is

A call of `execute_client_command` is in one place: with the register it was handed to, if
anywhere. Once it has been stored it is past the start of `client_command`, and once its
callback has fired it is nowhere (`Placed`).
-/

namespace AtomicDiscDrive
namespace Executor

open Utils

/-- Call `t` is on its way to register `i`, or at the start of `client_command` there: its
state has not been stored yet. -/
def Process.Unstored (s : Process) (i : ℕ) (t : Callback) : Prop :=
  s.grants i t ∨ t ∈ s.mail i ∨
    ∃ cmd rest, s.bank.workers i = .running (.client cmd t) rest ∧
      ∃ state, .put state ∈ s.bank.due i

/-- A call that has been stored for register `x.1`: past the start of `client_command`. -/
def Process.PastStart (s : Process) (x : ℕ × Callback) : Prop :=
  x.2 < s.calls.length ∧ (s.pcs x.2 = .handed x.1 ∨ s.pcs x.2 = .lost) ∧ ¬ s.Unstored x.1 x.2

/-- **Places.** -/
structure Placed (s : Process) : Prop where
  handed : ∀ i t, t ∈ s.mail i ∨ s.bank.inHand i = some t → s.pcs t = .handed i
  fired : ∀ f ∈ s.bank.fired, f.1 < s.calls.length ∧
    ((∃ i, s.pcs f.1 = .handed i) ∨ s.pcs f.1 = .lost) ∧
    ∀ i, f.1 ∉ s.mail i ∧ s.bank.inHand i ≠ some f.1
  stored : ∀ x ∈ s.bank.stored, s.PastStart x

variable {N R : ℕ} {selfIdent : UInt8} {s s' : Process} {a : Action}

theorem not_grants_of_handed {i j : ℕ} {t : Callback} (h : s.pcs t = .handed j ∨ s.pcs t = .lost) :
    ¬ s.grants i t := by
  unfold Process.grants
  rcases h with h | h <;> rw [h] <;> exact fun hnone => by cases hnone

/-- Steps that move no call which has been handed over, and no message. -/
theorem Placed.of_same (h : Placed s) (hlen : s.calls.length ≤ s'.calls.length)
    (hfired : s'.bank.fired = s.bank.fired)
    (hstored : ∀ x ∈ s'.bank.stored, x ∈ s.bank.stored ∨ s'.PastStart x)
    (hpcs : ∀ t i, s.pcs t = .handed i → s'.pcs t = .handed i)
    (hlost : ∀ t < s.calls.length, s.pcs t = .lost → s'.pcs t = .lost)
    (hmail : ∀ i, s'.mail i = s.mail i)
    (hhand : ∀ i, s'.bank.inHand i = s.bank.inHand i)
    (hworkers : ∀ i cmd t rest, s'.bank.workers i = .running (.client cmd t) rest →
      ∀ state, .put state ∈ s'.bank.due i →
      ∃ rest, s.bank.workers i = .running (.client cmd t) rest ∧ .put state ∈ s.bank.due i) :
    Placed s' := by
  refine ⟨fun i t ht => ?_, fun f hf => ?_, fun x hx => ?_⟩
  · rw [hmail, hhand] at ht
    exact hpcs t i (h.handed i t ht)
  · rw [hfired] at hf
    obtain ⟨hknown, hpc, hnowhere⟩ := h.fired f hf
    refine ⟨Nat.lt_of_lt_of_le hknown hlen, ?_, fun i => by rw [hmail, hhand]; exact hnowhere i⟩
    rcases hpc with ⟨i, hi⟩ | hl
    · exact .inl ⟨i, hpcs _ i hi⟩
    · exact .inr (hlost _ hknown hl)
  · rcases hstored x hx with hx | hpast
    swap
    · exact hpast
    obtain ⟨hknown, hpc, hnot⟩ := h.stored x hx
    have hpc' : s'.pcs x.2 = .handed x.1 ∨ s'.pcs x.2 = .lost :=
      hpc.imp (hpcs _ _) (hlost _ hknown)
    refine ⟨Nat.lt_of_lt_of_le hknown hlen, hpc', ?_⟩
    rintro (hg | hm | ⟨cmd, rest, hw, state, hput⟩)
    · exact not_grants_of_handed hpc' hg
    · exact hnot (.inr (.inl (hmail _ ▸ hm)))
    · obtain ⟨rest', hw', hput'⟩ := hworkers _ _ _ _ hw _ hput
      exact hnot (.inr (.inr ⟨cmd, rest', hw', state, hput'⟩))

theorem placed_invoke (hocc : Occupied N selfIdent s) (h : Placed s) {call : Call}
    (hbank : s'.bank = s.bank) (hcalls : s'.calls = s.calls ++ [call])
    (hpcs : s'.pcs = Function.update s.pcs s.calls.length .ticket) : Placed s' := by
  refine h.of_same ?_ (by rw [hbank]) (fun x hx => .inl (hbank ▸ hx)) (fun t i ht => ?_)
    (fun t ht hl => ?_)
    (fun i => mail_congr (by rw [hbank])) (fun i => by rw [hbank]) ?_
  · rw [hcalls, List.length_append]
    omega
  · have hne : t ≠ s.calls.length := by
      rintro rfl
      rw [hocc.lost _ le_rfl] at ht
      cases ht
    rw [hpcs, Function.update_of_ne hne]
    exact ht
  · rw [hpcs, Function.update_of_ne (Nat.ne_of_lt ht)]
    exact hl
  · rw [hbank]
    exact fun i cmd t rest hw state hput => ⟨rest, hw, hput⟩

/-- A call that receives an index, or uses it, has not been handed over before. -/
theorem placed_move (h : Placed s) {t : Callback} {pc : ClientPc}
    (hpc : (∀ i, s.pcs t ≠ .handed i) ∧ s.pcs t ≠ .lost)
    (hpcs : s'.pcs = Function.update s.pcs t pc) (hcalls : s'.calls = s.calls)
    (hfired : s'.bank.fired = s.bank.fired) (hstored : s'.bank.stored = s.bank.stored)
    (hmail : ∀ i u, u ∈ s'.mail i → u ∈ s.mail i ∨ u = t ∧ pc = .handed i)
    (hhand : ∀ i, s'.bank.inHand i = s.bank.inHand i)
    (hworkers : s'.bank.workers = s.bank.workers) (hdue : ∀ i, s'.bank.due i = s.bank.due i) :
    Placed s' := by
  have hother : ∀ u, u ≠ t → s'.pcs u = s.pcs u := fun u hu => by
    rw [hpcs, Function.update_of_ne hu]
  refine ⟨fun i u hu => ?_, fun f hf => ?_, fun x hx => ?_⟩
  · have hcase : (u ∈ s.mail i ∨ s.bank.inHand i = some u) ∨ u = t ∧ pc = .handed i := by
      rcases hu with hu | hu
      · rcases hmail i u hu with hu | hu
        · exact .inl (.inl hu)
        · exact .inr hu
      · exact .inl (.inr (hhand i ▸ hu))
    rcases hcase with hu | ⟨rfl, rfl⟩
    · have hhanded := h.handed i u hu
      rw [hother u (by rintro rfl; exact hpc.1 i hhanded)]
      exact hhanded
    · rw [hpcs, Function.update_self]
  · rw [hfired] at hf
    obtain ⟨hknown, hplace, hnowhere⟩ := h.fired f hf
    have hne : f.1 ≠ t := by
      rintro heq
      rw [heq] at hplace
      rcases hplace with ⟨i, hi⟩ | hl
      · exact hpc.1 i hi
      · exact hpc.2 hl
    refine ⟨hcalls ▸ hknown, by rw [hother _ hne]; exact hplace, fun i => ⟨fun hm => ?_, ?_⟩⟩
    · rcases hmail i _ hm with hm | ⟨heq, _⟩
      · exact (hnowhere i).1 hm
      · exact hne heq
    · rw [hhand]
      exact (hnowhere i).2
  · rw [hstored] at hx
    obtain ⟨hknown, hplace, hnot⟩ := h.stored x hx
    have hne : x.2 ≠ t := by
      rintro heq
      rw [heq] at hplace
      rcases hplace with hi | hl
      · exact hpc.1 _ hi
      · exact hpc.2 hl
    have hplace' : s'.pcs x.2 = .handed x.1 ∨ s'.pcs x.2 = .lost := by
      rw [hother _ hne]
      exact hplace
    refine ⟨hcalls ▸ hknown, hplace', ?_⟩
    rintro (hg | hm | ⟨cmd, rest, hw, state, hput⟩)
    · exact not_grants_of_handed hplace' hg
    · rcases hmail _ _ hm with hm | ⟨heq, _⟩
      · exact hnot (.inr (.inl hm))
      · exact hne heq
    · rw [hworkers] at hw
      rw [hdue] at hput
      exact hnot (.inr (.inr ⟨cmd, rest, hw, state, hput⟩))

theorem placed_receive (hocc : Occupied N selfIdent s) (h : Placed s) {i : ℕ} {iter : IterOrder}
    (hrec : s.bank.receive i iter = some s'.bank) (hcalls : s'.calls = s.calls)
    (hpcs : s'.pcs = s.pcs) : Placed s' := by
  obtain ⟨msg, mailbox, hr⟩ := hocc.reception hrec
  have hmail : ∀ j, ∀ t ∈ s'.mail j, t ∈ s.mail j := fun j t ht => by
    unfold Process.mail at ht ⊢
    by_cases hj : j = i
    · subst hj
      rw [hr.receives.mailbox] at ht
      rw [hr.receives.first, List.filterMap_cons]
      split
      · exact ht
      · exact List.mem_cons_of_mem _ ht
    · rw [(hr.receives.others j hj).mailboxes] at ht
      exact ht
  -- what is in hand afterwards was in hand or in the mailbox
  have hhand : ∀ j t, s'.bank.inHand j = some t → t ∈ s.mail j ∨ s.bank.inHand j = some t :=
    fun j t ht => by
      by_cases hj : j = i
      · subst hj
        rw [hr.handAfter] at ht
        cases msg with
        | client cmd u =>
          cases ht
          refine .inl ?_
          unfold Process.mail
          rw [hr.receives.first]
          simp [WorkerMessage.callback?]
        | system cmd o => exact .inr ht
      · exact .inr ((hr.receives.others j hj).inHand ▸ ht)
  refine ⟨fun j t ht => ?_, fun f hf => ?_, fun x hx => ?_⟩
  · rw [hpcs]
    rcases ht with ht | ht
    · exact h.handed j t (.inl (hmail j t ht))
    · exact h.handed j t (hhand j t ht)
  · rw [hr.receives.fired] at hf
    obtain ⟨hknown, hplace, hnowhere⟩ := h.fired f hf
    refine ⟨hcalls ▸ hknown, hpcs ▸ hplace, fun j => ⟨fun hm => (hnowhere j).1 (hmail j _ hm),
      fun hin => ?_⟩⟩
    rcases hhand j _ hin with hm | hin
    · exact (hnowhere j).1 hm
    · exact (hnowhere j).2 hin
  · rw [hr.receives.stored] at hx
    obtain ⟨hknown, hplace, hnot⟩ := h.stored x hx
    refine ⟨hcalls ▸ hknown, hpcs ▸ hplace, ?_⟩
    rintro (hg | hm | ⟨cmd, rest, hw, state, hput⟩)
    · exact not_grants_of_handed (s := s') (hpcs ▸ hplace) hg
    · exact hnot (.inr (.inl (hmail _ _ hm)))
    · by_cases hj : x.1 = i
      · rw [hj] at hw
        obtain ⟨rest', hw'⟩ := hr.receives.running
        rw [hw] at hw'
        cases hw'
        refine hnot (.inr (.inl ?_))
        rw [hj]
        unfold Process.mail
        rw [hr.receives.first]
        simp [WorkerMessage.callback?]
      · have hsame := hr.receives.others x.1 hj
        exact hnot (.inr (.inr ⟨cmd, rest, hsame.workers ▸ hw, state, hsame.due ▸ hput⟩))

/-- The call in hand is past the start once its state has been stored. -/
theorem pastStart_of_put (hocc : Occupied N selfIdent s) (h : Placed s) {i : ℕ} {t : Callback}
    {state : AtomicRegisterStorageState} (hcalls : s'.calls = s.calls) (hpcs : s'.pcs = s.pcs)
    (hmailboxes : s'.bank.mailboxes i = s.bank.mailboxes i) (hin : s.bank.inHand i = some t)
    (hdue : s.bank.due i = .put state :: s'.bank.due i) : s'.PastStart (i, t) := by
  have hplace := h.handed i t (.inr hin)
  obtain ⟨holder, hholder⟩ := hocc.held i
  obtain ⟨_, hgrants, hmail⟩ := heldBy_of_inHand hholder hin
  obtain ⟨call, hcall⟩ := Mode.known (hin ▸ (hocc.register i).mode)
  have hknown : t < s'.calls.length := hcalls ▸ (List.getElem?_eq_some_iff.mp hcall).1
  refine ⟨hknown, .inl (hpcs ▸ hplace), ?_⟩
  rintro (hg | hm | ⟨cmd, rest, hw, state', hput⟩)
  · exact not_grants_of_handed (s := s') (.inl (hpcs ▸ hplace)) hg
  · rw [mail_congr hmailboxes, hmail] at hm
    cases hm
  · exact Mode.put_once (hdue ▸ (hocc.register i).mode) hput

/-- The call whose callback is called was in hand, and is nowhere afterwards. -/
theorem nowhere_of_complete (hocc : Occupied N selfIdent s) (h : Placed s) {i : ℕ} {t : Callback}
    (hmail : ∀ j, s'.mail j = s.mail j)
    (hhand : ∀ j u, s'.bank.inHand j = some u → s.bank.inHand j = some u ∧ j ≠ i)
    (hin : s.bank.inHand i = some t) (j : ℕ) : t ∉ s'.mail j ∧ s'.bank.inHand j ≠ some t := by
  have hplace := h.handed i t (.inr hin)
  refine ⟨fun hm => ?_, fun hu => ?_⟩
  · rw [hmail] at hm
    have hj := h.handed j t (.inl hm)
    rw [hplace] at hj
    cases hj
    obtain ⟨holder, hholder⟩ := hocc.held i
    rw [(heldBy_of_inHand hholder hin).2.2] at hm
    cases hm
  · obtain ⟨hu, hj⟩ := hhand j t hu
    have hplace' := h.handed j t (.inr hu)
    rw [hplace] at hplace'
    cases hplace'
    exact hj rfl

theorem placed_call (hocc : Occupied N selfIdent s) (h : Placed s) {i : ℕ}
    (hcall : s.bank.call i = some s'.bank) (hcalls : s'.calls = s.calls)
    (hpcs : s'.pcs = s.pcs) : Placed s' := by
  have hacts := Bank.call_cases hcall (hocc.register i).steady
  obtain ⟨_, hdeed⟩ := (hocc.register i).call hacts
  have hmail : ∀ j, s'.mail j = s.mail j := fun j => mail_congr (by rw [hacts.mailboxes])
  -- what `of_same` asks, when the hand stays as it is
  have hkeep : s'.bank.inHand i = s.bank.inHand i → s'.bank.fired = s.bank.fired →
      (∀ x ∈ s'.bank.stored, x ∈ s.bank.stored ∨ s'.PastStart x) →
      (∀ cmd t rest, s'.bank.workers i = .running (.client cmd t) rest →
        ∃ rest, s.bank.workers i = .running (.client cmd t) rest) → Placed s' :=
    fun hhand hfired hstored hclient => by
      refine h.of_same (by rw [hcalls]) hfired hstored (fun t i ht => hpcs ▸ ht)
        (fun t _ ht => hpcs ▸ ht) hmail (fun j => ?_) (fun j cmd t rest hw state hput => ?_)
      · by_cases hj : j = i
        · rw [hj]
          exact hhand
        · exact (hacts.others j hj).inHand
      · by_cases hj : j = i
        · subst hj
          obtain ⟨rest₀, hw₀⟩ := hclient cmd t rest hw
          exact ⟨rest₀, hw₀, hacts.due_subset hput⟩
        · have hsame := hacts.others j hj
          exact ⟨rest, hsame.workers ▸ hw, hsame.due ▸ hput⟩
  cases hdeed with
  | quiet hsame hhand hdue hclient =>
    exact hkeep hhand hsame.fired (fun x hx => .inl (hsame.stored ▸ hx)) hclient
  | @put msg state hhand hdue hw hw' hstable hfired hstoredBy hstored =>
    obtain ⟨rest, hw⟩ := hw
    obtain ⟨rest', hw'⟩ := hw'
    refine hkeep hhand hfired (fun x hx => ?_) (fun cmd t rest'' hrun => ?_)
    · rw [hstored, List.mem_append] at hx
      rcases hx with hx | hx
      · exact .inl hx
      · -- a write is stored
        rcases msg with cmd | ⟨⟨header, _ | data⟩, t⟩
        · cases hx
        · cases hx
        · rw [List.mem_singleton.mp hx]
          exact .inr (pastStart_of_put hocc h hcalls hpcs (by rw [hacts.mailboxes])
            (Bank.inHand_running_client hw) hdue)
    · rw [hw'] at hrun
      cases hrun
      exact ⟨rest, hw⟩
  | @complete t op hin hnone hdue hdue' hstable hstoredBy hstored hfired hclient =>
    have hhand : ∀ j u, s'.bank.inHand j = some u → s.bank.inHand j = some u ∧ j ≠ i :=
      fun j u hu => by
        by_cases hj : j = i
        · rw [hj, hnone] at hu
          cases hu
        · exact ⟨(hacts.others j hj).inHand ▸ hu, hj⟩
    refine ⟨fun j u hu => ?_, fun f hf => ?_, fun x hx => ?_⟩
    · rw [hpcs]
      rcases hu with hu | hu
      · exact h.handed j u (.inl (hmail j ▸ hu))
      · exact h.handed j u (.inr (hhand j u hu).1)
    · rw [hfired, List.mem_append, List.mem_singleton] at hf
      rcases hf with hf | rfl
      · obtain ⟨hknown, hplace, hnowhere⟩ := h.fired f hf
        refine ⟨hcalls ▸ hknown, hpcs ▸ hplace, fun j => ⟨hmail j ▸ (hnowhere j).1, fun hu => ?_⟩⟩
        exact (hnowhere j).2 (hhand j _ hu).1
      · obtain ⟨call, hcall⟩ := Mode.known (hin ▸ (hocc.register i).mode)
        have hknown : t < s'.calls.length := hcalls ▸ (List.getElem?_eq_some_iff.mp hcall).1
        exact ⟨hknown, .inl ⟨i, hpcs ▸ h.handed i t (.inr hin)⟩,
          nowhere_of_complete hocc h hmail hhand hin⟩
    · rw [hstored] at hx
      obtain ⟨hknown, hplace, hnot⟩ := h.stored x hx
      refine ⟨hcalls ▸ hknown, hpcs ▸ hplace, ?_⟩
      rintro (hg | hm | ⟨cmd, rest, hw, state, hput⟩)
      · exact not_grants_of_handed (s := s') (hpcs ▸ hplace) hg
      · exact hnot (.inr (.inl (hmail _ ▸ hm)))
      · by_cases hj : x.1 = i
        · exact hclient cmd x.2 rest (hj ▸ hw)
        · have hsame := hacts.others x.1 hj
          exact hnot (.inr (.inr ⟨cmd, rest, hsame.workers ▸ hw, state, hsame.due ▸ hput⟩))

/-- A process in which all calls are lost. -/
theorem placed_lost (hknown : Placed s) (hcalls : s'.calls = s.calls)
    (hpcs : ∀ t, s'.pcs t = .lost)
    (hfired : s'.bank.fired = s.bank.fired) (hstored : s'.bank.stored = s.bank.stored)
    (hmail : ∀ i, s'.mail i = []) (hhand : ∀ i, s'.bank.inHand i = none)
    (hworkers : ∀ i, s'.bank.workers i = .ready) : Placed s' := by
  refine ⟨fun i t ht => ?_, fun f hf => ?_, fun x hx => ?_⟩
  · rw [hmail, hhand] at ht
    rcases ht with ht | ht <;> cases ht
  · rw [hfired] at hf
    refine ⟨hcalls ▸ (hknown.fired f hf).1, .inr (by rw [hpcs]), fun i => ?_⟩
    rw [hmail, hhand]
    exact ⟨List.not_mem_nil, fun h => by cases h⟩
  · rw [hstored] at hx
    refine ⟨hcalls ▸ (hknown.stored x hx).1, .inr (by rw [hpcs]), ?_⟩
    rintro (hg | hm | ⟨cmd, rest, hw, _⟩)
    · unfold Process.grants at hg
      rw [hpcs] at hg
      cases hg
    · rw [hmail] at hm
      cases hm
    · rw [hworkers] at hw
      cases hw

theorem placed_init : Placed (.init N selfIdent) :=
  ⟨fun i t ht => by rcases ht with ht | ht <;> (cases ht),
    fun _ hf => absurd hf List.not_mem_nil, fun _ hx => absurd hx List.not_mem_nil⟩

/-- **Places, step by step.** -/
theorem placed_step (hocc : Occupied N selfIdent s) (h : Placed s)
    (hstep : s.step N R selfIdent a = some s') : Placed s' := by
  cases step_event hstep with
  | shuffle _ hs =>
    refine h.of_same (by rw [hs.calls]) (by rw [hs.bank]) (fun x hx => .inl (hs.bank ▸ hx))
      hs.handed (fun t _ => (hs.lost t).mp) (fun i => mail_congr (by rw [hs.bank]))
      (fun i => by rw [hs.bank]) ?_
    rw [hs.bank]
    exact fun i cmd t rest hw state hput => ⟨rest, hw, hput⟩
  | submit _ => exact placed_invoke hocc h rfl rfl rfl
  | dispatch _ _ => exact placed_invoke hocc h rfl rfl rfl
  | @take t call i _ hcall hpc hready =>
    refine placed_move h (t := t) ⟨fun i => ?_, ?_⟩ rfl rfl rfl rfl (fun j u hu => .inl hu)
      (fun j => rfl) rfl fun j => rfl
    · rw [hpc]
      exact ClientPc.noConfusion
    · rw [hpc]
      exact ClientPc.noConfusion
  | @hand t call i hcall hpc =>
    refine placed_move h (t := t) ⟨fun j => ?_, ?_⟩ rfl rfl rfl rfl (fun j u hu => ?_)
      (fun j => rfl) rfl fun j => rfl
    · rw [hpc]
      exact ClientPc.noConfusion
    · rw [hpc]
      exact ClientPc.noConfusion
    · by_cases hj : j = i
      · subst hj
        simp only [Process.mail, Bank.deliver, Function.update_self,
          List.filterMap_append, List.mem_append] at hu
        refine hu.imp id fun hu => ⟨?_, rfl⟩
        simpa [WorkerMessage.callback?] using hu
      · simp only [Process.mail, Bank.deliver, Function.update_of_ne hj] at hu
        exact .inl hu
  | @deliver j i task htask hpc =>
    refine h.of_same le_rfl rfl (fun x hx => .inl hx) (fun t i ht => ht) (fun t _ ht => ht)
      (fun k => mail_deliver_system rfl k) (fun k => rfl)
      fun k cmd t rest hw state hput => ⟨rest, hw, hput⟩
  | @announce i _ hw =>
    refine h.of_same le_rfl rfl (fun x hx => .inl hx) (fun t i ht => ht) (fun t _ ht => ht)
      (fun k => rfl) (Bank.inHand_waiting hw) fun k cmd t rest hrun state hput => ?_
    by_cases hk : k = i
    · subst hk
      simp at hrun
    · simp only [Function.update_of_ne hk] at hrun
      exact ⟨rest, hrun, Bank.due_waiting hw k ▸ hput⟩
  | receive _ hrec => exact placed_receive hocc h hrec rfl rfl
  | call _ hcall => exact placed_call hocc h hcall rfl rfl
  | crash =>
    exact placed_lost h rfl (fun _ => rfl) rfl rfl (fun _ => rfl) (fun _ => rfl) fun _ => rfl
  | restart hrestart =>
    have hr := hocc.restarted hrestart
    refine placed_lost h hr.calls hr.pcs hr.fired hr.stored (fun i => ?_) hr.inHand hr.workers
    unfold Process.mail
    rw [hr.mailboxes]
    rfl

end Executor
end AtomicDiscDrive
