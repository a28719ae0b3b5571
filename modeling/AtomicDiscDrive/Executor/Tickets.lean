import AtomicDiscDrive.Executor.Requests
import AtomicDiscDrive.Executor.Turns

/-!
# Tickets

Commands on one sector take turns: each takes a ticket from `sector_counters`, and the one
whose ticket equals `total_finished` is the owner of the sector until
`finish_client_command` has counted it. The ticket counter, `total_finished`, the handler
map and the waiting tasks are updated under different locks. What ties them together is a
history of the process since its last crash (`Log`): who took a ticket when, and what has been
counted. Where a task stands tells its place among the tickets of its sector (`Place`).

A request that is rejected goes through `finish_client_command` as well. It does no harm as
long as it has an identifier of its own (`Distinct`).
-/

namespace AtomicDiscDrive
namespace Executor

open Utils

/-! ## The history -/

structure Log where
  process : Process
  /-- calls, in the order in which they took their tickets -/
  tickets : List Callback
  /-- by which completion task which request on which sector was counted -/
  counted : List (ℕ × UInt64 × SectorIdx)
  /-- completion tasks that have written their response, or failed to -/
  responses : List (ℕ × Bool)
  /-- the call that a completion task was spawned for, if any -/
  spawned : List (Option Callback)
  /-- identifiers of rejected requests -/
  rejected : List UInt64

namespace Log

/-- What the history gains in a step of the process. -/
def record (s : Log) (a : Action) (process : Process) : Log :=
  match a with
  | .client t =>
    { s with
      process
      tickets := if s.process.pcs t = .ticket then s.tickets ++ [t] else s.tickets }
  | .call i =>
    { s with
      process
      spawned := s.spawned ++ (s.process.bank.completing i).toList.map fun c => some c.1 }
  | .reject requestIdentifier =>
    { s with
      process
      spawned := s.spawned ++ [none]
      rejected := s.rejected ++ [requestIdentifier] }
  | .finish j written =>
    match s.process.finishing[j]? with
    | some ⟨_, .respond⟩ => { s with process, responses := s.responses ++ [(j, written)] }
    | some ⟨requestIdentifier, .count sector⟩ =>
      { s with process, counted := s.counted ++ [(j, requestIdentifier, sector)] }
    | _ => { s with process }
  | .crash => ⟨process, [], [], [], [], []⟩
  | _ => { s with process }

variable (N R : ℕ) (selfIdent : UInt8)

/-- A step of the process; no step depends on the history. -/
def step (s : Log) (a : Action) : Option Log :=
  (s.process.step N R selfIdent a).map (s.record a)

def init : Log := ⟨.init N selfIdent, [], [], [], [], []⟩

/-- No command in progress has the identifier. -/
def Unused (s : Log) (requestIdentifier : UInt64) : Prop :=
  ∀ t < s.process.calls.length, s.process.pcs t ≠ .lost → ∀ call ∈ s.process.calls[t]?,
    call.cmd.header.requestIdentifier ≠ requestIdentifier

instance (s : Log) (requestIdentifier : UInt64) : Decidable (s.Unused requestIdentifier) :=
  inferInstanceAs (Decidable (∀ t < s.process.calls.length, _))

/-- The request identifiers of all commands since the last start are different, rejected ones
included. -/
def Distinct (s : Log) : Action → Prop
  | .submit cmd => s.Unused cmd.header.requestIdentifier ∧
      cmd.header.requestIdentifier ∉ s.rejected
  | .dispatch => ∀ r ∈ s.process.startup.head?, s.Unused r.cmd.header.requestIdentifier ∧
      r.cmd.header.requestIdentifier ∉ s.rejected
  | .reject requestIdentifier => s.Unused requestIdentifier
  | _ => True

instance (s : Log) (a : Action) : Decidable (s.Distinct a) :=
  match a with
  | .submit cmd => inferInstanceAs (Decidable (s.Unused cmd.header.requestIdentifier ∧
      cmd.header.requestIdentifier ∉ s.rejected))
  | .dispatch => inferInstanceAs (Decidable (∀ r ∈ s.process.startup.head?,
      s.Unused r.cmd.header.requestIdentifier ∧ r.cmd.header.requestIdentifier ∉ s.rejected))
  | .reject requestIdentifier => inferInstanceAs (Decidable (s.Unused requestIdentifier))
  | .client _ | .arrive _ _ | .system _ | .announce _ | .receive _ _ | .call _ | .finish _ _
  | .crash | .restart => inferInstanceAs (Decidable True)

/-! ## What the history tells -/

/-- The call is on the sector. -/
def isOn (s : Log) (sector : SectorIdx) (t : Callback) : Bool :=
  (s.process.calls[t]?).any fun call => call.sector == sector

/-- The calls with a ticket for the sector, by ticket. -/
def queue (s : Log) (sector : SectorIdx) : List Callback := s.tickets.filter (s.isOn sector)

/-- The calls on the sector that were handed to registers, in that order. -/
def handedOn (s : Log) (sector : SectorIdx) : List Callback :=
  (s.process.handings.map Handing.callback).filter (s.isOn sector)

/-- The call has been counted in `total_finished`. -/
def isDone (s : Log) (t : Callback) : Bool :=
  (s.process.calls[t]?).any fun call =>
    s.counted.any fun x => x.2.1 == call.cmd.header.requestIdentifier

end Log

/-- A command with this identifier has been handed to a register. -/
def Process.Handed (s : Process) (requestIdentifier : UInt64) : Prop :=
  ∃ t call i, s.calls[t]? = some call ∧ s.pcs t = .handed i ∧
    call.cmd.header.requestIdentifier = requestIdentifier

/-! ## The invariant -/

/-- What the place of a task among the tickets of its sector is: `k` is its ticket. -/
def Place (total k : ℕ) (done : Bool) : ClientPc → Prop
  | .check c | .yield c | .parked c => c = k ∧ total ≤ k ∧ done = false
  | .owner | .index _ | .entered _ => k = total ∧ done = false
  | .handed _ => k ≤ total ∧ (done = true ↔ k < total)
  | .ticket | .lost => False

/-- Tickets and their numbers. -/
structure Numbered (s : Log) : Prop where
  known : ∀ t, s.process.calls.length ≤ t → s.process.pcs t = .lost
  taken : ∀ t, t ∈ s.tickets ↔ s.process.pcs t ≠ .lost ∧ s.process.pcs t ≠ .ticket
  nodup : s.tickets.Nodup
  distinct : ∀ (t u : ℕ) call call', s.process.calls[t]? = some call →
    s.process.calls[u]? = some call' → s.process.pcs t ≠ .lost → s.process.pcs u ≠ .lost →
    call.cmd.header.requestIdentifier = call'.cmd.header.requestIdentifier → t = u
  accepted : ∀ (t : ℕ) call, s.process.calls[t]? = some call → s.process.pcs t ≠ .lost →
    call.cmd.header.requestIdentifier ∉ s.rejected
  counter : ∀ sector, (s.process.counters sector).1 = (s.queue sector).length
  total : ∀ sector, (s.process.counters sector).2 ≤ (s.queue sector).length
  place : ∀ sector (k : ℕ) t, (s.queue sector)[k]? = some t →
    Place (s.process.counters sector).2 k (s.isDone t) (s.process.pcs t)

/-- The handler map, and the tasks that finish a command. -/
structure Mapped (s : Log) : Prop where
  entry : ∀ uuid x, s.process.msgIdHandlerSectorIdx uuid = some x →
    ∃ t call, s.process.calls[t]? = some call ∧
      .fromRequest call.cmd.header.requestIdentifier = uuid ∧ x.2 = call.sector ∧
      (s.process.pcs t = .entered x.1 ∨ s.process.pcs t = .handed x.1) ∧ s.isDone t = false
  counting : ∀ (j : ℕ) task sector, s.process.finishing[j]? = some task →
    task.pc = .count sector → s.process.handlerLock = some j ∧
      s.process.msgIdHandlerSectorIdx (.fromRequest task.requestIdentifier) = none ∧
      ∃ t call i, s.process.calls[t]? = some call ∧
        call.cmd.header.requestIdentifier = task.requestIdentifier ∧ call.sector = sector ∧
        s.process.pcs t = .handed i ∧ s.isDone t = false
  notifying : ∀ (j : ℕ) task sector, s.process.finishing[j]? = some task →
    task.pc = .notify sector → s.process.handlerLock = some j
  asks : ∀ task ∈ s.process.finishing, task.pc = .respond ∨ task.pc = .remove →
    task.requestIdentifier ∈ s.rejected ∨ s.process.Handed task.requestIdentifier

/-- The order in which commands are handed over. -/
structure Ordered (s : Log) : Prop where
  handed : ∀ t, (∃ i, s.process.pcs t = .handed i) ↔ t ∈ s.process.handings.map Handing.callback
  order : ∀ sector, s.handedOn sector <+: s.queue sector
  counted : ∀ x ∈ s.counted, s.process.Handed x.2.1

/-- **The ticket lock.** -/
structure Ticketed (s : Log) : Prop where
  numbered : Numbered s
  mapped : Mapped s
  ordered : Ordered s
  traces : Traces s.process.Handed s.process

end Executor
end AtomicDiscDrive
