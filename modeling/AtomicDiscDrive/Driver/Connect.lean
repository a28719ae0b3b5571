import AtomicDiscDrive.Driver.TcpClient

/-!
# Whom the driver connects to

Before it sends over a client without connection, `send_atdd_cmd_over_tcp` goes over the
addresses of the processes until one accepts. The address of a round of its loop is
`connection_target + i`, and both summands grow by one from round to round, so that every
other address is left out. With an odd number of addresses the loop gets to all of them in
its `addrs_count` rounds, with an even one only to those of one parity; and as the loop ends
where it began, the next call tries the same ones.

`accepts` tells whether the process behind an address accepts, for the length of one loop.
Its outcome is what `sendAtddCmdOverTcp` takes as an input.
-/

namespace AtomicDiscDrive
namespace Driver

/-- The loop, with `left` rounds to go: `connection_target`, and the address that accepted. -/
def connectLoop (addrsCount : ℕ) (accepts : ℕ → Bool) : ℕ → ℕ → ℕ → ℕ × Option ℕ
  | 0, _, connectionTarget => (connectionTarget, none)
  | left + 1, i, connectionTarget =>
    if accepts ((connectionTarget + i) % addrsCount) then
      (connectionTarget, some ((connectionTarget + i) % addrsCount))
    else connectLoop addrsCount accepts left (i + 1) (connectionTarget + 1)

/-- The connection part of `send_atdd_cmd_over_tcp`. -/
def connect (addrsCount : ℕ) (accepts : ℕ → Bool) (connectionTarget : ℕ) : ℕ × Option ℕ :=
  connectLoop addrsCount accepts addrsCount 0 (connectionTarget % addrsCount)

/-- A client with its `connection_target`. -/
structure Link where
  client : TcpClient
  connectionTarget : ℕ

namespace Link

/-- `send_atdd_cmd_over_tcp` with the loop over the addresses; `sent` is the result of
`tcp_send`, after an error of which the client disconnects. -/
def sendAtddCmdOverTcp (addrsCount : ℕ) (accepts : ℕ → Bool) (sent : Option Errno) (l : Link) :
    Option Errno × Link :=
  let (target, found) :=
    if l.client.connected then (l.connectionTarget, none)
    else connect addrsCount accepts l.connectionTarget
  let (err, client) := l.client.sendAtddCmdOverTcp found.isSome sent
  (err, ⟨client, if sent.isSome && (l.client.connected || found.isSome) then target + 1 else target⟩)

/-- One of the calls connects the client. -/
def connects (addrsCount : ℕ) : List ((ℕ → Bool) × Option Errno) → Link → Bool
  | [], _ => false
  | (accepts, sent) :: calls, l =>
    (connect addrsCount accepts l.connectionTarget).2.isSome ||
      connects addrsCount calls (l.sendAtddCmdOverTcp addrsCount accepts sent).2

end Link

/-! ## One call -/

section

variable {addrsCount : ℕ} {accepts : ℕ → Bool}

end

end Driver
end AtomicDiscDrive
