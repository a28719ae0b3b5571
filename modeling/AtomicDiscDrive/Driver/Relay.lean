import AtomicDiscDrive.Utils.Ring
import AtomicDiscDrive.Utils.Runs
import AtomicDiscDrive.Driver.Codec

/-!
# The relay thread of the driver

`atomic_disc_driver.c`: the ring of block requests of a relay thread, and the loop of the
thread. The block layer puts requests into the ring; the thread forwards them to the server,
one at a time, and ends them when their responses come back. Three positions of eight bits
mark how far each of this has come. `int` is wider than the positions, so a difference of
two of them is a number between -255 and 255 unless it is cast back.

There are two systems here. In `Relay.step` the TCP client is an input: what it fetches and
whether it sends. In `Thread.step` the client is the one of `TcpClient`, and the inputs are
those of its socket.
-/

namespace AtomicDiscDrive
namespace Driver

/-! ## The ring -/

/-- `ATDD_THREADS_COUNT`. -/
def atddThreadsCount : ℕ := 1

/-- `ATDD_CLIENT_SEND_AHEAD`. -/
def atddClientSendAhead : UInt8 := 1

/-- `struct atdd_ktread_data`, less its client. -/
structure Relay where
  bufTcpForwardedPos : UInt8
  requestIdentCounter : UInt64
  requestsBuf : UInt8 → Option Request
  bufAcceptedPos : UInt8
  bufCompletedPos : UInt8

/-- How a request ended: with a status, and for a READ with the data copied to it. -/
structure Ended where
  rq : Option Request
  status : Option Errno
  copied : Option (List UInt8)

/-- `convert_atdd_to_blk_status`. -/
def convertAtddToBlkStatus : StatusCode → Option Errno
  | .ok => none
  | .authFailure => some .eio
  | .invalidSectorIndex => some .eio

namespace Relay

/-- `atdd_kthread_data_create`. Nothing has been written to the buffer of requests. -/
def create (id : UInt64) : Relay :=
  { bufTcpForwardedPos := 0
    requestIdentCounter := id
    requestsBuf := fun _ => none
    bufAcceptedPos := 0
    bufCompletedPos := 0 }

/-- `submit_atdd_request`. The difference is not cast back to eight bits. -/
def submitAtddRequest (rq : Request) (relay : Relay) : Option Errno × Relay :=
  if (relay.bufAcceptedPos.toNat : ℤ) - relay.bufCompletedPos.toNat = 255 then
    (some .enospc, relay)
  else
    (none, { relay with
      requestsBuf := Function.update relay.requestsBuf relay.bufAcceptedPos (some rq)
      bufAcceptedPos := relay.bufAcceptedPos + 1 })

/-- The loop body of `atdd_finish_all_completed_requests`. -/
def finishRequest (cmdR : CmdReturn) (relay : Relay) : Ended × Relay :=
  let rq := relay.requestsBuf relay.bufCompletedPos
  let relay := { relay with bufCompletedPos := relay.bufCompletedPos + 1 }
  match convertAtddToBlkStatus cmdR.rcode with
  | some err => (⟨rq, some err, none⟩, relay)
  | none =>
    (⟨rq, none, if (rq.map Request.dataDir) = some .read then some cmdR.data else none⟩,
      { relay with
        requestIdentCounter := relay.requestIdentCounter + UInt64.ofNat atddThreadsCount })

/-- `atdd_cmds_to_send`. Here the differences are cast back. -/
def atddCmdsToSend (relay : Relay) : UInt8 :=
  let accepted := relay.bufAcceptedPos - relay.bufTcpForwardedPos
  let ahead := atddClientSendAhead - (relay.bufTcpForwardedPos - relay.bufCompletedPos)
  if accepted < ahead then accepted else ahead

/-- The identifier a request is sent with. The difference of the positions is an `int`. -/
def identToSend (relay : Relay) : UInt64 :=
  relay.requestIdentCounter + UInt64.ofInt (atddThreadsCount *
    ((relay.bufTcpForwardedPos.toNat : ℤ) - relay.bufCompletedPos.toNat))

/-- The reset of `atdd_main` on an error. -/
def reset (relay : Relay) : Relay :=
  { relay with bufTcpForwardedPos := relay.bufCompletedPos }

/-- A command has been sent. -/
def forward (relay : Relay) : Relay :=
  { relay with bufTcpForwardedPos := relay.bufTcpForwardedPos + 1 }

/-! ## The ring as a system -/

/-- A relay with its history: the requests it has accepted and ended, and for each call of
`submit_atdd_request` the number of requests that were outstanding and whether it refused. -/
structure State where
  relay : Relay
  accepted : List Request
  ended : List Ended
  submissions : List (ℕ × Bool)

/-- The requests that have been accepted and not ended. -/
def State.outstanding (s : State) : List Request := s.accepted.drop s.ended.length

def State.init (id : UInt64) : State :=
  { relay := create id, accepted := [], ended := [], submissions := [] }

inductive Action where
  | submit (rq : Request)
  /-- `atdd_send_accepted_requests`, with the result of `atdd_send_command` -/
  | send (result : Option Errno)
  /-- `atdd_finish_all_completed_requests`, with the commands `atdd_fetch_command` returns -/
  | finish (fetched : List CmdReturn)
  | reset

/-- `atdd_finish_all_completed_requests`, on the commands that are fetched. -/
def finishRequests : List CmdReturn → Relay → List Ended × Relay
  | [], relay => ([], relay)
  | cmdR :: fetched, relay =>
    let (ended, relay) := relay.finishRequest cmdR
    let (rest, relay) := finishRequests fetched relay
    (ended :: rest, relay)

/-- `submit_atdd_request` in the history of a relay. -/
def State.submit (s : State) (rq : Request) : State :=
  match s.relay.submitAtddRequest rq with
  | (some _, _) =>
    { s with submissions := s.submissions ++ [(s.outstanding.length, true)] }
  | (none, relay) =>
    { s with
      relay
      accepted := s.accepted ++ [rq]
      submissions := s.submissions ++ [(s.outstanding.length, false)] }

/-- A step of the relay. A forwarded command is answered once at most, so no more commands are
fetched than are forwarded. More than one command to send is `BUG_ON(cmds_to_send > 1)`. -/
def step (s : State) : Action → Option State
  | .submit rq => some (s.submit rq)
  | .send result =>
    if s.relay.atddCmdsToSend > 1 then none
    else if s.relay.atddCmdsToSend = 0 then some s
    else
      match result with
      | some _ => some s
      | none => some { s with relay := s.relay.forward }
  | .finish fetched =>
    if fetched.length ≤ (s.relay.bufTcpForwardedPos - s.relay.bufCompletedPos).toNat then
      let (ended, relay) := finishRequests fetched s.relay
      some { s with relay, ended := s.ended ++ ended }
    else none
  | .reset => some { s with relay := s.relay.reset }

end Relay

/-! ## The thread -/

/-- Where `atdd_main` stands: at the head of its loop, or before it sends. In the latter case
it is remembered whether there was nothing to fetch or a response to be read. -/
inductive Phase where
  | head
  | sending (legible : Bool)
deriving DecidableEq

/-- A relay thread with its history. `sent` holds the requests that were handed to `tcp_send`,
with their identifiers, and `forwarded` those for which it succeeded. -/
structure Thread where
  relay : Relay
  client : TcpClient
  phase : Phase
  accepted : List Request
  ended : List Ended
  sent : List (Option Request × UInt64)
  forwarded : List (Option Request)

namespace Thread

def init (id : UInt64) (sendBuf : List UInt8) (parseBuf : ℕ → UInt8) : Thread :=
  { relay := .create id
    client := .create sendBuf parseBuf
    phase := .head
    accepted := []
    ended := []
    sent := []
    forwarded := [] }

/-- `atdd_finish_all_completed_requests`. A round completes a pending command, and no more than
255 are pending. -/
def finishAllCompletedRequests (hmac : List UInt8 → List UInt8) :
    ℕ → Relay → Connection → Except Halt (Option Errno × List Ended × Relay × TcpClient)
  | 0, _, _ => .error .waiting
  | fuel + 1, relay, s =>
    match s.atddFetchCommand hmac with
    | .error halt => .error halt
    | .ok (.error err, s) => .ok (some err, [], relay, s.client)
    | .ok (.ok none, s) => .ok (none, [], relay, s.client)
    | .ok (.ok (some cmdR), s) =>
      match finishAllCompletedRequests hmac fuel (relay.finishRequest cmdR).2 s with
      | .error halt => .error halt
      | .ok (err, ended, relay', c) =>
        .ok (err, (relay.finishRequest cmdR).1 :: ended, relay', c)

inductive Action where
  | submit (rq : Request)
  /-- the first half of a round: `none` if `atdd_client_has_data` is false, else the results of
  the calls of `kernel_recvmsg` -/
  | receive (socket : Option (List Recv))
  /-- the second half of a round -/
  | send (connects : Bool) (result : Option Errno)

/-- There is nothing to fetch, or the bytes to come start with a response. -/
def Readable (hmac : List UInt8 → List UInt8) (c : TcpClient) (socket : List Recv) : Prop :=
  c.pending.acceptedPos = c.pending.completedPos ∨ Legible hmac (delivered socket)

instance (hmac : List UInt8 → List UInt8) (c : TcpClient) (socket : List Recv) :
    Decidable (Readable hmac c socket) :=
  inferInstanceAs (Decidable (_ ∨ _))

/-- `atdd_send_accepted_requests`, for one command to send, and the reset on an error. -/
def sendRequest (t : Thread) (connects : Bool) (result : Option Errno) : Thread :=
  let rq := t.relay.requestsBuf t.relay.bufTcpForwardedPos
  let ident := t.relay.identToSend
  let sent := if t.client.connected || connects then t.sent ++ [(rq, ident)] else t.sent
  match t.client.atddSendCommand connects result with
  | (some _, client) => { t with relay := t.relay.reset, client, sent, phase := .head }
  | (none, client) =>
    { t with
      relay := t.relay.forward, client, sent, forwarded := t.forwarded ++ [rq], phase := .head }

/-- A step of the thread or of the block layer. A thread that waits for bytes, or has run into
a `BUG_ON`, makes no step. -/
def step (hmac : List UInt8 → List UInt8) (t : Thread) : Action → Option Thread
  | .submit rq =>
    match t.relay.submitAtddRequest rq with
    | (some _, _) => some t
    | (none, relay) => some { t with relay, accepted := t.accepted ++ [rq] }
  | .receive none =>
    if t.phase = .head then some { t with phase := .sending true } else none
  | .receive (some socket) =>
    if t.phase = .head then
      match finishAllCompletedRequests hmac 256 t.relay ⟨t.client, socket⟩ with
      | .error _ => none
      | .ok (err, ended, relay, client) =>
        some { t with
          relay := if err.isSome then relay.reset else relay
          client
          ended := t.ended ++ ended
          phase := .sending (Readable hmac t.client socket) }
    else none
  | .send connects result =>
    if t.phase = .head then none
    else if t.relay.atddCmdsToSend > 1 then none
    else if t.relay.atddCmdsToSend = 0 then some { t with phase := .head }
    else some (t.sendRequest connects result)

end Thread

end Driver
end AtomicDiscDrive
