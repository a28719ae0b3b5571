import AtomicDiscDrive.Wire.Transfer

/-!
# The driver's TCP client

`atdd_tcp_client.c` and the two calls of `tcp.c` it makes: a block request as the bytes of
a command, and the parser of responses. The client keeps one buffer of received bytes, and
a position up to which it is filled; the bytes behind the position are what earlier
responses left there.

What the socket does is an input. A call of `kernel_recvmsg` returns a part of a chunk,
nothing, or an error; how the chunks are cut is up to the network. The read loops ask again
when nothing has arrived, so a thread that has no more input is `waiting`; one that runs
into a `BUG_ON` is gone.
-/

namespace AtomicDiscDrive
namespace Driver

open Utils

/-! ## Constants -/

/-- `HMAC_TAG_SIZE`. -/
def hmacTagSize : ℕ := 32

/-- `SECTOR_SIZE`. -/
def sectorSize : ℕ := 4096

/-- `ATDD_RESPONSE_HEADER_SIZE`. -/
def atddResponseHeaderSize : ℕ := 16

/-- `MIN_RESPONSE_SIZE`. -/
def minResponseSize : ℕ := atddResponseHeaderSize + hmacTagSize

/-- `ATDD_MAGIC`, without the zero at its end. -/
def atddMagic : List UInt8 := [0x61, 0x74, 0x64, 0x64]

/-- `READ_CMD`. -/
def readCmd : UInt8 := 1

/-- `WRITE_CMD`. -/
def writeCmd : UInt8 := 2

/-- Negative results of a function. -/
inductive Errno where
  | einval
  | eio
  | enospc
  | socket (code : ℕ)
deriving DecidableEq

/-! ## Block requests -/

/-- `rq_data_dir`. -/
inductive DataDir where
  | read
  | write
deriving DecidableEq

/-- A request of the block layer. Requests are told apart by their numbers. -/
structure Request where
  number : ℕ
  dataDir : DataDir
  /-- `blk_rq_pos`, in units of 512 bytes -/
  pos : UInt64
  /-- `bio_data` -/
  data : List UInt8
deriving DecidableEq

/-- The type of the command for a request. -/
def Request.cmdType (rq : Request) : UInt8 :=
  match rq.dataDir with
  | .write => writeCmd
  | .read => readCmd

/-- What `prepare_cmd_content` leaves in `send_buf`, less the tag. The first seven bytes are
those that are there: the magic number, written once by `setup_send_buf`, and padding. -/
def cmdContent (sendBuf : List UInt8) (rq : Request) (ident : UInt64) : List UInt8 :=
  sendBuf.take 7 ++ [rq.cmdType] ++ u64ToBeBytes ident ++ u64ToBeBytes (rq.pos >>> 3) ++
    if rq.cmdType = writeCmd then rq.data.take sectorSize else []

/-- `prepare_cmd_content`, `hmac_tag_prepare` included: the bytes that are sent. -/
def prepareCmdContent (hmac : List UInt8 → List UInt8) (sendBuf : List UInt8) (rq : Request)
    (ident : UInt64) : List UInt8 :=
  cmdContent sendBuf rq ident ++ hmac (cmdContent sendBuf rq ident)

/-! ## The socket -/

/-- What a call of `kernel_recvmsg` finds. -/
inductive Recv where
  /-- a chunk of bytes, at least one -/
  | chunk (first : UInt8) (rest : List UInt8)
  /-- `-EAGAIN`, or 0 at the end of the stream -/
  | nothing
  /-- `-ERESTARTSYS` -/
  | restart
  | error (code : ℕ)
deriving DecidableEq

/-- Where a thread gets stuck. -/
inductive Halt where
  | waiting
  | bug
deriving DecidableEq

/-- The bytes of a chunk that did not fit into the buffer are found by the next call. -/
def unread : List UInt8 → List Recv → List Recv
  | [], socket => socket
  | b :: bs, socket => .chunk b bs :: socket

/-- `try_tcp_read`, for `left > 0`. -/
def tryTcpRead (left : ℕ) : List Recv → Except Halt (Except Errno (List UInt8) × List Recv)
  | [] => .error .waiting
  | .restart :: socket => tryTcpRead left socket
  | .nothing :: socket => .ok (.ok [], socket)
  | .error code :: socket => .ok (.error (.socket code), socket)
  | .chunk b bs :: socket => .ok (.ok ((b :: bs).take left), unread ((b :: bs).drop left) socket)

/-! ## The client -/

/-- `struct atdd_cmd_parse`. -/
structure CmdParse where
  st : StatusCode
  rqIdent : UInt64
  completed : Bool

/-- The positions of `struct pending_buf`. The commands in it are never looked at. -/
structure PendingBuf where
  completedPos : UInt8
  acceptedPos : UInt8
deriving DecidableEq

/-- `struct atdd_tcp_client`. -/
structure TcpClient where
  sendBuf : List UInt8
  connected : Bool
  pending : PendingBuf
  parseBuf : ℕ → UInt8
  parseBufPos : ℕ
  parseState : CmdParse

/-- `struct atdd_cmd_return`, with the bytes its pointer leads to. -/
structure CmdReturn where
  ident : UInt64
  data : List UInt8
  rcode : StatusCode
deriving DecidableEq

namespace TcpClient

/-- `atdd_client_create`. What the allocated buffers hold is arbitrary, less the magic number
and the zero behind it. -/
def create (sendBuf : List UInt8) (parseBuf : ℕ → UInt8) : TcpClient :=
  { sendBuf := atddMagic ++ [0] ++ sendBuf.drop 5
    connected := false
    pending := ⟨0, 0⟩
    parseBuf
    parseBufPos := 0
    parseState := ⟨.ok, 0, false⟩ }

/-- `len` bytes of `parse_buf`. -/
def slice (c : TcpClient) (pos len : ℕ) : List UInt8 :=
  (List.range len).map fun i => c.parseBuf (pos + i)

/-- Write bytes to `parse_buf` at `parse_buf_pos`. -/
def store (c : TcpClient) (bytes : List UInt8) : TcpClient :=
  { c with
    parseBuf := fun i =>
      if i < c.parseBufPos then c.parseBuf i else bytes.getD (i - c.parseBufPos) (c.parseBuf i)
    parseBufPos := c.parseBufPos + bytes.length }

/-- `atdd_disconnect`. -/
def atddDisconnect (c : TcpClient) : TcpClient :=
  { c with
    connected := false
    parseBufPos := 0
    pending := { c.pending with acceptedPos := c.pending.completedPos } }

/-! ## Sending -/

/-- `send_atdd_cmd_over_tcp`. `connects` tells whether one of the addresses answers, and `sent`
is the result of `tcp_send`. -/
def sendAtddCmdOverTcp (connects : Bool) (sent : Option Errno) (c : TcpClient) :
    Option Errno × TcpClient :=
  if !c.connected && !connects then (some .eio, c)
  else
    let c := { c with connected := true }
    match sent with
    | some err => (some err, c.atddDisconnect)
    | none => (none, c)

/-- `atdd_send_command`, behind `prepare_cmd_content`. -/
def atddSendCommand (connects : Bool) (sent : Option Errno) (c : TcpClient) :
    Option Errno × TcpClient :=
  match c.sendAtddCmdOverTcp connects sent with
  | (some err, c) => (some err, c)
  | (none, c) =>
    (none, { c with pending := { c.pending with acceptedPos := c.pending.acceptedPos + 1 } })

end TcpClient

/-! ## Fetching -/

/-- A client and the results of the calls of `kernel_recvmsg` to come. -/
structure Connection where
  client : TcpClient
  socket : List Recv

/-- `parse_status_code`. -/
def parseStatusCode (byte : UInt8) : Option StatusCode :=
  if byte = 0 then some .ok
  else if byte = 1 then some .authFailure
  else if byte = 2 then some .invalidSectorIndex
  else none

namespace Connection

/-- The loop of `progress_tcp_data_to_limit`. -/
def progressLoop (limit : ℕ) : ℕ → Connection → Except Halt (Except Errno Unit × Connection)
  | 0, _ => .error .waiting
  | fuel + 1, s =>
    if s.client.parseBufPos < limit then do
      let (res, socket) ← tryTcpRead (limit - s.client.parseBufPos) s.socket
      match res with
      | .error err => .ok (.error err, { s with socket })
      | .ok bytes => progressLoop limit fuel { client := s.client.store bytes, socket }
    else .ok (.ok (), s)

/-- `progress_tcp_data_to_limit`. A round uses up a result of `kernel_recvmsg` or is the last
but one. -/
def progressTcpDataToLimit (limit : ℕ) (s : Connection) :
    Except Halt (Except Errno Unit × Connection) :=
  s.progressLoop limit (s.socket.length + 2)

/-- `slide_to_atdd_magic`: the buffer starts with the magic number, or `BUG_ON(slide != 0)`
fires. -/
def slideToAtddMagic (s : Connection) : Except Halt Connection :=
  if 4 ≤ s.client.parseBufPos ∧ s.client.slice 0 4 ≠ atddMagic then .error .bug else .ok s

/-- The first loop of `progress_tcp_data`. It has one round at most: after it the buffer is
filled to the limit. -/
def progressHeader (s : Connection) : Except Halt (Except Errno Unit × Connection) :=
  if s.client.parseBufPos < minResponseSize then do
    let (res, s) ← s.progressTcpDataToLimit minResponseSize
    match res with
    | .error err => .ok (.error err, s)
    | .ok () =>
      let s ← s.slideToAtddMagic
      .ok (.ok (), s)
  else .ok (.ok (), s)

/-- `progress_tcp_data`, from the status code on. -/
def progressBody (s : Connection) : Except Halt (Except Errno Unit × Connection) := do
  let c := { s.client with
    parseState := { s.client.parseState with
      rqIdent := u64FromBeBytes (s.client.slice 8 8) } }
  let limit := minResponseSize +
    if c.parseState.st = .ok ∧ c.parseBuf 7 = 0x40 + readCmd then sectorSize else 0
  let (res, s) ← { s with client := c }.progressTcpDataToLimit limit
  match res with
  | .error err => .ok (.error err, s)
  | .ok () =>
    .ok (.ok (), { s with
      client := { s.client with parseState := { s.client.parseState with completed := true } } })

/-- `progress_tcp_data`. -/
def progressTcpData (s : Connection) : Except Halt (Except Errno Unit × Connection) := do
  let (res, s) ← s.progressHeader
  match res with
  | .error err => .ok (.error err, s)
  | .ok () =>
    if s.client.parseBufPos = minResponseSize then
      match parseStatusCode (s.client.parseBuf 6) with
      | none => .ok (.error .einval, { s with client := { s.client with parseBufPos := 0 } })
      | some st =>
        progressBody { s with
          client := { s.client with parseState := { s.client.parseState with st } } }
    else s.progressBody

/-- `validate_cmd_parse_hmac`. -/
def validateCmdParseHmac (hmac : List UInt8 → List UInt8) (c : TcpClient) : Bool :=
  hmac (c.slice 0 (c.parseBufPos - hmacTagSize)) =
    c.slice (c.parseBufPos - hmacTagSize) hmacTagSize

/-- The end of `atdd_fetch_command`. -/
def finishFetch (c : TcpClient) : CmdReturn × TcpClient :=
  ({ ident := c.parseState.rqIdent
     data := c.slice atddResponseHeaderSize sectorSize
     rcode := c.parseState.st },
    { c with
      parseBufPos := 0
      parseState := { c.parseState with completed := false }
      pending := { c.pending with completedPos := c.pending.completedPos + 1 } })

/-- `atdd_fetch_command`: a command, nothing, or an error. -/
def atddFetchCommand (hmac : List UInt8 → List UInt8) (s : Connection) :
    Except Halt (Except Errno (Option CmdReturn) × Connection) :=
  if s.client.pending.acceptedPos = s.client.pending.completedPos then .ok (.ok none, s)
  else do
    let (res, s) ← s.progressTcpData
    match res with
    | .error err => .ok (.error err, s)
    | .ok () =>
      if !s.client.parseState.completed then .ok (.ok none, s)
      else if !validateCmdParseHmac hmac s.client then
        .ok (.error .einval, { s with client := { s.client with parseBufPos := 0 } })
      else
        let (cmd, c) := finishFetch s.client
        .ok (.ok (some cmd), { s with client := c })

end Connection

end Driver
end AtomicDiscDrive
