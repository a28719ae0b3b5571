import AtomicDiscDrive.Wire.Transfer

/-!
# The receive loop of a connection

`handle_external_command`, `handle_single_external_request` and `get_magic_number`. The
bytes of a connection arrive in segments: `read` returns what it finds of the first
segment, up to the size of its buffer, while `read_exact` goes on until its buffer is
full. When all segments are used up, a closed connection reads as end of file and an open
one is waited for.

A function that waits for ever has the result `none`. An error leaves the bytes consumed
that were consumed before it.
-/

namespace AtomicDiscDrive
namespace Wire

/-! ## Connections -/

/-- The segments left when `n` bytes are consumed. -/
def dropBytes : ℕ → List (List UInt8) → List (List UInt8)
  | _, [] => []
  | n, segment :: rest =>
    if n < segment.length then segment.drop n :: rest else dropBytes (n - segment.length) rest

theorem nil_notMem_dropBytes {n : ℕ} {segments : List (List UInt8)} (h : [] ∉ segments) :
    [] ∉ dropBytes n segments := by
  induction segments generalizing n with
  | nil => exact h
  | cons segment rest ih =>
    have hrest : [] ∉ rest := fun hmem => h (List.mem_cons_of_mem _ hmem)
    unfold dropBytes
    split
    · rename_i hn
      intro hmem
      rcases List.mem_cons.mp hmem with heq | hmem
      · have hlen := congrArg List.length heq
        rw [List.length_drop, List.length_nil] at hlen
        omega
      · exact hrest hmem
    · exact ih hrest

/-- What is still to be read of a connection. -/
structure ReadHalf where
  segments : List (List UInt8)
  nonempty : [] ∉ segments
  /-- the peer closes the connection after the last segment -/
  closed : Bool

namespace ReadHalf

/-- The bytes to come. -/
def bytes (s : ReadHalf) : List UInt8 := s.segments.flatten

/-- Consume `n` bytes. -/
def skip (n : ℕ) (s : ReadHalf) : ReadHalf :=
  { s with
    segments := dropBytes n s.segments
    nonempty := nil_notMem_dropBytes s.nonempty }

/-- `AsyncReadExt::read` into a buffer of `n` bytes. -/
def read (n : ℕ) (s : ReadHalf) : Option (List UInt8 × ReadHalf) :=
  match s.segments with
  | [] => if s.closed then some ([], s) else none
  | segment :: _ => some (segment.take n, s.skip (segment.take n).length)

end ReadHalf

/-- A function that reads from a connection. -/
abbrev Receiver := ExceptT IoError (StateT ReadHalf Option)

namespace Receiver

/-- `AsyncReadExt::read`. -/
def read (n : ℕ) : Receiver (List UInt8) :=
  ExceptT.mk fun s => (s.read n).map fun x => (.ok x.1, x.2)

/-- The loop of `AsyncReadExt::read_exact`. Every read brings at least one byte, so `missing`
reads are enough. -/
def readExactLoop : ℕ → ℕ → Receiver (List UInt8)
  | _, 0 => pure []
  | 0, _ + 1 => throw .unexpectedEof
  | fuel + 1, missing + 1 => do
    let bytes ← read (missing + 1)
    if bytes = [] then
      throw .unexpectedEof
    else
      let rest ← readExactLoop fuel (missing + 1 - bytes.length)
      pure (bytes ++ rest)

/-- `AsyncReadExt::read_exact`. -/
def readExact (n : ℕ) : Receiver (List UInt8) := readExactLoop n n

/-- The loop of `get_magic_number`: the window moves on by one byte a round. -/
def magicLoop : ℕ → List UInt8 → Receiver Unit
  | 0, _ => throw .unexpectedEof
  | fuel + 1, currentNumbers =>
    if currentNumbers = magicNumber then
      pure ()
    else do
      let buffer ← readExact 1
      magicLoop fuel (currentNumbers.drop 1 ++ buffer)

/-- `get_magic_number`. A round consumes a byte, so the number of bytes bounds the rounds. -/
def getMagicNumber : Receiver Unit := do
  let currentNumbers ← readExact 4
  let s ← get
  magicLoop (s.bytes.length + 1) currentNumbers

end Receiver

/-! ## Requests -/

/-- The length of a message without its tag; 0 if its type is unknown. -/
def msgLen (msgType : UInt8) : ℕ :=
  if msgType = MsgType.read then 24
  else if msgType = MsgType.write then 24 + sectorVecSize
  else if msgType = MsgType.readProc then 40
  else if msgType = MsgType.value then 40 + 16 + sectorVecSize
  else if msgType = MsgType.writeProc then 40 + 16 + sectorVecSize
  else if msgType = MsgType.ack then 40
  else 0

/-- A message that has been read: its bytes, whether its tag verifies, and the command. -/
structure Request where
  msgType : UInt8
  data : List UInt8
  isVerified : Bool
  command : RegisterCommand
deriving DecidableEq

/-- What is done about a request. -/
inductive Effect where
  | executeSystemCommand (cmd : SystemRegisterCommand)
  | executeClientCommand (cmd : ClientRegisterCommand)
  | respondErr (msgType : UInt8) (statusCode : StatusCode) (requestIdentifier : UInt64)
deriving DecidableEq

/-- The keys and the limit of `Configuration`, and the keyed function behind `HmacSha256`. -/
structure Config where
  hmac : List UInt8 → List UInt8 → List UInt8
  hmacSystemKey : List UInt8
  hmacClientKey : List UInt8
  maxSector : UInt64

namespace Config

variable (config : Config)

/-- The key for messages of a type. -/
def hmacKey (msgType : UInt8) : List UInt8 :=
  if msgType < MsgType.readProc then config.hmacClientKey else config.hmacSystemKey

/-- The tag at the end of `data` is the one of the message before it. -/
def verifies (msgType : UInt8) (data : List UInt8) : Bool :=
  decide (config.hmac (config.hmacKey msgType) (data.take (msgLen msgType)) =
    data.drop (msgLen msgType))

/-- `handle_single_external_request`, from the four bytes behind the magic number on: read
the rest of the message, check its tag and deserialize it. A message of unknown type is
dropped. -/
def readMessage (header : List UInt8) : Receiver (Option Request) := do
  -- the rest of `buffer` is still zero
  let buffer := header ++ List.replicate (4 - header.length) 0
  let msgType := buffer.getD 3 0
  if msgLen msgType = 0 then
    pure none
  else
    let msg ← Receiver.readExact (msgLen msgType + 32 - 8)
    let data := magicNumber ++ buffer ++ msg
    let isVerified := config.verifies msgType data
    match deserializeRegisterCommand data with
    | .error err => throw err
    | .ok (command, _) => pure (some { msgType, data, isVerified, command })

/-- The first part of `handle_single_external_request`. -/
def readRequest : Receiver (Option Request) := do
  Receiver.getMagicNumber
  let header ← Receiver.read 4
  config.readMessage header

/-- The second part of `handle_single_external_request`. -/
def effect (request : Request) : Option Effect :=
  match request.command with
  | .system cmd => if request.isVerified then some (.executeSystemCommand cmd) else none
  | .client cmd =>
    if !request.isVerified || cmd.header.sectorIdx ≥ config.maxSector then
      some (.respondErr request.msgType
        (if !request.isVerified then .authFailure else .invalidSectorIndex)
        cmd.header.requestIdentifier)
    else
      some (.executeClientCommand cmd)

/-- The command a request hands to the executor. -/
def executed (request : Request) : Option RegisterCommand :=
  match config.effect request with
  | some (.executeSystemCommand cmd) => some (.system cmd)
  | some (.executeClientCommand cmd) => some (.client cmd)
  | _ => none

/-! ## The loop -/

end Config

/-- Where the loop of a connection stands when nothing more arrives. -/
inductive Ending where
  | closed
  | waiting
deriving DecidableEq

/-- The requests a connection has brought, and how it ended. -/
structure Reception where
  requests : List Request
  ending : Ending
deriving DecidableEq

namespace Config

variable (config : Config)

/-- The loop of `handle_external_command`. Errors are logged. -/
def receiveLoop : ℕ → ReadHalf → Reception
  | 0, _ => ⟨[], .waiting⟩
  | fuel + 1, s =>
    match s.segments with
    | [] => ⟨[], if s.closed then .closed else .waiting⟩
    | _ :: _ =>
      match config.readRequest.run s with
      | none => ⟨[], .waiting⟩
      | some (.ok (some request), s') =>
        let reception := receiveLoop fuel s'
        ⟨request :: reception.requests, reception.ending⟩
      | some (_, s') => receiveLoop fuel s'

/-- `handle_external_command`. Every round consumes a byte or is the last one. -/
def handleExternalCommand (s : ReadHalf) : Reception := config.receiveLoop (s.bytes.length + 1) s

end Config

end Wire
end AtomicDiscDrive
