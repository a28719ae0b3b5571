import AtomicDiscDrive.Domain
import AtomicDiscDrive.Utils.BigEndian

/-!
# The wire format

`serialize_deserialize.rs` and `transfer_public`: register commands as bytes and back, and
the bytes of a response. Serializers write into a vector, which never fails. A
deserializer reads from a slice, and fails where the slice is too short or the message
type is unknown.
-/

namespace AtomicDiscDrive
namespace Wire

open Utils

/-- `MAGIC_NUMBER`. -/
def magicNumber : List UInt8 := [0x61, 0x74, 0x64, 0x64]

/-! ## Message types -/

namespace MsgType

def read : UInt8 := 0x01
def write : UInt8 := 0x02
def readProc : UInt8 := 0x03
def value : UInt8 := 0x04
def writeProc : UInt8 := 0x05
def ack : UInt8 := 0x06

end MsgType

/-- The message type of a client command. -/
def clientMsgType : ClientRegisterCommandContent → UInt8
  | .read => MsgType.read
  | .write _ => MsgType.write

/-- The message type of a system command. -/
def systemMsgType : SystemRegisterCommandContent → UInt8
  | .readProc => MsgType.readProc
  | .value _ _ _ => MsgType.value
  | .writeProc _ _ _ => MsgType.writeProc
  | .ack => MsgType.ack

/-! ## Fields -/

/-- `Uuid::as_bytes`. -/
def uuidAsBytes (uuid : Uuid) : List UInt8 := beBytes 16 uuid.toNat

/-- `Uuid::from_bytes`. -/
def uuidFromBytes (bytes : List UInt8) : Uuid := BitVec.ofNat 128 (ofBeBytes bytes)

/-! ## Serializing -/

/-- `serialize_client_command`. -/
def serializeClientCommand (cmd : ClientRegisterCommand) : List UInt8 :=
  [0, 0, 0] ++ [clientMsgType cmd.content] ++ u64ToBeBytes cmd.header.requestIdentifier ++
    u64ToBeBytes cmd.header.sectorIdx ++
    match cmd.content with
    | .read => []
    | .write data => data.bytes

/-- The end of a `Value` or a `WriteProc`. -/
def serializeTagged (timestamp : UInt64) (writeRank : UInt8) (data : SectorVec) : List UInt8 :=
  u64ToBeBytes timestamp ++ List.replicate 7 0 ++ [writeRank] ++ data.bytes

/-- `serialize_system_command`. -/
def serializeSystemCommand (cmd : SystemRegisterCommand) : List UInt8 :=
  [0, 0, cmd.header.processIdentifier] ++ [systemMsgType cmd.content] ++
    uuidAsBytes cmd.header.msgIdent ++ u64ToBeBytes cmd.header.readIdent ++
    u64ToBeBytes cmd.header.sectorIdx ++
    match cmd.content with
    | .readProc => []
    | .value timestamp writeRank sectorData => serializeTagged timestamp writeRank sectorData
    | .writeProc timestamp writeRank dataToWrite => serializeTagged timestamp writeRank dataToWrite
    | .ack => []

/-- `serialize_register_command`. -/
def serializeRegisterCommand : RegisterCommand → List UInt8
  | .client cmd => magicNumber ++ serializeClientCommand cmd
  | .system cmd => magicNumber ++ serializeSystemCommand cmd

/-- `status_code as u8`. -/
def statusByte : StatusCode → UInt8
  | .ok => 0
  | .authFailure => 1
  | .invalidSectorIndex => 2

/-- `serialize_response`. -/
def serializeResponse (opComplete : OperationComplete) (msgType : UInt8) : List UInt8 :=
  magicNumber ++ [0, 0, statusByte opComplete.statusCode, 0x40 + msgType] ++
    u64ToBeBytes opComplete.requestIdentifier ++
    match opComplete.opReturn with
    | .read ⟨some data⟩ => data.bytes
    | .read ⟨none⟩ => []
    | .write => []

/-! ## Deserializing -/

/-- `std::io::Error`, as far as this code tells errors apart. -/
inductive IoError where
  | unexpectedEof
  | other (message : String)
deriving DecidableEq

/-- A function that reads from a slice: what it returns, and the bytes it leaves. -/
abbrev Decoder := StateT (List UInt8) (Except IoError)

/-- `Read::read_exact` on a slice. -/
def readExact (n : ℕ) : Decoder (List UInt8) := fun data =>
  if n ≤ data.length then .ok (data.take n, data.drop n) else .error .unexpectedEof

/-- `deserialize_client_command`. -/
def deserializeClientCommand (msgType : UInt8) : Decoder RegisterCommand := do
  let buffer ← readExact 16
  let header : ClientCommandHeader :=
    { requestIdentifier := u64FromBeBytes (buffer.take 8)
      sectorIdx := u64FromBeBytes (buffer.drop 8) }
  if msgType = MsgType.read then
    return .client ⟨header, .read⟩
  else if msgType = MsgType.write then
    let content ← readExact sectorVecSize
    return .client ⟨header, .write ⟨content⟩⟩
  else
    throw (.other ("[UNEXPECTED] unknown client msg_type: " ++ toString msgType))

/-- The end of a `Value` or a `WriteProc`. -/
def deserializeTagged : Decoder (UInt64 × UInt8 × SectorVec) := do
  let buffer ← readExact (16 + sectorVecSize)
  return (u64FromBeBytes (buffer.take 8), buffer.getD 15 0, ⟨buffer.drop 16⟩)

/-- `deserialize_system_command`. -/
def deserializeSystemCommand (processIdentifier msgType : UInt8) : Decoder RegisterCommand := do
  if msgType ≠ MsgType.readProc ∧ msgType ≠ MsgType.value ∧ msgType ≠ MsgType.writeProc ∧
      msgType ≠ MsgType.ack then
    throw (.other ("unknown system msg_type: " ++ toString msgType))
  let buffer ← readExact 32
  let header : SystemCommandHeader :=
    { processIdentifier
      msgIdent := uuidFromBytes (buffer.take 16)
      readIdent := u64FromBeBytes ((buffer.drop 16).take 8)
      sectorIdx := u64FromBeBytes (buffer.drop 24) }
  if msgType = MsgType.readProc then
    return .system ⟨header, .readProc⟩
  else if msgType = MsgType.value then
    let (timestamp, writeRank, sectorData) ← deserializeTagged
    return .system ⟨header, .value timestamp writeRank sectorData⟩
  else if msgType = MsgType.writeProc then
    let (timestamp, writeRank, dataToWrite) ← deserializeTagged
    return .system ⟨header, .writeProc timestamp writeRank dataToWrite⟩
  else if msgType = MsgType.ack then
    return .system ⟨header, .ack⟩
  else
    throw (.other ("[UNEXPECTED] unknown system msg_type: " ++ toString msgType))

/-- `deserialize_register_command`. The magic number and the padding are not looked at. -/
def deserializeRegisterCommand : Decoder RegisterCommand := do
  let buffer ← readExact 8
  let processIdentifier := buffer.getD 6 0
  let msgType := buffer.getD 7 0
  if msgType = MsgType.read ∨ msgType = MsgType.write then
    deserializeClientCommand msgType
  else
    deserializeSystemCommand processIdentifier msgType

/-! ## Round trips -/

@[simp] theorem length_uuidAsBytes (uuid : Uuid) : (uuidAsBytes uuid).length = 16 :=
  length_beBytes 16 _

@[simp] theorem uuidFromBytes_uuidAsBytes (uuid : Uuid) :
    uuidFromBytes (uuidAsBytes uuid) = uuid := by
  have hn : uuid.toNat < 256 ^ 16 := lt_of_lt_of_le uuid.isLt (by norm_num)
  unfold uuidFromBytes uuidAsBytes
  rw [ofBeBytes_beBytes hn, BitVec.ofNat_toNat, BitVec.setWidth_eq]

/-- A read that finds its bytes at the front. -/
theorem readExact_append {n : ℕ} {bytes : List UInt8} (h : bytes.length = n)
    (rest : List UInt8) : readExact n (bytes ++ rest) = .ok (bytes, rest) := by
  subst h
  simp [readExact]

/-- The data a command carries. -/
def payload? : RegisterCommand → Option SectorVec
  | .client ⟨_, .write data⟩ => some data
  | .system ⟨_, .value _ _ data⟩ => some data
  | .system ⟨_, .writeProc _ _ data⟩ => some data
  | _ => none

/-- Payloads have the size of a sector. -/
def FullPayload (cmd : RegisterCommand) : Prop :=
  ∀ data ∈ payload? cmd, data.bytes.length = sectorVecSize

instance (cmd : RegisterCommand) : Decidable (FullPayload cmd) :=
  inferInstanceAs (Decidable (∀ data ∈ payload? cmd, data.bytes.length = sectorVecSize))

/-- A decoder that starts with a read, on bytes that start with what is read. -/
theorem readExact_bind_append {α : Type} {n : ℕ} {bytes : List UInt8} (h : bytes.length = n)
    (rest : List UInt8) (f : List UInt8 → Decoder α) :
    (readExact n >>= f) (bytes ++ rest) = f bytes rest := by
  show (readExact n (bytes ++ rest) >>= fun x => f x.1 x.2) = f bytes rest
  rw [readExact_append h]
  rfl

theorem length_serializeTagged {data : SectorVec} (h : data.bytes.length = sectorVecSize)
    (timestamp : UInt64) (writeRank : UInt8) :
    (serializeTagged timestamp writeRank data).length = 16 + sectorVecSize := by
  simp only [serializeTagged, List.length_append, length_u64ToBeBytes, List.length_replicate,
    List.length_singleton, h]

theorem deserializeTagged_serializeTagged (timestamp : UInt64) (writeRank : UInt8)
    {data : SectorVec} (h : data.bytes.length = sectorVecSize) (rest : List UInt8) :
    deserializeTagged (serializeTagged timestamp writeRank data ++ rest) =
      .ok ((timestamp, writeRank, data), rest) := by
  unfold deserializeTagged
  rw [readExact_bind_append (length_serializeTagged h timestamp writeRank)]
  have hts : (serializeTagged timestamp writeRank data).take 8 = u64ToBeBytes timestamp := by
    simp [serializeTagged]
  have hdata : (serializeTagged timestamp writeRank data).drop 16 = data.bytes := by
    simp [serializeTagged, List.drop_append]
  have hwr : (serializeTagged timestamp writeRank data).getD 15 0 = writeRank := by
    simp [serializeTagged, List.getD, List.getElem?_append]
  rw [hts, hdata, hwr, u64FromBeBytes_u64ToBeBytes]
  rfl

theorem deserializeClientCommand_fields (cmd : ClientRegisterCommand)
    (h : FullPayload (.client cmd)) (rest : List UInt8) :
    deserializeClientCommand (clientMsgType cmd.content)
      ((u64ToBeBytes cmd.header.requestIdentifier ++ u64ToBeBytes cmd.header.sectorIdx) ++
        ((match cmd.content with | .read => [] | .write data => data.bytes) ++ rest)) =
      .ok (.client cmd, rest) := by
  unfold deserializeClientCommand
  rw [readExact_bind_append (by simp)]
  obtain ⟨⟨id, sector⟩, content⟩ := cmd
  have hid : (u64ToBeBytes id ++ u64ToBeBytes sector).take 8 = u64ToBeBytes id := by
    simp
  have hsector : (u64ToBeBytes id ++ u64ToBeBytes sector).drop 8 = u64ToBeBytes sector := by
    simp
  simp only [hid, hsector, u64FromBeBytes_u64ToBeBytes]
  cases content with
  | read => rfl
  | write data =>
    have htype : clientMsgType (.write data) = MsgType.write := rfl
    rw [htype, if_neg (by decide), if_pos rfl]
    exact readExact_bind_append (h data rfl) rest _

theorem deserializeSystemCommand_fields (cmd : SystemRegisterCommand)
    (h : FullPayload (.system cmd)) (rest : List UInt8) :
    deserializeSystemCommand cmd.header.processIdentifier (systemMsgType cmd.content)
      ((uuidAsBytes cmd.header.msgIdent ++ u64ToBeBytes cmd.header.readIdent ++
          u64ToBeBytes cmd.header.sectorIdx) ++
        ((match cmd.content with
          | .readProc => []
          | .value timestamp writeRank data => serializeTagged timestamp writeRank data
          | .writeProc timestamp writeRank data => serializeTagged timestamp writeRank data
          | .ack => []) ++ rest)) =
      .ok (.system cmd, rest) := by
  obtain ⟨⟨pid, ident, readIdent, sector⟩, content⟩ := cmd
  have hknown : ¬ (systemMsgType content ≠ MsgType.readProc ∧
      systemMsgType content ≠ MsgType.value ∧ systemMsgType content ≠ MsgType.writeProc ∧
      systemMsgType content ≠ MsgType.ack) := by
    cases content <;> simp [systemMsgType]
  unfold deserializeSystemCommand
  rw [if_neg hknown]
  have hident : (uuidAsBytes ident ++ u64ToBeBytes readIdent ++ u64ToBeBytes sector).take 16 =
      uuidAsBytes ident := by
    simp
  have hread : ((uuidAsBytes ident ++ u64ToBeBytes readIdent ++ u64ToBeBytes sector).drop 16).take 8
      = u64ToBeBytes readIdent := by
    simp
  have hsector : (uuidAsBytes ident ++ u64ToBeBytes readIdent ++ u64ToBeBytes sector).drop 24 =
      u64ToBeBytes sector := by
    simp [List.drop_append]
  show (readExact 32 >>= _) _ = _
  rw [readExact_bind_append (by simp)]
  simp only [hident, hread, hsector, u64FromBeBytes_u64ToBeBytes, uuidFromBytes_uuidAsBytes]
  cases content with
  | readProc => rfl
  | value timestamp writeRank data =>
    have htype : systemMsgType (.value timestamp writeRank data) = MsgType.value := rfl
    rw [htype, if_neg (by decide), if_pos rfl]
    show (deserializeTagged _ >>= _) = _
    rw [deserializeTagged_serializeTagged timestamp writeRank (h data rfl)]
    rfl
  | writeProc timestamp writeRank data =>
    have htype : systemMsgType (.writeProc timestamp writeRank data) = MsgType.writeProc := rfl
    rw [htype, if_neg (by decide), if_neg (by decide), if_pos rfl]
    show (deserializeTagged _ >>= _) = _
    rw [deserializeTagged_serializeTagged timestamp writeRank (h data rfl)]
    rfl
  | ack => rfl

/-- The first eight bytes give the sender and the type. -/
theorem deserializeRegisterCommand_header (processIdentifier msgType : UInt8)
    (rest : List UInt8) :
    deserializeRegisterCommand
        ((magicNumber ++ [0, 0, processIdentifier] ++ [msgType]) ++ rest) =
      (if msgType = MsgType.read ∨ msgType = MsgType.write then deserializeClientCommand msgType
        else deserializeSystemCommand processIdentifier msgType) rest := by
  unfold deserializeRegisterCommand
  rw [readExact_bind_append (n := 8) rfl]
  rfl

/-- What was serialized is read back, and nothing behind it is touched. -/
theorem deserialize_serialize (cmd : RegisterCommand) (h : FullPayload cmd) (rest : List UInt8) :
    deserializeRegisterCommand (serializeRegisterCommand cmd ++ rest) = .ok (cmd, rest) := by
  cases cmd with
  | client cmd =>
    have htype : clientMsgType cmd.content = MsgType.read ∨
        clientMsgType cmd.content = MsgType.write := by
      cases cmd.content
      · exact Or.inl rfl
      · exact Or.inr rfl
    have hheader := deserializeRegisterCommand_header 0 (clientMsgType cmd.content)
    rw [if_pos htype] at hheader
    rw [← deserializeClientCommand_fields cmd h rest, ← hheader]
    simp only [serializeRegisterCommand, serializeClientCommand, List.append_assoc]
  | system cmd =>
    have htype : ¬ (systemMsgType cmd.content = MsgType.read ∨
        systemMsgType cmd.content = MsgType.write) := by
      cases cmd.content <;> simp only [systemMsgType] <;> decide
    have hheader := deserializeRegisterCommand_header cmd.header.processIdentifier
      (systemMsgType cmd.content)
    rw [if_neg htype] at hheader
    rw [← deserializeSystemCommand_fields cmd h rest, ← hheader]
    simp only [serializeRegisterCommand, serializeSystemCommand, List.append_assoc]

end Wire
end AtomicDiscDrive
