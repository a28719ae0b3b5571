import AtomicDiscDrive.Wire.Streams

/-!
# The grammar of the decoder

`deserialize_register_command` on bytes that need not come from a serializer. A frame is
eight bytes, the last of which is the type, and the fields of a message of that type. The
decoder accepts the byte strings that start with a frame, and reads nothing behind it
(`deserialize_frame`).

Some bytes of a frame are not looked at: the magic number and the padding. Serializing
what was decoded brings back the other bytes as they were, and writes the bytes that were
not looked at in their normal form (`normalise`).
-/

namespace AtomicDiscDrive
namespace Wire

open Utils

/-! ## Lengths -/

/-- The type is the eighth byte of a message. -/
theorem getD_serialize (cmd : RegisterCommand) :
    (serializeRegisterCommand cmd).getD 7 0 = msgTypeOf cmd := by
  cases cmd with
  | client cmd => rfl
  | system cmd => rfl

/-- **Round trip.** What was serialized is read back, with nothing behind it touched, and
takes up the bytes that the receiver expects for its type. -/
theorem deserialize_serialize_msgLen (cmd : RegisterCommand) (h : FullPayload cmd)
    (rest : List UInt8) :
    deserializeRegisterCommand (serializeRegisterCommand cmd ++ rest) = .ok (cmd, rest) ∧
    (serializeRegisterCommand cmd).length =
      msgLen ((serializeRegisterCommand cmd).getD 7 0) := by
  constructor
  · exact deserialize_serialize cmd h rest
  · rw [getD_serialize]
    exact length_serialize h

/-- A WRITE of a sector of sevens, with two bytes behind it. -/
theorem deserialize_serialize_sevens :
    deserializeRegisterCommand (serializeRegisterCommand
        (.client ⟨⟨9, 3⟩, .write (SectorVec.fill 7)⟩) ++ [1, 2]) =
      .ok (.client ⟨⟨9, 3⟩, .write (SectorVec.fill 7)⟩, [1, 2]) ∧
    (serializeRegisterCommand (.client ⟨⟨9, 3⟩, .write (SectorVec.fill 7)⟩)).length =
      msgLen MsgType.write :=
  deserialize_serialize_msgLen (.client ⟨⟨9, 3⟩, .write (SectorVec.fill 7)⟩)
    (fun data hdata => by cases hdata; exact List.length_replicate) [1, 2]

/-! ## Frames -/

/-- The six message types. -/
def Known (msgType : UInt8) : Prop :=
  msgType = MsgType.read ∨ msgType = MsgType.write ∨ msgType = MsgType.readProc ∨
    msgType = MsgType.value ∨ msgType = MsgType.writeProc ∨ msgType = MsgType.ack

instance (msgType : UInt8) : Decidable (Known msgType) :=
  inferInstanceAs (Decidable (_ ∨ _))

/-- The bytes start with a frame. -/
structure StartsWithFrame (bytes : List UInt8) : Prop where
  header : 8 ≤ bytes.length
  known : Known (bytes.getD 7 0)
  whole : msgLen (bytes.getD 7 0) ≤ bytes.length

/-- The types of client messages. -/
def IsClient (msgType : UInt8) : Prop := msgType = MsgType.read ∨ msgType = MsgType.write

instance (msgType : UInt8) : Decidable (IsClient msgType) :=
  inferInstanceAs (Decidable (_ ∨ _))

/-- The types of messages with a timestamp and a write rank. -/
def IsTagged (msgType : UInt8) : Prop :=
  msgType = MsgType.value ∨ msgType = MsgType.writeProc

instance (msgType : UInt8) : Decidable (IsTagged msgType) :=
  inferInstanceAs (Decidable (_ ∨ _))

/-- The places of the padding in a message. The byte before the type is padding in client
messages, and the sender in system messages. -/
def IsPadding (msgType : UInt8) (i : ℕ) : Prop :=
  i = 4 ∨ i = 5 ∨ (IsClient msgType ∧ i = 6) ∨ (IsTagged msgType ∧ 48 ≤ i ∧ i < 55)

instance (msgType : UInt8) (i : ℕ) : Decidable (IsPadding msgType i) :=
  inferInstanceAs (Decidable (_ ∨ _))

/-- A byte of a message, in its normal form. -/
def normalByte (msgType : UInt8) (i : ℕ) (b : UInt8) : UInt8 :=
  if i < 4 then magicNumber.getD i 0 else if IsPadding msgType i then 0 else b

/-- A message with the magic number in front and zeros for padding. -/
def normalise (message : List UInt8) : List UInt8 :=
  message.mapIdx (normalByte (message.getD 7 0))

/-! ## Normal forms -/

theorem mapIdx_eq_self {α : Type} {f : ℕ → α → α} {l : List α}
    (h : ∀ i < l.length, ∀ x, f i x = x) : l.mapIdx f = l := by
  apply List.ext_getElem
  · exact List.length_mapIdx
  · intro i _ hi
    rw [List.getElem_mapIdx]
    exact h i hi _

/-- Only the padding of a message behind its header is changed. -/
theorem normalise_append (m₀ m₁ m₂ m₃ p₀ p₁ sender msgType : UInt8) (body : List UInt8) :
    normalise ([m₀, m₁, m₂, m₃, p₀, p₁, sender, msgType] ++ body) =
      magicNumber ++ [0, 0, if IsClient msgType then 0 else sender, msgType] ++
        body.mapIdx fun i b => if IsTagged msgType ∧ 40 ≤ i ∧ i < 47 then 0 else b := by
  have htype : ([m₀, m₁, m₂, m₃, p₀, p₁, sender, msgType] ++ body).getD 7 0 = msgType := rfl
  unfold normalise
  rw [htype, List.mapIdx_append]
  congr 1
  · by_cases hclient : IsClient msgType
    · simp [normalByte, IsPadding, hclient, magicNumber]
    · simp [normalByte, IsPadding, hclient, magicNumber]
  · congr 1
    funext i b
    -- the indices are shifted by the length of the header
    show normalByte msgType (i + 8) b = _
    have hpadding : IsPadding msgType (i + 8) ↔ IsTagged msgType ∧ 40 ≤ i ∧ i < 47 := by
      constructor
      · rintro (h | h | ⟨_, h⟩ | ⟨htagged, h⟩)
        · omega
        · omega
        · omega
        · exact ⟨htagged, by omega⟩
      · rintro ⟨htagged, h⟩
        exact Or.inr (Or.inr (Or.inr ⟨htagged, by omega⟩))
    unfold normalByte
    rw [if_neg (by omega)]
    simp only [hpadding]

/-- A message without a tag has no padding behind its header. -/
theorem mapIdx_untagged {msgType : UInt8} (h : ¬ IsTagged msgType) (body : List UInt8) :
    (body.mapIdx fun i b => if IsTagged msgType ∧ 40 ≤ i ∧ i < 47 then 0 else b) = body := by
  apply mapIdx_eq_self
  intro i _ x
  rw [if_neg (fun hc => h hc.1)]

/-- The padding before the write rank. -/
theorem mapIdx_tagged {msgType : UInt8} (h : IsTagged msgType) (front padding back : List UInt8)
    (hfront : front.length = 40) (hpadding : padding.length = 7) :
    ((front ++ padding ++ back).mapIdx fun i b =>
        if IsTagged msgType ∧ 40 ≤ i ∧ i < 47 then 0 else b) =
      front ++ List.replicate 7 0 ++ back := by
  rw [List.mapIdx_append, List.mapIdx_append]
  congr 1
  · congr 1
    · apply mapIdx_eq_self
      intro i hi x
      rw [if_neg (by omega)]
    · apply List.ext_getElem
      · simp [hpadding]
      · intro i hi _
        rw [List.length_mapIdx] at hi
        rw [List.getElem_mapIdx, List.getElem_replicate, if_pos ⟨h, by omega, by omega⟩]
  · apply mapIdx_eq_self
    intro i _ x
    rw [List.length_append, if_neg (by omega)]

/-! ## Decoding -/

/-- A read that asks for too much. -/
theorem readExact_bind_short {α : Type} {n : ℕ} {data : List UInt8} (h : data.length < n)
    (f : List UInt8 → Decoder α) : (readExact n >>= f) data = .error .unexpectedEof := by
  have hread : readExact n data = .error .unexpectedEof := by
    rw [readExact, if_neg (by omega)]
  show (readExact n data >>= fun x => f x.1 x.2) = _
  rw [hread]
  rfl

/-- The first bytes of a list that is long enough. -/
theorem exists_front (n : ℕ) (bytes : List UInt8) (h : n ≤ bytes.length) :
    ∃ front back, bytes = front ++ back ∧ front.length = n :=
  ⟨bytes.take n, bytes.drop n, (List.take_append_drop n bytes).symm, by
    rw [List.length_take, min_eq_left h]⟩

theorem uuidAsBytes_uuidFromBytes {bytes : List UInt8} (h : bytes.length = 16) :
    uuidAsBytes (uuidFromBytes bytes) = bytes := by
  have hlt : ofBeBytes bytes < 2 ^ 128 := by
    have hbound := ofBeBytes_lt bytes
    rw [h] at hbound
    exact lt_of_lt_of_le hbound (by norm_num)
  have hbytes := beBytes_ofBeBytes bytes
  rw [h] at hbytes
  unfold uuidAsBytes uuidFromBytes
  rw [BitVec.toNat_ofNat, Nat.mod_eq_of_lt hlt, hbytes]

/-- Eight bytes, the type among them, and the fields of a message: what the decoder makes
of the fields, given their length and the bytes it writes back. -/
structure Decodes (decoder : Decoder RegisterCommand) (len : ℕ) (header : List UInt8)
    (normal : List UInt8 → List UInt8) : Prop where
  short : ∀ body : List UInt8, body.length < len → ∃ err, decoder body = .error err
  full : ∀ body rest : List UInt8, body.length = len → ∃ cmd,
    decoder (body ++ rest) = .ok (cmd, rest) ∧
    serializeRegisterCommand cmd = magicNumber ++ header ++ normal body

/-- `deserialize_client_command` on a READ. -/
theorem decodes_read :
    Decodes (deserializeClientCommand MsgType.read) 16 [0, 0, 0, MsgType.read] id where
  short := by
    intro body h
    exact ⟨_, readExact_bind_short h _⟩
  full := by
    intro body rest h
    obtain ⟨id, sector, rfl, hid⟩ := exists_front 8 body (by omega)
    have hsector : sector.length = 8 := by
      rw [List.length_append] at h
      omega
    unfold deserializeClientCommand
    rw [readExact_bind_append h, List.take_left' hid, List.drop_left' hid]
    refine ⟨_, rfl, ?_⟩
    simp only [serializeRegisterCommand, serializeClientCommand, clientMsgType,
      u64ToBeBytes_u64FromBeBytes hid, u64ToBeBytes_u64FromBeBytes hsector]
    simp

/-- `deserialize_client_command` on a WRITE. -/
theorem decodes_write :
    Decodes (deserializeClientCommand MsgType.write) (16 + sectorVecSize)
      [0, 0, 0, MsgType.write] id where
  short := by
    intro body h
    unfold deserializeClientCommand
    by_cases hheader : body.length < 16
    · exact ⟨_, readExact_bind_short hheader _⟩
    · obtain ⟨fields, data, rfl, hfields⟩ := exists_front 16 body (by omega)
      rw [List.length_append] at h
      rw [readExact_bind_append hfields, if_neg (by decide), if_pos rfl]
      exact ⟨_, readExact_bind_short (by omega) _⟩
  full := by
    intro body rest h
    obtain ⟨fields, data, rfl, hfields⟩ := exists_front 16 body (by omega)
    obtain ⟨id, sector, rfl, hid⟩ := exists_front 8 fields (by omega)
    have hsector : sector.length = 8 := by
      rw [List.length_append] at hfields
      omega
    have hdata : data.length = sectorVecSize := by
      rw [List.length_append, hfields] at h
      omega
    unfold deserializeClientCommand
    rw [List.append_assoc, readExact_bind_append hfields, List.take_left' hid,
      List.drop_left' hid, if_neg (by decide), if_pos rfl, readExact_bind_append hdata]
    refine ⟨_, rfl, ?_⟩
    simp only [serializeRegisterCommand, serializeClientCommand, clientMsgType,
      u64ToBeBytes_u64FromBeBytes hid, u64ToBeBytes_u64FromBeBytes hsector]
    simp

/-- The header of a system message, read from its three fields. -/
def systemHeader (sender : UInt8) (ident readIdent sector : List UInt8) : SystemCommandHeader :=
  { processIdentifier := sender
    msgIdent := uuidFromBytes ident
    readIdent := u64FromBeBytes readIdent
    sectorIdx := u64FromBeBytes sector }

/-- The three fields of the header of a system message. -/
theorem exists_systemFields {fields : List UInt8} (h : fields.length = 32) :
    ∃ ident readIdent sector, fields = ident ++ readIdent ++ sector ∧ ident.length = 16 ∧
      readIdent.length = 8 ∧ sector.length = 8 := by
  obtain ⟨front, sector, rfl, hfront⟩ := exists_front 24 fields (by omega)
  obtain ⟨ident, readIdent, rfl, hident⟩ := exists_front 16 front (by omega)
  simp only [List.length_append] at h hfront
  exact ⟨ident, readIdent, sector, rfl, hident, by omega, by omega⟩

/-- What follows the header is decoded by type. -/
theorem deserializeSystemCommand_append {msgType : UInt8} (hknown : Known msgType)
    (hsystem : ¬ IsClient msgType) (sender : UInt8) {ident readIdent sector : List UInt8}
    (hident : ident.length = 16) (hread : readIdent.length = 8) (hsector : sector.length = 8)
    (rest : List UInt8) :
    deserializeSystemCommand sender msgType (ident ++ readIdent ++ sector ++ rest) =
      (if msgType = MsgType.readProc then
        (pure (.system ⟨systemHeader sender ident readIdent sector, .readProc⟩) :
          Decoder RegisterCommand)
      else if msgType = MsgType.ack then
        pure (.system ⟨systemHeader sender ident readIdent sector, .ack⟩)
      else do
        let (timestamp, writeRank, data) ← deserializeTagged
        pure (.system ⟨systemHeader sender ident readIdent sector,
          if msgType = MsgType.value then .value timestamp writeRank data
          else .writeProc timestamp writeRank data⟩)) rest := by
  have hlength : (ident ++ readIdent ++ sector).length = 32 := by
    rw [List.length_append, List.length_append]
    omega
  have htake : (ident ++ readIdent ++ sector).take 16 = ident := by
    rw [List.append_assoc, List.take_left' hident]
  have hmiddle : ((ident ++ readIdent ++ sector).drop 16).take 8 = readIdent := by
    rw [List.append_assoc, List.drop_left' hident, List.take_left' hread]
  have hdrop : (ident ++ readIdent ++ sector).drop 24 = sector := by
    rw [List.drop_left' (by rw [List.length_append]; omega)]
  unfold deserializeSystemCommand
  rcases hknown with rfl | rfl | rfl | rfl | rfl | rfl
  · exact absurd (Or.inl rfl) hsystem
  · exact absurd (Or.inr rfl) hsystem
  all_goals
    rw [if_neg (by decide)]
    show (readExact 32 >>= _) _ = _
    rw [readExact_bind_append hlength, htake, hmiddle, hdrop]
    rfl

/-- A system message without a tag. -/
theorem decodes_untagged {msgType : UInt8} (h : msgType = MsgType.readProc ∨ msgType = MsgType.ack)
    (sender : UInt8) :
    Decodes (deserializeSystemCommand sender msgType) 32 [0, 0, sender, msgType] id where
  short := by
    intro body hbody
    unfold deserializeSystemCommand
    rw [if_neg (by rintro ⟨hread, -, -, hack⟩; exact h.elim hread hack)]
    exact ⟨_, readExact_bind_short hbody _⟩
  full := by
    intro body rest hbody
    obtain ⟨ident, readIdent, sector, rfl, hident, hread, hsector⟩ := exists_systemFields hbody
    have hknown : Known msgType := by
      rcases h with rfl | rfl <;> decide
    have hsystem : ¬ IsClient msgType := by
      rcases h with rfl | rfl <;> decide
    rw [deserializeSystemCommand_append hknown hsystem sender hident hread hsector]
    rcases h with rfl | rfl
    · refine ⟨_, rfl, ?_⟩
      simp [serializeRegisterCommand, serializeSystemCommand, systemHeader, systemMsgType,
        uuidAsBytes_uuidFromBytes hident, u64ToBeBytes_u64FromBeBytes hread,
        u64ToBeBytes_u64FromBeBytes hsector]
    · refine ⟨_, rfl, ?_⟩
      simp [serializeRegisterCommand, serializeSystemCommand, systemHeader, systemMsgType,
        uuidAsBytes_uuidFromBytes hident, u64ToBeBytes_u64FromBeBytes hread,
        u64ToBeBytes_u64FromBeBytes hsector]

/-- The end of a `Value` or a `WriteProc`: the seven bytes before the write rank are lost. -/
theorem deserializeTagged_append {timestamp padding data : List UInt8} (writeRank : UInt8)
    (htimestamp : timestamp.length = 8) (hpadding : padding.length = 7)
    (hdata : data.length = sectorVecSize) (rest : List UInt8) :
    deserializeTagged (timestamp ++ padding ++ [writeRank] ++ data ++ rest) =
      .ok ((u64FromBeBytes timestamp, writeRank, ⟨data⟩), rest) := by
  have hlength : (timestamp ++ padding ++ [writeRank] ++ data).length = 16 + sectorVecSize := by
    simp only [List.length_append, List.length_singleton]
    omega
  have htake : (timestamp ++ padding ++ [writeRank] ++ data).take 8 = timestamp := by
    rw [List.append_assoc, List.append_assoc, List.take_left' htimestamp]
  have hdrop : (timestamp ++ padding ++ [writeRank] ++ data).drop 16 = data := by
    apply List.drop_left'
    simp only [List.length_append, List.length_singleton]
    omega
  have hrank : (timestamp ++ padding ++ [writeRank] ++ data).getD 15 0 = writeRank := by
    simp [List.getD, List.getElem?_append, htimestamp, hpadding]
  unfold deserializeTagged
  rw [readExact_bind_append hlength, htake, hdrop, hrank]
  rfl

/-- The padding before the write rank, counted from the end of the header. -/
def normalTagged (body : List UInt8) : List UInt8 :=
  body.take 40 ++ List.replicate 7 0 ++ body.drop 47

/-- A `Value` or a `WriteProc`. -/
theorem decodes_tagged {msgType : UInt8} (h : IsTagged msgType) (sender : UInt8) :
    Decodes (deserializeSystemCommand sender msgType) (32 + (16 + sectorVecSize))
      [0, 0, sender, msgType] normalTagged where
  short := by
    intro body hbody
    have hknown : Known msgType := by
      rcases h with rfl | rfl <;> decide
    have hsystem : ¬ IsClient msgType := by
      rcases h with rfl | rfl <;> decide
    -- the bytes end in the fields all commands have, or behind them
    by_cases hheader : body.length < 32
    · unfold deserializeSystemCommand
      rw [if_neg (by rintro ⟨-, hvalue, hwrite, -⟩; exact h.elim hvalue hwrite)]
      exact ⟨_, readExact_bind_short hheader _⟩
    · obtain ⟨fields, rest, rfl, hfields⟩ := exists_front 32 body (by omega)
      obtain ⟨ident, readIdent, sector, rfl, hident, hread, hsector⟩ :=
        exists_systemFields hfields
      rw [List.length_append, hfields] at hbody
      have hshort : deserializeTagged rest = .error .unexpectedEof :=
        readExact_bind_short (by omega) _
      refine ⟨.unexpectedEof, ?_⟩
      rw [deserializeSystemCommand_append hknown hsystem sender hident hread hsector]
      rcases h with rfl | rfl
      all_goals
        rw [if_neg (by decide), if_neg (by decide)]
        show (deserializeTagged rest >>= _) = _
        rw [hshort]
        rfl
  full := by
    intro body rest hbody
    have hknown : Known msgType := by
      rcases h with rfl | rfl <;> decide
    have hsystem : ¬ IsClient msgType := by
      rcases h with rfl | rfl <;> decide
    obtain ⟨fields, tagged, rfl, hfields⟩ := exists_front 32 body (by omega)
    obtain ⟨ident, readIdent, sector, rfl, hident, hread, hsector⟩ := exists_systemFields hfields
    -- the parts of a tagged command, in the order they are read
    obtain ⟨timestamp, back, rfl, htimestamp⟩ := exists_front 8 tagged
      (by rw [List.length_append] at hbody; omega)
    obtain ⟨padding, back, rfl, hpadding⟩ := exists_front 7 back
      (by simp only [List.length_append] at hbody; omega)
    obtain ⟨rank, data, rfl, hrank⟩ := exists_front 1 back
      (by simp only [List.length_append] at hbody; omega)
    obtain ⟨writeRank, rfl⟩ := List.length_eq_one_iff.mp hrank
    have hdata : data.length = sectorVecSize := by
      simp only [List.length_append, List.length_singleton] at hbody
      omega
    have htagged := deserializeTagged_append writeRank htimestamp hpadding hdata rest
    -- the padding is read and dropped, and written back as zeros
    have hnormal : normalTagged (ident ++ readIdent ++ sector ++
        (timestamp ++ (padding ++ ([writeRank] ++ data)))) =
        ident ++ readIdent ++ sector ++ timestamp ++ List.replicate 7 0 ++ ([writeRank] ++ data) := by
      have hfront : (ident ++ readIdent ++ sector ++ timestamp).length = 40 := by
        simp only [List.length_append]
        omega
      unfold normalTagged
      rw [← List.append_assoc (ident ++ readIdent ++ sector), List.take_left' hfront,
        ← List.append_assoc (ident ++ readIdent ++ sector ++ timestamp),
        List.drop_left' (by rw [List.length_append]; omega)]
    have hsplit : ident ++ readIdent ++ sector ++ (timestamp ++ (padding ++ ([writeRank] ++ data))) ++
        rest = ident ++ readIdent ++ sector ++
          (timestamp ++ padding ++ [writeRank] ++ data ++ rest) := by
      simp only [List.append_assoc]
    rw [hsplit, deserializeSystemCommand_append hknown hsystem sender hident hread hsector, hnormal]
    have hserialize : ∀ content, (content = .value (u64FromBeBytes timestamp) writeRank ⟨data⟩ ∨
        content = .writeProc (u64FromBeBytes timestamp) writeRank ⟨data⟩) →
        serializeRegisterCommand (.system ⟨systemHeader sender ident readIdent sector, content⟩) =
          magicNumber ++ [0, 0, sender, systemMsgType content] ++
            (ident ++ readIdent ++ sector ++ timestamp ++ List.replicate 7 0 ++
              ([writeRank] ++ data)) := by
      rintro content (rfl | rfl)
      all_goals
        simp [serializeRegisterCommand, serializeSystemCommand, systemHeader, serializeTagged,
          uuidAsBytes_uuidFromBytes hident, u64ToBeBytes_u64FromBeBytes hread,
          u64ToBeBytes_u64FromBeBytes hsector, u64ToBeBytes_u64FromBeBytes htimestamp]
    rcases h with rfl | rfl
    · refine ⟨.system ⟨_, .value _ _ _⟩, ?_, hserialize _ (Or.inl rfl)⟩
      rw [if_neg (by decide), if_neg (by decide)]
      show (deserializeTagged _ >>= _) = _
      rw [htagged]
      rfl
    · refine ⟨.system ⟨_, .writeProc _ _ _⟩, ?_, hserialize _ (Or.inr rfl)⟩
      rw [if_neg (by decide), if_neg (by decide)]
      show (deserializeTagged _ >>= _) = _
      rw [htagged]
      rfl

/-! ## The grammar -/

/-- The header of a frame, byte by byte. -/
theorem exists_header {bytes : List UInt8} (h : 8 ≤ bytes.length) :
    ∃ m₀ m₁ m₂ m₃ p₀ p₁ sender msgType body,
      bytes = [m₀, m₁, m₂, m₃, p₀, p₁, sender, msgType] ++ body := by
  match bytes, h with
  | m₀ :: m₁ :: m₂ :: m₃ :: p₀ :: p₁ :: sender :: msgType :: body, _ =>
    exact ⟨m₀, m₁, m₂, m₃, p₀, p₁, sender, msgType, body, rfl⟩

/-- Of the header, the decoder looks at the last two bytes. -/
theorem deserializeRegisterCommand_append (m₀ m₁ m₂ m₃ p₀ p₁ sender msgType : UInt8)
    (body : List UInt8) :
    deserializeRegisterCommand ([m₀, m₁, m₂, m₃, p₀, p₁, sender, msgType] ++ body) =
      (if msgType = MsgType.read ∨ msgType = MsgType.write then deserializeClientCommand msgType
        else deserializeSystemCommand sender msgType) body := by
  unfold deserializeRegisterCommand
  rw [readExact_bind_append (n := 8) rfl]
  rfl

/-- The decoder of a known type, the length of its fields, and what is written back. -/
theorem exists_decodes {msgType : UInt8} (h : Known msgType) (sender : UInt8) :
    ∃ decoder len normal,
      Decodes decoder len [0, 0, if IsClient msgType then 0 else sender, msgType] normal ∧
      msgLen msgType = 8 + len ∧
      (∀ m₀ m₁ m₂ m₃ p₀ p₁ body,
        deserializeRegisterCommand ([m₀, m₁, m₂, m₃, p₀, p₁, sender, msgType] ++ body) =
          decoder body) ∧
      ∀ body : List UInt8, body.length = len →
        (body.mapIdx fun i b => if IsTagged msgType ∧ 40 ≤ i ∧ i < 47 then 0 else b) =
          normal body := by
  have hheader := fun m₀ m₁ m₂ m₃ p₀ p₁ body =>
    deserializeRegisterCommand_append m₀ m₁ m₂ m₃ p₀ p₁ sender msgType body
  have htagged : IsTagged msgType → ∀ body : List UInt8, body.length = 32 + (16 + sectorVecSize) →
      (body.mapIdx fun i b => if IsTagged msgType ∧ 40 ≤ i ∧ i < 47 then 0 else b) =
        normalTagged body := by
    intro htype body hbody
    have hsplit : body = body.take 40 ++ (body.drop 40).take 7 ++ body.drop 47 := by
      have hdrop : body.drop 47 = (body.drop 40).drop 7 := by rw [List.drop_drop]
      rw [hdrop, List.append_assoc, List.take_append_drop, List.take_append_drop]
    have hnormal := mapIdx_tagged htype (body.take 40) ((body.drop 40).take 7)
      (body.drop 47) (by rw [List.length_take]; omega)
      (by rw [List.length_take, List.length_drop]; omega)
    rw [← hsplit] at hnormal
    exact hnormal
  rcases h with rfl | rfl | rfl | rfl | rfl | rfl
  · exact ⟨_, _, id, decodes_read, by decide, hheader, fun body _ => mapIdx_untagged (by decide) body⟩
  · exact ⟨_, _, id, decodes_write, by decide, hheader, fun body _ => mapIdx_untagged (by decide) body⟩
  · exact ⟨_, _, id, decodes_untagged (Or.inl rfl) sender, by decide, hheader,
      fun body _ => mapIdx_untagged (by decide) body⟩
  · exact ⟨_, _, normalTagged, decodes_tagged (Or.inl rfl) sender, by decide, hheader,
      htagged (Or.inl rfl)⟩
  · exact ⟨_, _, normalTagged, decodes_tagged (Or.inr rfl) sender, by decide, hheader,
      htagged (Or.inr rfl)⟩
  · exact ⟨_, _, id, decodes_untagged (Or.inr rfl) sender, by decide, hheader,
      fun body _ => mapIdx_untagged (by decide) body⟩

/-- A frame is decoded, and serialized again up to its normal form. -/
theorem deserialize_frame {bytes : List UInt8} (h : StartsWithFrame bytes) :
    ∃ cmd, deserializeRegisterCommand bytes =
        .ok (cmd, bytes.drop (msgLen (bytes.getD 7 0))) ∧
      serializeRegisterCommand cmd = normalise (bytes.take (msgLen (bytes.getD 7 0))) := by
  obtain ⟨hlength, hknown, hwhole⟩ := h
  obtain ⟨m₀, m₁, m₂, m₃, p₀, p₁, sender, msgType, body, rfl⟩ := exists_header hlength
  change Known msgType at hknown
  change msgLen msgType ≤ _ at hwhole
  show ∃ cmd, _ = Except.ok (cmd, List.drop (msgLen msgType) _) ∧
    _ = normalise (List.take (msgLen msgType) _)
  obtain ⟨decoder, len, normal, hdecodes, hlen, hdeserialize, hnormal⟩ :=
    exists_decodes hknown sender
  obtain ⟨fields, rest, rfl, hfields⟩ := exists_front len body (by
    rw [hlen, List.length_append] at hwhole
    exact Nat.le_of_add_le_add_left hwhole)
  have hfront : ([m₀, m₁, m₂, m₃, p₀, p₁, sender, msgType] ++ fields).length = msgLen msgType := by
    rw [List.length_append, hfields, hlen]
    rfl
  obtain ⟨cmd, hcmd, hserialize⟩ := hdecodes.full fields rest hfields
  refine ⟨cmd, ?_, ?_⟩
  · rw [hdeserialize, hcmd, ← List.append_assoc, List.drop_left' hfront]
  · rw [hserialize, ← List.append_assoc, List.take_left' hfront, normalise_append,
      hnormal fields hfields]

/-- Bytes that do not start with a frame are an error. -/
theorem deserialize_error {bytes : List UInt8} (h : ¬ StartsWithFrame bytes) :
    ∃ err, deserializeRegisterCommand bytes = .error err := by
  by_cases hlength : 8 ≤ bytes.length
  · obtain ⟨m₀, m₁, m₂, m₃, p₀, p₁, sender, msgType, body, rfl⟩ := exists_header hlength
    by_cases hknown : Known msgType
    · -- the type is known, so the frame is cut short
      obtain ⟨decoder, len, normal, hdecodes, hlen, hdeserialize, -⟩ :=
        exists_decodes hknown sender
      rw [hdeserialize]
      apply hdecodes.short
      by_contra hbody
      refine h ⟨hlength, hknown, ?_⟩
      show msgLen msgType ≤ _
      rw [hlen, List.length_append]
      exact Nat.add_le_add_left (by omega) 8
    · have hclient : ¬ (msgType = MsgType.read ∨ msgType = MsgType.write) := by
        rintro (rfl | rfl)
        · exact hknown (by decide)
        · exact hknown (by decide)
      have hsystem : msgType ≠ MsgType.readProc ∧ msgType ≠ MsgType.value ∧
          msgType ≠ MsgType.writeProc ∧ msgType ≠ MsgType.ack := by
        refine ⟨?_, ?_, ?_, ?_⟩
        all_goals
          rintro rfl
          exact hknown (by decide)
      refine ⟨.other ("unknown system msg_type: " ++ toString msgType), ?_⟩
      rw [deserializeRegisterCommand_append, if_neg hclient]
      unfold deserializeSystemCommand
      rw [if_pos hsystem]
      rfl
  · exact ⟨_, readExact_bind_short (by omega) _⟩

/-- **The grammar.** The decoder accepts the byte strings that start with a frame of a known
type, and no others. What it returns leaves the bytes behind the frame, and is serialized as
the frame, with the magic number and the padding in their normal form. -/
theorem deserialize_iff_startsWithFrame (bytes : List UInt8) :
    ((∃ result, deserializeRegisterCommand bytes = .ok result) ↔ StartsWithFrame bytes) ∧
    ((∃ err, deserializeRegisterCommand bytes = .error err) ↔ ¬ StartsWithFrame bytes) ∧
    ∀ cmd rest, deserializeRegisterCommand bytes = .ok (cmd, rest) →
      rest = bytes.drop (msgLen (bytes.getD 7 0)) ∧
      serializeRegisterCommand cmd = normalise (bytes.take (msgLen (bytes.getD 7 0))) := by
  by_cases h : StartsWithFrame bytes
  · obtain ⟨cmd, hcmd, hserialize⟩ := deserialize_frame h
    refine ⟨iff_of_true ⟨_, hcmd⟩ h, ?_, ?_⟩
    · apply iff_of_false
      · rintro ⟨err, herr⟩
        rw [hcmd] at herr
        cases herr
      · exact not_not_intro h
    · intro cmd' rest hcmd'
      rw [hcmd] at hcmd'
      cases hcmd'
      exact ⟨rfl, hserialize⟩
  · obtain ⟨err, herr⟩ := deserialize_error h
    refine ⟨?_, iff_of_true ⟨err, herr⟩ h, ?_⟩
    · apply iff_of_false
      · rintro ⟨result, hresult⟩
        rw [herr] at hresult
        cases hresult
      · exact h
    · intro cmd rest hcmd
      rw [herr] at hcmd
      cases hcmd

/-- An `Ack` with other bytes for the magic number and the padding, and one byte behind it. -/
theorem deserialize_ack_normalised :
    deserializeRegisterCommand ([1, 2, 3, 4, 5, 6, 9, MsgType.ack] ++ List.replicate 33 0) =
      .ok (.system ⟨⟨9, 0, 0, 0⟩, .ack⟩, [0]) ∧
    serializeRegisterCommand (.system ⟨⟨9, 0, 0, 0⟩, .ack⟩) =
      magicNumber ++ [0, 0, 9, MsgType.ack] ++ List.replicate 32 0 := by
  have hcmd : deserializeRegisterCommand
      ([1, 2, 3, 4, 5, 6, 9, MsgType.ack] ++ List.replicate 33 0) =
        .ok (.system ⟨⟨9, 0, 0, 0⟩, .ack⟩, [0]) := by
    rfl
  have hnormal := (deserialize_iff_startsWithFrame _).2.2 _ _ hcmd
  exact ⟨hcmd, hnormal.2.trans (by decide)⟩

end Wire
end AtomicDiscDrive
