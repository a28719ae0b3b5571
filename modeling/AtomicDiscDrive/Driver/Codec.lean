import Mathlib.Data.List.GetD
import AtomicDiscDrive.Driver.TcpClient
import AtomicDiscDrive.Wire.Grammar

/-!
# Two codecs of one format

The driver builds commands that the server reads, and the server builds responses that the
driver reads. Neither uses the other's code; `wire_formats_agree` says that they mean the
same bytes.

The parser of responses takes its bytes from the socket in pieces. `delivered` is what the
pieces add up to, and `Legible` says which bytes are a response: `fetch_legible` is the one
lemma about the parser on bytes that are.
-/

namespace AtomicDiscDrive
namespace Driver

open Utils

/-! ## The socket -/

/-- The bytes that arrive before the first error. -/
def delivered : List Recv → List UInt8
  | [] => []
  | .chunk b bs :: socket => b :: bs ++ delivered socket
  | .nothing :: socket => delivered socket
  | .restart :: socket => delivered socket
  | .error _ :: _ => []

theorem delivered_unread (bytes : List UInt8) (socket : List Recv) :
    delivered (unread bytes socket) = bytes ++ delivered socket := by
  cases bytes with
  | nil => rfl
  | cons b bs => rfl

theorem length_unread_le (bytes : List UInt8) (socket : List Recv) :
    (unread bytes socket).length ≤ socket.length + 1 := by
  cases bytes with
  | nil => exact Nat.le_succ _
  | cons b bs => exact le_refl _

/-- A read with bytes to come returns some of them. It fills its buffer, or uses up a result
of `kernel_recvmsg`. -/
theorem tryTcpRead_delivered (left : ℕ) {socket : List Recv} (h : delivered socket ≠ []) :
    ∃ bytes socket', tryTcpRead left socket = .ok (.ok bytes, socket') ∧
      bytes ++ delivered socket' = delivered socket ∧ bytes.length ≤ left ∧
      socket'.length ≤ socket.length ∧
      (socket'.length < socket.length ∨ bytes.length = left) := by
  induction socket with
  | nil => exact absurd rfl h
  | cons recv socket ih =>
    cases recv with
    | chunk b bs =>
      refine ⟨(b :: bs).take left, unread ((b :: bs).drop left) socket, rfl, ?_, ?_, ?_, ?_⟩
      · rw [delivered_unread, ← List.append_assoc, List.take_append_drop]
        rfl
      · rw [List.length_take]
        exact min_le_left _ _
      · exact length_unread_le _ _
      · by_cases hlen : (b :: bs).length ≤ left
        · left
          rw [List.drop_eq_nil_of_le hlen]
          exact Nat.lt_succ_self _
        · right
          rw [List.length_take]
          omega
    | nothing =>
      exact ⟨[], socket, rfl, rfl, Nat.zero_le _, Nat.le_succ _, Or.inl (Nat.lt_succ_self _)⟩
    | restart =>
      obtain ⟨bytes, socket', hread, hbytes, hle, hlen, hprogress⟩ := ih h
      refine ⟨bytes, socket', hread, hbytes, hle, Nat.le_succ_of_le hlen, ?_⟩
      left
      exact Nat.lt_succ_of_le hlen
    | error code => exact absurd rfl h

/-! ## The buffer -/

namespace TcpClient

@[simp] theorem store_parseBufPos (c : TcpClient) (bytes : List UInt8) :
    (c.store bytes).parseBufPos = c.parseBufPos + bytes.length := rfl

@[simp] theorem store_nil (c : TcpClient) : c.store [] = c := by
  have hbuf : (c.store []).parseBuf = c.parseBuf := by
    funext i
    show (if i < c.parseBufPos then c.parseBuf i else _) = _
    split
    · rfl
    · rfl
  show { c with parseBuf := (c.store []).parseBuf } = c
  rw [hbuf]

theorem store_store (c : TcpClient) (a b : List UInt8) :
    (c.store a).store b = c.store (a ++ b) := by
  have hbuf : ((c.store a).store b).parseBuf = (c.store (a ++ b)).parseBuf := by
    funext i
    show (if i < c.parseBufPos + a.length then
        (if i < c.parseBufPos then c.parseBuf i else a.getD (i - c.parseBufPos) (c.parseBuf i))
      else b.getD (i - (c.parseBufPos + a.length))
        (if i < c.parseBufPos then c.parseBuf i else a.getD (i - c.parseBufPos) (c.parseBuf i))) =
      if i < c.parseBufPos then c.parseBuf i else (a ++ b).getD (i - c.parseBufPos) (c.parseBuf i)
    by_cases hfront : i < c.parseBufPos
    · rw [if_pos (by omega), if_pos hfront, if_pos hfront]
    · rw [if_neg hfront, if_neg hfront]
      by_cases hmiddle : i < c.parseBufPos + a.length
      · rw [if_pos hmiddle, List.getD_append _ _ _ _ (by omega)]
      · have hnone : a.getD (i - c.parseBufPos) (c.parseBuf i) = c.parseBuf i :=
          List.getD_eq_default _ _ (by omega)
        rw [if_neg hmiddle, List.getD_append_right _ _ _ _ (by omega), hnone]
        congr 1
        omega
  have hpos : ((c.store a).store b).parseBufPos = (c.store (a ++ b)).parseBufPos := by
    simp only [store_parseBufPos, List.length_append, Nat.add_assoc]
  show { c with
    parseBuf := ((c.store a).store b).parseBuf
    parseBufPos := ((c.store a).store b).parseBufPos } = _
  rw [hbuf, hpos]
  rfl

/-- What was written to an empty buffer. -/
theorem store_parseBuf {c : TcpClient} (hc : c.parseBufPos = 0) {bytes : List UInt8} {i : ℕ}
    (hi : i < bytes.length) (d : UInt8) : (c.store bytes).parseBuf i = bytes.getD i d := by
  show (if i < c.parseBufPos then _ else _) = _
  rw [hc, if_neg (Nat.not_lt_zero i), Nat.sub_zero, List.getD_eq_getElem _ _ hi,
    List.getD_eq_getElem _ _ hi]

theorem slice_congr {c c' : TcpClient} (h : c.parseBuf = c'.parseBuf) (pos len : ℕ) :
    c.slice pos len = c'.slice pos len := by
  unfold slice
  rw [h]

theorem slice_store {c : TcpClient} (hc : c.parseBufPos = 0) {bytes : List UInt8} {pos len : ℕ}
    (h : pos + len ≤ bytes.length) :
    (c.store bytes).slice pos len = (bytes.drop pos).take len := by
  apply List.ext_getElem
  · simp only [slice, List.length_map, List.length_range, List.length_take, List.length_drop]
    omega
  · intro i hi hi'
    have hlen : i < len := by simpa [slice] using hi
    simp only [slice, List.getElem_map, List.getElem_range, List.getElem_take, List.getElem_drop]
    rw [store_parseBuf hc (by omega) 0, List.getD_eq_getElem _ _ (by omega)]

end TcpClient

/-! ## The loop -/

namespace Connection

/-- **`progress_tcp_data_to_limit`** fills the buffer to the limit from the bytes to come. -/
theorem progressLoop_delivered {limit fuel : ℕ} {s : Connection}
    (hpos : s.client.parseBufPos ≤ limit)
    (henough : limit - s.client.parseBufPos ≤ (delivered s.socket).length)
    (hfuel : s.socket.length + 1 < fuel ∨ s.client.parseBufPos = limit ∧ 0 < fuel) :
    ∃ socket', s.progressLoop limit fuel = .ok (.ok (),
        ⟨s.client.store ((delivered s.socket).take (limit - s.client.parseBufPos)), socket'⟩) ∧
      delivered socket' = (delivered s.socket).drop (limit - s.client.parseBufPos) := by
  induction fuel generalizing s with
  | zero => omega
  | succ fuel ih =>
    rw [progressLoop]
    by_cases hlt : s.client.parseBufPos < limit
    · have hne : delivered s.socket ≠ [] := by
        intro hnil
        rw [hnil, List.length_nil] at henough
        omega
      -- a read gets a part of what is missing, and the rest is left to the next rounds
      obtain ⟨bytes, socket', hread, hbytes, hle, hlen, hprogress⟩ :=
        tryTcpRead_delivered (limit - s.client.parseBufPos) hne
      have hlength : bytes.length + (delivered socket').length = (delivered s.socket).length := by
        rw [← hbytes, List.length_append]
      have hrest := ih (s := ⟨s.client.store bytes, socket'⟩)
        (by show s.client.parseBufPos + bytes.length ≤ limit; omega)
        (by
          show limit - (s.client.parseBufPos + bytes.length) ≤ (delivered socket').length
          omega)
        (by
          show socket'.length + 1 < fuel ∨ s.client.parseBufPos + bytes.length = limit ∧ 0 < fuel
          omega)
      obtain ⟨socket'', hloop, hdelivered⟩ := hrest
      have hleft : limit - s.client.parseBufPos =
          bytes.length + (limit - (s.client.parseBufPos + bytes.length)) := by omega
      refine ⟨socket'', ?_, ?_⟩
      · rw [if_pos hlt, hread]
        show progressLoop limit fuel ⟨s.client.store bytes, socket'⟩ = _
        rw [hloop, TcpClient.store_store, TcpClient.store_parseBufPos, ← hbytes, hleft,
          List.take_length_add_append]
      · rw [hdelivered, TcpClient.store_parseBufPos, ← hbytes, hleft, List.drop_length_add_append]
    · have hzero : limit - s.client.parseBufPos = 0 := by omega
      refine ⟨s.socket, ?_, ?_⟩
      · rw [if_neg hlt, hzero, List.take_zero, TcpClient.store_nil]
      · rw [hzero, List.drop_zero]

theorem progressTcpDataToLimit_delivered (limit : ℕ) (s : Connection)
    (hpos : s.client.parseBufPos ≤ limit)
    (henough : limit - s.client.parseBufPos ≤ (delivered s.socket).length) :
    ∃ socket', s.progressTcpDataToLimit limit = .ok (.ok (),
        ⟨s.client.store ((delivered s.socket).take (limit - s.client.parseBufPos)), socket'⟩) ∧
      delivered socket' = (delivered s.socket).drop (limit - s.client.parseBufPos) :=
  progressLoop_delivered hpos henough (Or.inl (by omega))

end Connection

/-! ## Responses -/

/-- The length of a response that starts with these bytes, its tag included. -/
def responseSize (bytes : List UInt8) : ℕ :=
  minResponseSize + if bytes.getD 6 0 = 0 ∧ bytes.getD 7 0 = 0x40 + readCmd then sectorSize else 0

/-- The bytes start with a response whose tag verifies. -/
structure Legible (hmac : List UInt8 → List UInt8) (bytes : List UInt8) : Prop where
  whole : responseSize bytes ≤ bytes.length
  magic : bytes.take 4 = atddMagic
  status : (parseStatusCode (bytes.getD 6 0)).isSome
  tag : hmac (bytes.take (responseSize bytes - hmacTagSize)) =
    (bytes.drop (responseSize bytes - hmacTagSize)).take hmacTagSize

instance (hmac : List UInt8 → List UInt8) (bytes : List UInt8) : Decidable (Legible hmac bytes) :=
  decidable_of_iff (responseSize bytes ≤ bytes.length ∧ bytes.take 4 = atddMagic ∧
      (parseStatusCode (bytes.getD 6 0)).isSome = true ∧
      hmac (bytes.take (responseSize bytes - hmacTagSize)) =
        (bytes.drop (responseSize bytes - hmacTagSize)).take hmacTagSize)
    ⟨fun ⟨whole, magic, status, tag⟩ => ⟨whole, magic, status, tag⟩,
      fun ⟨whole, magic, status, tag⟩ => ⟨whole, magic, status, tag⟩⟩

theorem le_responseSize (bytes : List UInt8) : minResponseSize ≤ responseSize bytes :=
  Nat.le_add_right _ _

namespace Connection

/-- The client behind a response that has been read. -/
def parsed (c : TcpClient) (bytes : List UInt8) (st : StatusCode) : TcpClient :=
  { c.store (bytes.take (responseSize bytes)) with
    parseState := ⟨st, u64FromBeBytes ((bytes.drop 8).take 8), true⟩ }

theorem finishFetch_data (c : TcpClient) :
    (finishFetch c).1.data = c.slice atddResponseHeaderSize sectorSize := by
  rw [finishFetch]

theorem progressHeader_whole {s : Connection} (hempty : s.client.parseBufPos = 0)
    (hlength : minResponseSize ≤ (delivered s.socket).length)
    (hbytes : (delivered s.socket).take 4 = atddMagic) :
    ∃ socket', s.progressHeader = .ok (.ok (),
        ⟨s.client.store ((delivered s.socket).take minResponseSize), socket'⟩) ∧
      delivered socket' = (delivered s.socket).drop minResponseSize := by
  have hpos : s.client.parseBufPos ≤ minResponseSize := by
    rw [hempty]
    exact Nat.zero_le _
  obtain ⟨socket', hprogress, hdelivered⟩ := progressTcpDataToLimit_delivered minResponseSize s hpos
    (by rw [hempty, Nat.sub_zero]; exact hlength)
  rw [hempty, Nat.sub_zero] at hprogress hdelivered
  have hmagic : (s.client.store ((delivered s.socket).take minResponseSize)).slice 0 4 =
      atddMagic := by
    have htake : ((delivered s.socket).take minResponseSize).length = minResponseSize := by
      rw [List.length_take, min_eq_left hlength]
    rw [TcpClient.slice_store hempty (by rw [htake]; decide), List.drop_zero, List.take_take,
      min_eq_left (by decide), hbytes]
  refine ⟨socket', ?_, hdelivered⟩
  unfold progressHeader
  rw [if_pos (by rw [hempty]; decide), hprogress]
  show (slideToAtddMagic _ >>= _) = _
  unfold slideToAtddMagic
  rw [if_neg (fun hslide => hslide.2 hmagic)]
  rfl

/-- The limit the parser computes from a header is the length of the response. -/
theorem bodyLimit_eq {c : TcpClient} {bytes : List UInt8} (hempty : c.parseBufPos = 0)
    (hlength : minResponseSize ≤ bytes.length) {st : StatusCode}
    (hst : parseStatusCode (bytes.getD 6 0) = some st) :
    (minResponseSize + if st = .ok ∧
      (c.store (bytes.take minResponseSize)).parseBuf 7 = 0x40 + readCmd then sectorSize else 0) =
        responseSize bytes := by
  have htake : (bytes.take minResponseSize).length = minResponseSize := by
    rw [List.length_take, min_eq_left hlength]
  have htype : (c.store (bytes.take minResponseSize)).parseBuf 7 = bytes.getD 7 0 := by
    rw [TcpClient.store_parseBuf hempty (by rw [htake]; decide) 0]
    simp [List.getD, minResponseSize, atddResponseHeaderSize, hmacTagSize]
  have hok : st = .ok ↔ bytes.getD 6 0 = 0 := by
    unfold parseStatusCode at hst
    split_ifs at hst with h0 h1 h2
    · exact iff_of_true (Option.some.inj hst).symm h0
    · rw [← Option.some.inj hst]
      exact iff_of_false (by decide) h0
    · rw [← Option.some.inj hst]
      exact iff_of_false (by decide) h0
  unfold responseSize
  simp only [htype, hok]

theorem progressBody_whole {c : TcpClient} {socket : List Recv} {bytes : List UInt8}
    (hempty : c.parseBufPos = 0) (hwhole : responseSize bytes ≤ bytes.length)
    (hsocket : delivered socket = bytes.drop minResponseSize)
    (state : CmdParse) (hst : parseStatusCode (bytes.getD 6 0) = some state.st) :
    ∃ socket', progressBody ⟨{ c.store (bytes.take minResponseSize) with parseState := state },
        socket⟩ = .ok (.ok (), ⟨parsed c bytes state.st, socket'⟩) ∧
      delivered socket' = bytes.drop (responseSize bytes) := by
  have hlength := le_trans (le_responseSize bytes) hwhole
  have htake : (bytes.take minResponseSize).length = minResponseSize := by
    rw [List.length_take, min_eq_left hlength]
  have hident : (c.store (bytes.take minResponseSize)).slice 8 8 = (bytes.drop 8).take 8 := by
    rw [TcpClient.slice_store hempty (by rw [htake]; decide), List.drop_take, List.take_take]
    rfl
  have hlimit := bodyLimit_eq hempty hlength hst
  have hpos : (c.store (bytes.take minResponseSize)).parseBufPos = minResponseSize := by
    rw [TcpClient.store_parseBufPos, hempty, htake, Nat.zero_add]
  -- the rest of the response is read on top of the header
  obtain ⟨socket', hprogress, hdelivered⟩ := progressTcpDataToLimit_delivered
    (responseSize bytes)
    (⟨{ c.store (bytes.take minResponseSize) with
      parseState := { state with rqIdent := u64FromBeBytes ((bytes.drop 8).take 8) } }, socket⟩)
    (by show (c.store _).parseBufPos ≤ _; rw [hpos]; exact le_responseSize bytes)
    (by
      show _ - (c.store _).parseBufPos ≤ (delivered socket).length
      rw [hpos, hsocket, List.length_drop]
      exact Nat.sub_le_sub_right hwhole _)
  have hsub := Nat.add_sub_cancel' (le_responseSize bytes)
  have hstore : (c.store (bytes.take minResponseSize)).store
      ((delivered socket).take (responseSize bytes - minResponseSize)) =
        c.store (bytes.take (responseSize bytes)) := by
    rw [TcpClient.store_store, hsocket, ← List.take_add, hsub]
  refine ⟨socket', ?_, ?_⟩
  · unfold progressBody
    show (progressTcpDataToLimit (minResponseSize + if state.st = .ok ∧
        (c.store (bytes.take minResponseSize)).parseBuf 7 = 0x40 + readCmd then sectorSize else 0)
      ⟨{ c.store (bytes.take minResponseSize) with
        parseState := { state with
          rqIdent := u64FromBeBytes ((c.store (bytes.take minResponseSize)).slice 8 8) } },
        socket⟩ >>= _) = _
    rw [hlimit, hident, hprogress]
    show Except.ok (Except.ok (), (⟨{ (c.store (bytes.take minResponseSize)).store
        ((delivered socket).take (responseSize bytes -
          (c.store (bytes.take minResponseSize)).parseBufPos)) with
        parseState := ⟨state.st, _, true⟩ }, socket'⟩ : Connection)) = _
    rw [hpos, hstore]
    rfl
  · rw [hdelivered, hsocket]
    show List.drop (_ - (c.store _).parseBufPos) _ = _
    rw [hpos, List.drop_drop, hsub]

/-- `progress_tcp_data` behind a header that has arrived whole. -/
theorem progressTcpData_header {s : Connection} (hempty : s.client.parseBufPos = 0)
    (hlength : minResponseSize ≤ (delivered s.socket).length)
    (hbytes : (delivered s.socket).take 4 = atddMagic) :
    ∃ socket', delivered socket' = (delivered s.socket).drop minResponseSize ∧
      s.progressTcpData =
        match parseStatusCode ((delivered s.socket).getD 6 0) with
        | none => .ok (.error .einval, ⟨{ s.client.store
            ((delivered s.socket).take minResponseSize) with parseBufPos := 0 }, socket'⟩)
        | some st => progressBody ⟨{ s.client.store
            ((delivered s.socket).take minResponseSize) with
            parseState := { s.client.parseState with st } }, socket'⟩ := by
  obtain ⟨socket', hheader, hsocket'⟩ := progressHeader_whole hempty hlength hbytes
  have htake : ((delivered s.socket).take minResponseSize).length = minResponseSize := by
    rw [List.length_take, min_eq_left hlength]
  have hpos : (s.client.store ((delivered s.socket).take minResponseSize)).parseBufPos =
      minResponseSize := by
    rw [TcpClient.store_parseBufPos, hempty, htake, Nat.zero_add]
  have hstatus : (s.client.store ((delivered s.socket).take minResponseSize)).parseBuf 6 =
      (delivered s.socket).getD 6 0 := by
    rw [TcpClient.store_parseBuf hempty (by rw [htake]; decide) 0]
    simp [List.getD, minResponseSize, atddResponseHeaderSize, hmacTagSize]
  refine ⟨socket', hsocket', ?_⟩
  unfold progressTcpData
  rw [hheader]
  show (if (s.client.store ((delivered s.socket).take minResponseSize)).parseBufPos =
    minResponseSize then _ else _) = _
  rw [if_pos hpos]
  simp only [hstatus]
  rfl

/-- The tag of a response that has been read. -/
theorem validate_parsed {hmac : List UInt8 → List UInt8} {c : TcpClient} {bytes : List UInt8}
    (hempty : c.parseBufPos = 0) (hwhole : responseSize bytes ≤ bytes.length) (st : StatusCode) :
    validateCmdParseHmac hmac (parsed c bytes st) = true ↔
      hmac (bytes.take (responseSize bytes - hmacTagSize)) =
        (bytes.drop (responseSize bytes - hmacTagSize)).take hmacTagSize := by
  have hsize : (bytes.take (responseSize bytes)).length = responseSize bytes := by
    rw [List.length_take, min_eq_left hwhole]
  have htag : hmacTagSize ≤ responseSize bytes := le_trans (by decide) (le_responseSize bytes)
  have hend : (parsed c bytes st).parseBufPos = responseSize bytes := by
    show c.parseBufPos + _ = _
    rw [hempty, hsize, Nat.zero_add]
  have hfront : (parsed c bytes st).slice 0 (responseSize bytes - hmacTagSize) =
      bytes.take (responseSize bytes - hmacTagSize) := by
    show (c.store _).slice _ _ = _
    rw [TcpClient.slice_store hempty (by rw [hsize]; omega), List.drop_zero, List.take_take,
      min_eq_left (Nat.sub_le _ _)]
  have hback : (parsed c bytes st).slice (responseSize bytes - hmacTagSize) hmacTagSize =
      (bytes.drop (responseSize bytes - hmacTagSize)).take hmacTagSize := by
    show (c.store _).slice _ _ = _
    rw [TcpClient.slice_store hempty (by rw [hsize]; omega), List.drop_take, List.take_take]
    congr 1
    omega
  unfold validateCmdParseHmac
  rw [hend, hfront, hback, decide_eq_true_iff]

/-- `atdd_fetch_command` behind a response that has arrived whole. -/
theorem fetch_of_progress {hmac : List UInt8 → List UInt8} {s s' : Connection}
    (hpending : s.client.pending.acceptedPos ≠ s.client.pending.completedPos)
    (hprogress : s.progressTcpData = .ok (.ok (), s'))
    (hcompleted : s'.client.parseState.completed = true) :
    s.atddFetchCommand hmac =
      if validateCmdParseHmac hmac s'.client = true then
        .ok (.ok (some (finishFetch s'.client).1), { s' with client := (finishFetch s'.client).2 })
      else .ok (.error .einval, { s' with client := { s'.client with parseBufPos := 0 } }) := by
  unfold atddFetchCommand
  rw [if_neg hpending, hprogress]
  show (if (!s'.client.parseState.completed) = true then _ else
    if (!validateCmdParseHmac hmac s'.client) = true then _ else _) = _
  rw [hcompleted]
  cases validateCmdParseHmac hmac s'.client with
  | true => rfl
  | false => rfl

/-- **`atdd_fetch_command`** on a response: its identifier, its status, the data behind its
header, and nothing read behind its tag. -/
theorem fetch_legible {hmac : List UInt8 → List UInt8} {s : Connection}
    (hpending : s.client.pending.acceptedPos ≠ s.client.pending.completedPos)
    (hempty : s.client.parseBufPos = 0) (h : Legible hmac (delivered s.socket)) :
    ∃ st socket', parseStatusCode ((delivered s.socket).getD 6 0) = some st ∧
      s.atddFetchCommand hmac = .ok (.ok (some (finishFetch
          (parsed s.client (delivered s.socket) st)).1),
        ⟨(finishFetch (parsed s.client (delivered s.socket) st)).2, socket'⟩) ∧
      delivered socket' = (delivered s.socket).drop (responseSize (delivered s.socket)) := by
  obtain ⟨st, hst⟩ := Option.isSome_iff_exists.mp h.status
  obtain ⟨socket₁, hsocket₁, hheader⟩ := progressTcpData_header hempty
    (le_trans (le_responseSize _) h.whole) h.magic
  obtain ⟨socket₂, hbody, hsocket₂⟩ := progressBody_whole hempty h.whole hsocket₁
    { s.client.parseState with st } hst
  rw [hst] at hheader
  refine ⟨st, socket₂, hst, ?_, hsocket₂⟩
  rw [fetch_of_progress hpending (hheader.trans hbody) rfl,
    if_pos ((validate_parsed hempty h.whole st).mpr h.tag)]

/-! ## Bytes that are no response -/

/-- What a read returns was there to be read. -/
theorem tryTcpRead_ok {left : ℕ} {socket socket' : List Recv} {bytes : List UInt8}
    (h : tryTcpRead left socket = .ok (.ok bytes, socket')) :
    bytes ++ delivered socket' = delivered socket := by
  induction socket with
  | nil => cases h
  | cons recv socket ih =>
    cases recv with
    | chunk b bs =>
      cases h
      rw [delivered_unread, ← List.append_assoc, List.take_append_drop]
      rfl
    | nothing =>
      cases h
      rfl
    | restart => exact ih h
    | error code => cases h

/-- What a read leaves alone of the client, and what must have arrived if it is through. -/
theorem progressLoop_frame {limit fuel : ℕ} {s s' : Connection} {res : Except Errno Unit}
    (h : s.progressLoop limit fuel = .ok (res, s')) :
    s'.client.pending = s.client.pending ∧ s'.client.connected = s.client.connected ∧
    (res = .ok () → limit - s.client.parseBufPos ≤ (delivered s.socket).length) := by
  induction fuel generalizing s with
  | zero => cases h
  | succ fuel ih =>
    rw [progressLoop] at h
    split at h
    · cases hread : tryTcpRead (limit - s.client.parseBufPos) s.socket with
      | error halt =>
        rw [hread] at h
        cases h
      | ok result =>
        obtain ⟨result, socket⟩ := result
        rw [hread] at h
        cases result with
        | error err =>
          cases h
          refine ⟨rfl, rfl, ?_⟩
          intro hok
          cases hok
        | ok bytes =>
          obtain ⟨hpending, hconnected, henough⟩ := ih (s := ⟨s.client.store bytes, socket⟩) h
          refine ⟨hpending, hconnected, ?_⟩
          intro hok
          have hbytes := congrArg List.length (tryTcpRead_ok hread)
          have hlimit := henough hok
          rw [List.length_append] at hbytes
          change limit - (s.client.parseBufPos + bytes.length) ≤ (delivered socket).length at hlimit
          omega
    · cases h
      refine ⟨rfl, rfl, ?_⟩
      intro _
      omega

/-- An error that leaves the pending commands and the connection as they are. -/
def Fails {α : Type} (s s' : Connection) (res : Except Errno α) : Prop :=
  (∃ err, res = .error err) ∧ s'.client.pending = s.client.pending ∧
    s'.client.connected = s.client.connected

/-- A header that does not arrive whole, or does not start with the magic number. -/
theorem progressHeader_fails {s s' : Connection} {res : Except Errno Unit}
    (hempty : s.client.parseBufPos = 0)
    (hbytes : ¬ (minResponseSize ≤ (delivered s.socket).length ∧
      (delivered s.socket).take 4 = atddMagic))
    (h : s.progressHeader = .ok (res, s')) : Fails s s' res := by
  unfold progressHeader at h
  rw [if_pos (by rw [hempty]; decide)] at h
  cases hprogress : s.progressTcpDataToLimit minResponseSize with
  | error halt =>
    rw [hprogress] at h
    cases h
  | ok result =>
    obtain ⟨result, s₁⟩ := result
    obtain ⟨hpending, hconnected, henough⟩ := progressLoop_frame hprogress
    rw [hprogress] at h
    cases result with
    | error err =>
      cases h
      exact ⟨⟨err, rfl⟩, hpending, hconnected⟩
    | ok _ =>
      -- the header has arrived, so the magic number is missing and the thread is gone
      have hlength := henough rfl
      rw [hempty, Nat.sub_zero] at hlength
      have hmagic : ¬ (delivered s.socket).take 4 = atddMagic := fun hc => hbytes ⟨hlength, hc⟩
      obtain ⟨socket', hstore, -⟩ := progressTcpDataToLimit_delivered minResponseSize s
        (by rw [hempty]; exact Nat.zero_le _) (by rw [hempty, Nat.sub_zero]; exact hlength)
      rw [hprogress, hempty, Nat.sub_zero] at hstore
      cases hstore
      have htake : ((delivered s.socket).take minResponseSize).length = minResponseSize := by
        rw [List.length_take, min_eq_left hlength]
      have hslice : (s.client.store ((delivered s.socket).take minResponseSize)).slice 0 4 ≠
          atddMagic := by
        rw [TcpClient.slice_store hempty (by rw [htake]; decide), List.drop_zero, List.take_take,
          min_eq_left (by decide)]
        exact hmagic
      have hslide : slideToAtddMagic ⟨s.client.store ((delivered s.socket).take minResponseSize),
          socket'⟩ = .error .bug := by
        unfold slideToAtddMagic
        apply if_pos
        refine ⟨?_, hslice⟩
        show 4 ≤ s.client.parseBufPos + _
        rw [hempty, htake]
        decide
      change (slideToAtddMagic _ >>= _) = _ at h
      rw [hslide] at h
      cases h

/-- The rest of a response that does not arrive whole. -/
theorem progressBody_fails {c : TcpClient} {socket : List Recv} {bytes : List UInt8}
    (hempty : c.parseBufPos = 0) (hlength : minResponseSize ≤ bytes.length)
    (hwhole : ¬ responseSize bytes ≤ bytes.length)
    (hsocket : delivered socket = bytes.drop minResponseSize)
    (state : CmdParse) (hst : parseStatusCode (bytes.getD 6 0) = some state.st)
    {s' : Connection} {res : Except Errno Unit}
    (h : progressBody ⟨{ c.store (bytes.take minResponseSize) with parseState := state }, socket⟩ =
      .ok (res, s')) :
    Fails ⟨c, socket⟩ s' res := by
  have hpos : (c.store (bytes.take minResponseSize)).parseBufPos = minResponseSize := by
    rw [TcpClient.store_parseBufPos, hempty, List.length_take, min_eq_left hlength, Nat.zero_add]
  unfold progressBody at h
  change (progressTcpDataToLimit (minResponseSize + if state.st = .ok ∧
      (c.store (bytes.take minResponseSize)).parseBuf 7 = 0x40 + readCmd then sectorSize else 0)
    ⟨{ c.store (bytes.take minResponseSize) with
      parseState := { state with
        rqIdent := u64FromBeBytes ((c.store (bytes.take minResponseSize)).slice 8 8) } },
      socket⟩ >>= _) = _ at h
  rw [bodyLimit_eq hempty hlength hst] at h
  cases hprogress : progressTcpDataToLimit (responseSize bytes)
      ⟨{ c.store (bytes.take minResponseSize) with
        parseState := { state with
          rqIdent := u64FromBeBytes ((c.store (bytes.take minResponseSize)).slice 8 8) } },
        socket⟩ with
  | error halt =>
    rw [hprogress] at h
    cases h
  | ok result =>
    obtain ⟨result, s₁⟩ := result
    obtain ⟨hpending, hconnected, henough⟩ := progressLoop_frame hprogress
    rw [hprogress] at h
    cases result with
    | error err =>
      cases h
      exact ⟨⟨err, rfl⟩, hpending, hconnected⟩
    | ok _ =>
      have hrest := henough rfl
      change responseSize bytes - (c.store (bytes.take minResponseSize)).parseBufPos ≤
        (delivered socket).length at hrest
      rw [hpos, hsocket, List.length_drop] at hrest
      omega

/-- An error of `progress_tcp_data` is passed on. -/
theorem fetch_of_progress_error {hmac : List UInt8 → List UInt8} {s s₁ s' : Connection}
    {res : Except Errno (Option CmdReturn)} {progressed : Except Errno Unit}
    (hpending : s.client.pending.acceptedPos ≠ s.client.pending.completedPos)
    (hprogress : s.progressTcpData = .ok (progressed, s₁)) (hfails : Fails s s₁ progressed)
    (h : s.atddFetchCommand hmac = .ok (res, s')) : Fails s s' res := by
  obtain ⟨⟨err, rfl⟩, hframe⟩ := hfails
  unfold atddFetchCommand at h
  rw [if_neg hpending, hprogress] at h
  cases h
  exact ⟨⟨err, rfl⟩, hframe⟩

/-- **No response, no command.** Where `atdd_fetch_command` returns on other bytes, it returns
an error. -/
theorem fetch_fails {hmac : List UInt8 → List UInt8} {s s' : Connection}
    {res : Except Errno (Option CmdReturn)}
    (hpending : s.client.pending.acceptedPos ≠ s.client.pending.completedPos)
    (hempty : s.client.parseBufPos = 0) (hnot : ¬ Legible hmac (delivered s.socket))
    (h : s.atddFetchCommand hmac = .ok (res, s')) : Fails s s' res := by
  cases hprogress : s.progressTcpData with
  | error halt =>
    unfold atddFetchCommand at h
    rw [if_neg hpending, hprogress] at h
    cases h
  | ok progressed =>
    obtain ⟨progressed, s₁⟩ := progressed
    -- a header that is read tells how much is to come; without one the parser stops at it
    by_cases hheader : minResponseSize ≤ (delivered s.socket).length ∧
        (delivered s.socket).take 4 = atddMagic
    · obtain ⟨socket', hsocket', hbody⟩ := progressTcpData_header hempty hheader.1 hheader.2
      rw [hprogress] at hbody
      cases hst : parseStatusCode ((delivered s.socket).getD 6 0) with
      | none =>
        rw [hst] at hbody
        cases hbody
        exact fetch_of_progress_error hpending hprogress ⟨⟨_, rfl⟩, rfl, rfl⟩ h
      | some st =>
        rw [hst] at hbody
        by_cases hwhole : responseSize (delivered s.socket) ≤ (delivered s.socket).length
        · -- the response has arrived, so it is its tag that is wrong
          obtain ⟨socket'', hparsed, -⟩ := progressBody_whole hempty hwhole hsocket'
            { s.client.parseState with st } hst
          have htag : ¬ validateCmdParseHmac hmac (parsed s.client (delivered s.socket) st) = true :=
            fun hvalid => hnot ⟨hwhole, hheader.2, by rw [hst]; rfl,
              (validate_parsed hempty hwhole st).mp hvalid⟩
          rw [hbody.trans hparsed] at hprogress
          rw [fetch_of_progress hpending hprogress rfl, if_neg htag] at h
          cases h
          exact ⟨⟨_, rfl⟩, rfl, rfl⟩
        · exact fetch_of_progress_error hpending hprogress
            (progressBody_fails hempty hheader.1 hwhole hsocket'
              { s.client.parseState with st } hst hbody.symm) h
    · -- the first bytes are no header
      cases hread : s.progressHeader with
      | error halt =>
        unfold progressTcpData at hprogress
        rw [hread] at hprogress
        cases hprogress
      | ok result =>
        obtain ⟨result, s₂⟩ := result
        obtain ⟨⟨err, rfl⟩, hframe⟩ := progressHeader_fails hempty hheader hread
        have hpass : s.progressTcpData = .ok (.error err, s₂) := by
          unfold progressTcpData
          rw [hread]
          rfl
        exact fetch_of_progress_error hpending hpass ⟨⟨err, rfl⟩, hframe⟩ h

end Connection

/-! ## The server's responses -/

/-- The responses of the server, each with the type of its command: a READ that succeeds is
answered with a sector, everything else without content. -/
inductive Answer : OperationComplete → UInt8 → Prop where
  | read (ident : UInt64) (data : SectorVec) (full : data.bytes.length = sectorVecSize) :
      Answer ⟨.ok, ident, .read ⟨some data⟩⟩ Wire.MsgType.read
  | empty (st : StatusCode) (ident : UInt64) {opReturn : OperationReturn} {msgType : UInt8}
      (hreturn : opReturn = .write ∨ opReturn = .read ⟨none⟩)
      (htype : msgType = Wire.MsgType.read ∧ st ≠ .ok ∨ msgType = Wire.MsgType.write) :
      Answer ⟨st, ident, opReturn⟩ msgType

/-- The content of a response. -/
def contentOf : OperationReturn → List UInt8
  | .read ⟨some data⟩ => data.bytes
  | .read ⟨none⟩ => []
  | .write => []

theorem serializeResponse_eq (op : OperationComplete) (msgType : UInt8) :
    Wire.serializeResponse op msgType =
      [0x61, 0x74, 0x64, 0x64, 0, 0, Wire.statusByte op.statusCode, 0x40 + msgType] ++
        (u64ToBeBytes op.requestIdentifier ++ contentOf op.opReturn) := by
  obtain ⟨st, ident, opReturn⟩ := op
  unfold Wire.serializeResponse contentOf
  rw [List.append_assoc, List.append_assoc]
  rfl

/-- Both sides number the status codes alike. -/
theorem parseStatusCode_statusByte (st : StatusCode) :
    parseStatusCode (Wire.statusByte st) = some st := by
  cases st <;> rfl

/-- A response and its tag, with more behind them. -/
def responseBytes (hmac : List UInt8 → List UInt8) (op : OperationComplete) (msgType : UInt8)
    (rest : List UInt8) : List UInt8 :=
  Wire.serializeResponse op msgType ++ hmac (Wire.serializeResponse op msgType) ++ rest

section

variable {hmac : List UInt8 → List UInt8} {op : OperationComplete} {msgType : UInt8}

theorem responseBytes_eq (rest : List UInt8) : responseBytes hmac op msgType rest =
    [0x61, 0x74, 0x64, 0x64, 0, 0, Wire.statusByte op.statusCode, 0x40 + msgType] ++
      (u64ToBeBytes op.requestIdentifier ++ (contentOf op.opReturn ++
        (hmac (Wire.serializeResponse op msgType) ++ rest))) := by
  unfold responseBytes
  rw [serializeResponse_eq, List.append_assoc, List.append_assoc, List.append_assoc]

/-- The parser's limit is the length of what the server sends. -/
theorem responseSize_response (hmac : List UInt8 → List UInt8) (h : Answer op msgType)
    (rest : List UInt8) :
    responseSize (responseBytes hmac op msgType rest) =
      (Wire.serializeResponse op msgType).length + hmacTagSize := by
  rw [responseBytes_eq, serializeResponse_eq]
  show (minResponseSize + if Wire.statusByte op.statusCode = 0 ∧ 0x40 + msgType = 0x40 + readCmd
    then sectorSize else 0) = _
  rw [List.length_append, List.length_append, length_u64ToBeBytes]
  cases h with
  | read ident data full =>
    rw [if_pos ⟨rfl, rfl⟩]
    show _ = 8 + (8 + data.bytes.length) + hmacTagSize
    rw [full]
    rfl
  | @empty st ident opReturn msgType hreturn htype =>
    have hcontent : contentOf opReturn = [] := by
      rcases hreturn with rfl | rfl
      · rfl
      · rfl
    rw [hcontent, if_neg]
    · rfl
    · rintro ⟨hst, hread⟩
      change Wire.statusByte st = 0 at hst
      rcases htype with ⟨-, hne⟩ | rfl
      · cases st with
        | ok => exact hne rfl
        | authFailure => exact absurd hst (by decide)
        | invalidSectorIndex => exact absurd hst (by decide)
      · exact absurd hread (by decide)

theorem legible_response (h : Answer op msgType)
    (htag : ∀ message, (hmac message).length = hmacTagSize) (rest : List UInt8) :
    Legible hmac (responseBytes hmac op msgType rest) where
  whole := by
    rw [responseSize_response hmac h]
    unfold responseBytes
    rw [List.length_append, List.length_append, htag]
    exact Nat.le_add_right _ _
  magic := by
    rw [responseBytes_eq]
    rfl
  status := by
    rw [responseBytes_eq]
    show (parseStatusCode (Wire.statusByte op.statusCode)).isSome = true
    rw [parseStatusCode_statusByte]
    rfl
  tag := by
    rw [responseSize_response hmac h, Nat.add_sub_cancel]
    unfold responseBytes
    rw [List.append_assoc, List.take_left, List.drop_left, List.take_left' (htag _)]

/-- **Responses.** What the server sends is fetched as it was meant. -/
theorem fetch_response (h : Answer op msgType)
    (htag : ∀ message, (hmac message).length = hmacTagSize) {s : Connection} {rest : List UInt8}
    (hpending : s.client.pending.acceptedPos ≠ s.client.pending.completedPos)
    (hempty : s.client.parseBufPos = 0)
    (hs : delivered s.socket = responseBytes hmac op msgType rest) :
    ∃ cmd s', s.atddFetchCommand hmac = .ok (.ok (some cmd), s') ∧
      cmd.ident = op.requestIdentifier ∧ cmd.rcode = op.statusCode ∧
      (∀ data, op.opReturn = .read ⟨some data⟩ → cmd.data = data.bytes) ∧
      delivered s'.socket = rest := by
  have hlegible : Legible hmac (delivered s.socket) := by
    rw [hs]
    exact legible_response h htag rest
  obtain ⟨st, socket', hst, hfetch, hsocket'⟩ := Connection.fetch_legible hpending hempty hlegible
  have hsize := responseSize_response hmac h rest
  rw [hs] at hst hsocket'
  refine ⟨_, _, hfetch, ?_, ?_, ?_, ?_⟩
  · show u64FromBeBytes (((delivered s.socket).drop 8).take 8) = _
    rw [hs, responseBytes_eq]
    show u64FromBeBytes (List.take 8 (u64ToBeBytes op.requestIdentifier ++ _)) = _
    rw [List.take_left' (length_u64ToBeBytes _), u64FromBeBytes_u64ToBeBytes]
  · show st = op.statusCode
    rw [responseBytes_eq] at hst
    change parseStatusCode (Wire.statusByte op.statusCode) = some st at hst
    rw [parseStatusCode_statusByte] at hst
    exact (Option.some.inj hst).symm
  · intro data hdata
    have hfull : data.bytes.length = sectorSize := by
      cases h with
      | read ident data' full =>
        cases hdata
        exact full
      | empty st ident hreturn htype =>
        rcases hreturn with rfl | rfl
        · cases hdata
        · cases hdata
    -- the data are a slice of the buffer, behind the header and before the tag
    have hslice : (Connection.finishFetch (Connection.parsed s.client (delivered s.socket) st)).1.data =
        (s.client.store ((delivered s.socket).take (responseSize (delivered s.socket)))).slice
          atddResponseHeaderSize sectorSize := by
      rw [Connection.finishFetch_data]
      exact TcpClient.slice_congr rfl _ _
    have hlength : (Wire.serializeResponse op msgType).length =
        atddResponseHeaderSize + sectorSize := by
      rw [serializeResponse_eq, hdata, List.length_append, List.length_append, length_u64ToBeBytes]
      show 8 + (8 + data.bytes.length) = _
      rw [hfull]
      rfl
    rw [hslice, TcpClient.slice_store hempty]
    · rw [hs, hsize, hlength, List.drop_take, List.take_take, responseBytes_eq, hdata]
      show List.take _ (List.drop 8 (u64ToBeBytes op.requestIdentifier ++ (data.bytes ++ _))) = _
      rw [List.drop_left' (length_u64ToBeBytes _)]
      exact List.take_left' (by rw [hfull]; rfl)
    · rw [List.length_take, min_eq_left hlegible.whole, hs, hsize, hlength]
      exact Nat.le_add_right _ _
  · show delivered socket' = rest
    rw [hsocket', hsize]
    unfold responseBytes
    exact List.drop_left' (by rw [List.length_append, htag])

end

/-! ## The driver's commands -/

/-- The command a block request stands for. -/
def commandOf (rq : Request) (ident : UInt64) : ClientRegisterCommand :=
  { header := { requestIdentifier := ident, sectorIdx := rq.pos >>> 3 }
    content :=
      match rq.dataDir with
      | .read => .read
      | .write => .write ⟨rq.data⟩ }

theorem cmdType_eq (rq : Request) (ident : UInt64) :
    rq.cmdType = Wire.clientMsgType (commandOf rq ident).content := by
  unfold Request.cmdType commandOf
  cases rq.dataDir with
  | read => rfl
  | write => rfl

section

variable {sendBuf : List UInt8} {rq : Request} {p₀ p₁ p₂ : UInt8}

/-- The bytes of a command: the server's header with the driver's padding in it, and the
fields as the server would serialize them. -/
theorem cmdContent_eq (hbuf : sendBuf.take 7 = atddMagic ++ [p₀, p₁, p₂])
    (hdata : rq.data.length = sectorSize) (ident : UInt64) :
    cmdContent sendBuf rq ident =
      [0x61, 0x74, 0x64, 0x64, p₀, p₁, p₂, rq.cmdType] ++
        (u64ToBeBytes ident ++ u64ToBeBytes (rq.pos >>> 3) ++
          match (commandOf rq ident).content with
          | .read => []
          | .write data => data.bytes) := by
  have hpayload : (if rq.cmdType = writeCmd then rq.data.take sectorSize else []) =
      match (commandOf rq ident).content with
      | .read => []
      | .write data => data.bytes := by
    unfold Request.cmdType commandOf
    cases rq.dataDir with
    | read => rfl
    | write =>
      rw [← hdata, List.take_length]
      rfl
  unfold cmdContent
  rw [hbuf, hpayload]
  simp only [List.append_assoc]
  rfl

theorem length_cmdContent (hbuf : sendBuf.take 7 = atddMagic ++ [p₀, p₁, p₂])
    (hdata : rq.data.length = sectorSize) (ident : UInt64) :
    (cmdContent sendBuf rq ident).length = Wire.msgLen rq.cmdType := by
  rw [cmdContent_eq hbuf hdata]
  unfold commandOf Request.cmdType
  simp only [List.length_append, length_u64ToBeBytes, List.length_cons, List.length_nil]
  cases rq.dataDir with
  | read => rfl
  | write =>
    simp only [hdata]
    rfl

/-- The first eight bytes of a command are not mistaken for anything else, and the rest is
read as the command. -/
theorem parseRequest_cmdContent (config : Wire.Config)
    (htag : ∀ message, (config.hmac config.hmacClientKey message).length = hmacTagSize)
    (hbuf : sendBuf.take 7 = atddMagic ++ [p₀, p₁, p₂]) (hdata : rq.data.length = sectorSize)
    (ident : UInt64) (rest : List UInt8) :
    ∃ request, request.isVerified = true ∧ request.command = .client (commandOf rq ident) ∧
      config.parseRequest
          (prepareCmdContent (config.hmac config.hmacClientKey) sendBuf rq ident ++ rest) =
        .request request
          (prepareCmdContent (config.hmac config.hmacClientKey) sendBuf rq ident).length := by
  have hlength := length_cmdContent hbuf hdata ident
  have hcontent := cmdContent_eq hbuf hdata ident
  have hfull : Wire.FullPayload (.client (commandOf rq ident)) := by
    unfold commandOf
    cases rq.dataDir with
    | read =>
      intro data hmem
      cases hmem
    | write =>
      intro data hmem
      cases hmem
      exact hdata
  have hclient : rq.cmdType = Wire.MsgType.read ∨ rq.cmdType = Wire.MsgType.write := by
    unfold Request.cmdType
    cases rq.dataDir with
    | read => exact Or.inl rfl
    | write => exact Or.inr rfl
  have hkey : config.hmacKey rq.cmdType = config.hmacClientKey := by
    rcases hclient with htype | htype
    · rw [htype]
      rfl
    · rw [htype]
      rfl
  have hle : 24 ≤ Wire.msgLen rq.cmdType := by
    rcases hclient with htype | htype
    · rw [htype]
      decide
    · rw [htype]
      decide
  -- the command without its tag, and the tag behind it
  set content := cmdContent sendBuf rq ident with hdef
  set tag := config.hmac config.hmacClientKey content with htagdef
  have htotal : (content ++ tag).length = Wire.msgLen rq.cmdType + 32 := by
    rw [List.length_append, hlength, htag]
    rfl
  have hsend : prepareCmdContent (config.hmac config.hmacClientKey) sendBuf rq ident =
      content ++ tag := rfl
  have hcommand : Wire.deserializeRegisterCommand (content ++ tag) =
      .ok (.client (commandOf rq ident), tag) := by
    rw [hcontent, List.append_assoc, Wire.deserializeRegisterCommand_append, if_pos hclient,
      List.append_assoc, cmdType_eq rq ident]
    exact Wire.deserializeClientCommand_fields (commandOf rq ident) hfull tag
  have hverified : config.verifies rq.cmdType (content ++ tag) = true := by
    unfold Wire.Config.verifies
    rw [← hlength, List.take_left, List.drop_left, hkey]
    exact decide_eq_true rfl
  -- the server cuts the same bytes at other places: magic number, header and body
  obtain ⟨body, hbody⟩ : ∃ body, content ++ tag =
      [0x61, 0x74, 0x64, 0x64, p₀, p₁, p₂, rq.cmdType] ++ body := by
    rw [hcontent, List.append_assoc]
    exact ⟨_, rfl⟩
  have hbodylen : body.length = Wire.msgLen rq.cmdType + 32 - 8 := by
    rw [hbody, List.length_append] at htotal
    change 8 + body.length = _ at htotal
    omega
  have hmagic : Wire.magicEnd (content ++ tag ++ rest) = some 4 := by
    rw [hbody]
    rfl
  have hheader : ((content ++ tag ++ rest).drop 4).take 4 = [p₀, p₁, p₂, rq.cmdType] := by
    rw [hbody]
    rfl
  have hrest : (content ++ tag ++ rest).drop (4 + 4) = body ++ rest := by
    rw [hbody]
    rfl
  have hmessage : Wire.magicNumber ++ [p₀, p₁, p₂, rq.cmdType] ++
      (body ++ rest).take (Wire.msgLen rq.cmdType + 32 - 8) = content ++ tag := by
    rw [List.take_left' hbodylen, hbody]
    rfl
  have htype : [p₀, p₁, p₂, rq.cmdType].getD 3 0 = rq.cmdType := rfl
  have hparse : config.parseBody [p₀, p₁, p₂, rq.cmdType] (body ++ rest) =
      some ⟨rq.cmdType, content ++ tag, true, .client (commandOf rq ident)⟩ := by
    unfold Wire.Config.parseBody
    simp only [htype, hmessage, hcommand, hverified]
  refine ⟨⟨rq.cmdType, content ++ tag, true, .client (commandOf rq ident)⟩, rfl, rfl, ?_⟩
  have hlen : (content ++ tag ++ rest).length = Wire.msgLen rq.cmdType + 32 + rest.length := by
    rw [List.length_append, htotal]
  rw [hsend]
  unfold Wire.Config.parseRequest
  rw [hmagic]
  simp only [hheader, hrest, htype, hparse]
  rw [if_neg (by omega), if_neg (by omega), if_neg (by omega), htotal]
  congr 1
  omega

/-- **Commands.** What the driver sends is executed as it was meant. -/
theorem readRequest_cmdContent (config : Wire.Config)
    (htag : ∀ message, (config.hmac config.hmacClientKey message).length = hmacTagSize)
    (hbuf : sendBuf.take 7 = atddMagic ++ [p₀, p₁, p₂]) (hdata : rq.data.length = sectorSize)
    (hsector : rq.pos >>> 3 < config.maxSector) {ident : UInt64} {rest : List UInt8}
    {s : Wire.ReadHalf}
    (hs : s.bytes =
      prepareCmdContent (config.hmac config.hmacClientKey) sendBuf rq ident ++ rest)
    (hcuts : ∀ c ∈ Wire.cuts s.segments, ¬ (4 < c ∧ c < 8)) :
    ∃ request, config.readRequest.run s = some (.ok (some request), s.skip
        (prepareCmdContent (config.hmac config.hmacClientKey) sendBuf rq ident).length) ∧
      config.effect request = some (.executeClientCommand (commandOf rq ident)) := by
  obtain ⟨request, hverified, hcommand, hparse⟩ :=
    parseRequest_cmdContent config htag hbuf hdata ident rest
  have hmagic : Wire.magicEnd s.bytes = some 4 := by
    rw [hs]
    unfold prepareCmdContent
    rw [cmdContent_eq hbuf hdata, List.append_assoc, List.append_assoc]
    rfl
  have hreads := config.reads_parseRequest (s := s) (by
    intro p hp
    rw [hmagic] at hp
    cases hp
    exact hcuts)
  rw [hs, hparse] at hreads
  refine ⟨request, hreads, ?_⟩
  have hlt : ¬ config.maxSector ≤ rq.pos >>> 3 := UInt64.not_le.mpr hsector
  unfold Wire.Config.effect
  rw [hcommand, hverified]
  show (if (!true || decide (config.maxSector ≤ rq.pos >>> 3)) = true then _ else _) = _
  rw [decide_eq_false hlt]
  rfl

end

/-- **One format.** With the same keyed function and the same key on both sides: a command the
driver builds is read by the server as the command it stands for, for every content of the
padding, and a response of the server is fetched by the driver with its identifier, its status
and its data, whatever the chunks it arrives in. Neither side reads a byte too many. -/
theorem wire_formats_agree (config : Wire.Config)
    (htag : ∀ key message, (config.hmac key message).length = hmacTagSize) :
    (∀ (sendBuf : List UInt8) (p₀ p₁ p₂ : UInt8) (rq : Request) (ident : UInt64)
        (rest : List UInt8) (s : Wire.ReadHalf),
      sendBuf.take 7 = atddMagic ++ [p₀, p₁, p₂] → rq.data.length = sectorSize →
      rq.pos >>> 3 < config.maxSector →
      s.bytes = prepareCmdContent (config.hmac config.hmacClientKey) sendBuf rq ident ++ rest →
      (∀ c ∈ Wire.cuts s.segments, ¬ (4 < c ∧ c < 8)) →
      ∃ request, config.readRequest.run s = some (.ok (some request), s.skip
          (prepareCmdContent (config.hmac config.hmacClientKey) sendBuf rq ident).length) ∧
        config.effect request = some (.executeClientCommand (commandOf rq ident))) ∧
    (∀ (op : OperationComplete) (msgType : UInt8) (rest : List UInt8) (s : Connection),
      Answer op msgType → s.client.pending.acceptedPos ≠ s.client.pending.completedPos →
      s.client.parseBufPos = 0 →
      delivered s.socket = responseBytes (config.hmac config.hmacClientKey) op msgType rest →
      ∃ cmd s', s.atddFetchCommand (config.hmac config.hmacClientKey) = .ok (.ok (some cmd), s') ∧
        cmd.ident = op.requestIdentifier ∧ cmd.rcode = op.statusCode ∧
        (∀ data, op.opReturn = .read ⟨some data⟩ → cmd.data = data.bytes) ∧
        delivered s'.socket = rest) := by
  constructor
  · intro sendBuf p₀ p₁ p₂ rq ident rest s hbuf hdata hsector hs hcuts
    exact readRequest_cmdContent config (htag _) hbuf hdata hsector hs hcuts
  · intro op msgType rest s hanswer hpending hempty hs
    exact fetch_response hanswer (htag _) hpending hempty hs

/-- A keyed function with 32-byte values, and a disc of one sector. -/
def sampleConfig : Wire.Config :=
  { hmac := fun key message => (key ++ message ++ List.replicate 32 0).take 32
    hmacSystemKey := []
    hmacClientKey := [1, 2, 3]
    maxSector := 1 }

/-- A READ of the first sector, behind padding that is not zero. -/
def sampleCommand : List UInt8 :=
  prepareCmdContent (sampleConfig.hmac sampleConfig.hmacClientKey) (atddMagic ++ [9, 8, 7])
    ⟨0, .read, 5, List.replicate sectorSize 0⟩ 77

/-- Bytes in two chunks, with an interruption between them. -/
def cutAt (n : ℕ) (bytes : List UInt8) : List Recv :=
  unread (bytes.take n) (.nothing :: .restart :: unread (bytes.drop n) [])

theorem delivered_cutAt (n : ℕ) (bytes : List UInt8) : delivered (cutAt n bytes) = bytes := by
  unfold cutAt
  rw [delivered_unread, delivered, delivered, delivered_unread, delivered, List.append_nil,
    List.take_append_drop]

/-- The answer to it, cut inside its header. -/
def sampleSocket : List Recv :=
  cutAt 6 (responseBytes (sampleConfig.hmac sampleConfig.hmacClientKey)
    ⟨.ok, 77, .read ⟨some (SectorVec.fill 7)⟩⟩ Wire.MsgType.read [])

/-- A client that has sent its first command. -/
def sampleClient : TcpClient :=
  { TcpClient.create [] (fun _ => 0) with connected := true, pending := ⟨0, 1⟩ }

/-- The READ goes to the server and its answer comes back. -/
theorem wire_formats_agree_sample :
    (∃ request s', sampleConfig.readRequest.run ⟨[sampleCommand], by decide, true⟩ =
        some (.ok (some request), s') ∧
      sampleConfig.effect request = some (.executeClientCommand ⟨⟨77, 0⟩, .read⟩)) ∧
    (∃ cmd s', Connection.atddFetchCommand (sampleConfig.hmac sampleConfig.hmacClientKey)
        ⟨sampleClient, sampleSocket⟩ = .ok (.ok (some cmd), s') ∧
      cmd.ident = 77 ∧ cmd.rcode = .ok ∧ cmd.data = (SectorVec.fill 7).bytes ∧
      delivered s'.socket = []) := by
  have hagree := wire_formats_agree sampleConfig (by
    intro key message
    simp only [sampleConfig, hmacTagSize, List.length_take, List.length_append,
      List.length_replicate]
    omega)
  constructor
  · obtain ⟨request, hrun, heffect⟩ := hagree.1 (atddMagic ++ [9, 8, 7]) 9 8 7
      ⟨0, .read, 5, List.replicate sectorSize 0⟩ 77 [] ⟨[sampleCommand], by decide, true⟩
      rfl List.length_replicate (by decide) rfl (by decide)
    exact ⟨request, _, hrun, heffect⟩
  · obtain ⟨cmd, s', hfetch, hident, hrcode, hdata, hrest⟩ := hagree.2
      ⟨.ok, 77, .read ⟨some (SectorVec.fill 7)⟩⟩ Wire.MsgType.read [] ⟨sampleClient, sampleSocket⟩
      (.read 77 (SectorVec.fill 7) List.length_replicate) (by decide) rfl (by
        simp only [sampleSocket, delivered_cutAt])
    exact ⟨cmd, s', hfetch, hident, hrcode, hdata _ rfl, hrest⟩

end Driver
end AtomicDiscDrive
