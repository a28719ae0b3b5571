import AtomicDiscDrive.Utils.Runs
import AtomicDiscDrive.Driver.Codec

/-!
# The driver's socket calls

`tcp_send` and `try_tcp_read` of `tcp.c`, with the results of the socket's calls as numbers.
Both are loops around a call that does not wait, and both loops are left after the first
result other than `-ERESTARTSYS`.

* `tcp_send` does not go on after a part of the buffer has been accepted, but reports the
  part as a whole send. `wholeSend_iff` says when that does no harm.
* `try_tcp_read` returns 0 where nothing has arrived, and also where the server has closed
  the connection, so that the loops around it do not end: `reading_ends_iff`.
-/

namespace AtomicDiscDrive
namespace Driver

open Utils

/-- `EAGAIN`. -/
def eagain : Int := 11

/-- `ERESTARTSYS`. -/
def erestartsys : Int := 512

/-- `MSG_DONTWAIT`. -/
def msgDontwait : ℕ := 0x40

/-! ## Sending -/

/-- The local variables of `tcp_send`, the number of the next call of `kernel_sendmsg`, and
what the socket has accepted: how many bytes, and which. -/
structure Sending where
  msgFlags : ℕ
  left : Int
  written : ℕ
  len : Int
  call : ℕ
  total : Int
  accepted : List UInt8

/-- What `tcp_send` returns, with what the socket has accepted. -/
structure Sent where
  res : Int
  total : Int
  accepted : List UInt8
deriving DecidableEq

namespace Sending

/-- `kernel_sendmsg`, with its result. A positive one is the number of bytes it has taken from
the buffer. -/
def sendmsg (data : List UInt8) (len : Int) (s : Sending) : Sending :=
  { s with
    len
    call := s.call + 1
    total := s.total + max len 0
    accepted := s.accepted ++ (data.drop s.written).take len.toNat }

/-- `len < 0 ? len : 0`. -/
def sent (s : Sending) : Sent :=
  { res := if s.len < 0 then s.len else 0
    total := s.total
    accepted := s.accepted }

/-- A round of the loop, behind the call. -/
def advance (s : Sending) : Sent ⊕ Sending :=
  if s.len ≠ -erestartsys ∧ (s.msgFlags &&& msgDontwait ≠ 0 ∨ s.len ≠ -eagain) then .inl s.sent
  else if s.len > 0 then
    .inr { s with written := s.written + s.len.toNat, left := s.left - s.len }
  else .inr s

/-- A round of the loop, with the results of the calls. -/
def round (data : List UInt8) (results : ℕ → Int) (s : Sending) : Sent ⊕ Sending :=
  if s.left > 0 then (s.sendmsg data (results s.call)).advance else .inl s.sent

/-- The start of `tcp_send`. -/
def start (left : ℕ) : Sending :=
  { msgFlags := msgDontwait
    left := left
    written := 0
    len := 0
    call := 0
    total := 0
    accepted := [] }

end Sending

/-- `tcp_send` returns on a buffer. -/
def TcpSend (data : List UInt8) (results : ℕ → Int) (sent : Sent) : Prop :=
  Leaves (Sending.round data results) (Sending.start data.length) sent

/-- **A reported send is a whole send.** -/
def WholeSend (data : List UInt8) (results : ℕ → Int) : Prop :=
  ∀ sent, TcpSend data results sent → sent.res = 0 →
    sent.total = data.length ∧ sent.accepted = data

/-- The first result other than `-ERESTARTSYS` is an error, or the whole buffer. -/
def FirstIsWhole (data : List UInt8) (results : ℕ → Int) : Prop :=
  ∀ k, (∀ j < k, results j = -erestartsys) → results k ≠ -erestartsys →
    results k < 0 ∨ results k = data.length

namespace Sending

/-- `tcp_send` before call `k`, when nothing has been accepted. -/
def untouched (left : ℕ) (len : Int) (k : ℕ) : Sending :=
  { start left with len, call := k }

theorem round_interrupted {data : List UInt8} {results : ℕ → Int} {k : ℕ} (hdata : 0 < data.length)
    (hk : results k = -erestartsys) (len : Int) :
    round data results (untouched data.length len k) =
      .inr (untouched data.length (-erestartsys) (k + 1)) := by
  have hleft : (untouched data.length len k).left > 0 := by
    show (data.length : Int) > 0
    omega
  have hsendmsg : (untouched data.length len k).sendmsg data (results k) =
      untouched data.length (-erestartsys) (k + 1) := by
    rw [hk]
    rfl
  unfold round
  rw [if_pos hleft]
  show ((untouched data.length len k).sendmsg data (results k)).advance = _
  rw [hsendmsg]
  rfl

theorem round_first {data : List UInt8} {results : ℕ → Int} {k : ℕ} (hdata : 0 < data.length)
    (hk : results k ≠ -erestartsys) (len : Int) :
    round data results (untouched data.length len k) = .inl
      { res := if results k < 0 then results k else 0
        total := max (results k) 0
        accepted := data.take (results k).toNat } := by
  have hleft : (untouched data.length len k).left > 0 := by
    show (data.length : Int) > 0
    omega
  have hdontwait : ((untouched data.length len k).sendmsg data (results k)).msgFlags &&&
      msgDontwait ≠ 0 := by
    show msgDontwait &&& msgDontwait ≠ 0
    decide
  have hadvance : ((untouched data.length len k).sendmsg data (results k)).advance =
      .inl ((untouched data.length len k).sendmsg data (results k)).sent :=
    if_pos ⟨hk, Or.inl hdontwait⟩
  unfold round
  rw [if_pos hleft]
  show ((untouched data.length len k).sendmsg data (results k)).advance = _
  rw [hadvance]
  show Sum.inl (Sent.mk _ (0 + max (results k) 0) ([] ++ (data.drop 0).take (results k).toNat)) = _
  rw [Int.zero_add, List.nil_append, List.drop_zero]
  rfl

end Sending

/-- The loop is left after the first result other than `-ERESTARTSYS`. -/
theorem tcpSend_first {data : List UInt8} {results : ℕ → Int} {k : ℕ} (hdata : 0 < data.length)
    (hbefore : ∀ j < k, results j = -erestartsys) (hfirst : results k ≠ -erestartsys) :
    TcpSend data results
      { res := if results k < 0 then results k else 0
        total := max (results k) 0
        accepted := data.take (results k).toNat } := by
  -- induction on the number of interruptions to come
  have hrun : ∀ d j len, j + d = k → Leaves (Sending.round data results)
      (Sending.untouched data.length len j)
      { res := if results k < 0 then results k else 0
        total := max (results k) 0
        accepted := data.take (results k).toNat } := by
    intro d
    induction d with
    | zero =>
      intro j len hj
      obtain rfl : j = k := hj
      exact Leaves.last (Sending.round_first hdata hfirst len)
    | succ d ih =>
      intro j len hj
      apply Leaves.round (Sending.round_interrupted hdata (hbefore j (by omega)) len)
      exact ih (j + 1) _ (by omega)
  exact hrun k 0 0 (Nat.zero_add k)

/-- A send that is interrupted for ever does not return. -/
theorem not_tcpSend_of_interrupted {data : List UInt8} {results : ℕ → Int}
    (hdata : 0 < data.length) (h : ∀ k, results k = -erestartsys) (sent : Sent) :
    ¬ TcpSend data results sent := by
  apply not_leaves_of_invariant (fun s => ∃ len k, s = Sending.untouched data.length len k)
  · rintro s ⟨len, k, rfl⟩
    exact ⟨_, Sending.round_interrupted hdata (h k) len, _, _, rfl⟩
  · exact ⟨0, 0, rfl⟩

/-- What `tcp_send` returns comes from one call. -/
theorem TcpSend.exists_first {data : List UInt8} {results : ℕ → Int} {sent : Sent}
    (hdata : 0 < data.length) (h : TcpSend data results sent) :
    ∃ k, (∀ j < k, results j = -erestartsys) ∧ results k ≠ -erestartsys ∧
      sent =
        { res := if results k < 0 then results k else 0
          total := max (results k) 0
          accepted := data.take (results k).toNat } := by
  by_cases hsome : ∃ k, results k ≠ -erestartsys
  · have hbefore : ∀ j < Nat.find hsome, results j = -erestartsys := by
      intro j hj
      exact not_not.mp (Nat.find_min hsome hj)
    have hfirst := Nat.find_spec hsome
    exact ⟨_, hbefore, hfirst, h.unique (tcpSend_first hdata hbefore hfirst)⟩
  · push Not at hsome
    exact absurd h (not_tcpSend_of_interrupted hdata hsome sent)

theorem wholeSend_iff_firstIsWhole {data : List UInt8} {results : ℕ → Int}
    (hdata : 0 < data.length) : WholeSend data results ↔ FirstIsWhole data results := by
  constructor
  · intro h k hbefore hfirst
    by_cases hneg : results k < 0
    · exact Or.inl hneg
    · right
      obtain ⟨htotal, -⟩ := h _ (tcpSend_first hdata hbefore hfirst) (if_neg hneg)
      change max (results k) 0 = data.length at htotal
      omega
  · intro h sent hsent hres
    obtain ⟨k, hbefore, hfirst, rfl⟩ := hsent.exists_first hdata
    have hwhole : results k = data.length := by
      obtain hneg | hwhole := h k hbefore hfirst
      · change (if results k < 0 then results k else 0) = 0 at hres
        rw [if_pos hneg] at hres
        omega
      · exact hwhole
    refine ⟨?_, ?_⟩
    · show max (results k) 0 = data.length
      omega
    · show data.take (results k).toNat = data
      rw [hwhole, Int.toNat_natCast, List.take_length]

/-! ## Commands -/

/-- What the client makes of the result of `tcp_send`. -/
def Sent.errno (sent : Sent) : Option Errno :=
  if sent.res = 0 then none else some (.socket sent.res.natAbs)

/-- `atdd_send_command` returns, and leaves a client, when the socket has accepted these bytes.
Without a connection `tcp_send` is not called. -/
def AtddSendCommand (hmac : List UInt8 → List UInt8) (connects : Bool) (results : ℕ → Int)
    (rq : Request) (ident : UInt64) (c : TcpClient) (res : Option Errno × TcpClient)
    (accepted : List UInt8) : Prop :=
  if !c.connected && !connects then c.atddSendCommand connects none = res ∧ accepted = []
  else ∃ sent, TcpSend (prepareCmdContent hmac c.sendBuf rq ident) results sent ∧
    c.atddSendCommand connects sent.errno = res ∧ sent.accepted = accepted

/-- A command that is recorded as sent has been accepted whole. -/
def WholeCommand (hmac : List UInt8 → List UInt8) (connects : Bool) (results : ℕ → Int)
    (rq : Request) (ident : UInt64) (c : TcpClient) : Prop :=
  ∀ res accepted, AtddSendCommand hmac connects results rq ident c res accepted →
    res.1 = none → accepted = prepareCmdContent hmac c.sendBuf rq ident

theorem atddSendCommand_unconnected {connects : Bool} {c : TcpClient}
    (h : (!c.connected && !connects) = true) (sent : Option Errno) :
    (c.atddSendCommand connects sent).1 = some .eio := by
  unfold TcpClient.atddSendCommand TcpClient.sendAtddCmdOverTcp
  rw [if_pos h]

theorem atddSendCommand_connected {connects : Bool} {c : TcpClient}
    (h : (!c.connected && !connects) = false) (sent : Option Errno) :
    (c.atddSendCommand connects sent).1 = sent := by
  unfold TcpClient.atddSendCommand TcpClient.sendAtddCmdOverTcp
  rw [if_neg (by rw [h]; exact Bool.false_ne_true)]
  cases sent with
  | none => rfl
  | some err => rfl

theorem errno_eq_none_iff (sent : Sent) : sent.errno = none ↔ sent.res = 0 := by
  unfold Sent.errno
  split
  · simp [*]
  · simp [*]

/-- A command is sent as its bytes are. -/
theorem wholeCommand_iff_wholeSend (hmac : List UInt8 → List UInt8) {connects : Bool}
    {results : ℕ → Int} (rq : Request) (ident : UInt64) {c : TcpClient}
    (h : (!c.connected && !connects) = false)
    (hdata : 0 < (prepareCmdContent hmac c.sendBuf rq ident).length)
    (hresults : ∀ k, results k ≤ (prepareCmdContent hmac c.sendBuf rq ident).length) :
    WholeCommand hmac connects results rq ident c ↔
      WholeSend (prepareCmdContent hmac c.sendBuf rq ident) results := by
  have hsends : ∀ res accepted, AtddSendCommand hmac connects results rq ident c res accepted ↔
      ∃ sent, TcpSend (prepareCmdContent hmac c.sendBuf rq ident) results sent ∧
        c.atddSendCommand connects sent.errno = res ∧ sent.accepted = accepted := by
    intro res accepted
    unfold AtddSendCommand
    rw [if_neg (by rw [h]; exact Bool.false_ne_true)]
  constructor
  · intro hwhole sent hsent hres
    have haccepted := hwhole _ sent.accepted ((hsends _ _).mpr ⟨sent, hsent, rfl, rfl⟩)
      (by rw [atddSendCommand_connected h, errno_eq_none_iff]; exact hres)
    refine ⟨?_, haccepted⟩
    -- the count of the one call that was not interrupted
    obtain ⟨k, -, -, rfl⟩ := hsent.exists_first hdata
    have hlength := congrArg List.length haccepted
    rw [List.length_take] at hlength
    have hle := hresults k
    show max (results k) 0 = _
    omega
  · intro hwhole res accepted hsend hres
    obtain ⟨sent, hsent, rfl, rfl⟩ := (hsends res accepted).mp hsend
    rw [atddSendCommand_connected h, errno_eq_none_iff] at hres
    exact (hwhole sent hsent hres).2

/-- **When a reported send is a whole send.** It is if the first call that is not interrupted
fails or takes the whole buffer, and so is a command that is recorded as sent. -/
theorem wholeSend_iff (data : List UInt8) (results : ℕ → Int) (hdata : 0 < data.length)
    (hresults : ∀ k, results k ≤ data.length) :
    (WholeSend data results ↔ FirstIsWhole data results) ∧
    ∀ (hmac : List UInt8 → List UInt8) (connects : Bool) (rq : Request) (ident : UInt64)
      (c : TcpClient), prepareCmdContent hmac c.sendBuf rq ident = data →
      (WholeCommand hmac connects results rq ident c ↔
        c.connected = false ∧ connects = false ∨ FirstIsWhole data results) := by
  refine ⟨wholeSend_iff_firstIsWhole hdata, ?_⟩
  rintro hmac connects rq ident c rfl
  cases h : !c.connected && !connects with
  | true =>
    have hnot : c.connected = false ∧ connects = false := by simpa using h
    refine iff_of_true ?_ (Or.inl hnot)
    intro res accepted hsend hres
    unfold AtddSendCommand at hsend
    rw [if_pos h] at hsend
    rw [← hsend.1, atddSendCommand_unconnected h] at hres
    cases hres
  | false =>
    have hconnected : ¬ (c.connected = false ∧ connects = false) := by
      rintro ⟨hc, rfl⟩
      rw [hc] at h
      cases h
    rw [wholeCommand_iff_wholeSend hmac rq ident h hdata hresults, wholeSend_iff_firstIsWhole hdata,
      or_iff_right hconnected]

/-- An interrupted call, and one that takes the buffer. -/
theorem wholeSend_interrupted :
    WholeSend [1, 2] (fun k => if k = 0 then -erestartsys else 2) := by
  have hresults : ∀ k : ℕ, (if k = 0 then -erestartsys else 2) ≤
      (([1, 2] : List UInt8).length : Int) := by
    intro k
    split
    · decide
    · decide
  apply (wholeSend_iff [1, 2] _ (by decide) hresults).1.mpr
  intro k hbefore hfirst
  by_cases hk : k = 0
  · exact absurd (if_pos hk) hfirst
  · right
    exact if_neg hk

/-- A read command of 56 bytes. -/
def readCommand : List UInt8 :=
  prepareCmdContent (fun _ => List.replicate 32 0)
    (TcpClient.create (List.replicate 7 0) (fun _ => 0)).sendBuf ⟨0, .read, 0, []⟩ 1

/-- Ten bytes of a command are reported, and recorded, as the whole command. -/
theorem ten_bytes_not_whole :
    ¬ WholeSend readCommand (fun _ => 10) ∧
    ¬ WholeCommand (fun _ => List.replicate 32 0) true (fun _ => 10) ⟨0, .read, 0, []⟩ 1
      (TcpClient.create (List.replicate 7 0) (fun _ => 0)) := by
  have hsent : TcpSend readCommand (fun _ => 10) ⟨0, 10, readCommand.take 10⟩ := ⟨1, by decide⟩
  constructor
  · intro h
    exact absurd (h _ hsent rfl).1 (by decide)
  · intro h
    have hwhole := h _ _ ⟨_, hsent, rfl, rfl⟩ (by decide)
    exact absurd hwhole (by decide)

/-! ## Reading -/

/-- What a call of `kernel_recvmsg` meets. -/
inductive Arrival where
  /-- bytes, at least one; what does not fit into the buffer is met by the next call -/
  | bytes (first : UInt8) (rest : List UInt8)
  /-- the server has closed the connection -/
  | closed
  | again
  | restart
  /-- any other error -/
  | error (code : ℕ) (hcode : code ≠ 0 ∧ (code : Int) ≠ eagain ∧ (code : Int) ≠ erestartsys)

namespace Arrival

/-- The result of the call, for a buffer of `left` bytes. -/
def res (left : ℕ) : Arrival → Int
  | .bytes b bs => min left (b :: bs).length
  | .closed => 0
  | .again => -eagain
  | .restart => -erestartsys
  | .error code _ => -code

/-- The bytes the call puts into the buffer. -/
def taken (left : ℕ) : Arrival → List UInt8
  | .bytes b bs => (b :: bs).take left
  | _ => []

/-- What the next calls meet. -/
def rest (left : ℕ) (socket : List Arrival) : Arrival → List Arrival
  | .bytes b bs =>
    match (b :: bs).drop left with
    | [] => socket
    | b :: bs => .bytes b bs :: socket
  | _ => socket

/-- What is left of a result behind `try_tcp_read`. -/
def found : Arrival → Recv
  | .bytes b bs => .chunk b bs
  | .closed => .nothing
  | .again => .nothing
  | .restart => .restart
  | .error code _ => .error code

end Arrival

/-- The loop of `try_tcp_read`, with `res` and `read` behind it, the bytes of the last call, and
what the next calls meet. -/
def tryTcpReadLoop (left read res : Int) : List Arrival →
    Option (Int × Int × List UInt8 × List Arrival)
  | [] => if left > 0 then none else some (res, read, [], [])
  | a :: socket =>
    if left > 0 then
      if a.res left.toNat ≠ -erestartsys then
        some (a.res left.toNat, read, a.taken left.toNat, a.rest left.toNat socket)
      else if a.res left.toNat > 0 then
        tryTcpReadLoop (left - (read + a.res left.toNat)) (read + a.res left.toNat)
          (a.res left.toNat) socket
      else tryTcpReadLoop left read (a.res left.toNat) socket
    else some (res, read, [], a :: socket)

/-- `try_tcp_read`, with the bytes it has put into the buffer and what the next calls meet. -/
def Arrival.tryTcpRead (left : ℕ) (socket : List Arrival) :
    Option (Int × List UInt8 × List Arrival) :=
  (tryTcpReadLoop left 0 0 socket).map fun (res, read, data, socket) =>
    (if read > 0 then read else if res = -eagain then 0 else res, data, socket)

theorem Arrival.map_found_rest (left : ℕ) (first : UInt8) (bytes : List UInt8)
    (socket : List Arrival) :
    ((Arrival.bytes first bytes).rest left socket).map found =
      unread ((first :: bytes).drop left) (socket.map found) := by
  rw [rest]
  cases (first :: bytes).drop left with
  | nil => rfl
  | cons b bs => rfl

theorem Arrival.tryTcpRead_of_res {left : ℕ} (hleft : 0 < left) {a : Arrival}
    {socket : List Arrival} (ha : a.res left ≠ -erestartsys) :
    Arrival.tryTcpRead left (a :: socket) =
      some (if a.res left = -eagain then 0 else a.res left, a.taken left, a.rest left socket) := by
  have hpos : (left : Int) > 0 := by omega
  unfold Arrival.tryTcpRead tryTcpReadLoop
  rw [if_pos hpos, Int.toNat_natCast, if_pos ha]
  rfl

/-- `res` does not matter to a loop that goes on. -/
theorem tryTcpReadLoop_res {left : Int} (hleft : left > 0) (read res res' : Int)
    (socket : List Arrival) :
    tryTcpReadLoop left read res socket = tryTcpReadLoop left read res' socket := by
  cases socket with
  | nil => rw [tryTcpReadLoop, tryTcpReadLoop, if_pos hleft, if_pos hleft]
  | cons a socket => rw [tryTcpReadLoop, tryTcpReadLoop, if_pos hleft, if_pos hleft]

theorem Arrival.tryTcpRead_restart {left : ℕ} (hleft : 0 < left) (socket : List Arrival) :
    Arrival.tryTcpRead left (.restart :: socket) = Arrival.tryTcpRead left socket := by
  have hpos : (left : Int) > 0 := by omega
  have hround : tryTcpReadLoop left 0 0 (.restart :: socket) =
      tryTcpReadLoop left 0 (-erestartsys) socket := by
    have hres : Arrival.restart.res (left : Int).toNat = -erestartsys := rfl
    rw [tryTcpReadLoop, if_pos hpos, hres, if_neg (not_not.mpr rfl), if_neg (by decide)]
  unfold Arrival.tryTcpRead
  rw [hround, tryTcpReadLoop_res hpos 0 (-erestartsys) 0]

/-- **What `try_tcp_read` makes of the results.** Nothing is left of the difference between a
server that has sent nothing and one that has closed the connection. -/
theorem tryTcpRead_found {left : ℕ} (hleft : 0 < left) (socket : List Arrival) :
    tryTcpRead left (socket.map Arrival.found) =
      (Arrival.tryTcpRead left socket).elim (.error .waiting) fun r =>
        .ok (if r.1 < 0 then .error (.socket r.1.natAbs) else .ok r.2.1,
          r.2.2.map Arrival.found) := by
  induction socket with
  | nil =>
    have hpos : (left : Int) > 0 := by omega
    unfold Arrival.tryTcpRead tryTcpReadLoop
    rw [if_pos hpos]
    rfl
  | cons a socket ih =>
    cases a with
    | bytes b bs =>
      have hres : 0 ≤ (Arrival.bytes b bs).res left := by
        show 0 ≤ min (left : Int) ((b :: bs).length : Int)
        omega
      have hagain : (Arrival.bytes b bs).res left ≠ -eagain := by
        unfold eagain
        omega
      rw [Arrival.tryTcpRead_of_res hleft (by unfold erestartsys; omega), if_neg hagain]
      show tryTcpRead left (.chunk b bs :: socket.map Arrival.found) =
        .ok (if (Arrival.bytes b bs).res left < 0 then _ else _, _)
      rw [if_neg (not_lt.mpr hres), Arrival.map_found_rest]
      rfl
    -- the zero of a closed connection leaves the loop, as `-EAGAIN` does, and both become 0
    | closed =>
      have hres : Arrival.closed.res left ≠ -erestartsys := by
        show (0 : Int) ≠ -erestartsys
        decide
      rw [Arrival.tryTcpRead_of_res hleft hres]
      rfl
    | again =>
      have hres : Arrival.again.res left ≠ -erestartsys := by
        show -eagain ≠ -erestartsys
        decide
      rw [Arrival.tryTcpRead_of_res hleft hres]
      rfl
    -- the one result after which the loop goes on
    | restart =>
      rw [Arrival.tryTcpRead_restart hleft]
      exact ih
    | error code hcode =>
      have hneg : -(code : Int) < 0 := by
        have hzero := hcode.1
        omega
      have hagain : -(code : Int) ≠ -eagain := fun h => hcode.2.1 (neg_inj.mp h)
      have hres : (Arrival.error code hcode).res left ≠ -erestartsys := by
        show -(code : Int) ≠ -erestartsys
        exact fun h => hcode.2.2 (neg_inj.mp h)
      rw [Arrival.tryTcpRead_of_res hleft hres]
      show tryTcpRead left (.error code :: socket.map Arrival.found) = .ok
        (if (if -(code : Int) = -eagain then 0 else -(code : Int)) < 0 then
          .error (.socket (if -(code : Int) = -eagain then 0 else -(code : Int)).natAbs)
        else _, _)
      rw [if_neg hagain, if_pos hneg, Int.natAbs_neg, Int.natAbs_natCast]
      rfl

/-! ## Loops around a read -/

/-- No call fails. -/
def Quiet (socket : List Recv) : Prop :=
  ∀ code, Recv.error code ∉ socket

theorem quiet_unread {socket : List Recv} (h : Quiet socket) (bytes : List UInt8) :
    Quiet (unread bytes socket) := by
  cases bytes with
  | nil => exact h
  | cons b bs =>
    intro code hmem
    obtain heq | hmem := List.mem_cons.mp hmem
    · cases heq
    · exact h code hmem

/-- A read on a socket where no call fails has no result, or no error. -/
theorem tryTcpRead_quiet (left : ℕ) {socket : List Recv} (h : Quiet socket) :
    tryTcpRead left socket = .error .waiting ∨
      ∃ bytes socket', tryTcpRead left socket = .ok (.ok bytes, socket') ∧ Quiet socket' := by
  induction socket with
  | nil => exact Or.inl rfl
  | cons recv socket ih =>
    have hrest : Quiet socket := fun code hmem => h code (List.mem_cons_of_mem _ hmem)
    cases recv with
    | chunk b bs => exact Or.inr ⟨_, _, rfl, quiet_unread hrest _⟩
    | nothing => exact Or.inr ⟨_, _, rfl, hrest⟩
    | restart => exact ih hrest
    | error code => exact absurd List.mem_cons_self (h code)

namespace Connection

/-- A round of the loop of `progress_tcp_data_to_limit` that is not the last. -/
theorem progressLoop_round {limit fuel : ℕ} {s : Connection} (hlt : s.client.parseBufPos < limit)
    {bytes : List UInt8} {socket : List Recv}
    (hread : tryTcpRead (limit - s.client.parseBufPos) s.socket = .ok (.ok bytes, socket)) :
    s.progressLoop limit (fuel + 1) = progressLoop limit fuel ⟨s.client.store bytes, socket⟩ := by
  rw [progressLoop, if_pos hlt, hread]
  rfl

/-- Too few bytes: the loop goes on for ever. -/
theorem progressLoop_short {limit fuel : ℕ} {s : Connection} (hquiet : Quiet s.socket)
    (hshort : s.client.parseBufPos + (delivered s.socket).length < limit) :
    s.progressLoop limit fuel = .error .waiting := by
  induction fuel generalizing s with
  | zero => rfl
  | succ fuel ih =>
    have hlt : s.client.parseBufPos < limit := by omega
    obtain hread | ⟨bytes, socket, hread, hsocket⟩ :=
      tryTcpRead_quiet (limit - s.client.parseBufPos) hquiet
    · rw [progressLoop, if_pos hlt, hread]
      rfl
    · rw [progressLoop_round hlt hread]
      apply ih hsocket
      have hbytes := congrArg List.length (tryTcpRead_ok hread)
      rw [List.length_append] at hbytes
      show s.client.parseBufPos + bytes.length + (delivered socket).length < limit
      omega

theorem progressLoop_quiet {limit fuel : ℕ} {s s' : Connection} {res : Except Errno Unit}
    (hquiet : Quiet s.socket) (h : s.progressLoop limit fuel = .ok (res, s')) :
    Quiet s'.socket := by
  induction fuel generalizing s with
  | zero => cases h
  | succ fuel ih =>
    by_cases hlt : s.client.parseBufPos < limit
    · obtain hread | ⟨bytes, socket, hread, hsocket⟩ :=
        tryTcpRead_quiet (limit - s.client.parseBufPos) hquiet
      · rw [progressLoop, if_pos hlt, hread] at h
        cases h
      · rw [progressLoop_round hlt hread] at h
        exact ih hsocket h
    · rw [progressLoop, if_neg hlt] at h
      cases h
      exact hquiet

/-- Enough bytes: the buffer is filled to the limit, if it is not beyond. -/
theorem progressTcpDataToLimit_enough {limit : ℕ} {s : Connection} (hquiet : Quiet s.socket)
    (henough : limit ≤ s.client.parseBufPos + (delivered s.socket).length) :
    ∃ socket', s.progressTcpDataToLimit limit = .ok (.ok (),
        ⟨s.client.store ((delivered s.socket).take (limit - s.client.parseBufPos)), socket'⟩) ∧
      delivered socket' = (delivered s.socket).drop (limit - s.client.parseBufPos) ∧
      Quiet socket' := by
  by_cases hpos : s.client.parseBufPos ≤ limit
  · obtain ⟨socket', hprogress, hdelivered⟩ :=
      progressTcpDataToLimit_delivered limit s hpos (by omega)
    exact ⟨socket', hprogress, hdelivered, progressLoop_quiet hquiet hprogress⟩
  · have hzero : limit - s.client.parseBufPos = 0 := by omega
    refine ⟨s.socket, ?_, ?_, hquiet⟩
    · rw [progressTcpDataToLimit, progressLoop, if_neg (by omega), hzero, List.take_zero,
        TcpClient.store_nil]
    · rw [hzero, List.drop_zero]

/-- **`progress_tcp_data_to_limit`** returns if there are enough bytes. -/
theorem progressTcpDataToLimit_returns_iff (limit : ℕ) {s : Connection} (hquiet : Quiet s.socket) :
    (∃ r, s.progressTcpDataToLimit limit = .ok r) ↔
      limit ≤ s.client.parseBufPos + (delivered s.socket).length := by
  constructor
  · rintro ⟨r, hr⟩
    by_contra hshort
    rw [progressTcpDataToLimit, progressLoop_short hquiet (not_le.mp hshort)] at hr
    cases hr
  · intro henough
    obtain ⟨socket', hprogress, -⟩ := progressTcpDataToLimit_enough hquiet henough
    exact ⟨_, hprogress⟩

end Connection

/-- Where a response ends, in the buffer with its header. -/
def TcpClient.responseEnd (c : TcpClient) (st : StatusCode) : ℕ :=
  minResponseSize + if st = .ok ∧ c.parseBuf 7 = 0x40 + readCmd then sectorSize else 0

/-- The bytes to come make the client's buffer a response, as far as `progress_tcp_data` looks
at it: a header that starts with the magic number, and then an invalid status, or as many
bytes as the header announces. What was looked at by an earlier call is not looked at again. -/
structure Answered (c : TcpClient) (bytes : List UInt8) : Prop where
  header : minResponseSize ≤ c.parseBufPos + bytes.length
  magic : c.parseBufPos < minResponseSize → (c.store bytes).slice 0 4 = atddMagic
  body : if c.parseBufPos ≤ minResponseSize then
      ∀ st, parseStatusCode ((c.store bytes).parseBuf 6) = some st →
        (c.store bytes).responseEnd st ≤ c.parseBufPos + bytes.length
    else (c.store bytes).responseEnd c.parseState.st ≤ c.parseBufPos + bytes.length

/-- The front of the buffer does not depend on the bytes behind it. -/
theorem TcpClient.store_take_parseBuf (c : TcpClient) (bytes : List UInt8) {k i : ℕ}
    (hi : i < c.parseBufPos + k) :
    (c.store (bytes.take k)).parseBuf i = (c.store bytes).parseBuf i := by
  show (if i < c.parseBufPos then _ else _) = if i < c.parseBufPos then _ else _
  by_cases hfront : i < c.parseBufPos
  · rw [if_pos hfront, if_pos hfront]
  · rw [if_neg hfront, if_neg hfront, List.getD_eq_getElem?_getD, List.getD_eq_getElem?_getD,
      List.getElem?_take_of_lt (by omega)]

/-- A computation returns if its parts do. -/
theorem exists_bind_ok_iff {ε α β : Type} {x : Except ε α} {f : α → Except ε β} :
    (∃ r, (x >>= f) = .ok r) ↔ ∃ a, x = .ok a ∧ ∃ r, f a = .ok r := by
  cases x with
  | error e =>
    constructor
    · rintro ⟨r, hr⟩
      cases hr
    · rintro ⟨a, ha, -⟩
      cases ha
  | ok a =>
    constructor
    · intro h
      exact ⟨a, rfl, h⟩
    · rintro ⟨a', ha, h⟩
      cases ha
      exact h

namespace Connection

theorem progressBody_returns_iff {s : Connection} (hquiet : Quiet s.socket) :
    (∃ r, s.progressBody = .ok r) ↔
      s.client.responseEnd s.client.parseState.st ≤
        s.client.parseBufPos + (delivered s.socket).length := by
  have hreturns := progressTcpDataToLimit_returns_iff
    (s.client.responseEnd s.client.parseState.st) (s := ⟨{ s.client with
      parseState := { s.client.parseState with
        rqIdent := u64FromBeBytes (s.client.slice 8 8) } }, s.socket⟩) hquiet
  unfold progressBody
  rw [exists_bind_ok_iff]
  constructor
  · rintro ⟨a, ha, -⟩
    exact hreturns.mp ⟨a, ha⟩
  · intro h
    obtain ⟨⟨res, s'⟩, ha⟩ := hreturns.mpr h
    refine ⟨_, ha, ?_⟩
    cases res with
    | error err => exact ⟨_, rfl⟩
    | ok _ => exact ⟨_, rfl⟩

/-- The magic number is in the header. -/
theorem slice_header (c : TcpClient) (bytes : List UInt8) :
    (c.store (bytes.take (minResponseSize - c.parseBufPos))).slice 0 4 =
      (c.store bytes).slice 0 4 := by
  apply List.map_congr_left
  intro i hi
  have hi4 := List.mem_range.mp hi
  apply TcpClient.store_take_parseBuf
  unfold minResponseSize atddResponseHeaderSize
  omega

/-- The header arrives, and starts with the magic number. -/
theorem progressHeader_answered {s : Connection} (hquiet : Quiet s.socket)
    (hheader : minResponseSize ≤ s.client.parseBufPos + (delivered s.socket).length)
    (hmagic : s.client.parseBufPos < minResponseSize →
      (s.client.store (delivered s.socket)).slice 0 4 = atddMagic) :
    ∃ socket', s.progressHeader = .ok (.ok (), ⟨s.client.store ((delivered s.socket).take
        (minResponseSize - s.client.parseBufPos)), socket'⟩) ∧
      delivered socket' = (delivered s.socket).drop (minResponseSize - s.client.parseBufPos) ∧
      Quiet socket' := by
  by_cases hlt : s.client.parseBufPos < minResponseSize
  · obtain ⟨socket', hprogress, hdelivered, hsocket'⟩ :=
      progressTcpDataToLimit_enough hquiet hheader
    have hslice := (slice_header s.client (delivered s.socket)).trans (hmagic hlt)
    refine ⟨socket', ?_, hdelivered, hsocket'⟩
    unfold progressHeader
    rw [if_pos hlt, hprogress]
    show (slideToAtddMagic _ >>= _) = _
    unfold slideToAtddMagic
    rw [if_neg (fun hslide => hslide.2 hslice)]
    rfl
  · have hzero : minResponseSize - s.client.parseBufPos = 0 := by omega
    refine ⟨s.socket, ?_, ?_, hquiet⟩
    · rw [progressHeader, if_neg hlt, hzero, List.take_zero, TcpClient.store_nil]
    · rw [hzero, List.drop_zero]

/-- Where the parser is through with a header, it has arrived and starts with the magic
number. -/
theorem answered_of_progressHeader {s : Connection} (hquiet : Quiet s.socket)
    {r : Except Errno Unit × Connection} (h : s.progressHeader = .ok r) :
    minResponseSize ≤ s.client.parseBufPos + (delivered s.socket).length ∧
    (s.client.parseBufPos < minResponseSize →
      (s.client.store (delivered s.socket)).slice 0 4 = atddMagic) := by
  by_cases hlt : s.client.parseBufPos < minResponseSize
  · unfold progressHeader at h
    rw [if_pos hlt] at h
    obtain ⟨a, ha, -⟩ := exists_bind_ok_iff.mp ⟨r, h⟩
    have henough := (progressTcpDataToLimit_returns_iff _ hquiet).mp ⟨a, ha⟩
    refine ⟨henough, fun _ => ?_⟩
    obtain ⟨socket', hprogress, -⟩ := progressTcpDataToLimit_enough hquiet henough
    by_contra hmagic
    -- `BUG_ON(slide != 0)`
    have hslide : slideToAtddMagic ⟨s.client.store ((delivered s.socket).take
        (minResponseSize - s.client.parseBufPos)), socket'⟩ = .error .bug := by
      unfold slideToAtddMagic
      apply if_pos
      constructor
      · show 4 ≤ s.client.parseBufPos + _
        rw [List.length_take]
        unfold minResponseSize atddResponseHeaderSize at *
        omega
      · rw [slice_header]
        exact hmagic
    rw [hprogress] at h
    change (slideToAtddMagic _ >>= _) = _ at h
    rw [hslide] at h
    cases h
  · refine ⟨by omega, ?_⟩
    intro hlt'
    exact absurd hlt' hlt

section

variable {s s₁ : Connection}

theorem progressTcpData_eq_of_invalid (hheader : s.progressHeader = .ok (.ok (), s₁))
    (hpos : s₁.client.parseBufPos = minResponseSize)
    (hst : parseStatusCode (s₁.client.parseBuf 6) = none) :
    s.progressTcpData =
      .ok (.error .einval, { s₁ with client := { s₁.client with parseBufPos := 0 } }) := by
  unfold progressTcpData
  rw [hheader]
  show (if s₁.client.parseBufPos = minResponseSize then _ else _) = _
  rw [if_pos hpos]
  simp only [hst]

theorem progressTcpData_eq_of_status (hheader : s.progressHeader = .ok (.ok (), s₁))
    (hpos : s₁.client.parseBufPos = minResponseSize) {st : StatusCode}
    (hst : parseStatusCode (s₁.client.parseBuf 6) = some st) :
    s.progressTcpData = progressBody
      ⟨{ s₁.client with parseState := { s₁.client.parseState with st } }, s₁.socket⟩ := by
  unfold progressTcpData
  rw [hheader]
  show (if s₁.client.parseBufPos = minResponseSize then _ else _) = _
  rw [if_pos hpos]
  simp only [hst]

theorem progressTcpData_eq_of_beyond (hheader : s.progressHeader = .ok (.ok (), s₁))
    (hpos : s₁.client.parseBufPos ≠ minResponseSize) : s.progressTcpData = s₁.progressBody := by
  unfold progressTcpData
  rw [hheader]
  show (if s₁.client.parseBufPos = minResponseSize then _ else _) = _
  rw [if_neg hpos]

/-- `progress_tcp_data` behind the header. -/
theorem progressTcpData_returns_of_header (hquiet : Quiet s₁.socket)
    (hheader : s.progressHeader = .ok (.ok (), s₁)) :
    (∃ r, s.progressTcpData = .ok r) ↔
      if s₁.client.parseBufPos = minResponseSize then
        ∀ st, parseStatusCode (s₁.client.parseBuf 6) = some st →
          s₁.client.responseEnd st ≤ s₁.client.parseBufPos + (delivered s₁.socket).length
      else s₁.client.responseEnd s₁.client.parseState.st ≤
        s₁.client.parseBufPos + (delivered s₁.socket).length := by
  by_cases hpos : s₁.client.parseBufPos = minResponseSize
  · rw [if_pos hpos]
    cases hst : parseStatusCode (s₁.client.parseBuf 6) with
    | none =>
      rw [progressTcpData_eq_of_invalid hheader hpos hst]
      refine iff_of_true ⟨_, rfl⟩ ?_
      intro st h
      cases h
    | some st =>
      have hbody := progressBody_returns_iff (s := ⟨{ s₁.client with
        parseState := { s₁.client.parseState with st } }, s₁.socket⟩) hquiet
      rw [progressTcpData_eq_of_status hheader hpos hst]
      apply hbody.trans
      constructor
      · intro h st' hst'
        cases hst'
        exact h
      · intro h
        exact h st rfl
  · rw [if_neg hpos, progressTcpData_eq_of_beyond hheader hpos, progressBody_returns_iff hquiet]

end

/-- The parser looks at the header as it does at all bytes to come. -/
theorem progressTcpData_returns_iff_body {s : Connection} (hquiet : Quiet s.socket)
    (hheader : minResponseSize ≤ s.client.parseBufPos + (delivered s.socket).length)
    (hmagic : s.client.parseBufPos < minResponseSize →
      (s.client.store (delivered s.socket)).slice 0 4 = atddMagic) :
    (∃ r, s.progressTcpData = .ok r) ↔ Answered s.client (delivered s.socket) := by
  obtain ⟨socket', hprogress, hdelivered, hsocket'⟩ :=
    progressHeader_answered hquiet hheader hmagic
  -- the header is in the buffer before the body has come, so both sides read the same fields
  have hfront : ∀ i < 8, (s.client.store ((delivered s.socket).take
      (minResponseSize - s.client.parseBufPos))).parseBuf i =
        (s.client.store (delivered s.socket)).parseBuf i := by
    intro i hi
    apply TcpClient.store_take_parseBuf
    unfold minResponseSize atddResponseHeaderSize
    omega
  have hpos : (s.client.store ((delivered s.socket).take
      (minResponseSize - s.client.parseBufPos))).parseBufPos = minResponseSize ↔
        s.client.parseBufPos ≤ minResponseSize := by
    rw [TcpClient.store_parseBufPos, List.length_take]
    omega
  have hlength : (s.client.store ((delivered s.socket).take
        (minResponseSize - s.client.parseBufPos))).parseBufPos + (delivered socket').length =
      s.client.parseBufPos + (delivered s.socket).length := by
    rw [TcpClient.store_parseBufPos, hdelivered, List.length_take, List.length_drop]
    omega
  have hanswered : Answered s.client (delivered s.socket) ↔
      if s.client.parseBufPos ≤ minResponseSize then
        ∀ st, parseStatusCode ((s.client.store (delivered s.socket)).parseBuf 6) = some st →
          (s.client.store (delivered s.socket)).responseEnd st ≤
            s.client.parseBufPos + (delivered s.socket).length
      else (s.client.store (delivered s.socket)).responseEnd s.client.parseState.st ≤
        s.client.parseBufPos + (delivered s.socket).length :=
    ⟨fun h => h.body, fun h => ⟨hheader, hmagic, h⟩⟩
  rw [hanswered, progressTcpData_returns_of_header hsocket' hprogress]
  simp only [hlength, TcpClient.responseEnd, hfront 6 (by decide), hfront 7 (by decide), hpos]
  rfl

theorem progressTcpData_returns_iff {s : Connection} (hquiet : Quiet s.socket) :
    (∃ r, s.progressTcpData = .ok r) ↔ Answered s.client (delivered s.socket) := by
  constructor
  · intro h
    obtain ⟨a, ha, -⟩ := exists_bind_ok_iff.mp h
    obtain ⟨hheader, hmagic⟩ := answered_of_progressHeader hquiet ha
    exact (progressTcpData_returns_iff_body hquiet hheader hmagic).mp h
  · intro h
    exact (progressTcpData_returns_iff_body hquiet h.header h.magic).mpr h

/-- **`atdd_fetch_command`** returns if nothing is pending, or a response has arrived. -/
theorem atddFetchCommand_returns_iff (hmac : List UInt8 → List UInt8) {s : Connection}
    (hquiet : Quiet s.socket) :
    (∃ r, s.atddFetchCommand hmac = .ok r) ↔
      s.client.pending.acceptedPos = s.client.pending.completedPos ∨
        Answered s.client (delivered s.socket) := by
  by_cases hpending : s.client.pending.acceptedPos = s.client.pending.completedPos
  · unfold atddFetchCommand
    rw [if_pos hpending]
    exact iff_of_true ⟨_, rfl⟩ (Or.inl hpending)
  · unfold atddFetchCommand
    rw [or_iff_right hpending, ← progressTcpData_returns_iff hquiet, if_neg hpending,
      exists_bind_ok_iff]
    constructor
    · rintro ⟨a, ha, -⟩
      exact ⟨a, ha⟩
    · rintro ⟨⟨res, s'⟩, ha⟩
      refine ⟨_, ha, ?_⟩
      cases res with
      | error err => exact ⟨_, rfl⟩
      | ok _ =>
        dsimp only
        split
        · exact ⟨_, rfl⟩
        · split
          · exact ⟨_, rfl⟩
          · exact ⟨_, rfl⟩

end Connection

/-! ## A server that closes the connection -/

/-- The call returns after finitely many steps, if the calls of `kernel_recvmsg` have these
results and 0 from then on. -/
def Ends {α : Type} (call : List Recv → Except Halt α) (before : List Arrival) : Prop :=
  ∃ n r, call ((before ++ List.replicate n Arrival.closed).map Arrival.found) = .ok r

/-- Bytes, `-EAGAIN` and `-ERESTARTSYS`. -/
def Arrival.NoError (a : Arrival) : Prop :=
  ∀ code hcode, a ≠ .error code hcode

/-- The bytes that arrive. -/
def received (before : List Arrival) : List UInt8 :=
  before.flatMap fun
    | .bytes b bs => b :: bs
    | _ => []

theorem quiet_closed {before : List Arrival} (h : ∀ a ∈ before, a.NoError) (n : ℕ) :
    Quiet ((before ++ List.replicate n Arrival.closed).map Arrival.found) := by
  intro code hmem
  obtain ⟨a, ha, hfound⟩ := List.mem_map.mp hmem
  cases a with
  | error code hcode =>
    obtain hbefore | hafter := List.mem_append.mp ha
    · exact h _ hbefore code hcode rfl
    · cases List.eq_of_mem_replicate hafter
  | bytes b bs => cases hfound
  | closed => cases hfound
  | again => cases hfound
  | restart => cases hfound

/-- What arrives before the end of the stream is all that arrives. -/
theorem delivered_closed {before : List Arrival} (h : ∀ a ∈ before, a.NoError) (n : ℕ) :
    delivered ((before ++ List.replicate n Arrival.closed).map Arrival.found) =
      received before := by
  induction before with
  | nil =>
    induction n with
    | zero => rfl
    | succ n ih => exact ih
  | cons a before ih =>
    have hrest := ih fun a' ha' => h a' (List.mem_cons_of_mem _ ha')
    cases a with
    | error code hcode => exact absurd rfl (h _ List.mem_cons_self code hcode)
    | bytes b bs => exact congrArg (b :: bs ++ ·) hrest
    | closed => exact hrest
    | again => exact hrest
    | restart => exact hrest

section

variable {before : List Arrival} (h : ∀ a ∈ before, a.NoError) (c : TcpClient)
include h

theorem ends_progress_iff (limit : ℕ) :
    Ends (fun socket => Connection.progressTcpDataToLimit limit ⟨c, socket⟩) before ↔
      limit ≤ c.parseBufPos + (received before).length := by
  have hprogress : ∀ n, (∃ r, Connection.progressTcpDataToLimit limit
      ⟨c, (before ++ List.replicate n Arrival.closed).map Arrival.found⟩ = .ok r) ↔
        limit ≤ c.parseBufPos + (received before).length := by
    intro n
    rw [Connection.progressTcpDataToLimit_returns_iff limit (quiet_closed h n)]
    show limit ≤ c.parseBufPos + (delivered _).length ↔ _
    rw [delivered_closed h]
  constructor
  · rintro ⟨n, hn⟩
    exact (hprogress n).mp hn
  · intro henough
    exact ⟨0, (hprogress 0).mpr henough⟩

theorem ends_fetch_iff (hmac : List UInt8 → List UInt8) :
    Ends (fun socket => Connection.atddFetchCommand hmac ⟨c, socket⟩) before ↔
      c.pending.acceptedPos = c.pending.completedPos ∨ Answered c (received before) := by
  have hfetch : ∀ n, (∃ r, Connection.atddFetchCommand hmac
      ⟨c, (before ++ List.replicate n Arrival.closed).map Arrival.found⟩ = .ok r) ↔
        c.pending.acceptedPos = c.pending.completedPos ∨ Answered c (received before) := by
    intro n
    rw [Connection.atddFetchCommand_returns_iff hmac (quiet_closed h n)]
    show _ ∨ Answered c (delivered _) ↔ _
    rw [delivered_closed h]
  constructor
  · rintro ⟨n, hn⟩
    exact (hfetch n).mp hn
  · intro hanswered
    exact ⟨0, (hfetch 0).mpr hanswered⟩

end

/-- **When reading ends.** A server that closes the connection ends it only if the bytes before
reach the limit, and `atdd_fetch_command` only if they make a response. -/
theorem reading_ends_iff (hmac : List UInt8 → List UInt8) (c : TcpClient) (limit : ℕ)
    (before : List Arrival) (h : ∀ a ∈ before, a.NoError) :
    (Ends (fun socket => Connection.progressTcpDataToLimit limit ⟨c, socket⟩) before ↔
      limit ≤ c.parseBufPos + (received before).length) ∧
    (Ends (fun socket => Connection.atddFetchCommand hmac ⟨c, socket⟩) before ↔
      c.pending.acceptedPos = c.pending.completedPos ∨ Answered c (received before)) :=
  ⟨ends_progress_iff h c limit, ends_fetch_iff h c hmac⟩

/-- A header that arrives after a while. -/
theorem reading_ends_of_header :
    Ends (fun socket => Connection.progressTcpDataToLimit 48
        ⟨TcpClient.create (List.replicate 7 0) (fun _ => 0), socket⟩)
      [.again, .bytes 0x61 (List.replicate 40 0), .restart, .bytes 0 (List.replicate 6 0)] := by
  have hbefore : ∀ a ∈ [Arrival.again, .bytes 0x61 (List.replicate 40 0), .restart,
      .bytes 0 (List.replicate 6 0)], a.NoError := by
    rintro a ha code hcode rfl
    simp at ha
  exact (reading_ends_iff (fun _ => []) _ 48 _ hbefore).1.mpr (by decide)

/-- A client that waits for the response to one command. -/
def pendingClient : TcpClient :=
  { TcpClient.create (List.replicate 7 0) (fun _ => 0) with
    connected := true
    pending := ⟨0, 1⟩ }

/-- A server that closes the connection without a response: the client reads for ever. -/
theorem reading_does_not_end :
    ¬ Ends (fun socket => Connection.progressTcpDataToLimit 48 ⟨pendingClient, socket⟩) [] ∧
    ¬ Ends (fun socket => Connection.atddFetchCommand (fun _ => []) ⟨pendingClient, socket⟩) [] := by
  have hbefore : ∀ a ∈ ([] : List Arrival), a.NoError := by
    intro a ha
    cases ha
  constructor
  · rw [ends_progress_iff hbefore]
    decide
  · rw [ends_fetch_iff hbefore]
    rintro (hpending | hanswered)
    · cases hpending
    · exact absurd hanswered.header (by decide)

end Driver
end AtomicDiscDrive
