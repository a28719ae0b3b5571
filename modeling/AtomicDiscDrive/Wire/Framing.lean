import AtomicDiscDrive.Wire.Receiver

/-!
# Frames in a byte stream

What the receive loop does is a function of the bytes that arrive, as long as the one read
that need not fill its buffer does: the read of the four bytes behind a magic number.
`parse` is that function. It goes through the bytes from frame to frame, and `headers`
collects the places where the four bytes are read.

`receiveLoop_eq_parse` is the link to the code, for segments that do not end inside a
header (`HeadersWhole`). The two results about the loop are read off `parse`.
-/

namespace AtomicDiscDrive
namespace Wire

/-! ## Consuming bytes -/

theorem flatten_dropBytes (n : ℕ) (segments : List (List UInt8)) :
    (dropBytes n segments).flatten = segments.flatten.drop n := by
  induction segments generalizing n with
  | nil => simp [dropBytes]
  | cons segment rest ih =>
    unfold dropBytes
    split
    · rename_i hn
      rw [List.flatten_cons, List.flatten_cons, List.drop_append_of_le_length (le_of_lt hn)]
    · rename_i hn
      have hnil : segment.drop n = [] := List.drop_eq_nil_of_le (by omega)
      rw [ih, List.flatten_cons, List.drop_append, hnil, List.nil_append]

theorem dropBytes_zero {segments : List (List UInt8)} (h : [] ∉ segments) :
    dropBytes 0 segments = segments := by
  cases segments with
  | nil => rfl
  | cons segment rest =>
    have hne : segment ≠ [] := fun heq => h (heq ▸ List.mem_cons_self)
    have hpos : 0 < segment.length := List.length_pos_iff.mpr hne
    rw [dropBytes, if_pos hpos, List.drop_zero]

theorem dropBytes_dropBytes (m n : ℕ) {segments : List (List UInt8)} (h : [] ∉ segments) :
    dropBytes n (dropBytes m segments) = dropBytes (m + n) segments := by
  induction segments generalizing m with
  | nil => rfl
  | cons segment rest ih =>
    have hrest : [] ∉ rest := fun hmem => h (List.mem_cons_of_mem _ hmem)
    by_cases hm : m < segment.length
    · rw [dropBytes, if_pos hm, dropBytes, dropBytes]
      simp only [List.length_drop, List.drop_drop]
      by_cases hn : n < segment.length - m
      · rw [if_pos hn, if_pos (by omega)]
      · rw [if_neg hn, if_neg (by omega)]
        congr 1
        omega
    · rw [dropBytes, if_neg hm, ih _ hrest, dropBytes, if_neg (by omega)]
      congr 1
      omega

/-- Segments of one byte each stay so. -/
theorem length_of_mem_dropBytes {n : ℕ} {segments : List (List UInt8)}
    (h : ∀ segment ∈ segments, segment.length = 1) {segment : List UInt8}
    (hmem : segment ∈ dropBytes n segments) : segment.length = 1 := by
  induction segments generalizing n with
  | nil => exact absurd hmem List.not_mem_nil
  | cons first rest ih =>
    have hfirst := h first List.mem_cons_self
    have hrest : ∀ segment ∈ rest, segment.length = 1 :=
      fun segment hmem => h segment (List.mem_cons_of_mem _ hmem)
    unfold dropBytes at hmem
    split at hmem
    · rcases List.mem_cons.mp hmem with rfl | hmem
      · rw [List.length_drop]
        omega
      · exact hrest segment hmem
    · exact ih hrest hmem

namespace ReadHalf

theorem bytes_skip (n : ℕ) (s : ReadHalf) : (s.skip n).bytes = s.bytes.drop n :=
  flatten_dropBytes n s.segments

@[simp] theorem closed_skip (n : ℕ) (s : ReadHalf) : (s.skip n).closed = s.closed := rfl

theorem skip_zero (s : ReadHalf) : s.skip 0 = s := by
  obtain ⟨segments, nonempty, closed⟩ := s
  simp only [skip, dropBytes_zero nonempty]

theorem skip_skip (m n : ℕ) (s : ReadHalf) : (s.skip m).skip n = s.skip (m + n) := by
  obtain ⟨segments, nonempty, closed⟩ := s
  simp only [skip, dropBytes_dropBytes m n nonempty]

theorem segments_eq_nil_iff (s : ReadHalf) : s.segments = [] ↔ s.bytes = [] := by
  constructor
  · intro h
    rw [bytes, h]
    rfl
  · intro h
    cases hs : s.segments with
    | nil => rfl
    | cons segment rest =>
      rw [bytes, hs, List.flatten_cons, List.append_eq_nil_iff] at h
      exact absurd (hs ▸ h.1 ▸ List.mem_cons_self) s.nonempty

end ReadHalf

/-! ## Reads -/

namespace Receiver

variable {α β : Type}

theorem run_pure (a : α) (s : ReadHalf) : (pure a : Receiver α).run s = some (.ok a, s) := rfl

theorem run_bind_ok {x : Receiver α} {s s' : ReadHalf} {a : α} (h : x.run s = some (.ok a, s'))
    (f : α → Receiver β) : (x >>= f).run s = (f a).run s' := by
  show (x.run s >>= fun r => _) = _
  rw [h]
  rfl

theorem run_bind_error {x : Receiver α} {s s' : ReadHalf} {e : IoError}
    (h : x.run s = some (.error e, s')) (f : α → Receiver β) :
    (x >>= f).run s = some (.error e, s') := by
  show (x.run s >>= fun r => _) = _
  rw [h]
  rfl

theorem run_bind_none {x : Receiver α} {s : ReadHalf} (h : x.run s = none)
    (f : α → Receiver β) : (x >>= f).run s = none := by
  show (x.run s >>= fun r => _) = _
  rw [h]
  rfl

/-- How a function ends that comes to the end of the bytes. -/
def starved (s : ReadHalf) : Option (Except IoError α × ReadHalf) :=
  if s.closed then some (.error .unexpectedEof, s.skip s.bytes.length) else none

theorem starved_skip {s : ReadHalf} {n : ℕ} (h : n ≤ s.bytes.length) :
    (starved (s.skip n) : Option (Except IoError α × ReadHalf)) = starved s := by
  unfold starved
  rw [ReadHalf.closed_skip, s.bytes_skip, List.length_drop, s.skip_skip,
    Nat.add_sub_cancel' h]

/-- Nothing follows where the bytes have come to an end. -/
theorem run_bind_starved {x : Receiver α} {s t : ReadHalf} (h : x.run s = starved t)
    (f : α → Receiver β) : (x >>= f).run s = starved t := by
  unfold starved at h ⊢
  by_cases hclosed : t.closed
  · rw [if_pos hclosed] at h ⊢
    exact run_bind_error h f
  · rw [if_neg hclosed] at h ⊢
    exact run_bind_none h f

theorem run_read_cons {s : ReadHalf} {segment : List UInt8} {rest : List (List UInt8)}
    (h : s.segments = segment :: rest) (n : ℕ) :
    (read n).run s = some (.ok (segment.take n), s.skip (segment.take n).length) := by
  show (s.read n).map _ = _
  rw [ReadHalf.read, h]
  rfl

theorem run_read_nil {s : ReadHalf} (h : s.segments = []) (n : ℕ) :
    (read n).run s = if s.closed then some (.ok [], s) else none := by
  show (s.read n).map _ = _
  rw [ReadHalf.read, h]
  by_cases hclosed : s.closed
  · simp [hclosed]
  · simp [hclosed]

/-- **`read_exact`** takes its bytes from the front, whatever the segments. -/
theorem run_readExactLoop {fuel missing : ℕ} (hfuel : missing ≤ fuel) (s : ReadHalf) :
    (readExactLoop fuel missing).run s =
      if missing ≤ s.bytes.length then some (.ok (s.bytes.take missing), s.skip missing)
      else starved s := by
  induction fuel generalizing missing s with
  | zero =>
    obtain rfl : missing = 0 := by omega
    rw [readExactLoop, if_pos (Nat.zero_le _), List.take_zero, s.skip_zero]
    rfl
  | succ fuel ih =>
    cases missing with
    | zero =>
      rw [readExactLoop, if_pos (Nat.zero_le _), List.take_zero, s.skip_zero]
      rfl
    | succ missing =>
      rw [readExactLoop]
      cases hs : s.segments with
      | nil =>
        -- nothing left: end of file, or the loop waits
        have hbytes : s.bytes = [] := s.segments_eq_nil_iff.mp hs
        rw [hbytes, if_neg (by simp), starved, hbytes, List.length_nil, s.skip_zero]
        have hread := run_read_nil hs (missing + 1)
        by_cases hclosed : s.closed
        · rw [if_pos hclosed] at hread ⊢
          rw [run_bind_ok hread, if_pos rfl]
          rfl
        · rw [if_neg hclosed] at hread ⊢
          exact run_bind_none hread _
      | cons segment rest =>
        have hne : segment ≠ [] := fun heq => s.nonempty (hs ▸ heq ▸ List.mem_cons_self)
        have hpos : 0 < segment.length := List.length_pos_iff.mpr hne
        have hbytes : s.bytes = segment ++ rest.flatten := by
          rw [ReadHalf.bytes, hs, List.flatten_cons]
        have htake : segment.take (missing + 1) ≠ [] := by
          rw [Ne, List.take_eq_nil_iff]
          simp [hne]
        set k := (segment.take (missing + 1)).length with hk
        have hkmin : k = min (missing + 1) segment.length := by rw [hk, List.length_take]
        have hprefix : segment.take (missing + 1) = s.bytes.take k := by
          rw [hbytes, List.take_append_of_le_length (by omega), hkmin]
          by_cases hle : missing + 1 ≤ segment.length
          · rw [min_eq_left hle]
          · rw [min_eq_right (by omega), List.take_length, List.take_of_length_le (by omega)]
        have hlen : s.bytes.length = segment.length + rest.flatten.length := by
          rw [hbytes, List.length_append]
        rw [run_bind_ok (run_read_cons hs (missing + 1)), if_neg htake, ← hk]
        have hfewer : missing + 1 - k ≤ fuel := by omega
        have hrest := ih hfewer (s.skip k)
        rw [s.bytes_skip, List.length_drop] at hrest
        by_cases henough : missing + 1 ≤ s.bytes.length
        · rw [if_pos (by omega), s.skip_skip, Nat.add_sub_cancel' (by omega)] at hrest
          rw [if_pos henough, run_bind_ok hrest, run_pure, hprefix, ← List.take_add,
            Nat.add_sub_cancel' (by omega)]
        · rw [if_neg (by omega)] at hrest
          rw [if_neg henough, run_bind_starved hrest]
          exact starved_skip (by omega)

theorem run_readExact (n : ℕ) (s : ReadHalf) :
    (readExact n).run s =
      if n ≤ s.bytes.length then some (.ok (s.bytes.take n), s.skip n) else starved s :=
  run_readExactLoop (le_refl n) s

end Receiver

/-! ## The magic number -/

/-- The number of bytes up to the end of the first magic number. -/
def magicEnd : List UInt8 → Option ℕ
  | [] => none
  | b :: bytes =>
    if magicNumber.isPrefixOf (b :: bytes) then some 4 else (magicEnd bytes).map (· + 1)

theorem magicEnd_bounds {bytes : List UInt8} {p : ℕ} (h : magicEnd bytes = some p) :
    4 ≤ p ∧ p ≤ bytes.length := by
  induction bytes generalizing p with
  | nil => exact absurd h (by simp [magicEnd])
  | cons b bytes ih =>
    unfold magicEnd at h
    split at h
    · rename_i hmagic
      have hlen := (List.isPrefixOf_iff_prefix.mp hmagic).length_le
      cases h
      exact ⟨le_refl 4, hlen⟩
    · obtain ⟨q, hq, rfl⟩ := Option.map_eq_some_iff.mp h
      have hbounds := ih hq
      rw [List.length_cons]
      omega

theorem magicEnd_of_short {bytes : List UInt8} (h : bytes.length < 4) : magicEnd bytes = none := by
  cases hp : magicEnd bytes with
  | none => rfl
  | some p =>
    have hbounds := magicEnd_bounds hp
    omega

/-- A window of four bytes in front of the rest. -/
theorem magicEnd_window {window : List UInt8} (h : window.length = 4) (rest : List UInt8) :
    magicEnd (window ++ rest) =
      if window = magicNumber then some 4 else (magicEnd (window.drop 1 ++ rest)).map (· + 1) := by
  cases window with
  | nil => simp at h
  | cons b window =>
    have hmagic : magicNumber.isPrefixOf (b :: (window ++ rest)) = true ↔
        b :: window = magicNumber := by
      rw [List.isPrefixOf_iff_prefix, ← List.cons_append]
      constructor
      · intro hprefix
        exact ((List.prefix_of_prefix_length_le hprefix (List.prefix_append _ _)
          (by rw [h]; rfl)).eq_of_length (by rw [h]; rfl)).symm
      · intro heq
        exact heq ▸ List.prefix_append _ _
    rw [List.cons_append, magicEnd]
    by_cases heq : b :: window = magicNumber
    · rw [if_pos (hmagic.mpr heq), if_pos heq]
    · rw [if_neg (fun hc => heq (hmagic.mp hc)), if_neg heq]
      rfl

namespace Receiver

/-- The sliding window finds the first magic number in the window and the bytes behind it. -/
theorem run_magicLoop {fuel : ℕ} {window : List UInt8} (hwindow : window.length = 4)
    (s : ReadHalf) (hfuel : s.bytes.length < fuel) :
    (magicLoop fuel window).run s =
      match magicEnd (window ++ s.bytes) with
      | some p => some (.ok (), s.skip (p - 4))
      | none => starved s := by
  -- a byte is read in each round, so the fuel is more than the bytes left
  induction fuel generalizing window s with
  | zero => omega
  | succ fuel ih =>
    rw [magicLoop, magicEnd_window hwindow]
    by_cases hmagic : window = magicNumber
    · rw [if_pos hmagic, if_pos hmagic]
      simp only [Nat.sub_self, s.skip_zero]
      rfl
    · rw [if_neg hmagic, if_neg hmagic]
      have hread := run_readExact 1 s
      cases hbytes : s.bytes with
      | nil =>
        have hnone : magicEnd (window.drop 1 ++ []) = none :=
          magicEnd_of_short (by simp [hwindow])
        rw [hbytes, List.length_nil, if_neg (by omega)] at hread
        rw [hnone]
        exact run_bind_starved hread _
      | cons b rest =>
        rw [hbytes, List.length_cons, if_pos (by omega)] at hread
        have hskip : (s.skip 1).bytes = rest := by
          rw [s.bytes_skip, hbytes, List.drop_succ_cons, List.drop_zero]
        have hlength : (window.drop 1 ++ [b]).length = 4 := by simp [hwindow]
        have hrest := ih hlength (s.skip 1)
          (by rw [hskip]; rw [hbytes, List.length_cons] at hfuel; omega)
        rw [run_bind_ok hread]
        rw [hskip, List.append_assoc, List.singleton_append] at hrest
        show (magicLoop fuel (window.drop 1 ++ [b])).run (s.skip 1) = _
        rw [hrest]
        cases hp : magicEnd (window.drop 1 ++ b :: rest) with
        | none =>
          exact starved_skip (by rw [hbytes, List.length_cons]; omega)
        | some p =>
          have hbounds := magicEnd_bounds hp
          show some (_, (s.skip 1).skip (p - 4)) = some (_, s.skip (p + 1 - 4))
          rw [s.skip_skip]
          congr 3
          omega

/-- **`get_magic_number`** consumes the bytes up to the end of the first magic number. -/
theorem run_getMagicNumber (s : ReadHalf) :
    getMagicNumber.run s =
      match magicEnd s.bytes with
      | some p => some (.ok (), s.skip p)
      | none => starved s := by
  have hread := run_readExact 4 s
  unfold getMagicNumber
  by_cases hlen : 4 ≤ s.bytes.length
  · rw [if_pos hlen] at hread
    have hwindow : (s.bytes.take 4).length = 4 := by rw [List.length_take, min_eq_left hlen]
    have hloop := run_magicLoop hwindow (s.skip 4) (Nat.lt_succ_self _)
    rw [s.bytes_skip, List.take_append_drop] at hloop
    rw [run_bind_ok hread]
    show (magicLoop ((s.skip 4).bytes.length + 1) (s.bytes.take 4)).run (s.skip 4) = _
    rw [s.bytes_skip, hloop]
    cases hp : magicEnd s.bytes with
    | none => exact starved_skip hlen
    | some p =>
      have hbounds := magicEnd_bounds hp
      show some (_, (s.skip 4).skip (p - 4)) = some (_, s.skip p)
      rw [s.skip_skip, Nat.add_sub_cancel' hbounds.1]
  · rw [if_neg hlen] at hread
    rw [magicEnd_of_short (by omega)]
    exact run_bind_starved hread _

end Receiver

/-! ## Segment boundaries -/

/-- The places where one segment ends and the next one begins. -/
def cuts : List (List UInt8) → List ℕ
  | [] => []
  | [_] => []
  | segment :: next :: rest =>
    segment.length :: (cuts (next :: rest)).map (· + segment.length)

theorem cuts_cons {segment : List UInt8} {rest : List (List UInt8)} (h : rest ≠ []) :
    cuts (segment :: rest) = segment.length :: (cuts rest).map (· + segment.length) := by
  cases rest with
  | nil => exact absurd rfl h
  | cons next rest => rfl

/-- The boundaries left when `n` bytes are consumed. -/
theorem add_mem_cuts_of_dropBytes {n c : ℕ} {segments : List (List UInt8)}
    (h : c ∈ cuts (dropBytes n segments)) : c + n ∈ cuts segments := by
  induction segments generalizing n with
  | nil => exact absurd h List.not_mem_nil
  | cons segment rest ih =>
    have hrest : rest ≠ [] := by
      rintro rfl
      unfold dropBytes at h
      split at h
      · exact absurd h List.not_mem_nil
      · exact absurd h List.not_mem_nil
    rw [cuts_cons hrest, List.mem_cons, List.mem_map]
    unfold dropBytes at h
    split at h
    · rename_i hn
      rw [cuts_cons hrest, List.mem_cons, List.mem_map, List.length_drop] at h
      rcases h with rfl | ⟨c', hc', rfl⟩
      · exact Or.inl (by omega)
      · exact Or.inr ⟨c', hc', by omega⟩
    · exact Or.inr ⟨c + (n - segment.length), ih h, by omega⟩

theorem pos_of_mem_cuts {c : ℕ} {segments : List (List UInt8)} (hne : [] ∉ segments)
    (h : c ∈ cuts segments) : 0 < c := by
  cases segments with
  | nil => exact absurd h List.not_mem_nil
  | cons segment rest =>
    have hsegment : 0 < segment.length := by
      apply List.length_pos_iff.mpr
      rintro rfl
      exact hne List.mem_cons_self
    cases rest with
    | nil => exact absurd h List.not_mem_nil
    | cons next rest =>
      rw [cuts, List.mem_cons, List.mem_map] at h
      rcases h with rfl | ⟨c', _, rfl⟩
      · exact hsegment
      · omega

namespace ReadHalf

theorem read_progress {n : ℕ} {s s' : ReadHalf} {bytes : List UInt8}
    (h : s.read n = some (bytes, s')) : ∃ k, s' = s.skip k := by
  unfold read at h
  split at h
  · split at h
    · cases h
      exact ⟨0, (skip_zero _).symm⟩
    · cases h
  · cases h
    exact ⟨_, rfl⟩

/-- A read that meets no boundary gets all it asks for, as far as there is so much. -/
theorem read_of_cuts {n : ℕ} {s : ReadHalf} (h : ∀ c ∈ cuts s.segments, n ≤ c)
    (hs : s.bytes ≠ []) :
    s.read n = some (s.bytes.take n, s.skip (min n s.bytes.length)) := by
  cases hsegments : s.segments with
  | nil => exact absurd (s.segments_eq_nil_iff.mp hsegments) hs
  | cons segment rest =>
    have htake : segment.take n = s.bytes.take n := by
      rw [bytes, hsegments, List.flatten_cons]
      cases rest with
      | nil => rw [List.flatten_nil, List.append_nil]
      | cons next rest =>
        have hlen : n ≤ segment.length := by
          apply h
          rw [hsegments, cuts]
          exact List.mem_cons_self
        rw [List.take_append_of_le_length hlen]
    unfold read
    rw [hsegments]
    simp only [htake, List.length_take]

end ReadHalf

/-! ## Parsing bytes -/

/-- What the first bytes of a stream are: too little for a message, the header of a message
of unknown type, or a message. The latter two come with the bytes consumed. -/
inductive Parsed where
  | starved
  | unknown (consumed : ℕ)
  | request (request : Request) (consumed : ℕ)

/-- The bytes a message takes up. -/
def Parsed.consumed? : Parsed → Option ℕ
  | .starved => none
  | .unknown n => some n
  | .request _ n => some n

namespace Config

variable (config : Config)

/-- A message, from the four bytes behind the magic number on. -/
def parseBody (header rest : List UInt8) : Option Request :=
  let msgType := header.getD 3 0
  let data := magicNumber ++ header ++ rest.take (msgLen msgType + 32 - 8)
  match deserializeRegisterCommand data with
  | .error _ => none
  | .ok (command, _) => some
    { msgType, data, isVerified := config.verifies msgType data, command }

/-- The first message in a stream. -/
def parseRequest (bytes : List UInt8) : Parsed :=
  match magicEnd bytes with
  | none => .starved
  | some p =>
    if bytes.length < p + 4 then .starved
    else
      let header := (bytes.drop p).take 4
      let len := msgLen (header.getD 3 0)
      if len = 0 then .unknown (p + 4)
      else if bytes.length < p + 4 + (len + 32 - 8) then .starved
      else
        match config.parseBody header (bytes.drop (p + 4)) with
        | none => .unknown (p + 4 + (len + 32 - 8))
        | some request => .request request (p + 4 + (len + 32 - 8))

/-- All messages in a stream. -/
def parse : ℕ → List UInt8 → List Request
  | 0, _ => []
  | fuel + 1, bytes =>
    match config.parseRequest bytes with
    | .starved => []
    | .unknown n => parse fuel (bytes.drop n)
    | .request request n => request :: parse fuel (bytes.drop n)

/-- The places behind the magic numbers that are found. -/
def headers : ℕ → List UInt8 → List ℕ
  | 0, _ => []
  | fuel + 1, bytes =>
    match magicEnd bytes with
    | none => []
    | some p =>
      p :: match (config.parseRequest bytes).consumed? with
        | none => []
        | some n => (headers fuel (bytes.drop n)).map (· + n)

/-- No segment ends inside a header. -/
def HeadersWhole (s : ReadHalf) : Prop :=
  ∀ h ∈ config.headers (s.bytes.length + 1) s.bytes, ∀ c ∈ cuts s.segments,
    ¬ (h < c ∧ c < h + 4)

instance (s : ReadHalf) : Decidable (config.HeadersWhole s) :=
  inferInstanceAs (Decidable (∀ h ∈ config.headers (s.bytes.length + 1) s.bytes,
    ∀ c ∈ cuts s.segments, ¬ (h < c ∧ c < h + 4)))

/-! ## The code on whole headers -/

/-- A round of the loop that brings no request. -/
def Quiet (result : Except IoError (Option Request)) : Prop :=
  result = .ok none ∨ ∃ err, result = .error err

/-- What `readRequest` does about a message. -/
def Reads (s : ReadHalf) : Parsed → Prop
  | .request request n => config.readRequest.run s = some (.ok (some request), s.skip n)
  | .unknown n => ∃ result, Quiet result ∧ config.readRequest.run s = some (result, s.skip n)
  | .starved => (s.closed = false ∧ config.readRequest.run s = none) ∨
      ∃ result, Quiet result ∧
        config.readRequest.run s = some (result, s.skip s.bytes.length)

/-- What the code does when the magic number is read and it has come to the end. -/
theorem reads_of_starved {s : ReadHalf} (h : config.readRequest.run s = Receiver.starved s) :
    config.Reads s .starved := by
  unfold Receiver.starved at h
  by_cases hclosed : s.closed
  · rw [if_pos hclosed] at h
    exact Or.inr ⟨_, Or.inr ⟨_, rfl⟩, h⟩
  · rw [if_neg hclosed] at h
    exact Or.inl ⟨by simpa using hclosed, h⟩

/-- A short header leaves the last byte of the buffer at zero. -/
theorem getD_short_header {header : List UInt8} (h : header.length < 4) :
    (header ++ List.replicate (4 - header.length) 0).getD 3 0 = 0 := by
  match header, h with
  | [], _ => rfl
  | [_], _ => rfl
  | [_, _], _ => rfl
  | [_, _, _], _ => rfl

theorem run_readRequest {s t t' : ReadHalf} {header : List UInt8}
    (hmagic : Receiver.getMagicNumber.run s = some (.ok (), t))
    (hread : t.read 4 = some (header, t')) :
    config.readRequest.run s = (config.readMessage header).run t' := by
  have hread' : (Receiver.read 4).run t = some (.ok header, t') := by
    show (t.read 4).map _ = _
    rw [hread]
    rfl
  unfold readRequest
  rw [Receiver.run_bind_ok hmagic, Receiver.run_bind_ok hread']

theorem reads_parseRequest {s : ReadHalf}
    (hwhole : ∀ p ∈ magicEnd s.bytes, ∀ c ∈ cuts s.segments, ¬ (p < c ∧ c < p + 4)) :
    config.Reads s (config.parseRequest s.bytes) := by
  have hmagic := Receiver.run_getMagicNumber s
  unfold parseRequest
  cases hp : magicEnd s.bytes with
  | none =>
    rw [hp] at hmagic
    exact config.reads_of_starved (Receiver.run_bind_starved hmagic _)
  | some p =>
    rw [hp] at hmagic
    have hbounds := magicEnd_bounds hp
    have hbytes : (s.skip p).bytes = s.bytes.drop p := s.bytes_skip p
    have hlength : (s.skip p).bytes.length = s.bytes.length - p := by
      rw [hbytes, List.length_drop]
    -- no segment ends inside the header, so one `read` gets all of it that is there
    have hcuts : ∀ c ∈ cuts (s.skip p).segments, 4 ≤ c := by
      intro c hc
      have hpos := pos_of_mem_cuts (s.skip p).nonempty hc
      have hnot := hwhole p hp _ (add_mem_cuts_of_dropBytes hc)
      omega
    simp only
    by_cases hempty : (s.skip p).bytes = []
    · -- nothing behind the magic number
      have hlen : s.bytes.length = p := by
        rw [hempty, List.length_nil] at hlength
        omega
      have hsegments := (s.skip p).segments_eq_nil_iff.mpr hempty
      rw [if_pos (by omega)]
      by_cases hclosed : s.closed
      · have hread : (s.skip p).read 4 = some ([], s.skip p) := by
          rw [ReadHalf.read, hsegments]
          simp [hclosed]
        refine Or.inr ⟨.ok none, Or.inl rfl, ?_⟩
        rw [config.run_readRequest hmagic hread, hlen]
        rfl
      · refine Or.inl ⟨by simpa using hclosed, ?_⟩
        unfold readRequest
        rw [Receiver.run_bind_ok hmagic]
        apply Receiver.run_bind_none
        rw [Receiver.run_read_nil hsegments, if_neg (by simpa using hclosed)]
    · have hread := ReadHalf.read_of_cuts hcuts hempty
      rw [hlength, s.skip_skip] at hread
      have hrun := config.run_readRequest hmagic hread
      unfold readMessage at hrun
      by_cases hshort : s.bytes.length < p + 4
      · -- the bytes end inside the header
        rw [if_pos hshort]
        have hheader : ((s.skip p).bytes.take 4).length < 4 := by
          rw [List.length_take, hlength]
          omega
        refine Or.inr ⟨.ok none, Or.inl rfl, ?_⟩
        rw [hrun]
        simp only [getD_short_header hheader]
        have hmin : p + min 4 (s.bytes.length - p) = s.bytes.length := by omega
        rw [hmin]
        rfl
      · rw [if_neg hshort]
        have hheader : ((s.skip p).bytes.take 4).length = 4 := by
          rw [List.length_take, hlength]
          omega
        have hmin : p + min 4 (s.bytes.length - p) = p + 4 := by omega
        rw [hheader, Nat.sub_self, List.replicate_zero, List.append_nil, hmin, hbytes] at hrun
        -- a type without a length is skipped, with its header
        by_cases hunknown : msgLen (((s.bytes.drop p).take 4).getD 3 0) = 0
        · rw [if_pos hunknown]
          refine ⟨.ok none, Or.inl rfl, ?_⟩
          rw [hrun, if_pos hunknown]
          rfl
        · rw [if_neg hunknown]
          rw [if_neg hunknown] at hrun
          have hexact := Receiver.run_readExact
            (msgLen (((s.bytes.drop p).take 4).getD 3 0) + 32 - 8) (s.skip (p + 4))
          rw [s.bytes_skip, List.length_drop, s.skip_skip] at hexact
          -- `read_exact` waits for the rest of the message, or fails at the end of the stream
          by_cases hbody : s.bytes.length <
              p + 4 + (msgLen (((s.bytes.drop p).take 4).getD 3 0) + 32 - 8)
          · rw [if_pos hbody]
            rw [if_neg (by omega), Receiver.starved_skip (by omega)] at hexact
            exact config.reads_of_starved (hrun.trans (Receiver.run_bind_starved hexact _))
          · rw [if_neg hbody]
            rw [if_pos (by omega)] at hexact
            rw [Receiver.run_bind_ok hexact] at hrun
            dsimp only at hrun
            unfold parseBody
            simp only
            cases hcmd : deserializeRegisterCommand (magicNumber ++ (s.bytes.drop p).take 4 ++
                (s.bytes.drop (p + 4)).take (msgLen (((s.bytes.drop p).take 4).getD 3 0) + 32 - 8)) with
            | error err =>
              rw [hcmd] at hrun
              exact ⟨.error err, Or.inr ⟨err, rfl⟩, hrun⟩
            | ok x =>
              rw [hcmd] at hrun
              exact hrun

end Config

end Wire
end AtomicDiscDrive
