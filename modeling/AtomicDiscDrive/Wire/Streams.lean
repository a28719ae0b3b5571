import AtomicDiscDrive.Wire.Framing

/-!
# What a connection brings

The receive loop on a whole connection. With headers that are read whole, its result
depends on the bytes alone (`receive_eq_of_headersWhole`); on a stream of frames with
garbage between them it takes out exactly the frames (`receive_frames`).

Nothing goes wrong at the edges of the garbage because the magic number has no border: no
proper prefix of it is a suffix of it, so an occurrence cannot straddle the end of the
garbage (`magicEnd_garbage`).
-/

namespace AtomicDiscDrive
namespace Wire

open Utils

namespace Config

variable (config : Config)

/-! ## Progress -/

/-- A message that is found takes up at least eight bytes. -/
theorem consumed_bounds {bytes : List UInt8} {n : ℕ}
    (h : (config.parseRequest bytes).consumed? = some n) : 8 ≤ n ∧ n ≤ bytes.length := by
  unfold parseRequest at h
  cases hp : magicEnd bytes with
  | none =>
    rw [hp] at h
    cases h
  | some p =>
    have hbounds := magicEnd_bounds hp
    rw [hp] at h
    dsimp only at h
    split_ifs at h with hshort hunknown hbody
    · cases h
    · cases h
      omega
    · cases h
    · -- a message that cannot be deserialized takes up its bytes too
      cases hmsg : config.parseBody ((bytes.drop p).take 4) (bytes.drop (p + 4)) with
      | none =>
        rw [hmsg] at h
        cases h
        omega
      | some request =>
        rw [hmsg] at h
        cases h
        omega

theorem length_drop_lt {bytes : List UInt8} {n fuel : ℕ} (hn : 8 ≤ n ∧ n ≤ bytes.length)
    (hfuel : bytes.length < fuel + 1) : (bytes.drop n).length < fuel := by
  rw [List.length_drop]
  omega

theorem starved_progress {α : Type} {s s' : ReadHalf} {result : Except IoError α}
    (h : Receiver.starved s = some (result, s')) :
    s' = s.skip s.bytes.length ∧ ∃ err, result = .error err := by
  unfold Receiver.starved at h
  split at h
  · cases h
    exact ⟨rfl, _, rfl⟩
  · cases h

theorem readMessage_progress {header : List UInt8} {t t' : ReadHalf}
    {result : Except IoError (Option Request)}
    (h : (config.readMessage header).run t = some (result, t')) : ∃ n, t' = t.skip n := by
  unfold readMessage at h
  dsimp only at h
  split_ifs at h with hunknown
  · cases h
    exact ⟨0, (ReadHalf.skip_zero _).symm⟩
  · have hexact := Receiver.run_readExact
      (msgLen ((header ++ List.replicate (4 - header.length) 0).getD 3 0) + 32 - 8) t
    split_ifs at hexact with hlen
    · rw [Receiver.run_bind_ok hexact] at h
      split at h
      · cases h
        exact ⟨_, rfl⟩
      · cases h
        exact ⟨_, rfl⟩
    · rw [Receiver.run_bind_starved hexact] at h
      exact ⟨_, (starved_progress h).1⟩

/-- A round of the loop consumes at least a magic number, or all there is. -/
theorem readRequest_progress {s s' : ReadHalf} {result : Except IoError (Option Request)}
    (h : config.readRequest.run s = some (result, s')) :
    ∃ n, s' = s.skip n ∧ (4 ≤ n ∨ s.bytes.length ≤ n) := by
  have hmagic := Receiver.run_getMagicNumber s
  cases hp : magicEnd s.bytes with
  | none =>
    rw [hp] at hmagic
    have hstarved : config.readRequest.run s = Receiver.starved s :=
      Receiver.run_bind_starved hmagic _
    exact ⟨_, (starved_progress (hstarved.symm.trans h)).1, Or.inr (le_refl _)⟩
  | some p =>
    rw [hp] at hmagic
    have hbounds := magicEnd_bounds hp
    cases hread : (s.skip p).read 4 with
    | none =>
      have hnone : config.readRequest.run s = none := by
        unfold readRequest
        rw [Receiver.run_bind_ok hmagic]
        apply Receiver.run_bind_none
        show ((s.skip p).read 4).map _ = none
        rw [hread]
        rfl
      rw [h] at hnone
      cases hnone
    | some x =>
      obtain ⟨header, t⟩ := x
      obtain ⟨k, hk⟩ : ∃ k, t = (s.skip p).skip k := ReadHalf.read_progress hread
      rw [config.run_readRequest hmagic hread] at h
      obtain ⟨m, hm⟩ := config.readMessage_progress h
      refine ⟨p + k + m, ?_, Or.inl (by omega)⟩
      rw [hm, hk, s.skip_skip, s.skip_skip]

/-- The fuel of `handle_external_command` is enough. -/
theorem receiveLoop_fuel {fuel fuel' : ℕ} {s : ReadHalf} (hfuel : s.bytes.length < fuel)
    (hfuel' : s.bytes.length < fuel') :
    config.receiveLoop fuel s = config.receiveLoop fuel' s := by
  induction fuel generalizing fuel' s with
  | zero => omega
  | succ fuel ih =>
    cases fuel' with
    | zero => omega
    | succ fuel' =>
      rw [receiveLoop, receiveLoop]
      cases hsegments : s.segments with
      | nil => rfl
      | cons segment rest =>
        have hpos : 0 < s.bytes.length := by
          apply List.length_pos_iff.mpr
          intro hnil
          rw [s.segments_eq_nil_iff.mpr hnil] at hsegments
          cases hsegments
        cases hrun : config.readRequest.run s with
        | none => rfl
        | some x =>
          obtain ⟨result, s'⟩ := x
          -- every request takes bytes from the stream
          obtain ⟨n, rfl, hn⟩ := config.readRequest_progress hrun
          have hless : (s.skip n).bytes.length < s.bytes.length := by
            rw [s.bytes_skip, List.length_drop]
            omega
          have hrest : config.receiveLoop fuel (s.skip n) = config.receiveLoop fuel' (s.skip n) :=
            ih (by omega) (by omega)
          match result with
          | .ok (some request) => simp only [hrest]
          | .ok none => exact hrest
          | .error err => exact hrest

/-! ## The loop on whole headers -/

/-- How a connection ends. -/
def endingOf (closed : Bool) : Ending := if closed then .closed else .waiting

theorem receiveLoop_of_nil {s : ReadHalf} (h : s.bytes = []) {fuel : ℕ} (hfuel : 0 < fuel) :
    config.receiveLoop fuel s = ⟨[], endingOf s.closed⟩ := by
  cases fuel with
  | zero => omega
  | succ fuel =>
    rw [receiveLoop, s.segments_eq_nil_iff.mpr h]
    rfl

/-- A round that brings no request. -/
theorem receiveLoop_of_quiet {s s' : ReadHalf} {result : Except IoError (Option Request)}
    (hs : s.segments ≠ []) (hquiet : Quiet result)
    (h : config.readRequest.run s = some (result, s')) (fuel : ℕ) :
    config.receiveLoop (fuel + 1) s = config.receiveLoop fuel s' := by
  rw [receiveLoop]
  cases hsegments : s.segments with
  | nil => exact absurd hsegments hs
  | cons segment rest =>
    rw [h]
    rcases hquiet with rfl | ⟨err, rfl⟩
    · rfl
    · rfl

/-- With whole headers the loop computes `parse` of the bytes. -/
theorem receiveLoop_eq_parse {fuel : ℕ} {s : ReadHalf} (hfuel : s.bytes.length < fuel)
    (hwhole : ∀ h ∈ config.headers fuel s.bytes, ∀ c ∈ cuts s.segments, ¬ (h < c ∧ c < h + 4)) :
    config.receiveLoop fuel s = ⟨config.parse fuel s.bytes, endingOf s.closed⟩ := by
  induction fuel generalizing s with
  | zero => omega
  | succ fuel ih =>
    by_cases hempty : s.bytes = []
    · rw [config.receiveLoop_of_nil hempty (Nat.succ_pos _), hempty]
      rfl
    · have hsegments : s.segments ≠ [] := fun h => hempty (s.segments_eq_nil_iff.mp h)
      have hpos : 0 < s.bytes.length := List.length_pos_iff.mpr hempty
      have hreads := config.reads_parseRequest (s := s) (by
        intro p hp c hc
        apply hwhole p _ c hc
        rw [headers, hp]
        exact List.mem_cons_self)
      -- what is left after `n` bytes has whole headers too
      have hrest : ∀ n, (config.parseRequest s.bytes).consumed? = some n →
          config.receiveLoop fuel (s.skip n) =
            ⟨config.parse fuel (s.bytes.drop n), endingOf s.closed⟩ := by
        intro n hn
        have hbounds := config.consumed_bounds hn
        have hlength : (s.skip n).bytes.length < fuel := by
          rw [s.bytes_skip]
          exact length_drop_lt hbounds hfuel
        rw [ih hlength, s.bytes_skip, ReadHalf.closed_skip]
        intro h hh c hc
        rw [s.bytes_skip] at hh
        have hmem : h + n ∈ config.headers (fuel + 1) s.bytes := by
          rw [headers]
          cases hp : magicEnd s.bytes with
          | none =>
            rw [parseRequest, hp] at hn
            cases hn
          | some p =>
            apply List.mem_cons_of_mem
            rw [hn]
            exact List.mem_map.mpr ⟨h, hh, rfl⟩
        have hnot := hwhole _ hmem _ (add_mem_cuts_of_dropBytes hc)
        omega
      rw [parse]
      cases hparsed : config.parseRequest s.bytes with
      | starved =>
        rw [hparsed] at hreads
        rcases hreads with ⟨hclosed, hnone⟩ | ⟨result, hquiet, hrun⟩
        · rw [receiveLoop]
          cases hseg : s.segments with
          | nil => exact absurd hseg hsegments
          | cons segment rest =>
            rw [hnone, endingOf, hclosed]
            rfl
        · rw [config.receiveLoop_of_quiet hsegments hquiet hrun,
            config.receiveLoop_of_nil (by rw [s.bytes_skip, List.drop_length]) (by omega)]
          rfl
      | unknown n =>
        rw [hparsed] at hreads
        obtain ⟨result, hquiet, hrun⟩ := hreads
        rw [config.receiveLoop_of_quiet hsegments hquiet hrun, hrest n (by rw [hparsed]; rfl)]
      | request request n =>
        rw [hparsed] at hreads
        have hloop := hrest n (by rw [hparsed]; rfl)
        rw [receiveLoop]
        cases hseg : s.segments with
        | nil => exact absurd hseg hsegments
        | cons segment rest =>
          have hrun : config.readRequest.run s = some (.ok (some request), s.skip n) := hreads
          rw [hrun]
          simp only [hloop]

theorem handleExternalCommand_eq_parse {s : ReadHalf} (hwhole : config.HeadersWhole s) :
    config.handleExternalCommand s =
      ⟨config.parse (s.bytes.length + 1) s.bytes, endingOf s.closed⟩ :=
  config.receiveLoop_eq_parse (Nat.lt_succ_self _) hwhole

/-! ## Short reads -/

/-- A header that is not read whole makes the message one of unknown type. -/
theorem readRequest_of_bytewise {s s' : ReadHalf} {result : Except IoError (Option Request)}
    (hs : ∀ segment ∈ s.segments, segment.length = 1)
    (h : config.readRequest.run s = some (result, s')) : Quiet result := by
  have hmagic := Receiver.run_getMagicNumber s
  cases hp : magicEnd s.bytes with
  | none =>
    rw [hp] at hmagic
    have hstarved : config.readRequest.run s = Receiver.starved s :=
      Receiver.run_bind_starved hmagic _
    exact Or.inr (starved_progress (hstarved.symm.trans h)).2
  | some p =>
    rw [hp] at hmagic
    cases hsegments : (s.skip p).segments with
    | nil =>
      by_cases hclosed : s.closed
      · have hread : (s.skip p).read 4 = some ([], s.skip p) := by
          rw [ReadHalf.read, hsegments]
          simp [hclosed]
        have hrun := config.run_readRequest hmagic hread
        rw [h] at hrun
        cases hrun
        exact Or.inl rfl
      · have hnone : config.readRequest.run s = none := by
          unfold readRequest
          rw [Receiver.run_bind_ok hmagic]
          apply Receiver.run_bind_none
          rw [Receiver.run_read_nil hsegments, if_neg (by simpa using hclosed)]
        rw [h] at hnone
        cases hnone
    | cons segment rest =>
      have hlen : segment.length = 1 :=
        length_of_mem_dropBytes hs (hsegments ▸ List.mem_cons_self)
      -- `read` returns the one byte it gets, and the header behind it is taken to be zeros
      have hread : (s.skip p).read 4 = some (segment.take 4, s.skip (p + (segment.take 4).length)) := by
        rw [ReadHalf.read, hsegments, ← s.skip_skip]
      have hrun := config.run_readRequest hmagic hread
      have hshort : (segment.take 4).length < 4 := by
        rw [List.length_take]
        omega
      unfold readMessage at hrun
      simp only [getD_short_header hshort] at hrun
      rw [h] at hrun
      cases hrun
      exact Or.inl rfl

/-- Bytes that come one by one bring no request at all. -/
theorem receiveLoop_of_bytewise {fuel : ℕ} {s : ReadHalf}
    (hs : ∀ segment ∈ s.segments, segment.length = 1) :
    (config.receiveLoop fuel s).requests = [] := by
  induction fuel generalizing s with
  | zero => rfl
  | succ fuel ih =>
    rw [receiveLoop]
    cases hsegments : s.segments with
    | nil => rfl
    | cons segment rest =>
      cases hrun : config.readRequest.run s with
      | none => rfl
      | some x =>
        obtain ⟨result, s'⟩ := x
        have hquiet := config.readRequest_of_bytewise hs hrun
        obtain ⟨n, rfl, -⟩ := config.readRequest_progress hrun
        have hrest := ih (s := s.skip n) (fun segment hmem => length_of_mem_dropBytes hs hmem)
        rcases hquiet with rfl | ⟨err, rfl⟩
        · exact hrest
        · exact hrest

/-- **Segmentation.** Two connections that bring the same bytes and do not cut a header
apart bring the same requests with the same verdicts, and end in the same way. Where there
is a request to be brought, this is lost when the bytes come one by one. -/
theorem receive_eq_of_headersWhole {s t : ReadHalf} (hbytes : s.bytes = t.bytes)
    (hclosed : s.closed = t.closed) :
    (config.HeadersWhole s → config.HeadersWhole t →
      config.handleExternalCommand s = config.handleExternalCommand t) ∧
    ((config.handleExternalCommand s).requests ≠ [] →
      (∀ segment ∈ t.segments, segment.length = 1) →
      config.handleExternalCommand s ≠ config.handleExternalCommand t) := by
  constructor
  · intro hs ht
    rw [config.handleExternalCommand_eq_parse hs, config.handleExternalCommand_eq_parse ht,
      hbytes, hclosed]
  · intro hs ht heq
    apply hs
    rw [heq]
    exact config.receiveLoop_of_bytewise ht

/-- A configuration to try things out: the tag of a message is the key. -/
def sample : Config :=
  { hmac := fun key _ => key
    hmacSystemKey := List.replicate 64 2
    hmacClientKey := List.replicate 32 1
    maxSector := 10 }

/-- A READ as a client sends it under `sample`. -/
def sampleRead : List UInt8 :=
  serializeRegisterCommand (.client ⟨⟨7, 3⟩, .read⟩) ++ List.replicate 32 1

/-- The READ in one segment. -/
def sampleWhole : ReadHalf := ⟨[sampleRead], by decide, true⟩

/-- The READ in two segments, with a boundary at a given place. -/
def sampleCut (n : ℕ) (h : [] ∉ [sampleRead.take n, sampleRead.drop n]) : ReadHalf :=
  ⟨[sampleRead.take n, sampleRead.drop n], h, true⟩

/-- A boundary behind the header does no harm. -/
theorem receive_cut_behind_header :
    sample.handleExternalCommand sampleWhole =
      sample.handleExternalCommand (sampleCut 20 (by decide)) :=
  (sample.receive_eq_of_headersWhole (by decide) rfl).1 (by decide +kernel) (by decide +kernel)

/-- A boundary inside the header loses the request. -/
theorem receive_cut_in_header :
    ¬ ∀ (config : Config) (s t : ReadHalf), s.bytes = t.bytes → s.closed = t.closed →
      config.handleExternalCommand s = config.handleExternalCommand t := by
  intro h
  have heq := h sample sampleWhole (sampleCut 6 (by decide)) (by decide) rfl
  have hwhole : (sample.handleExternalCommand sampleWhole).requests.length = 1 := by
    decide +kernel
  have hcut : (sample.handleExternalCommand (sampleCut 6 (by decide))).requests.length = 0 := by
    decide +kernel
  rw [heq, hcut] at hwhole
  cases hwhole

end Config

/-! ## Garbage -/

/-- The magic number is not found before its place: it has no border. -/
theorem not_magic_prefix {garbage : List UInt8} (hne : garbage ≠ [])
    (h : ¬ magicNumber <:+: garbage) (rest : List UInt8) :
    ¬ magicNumber <+: garbage ++ (magicNumber ++ rest) := by
  intro hprefix
  match garbage, hne with
  | [a], _ => simp [magicNumber] at hprefix
  | [a, b], _ => simp [magicNumber] at hprefix
  | [a, b, c], _ => simp [magicNumber] at hprefix
  | a :: b :: c :: d :: garbage, _ =>
    apply h
    apply List.IsPrefix.isInfix
    exact List.prefix_of_prefix_length_le hprefix (List.prefix_append _ _) (by simp [magicNumber])

theorem magicEnd_garbage {garbage : List UInt8} (h : ¬ magicNumber <:+: garbage)
    (rest : List UInt8) :
    magicEnd (garbage ++ (magicNumber ++ rest)) = some (garbage.length + 4) := by
  induction garbage with
  | nil => rfl
  | cons b garbage ih =>
    have htail : ¬ magicNumber <:+: garbage := fun hinf => h (hinf.trans (List.suffix_cons b garbage).isInfix)
    have hnot := not_magic_prefix (List.cons_ne_nil b garbage) h rest
    rw [List.cons_append, magicEnd, if_neg, ih htail]
    · simp only [Option.map_some, List.length_cons, Nat.add_right_comm]
    · rw [List.isPrefixOf_iff_prefix]
      exact hnot

/-! ## Frames -/

/-- The message type of a command. -/
def msgTypeOf : RegisterCommand → UInt8
  | .client cmd => clientMsgType cmd.content
  | .system cmd => systemMsgType cmd.content

/-- The receiver's table of lengths agrees with the serializer. -/
theorem length_serialize {cmd : RegisterCommand} (h : FullPayload cmd) :
    (serializeRegisterCommand cmd).length = msgLen (msgTypeOf cmd) := by
  obtain ⟨header, content⟩ | ⟨header, content⟩ := cmd
  · simp only [serializeRegisterCommand, serializeClientCommand, List.length_append,
      length_u64ToBeBytes, magicNumber, List.length_cons, List.length_nil]
    cases content with
    | read => rfl
    | write data =>
      have hdata : data.bytes.length = sectorVecSize := h data rfl
      have hlen : msgLen MsgType.write = 24 + sectorVecSize := by decide
      show _ = msgLen MsgType.write
      simp only [hdata, hlen]
      omega
  · simp only [serializeRegisterCommand, serializeSystemCommand, List.length_append,
      length_u64ToBeBytes, length_uuidAsBytes, magicNumber, List.length_cons, List.length_nil]
    cases content with
    | readProc => rfl
    | value timestamp writeRank data =>
      have hlen : msgLen MsgType.value = 40 + 16 + sectorVecSize := by decide
      show _ = msgLen MsgType.value
      simp only [length_serializeTagged (h data rfl), hlen]
      omega
    | writeProc timestamp writeRank data =>
      have hlen : msgLen MsgType.writeProc = 40 + 16 + sectorVecSize := by decide
      show _ = msgLen MsgType.writeProc
      simp only [length_serializeTagged (h data rfl), hlen]
      omega
    | ack => rfl

theorem le_msgLen (cmd : RegisterCommand) : 24 ≤ msgLen (msgTypeOf cmd) := by
  obtain ⟨header, content⟩ | ⟨header, content⟩ := cmd
  · cases content <;> simp only [msgTypeOf, clientMsgType] <;> decide
  · cases content <;> simp only [msgTypeOf, systemMsgType] <;> decide

/-- A message starts with the magic number and four bytes, the last of which is its type. -/
theorem serialize_header (cmd : RegisterCommand) :
    ∃ header body, serializeRegisterCommand cmd = magicNumber ++ header ++ body ∧
      header.length = 4 ∧ header.getD 3 0 = msgTypeOf cmd := by
  cases cmd with
  | client cmd =>
    refine ⟨[0, 0, 0, clientMsgType cmd.content], (serializeClientCommand cmd).drop 4, ?_, rfl, rfl⟩
    simp [serializeRegisterCommand, serializeClientCommand]
  | system cmd =>
    refine ⟨[0, 0, cmd.header.processIdentifier, systemMsgType cmd.content],
      (serializeSystemCommand cmd).drop 4, ?_, rfl, rfl⟩
    simp [serializeRegisterCommand, serializeSystemCommand]

/-- A command as it is sent, with its tag, behind bytes that are not part of any command. -/
structure Frame where
  garbage : List UInt8
  command : RegisterCommand
  tag : List UInt8
  clean : ¬ magicNumber <:+: garbage
  full : FullPayload command
  length_tag : tag.length = 32

namespace Frame

/-- The message and its tag. -/
def message (f : Frame) : List UInt8 := serializeRegisterCommand f.command ++ f.tag

def bytes (f : Frame) : List UInt8 := f.garbage ++ f.message

theorem length_message (f : Frame) : f.message.length = msgLen (msgTypeOf f.command) + 32 := by
  rw [message, List.length_append, length_serialize f.full, f.length_tag]

end Frame

namespace Config

variable (config : Config)

/-- The key for the class of a command. -/
def keyOf : RegisterCommand → List UInt8
  | .client _ => config.hmacClientKey
  | .system _ => config.hmacSystemKey

theorem hmacKey_msgTypeOf (cmd : RegisterCommand) :
    config.hmacKey (msgTypeOf cmd) = config.keyOf cmd := by
  obtain ⟨header, content⟩ | ⟨header, content⟩ := cmd
  · cases content <;> rfl
  · cases content <;> rfl

/-- The tag of a frame verifies. -/
def Authentic (f : Frame) : Prop :=
  config.hmac (config.keyOf f.command) (serializeRegisterCommand f.command) = f.tag

instance (f : Frame) : Decidable (config.Authentic f) :=
  inferInstanceAs (Decidable (_ = _))

/-- The sector of a client command is below the limit. -/
def InRange : RegisterCommand → Prop
  | .client cmd => cmd.header.sectorIdx < config.maxSector
  | .system _ => True

instance (cmd : RegisterCommand) : Decidable (config.InRange cmd) := by
  cases cmd <;> dsimp only [InRange] <;> infer_instance

/-- The request a frame is read as. -/
def requestOf (f : Frame) : Request :=
  { msgType := msgTypeOf f.command
    data := f.message
    isVerified := decide (config.Authentic f)
    command := f.command }

theorem verifies_message (f : Frame) :
    config.verifies (msgTypeOf f.command) f.message = decide (config.Authentic f) := by
  unfold verifies Authentic Frame.message
  rw [← length_serialize f.full, List.take_left, List.drop_left, config.hmacKey_msgTypeOf]
  exact decide_eq_decide.mpr Iff.rfl

/-- The first frame of a stream is found, and nothing else is consumed. -/
theorem parseRequest_frame (f : Frame) (rest : List UInt8) :
    config.parseRequest (f.bytes ++ rest) = .request (config.requestOf f) f.bytes.length := by
  obtain ⟨header, body, hserialize, hheader, htype⟩ := serialize_header f.command
  have hmessage : f.message = magicNumber ++ (header ++ (body ++ f.tag)) := by
    rw [Frame.message, hserialize]
    simp only [List.append_assoc]
  have hbytes : f.bytes ++ rest =
      f.garbage ++ (magicNumber ++ (header ++ (body ++ f.tag ++ rest))) := by
    rw [Frame.bytes, hmessage]
    simp only [List.append_assoc]
  have hmagic := magicEnd_garbage f.clean (header ++ (body ++ f.tag ++ rest))
  have hlength := f.length_message
  have hle := le_msgLen f.command
  have hfour : magicNumber.length = 4 := rfl
  have hbody : (body ++ f.tag).length = msgLen (msgTypeOf f.command) + 32 - 8 := by
    rw [hmessage, List.length_append, List.length_append, hheader, hfour] at hlength
    omega
  have htotal : f.bytes.length = f.garbage.length + 4 + 4 +
      (msgLen (msgTypeOf f.command) + 32 - 8) := by
    rw [Frame.bytes, List.length_append, hlength]
    omega
  have hdrop : (f.bytes ++ rest).drop (f.garbage.length + 4) =
      header ++ (body ++ f.tag ++ rest) := by
    rw [hbytes, ← List.append_assoc, List.drop_left' (by rw [List.length_append, hfour])]
  have hdrop' : (f.bytes ++ rest).drop (f.garbage.length + 4 + 4) = body ++ f.tag ++ rest := by
    rw [← List.drop_drop, hdrop, List.drop_left' hheader]
  have htake : (header ++ (body ++ f.tag ++ rest)).take 4 = header := List.take_left' hheader
  have hlen : (f.bytes ++ rest).length = f.bytes.length + rest.length := List.length_append
  have hdata : magicNumber ++ header ++
      (body ++ f.tag ++ rest).take (msgLen (msgTypeOf f.command) + 32 - 8) = f.message := by
    rw [List.take_left' hbody, hmessage]
    simp only [List.append_assoc]
  have hparse : config.parseBody header (body ++ f.tag ++ rest) = some (config.requestOf f) := by
    unfold parseBody
    simp only [htype, hdata, config.verifies_message]
    rw [Frame.message, deserialize_serialize f.command f.full f.tag]
    rfl
  unfold parseRequest
  rw [← hbytes] at hmagic
  rw [hmagic]
  simp only [hdrop, hdrop', htake, htype, hparse]
  rw [if_neg (by omega), if_neg (by omega), if_neg (by omega), htotal]

/-- The bytes of a list of frames. -/
def stream (frames : List Frame) : List UInt8 := (frames.map Frame.bytes).flatten

theorem parse_stream (frames : List Frame) {fuel : ℕ} (hfuel : (stream frames).length < fuel) :
    config.parse fuel (stream frames) = frames.map config.requestOf := by
  induction frames generalizing fuel with
  | nil =>
    cases fuel with
    | zero => omega
    | succ fuel => rfl
  | cons f frames ih =>
    cases fuel with
    | zero => omega
    | succ fuel =>
      have hstream : stream (f :: frames) = f.bytes ++ stream frames := rfl
      have hlength : 32 ≤ f.bytes.length := by
        rw [Frame.bytes, List.length_append, f.length_message]
        omega
      rw [hstream, List.length_append] at hfuel
      rw [hstream, parse, config.parseRequest_frame]
      simp only [List.drop_left, List.map_cons]
      rw [ih (by omega)]

theorem executed_requestOf (f : Frame) :
    config.executed (config.requestOf f) =
      if config.Authentic f ∧ config.InRange f.command then some f.command else none := by
  obtain ⟨garbage, cmd, tag, clean, full, hlen⟩ := f
  cases cmd with
  | system cmd =>
    by_cases hauth : config.Authentic ⟨garbage, .system cmd, tag, clean, full, hlen⟩
    · simp [executed, effect, requestOf, InRange, hauth]
    · simp [executed, effect, requestOf, hauth]
  | client cmd =>
    by_cases hauth : config.Authentic ⟨garbage, .client cmd, tag, clean, full, hlen⟩
    · by_cases hrange : cmd.header.sectorIdx < config.maxSector
      · have hlt : ¬ config.maxSector ≤ cmd.header.sectorIdx := UInt64.not_le.mpr hrange
        simp [executed, effect, requestOf, InRange, hauth, hrange, hlt]
      · have hle : config.maxSector ≤ cmd.header.sectorIdx := UInt64.not_lt.mp hrange
        simp [executed, effect, requestOf, InRange, hauth, hrange, hle]
    · simp [executed, effect, requestOf, hauth]

theorem filterMap_executed (frames : List Frame) :
    (frames.map config.requestOf).filterMap config.executed =
      (frames.filter fun f => config.Authentic f ∧ config.InRange f.command).map
        Frame.command := by
  induction frames with
  | nil => rfl
  | cons f frames ih =>
    rw [List.map_cons, List.filterMap_cons, config.executed_requestOf, List.filter_cons]
    by_cases h : config.Authentic f ∧ config.InRange f.command
    · rw [if_pos h, if_pos (by simpa using h), List.map_cons]
      exact congrArg _ ih
    · rw [if_neg h, if_neg (by simpa using h)]
      exact ih

/-- **Framing.** Of a stream of frames and garbage that is read with full buffers, the loop
takes out the frames, each with its own bytes. The commands it hands to the executor are
those of the authentic frames, in order, less the client commands on sectors that do not
exist. -/
theorem receive_frames (frames : List Frame) {s : ReadHalf} (hs : s.bytes = stream frames)
    (hwhole : config.HeadersWhole s) :
    config.handleExternalCommand s = ⟨frames.map config.requestOf, endingOf s.closed⟩ ∧
    (config.handleExternalCommand s).requests.filterMap config.executed =
      (frames.filter fun f => config.Authentic f ∧ config.InRange f.command).map
        Frame.command := by
  have hparse : config.handleExternalCommand s =
      ⟨frames.map config.requestOf, endingOf s.closed⟩ := by
    rw [config.handleExternalCommand_eq_parse hwhole, hs,
      config.parse_stream frames (Nat.lt_succ_self _)]
  refine ⟨hparse, ?_⟩
  rw [hparse]
  exact config.filterMap_executed frames

/-- A READ behind the first bytes of a magic number, and the same READ with a wrong tag. -/
def sampleFrames : List Frame :=
  [⟨[0x61, 0x74, 0x64], .client ⟨⟨7, 3⟩, .read⟩, List.replicate 32 1, by decide, by decide, rfl⟩,
    ⟨[0x64], .client ⟨⟨8, 3⟩, .read⟩, List.replicate 32 0, by decide, by decide, rfl⟩]

/-- Only the first READ is executed. -/
theorem receive_sampleFrames :
    (sample.handleExternalCommand ⟨[stream sampleFrames], by decide, true⟩).requests.filterMap
      sample.executed = [.client ⟨⟨7, 3⟩, .read⟩] :=
  (sample.receive_frames sampleFrames (s := ⟨[stream sampleFrames], by decide, true⟩)
    (by decide) (by decide +kernel)).2.trans (by decide +kernel)

end Config

end Wire
end AtomicDiscDrive
