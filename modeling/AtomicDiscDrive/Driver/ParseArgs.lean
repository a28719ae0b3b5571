import AtomicDiscDrive.Utils.Runs
import AtomicDiscDrive.Driver.TcpClient

/-!
# The driver's parameters

`parse_atdd_addrs` of `parse_args.c` reads the module's parameter, a list such as
`10.0.0.1:8000,10.0.0.2:8000`. It moves two pointers over the string and puts a zero behind
each part it has found, so that `in_aton` and `kstrtoint` find the end of it. Both of these
belong to the kernel and are parameters here.

The addresses go to an array of `MAX_PROCESSES` entries. A write behind it is the end of
the model's run, `outOfBounds`: what the code does from there on is not defined.

The string is scanned as memory. `ReadsTo` tells what becomes of a text in terms of its
items, one rule for each way the scanner goes on, and `leaves_of_readsTo` is the one lemma
about the pointers.

The other parameter is the key, in hexadecimal digits: `parse_hmac_key`.
-/

namespace AtomicDiscDrive
namespace Driver

open Utils

/-! ## The scanner -/

/-- `MAX_PROCESSES`. -/
def maxProcesses : ℕ := 32

/-- `':'` -/
def colon : UInt8 := 0x3a

/-- `','` -/
def comma : UInt8 := 0x2c

/-- A string that ends at its first zero. -/
structure CString where
  chars : List UInt8
  noNul : 0 ∉ chars

/-- `struct tcp_addr_info`. -/
structure TcpAddrInfo where
  ipAddr : UInt32
  port : Int
deriving DecidableEq

/-- What `parse_atdd_addrs` writes to `struct atdd_client_config`. -/
structure AddrsConfig where
  atddAddrs : List TcpAddrInfo
  addrsCount : ℕ
deriving DecidableEq

/-- How a call of `parse_atdd_addrs` ends. -/
inductive ParseResult where
  | ok (config : AddrsConfig)
  | error (err : Errno)
  /-- `addrs[k]` is behind the array -/
  | outOfBounds (k : ℕ)
deriving DecidableEq

/-- The local variables of `parse_atdd_addrs`, and the memory its pointers go over. -/
structure Scan where
  memory : List UInt8
  addrs : ℕ → TcpAddrInfo
  i : ℕ
  addrsCount : ℕ
  parseBegin : ℕ
  parseEnd : ℕ

namespace Scan

/-- `*parse_end`. -/
def char (s : Scan) : UInt8 :=
  s.memory.getD s.parseEnd 0

/-- The string that `parse_begin` points to. -/
def part (s : Scan) : List UInt8 :=
  (s.memory.drop s.parseBegin).takeWhile (· ≠ 0)

/-- `*parse_end = '\0'`. -/
def cut (s : Scan) : Scan :=
  { s with memory := s.memory.set s.parseEnd 0 }

/-- `parse_end++`, and the next part begins. -/
def next (s : Scan) (i : ℕ) : Scan :=
  { s with i, parseBegin := s.parseEnd + 1, parseEnd := s.parseEnd + 1 }

section

variable (inAton : List UInt8 → UInt32) (kstrtoint : List UInt8 → Except Errno Int)

/-- `addrs[addrs_count].ip_addr = in_aton(parse_begin)`. -/
def putAddr (s : Scan) : ParseResult ⊕ Scan :=
  if s.addrsCount < maxProcesses then
    .inr { s with
      addrs := Function.update s.addrs s.addrsCount
        { s.addrs s.addrsCount with ipAddr := inAton s.part } }
  else .inl (.outOfBounds s.addrsCount)

/-- `kstrtoint(parse_begin, 10, &(addrs[addrs_count++].port))`. -/
def putPort (s : Scan) : ParseResult ⊕ Scan :=
  if s.addrsCount < maxProcesses then
    match kstrtoint s.part with
    | .error err => .inl (.error err)
    | .ok port =>
      .inr { s with
        addrs := Function.update s.addrs s.addrsCount { s.addrs s.addrsCount with port }
        addrsCount := s.addrsCount + 1 }
  else .inl (.outOfBounds s.addrsCount)

/-- What is written to the configuration. -/
def config (s : Scan) : AddrsConfig :=
  { atddAddrs := (List.range s.addrsCount).map s.addrs
    addrsCount := s.addrsCount }

/-- A round of the loop. -/
def round (s : Scan) : ParseResult ⊕ Scan :=
  if s.char = colon ∧ s.i = 0 then
    match s.cut.putAddr inAton with
    | .inl r => .inl r
    | .inr s => .inr (s.next 1)
  else if s.char = comma ∧ s.i = 1 then
    match s.cut.putPort kstrtoint with
    | .inl r => .inl r
    | .inr s => .inr (s.next 0)
  else if s.char = 0 ∧ s.i = 1 then
    match s.putPort kstrtoint with
    | .inl r => .inl r
    | .inr s => .inl (.ok s.config)
  else if s.char = 0 then .inl (.error .einval)
  else if s.addrsCount > maxProcesses then .inl (.error .einval)
  else .inr { s with parseEnd := s.parseEnd + 1 }

end

/-- The start of `parse_atdd_addrs`. What the array holds is arbitrary. -/
def start (stack : ℕ → TcpAddrInfo) (desc : CString) : Scan :=
  { memory := desc.chars ++ [0]
    addrs := stack
    i := 0
    addrsCount := 0
    parseBegin := 0
    parseEnd := 0 }

end Scan

section

variable (inAton : List UInt8 → UInt32) (kstrtoint : List UInt8 → Except Errno Int)

/-- `parse_atdd_addrs` ends, with this result. -/
def ParseAtddAddrs (stack : ℕ → TcpAddrInfo) (desc : CString) (r : ParseResult) : Prop :=
  Leaves (Scan.round inAton kstrtoint) (Scan.start stack desc) r

/-! ## The language -/

/-- An item `addr:port`. -/
structure AddrItem where
  addr : List UInt8
  port : List UInt8
  noColon : colon ∉ addr
  noComma : comma ∉ port

/-- The text of an item. -/
def AddrItem.text (item : AddrItem) : List UInt8 :=
  item.addr ++ colon :: item.port

/-- The port of an item is accepted, and the entry holds what the item says. -/
def AddrItem.Gives (item : AddrItem) (info : TcpAddrInfo) : Prop :=
  inAton item.addr = info.ipAddr ∧ kstrtoint item.port = .ok info.port

/-- The text is a list of items, separated by commas, with accepted ports. -/
def Lists (text : List UInt8) (addrs : List TcpAddrInfo) : Prop :=
  ∃ items : List AddrItem, text = [comma].intercalate (items.map AddrItem.text) ∧
    List.Forall₂ (AddrItem.Gives inAton kstrtoint) items addrs

/-- **What the parser is for.** It ends, keeps to its array, and accepts exactly the lists of
1 to `MAX_PROCESSES` items, with the items in order as its result. -/
structure ParsesExactly (stack : ℕ → TcpAddrInfo) (desc : CString) : Prop where
  ends : ∃ r, ParseAtddAddrs inAton kstrtoint stack desc r
  inBounds : ∀ k, ¬ ParseAtddAddrs inAton kstrtoint stack desc (.outOfBounds k)
  accepts : ∀ config, ParseAtddAddrs inAton kstrtoint stack desc (.ok config) ↔
    1 ≤ config.addrsCount ∧ config.addrsCount ≤ maxProcesses ∧
    config.atddAddrs.length = config.addrsCount ∧
    Lists inAton kstrtoint desc.chars config.atddAddrs

/-- The text starts with as many items as there is room for, each with an accepted port and
each followed by a comma, and then has one more colon. -/
def Overflows (text : List UInt8) : Prop :=
  ∃ (items : List AddrItem) (addr rest : List UInt8), items.length = maxProcesses ∧
    (∀ item ∈ items, ∃ port, kstrtoint item.port = .ok port) ∧
    text = (items.map fun item => item.text ++ [comma]).flatten ++ addr ++ colon :: rest

/-! ## Reading a text -/

/-- What becomes of a text where an item is expected, with the entries read so far. -/
inductive ReadsTo : List TcpAddrInfo → List UInt8 → ParseResult → Prop where
  | noColon {read : List TcpAddrInfo} {text : List UInt8} (h : colon ∉ text) :
      ReadsTo read text (.error .einval)
  | full {read : List TcpAddrInfo} {addr rest : List UInt8}
      (hfull : ¬ read.length < maxProcesses) (haddr : colon ∉ addr) :
      ReadsTo read (addr ++ colon :: rest) (.outOfBounds read.length)
  | refused {read : List TcpAddrInfo} {item : AddrItem} {rest : List UInt8} {err : Errno}
      (hroom : read.length < maxProcesses) (hrest : rest = [] ∨ ∃ rest', rest = comma :: rest')
      (hport : kstrtoint item.port = .error err) : ReadsTo read (item.text ++ rest) (.error err)
  | last {read : List TcpAddrInfo} {item : AddrItem} {info : TcpAddrInfo}
      (hroom : read.length < maxProcesses) (hinfo : item.Gives inAton kstrtoint info) :
      ReadsTo read item.text (.ok ⟨read ++ [info], (read ++ [info]).length⟩)
  | item {read : List TcpAddrInfo} {item : AddrItem} {info : TcpAddrInfo} {rest : List UInt8}
      {r : ParseResult} (hroom : read.length < maxProcesses)
      (hinfo : item.Gives inAton kstrtoint info) (hrest : ReadsTo (read ++ [info]) rest r) :
      ReadsTo read (item.text ++ comma :: rest) r

/-- A text has its first separator, or has none. -/
theorem exists_first (c : UInt8) (text : List UInt8) :
    c ∉ text ∨ ∃ front rest, text = front ++ c :: rest ∧ c ∉ front := by
  by_cases h : c ∈ text
  · right
    exact List.eq_append_cons_of_mem h
  · left
    exact h

/-- Every text can be read. -/
theorem exists_readsTo (read : List TcpAddrInfo) (text : List UInt8) :
    ∃ r, ReadsTo inAton kstrtoint read text r := by
  induction hlength : text.length using Nat.strong_induction_on generalizing read text with
  | _ length ih =>
    obtain hnone | ⟨addr, behind, rfl, haddr⟩ := exists_first colon text
    · exact ⟨_, .noColon hnone⟩
    by_cases hroom : read.length < maxProcesses
    · -- the port ends at a comma or with the text
      obtain ⟨port, rest, rfl, hport, hrest⟩ : ∃ port rest, behind = port ++ rest ∧
          comma ∉ port ∧ (rest = [] ∨ ∃ rest', rest = comma :: rest') := by
        obtain hnone | ⟨port, rest, rfl, hport⟩ := exists_first comma behind
        · exact ⟨behind, [], (List.append_nil _).symm, hnone, Or.inl rfl⟩
        · exact ⟨port, comma :: rest, rfl, hport, Or.inr ⟨rest, rfl⟩⟩
      let item : AddrItem := ⟨addr, port, haddr, hport⟩
      have htext : addr ++ colon :: (port ++ rest) = item.text ++ rest := by
        simp [item, AddrItem.text]
      rw [htext]
      cases hnumber : kstrtoint port with
      | error err => exact ⟨_, .refused hroom hrest hnumber⟩
      | ok number =>
        have hinfo : item.Gives inAton kstrtoint ⟨inAton addr, number⟩ := ⟨rfl, hnumber⟩
        obtain rfl | ⟨rest', rfl⟩ := hrest
        · rw [List.append_nil]
          exact ⟨_, .last hroom hinfo⟩
        · obtain ⟨r, hr⟩ := ih rest'.length
            (by rw [← hlength]; simp only [List.length_append, List.length_cons]; omega)
            (read ++ [⟨inAton addr, number⟩]) rest' rfl
          exact ⟨r, .item hroom hinfo hr⟩
    · exact ⟨_, .full hroom haddr⟩

end

/-! ## The pointers -/

namespace Scan

theorem char_eq {s : Scan} {c : UInt8} {rest : List UInt8}
    (h : s.memory.drop s.parseEnd = c :: rest) : s.char = c := by
  have hget : (s.memory.drop s.parseEnd)[0]? = some c := by rw [h]; rfl
  rw [List.getElem?_drop, Nat.add_zero] at hget
  rw [char, List.getD_eq_getElem?_getD, hget, Option.getD_some]

theorem part_eq {s : Scan} {w rest : List UInt8}
    (h : s.memory.drop s.parseBegin = w ++ 0 :: rest) (hw : 0 ∉ w) : s.part = w := by
  have hpos : ∀ c ∈ w, decide (c ≠ 0) = true := by
    intro c hc
    apply decide_eq_true
    rintro rfl
    exact hw hc
  rw [part, h, List.takeWhile_append_of_pos hpos]
  simp

theorem drop_behind {memory w rest : List UInt8} {p : ℕ} (h : memory.drop p = w ++ rest) :
    memory.drop (p + w.length) = rest := by
  rw [← List.drop_drop, h, List.drop_left]

/-- The entries below the one that is written. -/
theorem map_range_update (addrs : ℕ → TcpAddrInfo) (n : ℕ) (info : TcpAddrInfo) :
    (List.range n).map (Function.update addrs n info) = (List.range n).map addrs := by
  apply List.map_congr_left
  intro k hk
  have hlt := List.mem_range.mp hk
  exact Function.update_of_ne (by omega) _ _

/-- A part begins at `parse_end`, the address (`i = 0`) or the port (`i = 1`) of an item, and
the text is what is left. -/
structure Reading (s : Scan) (i : ℕ) (read : List TcpAddrInfo) (text : List UInt8) : Prop where
  i : s.i = i
  begins : s.parseBegin = s.parseEnd
  memory : s.memory.drop s.parseEnd = text ++ [0]
  noNul : 0 ∉ text
  count : s.addrsCount = read.length
  entries : (List.range read.length).map s.addrs = read

theorem reading_start (stack : ℕ → TcpAddrInfo) (desc : CString) :
    (start stack desc).Reading 0 [] desc.chars :=
  { i := rfl
    begins := rfl
    memory := rfl
    noNul := desc.noNul
    count := rfl
    entries := rfl }

section

variable {inAton : List UInt8 → UInt32} {kstrtoint : List UInt8 → Except Errno Int}

/-- Characters that end no part are passed over. -/
theorem leaves_of_skip {s : Scan} {w rest : List UInt8} {r : ParseResult}
    (hmemory : s.memory.drop s.parseEnd = w ++ rest) (hnul : 0 ∉ w)
    (hcolon : s.i = 0 → colon ∉ w) (hcomma : s.i = 1 → comma ∉ w)
    (hroom : s.addrsCount ≤ maxProcesses)
    (h : Leaves (round inAton kstrtoint) { s with parseEnd := s.parseEnd + w.length } r) :
    Leaves (round inAton kstrtoint) s r := by
  induction w generalizing s with
  | nil => exact h
  | cons c w ih =>
    have hchar : s.char = c := char_eq hmemory
    -- the character is no zero, and no separator this part could end at
    have hround : round inAton kstrtoint s = .inr { s with parseEnd := s.parseEnd + 1 } := by
      unfold round
      rw [hchar, if_neg, if_neg, if_neg, if_neg, if_neg (Nat.not_lt.mpr hroom)]
      · rintro rfl
        exact hnul List.mem_cons_self
      · rintro ⟨rfl, -⟩
        exact hnul List.mem_cons_self
      · rintro ⟨rfl, hi⟩
        exact hcomma hi List.mem_cons_self
      · rintro ⟨rfl, hi⟩
        exact hcolon hi List.mem_cons_self
    apply Leaves.round hround
    apply ih
    · exact drop_behind (w := [c]) hmemory
    · exact fun hc => hnul (List.mem_cons_of_mem c hc)
    · exact fun hi hc => hcolon hi (List.mem_cons_of_mem c hc)
    · exact fun hi hc => hcomma hi (List.mem_cons_of_mem c hc)
    · exact hroom
    · show Leaves (round inAton kstrtoint) { s with parseEnd := s.parseEnd + 1 + w.length } r
      rw [List.length_cons, Nat.add_comm w.length, ← Nat.add_assoc] at h
      exact h

/-- The scanner stands at the end of a part, with what is behind it. -/
structure AtEnd (s : Scan) (i : ℕ) (read : List TcpAddrInfo) (w rest : List UInt8) : Prop where
  i : s.i = i
  memory : s.memory.drop s.parseBegin = w ++ rest
  ends : s.parseEnd = s.parseBegin + w.length
  noNul : 0 ∉ w
  count : s.addrsCount = read.length
  entries : (List.range read.length).map s.addrs = read

/-- The scanner gets to the end of a part. -/
theorem Reading.leaves {s : Scan} {i : ℕ} {read : List TcpAddrInfo} {w rest : List UInt8}
    {r : ParseResult} (hs : s.Reading i read (w ++ rest)) (hroom : read.length ≤ maxProcesses)
    (hcolon : i = 0 → colon ∉ w) (hcomma : i = 1 → comma ∉ w)
    (h : ∀ t : Scan, t.AtEnd i read w (rest ++ [0]) → t.addrs = s.addrs →
      Leaves (round inAton kstrtoint) t r) :
    Leaves (round inAton kstrtoint) s r := by
  have hmemory : s.memory.drop s.parseEnd = w ++ (rest ++ [0]) := by
    rw [hs.memory, List.append_assoc]
  have hnul : 0 ∉ w := fun hw => hs.noNul (List.mem_append_left _ hw)
  apply leaves_of_skip hmemory hnul
  · exact fun hi => hcolon (hs.i.symm.trans hi)
  · exact fun hi => hcomma (hs.i.symm.trans hi)
  · rw [hs.count]
    exact hroom
  · apply h
    · exact
        { i := hs.i
          memory := by rw [← hmemory, ← hs.begins]
          ends := by rw [← hs.begins]
          noNul := hnul
          count := hs.count
          entries := hs.entries }
    · rfl

section

variable {s : Scan} {i : ℕ} {read : List TcpAddrInfo} {w rest : List UInt8} {c : UInt8}

theorem AtEnd.char (hs : s.AtEnd i read w (c :: rest)) : s.char = c := by
  have hend : s.memory.drop s.parseEnd = c :: rest := by
    rw [hs.ends]
    exact drop_behind hs.memory
  exact char_eq hend

/-- With a zero behind it the part is what `in_aton` and `kstrtoint` read. -/
theorem AtEnd.cut_part (hs : s.AtEnd i read w (c :: rest)) : s.cut.part = w := by
  have hcut : s.cut.memory.drop s.cut.parseBegin = w ++ 0 :: rest := by
    show (s.memory.set s.parseEnd 0).drop s.parseBegin = _
    rw [hs.ends, ← List.set_drop, hs.memory, List.set_append_right _ _ (le_refl _), Nat.sub_self]
    rfl
  exact part_eq hcut hs.noNul

/-- What is behind the character at the end of a part is left as it is. -/
theorem AtEnd.cut_drop (hs : s.AtEnd i read w (c :: rest)) :
    s.cut.memory.drop (s.cut.parseEnd + 1) = rest := by
  have hmemory : s.memory.drop s.parseBegin = (w ++ [c]) ++ rest := by
    rw [hs.memory, List.append_assoc, List.singleton_append]
  have hbehind := drop_behind hmemory
  rw [List.length_append, ← Nat.add_assoc, ← hs.ends] at hbehind
  show (s.memory.set s.parseEnd 0).drop (s.parseEnd + 1) = rest
  rw [List.drop_set_of_lt (Nat.lt_succ_self _)]
  exact hbehind

/-- An address goes to the array, if there is room for it. -/
theorem AtEnd.round_addr (hs : s.AtEnd 0 read w (colon :: (rest ++ [0]))) (hrest : 0 ∉ rest)
    (hroom : read.length < maxProcesses) :
    ∃ s', round inAton kstrtoint s = .inr s' ∧ s'.Reading 1 read rest ∧
      (s'.addrs read.length).ipAddr = inAton w := by
  have hcount : s.cut.addrsCount < maxProcesses := by
    show s.addrsCount < maxProcesses
    rw [hs.count]
    exact hroom
  have hround : round inAton kstrtoint s = .inr (({ s.cut with
      addrs := Function.update s.addrs s.addrsCount
        { s.addrs s.addrsCount with ipAddr := inAton w } } : Scan).next 1) := by
    unfold round putAddr
    rw [if_pos ⟨hs.char, hs.i⟩, if_pos hcount, hs.cut_part]
    rfl
  refine ⟨_, hround, ?_, ?_⟩
  · exact
      { i := rfl
        begins := rfl
        memory := hs.cut_drop
        noNul := hrest
        count := hs.count
        entries := by
          show (List.range read.length).map (Function.update s.addrs s.addrsCount _) = read
          rw [hs.count, map_range_update, hs.entries] }
  · show (Function.update s.addrs s.addrsCount _ read.length).ipAddr = inAton w
    rw [hs.count, Function.update_self]

theorem AtEnd.round_addr_full (hs : s.AtEnd 0 read w (colon :: rest))
    (hfull : ¬ read.length < maxProcesses) :
    round inAton kstrtoint s = .inl (.outOfBounds read.length) := by
  have hcount : ¬ s.cut.addrsCount < maxProcesses := by
    show ¬ s.addrsCount < maxProcesses
    rw [hs.count]
    exact hfull
  unfold round putAddr
  rw [if_pos ⟨hs.char, hs.i⟩, if_neg hcount]
  show Sum.inl (ParseResult.outOfBounds s.addrsCount) = _
  rw [hs.count]

/-- A port that is accepted goes to the array, behind the entries that are there. -/
theorem putPort_ok {info : TcpAddrInfo} (hroom : read.length < maxProcesses)
    (hcount : s.addrsCount = read.length) (hentries : (List.range read.length).map s.addrs = read)
    (hip : (s.addrs read.length).ipAddr = info.ipAddr)
    (hport : kstrtoint s.part = .ok info.port) :
    s.putPort kstrtoint = .inr { s with
        addrs := Function.update s.addrs read.length info
        addrsCount := read.length + 1 } ∧
      (List.range (read.length + 1)).map (Function.update s.addrs read.length info) =
        read ++ [info] := by
  have hinfo : (⟨(s.addrs read.length).ipAddr, info.port⟩ : TcpAddrInfo) = info := by
    rw [hip]
  constructor
  · unfold putPort
    rw [hcount, if_pos hroom, hport]
    show Sum.inr _ = _
    rw [hinfo]
  · rw [List.range_succ, List.map_append, map_range_update, hentries, List.map_singleton,
      Function.update_self]

theorem putPort_error {err : Errno} (hroom : read.length < maxProcesses)
    (hcount : s.addrsCount = read.length) (hport : kstrtoint s.part = .error err) :
    s.putPort kstrtoint = .inl (.error err) := by
  unfold putPort
  rw [hcount, if_pos hroom, hport]

/-- At the end of the string the part needs no other zero. -/
theorem AtEnd.part (hs : s.AtEnd i read w [0]) : s.part = w :=
  part_eq hs.memory hs.noNul

theorem AtEnd.round_comma (hs : s.AtEnd 1 read w (comma :: rest)) :
    round inAton kstrtoint s =
      (s.cut.putPort kstrtoint).elim Sum.inl fun s => .inr (s.next 0) := by
  unfold round
  rw [hs.char, hs.i, if_neg (by decide), if_pos (by decide)]
  cases s.cut.putPort kstrtoint with
  | inl r => rfl
  | inr s => rfl

theorem AtEnd.round_nul (hs : s.AtEnd 1 read w [0]) :
    round inAton kstrtoint s =
      (s.putPort kstrtoint).elim Sum.inl fun s => .inl (.ok s.config) := by
  unfold round
  rw [hs.char, hs.i, if_neg (by decide), if_neg (by decide), if_pos (by decide)]
  cases s.putPort kstrtoint with
  | inl r => rfl
  | inr s => rfl

/-- A port before a comma: the scanner goes on to the next item. -/
theorem AtEnd.round_port {info : TcpAddrInfo} (hs : s.AtEnd 1 read w (comma :: (rest ++ [0])))
    (hrest : 0 ∉ rest) (hroom : read.length < maxProcesses)
    (hip : (s.addrs read.length).ipAddr = info.ipAddr) (hport : kstrtoint w = .ok info.port) :
    ∃ s', round inAton kstrtoint s = .inr s' ∧ s'.Reading 0 (read ++ [info]) rest := by
  rw [← hs.cut_part] at hport
  obtain ⟨hput, hentries⟩ := putPort_ok (s := s.cut) hroom hs.count hs.entries hip hport
  refine ⟨_, by rw [hs.round_comma, hput]; rfl, ?_⟩
  exact
    { i := rfl
      begins := rfl
      memory := hs.cut_drop
      noNul := hrest
      count := by rw [List.length_append]; rfl
      entries := by rw [List.length_append]; exact hentries }

/-- The port at the end of the string is the last one. -/
theorem AtEnd.round_last {info : TcpAddrInfo} (hs : s.AtEnd 1 read w [0])
    (hroom : read.length < maxProcesses) (hip : (s.addrs read.length).ipAddr = info.ipAddr)
    (hport : kstrtoint w = .ok info.port) :
    round inAton kstrtoint s = .inl (.ok ⟨read ++ [info], (read ++ [info]).length⟩) := by
  rw [← hs.part] at hport
  obtain ⟨hput, hentries⟩ := putPort_ok hroom hs.count hs.entries hip hport
  rw [hs.round_nul, hput]
  show Sum.inl (ParseResult.ok ⟨(List.range (read.length + 1)).map _, read.length + 1⟩) = _
  rw [hentries, List.length_append]
  rfl

end

/-- The scanner gets to the end of an item, with its address in the array. -/
theorem Reading.leaves_of_item {s : Scan} {read : List TcpAddrInfo} {item : AddrItem}
    {rest : List UInt8} {r : ParseResult} (hs : s.Reading 0 read (item.text ++ rest))
    (hroom : read.length < maxProcesses)
    (h : ∀ t : Scan, t.AtEnd 1 read item.port (rest ++ [0]) →
      (t.addrs read.length).ipAddr = inAton item.addr → Leaves (round inAton kstrtoint) t r) :
    Leaves (round inAton kstrtoint) s r := by
  have htext : item.text ++ rest = item.addr ++ colon :: (item.port ++ rest) := by
    rw [AddrItem.text, List.append_assoc, List.cons_append]
  have hnul := hs.noNul
  rw [htext] at hs hnul
  apply hs.leaves hroom.le (fun _ => item.noColon) (by omega)
  intro t ht _
  have hbehind : 0 ∉ item.port ++ rest := by
    intro hc
    exact hnul (List.mem_append_right _ (List.mem_cons_of_mem _ hc))
  obtain ⟨s', hround, hs', hip⟩ := ht.round_addr hbehind hroom
  apply Leaves.round hround
  apply hs'.leaves hroom.le (by omega) (fun _ => item.noComma)
  intro t' ht' haddrs
  apply h t' ht'
  rw [haddrs]
  exact hip

/-- **The pointers follow the text.** What becomes of a text is what the loop ends with. -/
theorem leaves_of_readsTo {s : Scan} {read : List TcpAddrInfo} {text : List UInt8}
    {r : ParseResult} (hs : s.Reading 0 read text) (hroom : read.length ≤ maxProcesses)
    (h : ReadsTo inAton kstrtoint read text r) : Leaves (round inAton kstrtoint) s r := by
  induction h generalizing s with
  | @noColon read text hnone =>
    -- the end of the string, where an address is expected
    rw [← List.append_nil text] at hs
    apply hs.leaves hroom (fun _ => hnone) (by omega)
    intro t ht _
    apply Leaves.last
    unfold round
    rw [ht.char, ht.i, if_neg (by decide), if_neg (by decide), if_neg (by decide),
      if_pos (by decide)]
  | full hfull haddr =>
    apply hs.leaves hroom (fun _ => haddr) (by omega)
    intro t ht _
    exact Leaves.last (ht.round_addr_full hfull)
  | refused hlt hrest hport =>
    apply hs.leaves_of_item hlt
    intro t ht _
    obtain rfl | ⟨rest', rfl⟩ := hrest
    · rw [← ht.part] at hport
      apply Leaves.last
      rw [ht.round_nul, putPort_error hlt ht.count hport]
      rfl
    · rw [← ht.cut_part] at hport
      apply Leaves.last
      rw [ht.round_comma, putPort_error (s := t.cut) hlt ht.count hport]
      rfl
  | @last read item info hlt hinfo =>
    rw [← List.append_nil item.text] at hs
    apply hs.leaves_of_item hlt
    intro t ht hip
    exact Leaves.last (ht.round_last hlt (hip.trans hinfo.1) hinfo.2)
  | item hlt hinfo hrest ih =>
    have hnul := hs.noNul
    apply hs.leaves_of_item hlt
    intro t ht hip
    obtain ⟨s', hround, hs'⟩ := ht.round_port
      (fun hc => hnul (List.mem_append_right _ (List.mem_cons_of_mem _ hc))) hlt
      (hip.trans hinfo.1) hinfo.2
    apply Leaves.round hround
    apply ih hs'
    rw [List.length_append]
    exact hlt

end

end Scan

/-! ## The language of the parser -/

section

variable {inAton : List UInt8 → UInt32} {kstrtoint : List UInt8 → Except Errno Int}

theorem parseAtddAddrs_iff (stack : ℕ → TcpAddrInfo) (desc : CString) (r : ParseResult) :
    ParseAtddAddrs inAton kstrtoint stack desc r ↔
      ReadsTo inAton kstrtoint [] desc.chars r := by
  have hleaves : ∀ r', ReadsTo inAton kstrtoint [] desc.chars r' →
      ParseAtddAddrs inAton kstrtoint stack desc r' := fun _ h =>
    Scan.leaves_of_readsTo (Scan.reading_start stack desc) (Nat.zero_le _) h
  constructor
  · intro h
    obtain ⟨r', hr'⟩ := exists_readsTo inAton kstrtoint [] desc.chars
    rw [h.unique (hleaves r' hr')]
    exact hr'
  · exact hleaves r

/-- A text that is accepted lists the entries of its items. -/
theorem ReadsTo.lists {read : List TcpAddrInfo} {text : List UInt8} {config : AddrsConfig}
    (h : ReadsTo inAton kstrtoint read text (.ok config)) :
    ∃ addrs, config = ⟨read ++ addrs, (read ++ addrs).length⟩ ∧ addrs ≠ [] ∧
      (read ++ addrs).length ≤ maxProcesses ∧ Lists inAton kstrtoint text addrs := by
  generalize hr : ParseResult.ok config = r at h
  induction h with
  | noColon h => cases hr
  | full hfull haddr => cases hr
  | refused hroom hrest hport => cases hr
  | @last read item info hroom hinfo =>
    cases hr
    refine ⟨[info], rfl, List.cons_ne_nil _ _, ?_, [item], ?_, ?_⟩
    · rw [List.length_append]
      exact hroom
    · exact List.intercalate_singleton.symm
    · exact .cons hinfo .nil
  | @item read item info rest r hroom hinfo hrest ih =>
    obtain ⟨addrs, hconfig, hne, hle, items, htext, hitems⟩ := ih hr
    rw [← List.append_cons] at hconfig hle
    refine ⟨info :: addrs, hconfig, List.cons_ne_nil _ _, hle, item :: items, ?_, ?_⟩
    · cases hitems with
      | nil => exact absurd rfl hne
      | cons _ _ => simp [htext, List.intercalate_cons_cons]
    · exact .cons hinfo hitems

/-- A list of items is accepted where there is room for all of them. -/
theorem readsTo_of_lists {items : List AddrItem} {addrs read : List TcpAddrInfo}
    (hitems : List.Forall₂ (AddrItem.Gives inAton kstrtoint) items addrs) (hne : addrs ≠ [])
    (hroom : (read ++ addrs).length ≤ maxProcesses) :
    ReadsTo inAton kstrtoint read ([comma].intercalate (items.map AddrItem.text))
      (.ok ⟨read ++ addrs, (read ++ addrs).length⟩) := by
  induction hitems generalizing read with
  | nil => exact absurd rfl hne
  | @cons item info items addrs hinfo hitems ih =>
    have hlt : read.length < maxProcesses := by
      rw [List.length_append, List.length_cons] at hroom
      omega
    cases hitems with
    | nil =>
      rw [List.map_singleton, List.intercalate_singleton]
      exact .last hlt hinfo
    | cons hinfo' hitems' =>
      rw [List.append_cons] at hroom ⊢
      have hrest := ih (List.cons_ne_nil _ _) hroom
      rw [List.map_cons, List.map_cons, List.intercalate_cons_cons, List.append_assoc,
        List.singleton_append]
      exact .item hlt hinfo hrest

/-- A text that makes the scanner leave its array. -/
theorem ReadsTo.overflows {read : List TcpAddrInfo} {text : List UInt8} {k : ℕ}
    (hread : read.length ≤ maxProcesses)
    (h : ReadsTo inAton kstrtoint read text (.outOfBounds k)) :
    ∃ (items : List AddrItem) (addr rest : List UInt8),
      read.length + items.length = maxProcesses ∧
      (∀ item ∈ items, ∃ port, kstrtoint item.port = .ok port) ∧
      text = (items.map fun item => item.text ++ [comma]).flatten ++ addr ++ colon :: rest := by
  generalize hr : ParseResult.outOfBounds k = r at h
  induction h with
  | noColon h => cases hr
  | @full read addr rest hfull haddr =>
    refine ⟨[], addr, rest, ?_, ?_, rfl⟩
    · rw [List.length_nil]
      omega
    · intro item hitem
      cases hitem
  | refused hroom hrest hport => cases hr
  | last hroom hinfo => cases hr
  | @item read item info rest r hroom hinfo hrest ih =>
    -- an item that is read is one of those before the overflow
    obtain ⟨items, addr, rest', hlength, hports, rfl⟩ := ih
      (by rw [List.length_append]; exact hroom) hr
    refine ⟨item :: items, addr, rest', ?_, ?_, ?_⟩
    · rw [List.length_append] at hlength
      simp only [List.length_cons, List.length_nil] at hlength ⊢
      omega
    · intro item' hitem'
      obtain rfl | hmem := List.mem_cons.mp hitem'
      · exact ⟨_, hinfo.2⟩
      · exact hports item' hmem
    · simp

theorem readsTo_of_overflows {items : List AddrItem} {read : List TcpAddrInfo}
    (hroom : read.length + items.length = maxProcesses)
    (hports : ∀ item ∈ items, ∃ port, kstrtoint item.port = .ok port)
    (addr rest : List UInt8) :
    ReadsTo inAton kstrtoint read
      ((items.map fun item => item.text ++ [comma]).flatten ++ addr ++ colon :: rest)
      (.outOfBounds maxProcesses) := by
  induction items generalizing read with
  | nil =>
    -- the scanner stops at the first colon of what is left
    rw [List.length_nil, Nat.add_zero] at hroom
    obtain hnone | ⟨front, behind, hsplit, hfront⟩ := exists_first colon (addr ++ colon :: rest)
    · exact absurd (List.mem_append_right _ List.mem_cons_self) hnone
    · show ReadsTo inAton kstrtoint read (addr ++ colon :: rest) _
      rw [hsplit, ← hroom]
      exact .full (by omega) hfront
  | cons item items ih =>
    obtain ⟨port, hport⟩ := hports item List.mem_cons_self
    rw [List.length_cons] at hroom
    have hlength : (read ++ [TcpAddrInfo.mk (inAton item.addr) port]).length + items.length =
        maxProcesses := by
      rw [List.length_append, List.length_singleton]
      omega
    have hrest := ih hlength (fun item' hitem' => hports item' (List.mem_cons_of_mem _ hitem'))
    rw [List.append_assoc] at hrest
    simp only [List.map_cons, List.flatten_cons, List.append_assoc, List.singleton_append]
    exact .item (by omega) ⟨rfl, hport⟩ hrest

theorem exists_outOfBounds_iff (inAton : List UInt8 → UInt32) (stack : ℕ → TcpAddrInfo)
    (desc : CString) :
    (∃ k, ParseAtddAddrs inAton kstrtoint stack desc (.outOfBounds k)) ↔
      Overflows kstrtoint desc.chars := by
  constructor
  · rintro ⟨k, hk⟩
    rw [parseAtddAddrs_iff] at hk
    obtain ⟨items, addr, rest, hlength, hports, htext⟩ := hk.overflows (Nat.zero_le _)
    rw [List.length_nil, Nat.zero_add] at hlength
    exact ⟨items, addr, rest, hlength, hports, htext⟩
  · rintro ⟨items, addr, rest, hlength, hports, htext⟩
    refine ⟨maxProcesses, (parseAtddAddrs_iff stack desc _).mpr ?_⟩
    rw [htext]
    exact readsTo_of_overflows (by rw [List.length_nil, Nat.zero_add]; exact hlength) hports _ _

theorem parseAtddAddrs_ok (stack : ℕ → TcpAddrInfo) (desc : CString) (config : AddrsConfig) :
    ParseAtddAddrs inAton kstrtoint stack desc (.ok config) ↔
      1 ≤ config.addrsCount ∧ config.addrsCount ≤ maxProcesses ∧
      config.atddAddrs.length = config.addrsCount ∧
      Lists inAton kstrtoint desc.chars config.atddAddrs := by
  rw [parseAtddAddrs_iff]
  constructor
  · intro h
    obtain ⟨addrs, rfl, hne, hle, hlists⟩ := h.lists
    exact ⟨List.length_pos_of_ne_nil hne, hle, rfl, hlists⟩
  · rintro ⟨hpos, hle, hlength, items, htext, hitems⟩
    obtain ⟨addrs, count⟩ := config
    obtain rfl : addrs.length = count := hlength
    rw [htext]
    exact readsTo_of_lists hitems (List.ne_nil_of_length_pos hpos) hle

/-- **When the parser is exact.** It is on every string but those with a colon behind
`MAX_PROCESSES` items: the array is left there, and the limit, which is looked at only at a
character that ends no part, has not been noticed. -/
theorem parsesExactly_iff (stack : ℕ → TcpAddrInfo) (desc : CString) :
    ParsesExactly inAton kstrtoint stack desc ↔ ¬ Overflows kstrtoint desc.chars := by
  rw [← exists_outOfBounds_iff inAton stack desc]
  constructor
  · rintro h ⟨k, hk⟩
    exact h.inBounds k hk
  · intro h
    obtain ⟨r, hr⟩ := exists_readsTo inAton kstrtoint [] desc.chars
    exact
      { ends := ⟨r, (parseAtddAddrs_iff stack desc r).mpr hr⟩
        inBounds := fun k hk => h ⟨k, hk⟩
        accepts := parseAtddAddrs_ok stack desc }

end

/-- A list of 33 items `0:1`. -/
def oneTooMany : CString :=
  { chars := (List.replicate 32 [0x30, colon, 0x31, comma]).flatten ++ [0x30, colon, 0x31]
    noNul := by decide }

/-- The parser writes behind its array. -/
theorem oneTooMany_outOfBounds :
    ¬ ParsesExactly (fun _ => 0) (fun _ => .ok 1) (fun _ => ⟨0, 0⟩) oneTooMany := by
  intro h
  exact h.inBounds 32 ⟨200, by decide +kernel⟩

/-! ## The key -/

/-- `HMAC_KEY_SIZE`. -/
def hmacKeySize : ℕ := 32

/-- `isxdigit` of the kernel. -/
def isxdigit (c : UInt8) : Bool :=
  (0x30 ≤ c && c ≤ 0x39) || (0x41 ≤ c && c ≤ 0x46) || (0x61 ≤ c && c ≤ 0x66)

/-- `hex_digit_to_int`; a `char` is signed. -/
def hexDigitToInt (d : UInt8) : Int :=
  if d.toInt8 ≤ 0x39 then d.toInt8.toInt - 0x30
  else if d.toInt8 ≤ 0x46 then d.toInt8.toInt - 0x41 + 10
  else d.toInt8.toInt - 0x61 + 10

/-- `res[i]`. -/
def keyByte (chars : List UInt8) (i : ℕ) : UInt8 :=
  UInt8.ofInt (hexDigitToInt (chars.getD (2 * i) 0) * 2 ^ 4 +
    hexDigitToInt (chars.getD (2 * i + 1) 0))

/-- `parse_hmac_key`, the memory for the key being there. -/
def parseHmacKey (desc : CString) : Except Errno (List UInt8) :=
  if desc.chars.length ≠ hmacKeySize * 2 then .error .einval
  else if !desc.chars.all isxdigit then .error .einval
  else .ok ((List.range hmacKeySize).map (keyByte desc.chars))

/-- A letter in lower case. -/
def toLower (c : UInt8) : UInt8 := if 0x41 ≤ c ∧ c ≤ 0x5a then c + 0x20 else c

/-- A hexadecimal digit in lower case. -/
def hexDigit (v : ℕ) : UInt8 :=
  if v < 10 then UInt8.ofNat (0x30 + v) else UInt8.ofNat (0x61 + (v - 10))

/-- A key in writing, two digits a byte. -/
def spellKey (key : List UInt8) : List UInt8 :=
  key.flatMap fun b => [hexDigit (b.toNat / 16), hexDigit (b.toNat % 16)]

theorem exists_hexDigit {c : UInt8} (h : isxdigit c = true) :
    ∃ v < 16, hexDigitToInt c = (v : ℕ) ∧ toLower c = hexDigit v := by
  have hall : ∀ n < 256, isxdigit (UInt8.ofNat n) = true →
      ∃ v < 16, hexDigitToInt (UInt8.ofNat n) = (v : ℕ) ∧ toLower (UInt8.ofNat n) = hexDigit v := by
    decide +kernel
  have hc := hall c.toNat c.toNat_lt
  rw [UInt8.ofNat_toNat] at hc
  exact hc h

theorem isxdigit_of_toLower {c : UInt8} {v : ℕ} (hv : v < 16) (h : toLower c = hexDigit v) :
    isxdigit c = true ∧ hexDigitToInt c = (v : ℕ) := by
  have hall : ∀ n < 256, ∀ v < 16, toLower (UInt8.ofNat n) = hexDigit v →
      isxdigit (UInt8.ofNat n) = true ∧ hexDigitToInt (UInt8.ofNat n) = (v : ℕ) := by
    decide +kernel
  have hc := hall c.toNat c.toNat_lt v hv
  rw [UInt8.ofNat_toNat] at hc
  exact hc h

theorem keyByte_zero (a b : UInt8) (rest : List UInt8) :
    keyByte (a :: b :: rest) 0 = UInt8.ofInt (hexDigitToInt a * 2 ^ 4 + hexDigitToInt b) := rfl

theorem keyByte_succ (a b : UInt8) (rest : List UInt8) (i : ℕ) :
    keyByte (a :: b :: rest) (i + 1) = keyByte rest i := by
  simp [keyByte, Nat.mul_succ]

theorem map_keyByte (a b : UInt8) (rest : List UInt8) (n : ℕ) :
    (List.range (n + 1)).map (keyByte (a :: b :: rest)) =
      UInt8.ofInt (hexDigitToInt a * 2 ^ 4 + hexDigitToInt b) ::
        (List.range n).map (keyByte rest) := by
  rw [List.range_succ_eq_map, List.map_cons, List.map_map, keyByte_zero]
  have htail : keyByte (a :: b :: rest) ∘ Nat.succ = keyByte rest :=
    funext fun i => keyByte_succ a b rest i
  rw [htail]

/-- Two digits make a byte of which they are the halves. -/
theorem toNat_ofInt_digits {x y : ℕ} (hx : x < 16) (hy : y < 16) :
    (UInt8.ofInt ((x : ℤ) * 2 ^ 4 + y)).toNat = x * 16 + y := by
  have hcast : (((x : ℤ) * 2 ^ 4 + y) % 2 ^ 8).toNat = x * 16 + y := by omega
  rw [UInt8.ofInt, hcast]
  exact UInt8.toNat_ofNat_of_lt' (by change x * 16 + y < 256; omega)

/-- Digits spell the bytes that are read from them, in whatever case they are. -/
theorem spellKey_of_digits (n : ℕ) {chars : List UInt8} (hlength : chars.length = 2 * n)
    (hdigits : ∀ c ∈ chars, isxdigit c = true) :
    chars.map toLower = spellKey ((List.range n).map (keyByte chars)) := by
  induction n generalizing chars with
  | zero =>
    rw [List.length_eq_zero_iff.mp hlength]
    rfl
  | succ n ih =>
    match chars, hlength with
    | a :: b :: rest, hlength =>
      obtain ⟨x, hx, hax, hal⟩ := exists_hexDigit (hdigits a (by simp))
      obtain ⟨y, hy, hby, hbl⟩ := exists_hexDigit (hdigits b (by simp))
      have hlast : rest.length = 2 * n := by
        rw [List.length_cons, List.length_cons] at hlength
        omega
      have hrest := ih hlast fun c hc => hdigits c (by simp [hc])
      have hbyte := toNat_ofInt_digits hx hy
      rw [map_keyByte, List.map_cons, List.map_cons, hax, hby, hal, hbl, hrest]
      simp only [spellKey, List.flatMap_cons, hbyte]
      rw [show (x * 16 + y) / 16 = x by omega, show (x * 16 + y) % 16 = y by omega]
      rfl

/-- A spelled key is read back. -/
theorem digits_of_spellKey (key : List UInt8) {chars : List UInt8}
    (h : chars.map toLower = spellKey key) :
    chars.length = 2 * key.length ∧ (∀ c ∈ chars, isxdigit c = true) ∧
      (List.range key.length).map (keyByte chars) = key := by
  induction key generalizing chars with
  | nil =>
    rw [List.map_eq_nil_iff.mp h]
    simp
  | cons byte key ih =>
    have hlt := byte.toNat_lt
    match chars, h with
    | [], h => simp [spellKey] at h
    | [a], h => simp [spellKey] at h
    | a :: b :: rest, h =>
      simp only [spellKey, List.map_cons, List.flatMap_cons, List.cons_append, List.nil_append,
        List.cons.injEq] at h
      obtain ⟨ha, hb, hrest⟩ := h
      obtain ⟨hax, hav⟩ := isxdigit_of_toLower (by omega) ha
      obtain ⟨hbx, hbv⟩ := isxdigit_of_toLower (by omega) hb
      obtain ⟨hlength, hdigits, hkey⟩ := ih hrest
      refine ⟨by simp; omega, ?_, ?_⟩
      · intro c hc
        simp only [List.mem_cons] at hc
        rcases hc with rfl | rfl | hc
        · exact hax
        · exact hbx
        · exact hdigits c hc
      · rw [List.length_cons, map_keyByte, hav, hbv, hkey]
        congr 1
        refine UInt8.toNat_inj.mp ?_
        rw [toNat_ofInt_digits (by omega) (by omega)]
        omega

/-- **The key is read exactly.** `parse_hmac_key` accepts a text if and only if it is a key of
32 bytes in hexadecimal digits of either case, and returns that key. -/
theorem parseHmacKey_ok_iff (desc : CString) (key : List UInt8) :
    parseHmacKey desc = .ok key ↔
      key.length = hmacKeySize ∧ desc.chars.map toLower = spellKey key := by
  unfold parseHmacKey
  constructor
  · intro h
    split at h
    · cases h
    · next hlength =>
      split at h
      · cases h
      · next hdigits =>
        cases h
        rw [Bool.not_eq_true', Bool.not_eq_false, List.all_eq_true] at hdigits
        refine ⟨by simp, spellKey_of_digits hmacKeySize ?_ hdigits⟩
        simpa [mul_comm] using hlength
  · rintro ⟨hkey, hspell⟩
    obtain ⟨hlength, hdigits, hread⟩ := digits_of_spellKey key hspell
    rw [hkey] at hlength hread
    rw [if_neg (by simp [hlength, mul_comm]), if_neg (by simpa using hdigits), hread]

end Driver
end AtomicDiscDrive
