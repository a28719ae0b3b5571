import AtomicDiscDrive.Utils.Program
import AtomicDiscDrive.SectorsManager
import Mathlib.Data.Finset.Card
import Mathlib.Data.List.AList
import Mathlib.Data.List.MinMax

/-!
# `AtomicRegisterImplementation`

The handlers of `atomic_register.rs`, as programs over the calls they await: the stable
storage of the register, the register client, the sectors manager (with `write` in its
two steps) and the completion callback.

Two conventions:

* a callback is a `Callback` number; calling it is the `operationComplete` call. Which
  closure a number stands for is the business of the caller of `clientCommand`;
* `unwrap` on `None` is the call `panic`, which never answers.

The stable storage holds the state itself: `bincode` is taken to decode what it encoded.
`read_ident += 1` and `maxts + 1` wrap, as they do in a release build.
-/

namespace AtomicDiscDrive

open Utils

/-- Identity of a completion closure. -/
abbrev Callback := ℕ

structure DataWithRequestIdentifier where
  requestIdentifier : UInt64
  data : SectorVec
deriving DecidableEq

structure DataWithHeader where
  header : ClientCommandHeader
  data : SectorVec
deriving DecidableEq

structure AtomicRegisterStorageState where
  readIdent : UInt64
  writing : Bool
  writeval : Option DataWithHeader
deriving DecidableEq

/-- `empty_state` of `new`. -/
def AtomicRegisterStorageState.empty : AtomicRegisterStorageState := ⟨0, false, none⟩

/-- `HashMap<u8, (u64, u8, SectorVec)>`, at most one entry for each key. -/
abbrev Readlist := AList fun _ : UInt8 => UInt64 × UInt8 × SectorVec

/-- An entry of a `Readlist`, as its iterator yields it. -/
abbrev ReadlistEntry := Sigma fun _ : UInt8 => UInt64 × UInt8 × SectorVec

/-- The tag of an entry: the key of `max_by_key`. -/
def entryTag (e : ReadlistEntry) : Tag := ⟨e.2.1, e.2.2.1⟩

structure AtomicRegisterImplementation where
  selfIdent : UInt8
  processesCount : ℕ
  readlist : Readlist
  acks : Finset UInt8
  reading : Bool
  readval : Option DataWithRequestIdentifier
  state : AtomicRegisterStorageState
  callback : Option Callback

/-- A register on empty stable storage. -/
def freshRegister (processesCount : ℕ) (selfIdent : UInt8) : AtomicRegisterImplementation :=
  { selfIdent, processesCount, readlist := ∅, acks := ∅, reading := false, readval := none,
    state := .empty, callback := none }

/-! ## The calls of a handler -/

/-- What a handler awaits, and the callback it invokes. -/
inductive RegisterOp where
  | put (state : AtomicRegisterStorageState)
  | broadcast (cmd : SystemRegisterCommand)
  | send (cmd : SystemRegisterCommand) (target : ℕ)
  | readData (idx : SectorIdx)
  | readMetadata (idx : SectorIdx)
  | writeData (idx : SectorIdx) (data : SectorVec)
  | writeMetadata (idx : SectorIdx) (timestamp : UInt64) (writeRank : UInt8)
  | operationComplete (callback : Callback) (op : OperationComplete)
  | panic
deriving DecidableEq

/-- Answers. The two steps of a sector write report whether they succeeded. -/
def RegisterOp.Answer : RegisterOp → Type
  | .readData _ => SectorVec
  | .readMetadata _ => UInt64 × UInt8
  | .writeData _ _ => Bool
  | .writeMetadata _ _ _ => Bool
  | .panic => Empty
  | _ => Unit

/-- The signature of the register's handlers. -/
abbrev registerSignature : Signature := ⟨RegisterOp, RegisterOp.Answer⟩

/-- A handler, or the rest of one. -/
abbrev RegisterProgram := Program registerSignature

/-- `Option::unwrap`. -/
def unwrap {α : Type} : Option α → RegisterProgram α
  | some a => .done a
  | none => .call RegisterOp.panic Empty.elim

@[simp] theorem unwrap_some {α : Type} (a : α) : unwrap (some a) = .done a := rfl

/-- Nothing is executed after a panic. -/
theorem unwrap_none_bind {α β : Type} (f : α → RegisterProgram β) :
    (unwrap none >>= f) = .call RegisterOp.panic Empty.elim :=
  congrArg (Program.call (S := registerSignature) RegisterOp.panic)
    (funext fun x => Empty.elim x)

/-- `SectorsManager::write`: the metadata record is left alone when the data file could
not be replaced. -/
def writeSector (idx : SectorIdx) (sector : SectorVec × UInt64 × UInt8) :
    RegisterProgram Unit := do
  let written ← Program.perform (S := registerSignature) (.writeData idx sector.1)
  match (written : Bool) with
  | false => pure ()
  | true =>
    let _ ← Program.perform (S := registerSignature)
      (.writeMetadata idx sector.2.1 sector.2.2)
    pure ()

namespace AtomicRegisterImplementation

/-- `new`: the register and the write it was interrupted in. The `writing` flag is
cleared in memory only. -/
def new (selfIdent : UInt8) (processesCount : ℕ) (stored : Option AtomicRegisterStorageState) :
    RegisterProgram (AtomicRegisterImplementation × Option ClientRegisterCommand) :=
  let state := stored.getD .empty
  let register : AtomicRegisterImplementation :=
    { selfIdent, processesCount, readlist := ∅, acks := ∅, reading := false, readval := none,
      state, callback := none }
  if register.state.writing then do
    let writeval ← unwrap register.state.writeval
    let register := { register with state := { state with writing := false, writeval := none } }
    return (register, some ⟨writeval.header, .write writeval.data⟩)
  else
    return (register, none)

/-- `store_state`. A failed `put` is only logged. -/
def storeState (self : AtomicRegisterImplementation) : RegisterProgram Unit :=
  Program.perform (S := registerSignature) (.put self.state)

/-- What `client_command` does to the fields before it stores the state. -/
def startCommand (self : AtomicRegisterImplementation) (cmd : ClientRegisterCommand)
    (operationComplete : Callback) : AtomicRegisterImplementation :=
  let self := { self with
    callback := some operationComplete
    state := { self.state with readIdent := self.state.readIdent + 1 }
    acks := ∅
    readlist := ∅ }
  match cmd.content with
  | .read =>
    { self with
      readval := some ⟨cmd.header.requestIdentifier, ⟨[]⟩⟩
      reading := true }
  | .write data =>
    { self with
      state := { self.state with writeval := some ⟨cmd.header, data⟩, writing := true } }

/-- `client_command`. -/
def clientCommand (self : AtomicRegisterImplementation) (cmd : ClientRegisterCommand)
    (operationComplete : Callback) : RegisterProgram AtomicRegisterImplementation := do
  let self := self.startCommand cmd operationComplete
  storeState self
  Program.perform (S := registerSignature) (.broadcast
    { header :=
        { processIdentifier := self.selfIdent
          msgIdent := .fromRequest cmd.header.requestIdentifier
          readIdent := self.state.readIdent
          sectorIdx := cmd.header.sectorIdx }
      content := .readProc })
  return self

/-- `system_command` on a `ReadProc`: answer with what this process stores. -/
def handleReadProc (self : AtomicRegisterImplementation) (header : SystemCommandHeader) :
    RegisterProgram AtomicRegisterImplementation := do
  let value ← Program.perform (S := registerSignature) (.readData header.sectorIdx)
  let metadata ← Program.perform (S := registerSignature) (.readMetadata header.sectorIdx)
  Program.perform (S := registerSignature) (.send
    { header := { header with processIdentifier := self.selfIdent }
      content := .value metadata.1 metadata.2 value }
    header.processIdentifier.toNat)
  return self

end AtomicRegisterImplementation

/-- The order in which a `HashMap` yields its entries. The source relies on none, so a
handler that iterates is given an arbitrary one. -/
structure IterOrder where
  order : List ReadlistEntry → List ReadlistEntry
  perm : ∀ l, (order l).Perm l

/-- Entries as they are listed. -/
def IterOrder.listed : IterOrder := ⟨id, fun l => .refl l⟩

namespace AtomicRegisterImplementation

/-- `max_by_key(|(_, (ts, wr, _))| (ts, wr))`, which keeps the last of several maxima. -/
def maxEntry (iter : IterOrder) (readlist : Readlist) : Option ReadlistEntry :=
  (iter.order readlist.entries).reverse.argmax entryTag

/-- The end of the `Value` branch: a new phase identifier is stored, then `content` is
broadcast under it. -/
def enterWritePhase (self : AtomicRegisterImplementation) (header : SystemCommandHeader)
    (content : SystemRegisterCommandContent) : RegisterProgram AtomicRegisterImplementation := do
  let self := { self with state := { self.state with readIdent := self.state.readIdent + 1 } }
  storeState self
  Program.perform (S := registerSignature) (.broadcast
    { header :=
        { processIdentifier := self.selfIdent
          msgIdent := header.msgIdent
          readIdent := self.state.readIdent
          sectorIdx := header.sectorIdx }
      content })
  return self

/-- `system_command` on a `Value`: collect it, and start the write phase once a majority
has answered. -/
def handleValue (iter : IterOrder) (self : AtomicRegisterImplementation)
    (header : SystemCommandHeader) (value : UInt64 × UInt8 × SectorVec) :
    RegisterProgram AtomicRegisterImplementation :=
  if header.readIdent ≠ self.state.readIdent then
    return self
  else
    let self := { self with readlist := self.readlist.insert header.processIdentifier value }
    if (self.reading || self.state.writing) && 2 * self.readlist.entries.length > self.processesCount
    then do
      let max ← unwrap (maxEntry iter self.readlist)
      let self := { self with readlist := ∅, acks := ∅ }
      if self.reading then
        let readval ← unwrap self.readval
        let self := { self with readval := some ⟨readval.requestIdentifier, max.2.2.2⟩ }
        self.enterWritePhase header (.writeProc max.2.1 max.2.2.1 max.2.2.2)
      else
        let writeval ← unwrap self.state.writeval
        self.enterWritePhase header (.writeProc (max.2.1 + 1) self.selfIdent writeval.data)
    else
      return self

/-- The end of the `WriteProc` branch. -/
def acknowledge (self : AtomicRegisterImplementation) (header : SystemCommandHeader) :
    RegisterProgram AtomicRegisterImplementation := do
  Program.perform (S := registerSignature) (.send
    { header := { header with processIdentifier := self.selfIdent }, content := .ack }
    header.processIdentifier.toNat)
  return self

/-- `system_command` on a `WriteProc`: store the data if its tag is larger, then
acknowledge. -/
def handleWriteProc (self : AtomicRegisterImplementation) (header : SystemCommandHeader)
    (timestamp : UInt64) (writeRank : UInt8) (dataToWrite : SectorVec) :
    RegisterProgram AtomicRegisterImplementation := do
  let stored ← Program.perform (S := registerSignature) (.readMetadata header.sectorIdx)
  if (⟨stored.1, stored.2⟩ : Tag) < ⟨timestamp, writeRank⟩ then
    writeSector header.sectorIdx (dataToWrite, timestamp, writeRank)
    self.acknowledge header
  else
    self.acknowledge header

/-- The end of the `Ack` branch: the callback is taken and called, if there is one. -/
def complete (self : AtomicRegisterImplementation) (requestIdentifier : UInt64)
    (opReturn : OperationReturn) : RegisterProgram AtomicRegisterImplementation :=
  match self.callback with
  | none => return self
  | some callback => do
    Program.perform (S := registerSignature)
      (.operationComplete callback ⟨.ok, requestIdentifier, opReturn⟩)
    return { self with callback := none }

/-- `system_command` on an `Ack`: count it, and complete the operation once a majority
has acknowledged. -/
def handleAck (self : AtomicRegisterImplementation) (header : SystemCommandHeader) :
    RegisterProgram AtomicRegisterImplementation :=
  if header.readIdent ≠ self.state.readIdent then
    return self
  else
    let self := { self with acks := insert header.processIdentifier self.acks }
    if (self.reading || self.state.writing) && 2 * self.acks.card > self.processesCount then
      let self := { self with acks := ∅ }
      if self.reading then do
        let self := { self with reading := false }
        let readval ← unwrap self.readval
        self.complete readval.requestIdentifier (.read ⟨some readval.data⟩)
      else do
        let self := { self with state := { self.state with writing := false } }
        storeState self
        let writeval ← unwrap self.state.writeval
        self.complete writeval.header.requestIdentifier .write
    else
      return self

/-- `system_command`. -/
def systemCommand (iter : IterOrder) (self : AtomicRegisterImplementation)
    (cmd : SystemRegisterCommand) : RegisterProgram AtomicRegisterImplementation :=
  match cmd.content with
  | .readProc => self.handleReadProc cmd.header
  | .value timestamp writeRank sectorData =>
    self.handleValue iter cmd.header (timestamp, writeRank, sectorData)
  | .writeProc timestamp writeRank dataToWrite =>
    self.handleWriteProc cmd.header timestamp writeRank dataToWrite
  | .ack => self.handleAck cmd.header

end AtomicRegisterImplementation

end AtomicDiscDrive
