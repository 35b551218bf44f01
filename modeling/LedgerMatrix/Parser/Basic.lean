import LedgerMatrix.Rlp.Basic

/-! # Parsing a transaction

The functions of `parser_impl.c` and the parsing half of `parser.c`. A
transaction is one list of 13 items. The last of them is a list that holds one
list of three items: the type, the lock height and the further recipients.
-/

namespace LedgerMatrix

open Imperative RecursiveLength

/-- `MANTX_ROOTFIELD_COUNT`. -/
abbrev rootFieldCount : Nat := 13

/-- `MANTX_EXTRAFIELD_COUNT`. -/
abbrev extraFieldCount : Nat := 3

/-- `MANTX_EXTRALISTFIELD_COUNT`. -/
abbrev extraListFieldCount : Nat := 10

/-- `MANTX_DISPLAY_COUNT`. -/
abbrev displayCount : Nat := 12

/-- `MANTX_EXTRATOFIELD_COUNT`. -/
abbrev extraToFieldCount : Nat := 3

/-- `MANTX_TXTYPE_SUPERBLOCK`, the largest value of `tx_type_e`. -/
abbrev txTypeSuperblock : Nat := 122

/-! The positions of the fields in the root list and in the extra list. The source
names all but R and S in `tx_fields_e`, with the positions of the display. -/

def RootField.nonce : Fin rootFieldCount := ⟨0, (by decide : 0 < 13)⟩
def RootField.gasPrice : Fin rootFieldCount := ⟨1, (by decide : 1 < 13)⟩
def RootField.gasLimit : Fin rootFieldCount := ⟨2, (by decide : 2 < 13)⟩
def RootField.to : Fin rootFieldCount := ⟨3, (by decide : 3 < 13)⟩
def RootField.value : Fin rootFieldCount := ⟨4, (by decide : 4 < 13)⟩
def RootField.data : Fin rootFieldCount := ⟨5, (by decide : 5 < 13)⟩
def RootField.v : Fin rootFieldCount := ⟨6, (by decide : 6 < 13)⟩
def RootField.r : Fin rootFieldCount := ⟨7, (by decide : 7 < 13)⟩
def RootField.s : Fin rootFieldCount := ⟨8, (by decide : 8 < 13)⟩
def RootField.enterType : Fin rootFieldCount := ⟨9, (by decide : 9 < 13)⟩
def RootField.isEntrustTx : Fin rootFieldCount := ⟨10, (by decide : 10 < 13)⟩
def RootField.commitTime : Fin rootFieldCount := ⟨11, (by decide : 11 < 13)⟩
def RootField.extra : Fin rootFieldCount := ⟨12, (by decide : 12 < 13)⟩
def ExtraField.txType : Fin extraFieldCount := ⟨0, (by decide : 0 < 3)⟩
def ExtraField.lockHeight : Fin extraFieldCount := ⟨1, (by decide : 1 < 3)⟩
def ExtraField.to : Fin extraFieldCount := ⟨2, (by decide : 2 < 3)⟩

/-- `parser_tx_t`. -/
structure ParserTx where
  root : Rlp
  fields : Vector Rlp rootFieldCount
  extraFields : Vector Rlp extraFieldCount
  extraToListFields : Vector Rlp extraListFieldCount
  rootFieldsItems : Nat
  extraFieldsItems : Nat
  extraToFieldsItems : Nat
  extraTxType : Nat
  deriving DecidableEq

/-- The transaction that `MEMZERO` leaves. -/
def ParserTx.zero : ParserTx :=
  { root := Rlp.zero
    fields := Vector.replicate _ Rlp.zero
    extraFields := Vector.replicate _ Rlp.zero
    extraToListFields := Vector.replicate _ Rlp.zero
    rootFieldsItems := 0
    extraFieldsItems := 0
    extraToFieldsItems := 0
    extraTxType := 0 }

namespace ParserTx

/-- The root item, with a counter that is a local variable of `_read`. -/
def rootStream : Lens (Nat × ParserContext × ParserTx) (ParserContext × Fields 1) :=
  ⟨fun s => (s.2.1, ⟨#v[s.2.2.root], s.1⟩),
    fun value s => (value.2.count, value.1, { s.2.2 with root := value.2.items[0] })⟩

def rootItems : Lens ParserTx (Fields rootFieldCount) :=
  ⟨fun v => ⟨v.fields, v.rootFieldsItems⟩,
    fun value v => { v with fields := value.items, rootFieldsItems := value.count }⟩

/-- The list inside the extra list is a local variable of `_read`; the counter
is that of the extra fields. -/
def innerElements : Lens (Rlp × ParserTx) (Fields 1) :=
  ⟨fun s => ⟨#v[s.1], s.2.extraFieldsItems⟩,
    fun value s => (value.items[0], { s.2 with extraFieldsItems := value.count })⟩

def extraItems : Lens ParserTx (Fields extraFieldCount) :=
  ⟨fun v => ⟨v.extraFields, v.extraFieldsItems⟩,
    fun value v => { v with extraFields := value.items, extraFieldsItems := value.count }⟩

def extraToItems : Lens ParserTx (Fields extraListFieldCount) :=
  ⟨fun v => ⟨v.extraToListFields, v.extraToFieldsItems⟩,
    fun value v =>
      { v with extraToListFields := value.items, extraToFieldsItems := value.count }⟩

@[simp] theorem rootStream_get (s : Nat × ParserContext × ParserTx) :
    rootStream.get s = (s.2.1, ⟨#v[s.2.2.root], s.1⟩) := rfl

@[simp] theorem rootStream_set (value : ParserContext × Fields 1)
    (s : Nat × ParserContext × ParserTx) : rootStream.set value s =
      (value.2.count, value.1, { s.2.2 with root := value.2.items[0] }) := rfl

@[simp] theorem rootItems_get (v : ParserTx) :
    rootItems.get v = ⟨v.fields, v.rootFieldsItems⟩ := rfl

@[simp] theorem rootItems_set (value : Fields rootFieldCount) (v : ParserTx) :
    rootItems.set value v = { v with fields := value.items, rootFieldsItems := value.count } :=
  rfl

@[simp] theorem innerElements_get (s : Rlp × ParserTx) :
    innerElements.get s = ⟨#v[s.1], s.2.extraFieldsItems⟩ := rfl

@[simp] theorem innerElements_set (value : Fields 1) (s : Rlp × ParserTx) :
    innerElements.set value s =
      (value.items[0], { s.2 with extraFieldsItems := value.count }) := rfl

@[simp] theorem extraItems_get (v : ParserTx) :
    extraItems.get v = ⟨v.extraFields, v.extraFieldsItems⟩ := rfl

@[simp] theorem extraItems_set (value : Fields extraFieldCount) (v : ParserTx) :
    extraItems.set value v =
      { v with extraFields := value.items, extraFieldsItems := value.count } := rfl

@[simp] theorem extraToItems_get (v : ParserTx) :
    extraToItems.get v = ⟨v.extraToListFields, v.extraToFieldsItems⟩ := rfl

@[simp] theorem extraToItems_set (value : Fields extraListFieldCount) (v : ParserTx) :
    extraToItems.set value v =
      { v with extraToListFields := value.items, extraToFieldsItems := value.count } := rfl

end ParserTx

/-- The binary search of `validateTxType`; `none` when the passes run out. -/
def searchTxType (value : Nat) : Nat → Nat → Nat → Option Bool
  | 0, _, _ => none
  | passes + 1, left, right =>
      if left ≤ right then
        let mid := u8 ((left + right) / 2)
        if mid = value then some true
        else if mid < value then searchTxType value passes (u8 (mid + 1)) right
        else searchTxType value passes left (u8 (mid + (2 ^ 8 - 1)))
      else some false

def validateTxType {σ : Type} (value : Nat) : Parser σ Unit :=
  if value > txTypeSuperblock then fail .valueOutOfRange
  else match searchTxType value (txTypeSuperblock + 1) 0 txTypeSuperblock with
    | none => fault .noTermination
    | some true => pure ()
    | some false => fail .unexpectedValue

/-- Parse items within the root. -/
def readRootItems (mem : List UInt8) : Parser ParserTx Unit := do
  let v ← Command.read
  Command.zoom ParserTx.rootItems (rlpReadList mem v.root rootFieldCount)
  let v ← Command.read
  if v.rootFieldsItems ≠ rootFieldCount then fail .unexpectedNumberItems else pure ()

/-- Parse the extra fields: the 13th item is a list around a list. -/
def readExtraItems (mem : List UInt8) : Parser ParserTx Unit :=
  Command.scope Rlp.zero do
    let s ← Command.read
    Command.zoom ParserTx.innerElements (rlpReadList mem s.2.fields[rootFieldCount - 1] 1)
    let s ← Command.read
    Command.zoom Lens.snd (Command.zoom ParserTx.extraItems (rlpReadList mem s.1 extraFieldCount))
    let s ← Command.read
    if s.2.extraFieldsItems ≠ extraFieldCount then fail .unexpectedNumberItems else pure ()

/-- The transaction type is the last byte of the first extra field. -/
def readExtraTxType (mem : List UInt8) : Parser ParserTx Unit := do
  let v ← Command.read
  let tmp ← rlpReadUInt256 mem v.extraFields[0]
  Command.modify fun v => { v with extraTxType := u8 tmp.lower.lower.toNat }
  validateTxType (u8 tmp.lower.lower.toNat)

/-- Every recipient must be a list that starts with three items. The array has
ten elements, so the `uint8_t` index never wraps. -/
def verifyExtraTo (mem : List UInt8) : Nat → Nat → Parser ParserTx Unit
  | 0, _ => pure ()
  | left + 1, i => do
      let v ← Command.read
      if h : i < extraListFieldCount then do
        Command.scope (Fields.zero extraToFieldCount) do
          Command.zoom Lens.fst (rlpReadList mem v.extraToListFields[i] extraToFieldCount)
          let s ← Command.read
          if s.1.count ≠ extraToFieldCount then fail .unexpectedValue else pure ()
        verifyExtraTo mem left (i + 1)
      else fault .outOfBounds

/-- The further recipients: the third extra field, when it is a list that is not
empty. -/
def readExtraTo (mem : List UInt8) : Parser ParserTx Unit := do
  let v ← Command.read
  let extraToList := v.extraFields[extraFieldCount - 1]
  if extraToList.kind = .list ∧ extraToList.rlpLen > 0 then do
    Command.zoom ParserTx.extraToItems (rlpReadList mem extraToList extraListFieldCount)
    let v ← Command.read
    verifyExtraTo mem v.extraToFieldsItems 0
  else pure ()

def _read (mem : List UInt8) : Parser (ParserContext × ParserTx) Unit := do
  -- a single root list is expected
  Command.scope 0 (Command.zoom ParserTx.rootStream (rlpParseStream mem 1))
  let s ← Command.read
  if s.1.offset < s.1.bufferLen then fail .unexpectedUnparsedBytes
  else if s.2.root.kind ≠ .list then fail .unexpectedType
  else Command.zoom Lens.snd do
    readRootItems mem
    readExtraItems mem
    readExtraTxType mem
    readExtraTo mem

/-- A parsing context and the transaction object that contexts share. -/
structure ParserState where
  ctx : ParserContext
  txObj : ParserTx
  deriving DecidableEq

def ParserState.both : Lens ParserState (ParserContext × ParserTx) :=
  ⟨fun s => (s.ctx, s.txObj), fun value _ => ⟨value.1, value.2⟩⟩

def parserInitContext (buffer : Option Nat) (bufferSize : Nat) : Parser ParserState Unit := do
  Command.modify fun s =>
    { s with ctx := { s.ctx with offset := 0, buffer := none, bufferLen := 0 } }
  if bufferSize = 0 ∨ buffer = none then fail .initContextEmpty
  else Command.modify fun s =>
    { ctx := { s.ctx with txObj := true, buffer := buffer, bufferLen := bufferSize }
      txObj := ParserTx.zero }

/-- The length of the data is cut to 16 bits when it is handed on. -/
def parserParse (mem : List UInt8) (data : Option Nat) (dataLen : Nat) :
    Parser ParserState Unit := do
  parserInitContext data (u16 dataLen)
  Command.zoom ParserState.both (_read mem)

def parserGetNumItems {σ : Type} (s : ParserState) : Parser σ Nat :=
  if ¬ s.ctx.txObj then fail .unexpectedError
  else pure (u8 (displayCount + s.txObj.extraToFieldsItems * 3))

end LedgerMatrix
