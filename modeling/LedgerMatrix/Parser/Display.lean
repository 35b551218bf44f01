import LedgerMatrix.Foundation.Numeral
import LedgerMatrix.Parser.Basic
import LedgerMatrix.Uint256.ToString

/-! # Showing a transaction

The displaying half of `parser.c`. An item of the display is a key, one page of
a value and the number of pages. Every item is rendered from the stored items
again each time it is asked for.
-/

namespace LedgerMatrix

open Imperative RecursiveLength

/-- The functions that the application takes from its support library. Each
writes into the buffer it is given and no further. -/
structure Zxlib where
  /-- One page of a text, and the number of pages. -/
  pageStringExt : List UInt8 → List UInt8 → Nat → List UInt8 × Nat
  /-- One page of a text in hexadecimal, and the number of pages. -/
  pageStringHex : List UInt8 → List UInt8 → Nat → List UInt8 × Nat
  /-- A time, and whether it could be written. -/
  printTime : List UInt8 → UInt64 → Bool × List UInt8
  pageStringExt_length : ∀ out text pageIdx,
    (pageStringExt out text pageIdx).1.length = out.length
  pageStringHex_length : ∀ out text pageIdx,
    (pageStringHex out text pageIdx).1.length = out.length
  printTime_length : ∀ out time, (printTime out time).2.length = out.length

/-- The buffers and the page count that an item is written to. -/
structure Display where
  outKey : List UInt8
  outVal : List UInt8
  pageCount : Nat
  deriving DecidableEq

def Display.value : Lens Display (List UInt8) :=
  ⟨Display.outVal, fun value d => { d with outVal := value }⟩

/-- The name of a display item. -/
def printKey (key : List UInt8) : Parser Display Unit :=
  Command.modify fun d => { d with outKey := snprintf key d.outKey }

/-- A text as the value of an item. -/
def printText (text : List UInt8) : Parser Display Unit :=
  Command.modify fun d => { d with outVal := snprintf text d.outVal }

def cleanOutput : Parser Display Unit :=
  Command.modify fun d =>
    { d with
      outKey := snprintf (ascii "?") (List.replicate d.outKey.length 0)
      outVal := snprintf (ascii " ") (List.replicate d.outVal.length 0) }

def checkSanity (numItems displayIdx : Nat) : Parser Display Unit :=
  if displayIdx ≥ numItems then fail .displayIdxOutOfRange else pure ()

/-- `tostring256` in base 10 into the value, where false becomes an error. -/
def printDecimal (value : Uint256) : Parser Display Unit := do
  let d ← Command.read
  let shown ← Command.zoom Display.value (tostring256 value 10 d.outVal.length)
  if shown then pure () else fail .unexpectedError

/-- Read the number in an item and print it. -/
def printUInt256 (mem : List UInt8) (rlp : Rlp) : Parser Display Unit := do
  let value ← rlpReadUInt256 mem rlp
  printDecimal value

/-- One page of the bytes of an item. -/
def printPage (page : List UInt8 → List UInt8 → Nat → List UInt8 × Nat) (mem : List UInt8)
    (rlp : Rlp) (pageIdx : Nat) : Parser Display Unit := do
  let text ← loadBytes mem rlp.ptr rlp.rlpLen
  Command.modify fun d =>
    { d with
      outVal := (page d.outVal text pageIdx).1
      pageCount := (page d.outVal text pageIdx).2 }

/-- A value whose item has the recorded length 0 is replaced by a text. -/
def printEmpty (rlp : Rlp) : Parser Display Unit :=
  if rlp.rlpLen = 0 then
    Command.modify fun d =>
      { d with pageCount := 1, outVal := snprintf (ascii "Empty") d.outVal }
  else pure ()

def printCommitTime (zx : Zxlib) (value : Uint256) : Parser Display Unit :=
  -- the time is restricted to 64 bits
  if value.upper.upper ≠ 0 ∨ value.upper.lower ≠ 0 ∨ value.lower.upper ≠ 0 then
    fail .unexpectedError
  else do
    let d ← Command.read
    Command.modify fun d => { d with outVal := (zx.printTime d.outVal value.lower.lower).2 }
    if (zx.printTime d.outVal value.lower.lower).1 then pure () else fail .unexpectedError

/-- Read the commit time and print it. -/
def printCommitTimeField (zx : Zxlib) (mem : List UInt8) (rlp : Rlp) : Parser Display Unit := do
  let value ← rlpReadUInt256 mem rlp
  printCommitTime zx value

/-- Only a chain id that is a single byte is printed. -/
def printChainID (mem : List UInt8) (rlp : Rlp) : Parser Display Unit :=
  if rlp.kind ≠ .byte ∨ rlp.rlpLen ≠ 0 then fail .unexpectedValue
  else do
    let byte ← load mem rlp.ptr
    printText (Numeral.text 10 byte.toNat)

/-- The transaction type decides between text and hexadecimal. -/
def printDataPage (zx : Zxlib) (mem : List UInt8) (rlp : Rlp) (extraTxType pageIdx : Nat) :
    Parser Display Unit :=
  if extraTxType = 5 ∨ extraTxType = 9 ∨ extraTxType = 6 then
    printPage zx.pageStringExt mem rlp pageIdx
  else if extraTxType = 0 ∨ extraTxType = 3 ∨ extraTxType = 4 then
    printPage zx.pageStringHex mem rlp pageIdx
  else fail .unexpectedType

def printDataField (zx : Zxlib) (mem : List UInt8) (rlp : Rlp) (extraTxType pageIdx : Nat) :
    Parser Display Unit := do
  printDataPage zx mem rlp extraTxType pageIdx
  printEmpty rlp

def printTxType (extraTxType : Nat) : Parser Display Unit :=
  match extraTxType with
  | 0 => printText (ascii "Normal")
  | 3 => printText (ascii "Scheduled")
  | 4 => printText (ascii "Revert")
  | 5 => printText (ascii "Authorize")
  | 6 => printText (ascii "Cancel Auth")
  | 9 => printText (ascii "Create curr")
  | _ => fail .unexpectedType

/-- A key with the number of the recipient in brackets. -/
def indexedKey (name : String) (index : Nat) : List UInt8 :=
  ascii name ++ ascii " [" ++ Numeral.text 10 index ++ ascii "]"

/-- A text item of a recipient. -/
def printRecipientText (zx : Zxlib) (mem : List UInt8) (rlp : Rlp) (pageIdx : Nat) :
    Parser Display Unit := do
  printPage zx.pageStringExt mem rlp pageIdx
  printEmpty rlp

/-- The amount of a recipient. The result of the printing is kept until after the
check of the recorded length. -/
def printRecipientAmount (mem : List UInt8) (rlp : Rlp) : Parser Display Unit := do
  let value ← rlpReadUInt256 mem rlp
  let d ← Command.read
  let shown ← Command.zoom Display.value (tostring256 value 10 d.outVal.length)
  printEmpty rlp
  if shown then pure () else fail .unexpectedError

/-- The three items of a recipient. -/
def printExtraField (zx : Zxlib) (mem : List UInt8) (tmpList : Vector Rlp extraToFieldCount)
    (extraToIdx pageIdx : Nat) : Nat → Parser Display Unit
  | 0 => do
      printKey (indexedKey "To" extraToIdx)
      printRecipientText zx mem tmpList[0] pageIdx
  | 1 => do
      printKey (indexedKey "Amount" extraToIdx)
      printRecipientAmount mem tmpList[1]
  | 2 => do
      printKey (indexedKey "Payload" extraToIdx)
      printRecipientText zx mem tmpList[2] pageIdx
  | _ => fail .noData

def printExtraFields (zx : Zxlib) (mem : List UInt8) (txObj : ParserTx)
    (displayIdx pageIdx : Nat) : Parser Display Unit :=
  if displayIdx ≥ displayCount + txObj.extraToFieldsItems * 3 then fail .noData
  else
    let extraToIdx := (displayIdx - displayCount) / 3
    let fieldIdx := (displayIdx - displayCount) % 3
    if h : extraToIdx < extraListFieldCount then
      -- the items of the recipient are read again
      Command.scope (Fields.zero extraToFieldCount) do
        Command.zoom Lens.fst
          (rlpReadList mem txObj.extraToListFields[extraToIdx] extraToFieldCount)
        let s ← Command.read
        Command.zoom Lens.snd (printExtraField zx mem s.1.items extraToIdx pageIdx fieldIdx)
    else fault .outOfBounds

/-- The items of the display. The index is the field index up to `ChainID`; the
items after it have their own. -/
def printItem (zx : Zxlib) (mem : List UInt8) (txObj : ParserTx) (displayIdx pageIdx : Nat) :
    Parser Display Unit :=
  match displayIdx with
  | 0 => do
      printKey (ascii "Nonce")
      printUInt256 mem txObj.fields[0]
  | 1 => do
      printKey (ascii "Gas Price")
      printUInt256 mem txObj.fields[1]
  | 2 => do
      printKey (ascii "Gas Limit")
      printUInt256 mem txObj.fields[2]
  | 3 => do
      printKey (ascii "To")
      printPage zx.pageStringExt mem txObj.fields[3] pageIdx
  | 4 => do
      printKey (ascii "Value")
      printUInt256 mem txObj.fields[4]
  | 5 => do
      printKey (ascii "Data")
      printDataField zx mem txObj.fields[5] txObj.extraTxType pageIdx
  | 6 => do
      printKey (ascii "ChainID")
      printChainID mem txObj.fields[6]
  | 7 => do
      printKey (ascii "EnterType")
      printUInt256 mem txObj.fields[7]
  | 8 => do
      printKey (ascii "IsEntrustTx")
      printUInt256 mem txObj.fields[8 + 2]
  | 9 => do
      printKey (ascii "CommitTime")
      printCommitTimeField zx mem txObj.fields[9 + 2]
  | 10 => do
      printKey (ascii "TxType")
      printTxType txObj.extraTxType
  | 11 => do
      printKey (ascii "Lock Height")
      printUInt256 mem txObj.extraFields[1]
  | displayIdx => printExtraFields zx mem txObj displayIdx pageIdx

def parserGetItem (zx : Zxlib) (mem : List UInt8) (s : ParserState) (displayIdx pageIdx : Nat) :
    Parser Display Unit := do
  Command.modify fun d => { d with pageCount := 1 }
  let numItems ← parserGetNumItems s
  checkSanity numItems displayIdx
  cleanOutput
  printItem zx mem s.txObj displayIdx pageIdx

/-- The loop of `parser_validate`. The number of items has 8 bits, so the index
does not wrap. -/
def parserValidateLoop (zx : Zxlib) (mem : List UInt8) (s : ParserState) :
    Nat → Nat → Parser Display Unit
  | 0, _ => pure ()
  | left + 1, idx => do
      Command.modify fun d => { d with pageCount := 0 }
      parserGetItem zx mem s idx 0
      parserValidateLoop zx mem s left (idx + 1)

/-- Every item is rendered once, at its first page, into buffers of 40 bytes. The
buffers start uninitialised; every item clears them before it is written. -/
def parserValidate (zx : Zxlib) (mem : List UInt8) (s : ParserState) : Parser Unit Unit := do
  let numItems ← parserGetNumItems s
  Command.scope ⟨List.replicate 40 0, List.replicate 40 0, 0⟩
    (Command.zoom Lens.fst (parserValidateLoop zx mem s numItems 0))

end LedgerMatrix
