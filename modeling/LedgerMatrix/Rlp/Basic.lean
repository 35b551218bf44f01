import LedgerMatrix.Foundation.RecursiveLength
import LedgerMatrix.Machine
import LedgerMatrix.Uint256.Basic
import Mathlib.Data.Vector.Basic

/-! # Reading items

The functions of `rlp.c`. An `rlp_t` does not hold bytes: it points into the
buffer that holds the transaction, which no function here writes. Every context
has its own `uint16_t` offset, and a list is read through a context of its own
over the payload of the list.
-/

namespace LedgerMatrix

open Imperative RecursiveLength

/-- `parser_context_t`. A buffer is an offset into the memory, or null; of the
transaction pointer only whether it is set is kept, since it has one target. -/
structure ParserContext where
  buffer : Option Nat
  bufferLen : Nat
  offset : Nat
  txObj : Bool
  deriving DecidableEq

/-- `rlp_t`. -/
structure Rlp where
  kind : Kind
  ptr : Option Nat
  rlpLen : Nat
  deriving DecidableEq

/-- The item that `{0}` initialises. -/
def Rlp.zero : Rlp := ⟨.byte, none, 0⟩

/-- An array of items with the counter that says how many were read into it. -/
structure Fields (n : Nat) where
  items : Vector Rlp n
  count : Nat
  deriving DecidableEq

def Fields.zero (n : Nat) : Fields n := ⟨Vector.replicate n Rlp.zero, 0⟩

/-- One element of an array of items. -/
def Fields.item {n : Nat} (i : Fin n) : Lens (Fields n) Rlp :=
  ⟨fun fields => fields.items[i],
    fun value fields => { fields with items := fields.items.set i value }⟩

/-- The number of bytes between the offset and the end, in the `uint64_t` that
the length is compared with. -/
def ParserContext.remaining (ctx : ParserContext) : Nat :=
  (((ctx.bufferLen : Int) - ctx.offset) % 2 ^ 64).toNat

/-- Claim `buffLen` bytes at the offset, and return where they start. -/
def readBytes (buffLen : Nat) : Parser ParserContext (Option Nat) := do
  let ctx ← Command.read
  if ctx.remaining < buffLen then fail .unexpectedBufferEnd
  else
    Command.modify fun ctx => { ctx with offset := u16 (ctx.offset + buffLen) }
    Command.emit (.advance (u16 (ctx.offset + buffLen)) ctx.bufferLen)
    pure (ctx.buffer.map (· + ctx.offset))

/-- Like `readBytes`, but the bytes themselves are copied out. -/
def copyBytes (mem : List UInt8) (buffLen : Nat) : Parser ParserContext (List UInt8) := do
  let ctx ← Command.read
  if ctx.remaining < buffLen then fail .unexpectedBufferEnd
  else
    let bytes ← loadBytes mem (ctx.buffer.map (· + ctx.offset)) buffLen
    Command.modify fun ctx => { ctx with offset := u16 (ctx.offset + buffLen) }
    Command.emit (.advance (u16 (ctx.offset + buffLen)) ctx.bufferLen)
    pure bytes

/-- The loop that reads the length of a long header into `rlpLen`. -/
def rlpLenLoop (mem : List UInt8) (rlpLenPtr : Option Nat) :
    Nat → Nat → Parser (ParserContext × Rlp) Unit
  | 0, _ => pure ()
  | left + 1, i => do
      let byte ← load mem (rlpLenPtr.map (· + i))
      Command.modify fun s =>
        (s.1, { s.2 with rlpLen := u64 (u64 (s.2.rlpLen * 2 ^ 8) + byte.toNat) })
      rlpLenLoop mem rlpLenPtr left (i + 1)

/-- The payload of an item starts at the offset and has `rlpLen` bytes. -/
def rlpReadPayload : Parser (ParserContext × Rlp) Unit := do
  let s ← Command.read
  let ptr ← Command.zoom Lens.fst (readBytes s.2.rlpLen)
  Command.modify fun s => (s.1, { s.2 with ptr := ptr })

/-- A short header: the length stands in the prefix. -/
def rlpReadShort (kind : Kind) (rlpLen : Nat) : Parser (ParserContext × Rlp) Unit := do
  Command.modify fun s => (s.1, { s.2 with kind := kind, rlpLen := rlpLen })
  rlpReadPayload

/-- A long header: the length stands in the `bytesLen` bytes after the prefix. -/
def rlpReadLong (mem : List UInt8) (kind : Kind) (bytesLen : Nat) :
    Parser (ParserContext × Rlp) Unit := do
  Command.modify fun s => (s.1, { s.2 with kind := kind })
  let rlpLenPtr ← Command.zoom Lens.fst (readBytes bytesLen)
  Command.modify fun s => (s.1, { s.2 with rlpLen := 0 })
  rlpLenLoop mem rlpLenPtr bytesLen 0
  rlpReadPayload

def rlpRead (mem : List UInt8) : Parser (ParserContext × Rlp) Unit := do
  let prefixPtr ← Command.zoom Lens.fst (readBytes 1)
  let first ← load mem prefixPtr
  if first.toNat ≤ 0x7F then
    Command.modify fun s => (s.1, { kind := .byte, ptr := prefixPtr, rlpLen := 0 })
  else if first.toNat ≤ 0xB7 then rlpReadShort .string (first.toNat - 0x80)
  else if first.toNat ≤ 0xBF then rlpReadLong mem .string (first.toNat - 0xB7)
  else if first.toNat ≤ 0xF7 then rlpReadShort .list (first.toNat - 0xC0)
  else rlpReadLong mem .list (first.toNat - 0xF7)

/-- A context with the element of an array that the counter points at. -/
def Fields.current {n : Nat} (i : Fin n) :
    Lens (ParserContext × Fields n) (ParserContext × Rlp) :=
  ⟨fun s => (s.1, (Fields.item i).get s.2),
    fun value s => (value.1, (Fields.item i).set value.2 s.2)⟩

/-- The loop of `rlp_parseStream`. The counter starts at 0 and every pass
increments it, so `maxFields` passes are enough. -/
def rlpParseStreamLoop (mem : List UInt8) {n : Nat} (maxFields : Nat) :
    Nat → Parser (ParserContext × Fields n) Unit
  | 0 => do
      let s ← Command.read
      if s.1.offset < s.1.bufferLen ∧ s.2.count < maxFields then fault .noTermination
      else pure ()
  | passes + 1 => do
      let s ← Command.read
      if s.1.offset < s.1.bufferLen ∧ s.2.count < maxFields then
        if h : s.2.count < n then do
          Command.zoom (Fields.current ⟨s.2.count, h⟩) (rlpRead mem)
          Command.modify fun s => (s.1, { s.2 with count := u16 (s.2.count + 1) })
          rlpParseStreamLoop mem maxFields passes
        else fault .outOfBounds
      else pure ()

def rlpParseStream (mem : List UInt8) {n : Nat} (maxFields : Nat) :
    Parser (ParserContext × Fields n) Unit := do
  Command.modify fun s => (s.1, { s.2 with count := 0 })
  rlpParseStreamLoop mem maxFields maxFields

/-- Run a command with a context over the payload of an item. Its buffer length
has 16 bits, the length of the item has 64. -/
def withContext {σ α : Type} (rlp : Rlp) (body : Parser (ParserContext × σ) α) : Parser σ α := do
  Command.emit (.narrow rlp.rlpLen (u16 rlp.rlpLen))
  Command.scope ⟨rlp.ptr, u16 rlp.rlpLen, 0, false⟩ body

def rlpReadList (mem : List UInt8) (list : Rlp) {n : Nat} (maxFields : Nat) :
    Parser (Fields n) Unit :=
  if list.kind ≠ .list then fail .unexpectedError
  else withContext list (rlpParseStream mem maxFields)

/-- The value of an item, right-aligned in the 32 bytes of `tmpBuffer`. -/
def rlpReadUInt256 {σ : Type} (mem : List UInt8) (rlp : Rlp) : Parser σ Uint256 :=
  match rlp.kind with
  | .string =>
      if rlp.rlpLen > 32 then fail .valueOutOfRange
      else do
        let bytes ← withContext rlp (Command.zoom Lens.fst (copyBytes mem rlp.rlpLen))
        let tmpBuffer := List.replicate (32 - rlp.rlpLen) 0 ++ bytes
        pure (readu256BE fun i => tmpBuffer.getD i 0)
  | .byte => do
      let byte ← load mem rlp.ptr
      let tmpBuffer := List.replicate 31 0 ++ [byte]
      pure (readu256BE fun i => tmpBuffer.getD i 0)
  | .list => fail .unexpectedType

end LedgerMatrix
