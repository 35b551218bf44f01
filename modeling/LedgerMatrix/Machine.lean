import LedgerMatrix.Foundation.Command
import Mathlib.Algebra.Group.Nat.Defs
import Mathlib.Data.List.Basic
import Mathlib.Tactic.Common

/-! # Error codes and memory

The functions of the application return a `parser_error_t` and write through
pointers. Here `parser_ok` is a normal end and every other code an early return,
which keeps what was written so far, as `CHECK_ERROR` does. A read or write
outside its object, a null pointer that is followed and a loop that does not end
are faults, which the source has no code for.
-/

namespace LedgerMatrix

open Imperative

/-- `parser_error_t` without `parser_ok`. -/
inductive ParserError where
  | noData
  | initContextEmpty
  | displayIdxOutOfRange
  | displayPageOutOfRange
  | unexpectedError
  | unexpectedType
  | unexpectedMethod
  | unexpectedBufferEnd
  | unexpectedUnparsedBytes
  | unexpectedValue
  | unexpectedNumberItems
  | unexpectedVersion
  | unexpectedCharacters
  | unexpectedField
  | duplicatedField
  | valueOutOfRange
  | invalidAddress
  | unexpectedChain
  | missingField
  | unknownTransaction
  deriving DecidableEq

/-- `parser_getErrorDescription`. Several codes have no text of their own. -/
def parserGetErrorDescription : ParserError → String
  | .noData => "No more data"
  | .initContextEmpty => "Initialized empty context"
  | .unexpectedBufferEnd => "Unexpected buffer end"
  | .unexpectedUnparsedBytes => "Unexpected unparsed bytes"
  | .unexpectedVersion => "Unexpected version"
  | .unexpectedCharacters => "Unexpected characters"
  | .unexpectedField => "Unexpected field"
  | .duplicatedField => "Unexpected duplicated field"
  | .valueOutOfRange => "Value out of range"
  | .unexpectedChain => "Unexpected chain"
  | .missingField => "missing field"
  | .displayIdxOutOfRange => "display index out of range"
  | .displayPageOutOfRange => "display page out of range"
  | _ => "Unrecognized error code"

/-- What C leaves undefined. -/
inductive Fault where
  | nullPointer
  | outOfBounds
  | noTermination
  deriving DecidableEq

/-- Why a function did not return `parser_ok`. -/
inductive Stop where
  | error (code : ParserError)
  | fault (fault : Fault)
  deriving DecidableEq

/-- What the parser does to lengths: it moves the offset of a context, and it
keeps 16 bits of a length when it enters a list again. -/
inductive Event where
  | advance (offset bufferLen : Nat)
  | narrow (rlpLen bufferLen : Nat)

/-- The offset is inside the context's buffer, and no length loses bits. -/
def Event.Good : Event → Prop
  | advance offset bufferLen => offset ≤ bufferLen
  | narrow rlpLen bufferLen => bufferLen = rlpLen

/-- A function over the state `σ`. -/
abbrev Parser (σ α : Type) : Type := Command Event Stop σ α

/-- The value that a `uint8_t` keeps of a number. -/
def u8 (n : Nat) : Nat := n % 2 ^ 8

/-- The value that a `uint16_t` keeps of a number. -/
def u16 (n : Nat) : Nat := n % 2 ^ 16

/-- The value that a `uint64_t` keeps of a number. -/
def u64 (n : Nat) : Nat := n % 2 ^ 64

section Primitives

variable {σ α : Type}

def fail (code : ParserError) : Parser σ α := Command.stop (.error code)

def fault (fault : Fault) : Parser σ α := Command.stop (.fault fault)

/-- The bytes `[start, start + count)` of a memory. -/
def slice (mem : List UInt8) (start count : Nat) : List UInt8 := (mem.drop start).take count

/-- Read one byte of the input. A pointer is an offset into it, or null. -/
def load (mem : List UInt8) : Option Nat → Parser σ UInt8
  | none => fault .nullPointer
  | some address =>
      match mem[address]? with
      | none => fault .outOfBounds
      | some byte => pure byte

/-- Read `count` bytes of the input. Reading none follows no pointer. -/
def loadBytes (mem : List UInt8) (pointer : Option Nat) (count : Nat) : Parser σ (List UInt8) :=
  if count = 0 then pure []
  else match pointer with
    | none => fault .nullPointer
    | some address =>
        if address + count ≤ mem.length then pure (slice mem address count)
        else fault .outOfBounds

/-- Write one byte of an output buffer. -/
def storeAt (index : Nat) (byte : UInt8) : Parser (List UInt8) Unit := do
  let buffer ← Command.read
  if index < buffer.length then Command.modify fun buffer => buffer.set index byte
  else fault .outOfBounds

/-- Bytes put over what a memory holds from an index on. -/
def overwrite (memory : List UInt8) (index : Nat) (bytes : List UInt8) : List UInt8 :=
  memory.take index ++ bytes ++ memory.drop (index + bytes.length)

/-- Write bytes one after the other. -/
def storeBytes (index : Nat) : List UInt8 → Parser (List UInt8) Unit
  | [] => pure ()
  | byte :: bytes => do
      storeAt index byte
      storeBytes (index + 1) bytes

/-- The bytes of an ASCII text. -/
def ascii (text : String) : List UInt8 := text.toList.map Char.toUInt8

/-- `snprintf` of a text: what fits, and a terminator. -/
def snprintf (text buffer : List UInt8) : List UInt8 :=
  if buffer.length = 0 then buffer
  else
    let shown := text.take (buffer.length - 1)
    shown ++ 0 :: buffer.drop (shown.length + 1)

/-- The text that a buffer holds, up to its terminator. -/
def cString (buffer : List UInt8) : List UInt8 := buffer.takeWhile (· ≠ 0)

end Primitives

/-! ## What the primitives do -/

section Laws

variable {σ α : Type} {safe : Event → Prop} {s : σ} {post : α → σ → Prop}
  {early : Stop → σ → Prop}

@[simp] theorem wp_fail (code : ParserError) :
    (fail code : Parser σ α).wp safe s post early ↔ early (.error code) s :=
  Command.wp_stop _

@[simp] theorem wp_fault (cause : Fault) :
    (fault cause : Parser σ α).wp safe s post early ↔ early (.fault cause) s :=
  Command.wp_stop _

@[simp] theorem slice_length {mem : List UInt8} {start count : Nat}
    (h : start + count ≤ mem.length) : (slice mem start count).length = count := by
  rw [slice, List.length_take, List.length_drop]
  omega

theorem slice_succ {mem : List UInt8} {start count : Nat} (h : start < mem.length) :
    slice mem start (count + 1) = mem[start] :: slice mem (start + 1) count := by
  rw [slice, List.drop_eq_getElem_cons h, List.take_succ_cons, slice]

theorem slice_slice {mem : List UInt8} {start count first inner : Nat}
    (h : first + inner ≤ count) :
    slice (slice mem start count) first inner = slice mem (start + first) inner := by
  rw [slice, slice, slice, List.drop_take, List.drop_drop, List.take_take,
    Nat.min_eq_left (by omega)]

theorem wp_load {mem : List UInt8} {address : Nat} (h : address < mem.length)
    {post : UInt8 → σ → Prop} (hpost : post mem[address] s) :
    (load mem (some address) : Parser σ UInt8).wp safe s post early := by
  simp only [load, List.getElem?_eq_getElem h, Command.wp_pure]
  exact hpost

theorem wp_loadBytes {mem : List UInt8} {address count : Nat}
    (h : address + count ≤ mem.length) {post : List UInt8 → σ → Prop}
    (hpost : post (slice mem address count) s) :
    (loadBytes mem (some address) count : Parser σ (List UInt8)).wp safe s post early := by
  unfold loadBytes
  split
  next hzero =>
    subst hzero
    simpa [slice] using hpost
  next =>
    simp only [h, if_true, Command.wp_pure]
    exact hpost

theorem wp_storeAt {buffer : List UInt8} {index : Nat} (h : index < buffer.length) (byte : UInt8)
    {post : Unit → List UInt8 → Prop} {early : Stop → List UInt8 → Prop}
    (hpost : post () (buffer.set index byte)) :
    (storeAt index byte).wp safe buffer post early := by
  simp only [storeAt, Command.wp_bind, Command.wp_read, h, if_true, Command.wp_modify]
  exact hpost

theorem wp_storeAt_outside {buffer : List UInt8} {index : Nat} (h : buffer.length ≤ index)
    (byte : UInt8) {post : Unit → List UInt8 → Prop} {early : Stop → List UInt8 → Prop}
    (hearly : early (.fault .outOfBounds) buffer) :
    (storeAt index byte).wp safe buffer post early := by
  simp only [storeAt, Command.wp_bind, Command.wp_read, Nat.not_lt.mpr h, if_false, wp_fault]
  exact hearly

section Overwriting

variable {memory : List UInt8} {index : Nat}

theorem overwrite_length {bytes : List UInt8} (h : index + bytes.length ≤ memory.length) :
    (overwrite memory index bytes).length = memory.length := by
  simp only [overwrite, List.length_append, List.length_take, List.length_drop]
  omega

theorem set_eq_overwrite (h : index < memory.length) (byte : UInt8) :
    memory.set index byte = overwrite memory index [byte] := by
  rw [List.set_eq_take_append_cons_drop, if_pos h, overwrite, List.append_assoc]
  rfl

theorem overwrite_nil (memory : List UInt8) (index : Nat) : overwrite memory index [] = memory := by
  simp [overwrite]

/-- Two writes, the second right behind the first, are one. -/
theorem overwrite_overwrite {first : List UInt8} (h : index + first.length ≤ memory.length)
    (second : List UInt8) :
    overwrite (overwrite memory index first) (index + first.length) second =
      overwrite memory index (first ++ second) := by
  have hfront : (memory.take index ++ first).length = index + first.length := by
    rw [List.length_append, List.length_take]
    omega
  unfold overwrite
  rw [List.take_left' hfront, ← List.drop_drop, List.drop_left' hfront, List.drop_drop,
    List.length_append, Nat.add_assoc, List.append_assoc _ first]

theorem getElem?_overwrite_of_outside {bytes : List UInt8}
    (h : index + bytes.length ≤ memory.length) {i : Nat}
    (hi : i < index ∨ index + bytes.length ≤ i) :
    (overwrite memory index bytes)[i]? = memory[i]? := by
  have htake : (memory.take index).length = index := by
    rw [List.length_take]
    omega
  unfold overwrite
  rcases hi with hbefore | hbehind
  · rw [List.append_assoc, List.getElem?_append_left (by omega), List.getElem?_take_of_lt hbefore]
  · rw [List.getElem?_append_right (by rw [List.length_append]; omega), List.length_append, htake,
      List.getElem?_drop]
    congr 1
    omega

theorem getElem?_overwrite_of_inside {bytes : List UInt8}
    (h : index + bytes.length ≤ memory.length) {i : Nat} (hi : i < bytes.length) :
    (overwrite memory index bytes)[index + i]? = bytes[i]? := by
  have htake : (memory.take index).length = index := by
    rw [List.length_take]
    omega
  unfold overwrite
  rw [List.append_assoc, List.getElem?_append_right (by omega), htake, Nat.add_sub_cancel_left,
    List.getElem?_append_left hi]

/-- Reading inside what was written gives a part of it. -/
theorem slice_overwrite {bytes : List UInt8} (h : index + bytes.length ≤ memory.length)
    {start count : Nat} (hpart : start + count ≤ bytes.length) :
    slice (overwrite memory index bytes) (index + start) count = slice bytes start count := by
  have htake : (memory.take index).length = index := by
    rw [List.length_take]
    omega
  unfold slice overwrite
  rw [List.append_assoc, ← List.drop_drop, List.drop_left' htake,
    List.drop_append_of_le_length (by omega), List.take_append_of_le_length]
  rw [List.length_drop]
  omega

/-- The first part of what was written reads back. -/
theorem slice_overwrite_left {first second : List UInt8}
    (h : index + (first ++ second).length ≤ memory.length) :
    slice (overwrite memory index (first ++ second)) index first.length = first := by
  have hpart : 0 + first.length ≤ (first ++ second).length := by
    rw [List.length_append]
    omega
  have hslice := slice_overwrite h hpart
  rw [Nat.add_zero] at hslice
  rw [hslice]
  exact List.take_left

theorem slice_overwrite_self {bytes : List UInt8} (h : index + bytes.length ≤ memory.length) :
    slice (overwrite memory index bytes) index bytes.length = bytes := by
  have hslice := @slice_overwrite_left memory index bytes []
  rw [List.append_nil] at hslice
  exact hslice h

/-- Two writes, the second right before the first, are one. -/
theorem overwrite_before {front : List UInt8} (h : index + front.length ≤ memory.length)
    (bytes : List UInt8) :
    overwrite (overwrite memory (index + front.length) bytes) index front =
      overwrite memory index (front ++ bytes) := by
  have htake : (memory.take index).length = index := by
    rw [List.length_take]
    omega
  have hfront : (memory.take (index + front.length)).length = index + front.length := by
    rw [List.length_take]
    omega
  unfold overwrite
  rw [List.append_assoc (memory.take _), List.take_append_of_le_length (by omega), List.take_take,
    Nat.min_eq_left (by omega), List.drop_left' hfront, List.length_append]
  simp only [List.append_assoc, Nat.add_assoc]

/-- A write is one of what was there before it, too. -/
theorem overwrite_behind {count : Nat} (h : index + count ≤ memory.length) (bytes : List UInt8) :
    overwrite memory index (slice memory index count ++ bytes) =
      overwrite memory (index + count) bytes := by
  have hsame : memory.take index ++ slice memory index count = memory.take (index + count) := by
    rw [slice, List.take_add]
  have hcount : (slice memory index count).length = count := slice_length h
  unfold overwrite
  rw [← List.append_assoc, hsame, List.length_append, hcount, Nat.add_assoc]

/-- A write over the front of another leaves the rest of that. -/
theorem overwrite_within {first second : List UInt8} (h : index + first.length ≤ memory.length)
    (hle : second.length ≤ first.length) :
    overwrite (overwrite memory index first) index second =
      overwrite memory index (second ++ first.drop second.length) := by
  have htake : (memory.take index).length = index := by
    rw [List.length_take]
    omega
  have hlength : (second ++ first.drop second.length).length = first.length := by
    rw [List.length_append, List.length_drop]
    omega
  unfold overwrite
  rw [List.append_assoc (memory.take index) first, List.take_left' htake, hlength,
    ← List.drop_drop, List.drop_left' htake, List.drop_append_of_le_length hle]
  simp only [List.append_assoc]

/-- A write over another that is not longer leaves nothing of it. -/
theorem overwrite_again {first second : List UInt8} (h : index + first.length ≤ memory.length)
    (hle : first.length ≤ second.length) :
    overwrite (overwrite memory index first) index second = overwrite memory index second := by
  have htake : (memory.take index).length = index := by
    rw [List.length_take]
    omega
  have hfront : (memory.take index ++ first).length = index + first.length := by
    rw [List.length_append, htake]
  have hbehind : index + second.length = index + first.length + (second.length - first.length) := by
    omega
  have hdrop : (memory.take index ++ first ++ memory.drop (index + first.length)).drop
      (index + second.length) = memory.drop (index + second.length) := by
    rw [hbehind, ← List.drop_drop, List.drop_left' hfront, List.drop_drop]
  unfold overwrite
  rw [hdrop, List.append_assoc (memory.take index) first, List.take_left' htake]

/-- Reading further than what was written gives it with something behind it. -/
theorem exists_slice_overwrite {bytes : List UInt8} (h : index ≤ memory.length) {count : Nat}
    (hcount : bytes.length ≤ count) :
    ∃ rest, slice (overwrite memory index bytes) index count = bytes ++ rest := by
  have htake : (memory.take index).length = index := by
    rw [List.length_take]
    omega
  unfold slice overwrite
  rw [List.append_assoc, List.drop_left' htake, List.take_append, List.take_of_length_le hcount]
  exact ⟨_, rfl⟩

theorem wp_storeBytes {bytes : List UInt8}
    (h : index + bytes.length ≤ memory.length) {post : Unit → List UInt8 → Prop}
    {early : Stop → List UInt8 → Prop} (hpost : post () (overwrite memory index bytes)) :
    (storeBytes index bytes).wp safe memory post early := by
  induction bytes generalizing memory index with
  | nil =>
      rw [storeBytes, Command.wp_pure, ← overwrite_nil memory index]
      exact hpost
  | cons byte bytes ih =>
      rw [List.length_cons] at h
      rw [storeBytes, Command.wp_bind]
      apply wp_storeAt (by omega)
      rw [set_eq_overwrite (by omega)]
      apply ih
      · rw [overwrite_length (by rw [List.length_singleton]; omega)]
        omega
      · have hnext : index + 1 = index + [byte].length := rfl
        rw [hnext, overwrite_overwrite (by rw [List.length_singleton]; omega)]
        exact hpost

end Overwriting

@[simp] theorem snprintf_length (text buffer : List UInt8) :
    (snprintf text buffer).length = buffer.length := by
  unfold snprintf
  split
  · rfl
  next hne =>
    simp only [List.length_append, List.length_take, List.length_cons, List.length_drop]
    omega

/-- A text and its terminator take the place of the first bytes of a buffer. -/
theorem length_terminated {text buffer : List UInt8} (h : text.length < buffer.length) :
    (text ++ 0 :: buffer.drop (text.length + 1)).length = buffer.length := by
  simp only [List.length_append, List.length_cons, List.length_drop]
  omega

/-- A text without zero bytes that fits is what the buffer then holds. -/
theorem cString_append_zero {text : List UInt8} (h : (0 : UInt8) ∉ text) (rest : List UInt8) :
    cString (text ++ 0 :: rest) = text := by
  unfold cString
  rw [List.takeWhile_append_of_pos]
  · simp
  · intro byte hbyte
    simp only [ne_eq, decide_eq_true_eq]
    rintro rfl
    exact h hbyte

/-- What stands behind a terminator does not count. -/
theorem cString_append_terminator (text rest : List UInt8) :
    cString (text ++ 0 :: rest) = cString text := by
  unfold cString
  rw [List.takeWhile_append]
  split
  next hall =>
    -- no zero byte stands in the text
    rw [List.takeWhile_cons_of_neg (by simp), List.append_nil]
    exact ((List.takeWhile_prefix _).eq_of_length hall).symm
  next => rfl

theorem cString_snprintf {text buffer : List UInt8} (hzero : (0 : UInt8) ∉ text)
    (hfit : text.length < buffer.length) : cString (snprintf text buffer) = text := by
  unfold snprintf
  rw [if_neg (by omega), List.take_of_length_le (by omega)]
  exact cString_append_zero hzero _

end Laws

end LedgerMatrix
