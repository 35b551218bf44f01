import LedgerMatrix.Parser.Display

/-! # The transaction of the device

The functions of `tx.c` that parse the transaction buffer and show the
transaction that was parsed. There is one parsing context and one transaction
object, which stay what they were until the next parse.
-/

namespace LedgerMatrix

open Imperative

/-- `zxerr_t` without `zxerr_ok`, as far as the functions here return it. -/
inductive Zxerr where
  | unknown
  | noData
  deriving DecidableEq

/-- Why a function did not return `zxerr_ok`. -/
inductive ZxStop where
  | error (code : Zxerr)
  | fault (fault : Fault)
  deriving DecidableEq

/-- Parse and validate what the buffer holds. The result is the text that
describes an error, or nothing. -/
def txParse (zx : Zxlib) (buffer : List UInt8) : Parser ParserState (Option String) :=
  Command.handle
    (do
      parserParse buffer (some 0) buffer.length
      let s ← Command.read
      Command.zoom ⟨fun _ => (), fun _ s => s⟩ (parserValidate zx buffer s)
      pure none)
    fun
      | .error code => pure (some (parserGetErrorDescription code))
      | .fault cause => fault cause

def txGetNumItems {σ : Type} (s : ParserState) : Command Event ZxStop σ Nat :=
  Command.handle (parserGetNumItems s) fun
    | .error _ => Command.stop (.error .unknown)
    | .fault cause => Command.stop (.fault cause)

/-- The error codes that say that there is nothing to show. -/
def zxerrOfItem : ParserError → Zxerr
  | .noData => .noData
  | .displayIdxOutOfRange => .noData
  | .displayPageOutOfRange => .noData
  | _ => .unknown

/-- The index is an `int8_t`, which is handed on as a `uint8_t`. -/
def txGetItem (zx : Zxlib) (mem : List UInt8) (s : ParserState) (displayIdx : Int)
    (pageIdx : Nat) : Command Event ZxStop Display Unit := do
  let numItems ← txGetNumItems s
  if displayIdx > numItems then Command.stop (.error .noData)
  else Command.handle (parserGetItem zx mem s (displayIdx % 2 ^ 8).toNat pageIdx) fun
    | .error code => Command.stop (.error (zxerrOfItem code))
    | .fault cause => Command.stop (.fault cause)

end LedgerMatrix
