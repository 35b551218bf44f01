import LedgerMatrix.Client.Address

/-! # What is signed for the client

A call of `sign` from its path and message to the signature or the error that it
returns. The chunks are put together on the device, parsed there when the last one is
stored, and signed when the user approves.
-/

namespace LedgerMatrix

open Imperative

/-! ## The last chunk -/

/-- What the device can be made to sign: it has room for the message, which is a
transaction that it can show. -/
structure Signable (b : Buffering) (zx : Zxlib) (message : List UInt8) : Prop where
  fits : message.length ≤ b.capacity
  transaction : ∃ t : Transaction, t.Decodes message ∧ t.Valid zx

section Device

variable {b : Buffering} {zx : Zxlib} {p : Platform} {a : Apdu} {d : Device b}

end Device

/-! ## One exchange -/

section Exchange

variable {b : Buffering} {zx : Zxlib} {p : Platform} {d : Device b} {env : Exchange}
variable {chunk : ChunkData}

/-- What makes the device answer a last chunk with a signature: the user approves, and
the platform signs. -/
structure Granted (b : Buffering) (zx : Zxlib) (p : Platform) (env : Exchange) (hdPath : HdPath)
    (message signature : List UInt8) : Prop where
  pin : env.pinValidated = true
  signable : Signable b zx message
  approved : env.approves = true
  signed : p.sign hdPath message = some signature

end Exchange

/-! ## The answer that is returned -/

section Run

variable {b : Buffering} {js : LedgerJs} {zx : Zxlib} {p : Platform} {env : Nat → Exchange}
variable {d : Device b}

end Run

end LedgerMatrix
