import LedgerMatrix.Foundation.LittleEndian
import LedgerMatrix.Tx.Basic

/-! # The device

The functions of `apdu_handler.c` with what they call: the transaction buffer of
`tx.c` and the callbacks of `actions.h`. Whether a message is being received, the
derivation path, the buffer, the transaction that was parsed and the callback of
the review are globals, which all handlers share.
-/

namespace LedgerMatrix

open Imperative

/-- The size of the larger flash buffer. -/
def flashBufferSize : Nat := 16384

/-- The buffer of zxlib, as far as the application relies on it: bytes are stored
in full when they fit, and otherwise the count returned is smaller. -/
structure Buffering where
  State : Type
  /-- What `buffering_get_buffer` returns. -/
  contents : State → List UInt8
  init : State → State
  reset : State → State
  /-- Append bytes, and count those that were stored. -/
  append : List UInt8 → State → State × Nat
  capacity : Nat
  capacity_le : capacity ≤ flashBufferSize
  contents_le : ∀ s, (contents s).length ≤ capacity
  contents_reset : ∀ s, contents (reset s) = []
  append_fits : ∀ bytes s, (contents s).length + bytes.length ≤ capacity →
    (append bytes s).2 = bytes.length ∧ contents (append bytes s).1 = contents s ++ bytes
  append_full : ∀ bytes s, capacity < (contents s).length + bytes.length →
    (append bytes s).2 < bytes.length

/-- `HDPATH_LEN_DEFAULT`. -/
abbrev hdpathLenDefault : Nat := 5

/-- The type of `hdPath`. -/
abbrev HdPath : Type := Vector UInt32 hdpathLenDefault

/-- `HDPATH_0_DEFAULT`: 44, hardened. -/
def hdpath0Default : UInt32 := 0x8000002c

/-- `HDPATH_1_DEFAULT`: 318, hardened. -/
def hdpath1Default : UInt32 := 0x8000013e

/-- The word at the front of the bytes, in the byte order of the device. -/
def word32 (bytes : List UInt8) : UInt32 := UInt32.ofNat (LittleEndian.value (bytes.take 4))

/-- The path that `memcpy` leaves in `hdPath`. -/
def HdPath.ofBytes (bytes : List UInt8) : HdPath :=
  Vector.ofFn fun i => word32 (bytes.drop (4 * i))

/-- The path of the application: purpose and coin type. -/
def HdPath.Mainnet (path : HdPath) : Prop :=
  path.get ⟨0, by decide⟩ = hdpath0Default ∧ path.get ⟨1, by decide⟩ = hdpath1Default

instance (path : HdPath) : Decidable path.Mainnet := inferInstanceAs (Decidable (_ ∧ _))

/-- The callback that `view_review_init` stores for the approval. -/
inductive ReviewCallback where
  | appReplyAddress
  | appSign
  deriving DecidableEq

/-- The globals of the device. -/
structure Device (b : Buffering) where
  txInitialized : Bool
  hdPath : HdPath
  buffering : b.State
  ctxParsedTx : ParserState
  /-- The review on the screen, until the user decides. -/
  review : Option ReviewCallback

/-- The codes that handlers throw or answer with. -/
inductive ApduCode where
  | executionError
  | wrongLength
  | outputBufferTooSmall
  | dataInvalid
  | commandNotAllowed
  | txNotInitialized
  | invalidP1P2
  | insNotSupported
  | claNotSupported
  | signVerifyError
  | ok
  deriving DecidableEq

def ApduCode.value : ApduCode → Nat
  | .executionError => 0x6400
  | .wrongLength => 0x6700
  | .outputBufferTooSmall => 0x6983
  | .dataInvalid => 0x6984
  | .commandNotAllowed => 0x6986
  | .txNotInitialized => 0x6987
  | .invalidP1P2 => 0x6B00
  | .insNotSupported => 0x6D00
  | .claNotSupported => 0x6E00
  | .signVerifyError => 0x6F01
  | .ok => 0x9000

/-- What the device does besides answering: the transaction buffer is parsed, a
review is shown, a message is signed with the key of a path. -/
inductive Effect where
  | parse (message : List UInt8)
  | review (callback : ReviewCallback)
  | sign (hdPath : HdPath) (message : List UInt8)
  deriving DecidableEq

/-- Why a handler does not reach its end: a code, with the bytes put in front of it
so far, or what C leaves undefined. -/
inductive Thrown where
  | code (code : ApduCode) (answer : List UInt8)
  | undefined (stop : Stop)

abbrev Handler (b : Buffering) (α : Type) : Type := Command Effect Thrown (Device b) α

/-- A command as it stands in `G_io_apdu_buffer`, whose first `rx` bytes were
received. What stands after them is left over from before. -/
structure Apdu where
  buffer : List UInt8
  rx : Nat
  /-- What `os_global_pin_is_validated` says. -/
  pinValidated : Bool
  header_le : 5 ≤ buffer.length
  rx_le : rx ≤ buffer.length
  rx_lt : rx < 2 ^ 32

/-- An answer: some bytes and a status word. -/
structure Reply where
  data : List UInt8
  sw : Nat
  deriving DecidableEq

/-- What stands outside the modelled code: the version bytes, the public key with
the address of a path, and the signature of a message, where they can be had. -/
structure Platform where
  version : List UInt8
  fillAddress : HdPath → Option (List UInt8)
  sign : HdPath → List UInt8 → Option (List UInt8)

def offsetCla : Nat := 0
def offsetIns : Nat := 1
def offsetP1 : Nat := 2
def offsetPayloadType : Nat := 2
def offsetData : Nat := 5
def apduMinLength : Nat := 5

def cla : UInt8 := 0x88

def insGetVersion : UInt8 := 0
def insGetAddr : UInt8 := 1
def insSign : UInt8 := 2

def p1Init : UInt8 := 0
def p1Add : UInt8 := 1
def p1Last : UInt8 := 2

/-- The difference of two `uint32_t`. -/
def sub32 (a b : Nat) : Nat := (((a : Int) - b) % 2 ^ 32).toNat

/-- A byte of the header. -/
def Apdu.byte (a : Apdu) (offset : Nat) : UInt8 := a.buffer.getD offset 0

/-- A command that is received whole: a header and up to 255 bytes of payload. -/
def Apdu.command (ins p1 : UInt8) (payload : List UInt8) (pinValidated : Bool)
    (h : payload.length < 256) : Apdu where
  buffer := [cla, ins, p1, 0, UInt8.ofNat payload.length] ++ payload
  rx := offsetData + payload.length
  pinValidated := pinValidated
  header_le := by simp
  rx_le := by simp [offsetData]; omega
  rx_lt := by
    rw [offsetData]
    omega

/-- A buffer of this size that stores what fits and nothing else. -/
def Buffering.plain : Buffering where
  State := { bytes : List UInt8 // bytes.length ≤ flashBufferSize }
  contents := Subtype.val
  init := id
  reset _ := ⟨[], Nat.zero_le _⟩
  append bytes s :=
    if h : (s.val ++ bytes).length ≤ flashBufferSize then (⟨s.val ++ bytes, h⟩, bytes.length)
    else (s, 0)
  capacity := flashBufferSize
  capacity_le := le_rfl
  contents_le s := s.property
  contents_reset _ := rfl
  append_fits bytes s h := by
    rw [← List.length_append] at h
    simp only [h, dif_pos, and_self]
  append_full bytes s h := by
    have hle := s.property
    rw [← List.length_append] at h
    simp only [dif_neg (Nat.not_le.mpr h)]
    rw [List.length_append] at h
    omega

section Handlers

variable {b : Buffering}

def throwCode {α : Type} (code : ApduCode) : Handler b α := Command.stop (.code code [])

/-- `THROW` after some bytes of the answer. -/
def throwAnswer {α : Type} (code : ApduCode) (answer : List UInt8) : Handler b α :=
  Command.stop (.code code answer)

def extractHDPath (a : Apdu) (offset : Nat) : Handler b Unit := do
  Command.modify fun d => { d with txInitialized := false }
  if sub32 a.rx offset < 4 * hdpathLenDefault then throwCode .wrongLength
  else
    Command.modify fun d =>
      { d with hdPath := HdPath.ofBytes (slice a.buffer offset (4 * hdpathLenDefault)) }
    let d ← Command.read
    if d.hdPath.Mainnet then pure () else throwCode .dataInvalid

def txInitialize : Handler b Unit :=
  Command.modify fun d => { d with buffering := b.init d.buffering }

def txReset : Handler b Unit :=
  Command.modify fun d => { d with buffering := b.reset d.buffering }

/-- Append to the transaction buffer, and count what was stored. -/
def txAppend (bytes : List UInt8) : Handler b Nat := do
  let d ← Command.read
  Command.modify fun d => { d with buffering := (b.append bytes d.buffering).1 }
  pure (b.append bytes d.buffering).2

/-- The bytes after the header, as `tx_append` is given them. -/
def Apdu.data (a : Apdu) : List UInt8 := slice a.buffer offsetData (sub32 a.rx offsetData)

/-- Take a chunk of a message. The result says whether it was the last one. -/
def processChunk (a : Apdu) : Handler b Bool :=
  let payloadType := a.byte offsetPayloadType
  if a.rx < offsetData then throwCode .wrongLength
  else if payloadType = p1Init then do
    txInitialize
    txReset
    extractHDPath a offsetData
    Command.modify fun d => { d with txInitialized := true }
    pure false
  else if payloadType = p1Add then do
    let d ← Command.read
    if d.txInitialized = false then throwCode .txNotInitialized
    else
      let added ← txAppend a.data
      if added ≠ sub32 a.rx offsetData then
        Command.modify fun d => { d with txInitialized := false }
        throwCode .outputBufferTooSmall
      else pure false
  else if payloadType = p1Last then do
    let d ← Command.read
    if d.txInitialized = false then throwCode .txNotInitialized
    else
      let added ← txAppend a.data
      Command.modify fun d => { d with txInitialized := false }
      if added ≠ sub32 a.rx offsetData then throwCode .outputBufferTooSmall
      else pure true
  else throwCode .invalidP1P2

def viewReviewInit (callback : ReviewCallback) : Handler b Unit := do
  Command.modify fun d => { d with review := some callback }
  Command.emit (.review callback)

def appFillAddress (p : Platform) : Handler b (List UInt8) := do
  let d ← Command.read
  match p.fillAddress d.hdPath with
  | none => throwCode .executionError
  | some answer => pure answer

def handleGetAddr (p : Platform) (a : Apdu) : Handler b Unit := do
  extractHDPath a offsetData
  let requireConfirmation := a.byte offsetP1
  let answer ← appFillAddress p
  if requireConfirmation ≠ 0 then viewReviewInit .appReplyAddress
  else throwAnswer .ok answer

/-- The context and the object of the transaction that was parsed. -/
def Device.parsedLens : Lens (Device b) ParserState :=
  ⟨Device.ctxParsedTx, fun value d => { d with ctxParsedTx := value }⟩

/-- `tx_parse`, on what the transaction buffer holds. -/
def parseBuffer (zx : Zxlib) : Handler b (Option String) := do
  let d ← Command.read
  Command.emit (.parse (b.contents d.buffering))
  Command.handle
    (Command.quiet (Command.zoom Device.parsedLens (txParse zx (b.contents d.buffering))))
    fun stop => Command.stop (.undefined stop)

def handleSign (zx : Zxlib) (a : Apdu) : Handler b Unit := do
  let complete ← processChunk a
  if complete = false then throwCode .ok
  else
    let errorMsg ← parseBuffer zx
    match errorMsg with
    | some text => throwAnswer .dataInvalid (ascii text)
    | none => viewReviewInit .appSign

def handleGetversion (p : Platform) : Handler b Unit := throwAnswer .ok p.version

def checkPinValidated (a : Apdu) : Handler b Unit :=
  if a.pinValidated then pure () else throwCode .commandNotAllowed

/-- The status word of an exception. -/
def statusWord (e : Nat) : Nat :=
  if e &&& 0xF000 = 0x6000 ∨ e &&& 0xF000 = 0x9000 then e else 0x6800 ||| (e &&& 0x7FF)

/-- The part of `handleApdu` whose exceptions are caught. -/
def dispatch (zx : Zxlib) (p : Platform) (a : Apdu) : Handler b Unit :=
  if a.byte offsetCla ≠ cla then throwCode .claNotSupported
  else if a.rx < apduMinLength then throwCode .wrongLength
  else if a.byte offsetIns = insGetVersion then handleGetversion p
  else if a.byte offsetIns = insGetAddr then do
    checkPinValidated a
    handleGetAddr p a
  else if a.byte offsetIns = insSign then do
    checkPinValidated a
    handleSign zx a
  else throwCode .insNotSupported

/-- Handle a command. Without an answer there is a review on the screen, and the
answer comes with the decision of the user. -/
def handleApdu (zx : Zxlib) (p : Platform) (a : Apdu) :
    Command Effect Stop (Device b) (Option Reply) :=
  Command.handle
    (do
      dispatch zx p a
      pure none)
    fun
      | .code code answer => pure (some ⟨answer, statusWord code.value⟩)
      | .undefined stop => Command.stop stop

/-! ## The decision of the user -/

/-- The length of the message is a `uint16_t`. -/
def appSign (p : Platform) : Command Effect Stop (Device b) Reply := do
  let d ← Command.read
  let message := b.contents d.buffering
  Command.emit (.sign d.hdPath (message.take (u16 message.length)))
  match p.sign d.hdPath (message.take (u16 message.length)) with
  | none => pure ⟨[], ApduCode.signVerifyError.value⟩
  | some signature => pure ⟨signature, ApduCode.ok.value⟩

/-- The reply to a review of an address is ready when the review is shown. -/
def approve (p : Platform) : Command Effect Stop (Device b) Unit := do
  let d ← Command.read
  match d.review with
  | some .appSign => do
      let _ ← appSign p
      Command.modify fun d => { d with review := none }
  | _ => Command.modify fun d => { d with review := none }

def appReject : Command Effect Stop (Device b) Reply :=
  pure ⟨[], ApduCode.commandNotAllowed.value⟩

/-- The page of an item, when there is one. Showing it writes nothing else. -/
def getItem (zx : Zxlib) (displayIdx : Int) (pageIdx : Nat) (display : Display) :
    Command Effect Stop (Device b) (Option Display) := do
  let d ← Command.read
  match (txGetItem zx (b.contents d.buffering) d.ctxParsedTx displayIdx pageIdx).outcome
      display with
  | .done _ shown => pure (some shown)
  | .stop _ _ => pure none

/-! ## Runs -/

/-- What can happen to the device: a command arrives, a page is looked at, or the
user decides on what is on the screen. -/
inductive Action where
  | apdu (a : Apdu)
  | getItem (displayIdx : Int) (pageIdx : Nat) (display : Display)
  | approve
  | reject

def Action.perform (zx : Zxlib) (p : Platform) : Action → Command Effect Stop (Device b) Unit
  | .apdu a => do
      let _ ← handleApdu zx p a
      pure ()
  | .getItem displayIdx pageIdx display => do
      let _ ← LedgerMatrix.getItem zx displayIdx pageIdx display
      pure ()
  | .approve => LedgerMatrix.approve p
  | .reject => do
      let _ ← appReject
      Command.modify fun d => { d with review := none }

/-- Any number of actions, in any order. -/
def performAll (zx : Zxlib) (p : Platform) : List Action → Command Effect Stop (Device b) Unit
  | [] => pure ()
  | action :: actions => do
      action.perform zx p
      performAll zx p actions

end Handlers

end LedgerMatrix
