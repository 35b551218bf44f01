import LedgerMatrix.Client.Sign
import LedgerMatrix.Crypto.Keys

/-! # Answers in the buffer

The functions of `apdu_handler.c`, `actions.h` and `addr.c` on the buffer in which a
command arrives and its answer is put together. The buffer is handed to `crypto.c`, and
what is sent is as much of its front as the lengths say. An address is put into it before
it is shown, and sent from it when it is approved.
-/

namespace LedgerMatrix.Answers

open Imperative

/-- What the operating system and the support library have for the buffer of the
answers and for the pages of a text. -/
structure Io where
  /-- `IO_APDU_BUFFER_SIZE`. -/
  ioApduBufferSize : Nat
  /-- `set_code`, with the offset and the code. -/
  setCode : Nat → Nat → List UInt8 → List UInt8
  /-- `pageString` of a terminated text. -/
  pageString : List UInt8 → List UInt8 → Nat → List UInt8 × Nat
  /-- `bip32_to_str`. -/
  bip32ToStr : HdPath → List UInt8

/-- What the application relies on: there is room for a signature and a code, and a
code is two bytes, the upper one first. -/
structure Io.Standard (io : Io) : Prop where
  large : signatureSize + 3 ≤ io.ioApduBufferSize
  small : io.ioApduBufferSize < 2 ^ 16
  setCode_eq : ∀ offset code buffer, offset < 2 ^ 8 → offset + 2 ≤ buffer.length →
    io.setCode offset code buffer =
      overwrite buffer offset [UInt8.ofNat (code / 256), UInt8.ofNat code]

/-- `G_io_apdu_buffer`, the length of the address in it, and the number of bytes that are
to be sent. -/
structure Front where
  gIoApduBuffer : List UInt8
  actionAddrResponseLen : Nat
  tx : Nat

/-- A function over the globals of the device and those of its answers. -/
abbrev Routine (b : Buffering) (ε α : Type) : Type := Command Effect ε (Device b × Front) α

section Functions

variable {b : Buffering} {ε : Type} (sdk : Sdk) (base58 : AddressLibrary) (io : Io)

/-- A handler that does not touch the buffer of the answers. -/
def onDevice {α : Type} (c : Handler b α) : Routine b Thrown α := Command.zoom Lens.fst c

def Front.bufferLens : Lens (Device b × Front) (List UInt8) :=
  ⟨fun s => s.2.gIoApduBuffer, fun value s => (s.1, { s.2 with gIoApduBuffer := value })⟩

/-- A function that is given the buffer of the answers. -/
def onBuffer {α : Type} (c : Parser (List UInt8) α) : Routine b Stop α :=
  Command.quiet (Command.zoom Front.bufferLens c)

def setBuffer (f : List UInt8 → List UInt8) : Routine b ε Unit :=
  Command.modify fun s => (s.1, { s.2 with gIoApduBuffer := f s.2.gIoApduBuffer })

def setResponseLen (length : Nat) : Routine b ε Unit :=
  Command.modify fun s => (s.1, { s.2 with actionAddrResponseLen := length })

def setTx (tx : Nat) : Routine b ε Unit :=
  Command.modify fun s => (s.1, { s.2 with tx := tx })

/-- Write an answer to the front of the buffer, and count its bytes. -/
def putAnswer (bytes : List UInt8) : Routine b ε Unit := do
  setBuffer fun buffer => overwrite buffer 0 bytes
  let s ← Command.read
  setTx (s.2.tx + bytes.length)

/-- `THROW`. What is answered with the code stands in the buffer. -/
def throwBuffer {α : Type} (code : ApduCode) : Routine b Thrown α := Command.stop (.code code [])

/-- `io_exchange`: the bytes that are sent. -/
def ioExchange (length : Nat) : Routine b ε (List UInt8) := do
  let s ← Command.read
  pure (s.2.gIoApduBuffer.take length)

/-- `MEMZERO` of the whole buffer. -/
def memzero : Routine b ε Unit := setBuffer fun _ => List.replicate io.ioApduBufferSize 0

def appFillAddress : Routine b Thrown Unit := do
  memzero io
  setResponseLen 0
  let s ← Command.read
  let filled ← Command.handle
    (onBuffer (cryptoFillAddress sdk base58 s.1.hdPath 0 io.ioApduBufferSize))
    fun stop => Command.stop (.undefined stop)
  match filled.2 with
  | none => pure ()
  | some length => setResponseLen length
  let s ← Command.read
  if filled.1 ≠ .ok ∨ s.2.actionAddrResponseLen = 0 then Command.stop (.code .executionError [])
  else pure ()

/-- `app_sign`. What the stack holds where the private key will be is `privateKey`. -/
def appSign (privateKey : sdk.PrivateKey) : Routine b Stop (List UInt8) := do
  let s ← Command.read
  let message := (b.contents s.1.buffering).take (u16 (b.contents s.1.buffering).length)
  Command.emit (.sign s.1.hdPath message)
  let signed ← onBuffer
    (cryptoSign sdk privateKey s.1.hdPath (some 0) 0 (io.ioApduBufferSize - 3) (some message))
  if signed.1 ≠ .ok then
    setBuffer (io.setCode 0 ApduCode.signVerifyError.value)
    ioExchange 2
  else
    setBuffer (io.setCode signed.2 ApduCode.ok.value)
    ioExchange (signed.2 + 2)

def appReject : Routine b Stop (List UInt8) := do
  memzero io
  setBuffer (io.setCode 0 ApduCode.commandNotAllowed.value)
  ioExchange 2

def appReplyAddress : Routine b Stop (List UInt8) := do
  let s ← Command.read
  setBuffer (io.setCode s.2.actionAddrResponseLen ApduCode.ok.value)
  ioExchange (s.2.actionAddrResponseLen + 2)

def handleGetAddr (a : Apdu) : Routine b Thrown Unit := do
  onDevice (extractHDPath a offsetData)
  -- the buffer still holds the command here
  let requireConfirmation := a.byte offsetP1
  appFillAddress sdk base58 io
  if requireConfirmation ≠ 0 then onDevice (viewReviewInit .appReplyAddress)
  else
    let s ← Command.read
    setTx s.2.actionAddrResponseLen
    throwBuffer .ok

def handleSign (zx : Zxlib) (a : Apdu) : Routine b Thrown Unit := do
  let complete ← onDevice (processChunk a)
  if complete = false then throwBuffer .ok
  else
    let errorMsg ← onDevice (parseBuffer zx)
    match errorMsg with
    | some text =>
        putAnswer ((ascii text).take io.ioApduBufferSize)
        throwBuffer .dataInvalid
    | none => onDevice (viewReviewInit .appSign)

def handleGetversion (version : Vector UInt8 12) : Routine b Thrown Unit := do
  putAnswer version.toList
  throwBuffer .ok

/-- The part of `handleApdu` whose exceptions are caught. -/
def dispatch (zx : Zxlib) (version : Vector UInt8 12) (a : Apdu) : Routine b Thrown Unit :=
  if a.byte offsetCla ≠ cla then throwBuffer .claNotSupported
  else if a.rx < apduMinLength then throwBuffer .wrongLength
  else if a.byte offsetIns = insGetVersion then handleGetversion version
  else if a.byte offsetIns = insGetAddr then do
    onDevice (checkPinValidated a)
    handleGetAddr sdk base58 io a
  else if a.byte offsetIns = insSign then do
    onDevice (checkPinValidated a)
    handleSign io zx a
  else throwBuffer .insNotSupported

/-- The two bytes of the status word, behind the bytes of the answer. -/
def putStatusWord (code : Nat) : Routine b ε Unit := do
  let s ← Command.read
  setBuffer fun buffer =>
    overwrite buffer s.2.tx [UInt8.ofNat (code / 256), UInt8.ofNat code]
  setTx (s.2.tx + 2)

/-- `handleApdu`, with a command that has just arrived in the buffer, and what is sent
then. -/
def handleApdu (zx : Zxlib) (version : Vector UInt8 12) (a : Apdu) :
    Routine b Stop (Option (List UInt8)) := do
  setBuffer fun _ => a.buffer
  setTx 0
  Command.handle
    (do
      dispatch sdk base58 io zx version a
      pure none)
    fun
      | .code code _ => do
          putStatusWord (statusWord code.value)
          let s ← Command.read
          let sent ← ioExchange s.2.tx
          pure (some sent)
      | .undefined stop => Command.stop stop

/-- What the callbacks of a review do when the user has decided. -/
def decide (privateKey : sdk.PrivateKey) (approves : Bool) :
    Routine b Stop (List UInt8) := do
  let s ← Command.read
  Command.modify fun s => ({ s.1 with review := none }, s.2)
  if approves then
    match s.1.review with
    | some .appReplyAddress => appReplyAddress io
    | _ => appSign sdk io privateKey
  else appReject io

/-- What happens to the application: a command arrives, or the user decides. -/
inductive Input where
  | apdu (a : Apdu)
  | decide (approves : Bool)

/-- What is sent then. There is nothing to decide without a review. -/
def send (zx : Zxlib) (version : Vector UInt8 12) (privateKey : sdk.PrivateKey) :
    Input → Routine b Stop (Option (List UInt8))
  | .apdu a => handleApdu sdk base58 io zx version a
  | .decide approves => do
      let s ← Command.read
      if s.1.review = none then pure none
      else
        let sent ← decide sdk io privateKey approves
        pure (some sent)

/-- A command and what is sent back, at once or when the user has decided. -/
def exchange (zx : Zxlib) (version : Vector UInt8 12) (privateKey : sdk.PrivateKey)
    (env : Exchange) (a : Apdu) : Routine b Stop (List UInt8) := do
  let answer ← handleApdu sdk base58 io zx version a
  match answer with
  | some bytes => pure bytes
  | none => decide sdk io privateKey env.approves

/-- `addr_getNumItems`. -/
def addrGetNumItems (expert : Bool) : Nat := if expert then 2 else 1

/-- `addr_getItem`. There are no items but the address and the path. -/
def addrGetItem (expert : Bool) (displayIdx : Int) (pageIdx : Nat) (s : Device b × Front)
    (display : Display) : Option Display :=
  if displayIdx = 0 then
    let text := cString (s.2.gIoApduBuffer.drop secp256k1PubkeyLen)
    let page := io.pageString display.outVal text pageIdx
    some ⟨snprintf (ascii "Address") display.outKey, page.1, page.2⟩
  else if displayIdx = 1 then
    if expert then
      let page := io.pageString display.outVal (io.bip32ToStr s.1.hdPath) pageIdx
      some ⟨snprintf (ascii "Your Path") display.outKey, page.1, page.2⟩
    else none
  else none

/-! ## What is answered -/

/-- What is answered to the decision of the user, where the platform is all that there
is behind it. -/
def settle (p : Platform) (approves : Bool) : Command Effect Stop (Device b) Reply := do
  let d ← Command.read
  Command.modify fun d => { d with review := none }
  if approves then
    match d.review with
    | some .appReplyAddress => pure ⟨(p.fillAddress d.hdPath).getD [], ApduCode.ok.value⟩
    | _ => LedgerMatrix.appSign p
  else LedgerMatrix.appReject

/-- What is answered to the decision on what is on the screen. -/
def decided (p : Platform) (d : Device b) (approves : Bool) : Reply :=
  if approves then
    match d.review with
    | some .appReplyAddress => ⟨(p.fillAddress d.hdPath).getD [], ApduCode.ok.value⟩
    | _ => signedReply (p.sign d.hdPath (b.contents d.buffering))
  else ⟨[], ApduCode.commandNotAllowed.value⟩

/-- What is answered to an input. -/
def answer (zx : Zxlib) (p : Platform) : Input → Command Effect Stop (Device b) (Option Reply)
  | .apdu a => LedgerMatrix.handleApdu zx p a
  | .decide approves => do
      let d ← Command.read
      if d.review = none then pure none
      else
        let reply ← settle p approves
        pure (some reply)

/-- What is answered to a command, at once or when the user has decided. -/
def respond (zx : Zxlib) (p : Platform) (env : Exchange) (a : Apdu) :
    Command Effect Stop (Device b) Reply := do
  let reply ← LedgerMatrix.handleApdu zx p a
  match reply with
  | some reply => pure reply
  | none => settle p env.approves

/-- The platform that the functions of `crypto.c` make. -/
def platform (version : Vector UInt8 12) : Platform where
  version := version.toList
  fillAddress := sdk.fillAddress base58
  sign := sdk.signature

end Functions

section Rules

variable {b : Buffering} {ε : Type} {sdk : Sdk} {base58 : AddressLibrary} {io : Io}
variable {safe : Effect → Prop} {d : Device b} {front : Front}

/-- The length of a message fits into its `uint16_t`. -/
theorem take_message (d : Device b) :
    (b.contents d.buffering).take (u16 (b.contents d.buffering).length) =
      b.contents d.buffering := by
  have hle := (b.contents_le d.buffering).trans b.capacity_le
  rw [u16, Nat.mod_eq_of_lt (hle.trans_lt (by decide)), List.take_length]

theorem settle_outcome (p : Platform) (d : Device b) (approves : Bool) :
    (settle p approves).outcome d = .done (decided p d approves) { d with review := none } := by
  refine (Command.outcome_bind_of_done rfl).trans ((Command.outcome_bind_of_done rfl).trans ?_)
  rw [decided]
  cases approves with
  | false => rfl
  | true =>
      have hsign := appSign_outcome p { d with review := none }
      rw [take_message] at hsign
      rw [if_pos rfl, if_pos rfl]
      cases d.review with
      | none => exact hsign
      | some callback =>
          cases callback with
          | appReplyAddress => rfl
          | appSign => exact hsign

@[simp] theorem wp_setBuffer {f : List UInt8 → List UInt8} {post : Unit → Device b × Front → Prop}
    {early : ε → Device b × Front → Prop} :
    (setBuffer f).wp safe (d, front) post early ↔
      post () (d, { front with gIoApduBuffer := f front.gIoApduBuffer }) :=
  Command.wp_modify _

@[simp] theorem wp_setResponseLen {length : Nat} {post : Unit → Device b × Front → Prop}
    {early : ε → Device b × Front → Prop} :
    (setResponseLen length).wp safe (d, front) post early ↔
      post () (d, { front with actionAddrResponseLen := length }) :=
  Command.wp_modify _

@[simp] theorem wp_setTx {tx : Nat} {post : Unit → Device b × Front → Prop}
    {early : ε → Device b × Front → Prop} :
    (setTx tx).wp safe (d, front) post early ↔ post () (d, { front with tx := tx }) :=
  Command.wp_modify _

@[simp] theorem wp_throwBuffer {α : Type} {code : ApduCode} {post : α → Device b × Front → Prop}
    {early : Thrown → Device b × Front → Prop} :
    (throwBuffer code : Routine b Thrown α).wp safe (d, front) post early ↔
      early (.code code []) (d, front) :=
  Command.wp_stop _

@[simp] theorem wp_ioExchange {length : Nat} {post : List UInt8 → Device b × Front → Prop}
    {early : ε → Device b × Front → Prop} :
    (ioExchange length).wp safe (d, front) post early ↔
      post (front.gIoApduBuffer.take length) (d, front) := by
  simp only [ioExchange, Command.wp_bind, Command.wp_read, Command.wp_pure]

/-- A function on the buffer of the answers. -/
theorem wp_onBuffer {α : Type} {c : Parser (List UInt8) α} {post : α → Device b × Front → Prop}
    {early : Stop → Device b × Front → Prop}
    (h : c.wp (fun _ => True) front.gIoApduBuffer
      (fun value buffer => post value (d, { front with gIoApduBuffer := buffer }))
      fun stop buffer => early stop (d, { front with gIoApduBuffer := buffer })) :
    (onBuffer c).wp safe (d, front) post early := by
  rw [onBuffer, Command.wp_quiet, Command.wp_zoom]
  exact h

/-- Writing a code behind an answer makes the bytes that are sent. -/
theorem take_setCode (hio : io.Standard) {buffer answer : List UInt8} (code : Nat)
    (hsmall : answer.length < 2 ^ 8) (hroom : answer.length + 2 ≤ buffer.length)
    (hfront : buffer.take answer.length = answer) :
    (io.setCode answer.length code buffer).take (answer.length + 2) =
      Reply.bytes ⟨answer, code⟩ := by
  have htake : (buffer.take answer.length).length = answer.length := by rw [hfront]
  rw [hio.setCode_eq _ _ _ hsmall hroom, overwrite, hfront]
  exact List.take_left' (by rw [List.length_append]; rfl)

theorem setCode_length (hio : io.Standard) {buffer : List UInt8} {offset : Nat} (code : Nat)
    (hsmall : offset < 2 ^ 8) (hroom : offset + 2 ≤ buffer.length) :
    (io.setCode offset code buffer).length = buffer.length := by
  rw [hio.setCode_eq _ _ _ hsmall hroom]
  exact overwrite_length hroom

/-- The buffer has its size. -/
def Front.Sized (io : Io) (front : Front) : Prop :=
  front.gIoApduBuffer.length = io.ioApduBufferSize

/-- An address is in the buffer, with zeros behind it. -/
structure Front.Holds (io : Io) (front : Front) (answer : List UInt8) : Prop where
  length_eq : front.actionAddrResponseLen = answer.length
  length_le : answer.length ≤ secp256k1PubkeyLen + addressLen
  buffer_eq : front.gIoApduBuffer =
    answer ++ List.replicate (io.ioApduBufferSize - answer.length) 0

theorem Front.Holds.sized {answer : List UInt8} (h : front.Holds io answer) (hio : io.Standard) :
    front.Sized io := by
  have hlarge := hio.large
  have hle := h.length_le
  have hsignature : signatureSize = 138 := rfl
  have hanswer : secp256k1PubkeyLen + addressLen = 115 := rfl
  rw [Front.Sized, h.buffer_eq, List.length_append, List.length_replicate]
  omega

/-- An answer stands at the front of the buffer, its bytes are counted, and there is room
for a status word behind it. -/
structure Front.Ready (io : Io) (front : Front) (answer : List UInt8) : Prop where
  sized : front.Sized io
  tx_eq : front.tx = answer.length
  length_le : answer.length + 2 ≤ io.ioApduBufferSize
  take_eq : front.gIoApduBuffer.take answer.length = answer

theorem Front.ready_nil (hio : io.Standard) (hsized : front.Sized io) (htx : front.tx = 0) :
    front.Ready io [] := by
  have hlarge := hio.large
  refine ⟨hsized, htx, ?_, rfl⟩
  rw [List.length_nil]
  omega

theorem wp_putAnswer (h : front.Ready io []) {answer : List UInt8}
    (hroom : answer.length + 2 ≤ io.ioApduBufferSize) {post : Unit → Device b × Front → Prop}
    {early : ε → Device b × Front → Prop}
    (hpost : ∀ front', front'.Ready io answer → post () (d, front')) :
    (putAnswer answer).wp safe (d, front) post early := by
  have hsize : front.gIoApduBuffer.length = io.ioApduBufferSize := h.sized
  have hfit : 0 + answer.length ≤ front.gIoApduBuffer.length := by omega
  simp only [putAnswer, Command.wp_bind, Command.wp_read, wp_setBuffer, wp_setTx]
  refine hpost _ ⟨(overwrite_length hfit).trans hsize, ?_, hroom, ?_⟩
  · rw [h.tx_eq, List.length_nil, Nat.zero_add]
  · rw [overwrite, List.take_zero, List.nil_append, List.take_left]

/-- The status word goes behind the answer. -/
theorem wp_putStatusWord {answer : List UInt8} (h : front.Ready io answer) {code : Nat}
    {post : Unit → Device b × Front → Prop} {early : ε → Device b × Front → Prop}
    (hpost : ∀ front', front'.Sized io →
      front'.gIoApduBuffer.take front'.tx = Reply.bytes ⟨answer, code⟩ → post () (d, front')) :
    (putStatusWord code).wp safe (d, front) post early := by
  have hsize : front.gIoApduBuffer.length = io.ioApduBufferSize := h.sized
  have hlength := h.length_le
  have hfit : front.tx + [UInt8.ofNat (code / 256), UInt8.ofNat code].length ≤
      front.gIoApduBuffer.length := by
    rw [h.tx_eq, List.length_cons, List.length_singleton]
    omega
  have htake : (front.gIoApduBuffer.take answer.length).length = answer.length := by
    rw [h.take_eq]
  simp only [putStatusWord, Command.wp_bind, Command.wp_read, wp_setBuffer, wp_setTx]
  refine hpost _ ((overwrite_length hfit).trans hsize) ?_
  dsimp only
  rw [h.tx_eq, overwrite, h.take_eq]
  exact List.take_left' (by rw [List.length_append]; rfl)

/-- Writing over the whole buffer leaves what is written. -/
theorem overwrite_all {buffer bytes : List UInt8} (h : bytes.length = buffer.length) :
    overwrite buffer 0 bytes = bytes := by
  rw [overwrite, List.take_zero, List.nil_append, Nat.zero_add, h, List.drop_length,
    List.append_nil]

theorem wp_appFillAddress (hio : io.Standard) (hbase58 : base58.Encodes)
    {post : Unit → Device b × Front → Prop} {early : Thrown → Device b × Front → Prop}
    (hok : ∀ answer front', sdk.fillAddress base58 d.hdPath = some answer →
      front'.Holds io answer → post () (d, front'))
    (herror : ∀ front', sdk.fillAddress base58 d.hdPath = none → front'.Sized io →
      front'.tx = front.tx → early (.code .executionError []) (d, front')) :
    (appFillAddress sdk base58 io).wp safe (d, front) post early := by
  have hlarge := hio.large
  have hsignature : signatureSize = 138 := rfl
  have hanswer : secp256k1PubkeyLen + addressLen = 115 := rfl
  have hzeros : (List.replicate io.ioApduBufferSize (0 : UInt8)).length = io.ioApduBufferSize :=
    List.length_replicate
  simp only [appFillAddress, memzero, Command.wp_bind, wp_setBuffer, wp_setResponseLen,
    Command.wp_read, Command.wp_handle]
  apply wp_onBuffer
  apply wp_cryptoFillAddress hbase58 (by omega) (by rw [hzeros, Nat.zero_add])
  · intro answer hsome hpos hle
    have hall : (answer ++ List.replicate (io.ioApduBufferSize - answer.length) 0).length =
        (List.replicate io.ioApduBufferSize (0 : UInt8)).length := by
      rw [List.length_append, List.length_replicate, hzeros]
      omega
    have hvalid : ¬ (CryptoCode.ok ≠ .ok ∨ answer.length = 0) := by
      rintro (hne | hzero)
      · exact hne rfl
      · omega
    dsimp only
    simp only [Command.wp_bind, wp_setResponseLen, Command.wp_read, if_neg hvalid,
      Command.wp_pure, overwrite_all hall]
    exact hok answer ⟨_, _, _⟩ hsome ⟨rfl, hle, rfl⟩
  · intro code hnone hne
    dsimp only
    simp only [Command.wp_bind, Command.wp_read, if_pos (Or.inl hne), Command.wp_stop,
      overwrite_all rfl]
    exact herror ⟨_, _, _⟩ hnone hzeros rfl

theorem wp_appReplyAddress (hio : io.Standard) {answer : List UInt8} (h : front.Holds io answer)
    {post : List UInt8 → Device b × Front → Prop} {early : Stop → Device b × Front → Prop}
    (hpost : ∀ front', front'.Sized io →
      post (Reply.bytes ⟨answer, ApduCode.ok.value⟩) (d, front')) :
    (appReplyAddress io).wp safe (d, front) post early := by
  have hlarge := hio.large
  have hle := h.length_le
  have hsized := h.sized hio
  have hsignature : signatureSize = 138 := rfl
  have hanswer : secp256k1PubkeyLen + addressLen = 115 := rfl
  rw [Front.Sized] at hsized
  have hfront : front.gIoApduBuffer.take answer.length = answer := by
    rw [h.buffer_eq, List.take_left]
  simp only [appReplyAddress, Command.wp_bind, Command.wp_read, wp_setBuffer, wp_ioExchange,
    h.length_eq]
  rw [take_setCode hio _ (by omega) (by omega) hfront]
  exact hpost _ ((setCode_length hio _ (by omega) (by omega)).trans hsized)

theorem wp_appReject (hio : io.Standard) {post : List UInt8 → Device b × Front → Prop}
    {early : Stop → Device b × Front → Prop}
    (hpost : ∀ front', front'.Sized io →
      post (Reply.bytes ⟨[], ApduCode.commandNotAllowed.value⟩) (d, front')) :
    (appReject io).wp safe (d, front) post early := by
  have hlarge := hio.large
  have hzeros : (List.replicate io.ioApduBufferSize (0 : UInt8)).length = io.ioApduBufferSize :=
    List.length_replicate
  have hroom : ([] : List UInt8).length + 2 ≤
      (List.replicate io.ioApduBufferSize (0 : UInt8)).length := by
    rw [hzeros, List.length_nil]
    omega
  have hsent : (io.setCode 0 ApduCode.commandNotAllowed.value
      (List.replicate io.ioApduBufferSize 0)).take 2 =
        Reply.bytes ⟨[], ApduCode.commandNotAllowed.value⟩ :=
    take_setCode hio _ (by decide) hroom rfl
  simp only [appReject, memzero, Command.wp_bind, wp_setBuffer, wp_ioExchange]
  rw [hsent]
  exact hpost _ ((setCode_length hio _ (by decide) hroom).trans hzeros)

/-- Both answers to an approval of a transaction are those of the platform. -/
theorem wp_appSign (hio : io.Standard) (hreads : sdk.ReadsDer) (hsized : front.Sized io)
    {privateKey : sdk.PrivateKey} {post : List UInt8 → Device b × Front → Prop}
    {early : Stop → Device b × Front → Prop} (hsafe : ∀ message, safe (.sign d.hdPath message))
    (hpost : ∀ front', front'.Sized io →
      post (signedReply (sdk.signature d.hdPath (b.contents d.buffering))).bytes (d, front')) :
    (appSign sdk io privateKey).wp safe (d, front) post early := by
  have hlarge := hio.large
  have hsignature : signatureSize = 138 := rfl
  have hsize : front.gIoApduBuffer.length = io.ioApduBufferSize := hsized
  simp only [appSign, Command.wp_bind, Command.wp_read, Command.wp_emit, take_message]
  refine ⟨hsafe _, ?_⟩
  apply wp_onBuffer
  apply wp_cryptoSign hreads (by omega) (by omega)
  · intro bytes hsome hlow hhigh
    rw [hsome] at hpost
    have hsmall : bytes.length < 2 ^ 8 := by omega
    have hfit : 0 + bytes.length ≤ front.gIoApduBuffer.length := by omega
    have hroom : bytes.length + 2 ≤ (overwrite front.gIoApduBuffer 0 bytes).length := by
      rw [overwrite_length hfit]
      omega
    have hfront : (overwrite front.gIoApduBuffer 0 bytes).take bytes.length = bytes := by
      rw [overwrite, List.take_zero, List.nil_append, List.take_left]
    have hsent := take_setCode hio ApduCode.ok.value hsmall hroom hfront
    dsimp only
    rw [if_neg (by decide)]
    simp only [Command.wp_bind, wp_setBuffer, wp_ioExchange, hsent]
    refine hpost _ (((setCode_length hio _ hsmall hroom).trans ?_).trans hsize)
    exact overwrite_length hfit
  · intro length bytes hle hnone
    rw [hnone] at hpost
    have hfit : 0 + bytes.length ≤ front.gIoApduBuffer.length := by omega
    have hroom : ([] : List UInt8).length + 2 ≤ (overwrite front.gIoApduBuffer 0 bytes).length := by
      rw [overwrite_length hfit, List.length_nil]
      omega
    have hsent : (io.setCode 0 ApduCode.signVerifyError.value
        (overwrite front.gIoApduBuffer 0 bytes)).take 2 =
          Reply.bytes ⟨[], ApduCode.signVerifyError.value⟩ :=
      take_setCode hio _ (by decide) hroom rfl
    dsimp only
    rw [if_pos (by decide)]
    simp only [Command.wp_bind, wp_setBuffer, wp_ioExchange, hsent]
    refine hpost _ (((setCode_length hio _ (by decide) hroom).trans ?_).trans hsize)
    exact overwrite_length hfit

end Rules

end LedgerMatrix.Answers
