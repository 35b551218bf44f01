import LedgerMatrix.Device.Basic
import LedgerMatrix.Parser.Acceptance

/-! # What the handlers do

One rule for every handler: which answers it gives, which globals it leaves
changed in each case, and what the buffer holds then.
-/

namespace LedgerMatrix

open Imperative

/-! ## Frames -/

theorem sub32_of_le {a b : Nat} (h : b ≤ a) (ha : a < 2 ^ 32) : sub32 a b = a - b := by
  unfold sub32
  omega

namespace Apdu

variable {a : Apdu}

theorem data_length (h : offsetData ≤ a.rx) : a.data.length = a.rx - offsetData := by
  have hle := a.rx_le
  have hlt := a.rx_lt
  rw [data, sub32_of_le h hlt, slice_length (by omega)]

/-- The number of bytes that `tx_append` is asked to store. -/
theorem sub32_rx (h : offsetData ≤ a.rx) : sub32 a.rx offsetData = a.data.length := by
  rw [data_length h, sub32_of_le h a.rx_lt]

/-- The path at the front of the payload. -/
def path (a : Apdu) : HdPath := HdPath.ofBytes (a.data.take (4 * hdpathLenDefault))

theorem path_eq (h : offsetData ≤ a.rx) (hlong : 4 * hdpathLenDefault ≤ a.data.length) :
    HdPath.ofBytes (slice a.buffer offsetData (4 * hdpathLenDefault)) = a.path := by
  rw [path, data, slice, slice, List.take_take, Nat.min_eq_left]
  rwa [sub32_rx h]

/-- The command gets to the handler of its instruction. -/
structure Reaches (a : Apdu) (ins : UInt8) : Prop where
  cla_eq : a.byte offsetCla = cla
  rx_ge : apduMinLength ≤ a.rx
  ins_eq : a.byte offsetIns = ins
  pin : a.pinValidated = true

instance (a : Apdu) (ins : UInt8) : Decidable (a.Reaches ins) :=
  decidable_of_iff (a.byte offsetCla = cla ∧ apduMinLength ≤ a.rx ∧ a.byte offsetIns = ins ∧
      a.pinValidated = true)
    ⟨fun ⟨hcla, hrx, hins, hpin⟩ => ⟨hcla, hrx, hins, hpin⟩,
      fun h => ⟨h.cla_eq, h.rx_ge, h.ins_eq, h.pin⟩⟩

/-- The command is a chunk of a message, and gets to `process_chunk`. -/
structure Chunk (a : Apdu) (payloadType : UInt8) : Prop extends a.Reaches insSign where
  type_eq : a.byte offsetPayloadType = payloadType

instance (a : Apdu) (payloadType : UInt8) : Decidable (a.Chunk payloadType) :=
  decidable_of_iff (a.Reaches insSign ∧ a.byte offsetPayloadType = payloadType)
    ⟨fun ⟨hreaches, htype⟩ => ⟨hreaches, htype⟩, fun h => ⟨h.toReaches, h.type_eq⟩⟩

section Command

variable {ins p1 : UInt8} {payload : List UInt8} {pin : Bool} {h : payload.length < 256}

theorem command_data : (command ins p1 payload pin h).data = payload := by
  have hrx : offsetData ≤ offsetData + payload.length := Nat.le_add_right _ _
  rw [data, command, sub32_of_le hrx (by rw [offsetData]; omega), Nat.add_sub_cancel_left, slice]
  exact List.take_length

theorem command_reaches_iff : (command ins p1 payload pin h).Reaches ins ↔ pin = true :=
  ⟨fun hreaches => hreaches.pin, fun hpin => ⟨rfl, Nat.le_add_right _ _, rfl, hpin⟩⟩

end Command

theorem Chunk.data_ge (h : a.Chunk payloadType) : offsetData ≤ a.rx := h.rx_ge

end Apdu

section Rules

variable {b : Buffering} {zx : Zxlib} {p : Platform} {a : Apdu} {d : Device b}
variable {safe : Effect → Prop}

@[simp] theorem wp_throwCode {α : Type} {code : ApduCode} {post : α → Device b → Prop}
    {early : Thrown → Device b → Prop} :
    (throwCode code : Handler b α).wp safe d post early ↔ early (.code code []) d :=
  Command.wp_stop _

@[simp] theorem wp_throwAnswer {α : Type} {code : ApduCode} {answer : List UInt8}
    {post : α → Device b → Prop} {early : Thrown → Device b → Prop} :
    (throwAnswer code answer : Handler b α).wp safe d post early ↔ early (.code code answer) d :=
  Command.wp_stop _

/-! ## The path -/

/-- The flag is cleared in any case, and a path that is long enough is stored
whether or not it is one of the application. -/
theorem wp_extractHDPath (hrx : offsetData ≤ a.rx) {post : Unit → Device b → Prop}
    {early : Thrown → Device b → Prop}
    (hshort : a.data.length < 4 * hdpathLenDefault →
      early (.code .wrongLength []) { d with txInitialized := false })
    (hother : 4 * hdpathLenDefault ≤ a.data.length → ¬ a.path.Mainnet →
      early (.code .dataInvalid []) { d with txInitialized := false, hdPath := a.path })
    (hpost : 4 * hdpathLenDefault ≤ a.data.length → a.path.Mainnet →
      post () { d with txInitialized := false, hdPath := a.path }) :
    (extractHDPath a offsetData).wp safe d post early := by
  unfold extractHDPath
  simp only [Command.wp_bind, Command.wp_modify, Apdu.sub32_rx hrx]
  split
  next hlt => exact wp_throwCode.mpr (hshort hlt)
  next hge =>
    have hlong := Nat.le_of_not_lt hge
    simp only [Command.wp_bind, Command.wp_modify, Command.wp_read, Apdu.path_eq hrx hlong]
    split
    next hmain => exact (Command.wp_pure ()).mpr (hpost hlong hmain)
    next hmain => exact wp_throwCode.mpr (hother hlong hmain)

/-! ## Chunks -/

theorem wp_txAppend {bytes : List UInt8} {post : Nat → Device b → Prop}
    {early : Thrown → Device b → Prop}
    (hpost : post (b.append bytes d.buffering).2
      { d with buffering := (b.append bytes d.buffering).1 }) :
    (txAppend bytes).wp safe d post early := by
  unfold txAppend
  simpa only [Command.wp_bind, Command.wp_read, Command.wp_modify, Command.wp_pure] using hpost

/-- The chunk is stored in full. -/
def Stores (d : Device b) (bytes : List UInt8) : Prop :=
  (b.append bytes d.buffering).2 = bytes.length

/-- Bytes that are stored in full stand after those that were there. -/
theorem Stores.contents {bytes : List UInt8} (h : Stores d bytes) :
    b.contents (b.append bytes d.buffering).1 = b.contents d.buffering ++ bytes := by
  by_cases hfits : (b.contents d.buffering).length + bytes.length ≤ b.capacity
  · exact (b.append_fits bytes d.buffering hfits).2
  · have hless := b.append_full bytes d.buffering (Nat.lt_of_not_le hfits)
    rw [Stores] at h
    omega

theorem stores_iff (d : Device b) (bytes : List UInt8) :
    Stores d bytes ↔ (b.contents d.buffering).length + bytes.length ≤ b.capacity := by
  constructor
  · intro hstores
    have hle := b.contents_le (b.append bytes d.buffering).1
    rwa [hstores.contents, List.length_append] at hle
  · intro hfits
    exact (b.append_fits bytes d.buffering hfits).1

/-- What fits into the buffer is seen whole. -/
theorem Buffering.seen_contents (b : Buffering) {message : List UInt8}
    (h : message.length ≤ b.capacity) : seen message = message := by
  have hcapacity := b.capacity_le
  rw [flashBufferSize] at hcapacity
  exact seen_of_lt (by omega)

/-- The device after a first chunk, up to the path. -/
def Device.cleared (d : Device b) : Device b :=
  { d with txInitialized := false, buffering := b.reset (b.init d.buffering) }

theorem wp_processChunk_init (h : a.Chunk p1Init) {post : Bool → Device b → Prop}
    {early : Thrown → Device b → Prop}
    (hshort : a.data.length < 4 * hdpathLenDefault → early (.code .wrongLength []) d.cleared)
    (hother : 4 * hdpathLenDefault ≤ a.data.length → ¬ a.path.Mainnet →
      early (.code .dataInvalid []) { d.cleared with hdPath := a.path })
    (hpost : 4 * hdpathLenDefault ≤ a.data.length → a.path.Mainnet →
      post false { d.cleared with txInitialized := true, hdPath := a.path }) :
    (processChunk a).wp safe d post early := by
  unfold processChunk
  simp only [h.type_eq, if_neg (Nat.not_lt.mpr h.data_ge), if_true, txInitialize, txReset,
    Command.wp_bind, Command.wp_modify, Command.wp_pure]
  exact wp_extractHDPath h.data_ge hshort hother hpost

theorem wp_processChunk_add (h : a.Chunk p1Add) {post : Bool → Device b → Prop}
    {early : Thrown → Device b → Prop}
    (hclosed : d.txInitialized = false → early (.code .txNotInitialized []) d)
    (hfull : d.txInitialized = true → ¬ Stores d a.data →
      early (.code .outputBufferTooSmall [])
        { d with txInitialized := false, buffering := (b.append a.data d.buffering).1 })
    (hpost : d.txInitialized = true → Stores d a.data →
      post false { d with buffering := (b.append a.data d.buffering).1 }) :
    (processChunk a).wp safe d post early := by
  have hinit : p1Add ≠ p1Init := by decide
  unfold processChunk
  simp only [h.type_eq, if_neg (Nat.not_lt.mpr h.data_ge), if_neg hinit, if_true,
    Command.wp_bind, Command.wp_read]
  split
  next hflag => exact wp_throwCode.mpr (hclosed hflag)
  next hflag =>
    have htrue := Bool.eq_true_of_not_eq_false hflag
    simp only [Command.wp_bind]
    apply wp_txAppend
    rw [Apdu.sub32_rx h.data_ge]
    split
    next hcount =>
      simp only [Command.wp_bind, Command.wp_modify, wp_throwCode]
      exact hfull htrue hcount
    next hcount => exact (Command.wp_pure _).mpr (hpost htrue (not_not.mp hcount))

theorem wp_processChunk_last (h : a.Chunk p1Last) {post : Bool → Device b → Prop}
    {early : Thrown → Device b → Prop}
    (hclosed : d.txInitialized = false → early (.code .txNotInitialized []) d)
    (hfull : d.txInitialized = true → ¬ Stores d a.data →
      early (.code .outputBufferTooSmall [])
        { d with txInitialized := false, buffering := (b.append a.data d.buffering).1 })
    (hpost : d.txInitialized = true → Stores d a.data →
      post true { d with txInitialized := false, buffering := (b.append a.data d.buffering).1 }) :
    (processChunk a).wp safe d post early := by
  have hinit : p1Last ≠ p1Init := by decide
  have hadd : p1Last ≠ p1Add := by decide
  unfold processChunk
  simp only [h.type_eq, if_neg (Nat.not_lt.mpr h.data_ge), if_neg hinit, if_neg hadd, if_true,
    Command.wp_bind, Command.wp_read]
  split
  next hflag => exact wp_throwCode.mpr (hclosed hflag)
  next hflag =>
    have htrue := Bool.eq_true_of_not_eq_false hflag
    simp only [Command.wp_bind]
    apply wp_txAppend
    simp only [Command.wp_modify]
    rw [Apdu.sub32_rx h.data_ge]
    split
    next hcount => exact wp_throwCode.mpr (hfull htrue hcount)
    next hcount => exact (Command.wp_pure _).mpr (hpost htrue (not_not.mp hcount))

theorem wp_processChunk_other (h : a.Reaches insSign) (hinit : ¬ a.Chunk p1Init)
    (hadd : ¬ a.Chunk p1Add) (hlast : ¬ a.Chunk p1Last) {post : Bool → Device b → Prop}
    {early : Thrown → Device b → Prop} (hearly : early (.code .invalidP1P2 []) d) :
    (processChunk a).wp safe d post early := by
  unfold processChunk
  have hdata : ¬ a.rx < offsetData := Nat.not_lt.mpr h.rx_ge
  simp only [if_neg hdata, if_neg fun htype => hinit ⟨h, htype⟩,
    if_neg fun htype => hadd ⟨h, htype⟩, if_neg fun htype => hlast ⟨h, htype⟩]
  exact wp_throwCode.mpr hearly

/-! ## Parsing -/

/-- Parsing the buffer always comes to an end: with nothing, and then the buffer
holds a valid transaction, or with the text of an error. -/
theorem wp_txParse {buffer : List UInt8} {s : ParserState}
    {post : Option String → ParserState → Prop} {early : Stop → ParserState → Prop}
    (hok : ∀ state t, Holds buffer state t → t.Valid zx → post none state)
    (herror : ∀ code state, post (some (parserGetErrorDescription code)) state) :
    (txParse zx buffer).wp Event.Good s post early := by
  simp only [txParse, Command.wp_handle, Command.wp_bind]
  apply wp_parserParse
  · intro t v ht hviews
    have hholds : Holds buffer ⟨⟨some 0, u16 buffer.length, u16 buffer.length, true⟩, v⟩ t :=
      ⟨ht, rfl, hviews⟩
    simp only [Command.wp_read, Command.wp_zoom, Command.wp_pure]
    exact wp_parserValidate hholds (hok _ t hholds) fun code _ =>
      (Command.wp_pure _).mpr (herror code _)
  · exact fun _ code state => (Command.wp_pure _).mpr (herror code state)

theorem wp_parseBuffer {post : Option String → Device b → Prop}
    {early : Thrown → Device b → Prop} (hsafe : safe (.parse (b.contents d.buffering)))
    (hok : ∀ state t, Holds (b.contents d.buffering) state t → t.Valid zx →
      post none { d with ctxParsedTx := state })
    (herror : ∀ code state,
      post (some (parserGetErrorDescription code)) { d with ctxParsedTx := state }) :
    (parseBuffer zx).wp safe d post early := by
  unfold parseBuffer
  simp only [Command.wp_bind, Command.wp_read, Command.wp_emit, Command.wp_handle,
    Command.wp_quiet, Command.wp_zoom]
  refine ⟨hsafe, ?_⟩
  exact (wp_txParse hok herror).safe_mono fun _ _ => trivial

/-! ## Commands -/

section Apdu

variable {post : Option Reply → Device b → Prop} {early : Stop → Device b → Prop}

theorem statusWord_value (code : ApduCode) : statusWord code.value = code.value := by
  cases code <;> rfl

/-- What becomes of an exception in `handleApdu`. -/
def Caught (post : Option Reply → Device b → Prop) (early : Stop → Device b → Prop) :
    Thrown → Device b → Prop
  | .code code answer, d => post (some ⟨answer, code.value⟩) d
  | .undefined stop, d => early stop d

theorem wp_handleApdu (h : (dispatch zx p a).wp safe d (fun _ d' => post none d')
    (Caught post early)) : (handleApdu zx p a).wp safe d post early := by
  unfold handleApdu
  simp only [Command.wp_handle, Command.wp_bind, Command.wp_pure]
  refine h.mono (fun _ _ hpost => hpost) fun thrown d' hcaught => ?_
  cases thrown with
  | code code answer =>
      rw [Command.wp_pure, statusWord_value]
      exact hcaught
  | undefined stop => exact (Command.wp_stop stop).mpr hcaught

theorem wp_handleApdu_getAddr (h : a.Reaches insGetAddr)
    (hhandler : (handleGetAddr p a).wp safe d (fun _ d' => post none d') (Caught post early)) :
    (handleApdu zx p a).wp safe d post early := by
  have hversion : insGetAddr ≠ insGetVersion := by decide
  apply wp_handleApdu
  unfold dispatch checkPinValidated
  simp only [h.cla_eq, ne_eq, not_true_eq_false, if_false, if_neg (Nat.not_lt.mpr h.rx_ge),
    h.ins_eq, if_neg hversion, if_true, h.pin, Command.wp_bind, Command.wp_pure]
  exact hhandler

theorem wp_handleApdu_sign (h : a.Reaches insSign)
    (hhandler : (handleSign zx a).wp safe d (fun _ d' => post none d') (Caught post early)) :
    (handleApdu zx p a).wp safe d post early := by
  have hversion : insSign ≠ insGetVersion := by decide
  have haddr : insSign ≠ insGetAddr := by decide
  apply wp_handleApdu
  unfold dispatch checkPinValidated
  simp only [h.cla_eq, ne_eq, not_true_eq_false, if_false, if_neg (Nat.not_lt.mpr h.rx_ge),
    h.ins_eq, if_neg hversion, if_neg haddr, if_true, h.pin, Command.wp_bind, Command.wp_pure]
  exact hhandler

/-- A command that gets to no handler of its own is answered and changes nothing. -/
theorem wp_handleApdu_unreached (haddr : ¬ a.Reaches insGetAddr) (hsign : ¬ a.Reaches insSign)
    (hpost : ∀ (code : ApduCode) (answer : List UInt8), (a.byte offsetIns = insSign → code ≠ .ok) →
      post (some ⟨answer, code.value⟩) d) : (handleApdu zx p a).wp safe d post early := by
  apply wp_handleApdu
  unfold dispatch
  split
  next => exact wp_throwCode.mpr (hpost _ _ fun _ => by decide)
  next hcla =>
  have hcla := not_not.mp hcla
  split
  next => exact wp_throwCode.mpr (hpost _ _ fun _ => by decide)
  next hrx =>
  have hrx := Nat.le_of_not_lt hrx
  split
  next hins =>
    refine wp_throwAnswer.mpr (hpost _ _ fun hins' => ?_)
    exact absurd (hins.symm.trans hins') (by decide)
  next =>
  split
  next hins =>
    have hpin : a.pinValidated = false :=
      Bool.eq_false_of_not_eq_true fun hpin => haddr ⟨hcla, hrx, hins, hpin⟩
    simp only [checkPinValidated, hpin, Bool.false_eq_true, if_false, Command.wp_bind]
    exact wp_throwCode.mpr (hpost _ _ fun _ => by decide)
  next =>
  split
  next hins =>
    have hpin : a.pinValidated = false :=
      Bool.eq_false_of_not_eq_true fun hpin => hsign ⟨hcla, hrx, hins, hpin⟩
    simp only [checkPinValidated, hpin, Bool.false_eq_true, if_false, Command.wp_bind]
    exact wp_throwCode.mpr (hpost _ _ fun _ => by decide)
  next => exact wp_throwCode.mpr (hpost _ _ fun _ => by decide)

/-- A path that is refused is answered with an error. A path of the application is
answered with its address, or with an error, or put on the screen. -/
theorem wp_getAddr (h : a.Reaches insGetAddr)
    (hshort : a.data.length < 4 * hdpathLenDefault →
      post (some ⟨[], ApduCode.wrongLength.value⟩) { d with txInitialized := false })
    (hreview : 4 * hdpathLenDefault ≤ a.data.length → a.path.Mainnet →
      safe (.review .appReplyAddress) ∧ post none
        { d with txInitialized := false, hdPath := a.path, review := some .appReplyAddress })
    (hanswer : 4 * hdpathLenDefault ≤ a.data.length → ∀ (code : ApduCode) (answer : List UInt8),
      (code = .ok → a.path.Mainnet) → post (some ⟨answer, code.value⟩)
        { d with txInitialized := false, hdPath := a.path }) :
    (handleApdu zx p a).wp safe d post early := by
  apply wp_handleApdu_getAddr h
  unfold handleGetAddr
  simp only [Command.wp_bind]
  apply wp_extractHDPath h.rx_ge
  · exact hshort
  · intro hlong _
    exact hanswer hlong _ _ (fun hok => absurd hok (by decide))
  · intro hlong hmain
    simp only [appFillAddress, Command.wp_bind, Command.wp_read]
    split
    next => exact wp_throwCode.mpr (hanswer hlong _ _ fun hok => absurd hok (by decide))
    next answer _ =>
      rw [Command.wp_pure]
      split
      next =>
        simp only [viewReviewInit, Command.wp_bind, Command.wp_modify, Command.wp_emit]
        exact hreview hlong hmain
      next => exact wp_throwAnswer.mpr (hanswer hlong _ _ fun _ => hmain)

theorem wp_init (h : a.Chunk p1Init)
    (hshort : a.data.length < 4 * hdpathLenDefault →
      post (some ⟨[], ApduCode.wrongLength.value⟩) d.cleared)
    (hother : 4 * hdpathLenDefault ≤ a.data.length → ¬ a.path.Mainnet →
      post (some ⟨[], ApduCode.dataInvalid.value⟩) { d.cleared with hdPath := a.path })
    (hpost : 4 * hdpathLenDefault ≤ a.data.length → a.path.Mainnet →
      post (some ⟨[], ApduCode.ok.value⟩)
        { d.cleared with txInitialized := true, hdPath := a.path }) :
    (handleApdu zx p a).wp safe d post early := by
  apply wp_handleApdu_sign h.toReaches
  unfold handleSign
  rw [Command.wp_bind]
  apply wp_processChunk_init h hshort hother
  intro hlong hmain
  rw [if_pos rfl]
  exact wp_throwCode.mpr (hpost hlong hmain)

/-- A first chunk with a path of the application is accepted. -/
theorem init_accepted (h : a.Chunk p1Init) (hlong : 4 * hdpathLenDefault ≤ a.data.length)
    (hmain : a.path.Mainnet) :
    (handleApdu zx p a).outcome d = .done (some ⟨[], ApduCode.ok.value⟩)
      { d.cleared with txInitialized := true, hdPath := a.path } := by
  have hend : (handleApdu zx p a).wp (fun _ => True) d
      (fun reply d' => reply = some ⟨[], ApduCode.ok.value⟩ ∧
        d' = { d.cleared with txInitialized := true, hdPath := a.path }) (fun _ _ => False) :=
    wp_init h (fun hshort => absurd hlong (Nat.not_le.mpr hshort))
      (fun _ hother => absurd hmain hother) (fun _ _ => ⟨rfl, rfl⟩)
  obtain ⟨_, _, hend, rfl, rfl⟩ := hend.exists_done
  exact hend

theorem wp_add (h : a.Chunk p1Add)
    (hclosed : d.txInitialized = false →
      post (some ⟨[], ApduCode.txNotInitialized.value⟩) d)
    (hfull : d.txInitialized = true → ¬ Stores d a.data →
      post (some ⟨[], ApduCode.outputBufferTooSmall.value⟩)
        { d with txInitialized := false, buffering := (b.append a.data d.buffering).1 })
    (hpost : d.txInitialized = true → Stores d a.data →
      post (some ⟨[], ApduCode.ok.value⟩)
        { d with buffering := (b.append a.data d.buffering).1 }) :
    (handleApdu zx p a).wp safe d post early := by
  apply wp_handleApdu_sign h.toReaches
  unfold handleSign
  rw [Command.wp_bind]
  apply wp_processChunk_add h hclosed hfull
  intro hflag hstores
  rw [if_pos rfl]
  exact wp_throwCode.mpr (hpost hflag hstores)

/-- What a last chunk leaves, up to parsing. -/
def Device.complete (d : Device b) (bytes : List UInt8) : Device b :=
  { d with txInitialized := false, buffering := (b.append bytes d.buffering).1 }

/-- A last chunk that is stored in full completes the message, which is parsed, and
a valid transaction is put on the screen. -/
theorem wp_last (h : a.Chunk p1Last)
    (hclosed : d.txInitialized = false →
      post (some ⟨[], ApduCode.txNotInitialized.value⟩) d)
    (hfull : d.txInitialized = true → ¬ Stores d a.data →
      post (some ⟨[], ApduCode.outputBufferTooSmall.value⟩) (d.complete a.data))
    (hparse : d.txInitialized = true → Stores d a.data →
      safe (.parse (b.contents d.buffering ++ a.data)))
    (hreview : d.txInitialized = true → Stores d a.data → ∀ state t,
      Holds (b.contents d.buffering ++ a.data) state t → t.Valid zx →
      safe (.review .appSign) ∧
        post none { d.complete a.data with ctxParsedTx := state, review := some .appSign })
    (herror : d.txInitialized = true → Stores d a.data → ∀ text state,
      post (some ⟨text, ApduCode.dataInvalid.value⟩)
        { d.complete a.data with ctxParsedTx := state }) :
    (handleApdu zx p a).wp safe d post early := by
  apply wp_handleApdu_sign h.toReaches
  unfold handleSign
  rw [Command.wp_bind]
  apply wp_processChunk_last h hclosed hfull
  intro hflag hstores
  have hcontents := hstores.contents
  rw [if_neg (by decide), Command.wp_bind]
  apply wp_parseBuffer
  · rw [hcontents]
    exact hparse hflag hstores
  · intro state t hholds hvalid
    rw [hcontents] at hholds
    simp only [viewReviewInit, Command.wp_bind, Command.wp_modify, Command.wp_emit]
    exact hreview hflag hstores state t hholds hvalid
  · intro code state
    exact wp_throwAnswer.mpr (herror hflag hstores _ state)

/-- Such a chunk is parsed. -/
theorem last_parsed (h : a.Chunk p1Last) (hflag : d.txInitialized = true)
    (hstores : Stores d a.data) :
    Effect.parse (b.contents d.buffering ++ a.data) ∈ (handleApdu zx p a).trace d := by
  have hchunk : (processChunk a).wp (fun _ => True) d
      (fun complete d' => complete = true ∧ d' = d.complete a.data) (fun _ _ => False) :=
    wp_processChunk_last h (fun hclosed => absurd (hflag.symm.trans hclosed) (by decide))
      (fun _ hnot => hnot hstores) (fun _ _ => ⟨rfl, rfl⟩)
  obtain ⟨_, _, hend, rfl, rfl⟩ := hchunk.exists_done
  have hparse : Effect.parse (b.contents d.buffering ++ a.data) ∈
      (parseBuffer zx).trace (d.complete a.data) := by
    rw [← hstores.contents]
    exact List.mem_cons_self
  have hsign : Effect.parse (b.contents d.buffering ++ a.data) ∈ (handleSign zx a).trace d := by
    rw [handleSign, Command.trace_bind_of_done hend]
    refine List.mem_append_right _ ?_
    rw [if_neg (by decide)]
    exact Command.mem_trace_bind hparse _
  have hversion : insSign ≠ insGetVersion := by decide
  have haddr : insSign ≠ insGetAddr := by decide
  refine Command.mem_trace_handle (Command.mem_trace_bind ?_ _) _
  unfold dispatch checkPinValidated
  simp only [h.cla_eq, ne_eq, not_true_eq_false, if_false, if_neg (Nat.not_lt.mpr h.rx_ge),
    h.ins_eq, if_neg hversion, if_neg haddr, if_true, h.pin]
  exact hsign

theorem ApduCode.value_ne_ok {code : ApduCode} (h : code ≠ .ok) :
    code.value ≠ ApduCode.ok.value := by
  cases code <;> first | exact absurd rfl h | decide

/-- A command that no other rule is about changes nothing, and is refused when it is
a chunk. -/
theorem wp_idle (haddr : ¬ a.Reaches insGetAddr) (hinit : ¬ a.Chunk p1Init)
    (hadd : ¬ a.Chunk p1Add) (hlast : ¬ a.Chunk p1Last)
    (hpost : ∀ (code : ApduCode) (answer : List UInt8), (a.byte offsetIns = insSign → code ≠ .ok) →
      post (some ⟨answer, code.value⟩) d) :
    (handleApdu zx p a).wp safe d post early := by
  by_cases hsign : a.Reaches insSign
  · apply wp_handleApdu_sign hsign
    unfold handleSign
    rw [Command.wp_bind]
    exact wp_processChunk_other hsign hinit hadd hlast (hpost _ _ fun _ => by decide)
  · exact wp_handleApdu_unreached haddr hsign hpost

/-- Every command comes to its end. -/
theorem handleApdu_ends (a : Apdu) (d : Device b) :
    (handleApdu zx p a).wp (fun _ => True) d (fun _ _ => True) (fun _ _ => False) := by
  by_cases haddr : a.Reaches insGetAddr
  · exact wp_getAddr haddr (fun _ => trivial) (fun _ _ => ⟨trivial, trivial⟩)
      (fun _ _ _ _ => trivial)
  by_cases hinit : a.Chunk p1Init
  · exact wp_init hinit (fun _ => trivial) (fun _ _ => trivial) (fun _ _ => trivial)
  by_cases hadd : a.Chunk p1Add
  · exact wp_add hadd (fun _ => trivial) (fun _ _ => trivial) (fun _ _ => trivial)
  by_cases hlast : a.Chunk p1Last
  · exact wp_last hlast (fun _ => trivial) (fun _ _ => trivial) (fun _ _ => trivial)
      (fun _ _ _ _ _ _ => ⟨trivial, trivial⟩) (fun _ _ _ _ => trivial)
  · exact wp_idle haddr hinit hadd hlast fun _ _ _ => trivial

end Apdu

/-- The answer with a signature, or with an error where there is none. -/
def signedReply : Option (List UInt8) → Reply
  | none => ⟨[], ApduCode.signVerifyError.value⟩
  | some signature => ⟨signature, ApduCode.ok.value⟩

/-- What is answered when a transaction is approved. -/
theorem appSign_outcome (p : Platform) (d : Device b) : (appSign p).outcome d =
    .done (signedReply (p.sign d.hdPath
      ((b.contents d.buffering).take (u16 (b.contents d.buffering).length)))) d := by
  unfold appSign
  cases hsign : p.sign d.hdPath
    ((b.contents d.buffering).take (u16 (b.contents d.buffering).length)) with
  | none =>
      refine (Command.outcome_bind_of_done rfl).trans ((Command.outcome_bind_of_done rfl).trans ?_)
      rw [hsign]
      rfl
  | some signature =>
      refine (Command.outcome_bind_of_done rfl).trans ((Command.outcome_bind_of_done rfl).trans ?_)
      rw [hsign]
      rfl

end Rules

end LedgerMatrix
