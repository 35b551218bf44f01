import LedgerMatrix.Device.Answers
import LedgerMatrix.Display.Paging
import LedgerMatrix.Foundation.Simulation

/-! # The buffer and the platform

Seen from outside, the device with its buffer is the one where public keys, addresses
and signatures come from a platform. What a command finds in the buffer has arrived with
it, and what a decision finds there was put there by the command that opened the review,
unless an address is on the screen and another command comes in.
-/

namespace LedgerMatrix.Answers

open Imperative

section Mirror

variable {b : Buffering} {sdk : Sdk} {base58 : AddressLibrary} {io : Io}
variable {zx : Zxlib} {version : Vector UInt8 12} {a : Apdu} {d : Device b} {front : Front}

/-- An address that is on the screen is in the buffer. -/
structure Front.Backs (sdk : Sdk) (base58 : AddressLibrary) (io : Io) (front : Front)
    (d : Device b) : Prop where
  sized : front.Sized io
  holds : d.review = some .appReplyAddress →
    ∃ answer, sdk.fillAddress base58 d.hdPath = some answer ∧ front.Holds io answer

/-- An exception with nothing but a code. -/
def Bare : Thrown → Device b → Prop
  | .code _ answer, _ => answer = []
  | .undefined _, _ => False

/-- The command ends as the device does. What the device puts into an answer stands at
the front of the buffer then. -/
def Mirrors (sdk : Sdk) (base58 : AddressLibrary) (io : Io) (ends : Outcome Thrown (Device b) Unit)
    (c : Routine b Thrown Unit) (s : Device b × Front) : Prop :=
  c.wp (fun _ => True) s
    (fun _ s' => ends = .done () s'.1 ∧ s'.2.Backs sdk base58 io s'.1)
    (fun thrown s' => ∃ code answer, thrown = .code code [] ∧
      ends = .stop (.code code answer) s'.1 ∧ s'.2.Ready io answer)

/-- A code is thrown without an answer. -/
theorem mirrors_throwCode (hready : front.Ready io []) (code : ApduCode) (d : Device b) :
    Mirrors sdk base58 io ((throwCode code).outcome d) (throwBuffer code) (d, front) :=
  wp_throwBuffer.mpr ⟨code, [], rfl, rfl, hready⟩

theorem mirrors_throwAnswer (hready : front.Ready io []) {answer : List UInt8}
    (hroom : answer.length + 2 ≤ io.ioApduBufferSize) (code : ApduCode) (d : Device b) :
    Mirrors sdk base58 io ((throwAnswer code answer).outcome d)
      (do
        putAnswer answer
        throwBuffer code) (d, front) := by
  rw [Mirrors, Command.wp_bind]
  exact wp_putAnswer hready hroom fun front' hfront =>
    wp_throwBuffer.mpr ⟨code, answer, rfl, rfl, hfront⟩

/-- A handler that does not touch the buffer, and what comes after it. -/
theorem mirrors_bind {α : Type} {c : Handler b α} {f : α → Handler b Unit}
    {g : α → Routine b Thrown Unit} (hready : front.Ready io [])
    (h : c.wp (fun _ => True) d
      (fun value d' => Mirrors sdk base58 io ((f value).outcome d') (g value) (d', front)) Bare) :
    Mirrors sdk base58 io ((c >>= f).outcome d) (onDevice c >>= g) (d, front) := by
  rw [Mirrors, Command.wp_bind, onDevice, Command.wp_zoom]
  refine ⟨fun _ _ => trivial, ?_⟩
  simp only [Lens.fst_get, Lens.fst_set]
  cases hend : c.outcome d with
  | done value d' =>
      rw [Command.outcome_bind_of_done hend]
      exact h.of_done hend
  | stop thrown d' =>
      have hbare := h.of_stop hend
      rw [Command.outcome_bind_of_stop hend]
      cases thrown with
      | code code answer =>
          obtain rfl : answer = [] := hbare
          exact ⟨code, [], rfl, rfl, hready⟩
      | undefined stop => exact hbare.elim

/-- A review of a transaction needs nothing of the buffer. -/
theorem mirrors_review (hsized : front.Sized io) (d : Device b) :
    Mirrors sdk base58 io ((viewReviewInit .appSign).outcome d) (onDevice (viewReviewInit .appSign))
      (d, front) := by
  rw [Mirrors, onDevice, Command.wp_zoom]
  simp only [viewReviewInit, Command.wp_bind, Command.wp_modify, Command.wp_emit, Lens.fst_get,
    Lens.fst_set]
  exact ⟨trivial, rfl, hsized, fun haddress => by cases haddress⟩

/-- What is thrown by chunks has no answer. -/
theorem processChunk_bare (hrx : offsetData ≤ a.rx) :
    (processChunk a).wp (fun _ => True) d (fun _ _ => True) Bare := by
  unfold processChunk
  rw [if_neg (Nat.not_lt.mpr hrx)]
  split
  · simp only [txInitialize, txReset, Command.wp_bind, Command.wp_modify, Command.wp_pure]
    exact wp_extractHDPath hrx (fun _ => rfl) (fun _ _ => rfl) fun _ _ => trivial
  split
  · simp only [Command.wp_bind, Command.wp_read]
    split
    · exact wp_throwCode.mpr rfl
    · rw [Command.wp_bind]
      apply wp_txAppend
      split
      · simp only [Command.wp_bind, Command.wp_modify]
        exact wp_throwCode.mpr rfl
      · exact (Command.wp_pure _).mpr trivial
  split
  · simp only [Command.wp_bind, Command.wp_read]
    split
    · exact wp_throwCode.mpr rfl
    · rw [Command.wp_bind]
      apply wp_txAppend
      simp only [Command.wp_bind, Command.wp_modify]
      split
      · exact wp_throwCode.mpr rfl
      · exact (Command.wp_pure _).mpr trivial
  · exact wp_throwCode.mpr rfl

/-- There is room for every text of an error. -/
theorem ascii_parserGetErrorDescription_le (code : ParserError) :
    (ascii (parserGetErrorDescription code)).length ≤ signatureSize := by
  cases code <;> decide +kernel

theorem handleSign_mirrors (hio : io.Standard) (hready : front.Ready io [])
    (hrx : offsetData ≤ a.rx) (d : Device b) :
    Mirrors sdk base58 io ((LedgerMatrix.handleSign zx a).outcome d) (handleSign io zx a)
      (d, front) := by
  unfold LedgerMatrix.handleSign handleSign
  refine mirrors_bind hready ((processChunk_bare hrx).mono (fun complete d' _ => ?_) fun _ _ => id)
  split
  next => exact mirrors_throwCode hready .ok d'
  next =>
    refine mirrors_bind hready (wp_parseBuffer trivial (fun _ _ _ _ => ?_) fun code _ => ?_)
    · exact mirrors_review hready.sized _
    · have hlarge := hio.large
      have hshort := ascii_parserGetErrorDescription_le code
      dsimp only
      rw [List.take_of_length_le (by omega)]
      exact mirrors_throwAnswer hready (by omega) .dataInvalid _

/-- A request for an address. -/
theorem handleGetAddr_mirrors (hio : io.Standard) (hbase58 : base58.Encodes)
    (hready : front.Ready io []) (hrx : offsetData ≤ a.rx) (d : Device b) :
    Mirrors sdk base58 io ((LedgerMatrix.handleGetAddr (platform sdk base58 version) a).outcome d)
      (handleGetAddr sdk base58 io a) (d, front) := by
  unfold LedgerMatrix.handleGetAddr handleGetAddr
  apply mirrors_bind hready
  refine wp_extractHDPath hrx (fun _ => rfl) (fun _ _ => rfl) fun _ _ => ?_
  generalize ({ d with txInitialized := false, hdPath := a.path } : Device b) = d'
  dsimp only
  rw [Mirrors, Command.wp_bind]
  apply wp_appFillAddress hio hbase58
  · intro answer front' hfill hholds
    have hsome : (LedgerMatrix.appFillAddress (platform sdk base58 version)).outcome d' =
        .done answer d' := by
      refine (Command.outcome_bind_of_done rfl).trans ?_
      simp only [platform, hfill]
      rfl
    rw [Command.outcome_bind_of_done hsome]
    by_cases hconfirm : a.byte offsetP1 = 0
    · rw [if_neg (not_not.mpr hconfirm), if_neg (not_not.mpr hconfirm)]
      simp only [Command.wp_bind, Command.wp_read, wp_setTx]
      have hlarge := hio.large
      have hle := hholds.length_le
      have hsignature : signatureSize = 138 := rfl
      have hanswer : secp256k1PubkeyLen + addressLen = 115 := rfl
      refine wp_throwBuffer.mpr ⟨.ok, answer, rfl, rfl, hholds.sized hio, hholds.length_eq,
        by omega, ?_⟩
      dsimp only
      rw [hholds.buffer_eq, List.take_left]
    · rw [if_pos hconfirm, if_pos hconfirm, onDevice, Command.wp_zoom]
      simp only [viewReviewInit, Command.wp_bind, Command.wp_modify, Command.wp_emit, Lens.fst_get,
        Lens.fst_set]
      exact ⟨trivial, rfl, hholds.sized hio, fun _ => ⟨answer, hfill, hholds⟩⟩
  · intro front' hfill hsized htx
    have hnone : (LedgerMatrix.appFillAddress (platform sdk base58 version)).outcome d' =
        .stop (.code .executionError []) d' := by
      refine (Command.outcome_bind_of_done rfl).trans ?_
      simp only [platform, hfill]
      rfl
    rw [Command.outcome_bind_of_stop hnone]
    exact ⟨.executionError, [], rfl, rfl, Front.ready_nil hio hsized (htx.trans hready.tx_eq)⟩

theorem checkPinValidated_bare :
    (checkPinValidated a).wp (fun _ => True) d (fun _ d' => d' = d) Bare := by
  unfold checkPinValidated
  split
  · exact (Command.wp_pure ()).mpr rfl
  · exact wp_throwCode.mpr rfl

theorem dispatch_mirrors (hio : io.Standard) (hbase58 : base58.Encodes)
    (hready : front.Ready io []) (d : Device b) :
    Mirrors sdk base58 io ((LedgerMatrix.dispatch zx (platform sdk base58 version) a).outcome d)
      (dispatch sdk base58 io zx version a) (d, front) := by
  unfold LedgerMatrix.dispatch dispatch
  split
  next => exact mirrors_throwCode hready _ d
  next =>
  split
  next => exact mirrors_throwCode hready _ d
  next hrx =>
  have hrx : offsetData ≤ a.rx := Nat.le_of_not_lt hrx
  split
  next =>
    have hlarge := hio.large
    have hsignature : signatureSize = 138 := rfl
    have hroom : version.toList.length + 2 ≤ io.ioApduBufferSize := by
      rw [Vector.length_toList]
      omega
    exact mirrors_throwAnswer hready hroom .ok d
  next =>
  split
  next =>
    refine mirrors_bind hready (checkPinValidated_bare.mono (fun _ d' _ => ?_) fun _ _ => id)
    exact handleGetAddr_mirrors hio hbase58 hready hrx d'
  next =>
  split
  next =>
    refine mirrors_bind hready (checkPinValidated_bare.mono (fun _ d' _ => ?_) fun _ _ => id)
    exact handleSign_mirrors hio hready hrx d'
  next => exact mirrors_throwCode hready _ d

/-- Every command ends as on the device: what is answered is sent from the buffer, and
what is put on the screen is in it. -/
theorem handleApdu_mirrors (hio : io.Standard) (hbase58 : base58.Encodes)
    (hsize : a.buffer.length = io.ioApduBufferSize) (d : Device b) (front : Front) :
    ∃ (reply : Option Reply) (d' : Device b) (front' : Front),
      (LedgerMatrix.handleApdu zx (platform sdk base58 version) a).outcome d = .done reply d' ∧
      (handleApdu sdk base58 io zx version a).outcome (d, front) =
        .done (reply.map Reply.bytes) (d', front') ∧
      front'.Sized io ∧ (reply = none → front'.Backs sdk base58 io d') := by
  have hrun : (handleApdu sdk base58 io zx version a).wp (fun _ => True) (d, front)
      (fun sent s' => ∃ reply : Option Reply, sent = reply.map Reply.bytes ∧
        (LedgerMatrix.handleApdu zx (platform sdk base58 version) a).outcome d =
          .done reply s'.1 ∧
        s'.2.Sized io ∧ (reply = none → s'.2.Backs sdk base58 io s'.1)) (fun _ _ => False) := by
    unfold handleApdu LedgerMatrix.handleApdu
    simp only [Command.wp_bind, wp_setBuffer, wp_setTx, Command.wp_handle]
    have hready : Front.Ready io { front with gIoApduBuffer := a.buffer, tx := 0 } [] :=
      Front.ready_nil hio hsize rfl
    refine (dispatch_mirrors hio hbase58 hready d).mono (fun _ s' hdone => ?_)
      fun thrown s' hstop => ?_
    · obtain ⟨hend, hbacks⟩ := hdone
      refine (Command.wp_pure _).mpr ⟨none, rfl, ?_, hbacks.sized, fun _ => hbacks⟩
      exact Command.outcome_handle_of_done ((Command.outcome_bind_of_done hend).trans rfl)
    · obtain ⟨code, answer, rfl, hend, hfront⟩ := hstop
      simp only [Command.wp_bind]
      refine wp_putStatusWord hfront fun front' hsized hsent => ?_
      simp only [Command.wp_read, wp_ioExchange, Command.wp_pure]
      refine ⟨some ⟨answer, statusWord code.value⟩, congrArg some hsent, ?_, hsized,
        fun hnone => by cases hnone⟩
      exact (Command.outcome_handle_of_stop (Command.outcome_bind_of_stop hend)).trans rfl
  obtain ⟨_, ⟨d', front'⟩, hend, reply, rfl, hmirror, hsized, hbacks⟩ := hrun.exists_done
  exact ⟨reply, d', front', hmirror, hend, hsized, hbacks⟩

/-- What is on the screen is sent when it is approved. -/
theorem decide_mirrors (hio : io.Standard) (hreads : sdk.ReadsDer)
    (hbacks : front.Backs sdk base58 io d) (privateKey : sdk.PrivateKey) (approves : Bool) :
    ∃ front' : Front, (decide sdk io privateKey approves).outcome (d, front) =
      .done (decided (platform sdk base58 version) d approves).bytes
        ({ d with review := none }, front') ∧ front'.Sized io := by
  have hrun : (decide sdk io privateKey approves).wp (fun _ => True) (d, front)
      (fun bytes s => bytes = (decided (platform sdk base58 version) d approves).bytes ∧
        s.1 = { d with review := none } ∧ s.2.Sized io)
      (fun _ _ => False) := by
    unfold decide decided
    simp only [Command.wp_bind, Command.wp_read, Command.wp_modify]
    cases approves with
    | false => exact wp_appReject hio fun _ hsized => ⟨rfl, rfl, hsized⟩
    | true =>
        rw [if_pos rfl, if_pos rfl]
        have hsign := fun post early =>
          @wp_appSign b sdk io (fun _ => True) { d with review := none } front hio hreads
            hbacks.sized privateKey post early fun _ => trivial
        cases hreview : d.review with
        | none => exact hsign _ _ fun _ hsized => ⟨rfl, rfl, hsized⟩
        | some callback =>
            cases callback with
            | appSign => exact hsign _ _ fun _ hsized => ⟨rfl, rfl, hsized⟩
            | appReplyAddress =>
                obtain ⟨answer, hanswer, hholds⟩ := hbacks.holds hreview
                simp only [platform, hanswer, Option.getD_some]
                exact wp_appReplyAddress hio hholds fun _ hsized => ⟨rfl, rfl, hsized⟩
  obtain ⟨_, ⟨d', front'⟩, hend, rfl, rfl, hsized⟩ := hrun.exists_done
  exact ⟨front', hend, hsized⟩

/-- What is answered at once or after the decision is sent from the buffer. -/
theorem exchange_mirrors (hio : io.Standard) (hbase58 : base58.Encodes) (hreads : sdk.ReadsDer)
    (hsize : a.buffer.length = io.ioApduBufferSize) (privateKey : sdk.PrivateKey) (env : Exchange)
    (d : Device b) (front : Front) :
    ∃ (reply : Reply) (d' : Device b) (front' : Front),
      (respond zx (platform sdk base58 version) env a).outcome d = .done reply d' ∧
      (exchange sdk base58 io zx version privateKey env a).outcome (d, front) =
        .done reply.bytes (d', front') := by
  obtain ⟨reply, d', front', hend, hend', -, hbacks⟩ :=
    @handleApdu_mirrors b sdk base58 io zx version a hio hbase58 hsize d front
  unfold respond exchange
  rw [Command.outcome_bind_of_done hend, Command.outcome_bind_of_done hend']
  cases reply with
  | some reply => exact ⟨reply, d', front', rfl, rfl⟩
  | none =>
      obtain ⟨front'', hsent, -⟩ :=
        @decide_mirrors b sdk base58 io version d' front' hio hreads (hbacks rfl) privateKey
          env.approves
      exact ⟨_, _, front'', settle_outcome _ d' env.approves, hsent⟩

/-! ## Runs -/

/-- A command that is answered leaves what is on the screen. -/
theorem review_of_answered (p : Platform) (d : Device b) :
    (LedgerMatrix.handleApdu zx p a).wp (fun _ => True) d
      (fun reply d' => reply ≠ none → d'.review = d.review) (fun _ _ => False) := by
  by_cases haddr : a.Reaches insGetAddr
  · exact wp_getAddr haddr (fun _ _ => rfl) (fun _ _ => ⟨trivial, fun hne => absurd rfl hne⟩)
      (fun _ _ _ _ _ => rfl)
  by_cases hinit : a.Chunk p1Init
  · exact wp_init hinit (fun _ _ => rfl) (fun _ _ _ => rfl) (fun _ _ _ => rfl)
  by_cases hadd : a.Chunk p1Add
  · exact wp_add hadd (fun _ _ => rfl) (fun _ _ _ => rfl) (fun _ _ _ => rfl)
  by_cases hlast : a.Chunk p1Last
  · exact wp_last hlast (fun _ _ => rfl) (fun _ _ _ => rfl) (fun _ _ => trivial)
      (fun _ _ _ _ _ _ => ⟨trivial, fun hne => absurd rfl hne⟩) (fun _ _ _ _ _ => rfl)
  · exact wp_idle haddr hinit hadd hlast fun _ _ _ _ => rfl

/-- A command does not come in while an address is on the screen, which it would write
over. -/
def Input.Spares (d : Device b) : Input → Prop
  | .apdu _ => d.review ≠ some .appReplyAddress
  | .decide _ => True

instance (d : Device b) : (input : Input) → Decidable (input.Spares d)
  | .apdu _ => inferInstanceAs (Decidable (_ ≠ _))
  | .decide _ => isTrue trivial

/-- The buffer has its size when a command is in it. -/
def Input.Sized (io : Io) : Input → Prop
  | .apdu a => a.buffer.length = io.ioApduBufferSize
  | .decide _ => True

instance (io : Io) : (input : Input) → Decidable (input.Sized io)
  | .apdu _ => inferInstanceAs (Decidable (_ = _))
  | .decide _ => isTrue trivial

/-- The device with its buffer, and the one without. -/
structure Linked (sdk : Sdk) (base58 : AddressLibrary) (io : Io) (s : Device b × Front)
    (d : Device b) : Prop where
  device_eq : s.1 = d
  backs : s.2.Backs sdk base58 io d

/-- What happens to the device happens to the one with the buffer, which sends the
answer. -/
theorem send_simulates (hio : io.Standard) (hbase58 : base58.Encodes) (hreads : sdk.ReadsDer)
    (privateKey : sdk.PrivateKey) {input : Input}
    (hsize : input.Sized io) :
    Command.Simulates (Linked sdk base58 io) (fun (d : Device b) input => input.Spares d)
      (Option.map Reply.bytes) (send sdk base58 io zx version privateKey)
      (answer zx (platform sdk base58 version)) input := by
  rintro ⟨d, front⟩ _ ⟨rfl, hbacks⟩ hspares
  cases input with
  | apdu a =>
      obtain ⟨reply, d', front', hend, hsent, hsized, hopened⟩ :=
        @handleApdu_mirrors b sdk base58 io zx version a hio hbase58 hsize d front
      refine ⟨reply, (d', front'), d', hend, hsent, rfl, ?_⟩
      by_cases hnone : reply = none
      · exact hopened hnone
      · -- nothing is put on the screen, where there is no address
        have hreview := (review_of_answered _ d).of_done hend hnone
        exact ⟨hsized, fun haddress => absurd (hreview.symm.trans haddress) hspares⟩
  | decide approves =>
      by_cases hnone : d.review = none
      · refine ⟨none, (d, front), d, ?_, ?_, rfl, hbacks⟩
        · exact (Command.outcome_bind_of_done rfl).trans (by rw [if_pos hnone]; rfl)
        · exact (Command.outcome_bind_of_done rfl).trans (by rw [if_pos hnone]; rfl)
      · obtain ⟨front', hsent, hsized⟩ :=
          @decide_mirrors b sdk base58 io version d front hio hreads hbacks privateKey approves
        refine ⟨some (decided (platform sdk base58 version) d approves), (_, front'),
          { d with review := none }, ?_, ?_, rfl, hsized, fun haddress => by cases haddress⟩
        · refine (Command.outcome_bind_of_done rfl).trans ?_
          rw [if_neg hnone, Command.outcome_bind_of_done (settle_outcome _ d approves)]
          rfl
        · refine (Command.outcome_bind_of_done rfl).trans ?_
          rw [if_neg hnone, Command.outcome_bind_of_done hsent]
          rfl

end Mirror

/-! ## Two requests -/

/-- The components of a path in decimal, with a mark for those that are hardened. -/
def pathText (path : HdPath) : List UInt8 :=
  (ascii "/").intercalate (path.toList.map fun component =>
    Numeral.text 10 (component.toNat % 2 ^ 31) ++
      if 2 ^ 31 ≤ component.toNat then ascii "'" else [])

def Io.reference : Io where
  ioApduBufferSize := 260
  setCode offset code buffer :=
    overwrite buffer offset [UInt8.ofNat (code / 256), UInt8.ofNat code]
  pageString := pager id (· - 1)
  bip32ToStr := pathText

theorem Io.reference_standard : Io.reference.Standard where
  large := by decide +kernel
  small := by decide +kernel
  setCode_eq _ _ _ _ _ := rfl

/-- A request for the address of the example, to be confirmed. -/
def exampleRequest : Apdu where
  buffer := [cla, insGetAddr, 1, 0, 20] ++ componentBytes shortPath ++ List.replicate 235 0
  rx := 25
  pinValidated := true
  header_le := by decide +kernel
  rx_le := by decide +kernel
  rx_lt := by decide +kernel

def exampleQuestion : Apdu where
  buffer := [cla, insGetVersion] ++ List.replicate 258 0
  rx := 5
  pinValidated := true
  header_le := by decide +kernel
  rx_le := by decide +kernel
  rx_lt := by decide +kernel

/-- Version 0.0.1 on an unlocked device. -/
def exampleVersion : Vector UInt8 12 := #v[0, 0, 0, 0, 0, 0, 1, 0, 0x33, 0, 0, 4]

/-- The buffer before the first command. -/
def Front.initial : Front := ⟨List.replicate 260 0, 0, 0⟩

/-- Through every run of commands and decisions in which no command comes in while an
address is on the screen, the bytes that are sent from the buffer are the answers that the
device gives when the public keys and signatures come from a platform: what was in the
buffer before does not show. -/
theorem answers_refine {b : Buffering} (sdk : Sdk) (base58 : AddressLibrary) (io : Io)
    (hio : io.Standard) (hbase58 : base58.Encodes) (hreads : sdk.ReadsDer) (zx : Zxlib)
    (version : Vector UInt8 12) (privateKey : sdk.PrivateKey) (inputs : List Input)
    (hsize : ∀ input ∈ inputs, input.Sized io) (d : Device b)
    (front : Front) (hsized : front.Sized io) (hreview : d.review ≠ some .appReplyAddress)
    (hspares : Command.Along (fun (d : Device b) input => input.Spares d)
      (answer zx (platform sdk base58 version)) d inputs) :
    ∃ (replies : List (Option Reply)) (d' : Device b) (front' : Front),
      (Command.each (answer zx (platform sdk base58 version)) inputs).outcome d =
        .done replies d' ∧
      (Command.each (send sdk base58 io zx version privateKey) inputs).outcome (d, front) =
        .done (replies.map (Option.map Reply.bytes)) (d', front') ∧
      replies.length = inputs.length := by
  have hlinked : Linked sdk base58 io (d, front) d :=
    ⟨rfl, hsized, fun haddress => absurd haddress hreview⟩
  obtain ⟨replies, ⟨d', front'⟩, _, hanswered, hsent, ⟨rfl, -⟩, hlength⟩ :=
    Command.Simulates.each (fun input hmem =>
      @send_simulates b sdk base58 io zx version hio hbase58 hreads privateKey input
        (hsize input hmem)) hlinked hspares
  exact ⟨replies, d', front', hanswered, hsent, hlength⟩

/-- The request, confirmed and then rejected. -/
def exampleDecisions : List Input :=
  [.apdu exampleRequest, .decide true, .apdu exampleRequest, .decide false]

theorem answers_refine_example : ∃ (replies : List (Option Reply)) (d' : Device Buffering.plain)
    (front' : Front),
    (Command.each (answer Zxlib.reference (platform exampleSdk exampleLibrary exampleVersion))
      exampleDecisions).outcome (.initial emptyBuffer) = .done replies d' ∧
    (Command.each (send exampleSdk exampleLibrary .reference Zxlib.reference exampleVersion
      (Vector.replicate 32 7)) exampleDecisions).outcome (.initial emptyBuffer, .initial) =
        .done (replies.map (Option.map Reply.bytes)) (d', front') ∧
    replies.length = 4 :=
  answers_refine exampleSdk exampleLibrary .reference Io.reference_standard exampleLibrary_encodes
    exampleSdk_readsDer Zxlib.reference exampleVersion (Vector.replicate 32 7) exampleDecisions
    (by decide +kernel) (.initial emptyBuffer) .initial List.length_replicate (by decide +kernel)
    (by decide +kernel)

/-- A question for the version that comes in between leaves its answer where the address
was. -/
example : ((Command.each (send exampleSdk exampleLibrary .reference Zxlib.reference exampleVersion
    (Vector.replicate 32 7)) [.apdu exampleRequest, .apdu exampleQuestion, .decide true]).outcome
      ((.initial emptyBuffer : Device Buffering.plain), .initial)).result.map
        (fun sent => (sent.getD 2 none).map (List.take 12)) =
          .ok (some exampleVersion.toList) := by
  decide +kernel

end LedgerMatrix.Answers
