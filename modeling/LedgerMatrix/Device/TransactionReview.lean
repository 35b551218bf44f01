import LedgerMatrix.Device.Service
import LedgerMatrix.Display.Validity

/-! # The transaction on the screen

While the user decides, the screen shows the items of the transaction that the message
is, and this message is signed when it is approved.
-/

namespace LedgerMatrix

open Imperative RecursiveLength

/-- The screens of a transaction. There are none outside its items. -/
def Transaction.screen (zx : Zxlib) (t : Transaction) (displayIdx : Int) (pageIdx : Nat)
    (display : Display) : Option Display :=
  if 0 ≤ displayIdx then
    (t.showItem zx displayIdx.toNat pageIdx display.outKey.length display.outVal.length).toOption
  else none

section Shown

variable {b : Buffering} {zx : Zxlib} {p : Platform} {a : Apdu} {d d' : Device b}
variable {t : Transaction} {displayIdx : Int} {pageIdx : Nat} {display shown : Display}

theorem getItem_of_done (h : (txGetItem zx (b.contents d.buffering) d.ctxParsedTx displayIdx
    pageIdx).outcome display = .done () shown) :
    (getItem zx displayIdx pageIdx display).outcome d = .done (some shown) d := by
  refine (Command.outcome_bind_of_done rfl).trans ?_
  rw [h]
  rfl

theorem getItem_of_stop {stop : ZxStop} (h : (txGetItem zx (b.contents d.buffering)
    d.ctxParsedTx displayIdx pageIdx).outcome display = .stop stop shown) :
    (getItem zx displayIdx pageIdx display).outcome d = .done none d := by
  refine (Command.outcome_bind_of_done rfl).trans ?_
  rw [h]
  rfl

/-- What is looked at is a screen of the transaction that was parsed, and nothing else
happens. -/
theorem Holds.getItem_screen (h : Holds (b.contents d.buffering) d.ctxParsedTx t)
    (hmin : -128 ≤ displayIdx) (hmax : displayIdx ≤ 127) (hsmall : 2 ≤ display.outVal.length)
    (hlarge : display.outVal.length < 2 ^ 32) :
    (getItem zx displayIdx pageIdx display).outcome d =
      .done (t.screen zx displayIdx pageIdx display) d := by
  rw [Transaction.screen]
  by_cases hneg : displayIdx < 0
  · obtain ⟨_, hend⟩ := h.txGetItem_no_data hmin hmax (.inl hneg) pageIdx display
    rw [if_neg (by omega), getItem_of_stop hend]
  rw [if_pos (by omega)]
  by_cases hout : (displayCount + t.recipients.length * 3 : Nat) ≤ displayIdx
  · obtain ⟨_, hend⟩ := h.txGetItem_no_data hmin hmax (.inr hout) pageIdx display
    have hnone : t.item displayIdx.toNat = none := Transaction.item_eq_none_iff.mpr (by omega)
    rw [getItem_of_stop hend, Transaction.showItem, hnone]
    rfl
  · have hidx : (displayIdx % 2 ^ 8).toNat = displayIdx.toNat := by omega
    cases hshow : t.showItem zx displayIdx.toNat pageIdx display.outKey.length
        display.outVal.length with
    | ok shown =>
        have hend := h.getItem_ok hsmall hlarge hshow
        have hshown : (txGetItem zx (b.contents d.buffering) d.ctxParsedTx displayIdx
            pageIdx).outcome display = .done () shown := by
          rw [txGetItem, Command.outcome_bind_of_done (h.txGetNumItems display),
            if_neg (by omega), hidx]
          exact Command.outcome_handle_of_done hend
        exact getItem_of_done hshown
    | error code =>
        obtain ⟨left, hend, -⟩ := h.getItem_error hsmall hlarge hshow
        have hstopped : (txGetItem zx (b.contents d.buffering) d.ctxParsedTx displayIdx
            pageIdx).outcome display = .stop (.error (zxerrOfItem code)) left := by
          rw [txGetItem, Command.outcome_bind_of_done (h.txGetNumItems display),
            if_neg (by omega), hidx]
          exact Command.outcome_handle_of_stop hend
        exact getItem_of_stop hstopped

/-- A last chunk that opens a review has completed a transaction that can be shown. -/
theorem opened_by_last (h : a.Chunk p1Last)
    (hopened : (handleApdu zx p a).outcome d = .done none d') :
    b.contents d'.buffering = b.contents d.buffering ++ a.data ∧ d'.hdPath = d.hdPath ∧
      d'.review = some .appSign ∧
      ∃ t, Holds (b.contents d'.buffering) d'.ctxParsedTx t ∧ t.Valid zx := by
  have hrun : (handleApdu zx p a).wp (fun _ => True) d
      (fun reply d' => reply = none →
        b.contents d'.buffering = b.contents d.buffering ++ a.data ∧ d'.hdPath = d.hdPath ∧
        d'.review = some .appSign ∧
        ∃ t, Holds (b.contents d'.buffering) d'.ctxParsedTx t ∧ t.Valid zx)
      (fun _ _ => True) := by
    refine wp_last h (fun _ hnone => absurd hnone (Option.some_ne_none _))
      (fun _ _ hnone => absurd hnone (Option.some_ne_none _)) (fun _ _ => trivial) ?_
      (fun _ _ _ _ hnone => absurd hnone (Option.some_ne_none _))
    intro _ hstores state t hholds hvalid
    have hcontents := hstores.contents
    rw [← hcontents] at hholds
    exact ⟨trivial, fun _ => ⟨hcontents, rfl, rfl, t, hholds, hvalid⟩⟩
  exact hrun.of_done hopened rfl

end Shown

end LedgerMatrix

namespace LedgerMatrix.Answers

open Imperative RecursiveLength

/-- When a last chunk opens a review, the message is a transaction, what is shown are its
items, all of them, and what is sent when it is approved is the signature of this message
with the key of the path that was set. No signature is sent when it is rejected. -/
theorem transaction_shown_is_signed {b : Buffering} (sdk : Sdk) (base58 : AddressLibrary)
    (io : Io) (hio : io.Standard) (hbase58 : base58.Encodes) (hreads : sdk.ReadsDer) (zx : Zxlib)
    (version : Vector UInt8 12) (a : Apdu) (hsize : a.buffer.length = io.ioApduBufferSize)
    (hlast : a.Chunk p1Last) {d d' : Device b} {front front' : Front}
    (hopened : (handleApdu sdk base58 io zx version a).outcome (d, front) =
      .done none (d', front')) (privateKey : sdk.PrivateKey) :
    ∃ t : Transaction, t.Decodes (b.contents d.buffering ++ a.data) ∧ t.Admissible zx ∧
      (∀ (displayIdx : Int) (pageIdx : Nat) (display : Display), -128 ≤ displayIdx →
        displayIdx ≤ 127 → 2 ≤ display.outVal.length → display.outVal.length < 2 ^ 16 →
        (getItem zx displayIdx pageIdx display).outcome d' =
          .done (t.screen zx displayIdx pageIdx display) d') ∧
      (txGetNumItems d'.ctxParsedTx).outcome () =
        .done (displayCount + t.recipients.length * 3) () ∧
      (∃ s : Device b × Front, (decide sdk io privateKey true).outcome (d', front') =
        .done (signedReply (sdk.signature d.hdPath (b.contents d.buffering ++ a.data))).bytes s) ∧
      ∃ s : Device b × Front, (decide sdk io privateKey false).outcome (d', front') =
        .done [0x69, 0x86] s := by
  obtain ⟨reply, device, buffer, hend, hend', -, hbacks⟩ :=
    @handleApdu_mirrors b sdk base58 io zx version a hio hbase58 hsize d front
  rw [hopened] at hend'
  obtain ⟨hnone, hstate⟩ := Outcome.done.inj hend'
  obtain ⟨rfl, rfl⟩ := Prod.mk.inj hstate
  obtain rfl : reply = none := Option.map_eq_none_iff.mp hnone.symm
  obtain ⟨hcontents, hpath, hreview, t, hholds, hvalid⟩ := opened_by_last hlast hend
  have hfits : (b.contents d.buffering ++ a.data).length ≤ b.capacity :=
    hcontents ▸ b.contents_le d'.buffering
  have hdecodes := hholds.decodes
  rw [hcontents, b.seen_contents hfits] at hdecodes
  refine ⟨t, hdecodes, Transaction.valid_iff.mp hvalid, ?_, ?_, ?_, ?_⟩
  · intro displayIdx pageIdx display hmin hmax hsmall hlarge
    exact hholds.getItem_screen hmin hmax hsmall (hlarge.trans (by decide))
  · exact hholds.txGetNumItems ()
  · obtain ⟨front'', hsent, -⟩ := @decide_mirrors b sdk base58 io version d' front' hio hreads
      (hbacks rfl) privateKey true
    simp only [decided, if_true, hreview, platform, hpath, hcontents] at hsent
    exact ⟨_, hsent⟩
  · obtain ⟨front'', hsent, -⟩ := @decide_mirrors b sdk base58 io version d' front' hio hreads
      (hbacks rfl) privateKey false
    have hbytes : (decided (platform sdk base58 version) d' false).bytes = [0x69, 0x86] := by
      show Reply.bytes ⟨[], ApduCode.commandNotAllowed.value⟩ = _
      decide
    rw [hbytes] at hsent
    exact ⟨_, hsent⟩

/-- A device that waits for the message of a path. -/
def exampleReceiving : Device Buffering.plain :=
  { Device.initial emptyBuffer with txInitialized := true }

theorem exampleLast_opened : ((handleApdu exampleSdk exampleLibrary .reference Zxlib.reference
    exampleVersion (behind exampleLast (List.replicate 237 0))).outcome
      (exampleReceiving, .initial)).result = .ok none := by
  decide +kernel

/-- The message of the example is shown and signed. -/
theorem transaction_shown_is_signed_example : ∃ (d' : Device Buffering.plain) (front' : Front),
    (handleApdu exampleSdk exampleLibrary .reference Zxlib.reference
      exampleVersion (behind exampleLast (List.replicate 237 0))).outcome
        (exampleReceiving, .initial) = .done none (d', front') ∧
    ∃ t : Transaction, t.Decodes blank ∧
      ∃ s : Device Buffering.plain × Front,
        (decide exampleSdk .reference (Vector.replicate 32 7) true).outcome (d', front') =
          .done (signedReply (exampleSdk.signature exampleReceiving.hdPath blank)).bytes s := by
  obtain ⟨⟨d', front'⟩, hopened⟩ : ∃ s, (handleApdu exampleSdk exampleLibrary .reference
      Zxlib.reference exampleVersion
      (behind exampleLast (List.replicate 237 0))).outcome (exampleReceiving, .initial) =
        .done none s :=
    ⟨_, Outcome.eq_done exampleLast_opened⟩
  obtain ⟨t, hdecodes, -, -, -, hsigned, -⟩ :=
    transaction_shown_is_signed exampleSdk exampleLibrary .reference Io.reference_standard
      exampleLibrary_encodes exampleSdk_readsDer Zxlib.reference exampleVersion _
      (by decide +kernel) (by decide +kernel) hopened (Vector.replicate 32 7)
  exact ⟨d', front', hopened, t, hdecodes, hsigned⟩

end LedgerMatrix.Answers
