import LedgerMatrix.Device.Refinement

/-! # The address on the screen

The screen is filled from the buffer while the user decides, and the answer is sent
from the same buffer then.
-/

namespace LedgerMatrix.Answers

open Imperative

/-- What the pages of an item say, one after the other. -/
def shownText {b : Buffering} (io : Io) (expert : Bool) (displayIdx : Int) (s : Device b × Front)
    (display : Display) : List UInt8 :=
  let page (pageIdx : Nat) := addrGetItem io expert displayIdx pageIdx s display
  (List.range ((page 0).elim 0 Display.pageCount)).flatMap fun pageIdx =>
    (page pageIdx).elim [] fun shown => cString shown.outVal

section Shown

variable {b : Buffering} {sdk : Sdk} {base58 : AddressLibrary} {io : Io}
variable {zx : Zxlib} {version : Vector UInt8 12} {a : Apdu} {d d' : Device b}
  {front front' : Front}

theorem addrGetItem_isSome_iff (io : Io) (expert : Bool) (displayIdx : Int) (pageIdx : Nat)
    (s : Device b × Front) (display : Display) :
    (addrGetItem io expert displayIdx pageIdx s display).isSome ↔
      0 ≤ displayIdx ∧ displayIdx < addrGetNumItems expert := by
  unfold addrGetItem addrGetNumItems
  by_cases haddress : displayIdx = 0
  · subst haddress
    cases expert <;> simp
  · by_cases hpath : displayIdx = 1
    · subst hpath
      cases expert <;> simp
    · rw [if_neg haddress, if_neg hpath]
      cases expert <;> simp <;> omega

/-- A review of an address is opened for a path of the application, whose address is
in the buffer. -/
theorem opened_holds (hio : io.Standard) (hbase58 : base58.Encodes)
    (hsize : a.buffer.length = io.ioApduBufferSize) (haddr : a.Reaches insGetAddr)
    (hopened : (handleApdu sdk base58 io zx version a).outcome (d, front) =
      .done none (d', front')) :
    a.path.Mainnet ∧ d'.hdPath = a.path ∧ d'.review = some .appReplyAddress ∧
      ∃ answer, sdk.fillAddress base58 a.path = some answer ∧ front'.Holds io answer := by
  obtain ⟨reply, device, buffer, hend, hend', -, hbacks⟩ :=
    @handleApdu_mirrors b sdk base58 io zx version a hio hbase58 hsize d front
  rw [hopened] at hend'
  obtain ⟨hnone, hstate⟩ := Outcome.done.inj hend'
  obtain ⟨rfl, rfl⟩ := Prod.mk.inj hstate
  have hreply : reply = none := by
    cases reply with
    | none => rfl
    | some reply => cases hnone
  subst hreply
  have hrun : (LedgerMatrix.handleApdu zx (platform sdk base58 version) a).wp (fun _ => True) d
      (fun reply d' => reply = none → a.path.Mainnet ∧ d'.hdPath = a.path ∧
        d'.review = some .appReplyAddress) (fun _ _ => True) :=
    wp_getAddr haddr (fun _ => nofun) (fun _ hmain => ⟨trivial, fun _ => ⟨hmain, rfl, rfl⟩⟩)
      (fun _ _ _ _ => nofun)
  obtain ⟨hmain, hpath, hreview⟩ := hrun.of_done hend rfl
  obtain ⟨answer, hanswer, hholds⟩ := (hbacks rfl).holds hreview
  rw [hpath] at hanswer
  exact ⟨hmain, hpath, hreview, answer, hanswer, hholds⟩

/-- Behind the public key in the buffer stands the address, as a string. -/
theorem Front.Holds.cString_drop {point address : List UInt8}
    (h : front.Holds io (point ++ address)) (hpoint : point.length = secp256k1PubkeyLen)
    (hlarge : (point ++ address).length < io.ioApduBufferSize) (hzero : (0 : UInt8) ∉ address) :
    cString (front.gIoApduBuffer.drop secp256k1PubkeyLen) = address := by
  obtain ⟨left, hleft⟩ : ∃ left, io.ioApduBufferSize - (point ++ address).length = left + 1 :=
    ⟨io.ioApduBufferSize - (point ++ address).length - 1, by omega⟩
  rw [h.buffer_eq, hleft, List.replicate_succ, List.append_assoc, List.drop_left' hpoint]
  exact cString_append_zero hzero _

/-- The pages of a text without a terminator in it, as many as are reported. -/
theorem flatMap_pages {page : Pager} {width : Nat → Nat} (h : Pager.Pages page id width)
    {out text : List UInt8} (hlong : 3 ≤ out.length) (hshort : text.length ≤ 255)
    (hzero : (0 : UInt8) ∉ text) :
    ((List.range (page out text 0).2).flatMap fun pageIdx => cString (page out text pageIdx).1) =
      text := by
  have hpos := h.width_pos hlong
  have hcount : Paging.count (width out.length) text ≤ 255 :=
    (Paging.count_le_iff hpos).mpr (by nlinarith)
  have hall : u8 (Paging.count (width out.length) text) = Paging.count (width out.length) text :=
    Nat.mod_eq_of_lt (by omega)
  have hpages : (List.range (page out text 0).2).flatMap
      (fun pageIdx => cString (page out text pageIdx).1) =
        (List.range (Paging.count (width out.length) text)).flatMap fun pageIdx =>
          (Paging.page (width out.length) text pageIdx).takeWhile (· ≠ 0) := by
    rw [h.count_eq hlong, id, hall]
    refine List.flatMap_congr fun pageIdx hpage => ?_
    rw [h.cString_eq hlong, pageText_of_le hcount, id, hall, if_pos (List.mem_range.mp hpage),
      cString]
  rw [hpages, Paging.flatMap_takeWhile_page_eq_iff hpos]
  refine ⟨le_rfl, fun character hmem => ?_⟩
  simp only [ne_eq, decide_eq_true_eq]
  rintro rfl
  exact hzero hmem

theorem decide_address (hio : io.Standard) (hreview : d.review = some .appReplyAddress)
    {answer : List UInt8} (hholds : front.Holds io answer) (privateKey : sdk.PrivateKey)
    (approves : Bool) : ∃ end' : Device b × Front,
      (decide sdk io privateKey approves).outcome (d, front) = .done (Reply.bytes (if approves then
        ⟨answer, ApduCode.ok.value⟩ else ⟨[], ApduCode.commandNotAllowed.value⟩)) end' := by
  have hrun : (decide sdk io privateKey approves).wp (fun _ => True) (d, front)
      (fun bytes _ => bytes = Reply.bytes (if approves then ⟨answer, ApduCode.ok.value⟩ else
        ⟨[], ApduCode.commandNotAllowed.value⟩)) (fun _ _ => False) := by
    unfold decide
    simp only [Command.wp_bind, Command.wp_read, Command.wp_modify, hreview]
    cases approves with
    | false => exact wp_appReject hio fun _ _ => rfl
    | true => exact wp_appReplyAddress hio hholds fun _ _ => rfl
  obtain ⟨_, end', hend, rfl⟩ := hrun.exists_done
  exact ⟨end', hend⟩

end Shown

/-- When a request opens a review, the pages on the screen make up the address of the
public key of its path, and this address is sent behind that key when it is approved.
Nothing of it is sent when it is rejected. The items on the screen are those that are
counted. -/
theorem address_shown_is_sent {b : Buffering} (sdk : Sdk) (base58 : AddressLibrary) (io : Io)
    (hio : io.Standard) (hbase58 : base58.Encodes)
    (hclip : ∀ byte, base58.encodeBase58Clip byte ≠ 0) {width : Nat → Nat}
    (hpages : Pager.Pages io.pageString id width) (zx : Zxlib) (version : Vector UInt8 12)
    (a : Apdu) (hsize : a.buffer.length = io.ioApduBufferSize) (haddr : a.Reaches insGetAddr)
    {d d' : Device b} {front front' : Front}
    (hopened : (handleApdu sdk base58 io zx version a).outcome (d, front) =
      .done none (d', front')) (privateKey : sdk.PrivateKey) :
    a.path.Mainnet ∧ ∃ point hash address,
      sdk.publicKey a.path = some point ∧
      keccakHash sdk (slice point.toList 1 (secp256k1PubkeyLen - 1)) = some hash ∧
      address = addressText base58.encodeBase58Clip (ethAddress hash) ∧
      (∀ expert display, 3 ≤ display.outVal.length →
        shownText io expert 0 (d', front') display = address) ∧
      (∀ expert displayIdx pageIdx display,
        (addrGetItem io expert displayIdx pageIdx (d', front') display).isSome ↔
          0 ≤ displayIdx ∧ displayIdx < addrGetNumItems expert) ∧
      (∃ end', (decide sdk io privateKey true).outcome (d', front') =
        .done (point.toList ++ address ++ [0x90, 0x00]) end') ∧
      ∃ end', (decide sdk io privateKey false).outcome (d', front') = .done [0x69, 0x86] end' := by
  obtain ⟨hmain, hpath, hreview, answer, hanswer, hholds⟩ :=
    opened_holds hio hbase58 hsize haddr hopened
  obtain ⟨point, hpoint, hanswer⟩ := Option.bind_eq_some_iff.mp hanswer
  obtain ⟨hash, hhash, hanswer⟩ := Option.bind_eq_some_iff.mp hanswer
  obtain rfl := Option.some.inj hanswer
  obtain ⟨-, hshort⟩ := addressText_length_bounds base58.encodeBase58Clip (ethAddress_length hash)
  have hzero := zero_notMem_addressText hclip (ethAddress hash)
  have hcount : point.toList.length = secp256k1PubkeyLen := Vector.length_toList
  have hlarge := hio.large
  have hsignature : signatureSize = 138 := rfl
  have hpubkey : secp256k1PubkeyLen = 65 := rfl
  generalize haddress : addressText base58.encodeBase58Clip (ethAddress hash) = address at *
  have htext : cString (front'.gIoApduBuffer.drop secp256k1PubkeyLen) = address :=
    hholds.cString_drop hcount (by rw [List.length_append]; omega) hzero
  refine ⟨hmain, point, hash, address, hpoint, hhash, haddress.symm, ?_, ?_, ?_, ?_⟩
  · intro expert display hlong
    simp only [shownText, addrGetItem, if_true, Option.elim_some, htext]
    exact flatMap_pages hpages hlong (by omega) hzero
  · exact fun expert displayIdx pageIdx display =>
      addrGetItem_isSome_iff io expert displayIdx pageIdx _ display
  · obtain ⟨end', hend⟩ := decide_address hio hreview hholds privateKey true
    have hcode : [UInt8.ofNat (ApduCode.ok.value / 256), UInt8.ofNat ApduCode.ok.value] =
        [0x90, 0x00] := by decide
    rw [if_pos rfl, Reply.bytes, hcode] at hend
    exact ⟨end', hend⟩
  · obtain ⟨end', hend⟩ := decide_address hio hreview hholds privateKey false
    rw [if_neg (by decide)] at hend
    exact ⟨end', hend⟩

theorem exampleRequest_opened : ((handleApdu exampleSdk exampleLibrary .reference Zxlib.reference
    exampleVersion exampleRequest).outcome
      ((.initial emptyBuffer : Device Buffering.plain), .initial)).result = .ok none := by
  decide +kernel

/-- The address of the example is shown and sent. -/
theorem address_shown_is_sent_example : ∃ (d' : Device Buffering.plain) (front' : Front),
    (handleApdu exampleSdk exampleLibrary .reference Zxlib.reference exampleVersion
      exampleRequest).outcome (.initial emptyBuffer, .initial) = .done none (d', front') ∧
    ∃ point hash address,
      exampleSdk.publicKey exampleRequest.path = some point ∧
      keccakHash exampleSdk (slice point.toList 1 (secp256k1PubkeyLen - 1)) = some hash ∧
      address = addressText exampleLibrary.encodeBase58Clip (ethAddress hash) ∧
      (∃ end', (decide exampleSdk .reference (Vector.replicate 32 7) true).outcome (d', front') =
        .done (point.toList ++ address ++ [0x90, 0x00]) end') := by
  obtain ⟨⟨d', front'⟩, hopened⟩ : ∃ s, (handleApdu exampleSdk exampleLibrary .reference
      Zxlib.reference exampleVersion exampleRequest).outcome
        ((.initial emptyBuffer : Device Buffering.plain), .initial) = .done none s :=
    ⟨_, Outcome.eq_done exampleRequest_opened⟩
  have hclip : ∀ byte, exampleLibrary.encodeBase58Clip byte ≠ 0 := fun _ =>
    Base58.letter_ne_zero (Nat.mod_lt _ (by decide))
  have hpages : Pager.Pages Io.reference.pageString id (· - 1) := Zxlib.reference_pages.ext
  obtain ⟨-, point, hash, address, hpoint, hhash, haddress, -, -, hsent, -⟩ :=
    address_shown_is_sent exampleSdk exampleLibrary .reference Io.reference_standard
      exampleLibrary_encodes hclip hpages Zxlib.reference exampleVersion exampleRequest
      (by decide +kernel) (by decide +kernel) hopened (Vector.replicate 32 7)
  exact ⟨d', front', hopened, point, hash, address, hpoint, hhash, haddress, hsent⟩

end LedgerMatrix.Answers
