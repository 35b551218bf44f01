import LedgerMatrix.Display.Admission
import LedgerMatrix.Display.Texts

/-! # What the screens determine

Two accepted transactions that look the same on every screen agree on what the
screens are there to show: on all numbers, on the type as far as it is stored, on
the number of recipients, and on every text that the display can page. Nothing is
shown of the field S and of the enter type.
-/

namespace LedgerMatrix

open Imperative RecursiveLength

section Screens

/-- What a call of `parser_getItem` that returns `parser_ok` puts on the screen: a
key, a page of a value, and the number of pages. -/
def onScreen : Outcome Stop Display Unit → Option (List UInt8 × List UInt8 × Nat)
  | .done _ d => some (cString d.outKey, cString d.outVal, d.pageCount)
  | .stop _ _ => none

def screen (zx : Zxlib) (bytes : List UInt8) (state : ParserState) (displayIdx pageIdx : Nat)
    (d : Display) : Option (List UInt8 × List UInt8 × Nat) :=
  onScreen ((parserGetItem zx bytes state displayIdx pageIdx).outcome d)

/-- Every page of every item looks the same, in value buffers of 37 to 40 bytes. -/
def SameScreens (zx : Zxlib) (bytes : List UInt8) (state : ParserState) (bytes' : List UInt8)
    (state' : ParserState) : Prop :=
  ∀ displayIdx pageIdx d, 37 ≤ d.outVal.length → d.outVal.length ≤ 40 →
    screen zx bytes state displayIdx pageIdx d = screen zx bytes' state' displayIdx pageIdx d

/-- Buffers of 40 bytes. -/
def wide : Display := ⟨List.replicate 40 0, List.replicate 40 0, 0⟩

/-- Content bytes that the display does not take for none. -/
def Counted (piece : Piece) : Prop := piece.kind ≠ .byte ∧ piece.payload ≠ []

/-- A text that is shown, and that can be paged. -/
def Told (width : Nat → Nat) (chars : List UInt8 → List UInt8) (piece : Piece) : Prop :=
  Counted piece ∧ Pageable width (chars piece.payload)

/-- The two agree on everything that is shown of them. -/
structure Transaction.Agree (textWidth hexWidth : Nat → Nat) (t t' : Transaction) : Prop where
  numbers : ∀ i ∈ [RootField.nonce, RootField.gasPrice, RootField.gasLimit, RootField.value,
    RootField.r, RootField.isEntrustTx],
    BigEndian.value (t.fields.get i).payload = BigEndian.value (t'.fields.get i).payload
  lockHeight : BigEndian.value t.lockHeight.payload = BigEndian.value t'.lockHeight.payload
  chain : (t.fields.get RootField.v).payload = (t'.fields.get RootField.v).payload
  txType : u8 t.number = u8 t'.number
  count : t.recipients.length = t'.recipients.length
  toField : Told textWidth id (t.fields.get RootField.to) →
    Told textWidth id (t'.fields.get RootField.to) →
    (t.fields.get RootField.to).payload = (t'.fields.get RootField.to).payload
  dataField :
    Told (dataWidth textWidth hexWidth (u8 t.number)) (dataChars (u8 t.number))
      (t.fields.get RootField.data) →
    Told (dataWidth textWidth hexWidth (u8 t'.number)) (dataChars (u8 t'.number))
      (t'.fields.get RootField.data) →
    (t.fields.get RootField.data).payload = (t'.fields.get RootField.data).payload
  recipients : ∀ (i : Nat) (r r' : Recipient), t.recipients[i]? = some r →
    t'.recipients[i]? = some r' →
    (Told textWidth id r.toItem → Told textWidth id r'.toItem →
      r.toItem.payload = r'.toItem.payload) ∧
    (Counted r.amount → Counted r'.amount →
      BigEndian.value r.amount.payload = BigEndian.value r'.amount.payload) ∧
    (Told textWidth id r.payload → Told textWidth id r'.payload →
      r.payload.payload = r'.payload.payload)

end Screens

theorem wide_length : wide.outVal.length = 40 := List.length_replicate ..

theorem hexText_injective : Function.Injective hexText := by
  intro bytes
  induction bytes with
  | nil =>
      intro bytes' h
      have hlength := congrArg List.length h
      rw [hexText_length, hexText_length, List.length_nil] at hlength
      exact (List.length_eq_zero_iff.mp (by omega)).symm
  | cons byte bytes ih =>
      intro bytes' h
      cases bytes' with
      | nil => cases h
      | cons byte' bytes' =>
          simp only [hexText, List.flatMap_cons, List.cons_append, List.nil_append,
            List.cons.injEq] at h
          obtain ⟨hhigh, hlow, hrest⟩ := h
          have hlt := byte.toNat_lt
          have hlt' := byte'.toNat_lt
          have hdigit {a b : Nat} (ha : a < 16) (hb : b < 16)
              (hsymbol : Numeral.symbol a = Numeral.symbol b) : a = b := by
            rw [← Numeral.digitOf_symbol ha, hsymbol, Numeral.digitOf_symbol hb]
          have h₁ := hdigit (by omega) (by omega) hhigh
          have h₂ := hdigit (by omega) (by omega) hlow
          have hbyte : byte = byte' := UInt8.toNat_inj.mp (by omega)
          rw [hbyte, ih hrest]

theorem dataChars_injective (extraTxType : Nat) : Function.Injective (dataChars extraTxType) := by
  unfold dataChars
  split
  next => exact Function.injective_id
  next => exact hexText_injective

/-! ## One transaction -/

section Shown

variable {zx : Zxlib} {bytes : List UInt8} {state : ParserState} {t : Transaction}
  {displayIdx pageIdx : Nat} {key : List UInt8} {rendering : Rendering} {piece : Piece}

theorem Holds.screen_of_show (h : Holds bytes state t)
    (hitem : t.item displayIdx = some (key, rendering)) {shown : List UInt8 × Nat}
    (hshow : rendering.show zx (u8 t.number) pageIdx (clearedValue 40) = .ok shown) :
    screen zx bytes state displayIdx pageIdx wide =
      some (cString (snprintf key (clearedKey 40)), cString shown.1, shown.2) := by
  have hkey : wide.outKey.length = 40 := List.length_replicate ..
  rw [← wide_length] at hshow
  rw [screen, h.outcome_of_show hitem (by rw [wide_length]; decide)
    (by rw [wide_length]; decide) hshow, onScreen, hkey]

theorem Holds.screen_isSome_iff (h : Holds bytes state t) (hvalid : t.Valid zx) :
    (screen zx bytes state displayIdx 0 wide).isSome ↔
      displayIdx < displayCount + t.recipients.length * 3 := by
  constructor
  · intro hsome
    by_contra hge
    obtain ⟨d', hend⟩ := h.getItem_out_of_range (Nat.le_of_not_lt hge) 0 wide
    rw [screen, hend] at hsome
    cases hsome
  · intro hlt
    cases hitem : t.item displayIdx with
    | none => exact absurd hlt (Nat.not_lt.mpr (Transaction.item_eq_none_iff.mp hitem))
    | some entry =>
        obtain ⟨key, rendering⟩ := entry
        obtain ⟨shown, hshow⟩ := hvalid.show_ok hitem
        rw [h.screen_of_show hitem hshow]
        rfl

/-- The text on the first page of an item. -/
def firstText (zx : Zxlib) (bytes : List UInt8) (state : ParserState) (displayIdx : Nat) :
    Option (List UInt8) :=
  (screen zx bytes state displayIdx 0 wide).map fun shown => shown.2.1

theorem Holds.firstText_number (h : Holds bytes state t) (hvalid : t.Valid zx)
    (hitem : t.item displayIdx = some (key, .number piece)) :
    firstText zx bytes state displayIdx =
      some (Numeral.text 10 (BigEndian.value piece.payload)) := by
  obtain ⟨shown, hshow⟩ := hvalid.show_ok hitem
  obtain ⟨-, hfit, rfl⟩ := show_number_eq_ok.mp hshow
  rw [firstText, h.screen_of_show hitem hshow, Option.map_some,
    cString_snprintf (Numeral.zero_notMem_text (by decide) (by decide)) hfit]

theorem Holds.firstText_chain (h : Holds bytes state t) (hvalid : t.Valid zx) :
    (t.fields.get RootField.v).payload.length = 1 ∧ firstText zx bytes state 6 =
      some (Numeral.text 10 (BigEndian.value (t.fields.get RootField.v).payload)) := by
  have hitem : t.item 6 = some (ascii "ChainID", .chain (t.fields.get RootField.v)) := rfl
  have hkind := (Transaction.valid_iff.mp hvalid).chain
  obtain ⟨-, rest, htake⟩ := readItems_eq_ok.mp t.root_items
  have hone := takePieces_byte_length htake
    (Vector.mem_toList_iff.mpr (Vector.getElem_mem RootField.v.isLt)) hkind
  refine ⟨hone, ?_⟩
  have hvalue : BigEndian.value (t.fields.get RootField.v).payload < 10 ^ 39 := by
    refine (BigEndian.value_lt _).trans_le ?_
    have hlength : (t.fields.get RootField.v).payload.length = 1 := hone
    rw [hlength]
    decide
  have hfit : (Numeral.text 10 (BigEndian.value (t.fields.get RootField.v).payload)).length <
      (clearedValue 40).length := by
    rw [clearedValue_length]
    exact (text_lt_iff (by decide)).mpr hvalue
  have hshow : (Rendering.chain (t.fields.get RootField.v)).show zx (u8 t.number) 0
      (clearedValue 40) = .ok _ := if_pos hkind
  rw [firstText, h.screen_of_show hitem hshow, Option.map_some,
    cString_snprintf (Numeral.zero_notMem_text (by decide) (by decide)) hfit]

theorem Holds.firstText_txType (h : Holds bytes state t) (hvalid : t.Valid zx) :
    ∃ name, (u8 t.number, name) ∈ labels ∧ firstText zx bytes state 10 = some (ascii name) := by
  have hitem : t.item 10 = some (ascii "TxType", .txType) := rfl
  obtain ⟨name, hname⟩ := hvalid.typeName_isSome
  have hlabel := mem_labels hname
  obtain ⟨-, hfit, hzero, -⟩ := labels_spec _ hlabel
  have hshow : Rendering.txType.show zx (u8 t.number) 0 (clearedValue 40) = .ok _ :=
    show_txType_eq_ok.mpr ⟨name, hname, rfl⟩
  refine ⟨name, hlabel, ?_⟩
  rw [firstText, h.screen_of_show hitem hshow, Option.map_some,
    cString_snprintf hzero (by rw [clearedValue_length]; exact hfit)]

end Shown

/-! ## What no screen shows -/

section Unseen

variable {zx : Zxlib} {bytes bytes' : List UInt8} {state state' : ParserState}
  {t t' : Transaction}

/-- S and the enter type are in no item. -/
def unseenFields : List (Fin rootFieldCount) := [RootField.s, RootField.enterType]

theorem Transaction.item_congr
    (hfields : ∀ i, i ∉ unseenFields → t.fields.get i = t'.fields.get i) : t.item = t'.item := by
  obtain ⟨-, -, hlock, -, -, hrecipients⟩ :=
    Transaction.eq_of_extra_eq (hfields RootField.extra (by decide))
  funext displayIdx
  unfold Transaction.item
  split
  case h_11 => rfl
  case h_12 => rw [hlock]
  case h_13 => rw [hrecipients]
  all_goals rw [hfields _ (by decide)]

/-- Transactions with the same items look the same. -/
theorem Holds.sameScreens (h : Holds bytes state t) (h' : Holds bytes' state' t')
    (hitem : t.item = t'.item) (hnumber : t.number = t'.number) :
    SameScreens zx bytes state bytes' state' := by
  intro displayIdx pageIdx d hmin hmax
  have hitems : t.showItem zx displayIdx pageIdx d.outKey.length d.outVal.length =
      t'.showItem zx displayIdx pageIdx d.outKey.length d.outVal.length := by
    rw [Transaction.showItem, Transaction.showItem, hitem, hnumber]
  unfold screen
  cases hshow : t.showItem zx displayIdx pageIdx d.outKey.length d.outVal.length with
  | ok shown =>
      rw [h.getItem_ok (by omega) (by omega) hshow,
        h'.getItem_ok (by omega) (by omega) (hitems.symm.trans hshow)]
  | error code =>
      obtain ⟨_, hend, -⟩ := h.getItem_error (by omega) (by omega) hshow
      obtain ⟨_, hend', -⟩ := h'.getItem_error (by omega) (by omega) (hitems.symm.trans hshow)
      rw [hend, hend']
      rfl

/-- Transactions that differ in unseen fields alone look the same on every screen. -/
theorem sameScreens_of_fields (h : Accepted zx bytes state) (h' : Accepted zx bytes' state')
    (ht : t.Decodes (seen bytes)) (ht' : t'.Decodes (seen bytes'))
    (hfields : ∀ i, i ∉ unseenFields → t.fields.get i = t'.fields.get i) :
    SameScreens zx bytes state bytes' state' := by
  obtain ⟨-, -, -, -, hnumber, -⟩ :=
    Transaction.eq_of_extra_eq (hfields RootField.extra (by decide))
  exact (h.holds ht).1.sameScreens (h'.holds ht').1 (Transaction.item_congr hfields) hnumber

end Unseen

/-- The filled contents with another S. -/
def otherValue : TxValue :=
  { filledValue with fields := filledValue.fields.set 8 [0xc9] }

/-- The filled transaction with another S. -/
def otherS : List UInt8 := otherValue.encode

theorem otherS_accepted : Accepted Zxlib.reference otherS (parsedState otherS) :=
  ⟨⟨.initial, by decide +kernel⟩, by decide +kernel⟩

theorem otherS_sameScreens :
    SameScreens Zxlib.reference filled (parsedState filled) otherS (parsedState otherS) := by
  have hlength : filledValue.encode.length < 2 ^ 16 := by decide +kernel
  have hlength' : otherValue.encode.length < 2 ^ 16 := by decide +kernel
  obtain ⟨t, hvalue⟩ := exists_transaction filledValue hlength
  obtain ⟨t', hvalue'⟩ := exists_transaction otherValue hlength'
  have ht := hvalue.decodes hlength
  rw [encode_filledValue] at ht
  refine sameScreens_of_fields filled_accepted otherS_accepted ht (hvalue'.decodes hlength') ?_
  have hsame : ∀ i : Fin rootFieldCount, i ∉ unseenFields →
      (filledValue.rootItems.map Item.piece)[i.val]? =
        (otherValue.rootItems.map Item.piece)[i.val]? := by decide +kernel
  intro i hi
  have hfield := hsame i hi
  rw [← hvalue.fields, ← hvalue'.fields, Vector.getElem?_toList, Vector.getElem?_toList,
    Vector.getElem?_eq_getElem i.isLt, Vector.getElem?_eq_getElem i.isLt] at hfield
  exact Option.some.inj hfield

/-! ## Two transactions -/

section Alike

variable {zx : Zxlib} {bytes bytes' : List UInt8} {state state' : ParserState}
  {t t' : Transaction} {textWidth hexWidth : Nat → Nat} {displayIdx : Nat}

theorem SameScreens.firstText_eq (hsame : SameScreens zx bytes state bytes' state')
    (displayIdx : Nat) :
    firstText zx bytes state displayIdx = firstText zx bytes' state' displayIdx := by
  rw [firstText, firstText, hsame displayIdx 0 wide (by rw [wide_length]; decide)
    (Nat.le_of_eq wide_length)]

/-- Numbers that look the same are the same. -/
theorem SameScreens.number_eq (hsame : SameScreens zx bytes state bytes' state')
    {number number' : Nat} (h : firstText zx bytes state displayIdx = some (Numeral.text 10 number))
    (h' : firstText zx bytes' state' displayIdx = some (Numeral.text 10 number')) :
    number = number' := by
  rw [hsame.firstText_eq, h', Option.some.injEq, Numeral.text_inj (by decide) (by decide)] at h
  exact h.symm

theorem SameScreens.count_eq (hsame : SameScreens zx bytes state bytes' state')
    (h : Holds bytes state t) (hvalid : t.Valid zx) (h' : Holds bytes' state' t')
    (hvalid' : t'.Valid zx) : t.recipients.length = t'.recipients.length := by
  have hiff (displayIdx : Nat) : displayIdx < displayCount + t.recipients.length * 3 ↔
      displayIdx < displayCount + t'.recipients.length * 3 := by
    rw [← h.screen_isSome_iff hvalid, ← h'.screen_isSome_iff hvalid',
      hsame displayIdx 0 wide (by rw [wide_length]; decide) (Nat.le_of_eq wide_length)]
  have hleft := hiff (displayCount + t.recipients.length * 3)
  have hright := hiff (displayCount + t'.recipients.length * 3)
  omega

theorem itemText_congr (hsame : SameScreens zx bytes state bytes' state')
    (h : ∀ pageIdx, ∃ d', (parserGetItem zx bytes state displayIdx pageIdx).outcome wide =
      .done () d')
    (h' : ∀ pageIdx, ∃ d', (parserGetItem zx bytes' state' displayIdx pageIdx).outcome wide =
      .done () d') :
    itemText zx bytes state displayIdx wide = itemText zx bytes' state' displayIdx wide := by
  have hpage (pageIdx : Nat) :
      cString ((parserGetItem zx bytes state displayIdx pageIdx).outcome wide).state.outVal =
        cString ((parserGetItem zx bytes' state' displayIdx pageIdx).outcome wide).state.outVal ∧
      ((parserGetItem zx bytes state displayIdx pageIdx).outcome wide).state.pageCount =
        ((parserGetItem zx bytes' state' displayIdx pageIdx).outcome wide).state.pageCount := by
    have hscreen := hsame displayIdx pageIdx wide (by rw [wide_length]; decide)
      (Nat.le_of_eq wide_length)
    obtain ⟨d, hend⟩ := h pageIdx
    obtain ⟨d', hend'⟩ := h' pageIdx
    rw [screen, screen, hend, hend'] at hscreen
    simp only [onScreen, Option.some.injEq, Prod.mk.injEq] at hscreen
    rw [hend, hend']
    exact hscreen.2
  rw [itemText, itemText, (hpage 0).2]
  exact List.flatMap_congr fun pageIdx _ => (hpage pageIdx).1

/-- Texts that look the same on all their pages are the same. -/
theorem PagesOut.text_eq {page : Pager} {chars : List UInt8 → List UInt8} {width : Nat → Nat}
    {text text' : List UInt8} (h : PagesOut zx bytes state displayIdx page text)
    (h' : PagesOut zx bytes' state' displayIdx page text')
    (hpages : Pager.Pages page chars width) (hsame : SameScreens zx bytes state bytes' state')
    (htold : Pageable width (chars text)) (htold' : Pageable width (chars text')) :
    chars text = chars text' := by
  have hmin : 37 ≤ wide.outVal.length := by
    rw [wide_length]
    decide
  obtain ⟨hdone, htext⟩ := (h.textShown_iff hpages).mpr htold wide hmin (Nat.le_of_eq wide_length)
  obtain ⟨hdone', htext'⟩ :=
    (h'.textShown_iff hpages).mpr htold' wide hmin (Nat.le_of_eq wide_length)
  rw [← htext, ← htext', itemText_congr hsame hdone hdone']

theorem Holds.firstText_amount (h : Holds bytes state t) (hvalid : t.Valid zx) {key : List UInt8}
    {piece : Piece} (hitem : t.item displayIdx = some (key, .recipientNumber piece))
    (hcounted : Counted piece) :
    firstText zx bytes state displayIdx =
      some (Numeral.text 10 (BigEndian.value piece.payload)) := by
  obtain ⟨d', hend, htext⟩ := (h.amountShown_iff hvalid hitem).mpr hcounted 0 wide
    (Nat.le_of_eq wide_length.symm) (by rw [wide_length]; decide)
  rw [firstText, screen, hend, onScreen, Option.map_some, htext]

/-- A text of a recipient that looks the same is the same. -/
theorem recipient_text_eq (hpages : zx.Pages textWidth hexWidth) (h : Holds bytes state t)
    (h' : Holds bytes' state' t') (hsame : SameScreens zx bytes state bytes' state')
    {key key' : List UInt8} {piece piece' : Piece}
    (hitem : t.item displayIdx = some (key, .recipientPage piece))
    (hitem' : t'.item displayIdx = some (key', .recipientPage piece'))
    (htold : Told textWidth id piece) (htold' : Told textWidth id piece') :
    piece.payload = piece'.payload :=
  (h.recipient_pagesOut hitem htold.1.1 htold.1.2).text_eq
    (h'.recipient_pagesOut hitem' htold'.1.1 htold'.1.2) hpages.ext hsame htold.2 htold'.2

/-- Recipients that look the same agree on what is shown of them. -/
theorem recipient_agree (hpages : zx.Pages textWidth hexWidth) (h : Holds bytes state t)
    (hvalid : t.Valid zx) (h' : Holds bytes' state' t') (hvalid' : t'.Valid zx)
    (hsame : SameScreens zx bytes state bytes' state') {i : Nat} {r r' : Recipient}
    (hr : t.recipients[i]? = some r) (hr' : t'.recipients[i]? = some r') :
    (Told textWidth id r.toItem → Told textWidth id r'.toItem →
      r.toItem.payload = r'.toItem.payload) ∧
    (Counted r.amount → Counted r'.amount →
      BigEndian.value r.amount.payload = BigEndian.value r'.amount.payload) ∧
    (Told textWidth id r.payload → Told textWidth id r'.payload →
      r.payload.payload = r'.payload.payload) := by
  have hitem {k : Nat} (hk : k < 3) : t.item (12 + 3 * i + k) = some (r.item i k) :=
    Transaction.item_recipient hr hk
  have hitem' {k : Nat} (hk : k < 3) : t'.item (12 + 3 * i + k) = some (r'.item i k) :=
    Transaction.item_recipient hr' hk
  refine ⟨fun htold htold' => ?_, fun hcounted hcounted' => ?_, fun htold htold' => ?_⟩
  · exact recipient_text_eq hpages h h' hsame (hitem (by decide : 0 < 3)) (hitem' (by decide))
      htold htold'
  · exact hsame.number_eq (h.firstText_amount hvalid (hitem (by decide : 1 < 3)) hcounted)
      (h'.firstText_amount hvalid' (hitem' (by decide)) hcounted')
  · exact recipient_text_eq hpages h h' hsame (hitem (by decide : 2 < 3)) (hitem' (by decide))
      htold htold'

/-- Transactions that look the same agree on what is shown of them. -/
theorem Holds.agree (hpages : zx.Pages textWidth hexWidth) (h : Holds bytes state t)
    (hvalid : t.Valid zx) (h' : Holds bytes' state' t') (hvalid' : t'.Valid zx)
    (hsame : SameScreens zx bytes state bytes' state') : t.Agree textWidth hexWidth t' := by
  have hnumber (displayIdx : Nat) {key : List UInt8} {piece piece' : Piece}
      (hitem : t.item displayIdx = some (key, .number piece))
      (hitem' : t'.item displayIdx = some (key, .number piece')) :
      BigEndian.value piece.payload = BigEndian.value piece'.payload :=
    hsame.number_eq (h.firstText_number hvalid hitem) (h'.firstText_number hvalid' hitem')
  have htype : u8 t.number = u8 t'.number := by
    obtain ⟨name, hlabel, htext⟩ := h.firstText_txType hvalid
    obtain ⟨name', hlabel', htext'⟩ := h'.firstText_txType hvalid'
    rw [hsame.firstText_eq, htext', Option.some.injEq] at htext
    exact ((labels_spec _ hlabel).2.2.2 _ hlabel' htext.symm)
  refine
    { numbers := ?_
      lockHeight := hnumber 11 rfl rfl
      chain := ?_
      txType := htype
      count := hsame.count_eq h hvalid h' hvalid'
      toField := ?_
      dataField := ?_
      recipients := fun _ _ _ hr hr' => recipient_agree hpages h hvalid h' hvalid' hsame hr hr' }
  · intro i hi
    simp only [List.mem_cons, List.not_mem_nil, or_false] at hi
    rcases hi with rfl | rfl | rfl | rfl | rfl | rfl
    · exact hnumber 0 rfl rfl
    · exact hnumber 1 rfl rfl
    · exact hnumber 2 rfl rfl
    · exact hnumber 4 rfl rfl
    · exact hnumber 7 rfl rfl
    · exact hnumber 8 rfl rfl
  · obtain ⟨hone, htext⟩ := h.firstText_chain hvalid
    obtain ⟨hone', htext'⟩ := h'.firstText_chain hvalid'
    have hvalue := hsame.number_eq htext htext'
    obtain ⟨byte, hbyte⟩ := List.length_eq_one_iff.mp hone
    obtain ⟨byte', hbyte'⟩ := List.length_eq_one_iff.mp hone'
    rw [hbyte, hbyte', BigEndian.value_singleton, BigEndian.value_singleton] at hvalue
    rw [hbyte, hbyte', UInt8.toNat_inj.mp hvalue]
  · intro htold htold'
    exact (h.to_pagesOut htold.1.1).text_eq (h'.to_pagesOut htold'.1.1) hpages.ext hsame
      htold.2 htold'.2
  · intro htold htold'
    have hout := h.data_pagesOut hvalid htold.1.1 htold.1.2
    have hout' := h'.data_pagesOut hvalid' htold'.1.1 htold'.1.2
    rw [← htype] at hout' htold'
    exact dataChars_injective _ (hout.text_eq hout' (dataPager_pages hpages _) hsame
      htold.2 htold'.2)

/-- Two accepted transactions that look the same on every screen agree on all
numbers, the chain id, the stored type and the number of recipients, and on every
text and amount that the display can tell. -/
theorem same_screens_agree (hpages : zx.Pages textWidth hexWidth) (h : Accepted zx bytes state)
    (h' : Accepted zx bytes' state') (hsame : SameScreens zx bytes state bytes' state') :
    ∃ t t' : Transaction, t.Decodes (seen bytes) ∧ t'.Decodes (seen bytes') ∧
      t.Agree textWidth hexWidth t' := by
  obtain ⟨t, hholds, hvalid⟩ := h.exists_holds
  obtain ⟨t', hholds', hvalid'⟩ := h'.exists_holds
  exact ⟨t, t', hholds.decodes, hholds'.decodes,
    hholds.agree hpages hvalid hholds' hvalid' hsame⟩

end Alike

/-- Two transactions that differ, and that no screen tells apart. -/
theorem same_screens_agree_otherS : filled ≠ otherS ∧ ∃ t t' : Transaction,
    t.Decodes (seen filled) ∧ t'.Decodes (seen otherS) ∧
      t.Agree (· - 1) (fun outLen => (outLen - 1) / 2 * 2) t' :=
  ⟨by decide +kernel,
    same_screens_agree Zxlib.reference_pages filled_accepted otherS_accepted otherS_sameScreens⟩

end LedgerMatrix
