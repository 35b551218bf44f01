import LedgerMatrix.Display.Kinds
import LedgerMatrix.Parser.Arity
import Mathlib.Data.Set.Function

/-! # Further recipients

The recipients behind the first are read through an array of ten and each of them
through an array of three, and nothing checks that the lists end there. Each has
three display items. A recorded length of 0 is taken for an empty item, which a
single byte also has.
-/

namespace LedgerMatrix

open Imperative RecursiveLength

/-! ## All of them -/

section Listed

variable {zx : Zxlib} {bytes : List UInt8} {state : ParserState} {t : Transaction}

/-- The third element of the inner extra list is a list of the recipients `all`, each
of which is a list of three items and has its three display items for them. There are
no other display items. -/
structure RecipientsShown (zx : Zxlib) (bytes : List UInt8) (state : ParserState)
    (t : Transaction) (all : List Piece) : Prop where
  consists : ConsistsOf t.extraTo all
  numItems : (parserGetNumItems state : Parser Unit Nat).outcome () =
    .done (12 + 3 * all.length) ()
  shown : ∀ i entry, all[i]? = some entry → ∃ r : Recipient, r.entry = entry ∧
    ConsistsOf entry [r.toItem, r.amount, r.payload] ∧
    ∀ k < 3, DisplaysAs zx bytes state (12 + 3 * i + k) state.txObj.extraTxType
      (r.item i k).1 (r.item i k).2

/-- The element is a list of ten recipients or fewer, and each of them is a list of three
items. -/
structure RecipientsFit (extraTo : Piece) (all : List Piece) : Prop where
  consists : ConsistsOf extraTo all
  length_le : all.length ≤ extraListFieldCount
  entries : ∀ entry ∈ all, ∃ items, ConsistsOf entry items ∧ items.length = extraToFieldCount

/-- A list of three items is read to its end. -/
theorem Recipient.consistsOf_iff (r : Recipient) :
    ConsistsOf r.entry [r.toItem, r.amount, r.payload] ↔
      ∃ items, ConsistsOf r.entry items ∧ items.length = extraToFieldCount := by
  constructor
  · exact fun hitems => ⟨_, hitems, rfl⟩
  · rintro ⟨items, hitems, hlength⟩
    have hread : readItems extraToFieldCount r.entry = .ok items :=
      readItems_eq_ok.mpr ⟨hitems.1, [], takePieces_of_pieces hitems.2 (Nat.le_of_eq hlength)⟩
    rwa [Except.ok.inj (r.items_eq.symm.trans hread)]

theorem Holds.recipient_displaysAs (h : Holds bytes state t) {i k : Nat} {r : Recipient}
    (hr : t.recipients[i]? = some r) (hk : k < 3) :
    DisplaysAs zx bytes state (12 + 3 * i + k) state.txObj.extraTxType
      (r.item i k).1 (r.item i k).2 := by
  rw [h.views.extraTxType]
  exact h.displaysAs (Transaction.item_recipient hr hk)

theorem Holds.recipientsShown_iff (h : Holds bytes state t) :
    (∃ all, RecipientsShown zx bytes state t all) ↔ ∃ all, RecipientsFit t.extraTo all := by
  have hcount := h.getNumItems ()
  constructor
  · rintro ⟨all, hshown⟩
    refine ⟨all, hshown.consists, ?_, fun entry hentry => ?_⟩
    · have hnumItems := hshown.numItems.symm.trans hcount
      injection hnumItems with hnumItems _
      have hle := t.recipients_length_le
      simp only [displayCount] at hnumItems
      omega
    · obtain ⟨i, hi⟩ := List.mem_iff_getElem?.mp hentry
      obtain ⟨r, rfl, hitems, -⟩ := hshown.shown i entry hi
      exact r.consistsOf_iff.mp hitems
  · rintro ⟨all, hfit⟩
    have hentries : t.recipients.map Recipient.entry = all :=
      Except.ok.inj (t.extraTo_entries.symm.trans
        (recipientEntries_of_pieces hfit.consists.1 hfit.consists.2 hfit.length_le))
    have hlength : t.recipients.length = all.length := by
      rw [← hentries, List.length_map]
    refine ⟨all, hfit.consists, ?_, ?_⟩
    · rw [hcount, hlength, displayCount, Nat.mul_comm all.length]
    · intro i entry hentry
      have hitems := hfit.entries entry (List.mem_of_getElem? hentry)
      rw [← hentries, List.getElem?_map, Option.map_eq_some_iff] at hentry
      obtain ⟨r, hr, rfl⟩ := hentry
      exact ⟨r, rfl, r.consistsOf_iff.mpr hitems, fun k hk => h.recipient_displaysAs hr hk⟩

/-- Nothing of the element is hidden exactly when it is a list of ten recipients or
fewer, and each of them is a list of three items. -/
theorem recipientsShown_iff_fit (h : Accepted zx bytes state) :
    ∃ t, t.Decodes (seen bytes) ∧ ((∃ all, RecipientsShown zx bytes state t all) ↔
      ∃ all, RecipientsFit t.extraTo all) := by
  obtain ⟨t, hholds, -⟩ := h.exists_holds
  exact ⟨t, hholds.decodes, hholds.recipientsShown_iff⟩

/-- A transaction that pays 256 to the further recipient AB. -/
def oneRecipient : List UInt8 :=
  [0xd9, 0x80, 0x80, 0x80, 0x80, 0x80, 0x80, 0x03, 0x80, 0x80, 0x80, 0x80, 0x80,
    0xcc, 0xcb, 0x80, 0x80, 0xc8, 0xc7, 0x82, 0x41, 0x42, 0x82, 0x01, 0x00, 0x80]

theorem oneRecipient_accepted : Accepted Zxlib.reference oneRecipient (parsedState oneRecipient) :=
  ⟨⟨.initial, by decide +kernel⟩, by decide +kernel⟩

theorem recipientsShown_iff_fit_oneRecipient : ∃ t, t.Decodes (seen oneRecipient) ∧
    ((∃ all, RecipientsShown Zxlib.reference oneRecipient (parsedState oneRecipient) t all) ↔
      ∃ all, RecipientsFit t.extraTo all) :=
  recipientsShown_iff_fit oneRecipient_accepted

/-- A transaction with eleven further recipients. -/
def elevenRecipients : List UInt8 :=
  [0xf8, 0x3d, 0x80, 0x80, 0x80, 0x80, 0x80, 0x80, 0x03, 0x80, 0x80, 0x80, 0x80, 0x80,
    0xf0, 0xef, 0x80, 0x80, 0xec] ++ (List.replicate 11 [0xc3, 0x80, 0x80, 0x80]).flatten

/-- It is accepted, and the eleventh recipient is not shown. -/
theorem elevenRecipients_hidden :
    Accepted Zxlib.reference elevenRecipients (parsedState elevenRecipients) ∧
    (parserGetNumItems (parsedState elevenRecipients) : Parser Unit Nat).outcome () =
      .done 42 () ∧
    ∀ t : Transaction, t.Decodes (seen elevenRecipients) →
      (∃ all, pieces t.extraTo.payload = some all ∧ all.length = 11) ∧
      ¬ ∃ all, RecipientsShown Zxlib.reference elevenRecipients (parsedState elevenRecipients)
        t all := by
  have haccepted : Accepted Zxlib.reference elevenRecipients (parsedState elevenRecipients) :=
    ⟨⟨.initial, by decide +kernel⟩, by decide +kernel⟩
  refine ⟨haccepted, by decide +kernel, fun t ht => ?_⟩
  obtain ⟨hholds, -⟩ := haccepted.holds ht
  have hstands : ((parsedState elevenRecipients).txObj.extraFields.get ExtraField.to).Stands
      _ _ _ t.extraTo := hholds.views.extraFields_stands ExtraField.to.val ExtraField.to.isLt
  have hpieces : ∃ all, pieces t.extraTo.payload = some all ∧ all.length = 11 := by
    rw [← hstands.content_eq]
    exact ⟨List.replicate 11 ⟨.list, [0x80, 0x80, 0x80]⟩, by decide +kernel⟩
  refine ⟨hpieces, fun hshown => ?_⟩
  obtain ⟨all, hall, hlength⟩ := hpieces
  obtain ⟨all', hfit⟩ := hholds.recipientsShown_iff.mp hshown
  obtain rfl := Option.some.inj (hall.symm.trans hfit.consists.2)
  have hle := hfit.length_le
  rw [hlength] at hle
  exact absurd hle (by decide)

/-- A transaction with one further recipient, which has a fourth item. -/
def fourItems : List UInt8 :=
  [0xd6, 0x80, 0x80, 0x80, 0x80, 0x80, 0x80, 0x03, 0x80, 0x80, 0x80, 0x80, 0x80,
    0xc9, 0xc8, 0x80, 0x80, 0xc5, 0xc4, 0x80, 0x80, 0x80, 0x05]

/-- It is accepted, and the fourth item is not shown. -/
theorem fourItems_hidden : Accepted Zxlib.reference fourItems (parsedState fourItems) ∧
    ∀ t : Transaction, t.Decodes (seen fourItems) →
      ¬ ∃ all, RecipientsShown Zxlib.reference fourItems (parsedState fourItems) t all := by
  have haccepted : Accepted Zxlib.reference fourItems (parsedState fourItems) :=
    ⟨⟨.initial, by decide +kernel⟩, by decide +kernel⟩
  refine ⟨haccepted, fun t ht hshown => ?_⟩
  obtain ⟨hholds, -⟩ := haccepted.holds ht
  have hstands : ((parsedState fourItems).txObj.extraFields.get ExtraField.to).Stands
      _ _ _ t.extraTo := hholds.views.extraFields_stands ExtraField.to.val ExtraField.to.isLt
  have hentry : pieces t.extraTo.payload = some [⟨.list, [0x80, 0x80, 0x80, 0x05]⟩] := by
    rw [← hstands.content_eq]
    decide +kernel
  obtain ⟨all, hfit⟩ := hholds.recipientsShown_iff.mp hshown
  obtain rfl := Option.some.inj (hentry.symm.trans hfit.consists.2)
  obtain ⟨items, hitems, hlength⟩ := hfit.entries _ List.mem_cons_self
  have hfour : (pieces [0x80, 0x80, 0x80, 0x05]).map List.length = some 4 := by decide +kernel
  rw [hitems.2, Option.map_some, hlength] at hfour
  cases hfour

end Listed

/-! ## What is shown of them -/

section Faithful

variable {zx : Zxlib} {bytes : List UInt8} {state : ParserState} {t : Transaction}
  {textWidth hexWidth : Nat → Nat}

/-- The recipient and the element that a display index stands for. -/
def recipientIndex (displayIdx : Nat) : Nat × Nat :=
  ((displayIdx - displayCount) / 3, (displayIdx - displayCount) % 3)

/-- The item at an index shows `Empty` only if there is no content byte. -/
def EmptyOnlyIfNil (zx : Zxlib) (bytes : List UInt8) (state : ParserState) (displayIdx : Nat)
    (piece : Piece) : Prop :=
  ∀ pageIdx d d', 40 ≤ d.outVal.length → d.outVal.length < 2 ^ 16 →
    (parserGetItem zx bytes state displayIdx pageIdx).outcome d = .done () d' →
    cString d'.outVal = ascii "Empty" → piece.payload = []

/-- The item at an index shows the numeral of the number. -/
def AmountShown (zx : Zxlib) (bytes : List UInt8) (state : ParserState) (displayIdx : Nat)
    (piece : Piece) : Prop :=
  ∀ pageIdx d, 40 ≤ d.outVal.length → d.outVal.length < 2 ^ 16 → ∃ d',
    (parserGetItem zx bytes state displayIdx pageIdx).outcome d = .done () d' ∧
      cString d'.outVal = Numeral.text 10 (BigEndian.value piece.payload)

/-- The display indices from 12 on are the elements of the recipients, one for
one, and show them. -/
structure RecipientsFaithful (zx : Zxlib) (bytes : List UInt8) (state : ParserState)
    (t : Transaction) : Prop where
  stored : state.txObj.extraToFieldsItems = t.recipients.length
  bijective : Set.BijOn recipientIndex
    {displayIdx | 12 ≤ displayIdx ∧ displayIdx < 12 + 3 * t.recipients.length}
    {index | index.1 < t.recipients.length ∧ index.2 < 3}
  displays : ∀ displayIdx r, 12 ≤ displayIdx →
    t.recipients[(recipientIndex displayIdx).1]? = some r →
    DisplaysAs zx bytes state displayIdx state.txObj.extraTxType
      (r.item (recipientIndex displayIdx).1 (recipientIndex displayIdx).2).1
      (r.item (recipientIndex displayIdx).1 (recipientIndex displayIdx).2).2
  toItem : ∀ i r, t.recipients[i]? = some r →
    EmptyOnlyIfNil zx bytes state (12 + 3 * i) r.toItem
  amount : ∀ i r, t.recipients[i]? = some r → AmountShown zx bytes state (13 + 3 * i) r.amount
  payload : ∀ i r, t.recipients[i]? = some r →
    EmptyOnlyIfNil zx bytes state (14 + 3 * i) r.payload

/-- Some page of the content is the text `Empty`. -/
def SpellsEmpty (zx : Zxlib) (textWidth : Nat → Nat) (piece : Piece) : Prop :=
  ∃ outLen pageIdx, 40 ≤ outLen ∧ outLen < 2 ^ 16 ∧
    pageIdx < u8 (Paging.count (textWidth outLen) piece.payload) ∧
    pageText zx.pageStringExt id textWidth (clearedValue outLen) piece.payload pageIdx =
      ascii "Empty"

theorem recipientIndex_bijOn (count : Nat) : Set.BijOn recipientIndex
    {displayIdx | 12 ≤ displayIdx ∧ displayIdx < 12 + 3 * count}
    {index | index.1 < count ∧ index.2 < 3} := by
  refine ⟨?_, ?_, ?_⟩
  · rintro displayIdx ⟨hmin, hmax⟩
    simp only [recipientIndex, displayCount, Set.mem_ofPred_eq]
    omega
  · rintro first ⟨hmin, -⟩ second ⟨hmin', -⟩ heq
    simp only [recipientIndex, displayCount, Prod.mk.injEq] at heq
    omega
  · rintro ⟨i, k⟩ ⟨hi, hk⟩
    simp only at hi hk
    refine ⟨12 + 3 * i + k, ⟨by omega, by omega⟩, ?_⟩
    simp only [recipientIndex, displayCount, Prod.mk.injEq]
    omega

/-- A numeral is never the text that stands for an empty item. -/
theorem text_ne_empty (number : Nat) : Numeral.text 10 number ≠ ascii "Empty" := by
  intro heq
  have hmem : (69 : UInt8) ∈ Numeral.text 10 number := by
    rw [heq]
    decide +kernel
  obtain ⟨digit, hlt, hsymbol⟩ := Numeral.exists_digit_of_mem_text (by decide) hmem
  have hnone : ∀ digit < 10, Numeral.symbol digit ≠ 69 := by decide
  exact hnone digit hlt hsymbol

theorem storedLength_eq_zero {kind : Kind} {length : Nat} :
    storedLength kind length = 0 ↔ kind = .byte ∨ length = 0 := by
  cases kind <;> simp [storedLength]

/-- What the display keeps of a value, when the recorded length is not 0. -/
theorem orEmpty_of_content {piece : Piece} (hkind : piece.kind ≠ .byte)
    (hpayload : piece.payload ≠ []) (shown : List UInt8 × Nat) : orEmpty piece shown = shown := by
  rw [orEmpty, if_neg]
  rw [storedLength_eq_zero, List.length_eq_zero_iff]
  exact not_or.mpr ⟨hkind, hpayload⟩

theorem orEmpty_of_none {piece : Piece} (h : piece.kind = .byte ∨ piece.payload = [])
    (shown : List UInt8 × Nat) (hlength : 40 ≤ shown.1.length) :
    cString (orEmpty piece shown).1 = ascii "Empty" ∧ (orEmpty piece shown).2 = 1 := by
  rw [orEmpty, if_pos (by rwa [storedLength_eq_zero, List.length_eq_zero_iff])]
  have hfit : (ascii "Empty").length < 40 := by decide +kernel
  exact ⟨cString_snprintf (by decide +kernel) (hfit.trans_le hlength), rfl⟩

theorem Holds.amountShown_iff (h : Holds bytes state t) (hvalid : t.Valid zx) {displayIdx : Nat}
    {key : List UInt8} {piece : Piece}
    (hitem : t.item displayIdx = some (key, .recipientNumber piece)) :
    AmountShown zx bytes state displayIdx piece ↔ piece.kind ≠ .byte ∧ piece.payload ≠ [] := by
  -- the amount was shown in 40 bytes, so it is readable and fits
  obtain ⟨_, hshow⟩ := hvalid.show_ok hitem
  obtain ⟨number, hread, hshow⟩ := bind_ok hshow
  obtain ⟨_, hshow, -⟩ := map_ok hshow
  obtain ⟨hfit, -⟩ := showNumber_eq_ok.mp hshow
  rw [clearedValue_length] at hfit
  obtain rfl := (readUInt256_eq_ok.mp hread).2
  have hshown (pageIdx length : Nat) (hmin : 40 ≤ length) :
      (Rendering.recipientNumber piece).show zx (u8 t.number) pageIdx (clearedValue length) =
        .ok (orEmpty piece (snprintf (Numeral.text 10 (BigEndian.value piece.payload))
          (clearedValue length), 1)) := by
    have hroom : showNumber (BigEndian.value piece.payload) (clearedValue length) = .ok _ :=
      showNumber_eq_ok.mpr ⟨by rw [clearedValue_length]; omega, rfl⟩
    simp only [Rendering.show, hread, Except.bind, hroom, Except.map]
  constructor
  · intro hall
    rw [← not_or]
    intro hnone
    have hlong : (List.replicate 40 (0 : UInt8)).length = 40 := List.length_replicate ..
    obtain ⟨d', hend, htext⟩ := hall 0 ⟨[], List.replicate 40 0, 0⟩ (by rw [hlong])
      (by rw [hlong]; decide)
    obtain ⟨shown, hshow, rfl⟩ := (h.displaysAs hitem 0 _ d' (by rw [hlong]; decide)
      (by rw [hlong]; decide)).mp hend
    rw [hlong, hshown 0 40 le_rfl] at hshow
    cases hshow
    have hempty := (orEmpty_of_none hnone
      (snprintf (Numeral.text 10 (BigEndian.value piece.payload)) (clearedValue 40), 1)
      (by rw [snprintf_length, clearedValue_length])).1
    exact text_ne_empty _ (htext.symm.trans hempty)
  · rintro ⟨hkind, hpayload⟩ pageIdx d hmin hmax
    refine ⟨_, (h.displaysAs hitem pageIdx d _ (by omega) hmax).mpr
      ⟨_, hshown pageIdx _ hmin, rfl⟩, ?_⟩
    rw [orEmpty_of_content hkind hpayload]
    refine cString_snprintf (Numeral.zero_notMem_text (by decide) (by decide)) ?_
    rw [clearedValue_length]
    omega

/-- A page of a text in a cleared buffer, when its pages can be counted in one byte. -/
theorem pageText_cleared {page : Pager} {chars : List UInt8 → List UInt8} {width : Nat → Nat}
    {outLen : Nat} {text : List UInt8} (h : Paging.count (width outLen) (chars text) ≤ 255)
    (pageIdx : Nat) : pageText page chars width (clearedValue outLen) text pageIdx =
      cString (Paging.page (width outLen) (chars text) pageIdx) := by
  rw [pageText_of_le (by rwa [clearedValue_length]), clearedValue_length]

/-- A text with content is shown page by page. -/
theorem cString_recipientPage (hpages : zx.Pages textWidth hexWidth) {piece : Piece}
    (hkind : piece.kind ≠ .byte) (hpayload : piece.payload ≠ []) {outLen : Nat}
    (hmin : 40 ≤ outLen) (pageIdx : Nat) :
    cString (orEmpty piece
        (zx.pageStringExt (clearedValue outLen) (pagedBytes piece) pageIdx)).1 =
      if pageIdx < u8 (Paging.count (textWidth outLen) piece.payload) then
        pageText zx.pageStringExt id textWidth (clearedValue outLen) piece.payload pageIdx
      else [] := by
  have hlong : 3 ≤ (clearedValue outLen).length := by
    rw [clearedValue_length]
    omega
  have htext := hpages.ext.cString_eq hlong piece.payload pageIdx
  rw [clearedValue_length] at htext
  rw [orEmpty_of_content hkind hpayload, pagedBytes_of_ne hkind]
  exact htext

theorem Holds.emptyOnlyIfNil_iff (h : Holds bytes state t) (hpages : zx.Pages textWidth hexWidth)
    {displayIdx : Nat} {key : List UInt8} {piece : Piece}
    (hitem : t.item displayIdx = some (key, .recipientPage piece)) :
    EmptyOnlyIfNil zx bytes state displayIdx piece ↔
      piece.payload = [] ∨ piece.kind ≠ .byte ∧ ¬ SpellsEmpty zx textWidth piece := by
  have hshows (pageIdx outLen : Nat) (hmin : 40 ≤ outLen) (hmax : outLen < 2 ^ 16) : ∃ d',
      (parserGetItem zx bytes state displayIdx pageIdx).outcome
        ⟨[], List.replicate outLen 0, 0⟩ = .done () d' ∧ d'.outVal = (orEmpty piece
          (zx.pageStringExt (clearedValue outLen) (pagedBytes piece) pageIdx)).1 := by
    have hlong : (List.replicate outLen (0 : UInt8)).length = outLen := List.length_replicate ..
    refine ⟨_, (h.displaysAs hitem pageIdx ⟨[], List.replicate outLen 0, 0⟩ _
      (by rw [hlong]; omega) (by rw [hlong]; exact hmax)).mpr ⟨_, rfl, rfl⟩, ?_⟩
    rw [hlong]
  constructor
  · intro hempty
    by_cases hpayload : piece.payload = []
    · exact .inl hpayload
    -- a byte that stands for itself has a recorded length of zero
    have hkind : piece.kind ≠ .byte := by
      intro hbyte
      obtain ⟨d', hend, hvalue⟩ := hshows 0 40 le_rfl (by decide)
      refine hpayload (hempty 0 _ d' (by simp) (by simp) hend ?_)
      rw [hvalue]
      refine (orEmpty_of_none (.inl hbyte) _ ?_).1
      rw [zx.pageStringExt_length, clearedValue_length]
    refine .inr ⟨hkind, ?_⟩
    rintro ⟨outLen, pageIdx, hmin, hmax, hinside, hspells⟩
    obtain ⟨d', hend, hvalue⟩ := hshows pageIdx outLen hmin hmax
    refine hpayload (hempty pageIdx _ d' (by simpa using hmin) (by simpa using hmax) hend ?_)
    rw [hvalue, cString_recipientPage hpages hkind hpayload hmin, if_pos hinside, hspells]
  · rintro (hpayload | ⟨hkind, hspells⟩) pageIdx d d' hmin hmax hend hempty
    · exact hpayload
    · by_contra hpayload
      obtain ⟨shown, hshow, rfl⟩ := (h.displaysAs hitem pageIdx d d' (by omega) hmax).mp hend
      cases hshow
      rw [cString_recipientPage hpages hkind hpayload hmin] at hempty
      split at hempty
      next hinside => exact hspells ⟨d.outVal.length, pageIdx, hmin, hmax, hinside, hempty⟩
      next => exact absurd hempty (by decide +kernel)

/-- The amount is a string that is not empty. The texts are empty, or strings no
page of which spells `Empty`. -/
def Recipient.Legible (zx : Zxlib) (textWidth : Nat → Nat) (r : Recipient) : Prop :=
  (r.amount.kind ≠ .byte ∧ r.amount.payload ≠ []) ∧
    ∀ text ∈ [r.toItem, r.payload],
      text.payload = [] ∨ text.kind ≠ .byte ∧ ¬ SpellsEmpty zx textWidth text

theorem Holds.recipientsFaithful_iff (h : Holds bytes state t) (hvalid : t.Valid zx)
    (hpages : zx.Pages textWidth hexWidth) :
    RecipientsFaithful zx bytes state t ↔ ∀ r ∈ t.recipients, r.Legible zx textWidth := by
  have hitem {i k : Nat} {r : Recipient} (hr : t.recipients[i]? = some r) (hk : k < 3) :
      t.item (12 + 3 * i + k) = some (r.item i k) := Transaction.item_recipient hr hk
  have hto {i : Nat} {r : Recipient} (hr : t.recipients[i]? = some r) :
      EmptyOnlyIfNil zx bytes state (12 + 3 * i) r.toItem ↔ _ :=
    h.emptyOnlyIfNil_iff hpages (hitem hr (by decide : 0 < 3))
  have hamount {i : Nat} {r : Recipient} (hr : t.recipients[i]? = some r) :
      AmountShown zx bytes state (13 + 3 * i) r.amount ↔ _ :=
    h.amountShown_iff hvalid (by rw [Nat.add_right_comm 12 1]; exact hitem hr (by decide : 1 < 3))
  have hpayload {i : Nat} {r : Recipient} (hr : t.recipients[i]? = some r) :
      EmptyOnlyIfNil zx bytes state (14 + 3 * i) r.payload ↔ _ :=
    h.emptyOnlyIfNil_iff hpages
      (by rw [Nat.add_right_comm 12 2]; exact hitem hr (by decide : 2 < 3))
  constructor
  · intro hfaithful r hmem
    obtain ⟨i, hr⟩ := List.mem_iff_getElem?.mp hmem
    refine ⟨(hamount hr).mp (hfaithful.amount i r hr), ?_⟩
    simp only [List.mem_cons, List.not_mem_nil, or_false, forall_eq_or_imp, forall_eq]
    exact ⟨(hto hr).mp (hfaithful.toItem i r hr), (hpayload hr).mp (hfaithful.payload i r hr)⟩
  · intro hall
    refine
      { stored := h.views.extraToFieldsItems
        bijective := recipientIndex_bijOn _
        displays := ?_
        toItem := fun i r hr => (hto hr).mpr ?_
        amount := fun i r hr => (hamount hr).mpr (hall r (List.mem_of_getElem? hr)).1
        payload := fun i r hr => (hpayload hr).mpr ?_ }
    · intro displayIdx r hmin hr
      have hindex : 12 + 3 * (recipientIndex displayIdx).1 + (recipientIndex displayIdx).2 =
          displayIdx := by
        simp only [recipientIndex, displayCount]
        omega
      have hshown : DisplaysAs zx bytes state
          (12 + 3 * (recipientIndex displayIdx).1 + (recipientIndex displayIdx).2)
          state.txObj.extraTxType _ _ :=
        h.recipient_displaysAs hr (Nat.mod_lt _ (by decide))
      rwa [hindex] at hshown
    · exact (hall r (List.mem_of_getElem? hr)).2 _ (by simp)
    · exact (hall r (List.mem_of_getElem? hr)).2 _ (by simp)

/-- The recipients are shown faithfully exactly when every one is legible. The
indices stand for them one for one in any case. -/
theorem recipientsFaithful_iff_legible (hpages : zx.Pages textWidth hexWidth)
    (h : Accepted zx bytes state) : ∃ t, t.Decodes (seen bytes) ∧
      (RecipientsFaithful zx bytes state t ↔ ∀ r ∈ t.recipients, r.Legible zx textWidth) := by
  obtain ⟨t, hholds, hvalid⟩ := h.exists_holds
  exact ⟨t, hholds.decodes, hholds.recipientsFaithful_iff hvalid hpages⟩

theorem recipientsFaithful_iff_legible_oneRecipient : ∃ t, t.Decodes (seen oneRecipient) ∧
    (RecipientsFaithful Zxlib.reference oneRecipient (parsedState oneRecipient) t ↔
      ∀ r ∈ t.recipients, r.Legible Zxlib.reference (· - 1)) :=
  recipientsFaithful_iff_legible Zxlib.reference_pages oneRecipient_accepted

/-- A transaction that pays 5 to a further recipient. -/
def smallAmount : List UInt8 :=
  [0xd5, 0x80, 0x80, 0x80, 0x80, 0x80, 0x80, 0x03, 0x80, 0x80, 0x80, 0x80, 0x80,
    0xc8, 0xc7, 0x80, 0x80, 0xc4, 0xc3, 0x80, 0x05, 0x80]

/-- It is accepted, and the amount is shown as `Empty`. -/
theorem smallAmount_shown_empty :
    Accepted Zxlib.reference smallAmount (parsedState smallAmount) ∧
    ∀ t : Transaction, t.Decodes (seen smallAmount) →
      ¬ RecipientsFaithful Zxlib.reference smallAmount (parsedState smallAmount) t := by
  have haccepted : Accepted Zxlib.reference smallAmount (parsedState smallAmount) :=
    ⟨⟨.initial, by decide +kernel⟩, by decide +kernel⟩
  refine ⟨haccepted, fun t ht hfaithful => ?_⟩
  obtain ⟨hholds, -⟩ := haccepted.holds ht
  have hone : t.recipients.length = 1 := by
    rw [← hholds.views.extraToFieldsItems]
    decide +kernel
  obtain ⟨r, hr⟩ := List.length_eq_one_iff.mp hone
  obtain ⟨d', hend, htext⟩ := hfaithful.amount 0 r (by rw [hr]; rfl) 0
    ⟨List.replicate 40 0, List.replicate 40 0, 0⟩ (by decide) (by decide)
  have hshown : cString ((parserGetItem Zxlib.reference smallAmount (parsedState smallAmount)
      13 0).outcome ⟨List.replicate 40 0, List.replicate 40 0, 0⟩).state.outVal =
        ascii "Empty" := by decide +kernel
  rw [hend] at hshown
  exact text_ne_empty _ (htext.symm.trans hshown)

end Faithful

end LedgerMatrix
