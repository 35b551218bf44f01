import LedgerMatrix.Display.Recipients

/-! # Texts and their pages

The items that show a text or hexadecimal digits do so page by page. A page index
and the number of pages have one byte each, and a page is read up to its first
zero byte, so some texts are not shown to their end.
-/

namespace LedgerMatrix

open Imperative RecursiveLength

/-- The transaction types whose data `printDataField` shows as text. -/
abbrev DataIsText (extraTxType : Nat) : Prop :=
  extraTxType = 5 ∨ extraTxType = 9 ∨ extraTxType = 6

/-- The pager of the data, which the type selects. -/
def dataPager (zx : Zxlib) (extraTxType : Nat) : Pager :=
  if DataIsText extraTxType then zx.pageStringExt else zx.pageStringHex

/-- The characters that stand for the data. -/
def dataChars (extraTxType : Nat) : List UInt8 → List UInt8 :=
  if DataIsText extraTxType then id else hexText

/-- The number of characters on a page of the data. -/
def dataWidth (textWidth hexWidth : Nat → Nat) (extraTxType : Nat) : Nat → Nat :=
  if DataIsText extraTxType then textWidth else hexWidth

/-- The pages of an item one after the other, as these buffers show them. -/
def itemText (zx : Zxlib) (bytes : List UInt8) (state : ParserState) (displayIdx : Nat)
    (d : Display) : List UInt8 :=
  (List.range ((parserGetItem zx bytes state displayIdx 0).outcome d).state.pageCount).flatMap
    fun pageIdx =>
      cString ((parserGetItem zx bytes state displayIdx pageIdx).outcome d).state.outVal

theorem dataPager_pages {zx : Zxlib} {textWidth hexWidth : Nat → Nat}
    (h : zx.Pages textWidth hexWidth) (extraTxType : Nat) :
    Pager.Pages (dataPager zx extraTxType) (dataChars extraTxType)
      (dataWidth textWidth hexWidth extraTxType) := by
  unfold dataPager dataChars dataWidth
  split
  next => exact h.ext
  next => exact h.hex

/-- Every item of a valid transaction can show its data. -/
theorem Transaction.Valid.show_data {zx : Zxlib} {t : Transaction} (h : t.Valid zx) (piece : Piece)
    (pageIdx : Nat) (value : List UInt8) :
    (Rendering.data piece).show zx (u8 t.number) pageIdx value =
      .ok (orEmpty piece (dataPager zx (u8 t.number) value (pagedBytes piece) pageIdx)) := by
  obtain ⟨name, hname⟩ := h.typeName_isSome
  have htypes := mem_labels hname
  simp only [Rendering.show, dataPager]
  split
  next => rfl
  next htext =>
    have hhex : u8 t.number = 0 ∨ u8 t.number = 3 ∨ u8 t.number = 4 := by
      simp only [labels, List.mem_cons, Prod.mk.injEq, List.not_mem_nil, or_false] at htypes
      omega
    rw [if_pos hhex]

theorem hexText_length (bytes : List UInt8) : (hexText bytes).length = 2 * bytes.length := by
  induction bytes with
  | nil => rfl
  | cons byte bytes ih =>
      rw [hexText, List.flatMap_cons, List.length_append, ← hexText, ih]
      simp only [List.length_cons, List.length_nil]
      omega

theorem zero_notMem_hexText (bytes : List UInt8) : (0 : UInt8) ∉ hexText bytes := by
  intro hmem
  obtain ⟨byte, -, hmem⟩ := List.mem_flatMap.mp hmem
  have hlt := byte.toNat_lt
  simp only [List.mem_cons, List.not_mem_nil, or_false] at hmem
  rcases hmem with hzero | hzero
  · exact Numeral.symbol_ne_zero (by omega) hzero.symm
  · exact Numeral.symbol_ne_zero (by omega) hzero.symm

/-! ## Whole texts -/

section Whole

variable {zx : Zxlib} {bytes : List UInt8} {state : ParserState} {t : Transaction}
  {textWidth hexWidth : Nat → Nat}

/-- The item at an index shows a text through a pager, on every page. -/
def PagesOut (zx : Zxlib) (bytes : List UInt8) (state : ParserState) (displayIdx : Nat)
    (page : Pager) (text : List UInt8) : Prop :=
  ∀ (d : Display) (pageIdx : Nat), 2 ≤ d.outVal.length → d.outVal.length < 2 ^ 16 → ∃ key,
    (parserGetItem zx bytes state displayIdx pageIdx).outcome d = .done ()
      ⟨key, (page (clearedValue d.outVal.length) text pageIdx).1,
        (page (clearedValue d.outVal.length) text pageIdx).2⟩

theorem PagesOut.itemText_eq {displayIdx : Nat} {page : Pager} {text : List UInt8}
    (h : PagesOut zx bytes state displayIdx page text) {chars : List UInt8 → List UInt8}
    {width : Nat → Nat} (hpages : Pager.Pages page chars width) {d : Display}
    (hmin : 3 ≤ d.outVal.length) (hmax : d.outVal.length < 2 ^ 16) :
    itemText zx bytes state displayIdx d =
      (List.range (u8 (Paging.count (width d.outVal.length) (chars text)))).flatMap
        (pageText page chars width (clearedValue d.outVal.length) text) := by
  have hlong : 3 ≤ (clearedValue d.outVal.length).length := by
    rwa [clearedValue_length]
  have hcount (pageIdx : Nat) : (page (clearedValue d.outVal.length) text pageIdx).2 = _ :=
    hpages.count_eq hlong
  have htext := hpages.cString_eq hlong text
  simp only [clearedValue_length] at hcount htext
  obtain ⟨key, hfirst⟩ := h d 0 (by omega) hmax
  unfold itemText
  rw [hfirst]
  simp only [Outcome.state, hcount]
  refine List.flatMap_congr fun pageIdx hinside => ?_
  obtain ⟨key', hend⟩ := h d pageIdx (by omega) hmax
  rw [hend]
  exact (htext pageIdx).trans (if_pos (List.mem_range.mp hinside))

/-- All pages of an item, in buffers of 37 to 40 bytes, are this text. -/
def TextShown (zx : Zxlib) (bytes : List UInt8) (state : ParserState) (displayIdx : Nat)
    (text : List UInt8) : Prop :=
  ∀ d : Display, 37 ≤ d.outVal.length → d.outVal.length ≤ 40 →
    (∀ pageIdx, ∃ d', (parserGetItem zx bytes state displayIdx pageIdx).outcome d = .done () d') ∧
      itemText zx bytes state displayIdx d = text

/-- The pages can be counted in one byte, and no character ends them. -/
def Pageable (width : Nat → Nat) (text : List UInt8) : Prop :=
  ∀ outLen, 37 ≤ outLen → outLen ≤ 40 →
    Paging.count (width outLen) text ≤ 255 ∧ ∀ character ∈ text, character ≠ 0

theorem le_u8_iff {n : Nat} : n ≤ u8 n ↔ n ≤ 255 := by
  unfold u8
  omega

theorem PagesOut.textShown_iff {displayIdx : Nat} {page : Pager} {text : List UInt8}
    (h : PagesOut zx bytes state displayIdx page text) {chars : List UInt8 → List UInt8}
    {width : Nat → Nat} (hpages : Pager.Pages page chars width) :
    TextShown zx bytes state displayIdx (chars text) ↔ Pageable width (chars text) := by
  have hwhole {d : Display} (hmin : 37 ≤ d.outVal.length) (hmax : d.outVal.length ≤ 40) :
      itemText zx bytes state displayIdx d = chars text ↔
        Paging.count (width d.outVal.length) (chars text) ≤ 255 ∧
          ∀ character ∈ chars text, character ≠ 0 := by
    have hpos : 0 < width d.outVal.length := hpages.width_pos (by omega)
    rw [h.itemText_eq hpages (by omega) (by omega)]
    by_cases hcount : Paging.count (width d.outVal.length) (chars text) ≤ 255
    · rw [List.flatMap_congr fun pageIdx _ => pageText_cleared hcount pageIdx]
      simp only [cString]
      rw [Paging.flatMap_takeWhile_page_eq_iff hpos, le_u8_iff]
      simp only [decide_eq_true_eq]
    · -- the pages that are reported are too few to hold the text
      have hlong : 3 ≤ (clearedValue d.outVal.length).length := by
        rw [clearedValue_length]
        omega
      have hne := @hpages.flatMap_ne _ _ _ (clearedValue d.outVal.length) text hlong
      rw [clearedValue_length] at hne
      exact iff_of_false (hne (Nat.lt_of_not_le hcount)) fun hall => hcount hall.1
  constructor
  · intro hshown outLen hmin hmax
    have hlong : (List.replicate outLen (0 : UInt8)).length = outLen := List.length_replicate ..
    obtain ⟨-, heq⟩ := hshown ⟨[], List.replicate outLen 0, 0⟩ (by rwa [hlong]) (by rwa [hlong])
    have hall := (hwhole (by rwa [hlong]) (by rwa [hlong])).mp heq
    rwa [hlong] at hall
  · intro hpageable d hmin hmax
    refine ⟨fun pageIdx => ?_, (hwhole hmin hmax).mpr (hpageable _ hmin hmax)⟩
    obtain ⟨key, hend⟩ := h d pageIdx (by omega) (by omega)
    exact ⟨_, hend⟩

/-- An item whose rendering pages its content. -/
theorem Holds.pagesOut (h : Holds bytes state t) {displayIdx : Nat} {key : List UInt8}
    {rendering : Rendering} (hitem : t.item displayIdx = some (key, rendering)) {page : Pager}
    {text : List UInt8} (hshow : ∀ pageIdx value,
      rendering.show zx (u8 t.number) pageIdx value = .ok (page value text pageIdx)) :
    PagesOut zx bytes state displayIdx page text :=
  fun _ pageIdx hmin hmax => ⟨_, h.outcome_of_show hitem hmin hmax (hshow pageIdx _)⟩

theorem Holds.to_pagesOut (h : Holds bytes state t)
    (hkind : (t.fields.get RootField.to).kind ≠ .byte) :
    PagesOut zx bytes state 3 zx.pageStringExt (t.fields.get RootField.to).payload := by
  have hitem : t.item 3 = some (ascii "To", .page (t.fields.get RootField.to)) := rfl
  refine h.pagesOut hitem fun pageIdx value => ?_
  simp only [Rendering.show, pagedBytes_of_ne hkind]

theorem Holds.data_pagesOut (h : Holds bytes state t) (hvalid : t.Valid zx)
    (hkind : (t.fields.get RootField.data).kind ≠ .byte)
    (hpayload : (t.fields.get RootField.data).payload ≠ []) :
    PagesOut zx bytes state 5 (dataPager zx (u8 t.number))
      (t.fields.get RootField.data).payload := by
  have hitem : t.item 5 = some (ascii "Data", .data (t.fields.get RootField.data)) := rfl
  refine h.pagesOut hitem fun pageIdx value => ?_
  rw [hvalid.show_data, orEmpty_of_content hkind hpayload, pagedBytes_of_ne hkind]

theorem Holds.recipient_pagesOut (h : Holds bytes state t) {displayIdx : Nat} {key : List UInt8}
    {piece : Piece} (hitem : t.item displayIdx = some (key, .recipientPage piece))
    (hkind : piece.kind ≠ .byte) (hpayload : piece.payload ≠ []) :
    PagesOut zx bytes state displayIdx zx.pageStringExt piece.payload := by
  refine h.pagesOut hitem fun pageIdx value => ?_
  simp only [Rendering.show, orEmpty_of_content hkind hpayload, pagedBytes_of_ne hkind]

/-- Every text of at least two bytes is shown whole. -/
structure WholeShown (zx : Zxlib) (bytes : List UInt8) (state : ParserState) (t : Transaction) :
    Prop where
  toField : 2 ≤ (t.fields.get RootField.to).payload.length →
    TextShown zx bytes state 3 (t.fields.get RootField.to).payload
  dataField : 2 ≤ (t.fields.get RootField.data).payload.length →
    TextShown zx bytes state 5
      (dataChars state.txObj.extraTxType (t.fields.get RootField.data).payload)
  recipientTo : ∀ i r, t.recipients[i]? = some r → 2 ≤ r.toItem.payload.length →
    TextShown zx bytes state (12 + 3 * i) r.toItem.payload
  recipientPayload : ∀ i r, t.recipients[i]? = some r → 2 ≤ r.payload.payload.length →
    TextShown zx bytes state (14 + 3 * i) r.payload.payload

/-- Every text of at least two bytes can be paged. -/
structure Transaction.AllPageable (textWidth hexWidth : Nat → Nat) (t : Transaction) : Prop where
  toField : 2 ≤ (t.fields.get RootField.to).payload.length →
    Pageable textWidth (t.fields.get RootField.to).payload
  dataField : 2 ≤ (t.fields.get RootField.data).payload.length →
    Pageable (dataWidth textWidth hexWidth (u8 t.number))
      (dataChars (u8 t.number) (t.fields.get RootField.data).payload)
  recipients : ∀ r ∈ t.recipients, ∀ text ∈ [r.toItem, r.payload], 2 ≤ text.payload.length →
    Pageable textWidth text.payload

theorem ne_nil_of_two_le {text : List UInt8} (h : 2 ≤ text.length) : text ≠ [] := by
  rintro rfl
  exact absurd h (by decide)

theorem Holds.wholeShown_iff (h : Holds bytes state t) (hvalid : t.Valid zx)
    (hpages : zx.Pages textWidth hexWidth) :
    WholeShown zx bytes state t ↔ t.AllPageable textWidth hexWidth := by
  have hfield (i : Fin rootFieldCount) (hlong : 2 ≤ (t.fields.get i).payload.length) :
      (t.fields.get i).kind ≠ .byte :=
    readItems_kind_ne_byte t.root_items
      (Vector.mem_toList_iff.mpr (Vector.getElem_mem i.isLt)) hlong
  have hto (hlong : 2 ≤ (t.fields.get RootField.to).payload.length) :
      TextShown zx bytes state 3 (t.fields.get RootField.to).payload ↔ _ :=
    (h.to_pagesOut (hfield _ hlong)).textShown_iff hpages.ext
  have hdata (hlong : 2 ≤ (t.fields.get RootField.data).payload.length) :
      TextShown zx bytes state 5
        (dataChars (u8 t.number) (t.fields.get RootField.data).payload) ↔ _ :=
    (h.data_pagesOut hvalid (hfield _ hlong) (ne_nil_of_two_le hlong)).textShown_iff
      (dataPager_pages hpages _)
  have hrecipient {displayIdx : Nat} {key : List UInt8} {piece : Piece} {r : Recipient}
      (hitem : t.item displayIdx = some (key, .recipientPage piece))
      (hmem : piece ∈ [r.toItem, r.amount, r.payload]) (hlong : 2 ≤ piece.payload.length) :
      TextShown zx bytes state displayIdx piece.payload ↔ Pageable textWidth piece.payload :=
    (h.recipient_pagesOut hitem (readItems_kind_ne_byte r.items_eq hmem hlong)
      (ne_nil_of_two_le hlong)).textShown_iff hpages.ext
  -- the texts of a recipient stand at the first and the third of its indices
  have hrto {i : Nat} {r : Recipient} (hr : t.recipients[i]? = some r)
      (hlong : 2 ≤ r.toItem.payload.length) :
      TextShown zx bytes state (12 + 3 * i) r.toItem.payload ↔ _ :=
    hrecipient (r := r) (Transaction.item_recipient hr (by decide : 0 < 3)) (by simp) hlong
  have hrpayload {i : Nat} {r : Recipient} (hr : t.recipients[i]? = some r)
      (hlong : 2 ≤ r.payload.payload.length) :
      TextShown zx bytes state (14 + 3 * i) r.payload.payload ↔ _ :=
    hrecipient (r := r) (by
      rw [Nat.add_right_comm 12 2]
      exact Transaction.item_recipient hr (by decide : 2 < 3)) (by simp) hlong
  constructor
  · intro hshown
    refine ⟨fun hlong => (hto hlong).mp (hshown.toField hlong), fun hlong => ?_, fun r hr => ?_⟩
    · rw [← hdata hlong, ← h.views.extraTxType]
      exact hshown.dataField hlong
    · obtain ⟨i, hi⟩ := List.mem_iff_getElem?.mp hr
      simp only [List.mem_cons, List.not_mem_nil, or_false, forall_eq_or_imp, forall_eq]
      exact ⟨fun hlong => (hrto hi hlong).mp (hshown.recipientTo i r hi hlong),
        fun hlong => (hrpayload hi hlong).mp (hshown.recipientPayload i r hi hlong)⟩
  · intro hall
    refine ⟨fun hlong => (hto hlong).mpr (hall.toField hlong), fun hlong => ?_, ?_, ?_⟩
    · rw [h.views.extraTxType]
      exact (hdata hlong).mpr (hall.dataField hlong)
    · intro i r hi hlong
      exact (hrto hi hlong).mpr
        (hall.recipients r (List.mem_of_getElem? hi) _ (by simp) hlong)
    · intro i r hi hlong
      exact (hrpayload hi hlong).mpr
        (hall.recipients r (List.mem_of_getElem? hi) _ (by simp) hlong)

/-- The texts are shown whole exactly when the pages of each can be counted in one
byte and none has a zero byte. -/
theorem wholeShown_iff_allPageable (hpages : zx.Pages textWidth hexWidth)
    (h : Accepted zx bytes state) : ∃ t, t.Decodes (seen bytes) ∧
      (WholeShown zx bytes state t ↔ t.AllPageable textWidth hexWidth) := by
  obtain ⟨t, hholds, hvalid⟩ := h.exists_holds
  exact ⟨t, hholds.decodes, hholds.wholeShown_iff hvalid hpages⟩

theorem wholeShown_iff_allPageable_oneRecipient : ∃ t, t.Decodes (seen oneRecipient) ∧
    (WholeShown Zxlib.reference oneRecipient (parsedState oneRecipient) t ↔
      t.AllPageable (· - 1) fun outLen => (outLen - 1) / 2 * 2) :=
  wholeShown_iff_allPageable Zxlib.reference_pages oneRecipient_accepted

/-- A transaction with 4846 bytes of data, which are 256 pages. -/
def longData : List UInt8 :=
  [0xf9, 0x13, 0x01, 0x80, 0x80, 0x80, 0x80, 0x80, 0xb9, 0x12, 0xee] ++
    List.replicate 4846 0x41 ++
    [0x03, 0x80, 0x80, 0x80, 0x80, 0x80, 0xc4, 0xc3, 0x80, 0x80, 0xc0]

/-- It is accepted, and none of its data is shown. -/
theorem longData_not_shown : Accepted Zxlib.reference longData (parsedState longData) ∧
    ∀ t : Transaction, t.Decodes (seen longData) →
      ¬ WholeShown Zxlib.reference longData (parsedState longData) t := by
  have hrun : ((parserParse longData (some 0) longData.length).outcome .initial =
        .done () (parsedState longData) ∧
      (parserValidate Zxlib.reference longData (parsedState longData)).outcome () =
        .done () ()) ∧
      ((parsedState longData).txObj.fields.get RootField.data).contentLength = 4846 ∧
      ((parserGetItem Zxlib.reference longData (parsedState longData) 5 0).outcome
        ⟨List.replicate 40 0, List.replicate 40 0, 0⟩).state.pageCount = 0 ∧
      (parsedState longData).txObj.extraTxType = 0 := by decide +kernel
  obtain ⟨⟨hparsed, hvalidated⟩, hcontent, hcount, htype⟩ := hrun
  have haccepted : Accepted Zxlib.reference longData (parsedState longData) :=
    ⟨⟨.initial, hparsed⟩, hvalidated⟩
  refine ⟨haccepted, fun t ht hshown => ?_⟩
  obtain ⟨hholds, -⟩ := haccepted.holds ht
  have hstands : ((parsedState longData).txObj.fields.get RootField.data).Stands _ _ _
      (t.fields.get RootField.data) :=
    hholds.views.fields_stands RootField.data.val RootField.data.isLt
  have hlong : (t.fields.get RootField.data).payload.length = 4846 := by
    rw [← hstands.contentLength_eq, hcontent]
  obtain ⟨-, htext⟩ := hshown.dataField (by rw [hlong]; decide)
    ⟨List.replicate 40 0, List.replicate 40 0, 0⟩ (by decide) (by decide)
  rw [itemText, hcount, htype] at htext
  have hlength := congrArg List.length htext
  rw [dataChars, if_neg (by decide), hexText_length, hlong] at hlength
  cases hlength

end Whole

/-! ## Empty or not -/

section Reported

variable {zx : Zxlib} {bytes : List UInt8} {state : ParserState} {t : Transaction}
  {textWidth hexWidth : Nat → Nat}

/-- The item at an index has a page, its first page is blank or `Empty` just when
there is no content, and content of one byte is shown. -/
structure Reported (zx : Zxlib) (bytes : List UInt8) (state : ParserState) (displayIdx : Nat)
    (chars : List UInt8 → List UInt8) (piece : Piece) : Prop where
  hasPage : ∀ d pageIdx, 40 ≤ d.outVal.length → d.outVal.length < 2 ^ 16 → ∃ d',
    (parserGetItem zx bytes state displayIdx pageIdx).outcome d = .done () d' ∧ 1 ≤ d'.pageCount
  empty_iff : ∀ d d', 40 ≤ d.outVal.length → d.outVal.length < 2 ^ 16 →
    (parserGetItem zx bytes state displayIdx 0).outcome d = .done () d' →
    (cString d'.outVal = [] ∨ cString d'.outVal = ascii "Empty" ↔ piece.payload = [])
  single : ∀ d byte, 40 ≤ d.outVal.length → d.outVal.length < 2 ^ 16 → piece.payload = [byte] →
    itemText zx bytes state displayIdx d = chars [byte]

/-- The first page of the text is there, and neither starts with a zero byte nor
spells `Empty`. -/
def FirstPageTells (page : Pager) (chars : List UInt8 → List UInt8) (width : Nat → Nat)
    (text : List UInt8) : Prop :=
  ∀ outLen, 40 ≤ outLen → outLen < 2 ^ 16 →
    u8 (Paging.count (width outLen) (chars text)) ≠ 0 ∧
      pageText page chars width (clearedValue outLen) text 0 ≠ [] ∧
      pageText page chars width (clearedValue outLen) text 0 ≠ ascii "Empty"

/-- To has content, more than a byte that stands for itself, and its first page
tells so. -/
def Transaction.ToTells (zx : Zxlib) (textWidth : Nat → Nat) (t : Transaction) : Prop :=
  (t.fields.get RootField.to).kind ≠ .byte ∧ (t.fields.get RootField.to).payload ≠ [] ∧
    FirstPageTells zx.pageStringExt id textWidth (t.fields.get RootField.to).payload

/-- The data is empty, or more than a byte that stands for itself and its first
page tells so. -/
def Transaction.DataTells (zx : Zxlib) (textWidth hexWidth : Nat → Nat) (t : Transaction) :
    Prop :=
  (t.fields.get RootField.data).payload = [] ∨
    (t.fields.get RootField.data).kind ≠ .byte ∧
      FirstPageTells (dataPager zx (u8 t.number)) (dataChars (u8 t.number))
        (dataWidth textWidth hexWidth (u8 t.number)) (t.fields.get RootField.data).payload

/-- A byte has at most two characters, none of them zero when one is seen of them. -/
theorem chars_singleton {page : Pager} {chars : List UInt8 → List UInt8}
    (hchars : chars = id ∨ chars = hexText) {width : Nat → Nat} {outLen : Nat}
    (hpos : 0 < width outLen) {byte : UInt8}
    (hblank : pageText page chars width (clearedValue outLen) [byte] 0 ≠ []) :
    Paging.count (width outLen) (chars [byte]) ≤ 255 ∧
      ∀ character ∈ chars [byte], character ≠ 0 := by
  have hshort : Paging.count (width outLen) (chars [byte]) ≤ 255 := by
    rw [Paging.count_le_iff hpos]
    have hlength : (chars [byte]).length ≤ 2 := by
      rcases hchars with rfl | rfl
      · exact Nat.le_succ 1
      · rw [hexText_length, List.length_singleton]
    have hmul : 255 * 1 ≤ 255 * width outLen := Nat.mul_le_mul_left _ hpos
    omega
  refine ⟨hshort, ?_⟩
  rcases hchars with rfl | rfl
  · intro character hmem heq
    rw [id, List.mem_singleton] at hmem
    rw [pageText_cleared hshort, id, Paging.page_of_length_le hpos, ← hmem, heq] at hblank
    exact hblank (by decide)
  · intro character hmem heq
    exact zero_notMem_hexText _ (heq ▸ hmem)

/-- Content of one byte is shown, when anything is seen of it. -/
theorem PagesOut.itemText_singleton {displayIdx : Nat} {page : Pager} {byte : UInt8}
    (h : PagesOut zx bytes state displayIdx page [byte]) {chars : List UInt8 → List UInt8}
    (hchars : chars = id ∨ chars = hexText) {width : Nat → Nat}
    (hpages : Pager.Pages page chars width) {d : Display} (hmin : 3 ≤ d.outVal.length)
    (hmax : d.outVal.length < 2 ^ 16)
    (hblank : pageText page chars width (clearedValue d.outVal.length) [byte] 0 ≠ []) :
    itemText zx bytes state displayIdx d = chars [byte] := by
  have hpos : 0 < width d.outVal.length := hpages.width_pos hmin
  obtain ⟨hshort, hzero⟩ := chars_singleton hchars hpos hblank
  rw [h.itemText_eq hpages hmin hmax,
    List.flatMap_congr fun pageIdx _ => pageText_cleared hshort pageIdx]
  simp only [cString]
  rw [Paging.flatMap_takeWhile_page_eq_iff hpos, le_u8_iff]
  exact ⟨hshort, fun character hmem => decide_eq_true (hzero character hmem)⟩

/-- What is shown of content that has a page. -/
theorem PagesOut.reported_iff {displayIdx : Nat} {page : Pager} {piece : Piece}
    (h : PagesOut zx bytes state displayIdx page piece.payload) (hpayload : piece.payload ≠ [])
    {chars : List UInt8 → List UInt8} (hchars : chars = id ∨ chars = hexText)
    {width : Nat → Nat} (hpages : Pager.Pages page chars width) :
    Reported zx bytes state displayIdx chars piece ↔
      FirstPageTells page chars width piece.payload := by
  have hcount (outLen pageIdx : Nat) (hmin : 40 ≤ outLen) :
      (page (clearedValue outLen) piece.payload pageIdx).2 =
        u8 (Paging.count (width outLen) (chars piece.payload)) := by
    rw [hpages.count_eq (by rw [clearedValue_length]; omega), clearedValue_length]
  have htext (outLen : Nat) (hmin : 40 ≤ outLen)
      (hone : u8 (Paging.count (width outLen) (chars piece.payload)) ≠ 0) :
      cString (page (clearedValue outLen) piece.payload 0).1 =
        pageText page chars width (clearedValue outLen) piece.payload 0 := by
    rw [hpages.cString_eq (by rw [clearedValue_length]; omega), clearedValue_length,
      if_pos (Nat.pos_of_ne_zero hone)]
  constructor
  · -- looked at in a buffer of zeros, as the widths depend on its length alone
    intro hreported outLen hmin hmax
    have hlong : (List.replicate outLen (0 : UInt8)).length = outLen := List.length_replicate ..
    obtain ⟨key, hend⟩ := h ⟨[], List.replicate outLen 0, 0⟩ 0 (by rw [hlong]; omega)
      (by rwa [hlong])
    obtain ⟨d', hend', hpage⟩ := hreported.hasPage ⟨[], List.replicate outLen 0, 0⟩ 0
      (by rwa [hlong]) (by rwa [hlong])
    have hempty := hreported.empty_iff ⟨[], List.replicate outLen 0, 0⟩ _ (by rwa [hlong])
      (by rwa [hlong]) hend
    cases hend.symm.trans hend'
    simp only [hlong] at hpage hempty
    rw [hcount outLen 0 hmin] at hpage
    have hone : u8 (Paging.count (width outLen) (chars piece.payload)) ≠ 0 := by omega
    rw [htext outLen hmin hone] at hempty
    exact ⟨hone, not_or.mp fun hnone => hpayload (hempty.mp hnone)⟩
  · intro htells
    refine ⟨?_, ?_, ?_⟩
    · intro d pageIdx hmin hmax
      obtain ⟨key, hend⟩ := h d pageIdx (by omega) hmax
      refine ⟨_, hend, ?_⟩
      simp only [hcount _ pageIdx hmin]
      exact Nat.pos_of_ne_zero (htells _ hmin hmax).1
    · intro d d' hmin hmax hend
      obtain ⟨key, hend'⟩ := h d 0 (by omega) hmax
      cases hend.symm.trans hend'
      obtain ⟨hone, hblank, hspells⟩ := htells _ hmin hmax
      simp only [htext _ hmin hone]
      exact ⟨fun hnone => absurd hnone (not_or.mpr ⟨hblank, hspells⟩),
        fun hnil => absurd hnil hpayload⟩
    · intro d byte hmin hmax hbyte
      obtain ⟨-, hblank, -⟩ := htells _ hmin hmax
      rw [hbyte] at h hblank
      exact h.itemText_singleton hchars hpages (by omega) hmax hblank

theorem pagedBytes_of_none {piece : Piece} (h : piece.kind = .byte ∨ piece.payload = []) :
    pagedBytes piece = [] := by
  rcases h with hbyte | hnil
  · exact pagedBytes_of_byte hbyte
  · unfold pagedBytes
    split
    next => rfl
    next => exact hnil

/-- The To item has no page when its content is empty or a single byte. -/
theorem Holds.to_reported_iff (h : Holds bytes state t) (hpages : zx.Pages textWidth hexWidth) :
    Reported zx bytes state 3 id (t.fields.get RootField.to) ↔ t.ToTells zx textWidth := by
  constructor
  · intro hreported
    have hcontent : (t.fields.get RootField.to).kind ≠ .byte ∧
        (t.fields.get RootField.to).payload ≠ [] := by
      rw [← not_or]
      intro hnone
      obtain ⟨d', hend, hpage⟩ := hreported.hasPage ⟨[], List.replicate 40 0, 0⟩ 0 (by simp)
        (by simp)
      have hitem : t.item 3 = some (ascii "To", .page (t.fields.get RootField.to)) := rfl
      obtain ⟨shown, hshow, rfl⟩ :=
        (h.displaysAs hitem 0 _ d' (by simp) (by simp)).mp hend
      cases hshow
      have hlong : (clearedValue 40).length = 40 := clearedValue_length 40
      simp only [List.length_replicate, pagedBytes_of_none hnone] at hpage
      rw [hpages.ext.count_eq (by rw [hlong]; decide), id, Paging.count_nil] at hpage
      · exact absurd hpage (by decide)
      · exact hpages.ext.width_pos (by rw [hlong]; decide)
    obtain ⟨hkind, hpayload⟩ := hcontent
    exact ⟨hkind, hpayload,
      ((h.to_pagesOut hkind).reported_iff hpayload (.inl rfl) hpages.ext).mp hreported⟩
  · rintro ⟨hkind, hpayload, htells⟩
    exact ((h.to_pagesOut hkind).reported_iff hpayload (.inl rfl) hpages.ext).mpr htells

/-- The Data item shows `Empty` when its content is empty or a single byte. -/
theorem Holds.data_reported_iff (h : Holds bytes state t) (hvalid : t.Valid zx)
    (hpages : zx.Pages textWidth hexWidth) :
    Reported zx bytes state 5 (dataChars (u8 t.number)) (t.fields.get RootField.data) ↔
      t.DataTells zx textWidth hexWidth := by
  have hitem : t.item 5 = some (ascii "Data", .data (t.fields.get RootField.data)) := rfl
  have hchars : dataChars (u8 t.number) = id ∨ dataChars (u8 t.number) = hexText := by
    unfold dataChars
    split
    next => exact .inl rfl
    next => exact .inr rfl
  have hpaged (hkind : (t.fields.get RootField.data).kind ≠ .byte)
      (hpayload : (t.fields.get RootField.data).payload ≠ []) :
      Reported zx bytes state 5 (dataChars (u8 t.number)) (t.fields.get RootField.data) ↔ _ :=
    (h.data_pagesOut hvalid hkind hpayload).reported_iff hpayload hchars (dataPager_pages hpages _)
  have hempty {d : Display} (pageIdx : Nat) (hmin : 40 ≤ d.outVal.length)
      (hmax : d.outVal.length < 2 ^ 16) (hnone : (t.fields.get RootField.data).kind = .byte ∨
        (t.fields.get RootField.data).payload = []) : ∃ d',
      (parserGetItem zx bytes state 5 pageIdx).outcome d = .done () d' ∧
        cString d'.outVal = ascii "Empty" ∧ d'.pageCount = 1 := by
    refine ⟨_, h.outcome_of_show hitem (by omega) hmax (hvalid.show_data _ pageIdx _), ?_⟩
    refine orEmpty_of_none hnone _ ?_
    have hlength := Rendering.show_length (hvalid.show_data (t.fields.get RootField.data) pageIdx
      (clearedValue d.outVal.length))
    rw [orEmpty_length] at hlength
    rw [hlength, clearedValue_length]
    exact hmin
  -- nothing is reported as nothing; a byte on its own is reported as nothing too
  by_cases hpayload : (t.fields.get RootField.data).payload = []
  · refine ⟨fun _ => .inl hpayload, fun _ => ⟨?_, ?_, ?_⟩⟩
    · intro d pageIdx hmin hmax
      obtain ⟨d', hend, -, hcount⟩ := hempty pageIdx hmin hmax (.inr hpayload)
      exact ⟨d', hend, Nat.le_of_eq hcount.symm⟩
    · intro d d' hmin hmax hend
      obtain ⟨_, hend', htext, -⟩ := hempty 0 hmin hmax (.inr hpayload)
      cases hend.symm.trans hend'
      exact ⟨fun _ => hpayload, fun _ => .inr htext⟩
    · intro d byte _ _ hbyte
      rw [hpayload] at hbyte
      cases hbyte
  · by_cases hkind : (t.fields.get RootField.data).kind = .byte
    · refine ⟨fun hreported => ?_, ?_⟩
      · obtain ⟨d', hend, htext, -⟩ := hempty (d := ⟨[], List.replicate 40 0, 0⟩) 0
          (by simp) (by simp) (.inl hkind)
        exact .inl ((hreported.empty_iff _ d' (by simp) (by simp) hend).mp (.inr htext))
      · rintro (hnil | ⟨hne, -⟩)
        · exact absurd hnil hpayload
        · exact absurd hkind hne
    · rw [hpaged hkind hpayload]
      exact ⟨fun htells => .inr ⟨hkind, htells⟩, fun hor => (hor.resolve_left hpayload).2⟩

/-- The To and the Data item are reported as they are exactly when neither is a
byte that stands for itself, To is not empty, and what is not empty tells so on its
first page. -/
theorem reported_iff_firstPageTells (hpages : zx.Pages textWidth hexWidth)
    (h : Accepted zx bytes state) : ∃ t : Transaction, t.Decodes (seen bytes) ∧
      (Reported zx bytes state 3 id (t.fields.get RootField.to) ∧
        Reported zx bytes state 5 (dataChars state.txObj.extraTxType)
          (t.fields.get RootField.data) ↔
        t.ToTells zx textWidth ∧ t.DataTells zx textWidth hexWidth) := by
  obtain ⟨t, hholds, hvalid⟩ := h.exists_holds
  refine ⟨t, hholds.decodes, ?_⟩
  rw [hholds.views.extraTxType]
  exact and_congr (hholds.to_reported_iff hpages) (hholds.data_reported_iff hvalid hpages)

theorem reported_iff_firstPageTells_filled : ∃ t : Transaction, t.Decodes (seen filled) ∧
    (Reported Zxlib.reference filled (parsedState filled) 3 id (t.fields.get RootField.to) ∧
      Reported Zxlib.reference filled (parsedState filled) 5
        (dataChars (parsedState filled).txObj.extraTxType) (t.fields.get RootField.data) ↔
      t.ToTells Zxlib.reference (· - 1) ∧
        t.DataTells Zxlib.reference (· - 1) fun outLen => (outLen - 1) / 2 * 2) :=
  reported_iff_firstPageTells Zxlib.reference_pages filled_accepted

/-- A transaction whose To is the single byte of the letter A and whose data is
the single byte 5. -/
def singleBytes : List UInt8 :=
  [0xd1, 0x80, 0x80, 0x80, 0x41, 0x80, 0x05, 0x03, 0x80, 0x80, 0x80, 0x80, 0x80,
    0xc4, 0xc3, 0x80, 0x80, 0xc0]

/-- It is accepted. There is no page of To, and the data is shown as `Empty`. -/
theorem singleBytes_misreported :
    Accepted Zxlib.reference singleBytes (parsedState singleBytes) ∧
    ∀ t : Transaction, t.Decodes (seen singleBytes) →
      (t.fields.get RootField.to).payload = [0x41] ∧
      (t.fields.get RootField.data).payload = [0x05] ∧
      ¬ Reported Zxlib.reference singleBytes (parsedState singleBytes) 3 id
        (t.fields.get RootField.to) ∧
      ¬ Reported Zxlib.reference singleBytes (parsedState singleBytes) 5
        (dataChars (parsedState singleBytes).txObj.extraTxType) (t.fields.get RootField.data) := by
  have haccepted : Accepted Zxlib.reference singleBytes (parsedState singleBytes) :=
    ⟨⟨.initial, by decide +kernel⟩, by decide +kernel⟩
  refine ⟨haccepted, fun t ht => ?_⟩
  obtain ⟨hholds, hvalid⟩ := haccepted.holds ht
  have hstands (i : Fin rootFieldCount) :
      ((parsedState singleBytes).txObj.fields.get i).Stands _ _ _ (t.fields.get i) :=
    hholds.views.fields_stands i.val i.isLt
  have hto : (t.fields.get RootField.to).payload = [0x41] := by
    rw [← (hstands RootField.to).content_eq]
    decide +kernel
  have hdata : (t.fields.get RootField.data).payload = [0x05] := by
    rw [← (hstands RootField.data).content_eq]
    decide +kernel
  have htoKind : (t.fields.get RootField.to).kind = .byte := by
    rw [← (hstands RootField.to).kind_eq]
    decide +kernel
  have hdataKind : (t.fields.get RootField.data).kind = .byte := by
    rw [← (hstands RootField.data).kind_eq]
    decide +kernel
  refine ⟨hto, hdata, fun hreported => ?_, fun hreported => ?_⟩
  · exact ((hholds.to_reported_iff Zxlib.reference_pages).mp hreported).1 htoKind
  · rw [hholds.views.extraTxType] at hreported
    rcases (hholds.data_reported_iff hvalid Zxlib.reference_pages).mp hreported with hnil | hne
    · rw [hdata] at hnil
      cases hnil
    · exact hne.1 hdataKind

end Reported

end LedgerMatrix
