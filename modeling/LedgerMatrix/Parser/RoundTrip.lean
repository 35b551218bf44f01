import LedgerMatrix.Parser.Acceptance
import LedgerMatrix.Rlp.RoundTrip

/-! # Parsing what was encoded

A transaction, as its contents, and its canonical encoding. Parsing the encoding
gives the contents back.
-/

namespace LedgerMatrix

open Imperative RecursiveLength

/-- The contents of a recipient. -/
structure RecipientValue where
  toBytes : List UInt8
  amount : List UInt8
  payload : List UInt8

/-- The contents of a transaction. -/
structure TxValue where
  /-- The root fields before the extra field. -/
  fields : Vector (List UInt8) (rootFieldCount - 1)
  txType : Nat
  lockHeight : List UInt8
  recipients : List RecipientValue
  txType_le : txType ≤ txTypeSuperblock
  recipients_le : recipients.length ≤ extraListFieldCount

def RecipientValue.contents (r : RecipientValue) : List (List UInt8) :=
  [r.toBytes, r.amount, r.payload]

/-- An entry of the recipient list. -/
def RecipientValue.item (r : RecipientValue) : Item := .list (r.contents.map Item.string)

/-- The list inside the extra field. -/
def TxValue.innerItems (value : TxValue) : List Item :=
  [.string (BigEndian.bytes value.txType), .string value.lockHeight,
    .list (value.recipients.map RecipientValue.item)]

def TxValue.rootItems (value : TxValue) : List Item :=
  value.fields.toList.map Item.string ++ [.list [.list value.innerItems]]

/-- The canonical encoding of a transaction. -/
def TxValue.encode (value : TxValue) : List UInt8 := (Item.list value.rootItems).encode

theorem TxValue.rootItems_length (value : TxValue) : value.rootItems.length = rootFieldCount := by
  simp [TxValue.rootItems]

/-- What stands for the contents of a recipient. -/
structure Recipient.Has (r : Recipient) (value : RecipientValue) : Prop where
  entry : r.entry = value.item.piece
  items : [r.toItem, r.amount, r.payload] = value.contents.map stringPiece

theorem exists_recipient (value : RecipientValue) (h : value.item.encode.length < 2 ^ 16) :
    ∃ r : Recipient, r.Has value := by
  have hless : (Item.encodeAll (value.contents.map Item.string)).length <
      value.item.encode.length := Item.encodeAll_length_lt _
  have hitems : readItems extraToFieldCount value.item.piece = .ok _ :=
    readItems_encodeAll le_rfl (hless.trans h)
  exact ⟨⟨value.item.piece, stringPiece value.toBytes, stringPiece value.amount,
    stringPiece value.payload, hitems⟩, rfl, rfl⟩

theorem exists_recipients (values : List RecipientValue)
    (h : ∀ value ∈ values, value.item.encode.length < 2 ^ 16) :
    ∃ recipients : List Recipient, List.Forall₂ Recipient.Has recipients values := by
  induction values with
  | nil => exact ⟨[], .nil⟩
  | cons value values ih =>
      obtain ⟨r, hr⟩ := exists_recipient value (h value List.mem_cons_self)
      obtain ⟨recipients, hrecipients⟩ :=
        ih fun other hmem => h other (List.mem_cons_of_mem _ hmem)
      exact ⟨r :: recipients, .cons hr hrecipients⟩

/-- What stands for the contents of a transaction. -/
structure Transaction.Has (t : Transaction) (value : TxValue) : Prop where
  root : t.root = (Item.list value.rootItems).piece
  fields : t.fields.toList = value.rootItems.map Item.piece
  typeItem : t.typeItem = stringPiece (BigEndian.bytes value.txType)
  lockHeight : t.lockHeight = stringPiece value.lockHeight
  number : t.number = value.txType
  recipients : List.Forall₂ Recipient.Has t.recipients value.recipients

theorem map_entry_eq {recipients : List Recipient} {values : List RecipientValue}
    (h : List.Forall₂ Recipient.Has recipients values) :
    recipients.map Recipient.entry = (values.map RecipientValue.item).map Item.piece := by
  induction h with
  | nil => rfl
  | cons first _ ih => simp only [List.map_cons, first.entry, ih]

/-- The type of a transaction is encoded in one byte at most, and read back. -/
theorem readUInt256_txType {number : Nat} (h : number ≤ txTypeSuperblock) :
    readUInt256 (stringPiece (BigEndian.bytes number)) = .ok number := by
  have hshort : (BigEndian.bytes number).length ≤ 1 :=
    BigEndian.bytes_length_le (lt_of_le_of_lt h (by decide))
  refine readUInt256_eq_ok.mpr ⟨?_, BigEndian.value_bytes number⟩
  unfold stringPiece
  split
  next => exact .inl rfl
  next => exact .inr ⟨rfl, hshort.trans (by decide)⟩

/-- No list of a transaction is longer than its encoding. -/
structure TxValue.Sizes (value : TxValue) (limit : Nat) : Prop where
  root : (Item.encodeAll value.rootItems).length < limit
  extra : (Item.encodeAll [.list value.innerItems]).length < limit
  inner : (Item.encodeAll value.innerItems).length < limit
  recipients : (Item.encodeAll (value.recipients.map RecipientValue.item)).length < limit
  recipient : ∀ r ∈ value.recipients, r.item.encode.length < limit

theorem TxValue.sizes {value : TxValue} {limit : Nat} (h : value.encode.length < limit) :
    value.Sizes limit := by
  have hinside {items : List Item} (hlist : (Item.list items).encode.length < limit) :
      (Item.encodeAll items).length < limit := (Item.encodeAll_length_lt items).trans hlist
  have hmember {items : List Item} {item : Item} (hmem : item ∈ items)
      (hall : (Item.encodeAll items).length < limit) : item.encode.length < limit :=
    (Item.encode_length_le_of_mem hmem).trans_lt hall
  have hroot := hinside h
  have hextra := hinside (hmember (by simp [TxValue.rootItems] :
    Item.list [.list value.innerItems] ∈ value.rootItems) hroot)
  have hinner := hinside (hmember List.mem_cons_self hextra)
  have hrecipients := hinside (hmember (by simp [TxValue.innerItems] :
    Item.list (value.recipients.map RecipientValue.item) ∈ value.innerItems) hinner)
  exact ⟨hroot, hextra, hinner, hrecipients,
    fun r hr => hmember (List.mem_map_of_mem hr) hrecipients⟩

theorem TxValue.exists_fields (value : TxValue) : ∃ fields : Vector Piece rootFieldCount,
    fields.toList = value.rootItems.map Item.piece ∧
      fields.get RootField.extra = (Item.list [.list value.innerItems]).piece := by
  obtain ⟨fields, hfields⟩ := exists_vector
    ((List.length_map Item.piece).trans value.rootItems_length)
  refine ⟨fields, hfields, ?_⟩
  have hlast : fields.toList[rootFieldCount - 1]? =
      some (Item.list [.list value.innerItems]).piece := by
    rw [hfields, TxValue.rootItems, List.map_append, List.getElem?_append_right (by simp)]
    simp
  rw [Vector.getElem?_toList] at hlast
  exact Option.some.inj ((Vector.getElem?_eq_getElem (by decide)).symm.trans hlast)

/-- The items of an encoded transaction are a transaction. -/
theorem exists_transaction (value : TxValue) (h : value.encode.length < 2 ^ 16) :
    ∃ t : Transaction, t.Has value := by
  have hsizes := TxValue.sizes h
  obtain ⟨recipients, hrecipients⟩ := exists_recipients value.recipients hsizes.recipient
  obtain ⟨fields, hfields, hextra⟩ := value.exists_fields
  have hrootItems : readItems rootFieldCount (Item.list value.rootItems).piece =
      .ok fields.toList := by
    rw [hfields]
    exact readItems_encodeAll (Nat.le_of_eq value.rootItems_length) hsizes.root
  have hextraItems : readItems 1 (fields.get RootField.extra) =
      .ok [(Item.list value.innerItems).piece] := by
    rw [hextra]
    exact readItems_encodeAll le_rfl hsizes.extra
  have hinnerItems : readItems extraFieldCount (Item.list value.innerItems).piece =
      .ok [stringPiece (BigEndian.bytes value.txType), stringPiece value.lockHeight,
        (Item.list (value.recipients.map RecipientValue.item)).piece] :=
    readItems_encodeAll le_rfl hsizes.inner
  have hextraTo : recipientEntries (Item.list (value.recipients.map RecipientValue.item)).piece =
      .ok (recipients.map Recipient.entry) := by
    have hcount : (value.recipients.map RecipientValue.item).length ≤ extraListFieldCount := by
      rw [List.length_map]
      exact value.recipients_le
    have hpieces : pieces (Item.list (value.recipients.map RecipientValue.item)).piece.payload =
        some ((value.recipients.map RecipientValue.item).map Item.piece) :=
      pieces_eq_some_iff_exists.mpr
        ⟨_, takePieces_encodeAll hcount (lt_header_limit hsizes.recipients)⟩
    rw [map_entry_eq hrecipients]
    exact recipientEntries_of_pieces rfl hpieces (by rwa [List.length_map])
  exact ⟨⟨_, fields, _, _, _, _, value.txType, recipients, hrootItems, hextraItems, hinnerItems,
    readUInt256_txType value.txType_le, (Nat.mod_le _ _).trans value.txType_le, hextraTo⟩,
    rfl, hfields, rfl, rfl, rfl, hrecipients⟩

theorem Transaction.Has.decodes {t : Transaction} {value : TxValue} (h : t.Has value)
    (hlength : value.encode.length < 2 ^ 16) : t.Decodes (seen value.encode) := by
  have hroot := (Item.payload_length_le (.list value.rootItems)).trans_lt hlength
  have hnext := next_encode (lt_header_limit hroot) []
  rw [List.append_nil] at hnext
  rw [Transaction.Decodes, seen_of_lt hlength, h.root]
  exact hnext

theorem map_payload_string (contents : List (List UInt8)) :
    ((contents.map Item.string).map Item.piece).map Piece.payload = contents := by
  rw [List.map_map, List.map_map]
  exact List.map_id _

section Contents

variable {value : TxValue} {state : ParserState} {t : Transaction}

/-- The first root fields have the contents that were encoded. -/
theorem Holds.fields_contents (h : Holds value.encode state t) (hvalue : t.Has value) :
    (state.txObj.fields.toList.take (rootFieldCount - 1)).map (Rlp.content value.encode) =
      value.fields.toList := by
  obtain ⟨_, -, hlayout⟩ := h.views.fields
  rw [List.map_take, hlayout.map_content, hvalue.fields, TxValue.rootItems, List.map_append,
    List.map_append, map_payload_string, List.take_left' value.fields.length_toList]

/-- A stored entry is read again, and has the contents of the recipient. -/
theorem Holds.recipient_contents (h : Holds value.encode state t) (hvalue : t.Has value)
    (hlength : value.encode.length < 2 ^ 16) {i : Nat} {r : RecipientValue}
    (hr : value.recipients[i]? = some r) : ∃ entry items,
      state.txObj.extraToListFields.toList[i]? = some entry ∧
      (rlpReadList value.encode entry extraToFieldCount).outcome (Fields.zero extraToFieldCount) =
        .done () items ∧
      items.items.toList.map (Rlp.content value.encode) = r.contents := by
  have hcount := hvalue.recipients.length_eq
  obtain ⟨hi, rfl⟩ := List.getElem?_eq_some_iff.mp hr
  have hi' : i < t.recipients.length := hcount ▸ hi
  have hindex : i < extraListFieldCount := hi'.trans_le t.recipients_length_le
  have hstands := h.views.recipient_stands i hi' hindex
  have hentry : t.recipients[i].entry = value.recipients[i].item.piece :=
    (hvalue.recipients.get hi' hi).entry
  rw [hentry] at hstands
  have hsmall : (Item.encodeAll (value.recipients[i].contents.map Item.string)).length < 2 ^ 16 :=
    (Item.encodeAll_length_lt _).trans
      ((TxValue.sizes hlength).recipient _ (List.getElem_mem hi))
  have hthree : (value.recipients[i].contents.map Item.string).length ≤ extraToFieldCount :=
    Nat.le_of_eq rfl
  have hwidth : extraToFieldCount < 2 ^ 16 := by decide
  obtain ⟨items, rlps, left, hend, hholds, hlayout⟩ :=
    rlpReadList_encoded (u16_length_le value.encode) hstands hsmall hthree le_rfl hwidth
      (Fields.zero extraToFieldCount)
  refine ⟨_, items, ?_, hend, ?_⟩
  · rw [Vector.getElem?_toList, Vector.getElem?_eq_getElem hindex]
  · have hfull : rlps.length = extraToFieldCount := hlayout.length_eq
    rw [hholds.toList_eq hfull, hlayout.map_content, map_payload_string]

end Contents

/-- Parsing undoes the encoding of a transaction: it succeeds from every state, and
what it stores has the type, the numbers of items and the contents. -/
theorem parserParse_encode (value : TxValue) (h : value.encode.length ≤ 65535)
    (before : ParserState) : ∃ state,
      (parserParse value.encode (some 0) value.encode.length).outcome before = .done () state ∧
      state.txObj.rootFieldsItems = 13 ∧ state.txObj.extraFieldsItems = 3 ∧
      state.txObj.extraToFieldsItems = value.recipients.length ∧
      state.txObj.extraTxType = value.txType ∧
      (state.txObj.fields.toList.take 12).map (Rlp.content value.encode) = value.fields.toList ∧
      (state.txObj.extraFields.get ExtraField.txType).content value.encode =
        BigEndian.bytes value.txType ∧
      (state.txObj.extraFields.get ExtraField.lockHeight).content value.encode =
        value.lockHeight ∧
      ∀ (i : Nat) (r : RecipientValue), value.recipients[i]? = some r → ∃ entry items,
        state.txObj.extraToListFields.toList[i]? = some entry ∧
        (rlpReadList value.encode entry extraToFieldCount).outcome
          (Fields.zero extraToFieldCount) = .done () items ∧
        items.items.toList.map (Rlp.content value.encode) = r.contents := by
  have hlength : value.encode.length < 2 ^ 16 := by omega
  obtain ⟨t, hvalue⟩ := exists_transaction value hlength
  obtain ⟨state, hend, hholds⟩ := parsed_of_decodes (hvalue.decodes hlength) before
  have hviews := hholds.views
  have htype : value.txType < 2 ^ 8 := lt_of_le_of_lt value.txType_le (by decide)
  refine ⟨state, hend, hviews.rootFieldsItems, hviews.extraFieldsItems, ?_, ?_,
    hholds.fields_contents hvalue, ?_, ?_,
    fun i r hr => hholds.recipient_contents hvalue hlength hr⟩
  · rw [hviews.extraToFieldsItems, hvalue.recipients.length_eq]
  · rw [hviews.extraTxType, hvalue.number, u8, Nat.mod_eq_of_lt htype]
  · refine (hviews.extraFields_stands ExtraField.txType.val
      ExtraField.txType.isLt).content_eq.trans ?_
    exact congrArg Piece.payload hvalue.typeItem
  · refine (hviews.extraFields_stands ExtraField.lockHeight.val
      ExtraField.lockHeight.isLt).content_eq.trans ?_
    exact congrArg Piece.payload hvalue.lockHeight

/-- The contents of the test vector `Example1`. -/
def example1Value : TxValue where
  fields := #v[[0x10, 0x00, 0x00, 0x00, 0x00, 0x00, 0x08], [0x04, 0x30, 0xe2, 0x34, 0x00],
    [0x52, 0x08], ascii "MAN.2Uoz8g8jauMa2mtnwxrschj2qPJrE", [0x98, 0x96, 0x80], [], [0x03], [], [],
    [], [], [0x5c, 0x3d, 0x93, 0xc9]]
  txType := 0
  lockHeight := []
  recipients := []
  txType_le := by decide
  recipients_le := by decide

example : example1Value.encode = example1 := by decide +kernel

/-- Contents with a recipient, none of them empty. -/
def filledValue : TxValue where
  fields := #v[[0x10, 0x00, 0x00, 0x00, 0x00, 0x00, 0x08], [0x04, 0x30, 0xe2, 0x34, 0x00],
    [0x52, 0x08], ascii "MAN.2Uoz8g8jauMa2mtnwxrschj2qPJrE", [0x98, 0x96, 0x80], [0xab, 0xcd],
    [0x03], [0x05], [0xc8], [0x05], [0x01], [0x5c, 0x3d, 0x93, 0xc9]]
  txType := 3
  lockHeight := [0x12, 0x34]
  recipients := [⟨ascii "MAN.A", [0x01, 0x00], ascii "hi"⟩]
  txType_le := by decide
  recipients_le := by decide

theorem encode_filledValue : filledValue.encode = filled := by decide +kernel

/-- The entry of the recipient is read again. -/
theorem parserParse_encode_filled : ∃ state,
    (parserParse filledValue.encode (some 0) filledValue.encode.length).outcome .initial =
      .done () state ∧
    state.txObj.rootFieldsItems = 13 ∧ state.txObj.extraToFieldsItems = 1 ∧
    (state.txObj.fields.toList.take 12).map (Rlp.content filledValue.encode) =
      filledValue.fields.toList ∧
    ∃ entry items, state.txObj.extraToListFields.toList[0]? = some entry ∧
      (rlpReadList filledValue.encode entry extraToFieldCount).outcome
        (Fields.zero extraToFieldCount) = .done () items ∧
      items.items.toList.map (Rlp.content filledValue.encode) =
        [ascii "MAN.A", [0x01, 0x00], ascii "hi"] := by
  obtain ⟨state, hend, hroot, -, hto, -, hfields, -, -, hrecipients⟩ :=
    parserParse_encode filledValue (by rw [encode_filledValue]; decide) .initial
  exact ⟨state, hend, hroot, hto, hfields, hrecipients 0 _ rfl⟩

end LedgerMatrix
