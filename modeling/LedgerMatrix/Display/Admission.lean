import LedgerMatrix.Display.Sizes
import LedgerMatrix.Display.Labels
import LedgerMatrix.Parser.RoundTrip

/-! # What the device accepts

The verdict of `tx_parse`, told without pointers and buffers. A transaction is
accepted when the items that must be numbers are, and are small enough; everything
else is rejected with the text of what is wrong first.
-/

namespace LedgerMatrix

open Imperative RecursiveLength

/-- What the display can read as a number. -/
def Readable (piece : Piece) : Prop :=
  piece.kind = .byte ∨ piece.kind = .string ∧ piece.payload.length ≤ 32

/-- A time that can be written in 40 bytes. -/
def Zxlib.Writable (zx : Zxlib) (time : Nat) : Prop :=
  time < 2 ^ 64 ∧ (zx.printTime (clearedValue 40) (UInt64.ofNat time)).1 = true

/-- What validation asks of a transaction. -/
structure Transaction.Admissible (zx : Zxlib) (t : Transaction) : Prop where
  numbers : ∀ piece ∈ t.shownNumbers, Readable piece ∧ BigEndian.value piece.payload < 10 ^ 39
  chain : (t.fields.get RootField.v).kind = .byte
  time : Readable (t.fields.get RootField.commitTime) ∧
    zx.Writable (BigEndian.value (t.fields.get RootField.commitTime).payload)
  txType : ∃ name, typeName (u8 t.number) = some name

section Admission

variable {zx : Zxlib} {t : Transaction} {displayIdx : Nat} {key : List UInt8}
  {rendering : Rendering} {piece : Piece}

theorem Transaction.chain_of_item (hitem : t.item displayIdx = some (key, .chain piece)) :
    piece = t.fields.get RootField.v := by
  unfold Transaction.item at hitem
  split at hitem
  case h_13 index =>
    obtain ⟨r, -, heq⟩ := Option.map_eq_some_iff.mp hitem
    unfold Recipient.item at heq
    split at heq <;> cases heq
  all_goals cases hitem
  rfl

theorem Transaction.time_of_item (hitem : t.item displayIdx = some (key, .time piece)) :
    piece = t.fields.get RootField.commitTime := by
  unfold Transaction.item at hitem
  split at hitem
  case h_13 index =>
    obtain ⟨r, -, heq⟩ := Option.map_eq_some_iff.mp hitem
    unfold Recipient.item at heq
    split at heq <;> cases heq
  all_goals cases hitem
  rfl

theorem show_chain_eq_ok {extraTxType pageIdx : Nat} {value : List UInt8} :
    (∃ shown, (Rendering.chain piece).show zx extraTxType pageIdx value = .ok shown) ↔
      piece.kind = .byte := by
  simp only [Rendering.show]
  split
  next hbyte => simp [hbyte]
  next hother => simp [hother]

theorem show_time_eq_ok {extraTxType pageIdx : Nat} :
    (∃ shown, (Rendering.time piece).show zx extraTxType pageIdx (clearedValue 40) = .ok shown) ↔
      Readable piece ∧ zx.Writable (BigEndian.value piece.payload) := by
  constructor
  · rintro ⟨shown, hshow⟩
    obtain ⟨number, hread, hshow⟩ := bind_ok hshow
    obtain ⟨hreadable, rfl⟩ := readUInt256_eq_ok.mp hread
    split at hshow
    next hwritable => exact ⟨hreadable, hwritable⟩
    next => cases hshow
  · rintro ⟨hreadable, hwritable⟩
    have hread : readUInt256 piece = .ok (BigEndian.value piece.payload) :=
      readUInt256_eq_ok.mpr ⟨hreadable, rfl⟩
    simp only [Rendering.show, hread, Except.bind]
    exact ⟨_, if_pos hwritable⟩

/-- Data is shown for every type that has a label. -/
theorem show_data_of_typeName {extraTxType pageIdx : Nat} {value : List UInt8} {name : String}
    (hname : typeName extraTxType = some name) :
    ∃ shown, (Rendering.data piece).show zx extraTxType pageIdx value = .ok shown := by
  have htypes := mem_labels hname
  simp only [labels, List.mem_cons, Prod.mk.injEq, List.not_mem_nil, or_false] at htypes
  simp only [Rendering.show]
  split
  next => exact ⟨_, rfl⟩
  next htext =>
    have hhex : extraTxType = 0 ∨ extraTxType = 3 ∨ extraTxType = 4 := by omega
    exact ⟨_, if_pos hhex⟩

/-- A number that is shown in 40 bytes has at most 39 digits. -/
theorem show_shownNumber {extraTxType pageIdx : Nat}
    (hnumber : rendering = .number piece ∨ rendering = .recipientNumber piece) :
    (∃ shown, rendering.show zx extraTxType pageIdx (clearedValue 40) = .ok shown) ↔
      Readable piece ∧ BigEndian.value piece.payload < 10 ^ 39 := by
  have hfit : (Numeral.text 10 (BigEndian.value piece.payload)).length <
      (clearedValue 40).length ↔ BigEndian.value piece.payload < 10 ^ 39 := by
    rw [clearedValue_length]
    exact text_lt_iff (by decide)
  rcases hnumber with rfl | rfl
  · simp only [show_number_eq_ok, hfit, Readable, exists_and_left, exists_eq, and_true]
  · rw [exists_show_recipientNumber_iff, hfit, Readable]

/-- Validation renders every item, and fails exactly on those that are not as they
must be. -/
theorem Transaction.valid_iff : t.Valid zx ↔ t.Admissible zx := by
  constructor
  · intro hvalid
    refine ⟨fun piece hpiece => ?_, ?_, ?_, hvalid.typeName_isSome⟩
    · obtain ⟨displayIdx, key, rendering, hitem, hnumber⟩ := Transaction.exists_index hpiece
      exact (show_shownNumber hnumber).mp (hvalid.show_ok hitem)
    · have hitem : t.item 6 = some (ascii "ChainID", .chain (t.fields.get RootField.v)) := rfl
      exact show_chain_eq_ok.mp (hvalid.show_ok hitem)
    · have hitem : t.item 9 =
          some (ascii "CommitTime", .time (t.fields.get RootField.commitTime)) := rfl
      exact show_time_eq_ok.mp (hvalid.show_ok hitem)
  · intro hadmissible displayIdx hlt
    obtain ⟨name, hname⟩ := hadmissible.txType
    cases hitem : t.item displayIdx with
    | none => exact absurd hlt (Nat.not_lt.mpr (Transaction.item_eq_none_iff.mp hitem))
    | some entry =>
        obtain ⟨key, rendering⟩ := entry
        have hshown : ∃ shown,
            rendering.show zx (u8 t.number) 0 (clearedValue 40) = .ok shown := by
          cases rendering with
          | number piece =>
              exact (show_shownNumber (.inl rfl)).mpr
                (hadmissible.numbers _ (Transaction.mem_shownNumbers hitem (.inl rfl)))
          | page piece => exact ⟨_, rfl⟩
          | data piece => exact show_data_of_typeName hname
          | chain piece =>
              obtain rfl := Transaction.chain_of_item hitem
              exact show_chain_eq_ok.mpr hadmissible.chain
          | time piece =>
              obtain rfl := Transaction.time_of_item hitem
              exact show_time_eq_ok.mpr hadmissible.time
          | txType => exact ⟨_, show_txType_eq_ok.mpr ⟨name, hname, rfl⟩⟩
          | recipientPage piece => exact ⟨_, rfl⟩
          | recipientNumber piece =>
              exact (show_shownNumber (.inr rfl)).mpr
                (hadmissible.numbers _ (Transaction.mem_shownNumbers hitem (.inr rfl)))
        obtain ⟨shown, hshown⟩ := hshown
        exact ⟨_, (showItem_eq_ok hitem).mpr ⟨shown, hshown, rfl⟩⟩

end Admission

/-! ## The verdict -/

/-- What is wrong with bytes, told without pointers: the code of what stops the
reading, or else that of the first item that cannot be shown in 40 bytes. -/
def verdict (zx : Zxlib) (bytes : List UInt8) : Option ParserError :=
  match Transaction.ofBytes bytes with
  | .error code => some code
  | .ok t => t.firstError zx (displayCount + t.recipients.length * 3) 0

theorem verdict_of_decodes {zx : Zxlib} {bytes : List UInt8} {t : Transaction}
    (h : t.Decodes bytes) :
    verdict zx bytes = t.firstError zx (displayCount + t.recipients.length * 3) 0 := by
  rw [verdict, Transaction.ofBytes_eq_ok.mpr h]

theorem verdict_eq_none_iff {zx : Zxlib} {bytes : List UInt8} :
    verdict zx bytes = none ↔ ∃ t : Transaction, t.Decodes bytes ∧ t.Admissible zx := by
  constructor
  · intro h
    cases hread : Transaction.ofBytes bytes with
    | error code =>
        rw [verdict, hread] at h
        cases h
    | ok t =>
        have ht := Transaction.ofBytes_eq_ok.mp hread
        rw [verdict_of_decodes ht, ← Transaction.valid_iff_firstError, Transaction.valid_iff] at h
        exact ⟨t, ht, h⟩
  · rintro ⟨t, ht, hadmissible⟩
    rw [verdict_of_decodes ht, ← Transaction.valid_iff_firstError, Transaction.valid_iff]
    exact hadmissible

section Parsing

variable {zx : Zxlib} {buffer : List UInt8} {before : ParserState}

/-- `tx_parse` returns the text of the verdict. -/
theorem wp_txParse_verdict {post : Option String → ParserState → Prop}
    (hpost : ∀ state, post ((verdict zx (seen buffer)).map parserGetErrorDescription) state) :
    (txParse zx buffer).wp Event.Good before post (fun _ _ => False) := by
  simp only [txParse, Command.wp_handle, Command.wp_bind]
  apply wp_parserParse_ofBytes
  · intro t v ht hviews
    have hholds : Holds buffer
        ⟨⟨some 0, u16 buffer.length, u16 buffer.length, true⟩, v⟩ t := ⟨ht, rfl, hviews⟩
    simp only [verdict_of_decodes ht] at hpost
    simp only [Command.wp_read, Command.wp_zoom]
    apply wp_parserValidate_firstError hholds
    · intro hvalid
      simp only [Transaction.valid_iff_firstError.mp hvalid] at hpost
      exact (Command.wp_pure _).mpr (hpost _)
    · intro code hfirst
      simp only [hfirst] at hpost
      exact (Command.wp_pure _).mpr (hpost _)
  · intro code state herror
    simp only [verdict, herror] at hpost
    exact (Command.wp_pure _).mpr (hpost _)

/-- Whatever was parsed before, `tx_parse` ends with the text of the verdict. -/
theorem txParse_verdict (zx : Zxlib) (buffer : List UInt8) (before : ParserState) :
    ∃ state, (txParse zx buffer).outcome before =
      .done ((verdict zx (seen buffer)).map parserGetErrorDescription) state := by
  have hparse : (txParse zx buffer).wp Event.Good before
      (fun result _ => result = (verdict zx (seen buffer)).map parserGetErrorDescription)
      (fun _ _ => False) := wp_txParse_verdict fun _ => rfl
  obtain ⟨_, state, hend, rfl⟩ := hparse.exists_done
  exact ⟨state, hend⟩

/-- `tx_parse` returns no text exactly on the transactions that are as they must
be, whatever was parsed before, and returns a text on everything else. -/
theorem txParse_accepts_iff (zx : Zxlib) (buffer : List UInt8) (before : ParserState) :
    ∃ result state, (txParse zx buffer).outcome before = .done result state ∧
      (result = none ↔ ∃ t : Transaction, t.Decodes (seen buffer) ∧ t.Admissible zx) := by
  have hparse : (txParse zx buffer).wp Event.Good before
      (fun result _ => result = none ↔
        ∃ t : Transaction, t.Decodes (seen buffer) ∧ t.Admissible zx)
      (fun _ _ => False) := by
    apply wp_txParse_verdict
    intro _
    rw [Option.map_eq_none_iff, verdict_eq_none_iff]
  obtain ⟨result, state, hend, hiff⟩ := hparse.exists_done
  exact ⟨result, state, hend, hiff⟩

end Parsing

/-! ## Encoded contents -/

section Contents

variable {zx : Zxlib} {value : TxValue} {t : Transaction}

/-- The contents that are displayed as numbers. -/
def TxValue.shownNumbers (value : TxValue) : List (List UInt8) :=
  [value.fields.get (RootField.nonce.castLT (by decide)),
    value.fields.get (RootField.gasPrice.castLT (by decide)),
    value.fields.get (RootField.gasLimit.castLT (by decide)),
    value.fields.get (RootField.value.castLT (by decide)),
    value.fields.get (RootField.r.castLT (by decide)),
    value.fields.get (RootField.isEntrustTx.castLT (by decide)), value.lockHeight] ++
    value.recipients.map RecipientValue.amount

/-- The contents that the device accepts: numbers of at most 32 bytes and 39
digits, a chain id of one byte below 128, a time that can be written, and a type
with a label. The other contents may be anything. -/
structure TxValue.Displayable (zx : Zxlib) (value : TxValue) : Prop where
  numbers : ∀ content ∈ value.shownNumbers,
    content.length ≤ 32 ∧ BigEndian.value content < 10 ^ 39
  chain : StandsForItself (value.fields.get (RootField.v.castLT (by decide)))
  time : (value.fields.get (RootField.commitTime.castLT (by decide))).length ≤ 32 ∧
    zx.Writable (BigEndian.value (value.fields.get (RootField.commitTime.castLT (by decide))))
  txType : ∃ name, typeName value.txType = some name

theorem readable_stringPiece {content : List UInt8} :
    Readable (stringPiece content) ↔ content.length ≤ 32 := by
  unfold Readable stringPiece
  split
  next hself =>
    obtain ⟨byte, -, rfl⟩ := hself
    simp
  next => simp

theorem stringPiece_kind_eq_byte {content : List UInt8} :
    (stringPiece content).kind = .byte ↔ StandsForItself content :=
  stringPiece_proper content (by unfold stringPiece; split <;> simp)

/-- A root field before the extra field stands for its contents. -/
theorem Transaction.Has.field_eq (h : t.Has value) (i : Fin rootFieldCount)
    (hi : i.val < rootFieldCount - 1) :
    t.fields.get i = stringPiece (value.fields.get (i.castLT hi)) := by
  have hfield : t.fields.toList[i.val]? = some (stringPiece (value.fields.get (i.castLT hi))) := by
    rw [h.fields, TxValue.rootItems, List.map_append, List.getElem?_append_left
      (by simpa using hi), List.getElem?_map, List.getElem?_map, Vector.getElem?_toList,
      Vector.getElem?_eq_getElem hi]
    rfl
  rw [Vector.getElem?_toList, Vector.getElem?_eq_getElem i.isLt] at hfield
  exact Option.some.inj hfield

theorem map_amount_eq {recipients : List Recipient} {values : List RecipientValue}
    (h : List.Forall₂ Recipient.Has recipients values) :
    recipients.map Recipient.amount = (values.map RecipientValue.amount).map stringPiece := by
  induction h with
  | nil => rfl
  | cons first _ ih =>
      have hitems := first.items
      simp only [RecipientValue.contents, List.map_cons, List.map_nil, List.cons.injEq,
        and_true] at hitems
      simp only [List.map_cons, hitems.2.1, ih]

theorem Transaction.Has.shownNumbers_eq (h : t.Has value) :
    t.shownNumbers = value.shownNumbers.map stringPiece := by
  have hfield (i : Fin rootFieldCount) (hi : i.val < rootFieldCount - 1) := h.field_eq i hi
  simp only [Transaction.shownNumbers, TxValue.shownNumbers, List.map_append, List.map_cons,
    List.map_nil, map_amount_eq h.recipients, h.lockHeight]
  rw [hfield RootField.nonce (by decide), hfield RootField.gasPrice (by decide),
    hfield RootField.gasLimit (by decide), hfield RootField.value (by decide),
    hfield RootField.r (by decide), hfield RootField.isEntrustTx (by decide)]

theorem Transaction.Has.admissible_iff (h : t.Has value) :
    t.Admissible zx ↔ value.Displayable zx := by
  have hnumbers : (∀ piece ∈ t.shownNumbers,
      Readable piece ∧ BigEndian.value piece.payload < 10 ^ 39) ↔
        ∀ content ∈ value.shownNumbers,
          content.length ≤ 32 ∧ BigEndian.value content < 10 ^ 39 := by
    rw [h.shownNumbers_eq, List.forall_mem_map]
    simp only [readable_stringPiece]
    rfl
  have hchain := h.field_eq RootField.v (by decide)
  have htime := h.field_eq RootField.commitTime (by decide)
  have htype : u8 value.txType = value.txType :=
    Nat.mod_eq_of_lt (lt_of_le_of_lt value.txType_le (by decide))
  constructor
  · rintro ⟨hall, hbyte, hwritten, hlabel⟩
    rw [hchain, stringPiece_kind_eq_byte] at hbyte
    rw [htime, readable_stringPiece] at hwritten
    rw [h.number, htype] at hlabel
    exact ⟨hnumbers.mp hall, hbyte, hwritten, hlabel⟩
  · rintro ⟨hall, hbyte, hwritten, hlabel⟩
    rw [← stringPiece_kind_eq_byte, ← hchain] at hbyte
    rw [← readable_stringPiece, ← htime] at hwritten
    rw [← htype, ← h.number] at hlabel
    refine ⟨hnumbers.mpr hall, hbyte, ⟨hwritten.1, ?_⟩, hlabel⟩
    rw [htime]
    exact hwritten.2

/-- The encoding of contents is accepted exactly when the contents can be
displayed. -/
theorem txParse_encode_iff (zx : Zxlib) (value : TxValue) (h : value.encode.length ≤ 65535)
    (before : ParserState) :
    ∃ result state, (txParse zx value.encode).outcome before = .done result state ∧
      (result = none ↔ value.Displayable zx) := by
  have hlength : value.encode.length < 2 ^ 16 := by omega
  obtain ⟨t, hvalue⟩ := exists_transaction value hlength
  have ht := hvalue.decodes hlength
  have hparse : (txParse zx value.encode).wp Event.Good before
      (fun result _ => result = none ↔ value.Displayable zx) (fun _ _ => False) := by
    apply wp_txParse_verdict
    intro _
    rw [Option.map_eq_none_iff, verdict_of_decodes ht, ← Transaction.valid_iff_firstError,
      Transaction.valid_iff, hvalue.admissible_iff]
  obtain ⟨result, state, hend, hiff⟩ := hparse.exists_done
  exact ⟨result, state, hend, hiff⟩

theorem txParse_encode_filled : ∃ result state,
    (txParse Zxlib.reference filledValue.encode).outcome .initial = .done result state ∧
      (result = none ↔ filledValue.Displayable Zxlib.reference) :=
  txParse_encode_iff Zxlib.reference filledValue
    (by rw [encode_filledValue]; decide) .initial

end Contents

end LedgerMatrix
