import LedgerMatrix.Display.Validity

/-! # Smaller buffers

Validation renders values into 40 bytes, which hold numerals of up to 39 digits.
A display with fewer bytes for a value refuses some of them, so a transaction can
be valid and not displayable there.
-/

namespace LedgerMatrix

open Imperative RecursiveLength

/-- A time that can be written in 40 bytes can be written in 37 to 39. -/
def Zxlib.TimeNarrow (zx : Zxlib) : Prop :=
  ∀ out out' time, out.length = 40 → 37 ≤ out'.length → out'.length ≤ 39 →
    (zx.printTime out time).1 = true → (zx.printTime out' time).1 = true

/-- The items of a transaction that are displayed as numbers. -/
def Transaction.shownNumbers (t : Transaction) : List Piece :=
  [t.fields.get RootField.nonce, t.fields.get RootField.gasPrice,
    t.fields.get RootField.gasLimit, t.fields.get RootField.value, t.fields.get RootField.r,
    t.fields.get RootField.isEntrustTx, t.lockHeight] ++ t.recipients.map Recipient.amount

/-- Every item is shown on every page, with 40 bytes for the key and this many for
the value. -/
def ShownAt (zx : Zxlib) (bytes : List UInt8) (state : ParserState) (outValLen : Nat) : Prop :=
  ∀ numItems, (parserGetNumItems state : Parser Unit Nat).outcome () = .done numItems () →
    ∀ displayIdx < numItems, ∀ pageIdx d, d.outKey.length = 40 → d.outVal.length = outValLen →
      ∃ d', (parserGetItem zx bytes state displayIdx pageIdx).outcome d = .done () d'

section Numbers

variable {t : Transaction} {displayIdx : Nat} {key : List UInt8} {rendering : Rendering}
  {piece : Piece}

/-- What is rendered as a number is among the numbers of the transaction. -/
theorem Transaction.mem_shownNumbers (hitem : t.item displayIdx = some (key, rendering))
    (hnumber : rendering = .number piece ∨ rendering = .recipientNumber piece) :
    piece ∈ t.shownNumbers := by
  unfold Transaction.item at hitem
  split at hitem
  case h_13 index =>
    obtain ⟨r, hr, heq⟩ := Option.map_eq_some_iff.mp hitem
    refine List.mem_append_right _ (List.mem_map.mpr ⟨r, List.mem_of_getElem? hr, ?_⟩)
    unfold Recipient.item at heq
    split at heq <;> cases heq <;> rcases hnumber with hsame | hsame <;> cases hsame
    rfl
  all_goals
    refine List.mem_append_left _ ?_
    cases hitem
    rcases hnumber with hsame | hsame <;> cases hsame <;> simp

/-- Every number of the transaction is rendered at some index. -/
theorem Transaction.exists_index (h : piece ∈ t.shownNumbers) : ∃ displayIdx key rendering,
    t.item displayIdx = some (key, rendering) ∧
      (rendering = .number piece ∨ rendering = .recipientNumber piece) := by
  rcases List.mem_append.mp h with hown | hamount
  · simp only [List.mem_cons, List.not_mem_nil, or_false] at hown
    rcases hown with rfl | rfl | rfl | rfl | rfl | rfl | rfl
    · exact ⟨0, _, _, rfl, .inl rfl⟩
    · exact ⟨1, _, _, rfl, .inl rfl⟩
    · exact ⟨2, _, _, rfl, .inl rfl⟩
    · exact ⟨4, _, _, rfl, .inl rfl⟩
    · exact ⟨7, _, _, rfl, .inl rfl⟩
    · exact ⟨8, _, _, rfl, .inl rfl⟩
    · exact ⟨11, _, _, rfl, .inl rfl⟩
  · obtain ⟨r, hr, rfl⟩ := List.mem_map.mp hamount
    obtain ⟨index, hindex⟩ := List.mem_iff_getElem?.mp hr
    exact ⟨_, _, _, Transaction.item_recipient hindex (by decide : 1 < 3), .inr rfl⟩

end Numbers

section Narrow

variable {zx : Zxlib} {bytes : List UInt8} {state : ParserState} {t : Transaction}
  {displayIdx pageIdx outValLen : Nat} {key : List UInt8} {rendering : Rendering} {piece : Piece}

/-- What is rendered as a number is shown only if the numeral fits. -/
theorem fits_of_show (hnumber : rendering = .number piece ∨ rendering = .recipientNumber piece)
    {extraTxType : Nat} {value : List UInt8}
    (h : ∃ shown, rendering.show zx extraTxType pageIdx value = .ok shown) :
    (Numeral.text 10 (BigEndian.value piece.payload)).length < value.length := by
  rcases hnumber with rfl | rfl
  · obtain ⟨_, hshow⟩ := h
    exact (show_number_eq_ok.mp hshow).2.1
  · exact (exists_show_recipientNumber_iff.mp h).2

theorem text_lt_iff {number length : Nat} (hlength : 2 ≤ length) :
    (Numeral.text 10 number).length < length ↔ number < 10 ^ (length - 1) := by
  have hle : (Numeral.text 10 number).length ≤ length - 1 ↔ number < 10 ^ (length - 1) :=
    Numeral.text_length_le_iff (by decide) (by omega)
  rw [← hle]
  omega

theorem Holds.exists_getItem_iff (h : Holds bytes state t) {d : Display}
    (hitem : t.item displayIdx = some (key, rendering)) (hmin : 2 ≤ d.outVal.length)
    (hmax : d.outVal.length < 2 ^ 32) :
    (∃ d', (parserGetItem zx bytes state displayIdx pageIdx).outcome d = .done () d') ↔
      ∃ shown, rendering.show zx (u8 t.number) pageIdx (clearedValue d.outVal.length) =
        .ok shown := by
  have hdone (d' : Display) :
      (parserGetItem zx bytes state displayIdx pageIdx).outcome d = .done () d' ↔ _ :=
    (h.getItem_done_iff hmin hmax).trans (showItem_eq_ok hitem)
  simp only [hdone]
  constructor
  · rintro ⟨_, shown, hshow, -⟩
    exact ⟨shown, hshow⟩
  · rintro ⟨shown, hshow⟩
    exact ⟨_, shown, hshow, rfl⟩

/-- A validated transaction is shown in 37 to 39 bytes for a value if and only if
all its numbers leave room for the terminator there. -/
theorem shownAt_iff (h : Accepted zx bytes state) (htime : zx.TimeNarrow) (hmin : 37 ≤ outValLen)
    (hmax : outValLen ≤ 39) : ∃ t : Transaction, t.Decodes (seen bytes) ∧
      (ShownAt zx bytes state outValLen ↔
        ∀ piece ∈ t.shownNumbers, BigEndian.value piece.payload < 10 ^ (outValLen - 1)) := by
  obtain ⟨t, hholds, hvalid⟩ := h.exists_holds
  have hlength := clearedValue_length outValLen
  refine ⟨t, hholds.decodes, fun hshown piece hpiece => ?_, fun hfits => ?_⟩
  · obtain ⟨displayIdx, key, rendering, hitem, hnumber⟩ := Transaction.exists_index hpiece
    have hlt : displayIdx < displayCount + t.recipients.length * 3 := by
      rw [← Nat.not_le, ← Transaction.item_eq_none_iff, hitem]
      exact Option.some_ne_none _
    have hvalue : (List.replicate outValLen (0 : UInt8)).length = outValLen :=
      List.length_replicate ..
    have hget := hshown _ (hholds.getNumItems ()) displayIdx hlt 0
      ⟨List.replicate 40 0, List.replicate outValLen 0, 0⟩ (List.length_replicate ..) hvalue
    rw [hholds.exists_getItem_iff hitem (by simp only [hvalue]; omega)
      (by simp only [hvalue]; omega)] at hget
    simp only [hvalue] at hget
    have hfit := fits_of_show hnumber hget
    rw [hlength] at hfit
    exact (text_lt_iff (by omega)).mp hfit
  · intro numItems hcount displayIdx hlt pageIdx d hkey hvalue
    rw [hholds.getNumItems ()] at hcount
    cases hcount
    cases hitem : t.item displayIdx with
    | none =>
        have hle := Transaction.item_eq_none_iff.mp hitem
        omega
    | some entry =>
        obtain ⟨key, rendering⟩ := entry
        rw [hholds.exists_getItem_iff hitem (by omega) (by omega), hvalue]
        -- validation showed the item in 40 bytes
        refine Rendering.show_resize pageIdx ?_ ?_ (hvalid.show_ok hitem)
        · exact fun time => htime _ _ time (clearedValue_length 40) (by omega) (by omega)
        · intro piece hnumber _
          rw [hlength]
          exact (text_lt_iff (by omega)).mpr (hfits piece
            (Transaction.mem_shownNumbers hitem hnumber))

end Narrow

theorem Zxlib.reference_timeNarrow : Zxlib.reference.TimeNarrow := by
  intro out out' time _ _ _ hwritten
  simp only [Zxlib.reference, writeTime] at hwritten ⊢
  split at hwritten
  next hlt => rw [if_pos hlt]
  next => cases hwritten

theorem shownAt_iff_filled : ∃ t : Transaction, t.Decodes (seen filled) ∧
    (ShownAt Zxlib.reference filled (parsedState filled) 37 ↔
      ∀ piece ∈ t.shownNumbers, BigEndian.value piece.payload < 10 ^ (37 - 1)) :=
  shownAt_iff filled_accepted Zxlib.reference_timeNarrow (by decide) (by decide)

/-- A transaction whose nonce is 10^36, a number of 37 digits. -/
def longNonce : List UInt8 :=
  [0xe0, 0x8f, 0xc0, 0x97, 0xce, 0x7b, 0xc9, 0x07, 0x15, 0xb3, 0x4b, 0x9f, 0x10, 0x00, 0x00, 0x00,
    0x00, 0x80, 0x80, 0x80, 0x80, 0x80, 0x03, 0x80, 0x80, 0x80, 0x80, 0x80,
    0xc4, 0xc3, 0x80, 0x80, 0xc0]

theorem longNonce_accepted : Accepted Zxlib.reference longNonce (parsedState longNonce) :=
  ⟨⟨.initial, by decide +kernel⟩, by decide +kernel⟩

/-- It is validated, and its nonce cannot be shown in 37 bytes. -/
theorem longNonce_not_shown : ¬ ∀ (zx : Zxlib) (bytes : List UInt8) (state : ParserState),
    zx.TimeNarrow → Accepted zx bytes state → ∀ outValLen, 37 ≤ outValLen → outValLen ≤ 39 →
      ShownAt zx bytes state outValLen := by
  intro hall
  have hshown := hall _ _ _ Zxlib.reference_timeNarrow longNonce_accepted 37 le_rfl (by decide)
  obtain ⟨t, hholds, -⟩ := longNonce_accepted.exists_holds
  have hstands := NumericItem.nonce.field_stands hholds.views
  have hnonce : BigEndian.value (NumericItem.nonce.piece t).payload = 10 ^ 36 := by
    rw [← hstands.content_eq]
    decide +kernel
  obtain ⟨key, hitem⟩ := NumericItem.nonce.item_eq t
  have hget := hshown _ (hholds.getNumItems ()) NumericItem.nonce.index
    (Nat.lt_of_lt_of_le (by decide : NumericItem.nonce.index < displayCount)
      (Nat.le_add_right _ _)) 0 ⟨List.replicate 40 0, List.replicate 37 0, 0⟩ rfl rfl
  rw [hholds.exists_getItem_iff hitem (by decide) (by decide)] at hget
  have hfit := fits_of_show (.inl rfl) hget
  rw [clearedValue_length, List.length_replicate, text_lt_iff (by decide), hnonce] at hfit
  exact absurd hfit (Nat.lt_irrefl _)

end LedgerMatrix
