import LedgerMatrix.Display.Paging
import LedgerMatrix.Parser.Acceptance

/-! # Numeric items

The items that show a number show its decimal numeral and nothing else, or
fail. Whether they fail depends only on the kind and length of the field and on
the room for the numeral.
-/

namespace LedgerMatrix

open Imperative RecursiveLength

/-- The display items that are numbers under their own key. -/
inductive NumericItem where
  | nonce
  | gasPrice
  | gasLimit
  | value
  | isEntrustTx
  | lockHeight
  deriving DecidableEq

namespace NumericItem

/-- The display index of a numeric item. -/
def index : NumericItem → Nat
  | nonce => 0
  | gasPrice => 1
  | gasLimit => 2
  | value => 4
  | isEntrustTx => 8
  | lockHeight => 11

/-- The stored field that a numeric item reads. -/
def field (v : ParserTx) : NumericItem → Rlp
  | nonce => v.fields.get RootField.nonce
  | gasPrice => v.fields.get RootField.gasPrice
  | gasLimit => v.fields.get RootField.gasLimit
  | value => v.fields.get RootField.value
  | isEntrustTx => v.fields.get RootField.isEntrustTx
  | lockHeight => v.extraFields.get ExtraField.lockHeight

/-- The item of the transaction that a numeric item shows. -/
def piece (t : Transaction) : NumericItem → Piece
  | nonce => t.fields.get RootField.nonce
  | gasPrice => t.fields.get RootField.gasPrice
  | gasLimit => t.fields.get RootField.gasLimit
  | value => t.fields.get RootField.value
  | isEntrustTx => t.fields.get RootField.isEntrustTx
  | lockHeight => t.lockHeight

theorem field_stands {mem : List UInt8} {hi : Nat} {v : ParserTx} {t : Transaction}
    (h : v.Views mem hi t) (item : NumericItem) :
    (item.field v).Stands mem 0 hi (item.piece t) := by
  cases item with
  | nonce => exact h.fields_stands 0 (by decide)
  | gasPrice => exact h.fields_stands 1 (by decide)
  | gasLimit => exact h.fields_stands 2 (by decide)
  | value => exact h.fields_stands 4 (by decide)
  | isEntrustTx => exact h.fields_stands 10 (by decide)
  | lockHeight => exact h.extraFields_stands 1 (by decide)

theorem item_eq (t : Transaction) (item : NumericItem) :
    ∃ key, t.item item.index = some (key, .number (item.piece t)) := by
  cases item <;> exact ⟨_, rfl⟩

end NumericItem

theorem showNumber_eq_ok {number : Nat} {value : List UInt8} {shown : List UInt8 × Nat} :
    showNumber number value = .ok shown ↔
      (Numeral.text 10 number).length < value.length ∧
        shown = (snprintf (Numeral.text 10 number) value, 1) := by
  unfold showNumber
  split
  next hfit =>
    refine ⟨fun h => ⟨hfit, (Except.ok.inj h).symm⟩, ?_⟩
    rintro ⟨-, rfl⟩
    rfl
  next hfit =>
    refine ⟨fun h => ?_, fun h => absurd h.1 hfit⟩
    cases h

/-- A rendered number is the numeral of a readable field that fits. -/
theorem show_number_eq_ok {zx : Zxlib} {extraTxType pageIdx : Nat} {value : List UInt8}
    {piece : Piece} {shown : List UInt8 × Nat} :
    (Rendering.number piece).show zx extraTxType pageIdx value = .ok shown ↔
      (piece.kind = .byte ∨ piece.kind = .string ∧ piece.payload.length ≤ 32) ∧
        (Numeral.text 10 (BigEndian.value piece.payload)).length < value.length ∧
        shown = (snprintf (Numeral.text 10 (BigEndian.value piece.payload)) value, 1) := by
  constructor
  · intro h
    obtain ⟨number, hread, hshow⟩ := bind_ok h
    obtain ⟨hkind, rfl⟩ := readUInt256_eq_ok.mp hread
    exact ⟨hkind, showNumber_eq_ok.mp hshow⟩
  · rintro ⟨hkind, hshow⟩
    have hread : readUInt256 piece = .ok (BigEndian.value piece.payload) :=
      readUInt256_eq_ok.mpr ⟨hkind, rfl⟩
    simp only [Rendering.show, hread, Except.bind]
    exact showNumber_eq_ok.mpr hshow

/-- The amount of a recipient can be shown when it can be read and fits. -/
theorem exists_show_recipientNumber_iff {zx : Zxlib} {extraTxType pageIdx : Nat}
    {value : List UInt8} {piece : Piece} :
    (∃ shown, (Rendering.recipientNumber piece).show zx extraTxType pageIdx value = .ok shown) ↔
      (piece.kind = .byte ∨ piece.kind = .string ∧ piece.payload.length ≤ 32) ∧
        (Numeral.text 10 (BigEndian.value piece.payload)).length < value.length := by
  constructor
  · rintro ⟨shown, h⟩
    obtain ⟨number, hread, hshow⟩ := bind_ok h
    obtain ⟨hkind, rfl⟩ := readUInt256_eq_ok.mp hread
    obtain ⟨plain, hplain, -⟩ := map_ok hshow
    exact ⟨hkind, (showNumber_eq_ok.mp hplain).1⟩
  · rintro ⟨hkind, hfit⟩
    have hread : readUInt256 piece = .ok (BigEndian.value piece.payload) :=
      readUInt256_eq_ok.mpr ⟨hkind, rfl⟩
    have hshow : showNumber (BigEndian.value piece.payload) value = .ok _ :=
      showNumber_eq_ok.mpr ⟨hfit, rfl⟩
    simp only [Rendering.show, hread, Except.bind, hshow, Except.map]
    exact ⟨_, rfl⟩

/-- A numeric item is shown exactly when its field is a byte, or a string of at
most 32 bytes, whose numeral leaves room for the terminator; and then the value
is that numeral, on one page. -/
theorem parserGetItem_numeric {zx : Zxlib} {bytes : List UInt8} {state : ParserState}
    (hparsed : Parsed bytes state) (item : NumericItem) (pageIdx : Nat) {d : Display}
    (hmin : 2 ≤ d.outVal.length) (hmax : d.outVal.length < 2 ^ 16) :
    ((∃ d', (parserGetItem zx bytes state item.index pageIdx).outcome d = .done () d') ↔
      ((item.field state.txObj).kind = .byte ∨
        (item.field state.txObj).kind = .string ∧ (item.field state.txObj).rlpLen ≤ 32) ∧
      (Numeral.text 10 (BigEndian.value ((item.field state.txObj).content bytes))).length ≤
        d.outVal.length - 1) ∧
    ∀ d', (parserGetItem zx bytes state item.index pageIdx).outcome d = .done () d' →
      (∃ rest, d'.outVal =
        Numeral.text 10 (BigEndian.value ((item.field state.txObj).content bytes)) ++ 0 :: rest) ∧
      d'.outVal.length = d.outVal.length ∧ d'.pageCount = 1 := by
  obtain ⟨t, hholds⟩ := hparsed.exists_holds
  have hstands := item.field_stands hholds.views
  obtain ⟨key, hitem⟩ := item.item_eq t
  have hwide : d.outVal.length < 2 ^ 32 := hmax.trans (by decide)
  have hkind : (item.field state.txObj).kind = .byte ∨
      (item.field state.txObj).kind = .string ∧ (item.field state.txObj).rlpLen ≤ 32 ↔
        (item.piece t).kind = .byte ∨
          (item.piece t).kind = .string ∧ (item.piece t).payload.length ≤ 32 := by
    rw [hstands.kind_eq]
    cases hcase : (item.piece t).kind with
    | byte => simp
    | string => rw [hstands.rlpLen_of_ne (by rw [hcase]; decide)]
    | list => simp
  rw [hkind, hstands.content_eq]
  have hdone (d' : Display) :
      (parserGetItem zx bytes state item.index pageIdx).outcome d = .done () d' ↔ _ :=
    (hholds.getItem_done_iff hmin hwide).trans
      ((showItem_eq_ok hitem).trans (exists_congr fun _ => and_congr_left fun _ =>
        show_number_eq_ok))
  simp only [hdone, clearedValue_length]
  constructor
  · constructor
    · rintro ⟨_, _, ⟨hreadable, hfit, -⟩, -⟩
      exact ⟨hreadable, by omega⟩
    · rintro ⟨hreadable, hfit⟩
      exact ⟨_, _, ⟨hreadable, by omega, rfl⟩, rfl⟩
  · rintro _ ⟨_, ⟨-, hfit, rfl⟩, rfl⟩
    have hfit' : (Numeral.text 10 (BigEndian.value (item.piece t).payload)).length <
        (clearedValue d.outVal.length).length := by
      rw [clearedValue_length]
      exact hfit
    refine ⟨⟨_, snprintf_of_lt hfit'⟩, ?_, rfl⟩
    rw [snprintf_length, clearedValue_length]

/-- The nonce of the test vector `Example1`, in a buffer of 40 bytes. -/
theorem parserGetItem_numeric_example1 :
    ∃ d' rest, (parserGetItem Zxlib.reference example1 (parsedState example1) 0 0).outcome
        ⟨List.replicate 40 0, List.replicate 40 0, 0⟩ = .done () d' ∧
      d'.outVal = ascii "4503599627370504" ++ 0 :: rest ∧ d'.pageCount = 1 := by
  obtain ⟨hiff, hshown⟩ := @parserGetItem_numeric Zxlib.reference _ _ example1_parsed .nonce 0
    ⟨List.replicate 40 0, List.replicate 40 0, 0⟩ (by decide) (by decide)
  obtain ⟨d', hend⟩ := hiff.mpr (by decide +kernel)
  obtain ⟨⟨rest, hvalue⟩, -, hcount⟩ := hshown d' hend
  have htext : Numeral.text 10 (BigEndian.value
      ((NumericItem.nonce.field (parsedState example1).txObj).content example1)) =
        ascii "4503599627370504" := by decide +kernel
  exact ⟨d', rest, hend, htext ▸ hvalue, hcount⟩

end LedgerMatrix
