import LedgerMatrix.Display.Labels
import Mathlib.Tactic.FinCases

/-! # Lists where strings belong

The kind of an item is checked by whatever renders it. Numbers, times and the
chain id are checked; a text is not, and the fields S and enter type are never
rendered. A list in such a place is accepted, and shown as text or not at all.
-/

namespace LedgerMatrix

open Imperative RecursiveLength

/-- No list stands where the transaction has a byte string. -/
structure KindSound (t : Transaction) : Prop where
  fields : ∀ i, i ≠ RootField.extra → (t.fields.get i).kind ≠ .list
  typeItem : t.typeItem.kind ≠ .list
  lockHeight : t.lockHeight.kind ≠ .list
  recipients : ∀ r ∈ t.recipients,
    r.toItem.kind ≠ .list ∧ r.amount.kind ≠ .list ∧ r.payload.kind ≠ .list

theorem kind_ne_list_of_read {piece : Piece} {number : Nat}
    (h : readUInt256 piece = .ok number) : piece.kind ≠ .list := by
  intro hlist
  rw [readUInt256, hlist] at h
  cases h

section Kinds

variable {zx : Zxlib} {bytes : List UInt8} {state : ParserState} {t : Transaction}

/-- The renderings of numbers and times and of the chain id check the kind. -/
theorem Transaction.Valid.kind_ne_list (h : t.Valid zx) (displayIdx : Nat) {key : List UInt8}
    {rendering : Rendering} (hitem : t.item displayIdx = some (key, rendering)) {piece : Piece}
    (hrendering : rendering = .number piece ∨ rendering = .chain piece ∨
      rendering = .time piece ∨ rendering = .recipientNumber piece) : piece.kind ≠ .list := by
  obtain ⟨shown, hshow⟩ := h.show_ok hitem
  rcases hrendering with rfl | rfl | rfl | rfl
  · obtain ⟨number, hread, -⟩ := bind_ok hshow
    exact kind_ne_list_of_read hread
  · simp only [Rendering.show] at hshow
    split at hshow
    next hbyte => simp [hbyte]
    next => cases hshow
  · obtain ⟨number, hread, -⟩ := bind_ok hshow
    exact kind_ne_list_of_read hread
  · obtain ⟨number, hread, -⟩ := bind_ok hshow
    exact kind_ne_list_of_read hread

theorem Transaction.Valid.amount_ne_list (h : t.Valid zx) {r : Recipient}
    (hr : r ∈ t.recipients) : r.amount.kind ≠ .list := by
  obtain ⟨i, hi⟩ := List.mem_iff_getElem?.mp hr
  have hitem : t.item (12 + 3 * i + 1) = some (r.item i 1) :=
    Transaction.item_recipient hi (by decide)
  exact h.kind_ne_list _ hitem (.inr (.inr (.inr rfl)))

/-- No list is accepted in place of a string exactly when there is none in the
places that nothing checks: to, data, S, enter type, and the texts of the
recipients. -/
theorem kindSound_iff_unchecked (h : Accepted zx bytes state) :
    ∃ t, t.Decodes (seen bytes) ∧ (KindSound t ↔
      (t.fields.get RootField.to).kind ≠ .list ∧ (t.fields.get RootField.data).kind ≠ .list ∧
      (t.fields.get RootField.s).kind ≠ .list ∧
      (t.fields.get RootField.enterType).kind ≠ .list ∧
      ∀ r ∈ t.recipients, r.toItem.kind ≠ .list ∧ r.payload.kind ≠ .list) := by
  obtain ⟨t, hholds, hvalid⟩ := h.exists_holds
  refine ⟨t, hholds.decodes, ?_, ?_⟩
  · intro hsound
    refine ⟨hsound.fields _ (by decide), hsound.fields _ (by decide), hsound.fields _ (by decide),
      hsound.fields _ (by decide), fun r hr => ?_⟩
    obtain ⟨hto, -, hpayload⟩ := hsound.recipients r hr
    exact ⟨hto, hpayload⟩
  · rintro ⟨hto, hdata, hs, henter, hrecipients⟩
    have hnumber (displayIdx : Nat) {key : List UInt8} {piece : Piece}
        (hitem : t.item displayIdx = some (key, .number piece)) : piece.kind ≠ .list :=
      hvalid.kind_ne_list displayIdx hitem (.inl rfl)
    refine ⟨fun i hi => ?_, kind_ne_list_of_read t.type_number, hnumber 11 rfl,
      fun r hr => ?_⟩
    · fin_cases i
      · exact hnumber 0 rfl
      · exact hnumber 1 rfl
      · exact hnumber 2 rfl
      · exact hto
      · exact hnumber 4 rfl
      · exact hdata
      · exact hvalid.kind_ne_list 6 rfl (.inr (.inl rfl))
      · exact hnumber 7 rfl
      · exact hs
      · exact henter
      · exact hnumber 8 rfl
      · exact hvalid.kind_ne_list 9 rfl (.inr (.inr (.inl rfl)))
      · exact absurd rfl hi
    · obtain ⟨hrto, hrpayload⟩ := hrecipients r hr
      exact ⟨hrto, hvalid.amount_ne_list hr, hrpayload⟩

theorem kindSound_iff_unchecked_filled : ∃ t, t.Decodes (seen filled) ∧ (KindSound t ↔
    (t.fields.get RootField.to).kind ≠ .list ∧ (t.fields.get RootField.data).kind ≠ .list ∧
    (t.fields.get RootField.s).kind ≠ .list ∧ (t.fields.get RootField.enterType).kind ≠ .list ∧
    ∀ r ∈ t.recipients, r.toItem.kind ≠ .list ∧ r.payload.kind ≠ .list) :=
  kindSound_iff_unchecked filled_accepted

/-- A transaction to the list of the letters A and B. -/
def listAsTo : List UInt8 :=
  [0xd3, 0x80, 0x80, 0x80, 0xc2, 0x41, 0x42, 0x80, 0x80, 0x03, 0x80, 0x80, 0x80, 0x80, 0x80,
    0xc4, 0xc3, 0x80, 0x80, 0xc0]

/-- It is accepted. -/
theorem listAsTo_accepted_not_kindSound :
    Accepted Zxlib.reference listAsTo (parsedState listAsTo) ∧
    ∀ t : Transaction, t.Decodes (seen listAsTo) → ¬ KindSound t := by
  have haccepted : Accepted Zxlib.reference listAsTo (parsedState listAsTo) :=
    ⟨⟨.initial, by decide +kernel⟩, by decide +kernel⟩
  refine ⟨haccepted, fun t ht hsound => ?_⟩
  obtain ⟨hholds, -⟩ := haccepted.holds ht
  have hstands : ((parsedState listAsTo).txObj.fields.get RootField.to).Stands _ _ _
      (t.fields.get RootField.to) := hholds.views.fields_stands RootField.to.val RootField.to.isLt
  refine hsound.fields RootField.to (by decide) ?_
  rw [← hstands.kind_eq]
  decide +kernel

end Kinds

end LedgerMatrix
