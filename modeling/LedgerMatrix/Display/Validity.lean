import LedgerMatrix.Display.Numbers
import LedgerMatrix.Tx.Basic

/-! # What validation is worth

Validation renders the first page of every item into buffers of 40 bytes. That is
enough for every page and every larger buffer: a number that fits stays fitting,
the kind of an item does not change, and the pagers cannot fail.
-/

namespace LedgerMatrix

open Imperative RecursiveLength

/-- Whether a time can be written does not depend on the buffer, once it has 40
bytes. -/
def Zxlib.TimeStable (zx : Zxlib) : Prop :=
  ∀ out out' time, 40 ≤ out.length → 40 ≤ out'.length →
    (zx.printTime out time).1 = (zx.printTime out' time).1

section Renderings

variable {zx : Zxlib} {extraTxType pageIdx : Nat} {value value' : List UInt8}
  {rendering : Rendering}

/-- What can be shown in one buffer can be shown in another, on every page, when a
number that fits the one fits the other and a time can be written there too. -/
theorem Rendering.show_resize (pageIdx' : Nat)
    (htime : ∀ time, (zx.printTime value time).1 = true → (zx.printTime value' time).1 = true)
    (hfits : ∀ piece, rendering = .number piece ∨ rendering = .recipientNumber piece →
      (Numeral.text 10 (BigEndian.value piece.payload)).length < value.length →
        (Numeral.text 10 (BigEndian.value piece.payload)).length < value'.length)
    (h : ∃ shown, rendering.show zx extraTxType pageIdx value = .ok shown) :
    ∃ shown, rendering.show zx extraTxType pageIdx' value' = .ok shown := by
  cases rendering with
  | number piece =>
      obtain ⟨_, hshow⟩ := h
      obtain ⟨hkind, hfit, -⟩ := show_number_eq_ok.mp hshow
      exact ⟨_, show_number_eq_ok.mpr ⟨hkind, hfits piece (.inl rfl) hfit, rfl⟩⟩
  | page piece => exact ⟨_, rfl⟩
  | data piece =>
      obtain ⟨_, hshow⟩ := h
      simp only [Rendering.show] at hshow ⊢
      split at hshow
      next htext =>
        rw [if_pos htext]
        exact ⟨_, rfl⟩
      next htext =>
        rw [if_neg htext]
        split at hshow
        next hhex =>
          rw [if_pos hhex]
          exact ⟨_, rfl⟩
        next => cases hshow
  | chain piece =>
      obtain ⟨_, hshow⟩ := h
      simp only [Rendering.show] at hshow ⊢
      split at hshow
      next hkind =>
        rw [if_pos hkind]
        exact ⟨_, rfl⟩
      next => cases hshow
  | time piece =>
      obtain ⟨_, hshow⟩ := h
      obtain ⟨number, hnumber, hshow⟩ := bind_ok hshow
      simp only [Rendering.show, hnumber, Except.bind]
      split at hshow
      next hwritten =>
        rw [if_pos ⟨hwritten.1, htime _ hwritten.2⟩]
        exact ⟨_, rfl⟩
      next => cases hshow
  | txType =>
      obtain ⟨_, hshow⟩ := h
      simp only [Rendering.show] at hshow ⊢
      split at hshow
      next name hname => exact ⟨_, rfl⟩
      next => cases hshow
  | recipientPage piece => exact ⟨_, rfl⟩
  | recipientNumber piece =>
      obtain ⟨_, hshow⟩ := h
      obtain ⟨hkind, hfit⟩ := exists_show_recipientNumber_iff.mp ⟨_, hshow⟩
      exact exists_show_recipientNumber_iff.mpr ⟨hkind, hfits piece (.inr rfl) hfit⟩

/-- What can be shown in a buffer of at least 40 bytes can be shown in a larger
one, on every page. -/
theorem Rendering.show_mono (pageIdx' : Nat) (htime : zx.TimeStable) (hmin : 40 ≤ value.length)
    (hle : value.length ≤ value'.length)
    (h : ∃ shown, rendering.show zx extraTxType pageIdx value = .ok shown) :
    ∃ shown, rendering.show zx extraTxType pageIdx' value' = .ok shown := by
  refine Rendering.show_resize pageIdx' ?_ (fun _ _ hfit => hfit.trans_le hle) h
  intro time hwritten
  rwa [← htime value value' time hmin (hmin.trans hle)]

end Renderings

section Validated

variable {zx : Zxlib} {bytes : List UInt8} {state : ParserState} {t : Transaction}

/-- Every item of a valid transaction is shown on every page, in all buffers of at
least 40 bytes. -/
theorem Transaction.Valid.showItem_ok (h : t.Valid zx) (htime : zx.TimeStable)
    {displayIdx pageIdx outKeyLen outValLen : Nat}
    (hlt : displayIdx < displayCount + t.recipients.length * 3) (hmin : 40 ≤ outValLen) :
    ∃ d, t.showItem zx displayIdx pageIdx outKeyLen outValLen = .ok d := by
  cases hitem : t.item displayIdx with
  | none =>
      have hle := Transaction.item_eq_none_iff.mp hitem
      omega
  | some entry =>
      have hsmall : 40 ≤ (clearedValue 40).length := Nat.le_of_eq (clearedValue_length 40).symm
      have hlarge : (clearedValue 40).length ≤ (clearedValue outValLen).length := by
        rw [clearedValue_length, clearedValue_length]
        exact hmin
      obtain ⟨shown, hshown⟩ := Rendering.show_mono pageIdx htime hsmall hlarge (h.show_ok hitem)
      exact ⟨_, (showItem_eq_ok hitem).mpr ⟨shown, hshown, rfl⟩⟩

/-- There is nothing to show from the number of items on, in any buffer. -/
theorem Holds.getItem_out_of_range (h : Holds bytes state t) {displayIdx : Nat}
    (hle : displayCount + t.recipients.length * 3 ≤ displayIdx) (pageIdx : Nat) (d : Display) :
    ∃ d', (parserGetItem zx bytes state displayIdx pageIdx).outcome d =
      .stop (.error .displayIdxOutOfRange) d' := by
  have hitem : (parserGetItem zx bytes state displayIdx pageIdx).wp Event.Good d
      (fun _ _ => False) (fun stop _ => stop = .error .displayIdxOutOfRange) := by
    simp only [parserGetItem, Command.wp_bind, Command.wp_modify]
    apply wp_parserGetNumItems h.views h.txObj_set
    rw [checkSanity, if_pos hle]
    exact (wp_fail _).mpr rfl
  cases hend : (parserGetItem zx bytes state displayIdx pageIdx).outcome d with
  | done value d' => exact (hitem.of_done hend).elim
  | stop stop d' =>
      obtain rfl := hitem.of_stop hend
      exact ⟨d', rfl⟩

theorem Holds.txGetNumItems {σ : Type} (h : Holds bytes state t) (s : σ) :
    (txGetNumItems state : Command Event ZxStop σ Nat).outcome s =
      .done (displayCount + t.recipients.length * 3) s :=
  Command.outcome_handle_of_done (h.getNumItems s)

/-- An index outside the items, as an `int8_t`, is answered with `zxerr_no_data`:
a negative one becomes at least 128, and there are at most 42 items. -/
theorem Holds.txGetItem_no_data (h : Holds bytes state t) {displayIdx : Int}
    (hmin : -128 ≤ displayIdx) (hmax : displayIdx ≤ 127)
    (hout : displayIdx < 0 ∨ (displayCount + t.recipients.length * 3 : Nat) ≤ displayIdx)
    (pageIdx : Nat) (d : Display) : ∃ d', (txGetItem zx bytes state displayIdx pageIdx).outcome d =
      .stop (.error .noData) d' := by
  have hcount := t.recipients_length_le
  rw [txGetItem, Command.outcome_bind_of_done (h.txGetNumItems d)]
  by_cases hbehind : displayIdx > (displayCount + t.recipients.length * 3 : Nat)
  · rw [if_pos hbehind]
    exact ⟨d, rfl⟩
  · have hle : displayCount + t.recipients.length * 3 ≤ (displayIdx % 2 ^ 8).toNat := by
      simp only [displayCount, extraListFieldCount] at hcount hout hbehind ⊢
      omega
    obtain ⟨d', hend⟩ := h.getItem_out_of_range hle pageIdx d
    rw [if_neg hbehind, Command.outcome_handle_of_stop hend]
    exact ⟨d', rfl⟩

/-- What is accepted can be displayed: there are 12 to 42 items, every page of
every item is shown in buffers of at least 40 bytes, and there is nothing else. -/
theorem accepted_displayable (htime : zx.TimeStable) (h : Accepted zx bytes state) :
    ∃ numItems, (parserGetNumItems state : Parser Unit Nat).outcome () = .done numItems () ∧
      12 ≤ numItems ∧ numItems ≤ 42 ∧
      (∀ displayIdx < numItems, ∀ pageIdx d, 40 ≤ d.outKey.length → 40 ≤ d.outVal.length →
        d.outVal.length < 2 ^ 16 →
        ∃ d', (parserGetItem zx bytes state displayIdx pageIdx).outcome d = .done () d') ∧
      ∀ displayIdx : Int, -128 ≤ displayIdx → displayIdx ≤ 127 →
        (displayIdx < 0 ∨ numItems ≤ displayIdx) → ∀ pageIdx d, ∃ d',
          (txGetItem zx bytes state displayIdx pageIdx).outcome d = .stop (.error .noData) d' := by
  obtain ⟨t, hholds, hvalid⟩ := h.exists_holds
  have hcount := t.recipients_length_le
  refine ⟨displayCount + t.recipients.length * 3, hholds.getNumItems (), ?_, ?_, ?_, ?_⟩
  · exact Nat.le_add_right _ _
  · simp only [displayCount, extraListFieldCount] at hcount ⊢
    omega
  · intro displayIdx hlt pageIdx d _ hmin hmax
    obtain ⟨d', hshow⟩ := hvalid.showItem_ok htime hlt hmin
    exact ⟨d', hholds.getItem_ok ((by decide : 2 ≤ 40).trans hmin) (hmax.trans (by decide)) hshow⟩
  · intro displayIdx hmin hmax hout pageIdx d
    exact hholds.txGetItem_no_data hmin hmax hout pageIdx d

end Validated

theorem Zxlib.reference_timeStable : Zxlib.reference.TimeStable := by
  intro out out' time _ _
  simp only [Zxlib.reference, writeTime]
  split <;> rfl

/-- A transaction in which every field that may be empty is. -/
def blank : List UInt8 :=
  [0xd1, 0x80, 0x80, 0x80, 0x80, 0x80, 0x80, 0x03, 0x80, 0x80, 0x80, 0x80, 0x80,
    0xc4, 0xc3, 0x80, 0x80, 0xc0]

theorem filled_accepted : Accepted Zxlib.reference filled (parsedState filled) :=
  ⟨filled_parsed, by decide +kernel⟩

theorem accepted_displayable_filled :
    ∃ numItems, (parserGetNumItems (parsedState filled) : Parser Unit Nat).outcome () =
      .done numItems () ∧ 12 ≤ numItems ∧ numItems ≤ 42 ∧
      ∀ displayIdx < numItems, ∀ pageIdx d, 40 ≤ d.outKey.length → 40 ≤ d.outVal.length →
        d.outVal.length < 2 ^ 16 → ∃ d',
          (parserGetItem Zxlib.reference filled (parsedState filled) displayIdx pageIdx).outcome d =
            .done () d' := by
  obtain ⟨numItems, hcount, hmin, hmax, hshown, -⟩ :=
    accepted_displayable Zxlib.reference_timeStable filled_accepted
  exact ⟨numItems, hcount, hmin, hmax, hshown⟩

end LedgerMatrix
