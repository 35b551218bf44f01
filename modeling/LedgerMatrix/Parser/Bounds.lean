import LedgerMatrix.Parser.Acceptance

/-! # Where the parser reads and what it keeps

Parsing leaves neither its input nor its arrays, on any bytes, and always comes
to an end. The contents of what it stores lie inside the input, those of the items
of a list inside the list, one after the other.
-/

namespace LedgerMatrix

open Imperative RecursiveLength

/-- The content of an item lies in `[lo, hi)`. -/
def Rlp.Within (lo hi : Nat) (rlp : Rlp) : Prop :=
  ∃ address, rlp.ptr = some address ∧ lo ≤ address ∧ address + rlp.contentLength ≤ hi

/-- The content of one item ends before that of another starts. -/
def Rlp.Before (first second : Rlp) : Prop :=
  ∀ address address', first.ptr = some address → second.ptr = some address' →
    address + first.contentLength ≤ address'

/-- The contents of the items lie in `[lo, hi)`, in increasing order and without
overlap. -/
structure Siblings (lo hi : Nat) (rlps : List Rlp) : Prop where
  within : ∀ rlp ∈ rlps, rlp.Within lo hi
  ordered : rlps.Pairwise Rlp.Before

/-- The items lie in the content of another. -/
def Rlp.Contains (parent : Rlp) (children : List Rlp) : Prop :=
  ∃ address, parent.ptr = some address ∧
    Siblings address (address + parent.contentLength) children

/-- Every stored item lies inside the list it is an item of. The list around the
three extra fields is not stored; it lies in the extra field. -/
structure ParserTx.Nested (length : Nat) (v : ParserTx) : Prop where
  root : v.root.Within 0 length
  fields : v.root.Contains v.fields.toList
  extraFields : ∃ inner, (v.fields.get RootField.extra).Contains [inner] ∧
    inner.Contains v.extraFields.toList
  recipients : (v.extraFields.get ExtraField.to).Contains
    (v.extraToListFields.toList.take v.extraToFieldsItems)

section Nesting

variable {mem : List UInt8} {lo hi : Nat}

theorem Rlp.Stands.within {rlp : Rlp} {piece : Piece} (h : rlp.Stands mem lo hi piece) :
    rlp.Within lo hi := by
  obtain ⟨address, hptr, hstart, hend, -⟩ := h.located
  exact ⟨address, hptr, hstart, by rwa [h.contentLength_eq]⟩

theorem Layout.siblings {rlps : List Rlp} {pieces : List Piece}
    (h : Layout mem lo hi rlps pieces) : Siblings lo hi rlps := by
  induction h with
  | nil hle => exact ⟨fun _ hmem => absurd hmem List.not_mem_nil, List.Pairwise.nil⟩
  | @cons lo mid hi rlp piece rlps pieces first rest ih =>
      obtain ⟨address, hptr, hstart, hend⟩ := first.within
      refine ⟨?_, List.pairwise_cons.mpr ⟨?_, ih.ordered⟩⟩
      · intro other hmem
        rcases List.mem_cons.mp hmem with rfl | hmem
        · exact (first.mono le_rfl rest.le).within
        · obtain ⟨address', hptr', hstart', hend'⟩ := ih.within other hmem
          exact ⟨address', hptr', first.le.trans hstart', hend'⟩
      · intro other hmem start start' hptr₁ hptr₂
        -- the others start where the first one ends, or later
        obtain ⟨address', hptr', hstart', -⟩ := ih.within other hmem
        obtain rfl := Option.some.inj (hptr.symm.trans hptr₁)
        obtain rfl := Option.some.inj (hptr'.symm.trans hptr₂)
        exact hend.trans hstart'

theorem rlpLen_le_contentLength (rlp : Rlp) (h : rlp.kind = .byte → rlp.rlpLen = 0) :
    rlp.rlpLen ≤ rlp.contentLength := by
  unfold Rlp.contentLength
  split
  next hbyte => rw [h hbyte]; exact Nat.zero_le 1
  next => exact le_rfl

/-- What is laid out in the recorded length of an item lies in its content. -/
theorem Rlp.Stands.contains {parent : Rlp} {piece : Piece} (h : parent.Stands mem lo hi piece)
    {address : Nat} (hptr : parent.ptr = some address) {rlps : List Rlp} {pieces : List Piece}
    (hlayout : Layout mem address (address + parent.rlpLen) rlps pieces) :
    parent.Contains rlps := by
  have hle : parent.rlpLen ≤ parent.contentLength :=
    rlpLen_le_contentLength parent fun hbyte => h.rlpLen_of_byte (h.kind_eq.symm.trans hbyte)
  exact ⟨address, hptr, (hlayout.mono le_rfl (by omega)).siblings⟩

theorem ParserTx.Views.nested {length : Nat} {v : ParserTx} {t : Transaction}
    (h : v.Views mem length t) : v.Nested length := by
  obtain ⟨rootAddress, hroot, hfields⟩ := h.fields
  obtain ⟨extraAddress, innerList, start, hextra, hinner, hstart, hextraFields⟩ := h.extraFields
  obtain ⟨toAddress, hto, hrecipients⟩ := h.recipients
  have hextraStands : (v.fields.get RootField.extra).Stands mem 0 length _ :=
    h.fields_stands RootField.extra.val RootField.extra.isLt
  have htoStands : (v.extraFields.get ExtraField.to).Stands mem 0 length _ :=
    h.extraFields_stands ExtraField.to.val ExtraField.to.isLt
  refine ⟨h.root.within, h.root.contains hroot hfields, ⟨innerList, ?_, ?_⟩, ?_⟩
  · exact hextraStands.contains hextra (.cons hinner (.nil le_rfl))
  · exact hinner.contains hstart hextraFields
  · rw [h.extraToFieldsItems]
    exact htoStands.contains hto hrecipients

end Nesting

/-- On all bytes and from every state parsing ends without leaving its input or its
arrays, keeps every offset in its buffer and cuts no length; and what it stores on
success is nested. -/
theorem parserParse_bounds (bytes : List UInt8) (before : ParserState) :
    (∀ event ∈ (parserParse bytes (some 0) bytes.length).trace before, event.Good) ∧
    (∀ cause after, (parserParse bytes (some 0) bytes.length).outcome before ≠
      .stop (.fault cause) after) ∧
    ∀ after, (parserParse bytes (some 0) bytes.length).outcome before = .done () after →
      after.txObj.Nested bytes.length := by
  have hparse : (parserParse bytes (some 0) bytes.length).wp Event.Good before
      (fun _ after => after.txObj.Nested bytes.length)
      (fun stop _ => ∃ code, stop = .error code) := by
    apply wp_parserParse
    · intro t v _ hviews
      have hnested := hviews.nested
      obtain ⟨address, hptr, hstart, hend⟩ := hnested.root
      exact { hnested with root := ⟨address, hptr, hstart, hend.trans (u16_length_le bytes)⟩ }
    · exact fun _ code _ => ⟨code, rfl⟩
  refine ⟨hparse.1, fun cause after hend => ?_, fun after hend => hparse.of_done hend⟩
  obtain ⟨code, hcode⟩ := hparse.of_stop hend
  cases hcode

end LedgerMatrix
