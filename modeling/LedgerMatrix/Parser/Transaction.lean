import LedgerMatrix.Parser.Basic
import LedgerMatrix.Rlp.Layout

/-! # Transactions without pointers

What the parser accepts, told on the bytes alone: the items that make up a
transaction, with the readings that connect them. A value of `Transaction` can
only be built from bytes that the parser accepts, and at most one belongs to
given bytes.
-/

namespace LedgerMatrix

open RecursiveLength

/-- An entry of the recipient list, whose first three items are what is shown. -/
structure Recipient where
  entry : Piece
  toItem : Piece
  amount : Piece
  payload : Piece
  items_eq : readItems extraToFieldCount entry = .ok [toItem, amount, payload]

/-- The entries that the recipient list contributes. Anything but a nonempty
list contributes none. -/
def recipientEntries (extraTo : Piece) : Except ParserError (List Piece) :=
  if extraTo.kind = .list ∧ extraTo.payload.length > 0 then
    readItems extraListFieldCount extraTo
  else .ok []

/-- The items of a transaction. -/
structure Transaction where
  root : Piece
  fields : Vector Piece rootFieldCount
  inner : Piece
  typeItem : Piece
  lockHeight : Piece
  extraTo : Piece
  /-- The number that the type item encodes. -/
  number : Nat
  recipients : List Recipient
  root_items : readItems rootFieldCount root = .ok fields.toList
  extra_items : readItems 1 fields[rootFieldCount - 1] = .ok [inner]
  inner_items : readItems extraFieldCount inner = .ok [typeItem, lockHeight, extraTo]
  type_number : readUInt256 typeItem = .ok number
  type_le : u8 number ≤ txTypeSuperblock
  extraTo_entries : recipientEntries extraTo = .ok (recipients.map Recipient.entry)

/-- The bytes are one item, the root list of the transaction. -/
def Transaction.Decodes (bytes : List UInt8) (t : Transaction) : Prop :=
  next bytes = some (t.root, [])

/-! ## Readings -/

theorem recipientEntries_length_le {extraTo : Piece} {entries : List Piece}
    (h : recipientEntries extraTo = .ok entries) : entries.length ≤ extraListFieldCount := by
  unfold recipientEntries at h
  split at h
  · exact readItems_length_le h
  · cases h
    exact Nat.zero_le _

/-- Recipients that fit the array are read to the last. -/
theorem recipientEntries_of_pieces {extraTo : Piece} {all : List Piece}
    (hkind : extraTo.kind = .list) (hall : pieces extraTo.payload = some all)
    (hle : all.length ≤ extraListFieldCount) : recipientEntries extraTo = .ok all := by
  unfold recipientEntries
  split
  next => exact readItems_eq_ok.mpr ⟨hkind, [], takePieces_of_pieces hall hle⟩
  next hempty =>
    have hnil : extraTo.payload = [] := by
      rw [← List.length_eq_zero_iff]
      by_contra hne
      exact hempty ⟨hkind, Nat.pos_of_ne_zero hne⟩
    rw [hnil] at hall
    cases hall
    rfl

namespace Recipient

/-- An entry is displayed in one way only. -/
theorem eq_of_entry_eq {r r' : Recipient} (h : r.entry = r'.entry) : r = r' := by
  have hitems := r.items_eq.symm.trans (h ▸ r'.items_eq)
  cases r
  cases r'
  simp only [Except.ok.injEq, List.cons.injEq, and_true] at h hitems
  simp only [h, hitems]

end Recipient

namespace Transaction

theorem recipients_length_le (t : Transaction) : t.recipients.length ≤ extraListFieldCount := by
  have hle := recipientEntries_length_le t.extraTo_entries
  rwa [List.length_map] at hle

/-- Recipients only come from a list. -/
theorem extraTo_kind {t : Transaction} {r : Recipient} (hr : r ∈ t.recipients) :
    t.extraTo.kind = .list := by
  have hentries := t.extraTo_entries
  unfold recipientEntries at hentries
  split at hentries
  next hlist => exact hlist.1
  next =>
    have hnil : t.recipients = [] := List.map_eq_nil_iff.mp (Except.ok.inj hentries).symm
    rw [hnil] at hr
    cases hr

theorem root_kind (t : Transaction) : t.root.kind = .list := readItems_kind t.root_items

theorem fields_eq {t : Transaction} {fields : Vector Piece rootFieldCount}
    (h : readItems rootFieldCount t.root = .ok fields.toList) : t.fields = fields :=
  Vector.toList_inj.mp (Except.ok.inj (t.root_items.symm.trans h))

theorem extra_eq {t : Transaction} {inner typeItem lockHeight extraTo : Piece}
    (hinner : readItems 1 t.fields[rootFieldCount - 1] = .ok [inner])
    (hitems : readItems extraFieldCount inner = .ok [typeItem, lockHeight, extraTo]) :
    t.inner = inner ∧ t.typeItem = typeItem ∧ t.lockHeight = lockHeight ∧
      t.extraTo = extraTo := by
  obtain rfl : t.inner = inner :=
    (List.cons.inj (Except.ok.inj (t.extra_items.symm.trans hinner))).1
  have hextra := Except.ok.inj (t.inner_items.symm.trans hitems)
  simp only [List.cons.injEq, and_true] at hextra
  exact ⟨rfl, hextra⟩

/-- The last field determines everything behind the fields. -/
theorem eq_of_extra_eq {t t' : Transaction}
    (h : t.fields[rootFieldCount - 1] = t'.fields[rootFieldCount - 1]) :
    t.inner = t'.inner ∧ t.typeItem = t'.typeItem ∧ t.lockHeight = t'.lockHeight ∧
      t.extraTo = t'.extraTo ∧ t.number = t'.number ∧ t.recipients = t'.recipients := by
  have hinner : readItems 1 t.fields[rootFieldCount - 1] = .ok [t'.inner] := h ▸ t'.extra_items
  obtain ⟨hinner, htype, hlock, hextraTo⟩ := extra_eq hinner t'.inner_items
  have hnumber := Except.ok.inj (t.type_number.symm.trans (htype ▸ t'.type_number))
  have hentries := Except.ok.inj (t.extraTo_entries.symm.trans (hextraTo ▸ t'.extraTo_entries))
  exact ⟨hinner, htype, hlock, hextraTo, hnumber,
    List.map_injective_iff.mpr (fun _ _ => Recipient.eq_of_entry_eq) hentries⟩

/-- The root list determines the transaction. -/
theorem eq_of_root_eq {t t' : Transaction} (h : t.root = t'.root) : t = t' := by
  have hfields : t.fields = t'.fields := fields_eq (h ▸ t'.root_items)
  obtain ⟨hinner, htype, hlock, hextraTo, hnumber, hrecipients⟩ :=
    eq_of_extra_eq (congrArg (·[rootFieldCount - 1]) hfields)
  cases t
  cases t'
  simp only at h hfields hinner htype hlock hextraTo hnumber hrecipients
  simp only [h, hfields, hinner, htype, hlock, hextraTo, hnumber, hrecipients]

theorem Decodes.unique {bytes : List UInt8} {t t' : Transaction} (h : t.Decodes bytes)
    (h' : t'.Decodes bytes) : t = t' :=
  eq_of_root_eq (congrArg Prod.fst (Option.some.inj (h.symm.trans h')))

end Transaction

end LedgerMatrix
