import LedgerMatrix.Parser.Acceptance

/-! # How many items a list has

A list of a fixed shape is read up to the number of items that its array takes.
Only the bytes of the transaction are checked for what comes after; a list inside
them may go on behind the items that are stored.
-/

namespace LedgerMatrix

open Imperative RecursiveLength

/-- Reading at most `count` items of a list consumes its payload to the last byte. -/
def ReadToEnd (count : Nat) (piece : Piece) : Prop :=
  ∃ found, takePieces count piece.payload = some (found, [])

/-- The payload of a list is these items and nothing else. -/
def ConsistsOf (piece : Piece) (items : List Piece) : Prop :=
  piece.kind = .list ∧ pieces piece.payload = some items

/-- The bytes are one list, and the lists of a fixed shape in it are the items
that are stored. -/
structure ExactArity (bytes : List UInt8) (state : ParserState) (t : Transaction) : Prop where
  stored : state.txObj.Views bytes bytes.length t
  whole : next bytes = some (t.root, [])
  root : ConsistsOf t.root t.fields.toList
  extra : ConsistsOf (t.fields.get RootField.extra) [t.inner]
  inner : ConsistsOf t.inner [t.typeItem, t.lockHeight, t.extraTo]
  recipients : ∀ r ∈ t.recipients, ConsistsOf r.entry [r.toItem, r.amount, r.payload]

theorem consistsOf_iff {count : Nat} {piece : Piece} {items : List Piece}
    (h : readItems count piece = .ok items) : ConsistsOf piece items ↔ ReadToEnd count piece := by
  obtain ⟨hkind, rest, htake⟩ := readItems_eq_ok.mp h
  constructor
  · rintro ⟨-, hpieces⟩
    exact ⟨items, takePieces_of_pieces hpieces (readItems_length_le h)⟩
  · rintro ⟨found, hend⟩
    cases htake.symm.trans hend
    exact ⟨hkind, pieces_eq_some_iff_exists.mpr ⟨count, htake⟩⟩

section Arity

variable {bytes : List UInt8} {state : ParserState} {t : Transaction}

theorem Holds.exactArity_iff (h : Holds bytes state t) (hlength : bytes.length ≤ 65535) :
    ExactArity bytes state t ↔
      ReadToEnd rootFieldCount t.root ∧ ReadToEnd 1 (t.fields.get RootField.extra) ∧
      ReadToEnd extraFieldCount t.inner ∧
      ∀ r ∈ t.recipients, ReadToEnd extraToFieldCount r.entry := by
  have hlt : bytes.length < 2 ^ 16 := by omega
  have hextra : readItems 1 (t.fields.get RootField.extra) = .ok [t.inner] := t.extra_items
  constructor
  · intro hexact
    refine ⟨(consistsOf_iff t.root_items).mp hexact.root, (consistsOf_iff hextra).mp hexact.extra,
      (consistsOf_iff t.inner_items).mp hexact.inner, fun r hr => ?_⟩
    exact (consistsOf_iff r.items_eq).mp (hexact.recipients r hr)
  · rintro ⟨hroot, hone, hinner, hrecipients⟩
    have hviews := h.views
    have hwhole := h.decodes
    rw [u16, Nat.mod_eq_of_lt hlt] at hviews
    rw [seen_of_lt hlt] at hwhole
    exact
      { stored := hviews
        whole := hwhole
        root := (consistsOf_iff t.root_items).mpr hroot
        extra := (consistsOf_iff hextra).mpr hone
        inner := (consistsOf_iff t.inner_items).mpr hinner
        recipients := fun r hr => (consistsOf_iff r.items_eq).mpr (hrecipients r hr) }

/-- The lists of a fixed shape have no items but those that are stored exactly
when the reads that fill the arrays use up their payloads. -/
theorem exactArity_iff_readToEnd (hlength : bytes.length ≤ 65535) (h : Parsed bytes state) :
    ∃ t, t.Decodes bytes ∧ (ExactArity bytes state t ↔
      ReadToEnd rootFieldCount t.root ∧ ReadToEnd 1 (t.fields.get RootField.extra) ∧
      ReadToEnd extraFieldCount t.inner ∧
      ∀ r ∈ t.recipients, ReadToEnd extraToFieldCount r.entry) := by
  obtain ⟨t, hholds⟩ := h.exists_holds
  have hwhole := hholds.decodes
  rw [seen_of_lt (by omega)] at hwhole
  exact ⟨t, hwhole, hholds.exactArity_iff hlength⟩

theorem exactArity_iff_readToEnd_filled : ∃ t, t.Decodes filled ∧
    (ExactArity filled (parsedState filled) t ↔
      ReadToEnd rootFieldCount t.root ∧ ReadToEnd 1 (t.fields.get RootField.extra) ∧
      ReadToEnd extraFieldCount t.inner ∧
      ∀ r ∈ t.recipients, ReadToEnd extraToFieldCount r.entry) :=
  exactArity_iff_readToEnd (by decide +kernel) filled_parsed

/-- A transaction whose root list has a 14th item. -/
def fourteenItems : List UInt8 :=
  [0xd2, 0x80, 0x80, 0x80, 0x80, 0x80, 0x80, 0x03, 0x80, 0x80, 0x80, 0x80, 0x80,
    0xc4, 0xc3, 0x80, 0x80, 0xc0, 0x05]

/-- It is parsed without an error. -/
theorem fourteenItems_parsed : Parsed fourteenItems (parsedState fourteenItems) ∧
    ∀ t : Transaction, t.Decodes fourteenItems →
      ¬ ExactArity fourteenItems (parsedState fourteenItems) t := by
  have hparsed : Parsed fourteenItems (parsedState fourteenItems) :=
    ⟨.initial, by decide +kernel⟩
  refine ⟨hparsed, fun t _ hexact => ?_⟩
  have hpayload := hexact.stored.root.content_eq
  have hcount : (pieces ((parsedState fourteenItems).txObj.root.content fourteenItems)).map
      List.length = some 14 := by decide +kernel
  rw [hpayload, hexact.root.2, Option.map_some, Vector.length_toList] at hcount
  cases hcount

end Arity

end LedgerMatrix
