import LedgerMatrix.Foundation.Encoding
import LedgerMatrix.Rlp.Reading

/-! # Decoding what was encoded

The readers give back what the canonical encoding encodes, at every depth and
whatever follows it in the buffer.
-/

namespace LedgerMatrix

open Imperative RecursiveLength

/-- What is stored of an item: its kind, its content, and its length unless it is
a byte that stands for itself. -/
structure Rlp.Reports (mem : List UInt8) (rlp : Rlp) (item : Item) : Prop where
  kind_eq : rlp.kind = item.piece.kind
  content_eq : rlp.content mem = item.piece.payload
  rlpLen_eq : rlp.rlpLen = storedLength item.piece.kind item.piece.payload.length

/-- The item that a stored item decodes to, with the lists in it read again, up to
a depth. -/
def rebuild (mem : List UInt8) : Nat → Rlp → Option Item
  | 0, _ => none
  | depth + 1, rlp =>
      if rlp.kind = .list then
        match (rlpReadList mem rlp rlp.rlpLen : Parser (Fields rlp.rlpLen) Unit).outcome
            (Fields.zero rlp.rlpLen) with
        | .done _ fields =>
            ((fields.items.toList.take fields.count).mapM (rebuild mem depth)).map Item.list
        | .stop _ _ => none
      else some (.string (rlp.content mem))

theorem Rlp.Stands.reports {mem : List UInt8} {lo hi : Nat} {rlp : Rlp} {item : Item}
    (h : rlp.Stands mem lo hi item.piece) : rlp.Reports mem item :=
  ⟨h.kind_eq, h.content_eq, h.rlpLen_eq⟩

/-- Lengths that a context can hold are far below what a header can say. -/
theorem lt_header_limit {length : Nat} (h : length < 2 ^ 16) : length < 256 ^ 8 :=
  h.trans (by decide)

theorem readItems_encodeAll {items : List Item} {count : Nat} (hcount : items.length ≤ count)
    (hlength : (Item.encodeAll items).length < 2 ^ 16) :
    readItems count (Item.list items).piece = .ok (items.map Item.piece) :=
  readItems_eq_ok.mpr ⟨rfl, [], takePieces_encodeAll hcount (lt_header_limit hlength)⟩

section RoundTrip

variable {mem : List UInt8} {lo hi : Nat}

/-- A list is read into an array that is large enough for its items. -/
theorem rlpReadList_encoded (hmem : hi ≤ mem.length) {rlp : Rlp} {items : List Item}
    (hstands : rlp.Stands mem lo hi (Item.list items).piece)
    (hlength : (Item.encodeAll items).length < 2 ^ 16) {n maxFields : Nat}
    (hcount : items.length ≤ maxFields) (hmax : maxFields ≤ n) (hwidth : maxFields < 2 ^ 16)
    (fields : Fields n) : ∃ fields' rlps left,
      (rlpReadList mem rlp maxFields).outcome fields = .done () fields' ∧
        fields'.Holds rlps left ∧ Layout mem lo hi rlps (items.map Item.piece) := by
  have hitems : readItems maxFields (Item.list items).piece = .ok (items.map Item.piece) :=
    readItems_encodeAll hcount hlength
  have hread : (rlpReadList mem rlp maxFields).wp Event.Good fields
      (fun _ fields' => ∃ rlps left, fields'.Holds rlps left ∧
        Layout mem lo hi rlps (items.map Item.piece)) (fun _ _ => False) := by
    apply wp_rlpReadList hmem hstands hlength hmax hwidth
    · rintro found rlps fields' hfound _ ⟨address, _, hstart, hend, hlayout⟩ hholds
      obtain rfl := Except.ok.inj (hitems.symm.trans hfound)
      exact ⟨rlps, _, hholds, hlayout.mono hstart hend⟩
    · intro code herror
      cases hitems.symm.trans herror
  obtain ⟨_, fields', hend, rlps, left, hholds, hlayout⟩ := hread.exists_done
  exact ⟨fields', rlps, left, hend, hholds, hlayout⟩

/-- Items that are rebuilt one by one are rebuilt in order. -/
theorem mapM_rebuild {depth : Nat} {rlps : List Rlp} {items : List Item}
    (hlayout : Layout mem lo hi rlps (items.map Item.piece))
    (h : ∀ item ∈ items, ∀ rlp : Rlp, rlp.Stands mem lo hi item.piece →
      rebuild mem depth rlp = some item) : rlps.mapM (rebuild mem depth) = some items := by
  induction items generalizing lo rlps with
  | nil =>
      cases hlayout
      rfl
  | cons item items ih =>
      cases hlayout with
      | @cons _ mid _ rlp _ rlps _ first rest =>
          have hfirst := h item List.mem_cons_self rlp (first.mono le_rfl rest.le)
          have hrest := ih rest fun other hmem rlp hrlp =>
            h other (List.mem_cons_of_mem _ hmem) rlp (hrlp.mono first.le le_rfl)
          simp only [List.mapM_cons, hfirst, hrest, Option.pure_def, Option.bind_eq_bind,
            Option.bind_some]

/-- What stands for an encoded item rebuilds it. -/
theorem rebuild_encoded (hmem : hi ≤ mem.length) {depth : Nat} {rlp : Rlp} {item : Item}
    (hstands : rlp.Stands mem lo hi item.piece) (hlength : item.encode.length < 2 ^ 16)
    (hdepth : item.encode.length ≤ depth) : rebuild mem depth rlp = some item := by
  induction depth generalizing lo hi rlp item with
  | zero =>
      have hpos := item.encode_length_pos
      omega
  | succ depth ih =>
      cases item with
      | string bytes =>
          have hkind : rlp.kind ≠ .list := by
            rw [hstands.kind_eq, Item.piece, stringPiece]
            split <;> simp
          rw [rebuild, if_neg hkind, hstands.content_eq]
          rfl
      | list items =>
          have hless := Item.encodeAll_length_lt items
          have hkind : rlp.kind = .list := hstands.kind_eq
          have hlen : rlp.rlpLen = (Item.encodeAll items).length :=
            hstands.rlpLen_of_ne (by simp [Item.piece])
          have hcount : items.length ≤ rlp.rlpLen := hlen ▸ Item.length_le_encodeAll items
          obtain ⟨fields', rlps, left, hend, hholds, hlayout⟩ := rlpReadList_encoded hmem hstands
            (by omega) hcount le_rfl (by omega) (Fields.zero rlp.rlpLen)
          have hstored : fields'.items.toList.take fields'.count = rlps := by
            rw [hholds.items_eq, hholds.count_eq, List.take_left]
          rw [rebuild, if_pos hkind, hend]
          simp only [hstored]
          rw [mapM_rebuild hlayout, Option.map_some]
          intro child hmem' rlp' hrlp'
          have hle := Item.encode_length_le_of_mem hmem'
          exact ih hmem hrlp' (by omega) (by omega)

/-- Reading at an encoded item succeeds, stops behind it, and leaves an item that
stands for it. -/
theorem rlpRead_stands {base len offset : Nat} {tx : Bool} (hmem : base + len ≤ mem.length)
    (hlen : len < 2 ^ 16) (hoff : offset ≤ len) {item : Item} {rest : List UInt8}
    (hbytes : slice mem (base + offset) (len - offset) = item.encode ++ rest) (before : Rlp) :
    ∃ rlp, (rlpRead mem).outcome (⟨some base, len, offset, tx⟩, before) =
        .done () (⟨some base, len, offset + item.encode.length, tx⟩, rlp) ∧
      rlp.Stands mem (base + offset) (base + (offset + item.encode.length)) item.piece ∧
      offset + item.encode.length ≤ len := by
  have hwindow := congrArg List.length hbytes
  rw [slice_length (by omega), List.length_append] at hwindow
  have hpayload := item.payload_length_le
  have hnext := @next_encode item (lt_header_limit (by omega)) rest
  rw [← hbytes] at hnext
  have hread : (rlpRead mem).wp Event.Good (⟨some base, len, offset, tx⟩, before)
      (fun _ s => s.1 = ⟨some base, len, offset + item.encode.length, tx⟩ ∧
        s.2.Stands mem (base + offset) (base + (offset + item.encode.length)) item.piece)
      (fun _ _ => False) := by
    apply wp_rlpRead hmem hlen hoff
    · intro piece offset' rlp hlt hle hfound hstands
      obtain ⟨rfl, hrest⟩ := Prod.mk.inj (Option.some.inj (hnext.symm.trans hfound))
      have hleft := congrArg List.length hrest
      rw [slice_length (by omega)] at hleft
      obtain rfl : offset' = offset + item.encode.length := by omega
      exact ⟨rfl, hstands⟩
    · intro hnone
      cases hnext.symm.trans hnone
  obtain ⟨_, s, hend, hctx, hstands⟩ := hread.exists_done
  obtain ⟨ctx, rlp⟩ := s
  simp only at hctx hstands
  subst hctx
  exact ⟨rlp, hend, hstands, by omega⟩

/-- Decoding undoes encoding: an encoded item is read from any context that holds
it at its offset, a list of any items is read into any array that is large enough,
and reading the lists in it again rebuilds the item. -/
theorem rlpRead_encoded {base len offset : Nat} {tx : Bool} (hmem : base + len ≤ mem.length)
    (hlen : len ≤ 65535) (hoff : offset ≤ len) {item : Item} {rest : List UInt8}
    (hbytes : slice mem (base + offset) (len - offset) = item.encode ++ rest) (before : Rlp) :
    ∃ rlp, (rlpRead mem).outcome (⟨some base, len, offset, tx⟩, before) =
        .done () (⟨some base, len, offset + item.encode.length, tx⟩, rlp) ∧
      rlp.Reports mem item ∧
      (∀ items, item = .list items → ∀ (n maxFields : Nat) (fields : Fields n),
        items.length ≤ maxFields → maxFields ≤ n → maxFields < 2 ^ 16 → ∃ fields',
          (rlpReadList mem rlp maxFields).outcome fields = .done () fields' ∧
          fields'.count = items.length ∧
          ∀ (i : Nat) (child : Item), items[i]? = some child → ∃ stored : Rlp,
            fields'.items.toList[i]? = some stored ∧ stored.Reports mem child) ∧
      ∀ depth, item.encode.length ≤ depth → rebuild mem depth rlp = some item := by
  obtain ⟨rlp, hend, hstands, hinside⟩ := rlpRead_stands hmem (by omega) hoff hbytes before
  have hsmall : item.encode.length < 2 ^ 16 := by omega
  refine ⟨rlp, hend, hstands.reports, ?_, ?_⟩
  · rintro items rfl n maxFields fields hcount hmax hwidth
    have hless := Item.encodeAll_length_lt items
    obtain ⟨fields', rlps, left, hread, hholds, hlayout⟩ :=
      rlpReadList_encoded (by omega) hstands (by omega) hcount hmax hwidth fields
    have hlength := hlayout.length_eq
    rw [List.length_map] at hlength
    refine ⟨fields', hread, hholds.count_eq.trans hlength, fun i child hchild => ?_⟩
    obtain ⟨hi, rfl⟩ := List.getElem?_eq_some_iff.mp hchild
    have hi' : i < rlps.length := hlength ▸ hi
    have hchild := hlayout.stands i hi' (by rwa [List.length_map])
    rw [List.getElem_map] at hchild
    refine ⟨rlps[i], ?_, hchild.reports⟩
    rw [hholds.items_eq, List.getElem?_append_left hi', List.getElem?_eq_getElem hi']
  · intro depth hdepth
    exact rebuild_encoded (by omega) hstands hsmall hdepth

/-- The list of the text `cat` and an empty list, with a byte behind it. -/
theorem rlpRead_encoded_cat :
    ∃ rlp, (rlpRead [0xc5, 0x83, 0x63, 0x61, 0x74, 0xc0, 0x05]).outcome
        (⟨some 0, 7, 0, false⟩, Rlp.zero) = .done () (⟨some 0, 7, 6, false⟩, rlp) ∧
      rebuild [0xc5, 0x83, 0x63, 0x61, 0x74, 0xc0, 0x05] 6 rlp =
        some (.list [.string [0x63, 0x61, 0x74], .list []]) := by
  have hencode : (Item.list [.string [0x63, 0x61, 0x74], .list []]).encode =
      [0xc5, 0x83, 0x63, 0x61, 0x74, 0xc0] := by decide +kernel
  obtain ⟨rlp, hend, -, -, hrebuild⟩ :=
    @rlpRead_encoded [0xc5, 0x83, 0x63, 0x61, 0x74, 0xc0, 0x05] 0 7 0 false (by decide) (by decide)
      (by decide) (.list [.string [0x63, 0x61, 0x74], .list []]) [0x05] (by rw [hencode]; rfl)
      Rlp.zero
  rw [hencode] at hend hrebuild
  exact ⟨rlp, hend, hrebuild 6 (by decide)⟩

end RoundTrip

end LedgerMatrix
