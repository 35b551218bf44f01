import LedgerMatrix.Parser.Acceptance
import LedgerMatrix.Rlp.RoundTrip

/-! # Which encodings are accepted

The decoder is liberal. What it consumes is the canonical encoding of what it
returns exactly when the header is minimal, and nothing in it looks whether the
header is. With minimal headers throughout, the contents of a transaction
determine its bytes.
-/

namespace LedgerMatrix

open Imperative RecursiveLength

section Item

variable {mem : List UInt8} {base len offset : Nat} {tx : Bool}

theorem slice_append {mem : List UInt8} {start first more : Nat} :
    slice mem start (first + more) = slice mem start first ++ slice mem (start + first) more := by
  rw [slice, slice, slice, List.take_add, List.drop_drop]

/-- The bytes that one read consumes are the canonical encoding of the item it
returns just when the header is minimal. -/
theorem rlpRead_consumed_iff (hmem : base + len ≤ mem.length) (hlen : len ≤ 65535)
    (hoff : offset ≤ len) {before rlp : Rlp} {ctx : ParserContext}
    (hend : (rlpRead mem).outcome (⟨some base, len, offset, tx⟩, before) = .done () (ctx, rlp)) :
    slice mem (base + offset) (ctx.offset - offset) = Piece.encode ⟨rlp.kind, rlp.content mem⟩ ↔
      MinimalHeader (slice mem (base + offset) (len - offset)) := by
  have hread : (rlpRead mem).wp Event.Good (⟨some base, len, offset, tx⟩, before)
      (fun _ s => slice mem (base + offset) (s.1.offset - offset) =
          Piece.encode ⟨s.2.kind, s.2.content mem⟩ ↔
        MinimalHeader (slice mem (base + offset) (len - offset)))
      (fun _ _ => True) := by
    apply wp_rlpRead hmem (by omega) hoff
    · intro piece offset' rlp hlt hle hnext hstands
      have hsplit : slice mem (base + offset) (len - offset) =
          slice mem (base + offset) (offset' - offset) ++
            slice mem (base + offset') (len - offset') := by
        have hsum : len - offset = (offset' - offset) + (len - offset') := by omega
        have hstart : base + offset + (offset' - offset) = base + offset' := by omega
        rw [hsum, slice_append, hstart]
      rw [← next_canonical_iff hnext, hsplit, List.append_left_inj, hstands.kind_eq,
        hstands.content_eq]
    · exact fun _ _ => trivial
  exact hread.of_done hend

end Item

/-! ## Transactions -/

/-- Every list of the transaction ends with the last of its fields, and every
header is minimal. -/
structure Transaction.HeadersMinimal (bytes : List UInt8) (t : Transaction) : Prop where
  root : MinimalHeader bytes
  fields : RecursiveLength.HeadersMinimal rootFieldCount t.root.payload
  extra : RecursiveLength.HeadersMinimal 1 (t.fields.get RootField.extra).payload
  inner : RecursiveLength.HeadersMinimal extraFieldCount t.inner.payload
  extraTo : t.extraTo.kind = .list →
    RecursiveLength.HeadersMinimal extraListFieldCount t.extraTo.payload
  recipients : ∀ r ∈ t.recipients,
    RecursiveLength.HeadersMinimal extraToFieldCount r.entry.payload

/-- The three items of a recipient. -/
def Recipient.contents (r : Recipient) : Contents :=
  .node [r.toItem.leaf, r.amount.leaf, r.payload.leaf]

/-- The recipient list, or what stands in its place. -/
def Transaction.extraToContents (t : Transaction) : Contents :=
  if t.extraTo.kind = .list then .node (t.recipients.map Recipient.contents) else t.extraTo.leaf

/-- The tree of field contents. -/
def Transaction.contents (t : Transaction) : Contents :=
  .node ((t.fields.toList.take (rootFieldCount - 1)).map Piece.leaf ++
    [.node [.node [t.typeItem.leaf, t.lockHeight.leaf, t.extraToContents]]])

/-- A stored item that is not looked into. -/
def Rlp.leaf (mem : List UInt8) (rlp : Rlp) : Contents := .leaf (rlp.kind = .list) (rlp.content mem)

/-- A stored entry of the recipient list, read the way it is displayed. -/
def Rlp.entryContents (mem : List UInt8) (entry : Rlp) : Contents :=
  match (rlpReadList mem entry extraToFieldCount).outcome (Fields.zero extraToFieldCount) with
  | .done _ items => .node (items.items.toList.map (Rlp.leaf mem))
  | .stop _ _ => entry.leaf mem

/-- The recipient list that is stored, or what stands in its place. -/
def ParserTx.extraToContents (mem : List UInt8) (v : ParserTx) : Contents :=
  if (v.extraFields.get ExtraField.to).kind = .list then
    .node ((v.extraToListFields.toList.take v.extraToFieldsItems).map (Rlp.entryContents mem))
  else (v.extraFields.get ExtraField.to).leaf mem

/-- The tree of the contents of what is stored. -/
def ParserTx.contents (mem : List UInt8) (v : ParserTx) : Contents :=
  .node ((v.fields.toList.take (rootFieldCount - 1)).map (Rlp.leaf mem) ++
    [.node [.node [(v.extraFields.get ExtraField.txType).leaf mem,
      (v.extraFields.get ExtraField.lockHeight).leaf mem, v.extraToContents mem]]])

theorem Rlp.Stands.leaf_eq {mem : List UInt8} {lo hi : Nat} {rlp : Rlp} {piece : Piece}
    (h : rlp.Stands mem lo hi piece) : rlp.leaf mem = piece.leaf := by
  rw [Rlp.leaf, Piece.leaf, h.kind_eq, h.content_eq]

/-- A stored entry has the contents of the recipient it stands for. -/
theorem Rlp.Stands.entryContents_eq {mem : List UInt8} {lo hi : Nat} (hmem : hi ≤ mem.length)
    (hhi : hi < 2 ^ 16) {entry : Rlp} {r : Recipient} (h : entry.Stands mem lo hi r.entry) :
    entry.entryContents mem = r.contents := by
  have hlength := h.payload_le
  have hwidth : extraToFieldCount < 2 ^ 16 := by decide
  have hread : (rlpReadList mem entry extraToFieldCount).wp Event.Good
      (Fields.zero extraToFieldCount)
      (fun _ items => items.items.toList.map (Rlp.leaf mem) =
        [r.toItem, r.amount, r.payload].map Piece.leaf) (fun _ _ => False) := by
    apply wp_rlpReadList hmem h (by omega) le_rfl hwidth
    · rintro found rlps items hitems - ⟨address, -, -, -, hlayout⟩ hholds
      obtain rfl := Except.ok.inj (hitems.symm.trans r.items_eq)
      rw [hholds.toList_eq hlayout.length_eq]
      exact hlayout.map_eq fun _ _ _ hstands => hstands.leaf_eq
    · intro code hcode
      cases hcode.symm.trans r.items_eq
  obtain ⟨_, items, hend, hleaves⟩ := hread.exists_done
  simp only [Rlp.entryContents, hend, hleaves]
  rfl

namespace ParserTx.Views

variable {mem : List UInt8} {hi : Nat} {v : ParserTx} {t : Transaction}

theorem extraToContents_eq (h : v.Views mem hi t) (hmem : hi ≤ mem.length) (hhi : hi < 2 ^ 16) :
    v.extraToContents mem = t.extraToContents := by
  have hstands : (v.extraFields.get ExtraField.to).Stands mem 0 hi t.extraTo :=
    h.extraFields_stands (extraFieldCount - 1) (by decide)
  unfold ParserTx.extraToContents Transaction.extraToContents
  rw [hstands.kind_eq, hstands.leaf_eq, h.extraToFieldsItems]
  split
  next hkind =>
    obtain ⟨address, hptr, hlayout⟩ := h.recipients
    have hend := payload_end hstands (by rw [hkind]; decide) hptr
    rw [hlayout.map_eq_map]
    intro entry r _ hentry
    exact (hentry.mono (Nat.zero_le _) hend).entryContents_eq hmem hhi
  next => rfl

/-- What is stored has the contents of the transaction. -/
theorem contents_eq (h : v.Views mem hi t) (hmem : hi ≤ mem.length) (hhi : hi < 2 ^ 16) :
    v.contents mem = t.contents := by
  obtain ⟨address, -, hlayout⟩ := h.fields
  have hfields := hlayout.map_eq fun _ _ _ hstands => hstands.leaf_eq
  have htype : (v.extraFields.get ExtraField.txType).Stands mem 0 hi t.typeItem :=
    h.extraFields_stands 0 (by decide)
  have hlock : (v.extraFields.get ExtraField.lockHeight).Stands mem 0 hi t.lockHeight :=
    h.extraFields_stands 1 (by decide)
  rw [ParserTx.contents, Transaction.contents, List.map_take, hfields, ← List.map_take,
    htype.leaf_eq, hlock.leaf_eq, h.extraToContents_eq hmem hhi]

end ParserTx.Views

theorem Transaction.fields_split (t : Transaction) : t.fields.toList =
    t.fields.toList.take (rootFieldCount - 1) ++ [t.fields.get RootField.extra] := by
  have hlength : t.fields.toList.length = rootFieldCount := Vector.length_toList ..
  have hend : t.fields.toList.drop (rootFieldCount - 1 + 1) = [] :=
    List.drop_eq_nil_of_le hlength.le
  have hlast : t.fields.toList.drop (rootFieldCount - 1) = [t.fields.get RootField.extra] := by
    rw [List.drop_eq_getElem_cons (by rw [hlength]; decide), hend, Vector.getElem_toList]
    rfl
  rw [← hlast, List.take_append_drop]

theorem map_encode_leaf (pieces : List Piece) :
    (pieces.map Piece.leaf).map Contents.encode = pieces.map Piece.encode := by
  rw [List.map_map]
  exact List.map_congr_left fun piece _ => Contents.encode_leaf piece

/-- What is read from a list that ends with the last of its fields. -/
theorem payload_eq_encodings {count : Nat} {piece : Piece} {found : List Piece}
    (hitems : readItems count piece = .ok found)
    (h : RecursiveLength.HeadersMinimal count piece.payload) :
    piece.payload = (found.map Piece.encode).flatten := by
  obtain ⟨-, rest, htake⟩ := readItems_eq_ok.mp hitems
  exact h.eq_encodings htake

namespace Transaction.HeadersMinimal

variable {bytes : List UInt8} {t : Transaction}

theorem encode_entry (h : t.HeadersMinimal bytes) {r : Recipient} (hr : r ∈ t.recipients) :
    r.entry.encode = r.contents.encode := by
  refine Contents.encode_node (readItems_kind r.items_eq) ?_
  rw [payload_eq_encodings r.items_eq (h.recipients r hr)]
  simp only [List.map_cons, List.map_nil, Contents.encode_leaf]

theorem encode_extraTo (h : t.HeadersMinimal bytes) :
    t.extraTo.encode = t.extraToContents.encode := by
  unfold Transaction.extraToContents
  split
  next hlist =>
    refine Contents.encode_node hlist ?_
    have hentries : (t.recipients.map Recipient.contents).map Contents.encode =
        (t.recipients.map Recipient.entry).map Piece.encode := by
      rw [List.map_map, List.map_map]
      exact List.map_congr_left fun r hr => (h.encode_entry hr).symm
    rw [hentries]
    have hread := t.extraTo_entries
    unfold recipientEntries at hread
    split at hread
    next => exact payload_eq_encodings hread (h.extraTo hlist)
    next hempty =>
      rw [← Except.ok.inj hread]
      by_contra hne
      exact hempty ⟨hlist, List.length_pos_iff.mpr hne⟩
  next => rw [Contents.encode_leaf]

theorem encode_extra (h : t.HeadersMinimal bytes) :
    (t.fields.get RootField.extra).encode =
      (Contents.node [.node [t.typeItem.leaf, t.lockHeight.leaf, t.extraToContents]]).encode := by
  refine Contents.encode_node (readItems_kind t.extra_items) ?_
  have hinner : t.inner.encode =
      (Contents.node [t.typeItem.leaf, t.lockHeight.leaf, t.extraToContents]).encode := by
    refine Contents.encode_node (readItems_kind t.inner_items) ?_
    rw [payload_eq_encodings t.inner_items h.inner]
    simp only [List.map_cons, List.map_nil, Contents.encode_leaf, h.encode_extraTo]
  rw [payload_eq_encodings t.extra_items h.extra, List.map_singleton, List.map_singleton, hinner]

/-- With minimal headers throughout, the bytes are the canonical encoding of the
contents. -/
theorem eq_encode (h : t.HeadersMinimal bytes) (hdecodes : t.Decodes bytes) :
    bytes = t.contents.encode := by
  have hbytes := (next_canonical_iff hdecodes).mpr h.root
  rw [List.append_nil] at hbytes
  rw [hbytes]
  refine Contents.encode_node t.root_kind ?_
  rw [payload_eq_encodings t.root_items h.fields, List.map_append, map_encode_leaf,
    List.map_singleton, ← h.encode_extra, ← List.map_singleton (f := Piece.encode),
    ← List.map_append, ← t.fields_split]

end Transaction.HeadersMinimal

/-- A list that holds the encodings of contents has minimal headers, and is read as
what the contents are read as. -/
theorem readItems_encoded {count : Nat} {piece : Piece} {found : List Piece}
    {children : List Contents} (hpiece : piece = (Contents.node children).piece)
    (hitems : readItems count piece = .ok found) (hcount : children.length ≤ count)
    (hlength : piece.payload.length < 256 ^ 8) :
    RecursiveLength.HeadersMinimal count piece.payload ∧ found = children.map Contents.piece := by
  subst hpiece
  obtain ⟨-, rest, htake⟩ := readItems_eq_ok.mp hitems
  obtain ⟨hchildren, hminimal⟩ := Contents.children_read hcount hlength
  obtain ⟨rfl, -⟩ := Prod.mk.inj (Option.some.inj (htake.symm.trans hchildren))
  exact ⟨hminimal, rfl⟩

theorem Transaction.recipients_minimal {t : Transaction}
    (hextraTo : t.extraTo = t.extraToContents.piece) (hkind : t.extraTo.kind = .list)
    (hlength : t.extraTo.payload.length < 256 ^ 8) :
    RecursiveLength.HeadersMinimal extraListFieldCount t.extraTo.payload ∧
      ∀ r ∈ t.recipients, RecursiveLength.HeadersMinimal extraToFieldCount r.entry.payload := by
  have hpayload : t.extraTo.payload =
      Contents.encodeAll (t.recipients.map Recipient.contents) := by
    rw [hextraTo, extraToContents, if_pos hkind, Contents.piece]
  have hcount : (t.recipients.map Recipient.contents).length ≤ extraListFieldCount := by
    rw [List.length_map]
    exact t.recipients_length_le
  rw [hpayload] at hlength ⊢
  obtain ⟨hread, hminimal⟩ := Contents.children_read hcount hlength
  refine ⟨hminimal, fun r hr => ?_⟩
  have hpieces : pieces t.extraTo.payload =
      some ((t.recipients.map Recipient.contents).map Contents.piece) :=
    pieces_eq_some_iff_exists.mpr ⟨_, hpayload ▸ hread⟩
  have hentries := recipientEntries_of_pieces hkind hpieces (by rwa [List.length_map])
  rw [t.extraTo_entries, Except.ok.injEq, List.map_map, List.map_inj_left] at hentries
  have hentry : r.entry = r.contents.piece := hentries r hr
  have hmem : r.entry ∈ (t.recipients.map Recipient.contents).map Contents.piece := by
    rw [hentry]
    exact List.mem_map_of_mem (List.mem_map_of_mem hr)
  have hle := (takePieces_payload_le hread hmem).trans_lt hlength
  exact (readItems_encoded hentry r.items_eq le_rfl hle).1

/-- The canonical encoding of the contents has minimal headers throughout. -/
theorem Transaction.headersMinimal_of_eq {bytes : List UInt8} {t : Transaction}
    (hdecodes : t.Decodes bytes) (hlength : bytes.length < 256 ^ 8)
    (heq : bytes = t.contents.encode) : t.HeadersMinimal bytes := by
  have hroot : t.root = t.contents.piece := by
    have hle := t.contents.piece.payload_length_le
    rw [Contents.encode_piece, ← heq] at hle
    have hnext := next_encode_piece t.contents.piece_proper (hle.trans_lt hlength) []
    rw [List.append_nil, Contents.encode_piece, ← heq] at hnext
    exact (Prod.mk.inj (Option.some.inj (hdecodes.symm.trans hnext))).1
  have hheader : MinimalHeader bytes := by
    refine (next_canonical_iff hdecodes).mp ?_
    rw [List.append_nil, hroot, Contents.encode_piece, ← heq]
  -- each list is read as the children of a node, and holds the next list
  have hrootLe : t.root.payload.length < 256 ^ 8 := (next_payload_le hdecodes).trans_lt hlength
  have hcount : (t.fields.toList.take (rootFieldCount - 1)).length ≤ rootFieldCount - 1 :=
    List.length_take_le _ _
  obtain ⟨hfields, hfound⟩ := readItems_encoded hroot t.root_items
    (by rw [List.length_append, List.length_map]; exact Nat.succ_le_succ hcount) hrootLe
  have hextraMem : t.fields.get RootField.extra ∈ t.fields.toList := by
    rw [t.fields_split]
    exact List.mem_append_right _ (List.mem_singleton.mpr rfl)
  have hextraLe := (readItems_payload_le t.root_items hextraMem).trans_lt hrootLe
  rw [t.fields_split, List.map_append, List.map_singleton] at hfound
  have hextra := (List.cons.inj (List.append_inj_right' hfound rfl)).1
  obtain ⟨hextraMin, hfound⟩ := readItems_encoded hextra t.extra_items le_rfl hextraLe
  have hinnerLe :=
    (readItems_payload_le t.extra_items (List.mem_singleton.mpr rfl)).trans_lt hextraLe
  obtain ⟨hinnerMin, hfound⟩ :=
    readItems_encoded (List.cons.inj hfound).1 t.inner_items le_rfl hinnerLe
  have hextraTo : t.extraTo = t.extraToContents.piece := by
    simp only [List.map_cons, List.map_nil, List.cons.injEq, and_true] at hfound
    exact hfound.2.2
  have hextraToLe : t.extraTo.payload.length < 256 ^ 8 :=
    (readItems_payload_le t.inner_items (by simp)).trans_lt hinnerLe
  exact ⟨hheader, hfields, hextraMin, hinnerMin,
    fun hkind => (recipients_minimal hextraTo hkind hextraToLe).1,
    fun r hr => (recipients_minimal hextraTo (extraTo_kind hr) hextraToLe).2 r hr⟩

/-! ## Accepted bytes -/

/-- The bytes were parsed into this state, with minimal headers in every list and no
list that goes on after its last field. -/
def AllMinimal (bytes : List UInt8) (state : ParserState) : Prop :=
  ∃ t, Holds bytes state t ∧ t.HeadersMinimal bytes

/-- What one read consumes is canonical just when its header is minimal. Parsed
bytes are the canonical encoding of the contents they are parsed into just when all
headers are minimal, and then no other such bytes have these contents. -/
theorem canonical_iff_minimal :
    (∀ (mem : List UInt8) (base len offset : Nat) (tx : Bool) (before rlp : Rlp)
      (ctx : ParserContext), base + len ≤ mem.length → len ≤ 65535 → offset ≤ len →
      (rlpRead mem).outcome (⟨some base, len, offset, tx⟩, before) = .done () (ctx, rlp) →
      (slice mem (base + offset) (ctx.offset - offset) =
          Piece.encode ⟨rlp.kind, rlp.content mem⟩ ↔
        MinimalHeader (slice mem (base + offset) (len - offset)))) ∧
    (∀ (bytes : List UInt8) (state : ParserState), bytes.length ≤ 65535 → Parsed bytes state →
      (bytes = (state.txObj.contents bytes).encode ↔ AllMinimal bytes state)) ∧
    ∀ (bytes bytes' : List UInt8) (state state' : ParserState), bytes.length ≤ 65535 →
      bytes'.length ≤ 65535 → Parsed bytes state → Parsed bytes' state' →
      AllMinimal bytes state → AllMinimal bytes' state' →
      state.txObj.contents bytes = state'.txObj.contents bytes' → bytes = bytes' := by
  have hparsed : ∀ (bytes : List UInt8) (state : ParserState), bytes.length ≤ 65535 →
      Parsed bytes state →
      (bytes = (state.txObj.contents bytes).encode ↔ AllMinimal bytes state) := by
    intro bytes state hlength hparsed
    obtain ⟨t, hholds⟩ := hparsed.exists_holds
    have hdecodes := hholds.decodes
    rw [seen_of_lt (by omega)] at hdecodes
    rw [hholds.views.contents_eq (u16_length_le bytes) (Holds.length_lt bytes)]
    constructor
    · intro heq
      exact ⟨t, hholds, t.headersMinimal_of_eq hdecodes (lt_header_limit (by omega)) heq⟩
    · rintro ⟨t', hholds', hminimal⟩
      obtain rfl := hholds.unique hholds'
      exact hminimal.eq_encode hdecodes
  refine ⟨?_, hparsed, ?_⟩
  · intro mem base len offset tx before rlp ctx hmem hlen hoff hend
    exact rlpRead_consumed_iff hmem hlen hoff hend
  · intro bytes bytes' state state' hlength hlength' h h' hminimal hminimal' hsame
    calc bytes = (state.txObj.contents bytes).encode := (hparsed _ _ hlength h).mpr hminimal
      _ = (state'.txObj.contents bytes').encode := by rw [hsame]
      _ = bytes' := ((hparsed _ _ hlength' h').mpr hminimal').symm

/-- The nonce 5 is a string of one byte where it could stand for itself. -/
def wrappedNonce : List UInt8 :=
  [0xd2, 0x81, 0x05, 0x80, 0x80, 0x80, 0x80, 0x80, 0x03, 0x80, 0x80, 0x80, 0x80, 0x80, 0xc4, 0xc3,
    0x80, 0x80, 0xc0]

/-- The same transaction, in its canonical encoding. -/
def plainNonce : List UInt8 :=
  [0xd1, 0x05, 0x80, 0x80, 0x80, 0x80, 0x80, 0x03, 0x80, 0x80, 0x80, 0x80, 0x80, 0xc4, 0xc3, 0x80,
    0x80, 0xc0]

theorem plainNonce_parsed : Parsed plainNonce (parsedState plainNonce) :=
  ⟨.initial, by decide +kernel⟩

theorem wrappedNonce_parsed : Parsed wrappedNonce (parsedState wrappedNonce) :=
  ⟨.initial, by decide +kernel⟩

theorem wrappedNonce_contents : (parsedState wrappedNonce).txObj.contents wrappedNonce =
    (parsedState plainNonce).txObj.contents plainNonce := by
  decide +kernel

/-- Of the two transactions with the nonce 5, the canonical one has minimal headers
and the other has not. -/
theorem canonical_iff_minimal_nonce :
    ¬ MinimalHeader [0x81, 0x05] ∧ AllMinimal plainNonce (parsedState plainNonce) ∧
      ¬ AllMinimal wrappedNonce (parsedState wrappedNonce) := by
  have hread : (rlpRead [0x81, 0x05]).outcome (⟨some 0, 2, 0, false⟩, Rlp.zero) =
      .done () (⟨some 0, 2, 2, false⟩, ⟨.string, some 1, 1⟩) := by decide +kernel
  have hitem := canonical_iff_minimal.1 _ 0 2 0 false _ _ _ (by decide) (by decide) (by decide)
    hread
  have hminimal : AllMinimal plainNonce (parsedState plainNonce) :=
    (canonical_iff_minimal.2.1 plainNonce _ (by decide) plainNonce_parsed).mp (by decide +kernel)
  refine ⟨fun hheader => absurd (hitem.mpr hheader) (by decide), hminimal, fun hwrapped => ?_⟩
  exact absurd (canonical_iff_minimal.2.2 _ _ _ _ (by decide) (by decide) wrappedNonce_parsed
    plainNonce_parsed hwrapped hminimal wrappedNonce_contents) (by decide)

/-- A byte in a string of one byte is read although its encoding is longer than the
canonical one, and two different byte strings are parsed into the same contents. -/
theorem wrappedNonce_not_canonical :
    (∃ rlp, (rlpRead [0x81, 0x05]).outcome (⟨some 0, 2, 0, false⟩, Rlp.zero) =
        .done () (⟨some 0, 2, 2, false⟩, rlp) ∧
      rlp.content [0x81, 0x05] = [0x05] ∧ (Item.string [0x05]).encode = [0x05]) ∧
    wrappedNonce ≠ plainNonce ∧ Parsed wrappedNonce (parsedState wrappedNonce) ∧
    Parsed plainNonce (parsedState plainNonce) ∧
    (parsedState wrappedNonce).txObj.contents wrappedNonce =
      (parsedState plainNonce).txObj.contents plainNonce := by
  refine ⟨⟨⟨.string, some 1, 1⟩, ?_⟩, ?_, wrappedNonce_parsed, plainNonce_parsed,
    wrappedNonce_contents⟩
  · decide +kernel
  · decide

end LedgerMatrix
