import LedgerMatrix.Rlp.Layout
import LedgerMatrix.Uint256.Value

/-! # What the readers do

One specification per function of `rlp.c`. Each says which bytes are consumed,
what the stored items stand for, and with which code the function gives up, in
terms of the pointer-free reading of the same bytes. It also says that no read
leaves the memory, no write leaves its array and no length is cut.
-/

namespace LedgerMatrix

open Imperative RecursiveLength

section Context

variable {mem : List UInt8} {base len offset : Nat} {tx : Bool}

theorem slice_drop (mem : List UInt8) (start count skip : Nat) :
    (slice mem start count).drop skip = slice mem (start + skip) (count - skip) := by
  rw [slice, slice, List.drop_take, List.drop_drop]

theorem remaining_eq (hoff : offset ≤ len) (hlen : len < 2 ^ 16) :
    (ParserContext.mk (some base) len offset tx).remaining = len - offset := by
  unfold ParserContext.remaining
  simp only
  omega

theorem wp_readBytes (hoff : offset ≤ len) (hlen : len < 2 ^ 16) {count : Nat}
    {post : Option Nat → ParserContext → Prop} {early : Stop → ParserContext → Prop}
    (hpost : offset + count ≤ len →
      post (some (base + offset)) ⟨some base, len, offset + count, tx⟩)
    (hearly : len < offset + count →
      early (.error .unexpectedBufferEnd) ⟨some base, len, offset, tx⟩) :
    (readBytes count).wp Event.Good ⟨some base, len, offset, tx⟩ post early := by
  unfold readBytes
  simp only [Command.wp_bind, Command.wp_read, remaining_eq hoff hlen]
  split
  next hshort => exact (wp_fail _).mpr (hearly (by omega))
  next henough =>
    have hfit : u16 (offset + count) = offset + count := Nat.mod_eq_of_lt (by omega)
    simp only [Command.wp_bind, Command.wp_modify, Command.wp_emit, Command.wp_pure, hfit,
      Event.Good, Option.map_some]
    exact ⟨by omega, hpost (by omega)⟩

theorem wp_copyBytes (hmem : base + len ≤ mem.length) (hoff : offset ≤ len)
    (hlen : len < 2 ^ 16) {count : Nat} (hcount : offset + count ≤ len)
    {post : List UInt8 → ParserContext → Prop} {early : Stop → ParserContext → Prop}
    (hpost : post (slice mem (base + offset) count) ⟨some base, len, offset + count, tx⟩) :
    (copyBytes mem count).wp Event.Good ⟨some base, len, offset, tx⟩ post early := by
  have hfit : u16 (offset + count) = offset + count := Nat.mod_eq_of_lt (by omega)
  unfold copyBytes
  simp only [Command.wp_bind, Command.wp_read, remaining_eq hoff hlen]
  rw [if_neg (by omega)]
  simp only [Command.wp_bind, Option.map_some]
  apply wp_loadBytes (by omega)
  simp only [Command.wp_modify, Command.wp_emit, Command.wp_pure, hfit, Event.Good]
  exact ⟨hcount, hpost⟩

end Context

/-! ## One item -/

section Item

variable {mem : List UInt8} {base len offset : Nat} {tx : Bool} {rlp : Rlp}
  {early : Stop → ParserContext × Rlp → Prop}

/-- The loop leaves the number that the length bytes denote. -/
theorem wp_rlpLenLoop {address : Nat} {kind : Kind} {ptr : Option Nat} {ctx : ParserContext}
    {post : Unit → ParserContext × Rlp → Prop} {left i : Nat}
    (hmem : address + (i + left) ≤ mem.length) (hwidth : i + left ≤ 8)
    (hpost : post () (ctx, ⟨kind, ptr, BigEndian.value (slice mem address (i + left))⟩)) :
    (rlpLenLoop mem (some address) left i).wp Event.Good
      (ctx, ⟨kind, ptr, BigEndian.value (slice mem address i)⟩) post early := by
  induction left generalizing i with
  | zero => exact (Command.wp_pure ()).mpr hpost
  | succ left ih =>
      have hlt : address + i < mem.length := by omega
      have hconcat : slice mem address (i + 1) = slice mem address i ++ [mem[address + i]] := by
        rw [slice, slice, List.take_add_one, List.getElem?_drop, List.getElem?_eq_getElem hlt]
        rfl
      -- at most eight bytes are read, so no shift drops a bit of the `uint64_t`
      have hbound : BigEndian.value (slice mem address (i + 1)) < 2 ^ 64 := by
        have hvalue := BigEndian.value_lt (slice mem address (i + 1))
        rw [slice_length (by omega)] at hvalue
        calc BigEndian.value (slice mem address (i + 1)) < 256 ^ (i + 1) := hvalue
          _ ≤ 256 ^ 8 := Nat.pow_le_pow_right (by decide) (by omega)
          _ = 2 ^ 64 := by decide
      rw [hconcat, BigEndian.value_concat] at hbound
      have hstep : u64 (u64 (BigEndian.value (slice mem address i) * 2 ^ 8) +
          mem[address + i].toNat) = BigEndian.value (slice mem address (i + 1)) := by
        rw [hconcat, BigEndian.value_concat]
        unfold u64
        omega
      unfold rlpLenLoop
      simp only [Command.wp_bind, Option.map_some]
      apply wp_load hlt
      simp only [Command.wp_modify, hstep]
      have harith : i + 1 + left = i + (left + 1) := by omega
      apply ih (by omega) (by omega)
      rw [harith]
      exact hpost

theorem next_of_header_le {bytes : List UInt8} {h : Header} (hread : header bytes = some h)
    (hle : h.total ≤ bytes.length) :
    next bytes = some (h.piece bytes, bytes.drop h.total) :=
  next_eq_some.mpr ⟨h, front_eq_some.mpr ⟨hread, hle⟩, rfl, rfl⟩

theorem next_of_header_lt {bytes : List UInt8} {h : Header} (hread : header bytes = some h)
    (hlt : bytes.length < h.total) : next bytes = none := by
  rw [next, front, hread, Option.filter_some, if_neg]
  · rfl
  · simpa using hlt

theorem next_of_header_none {bytes : List UInt8} (hread : header bytes = none) :
    next bytes = none := by
  rw [next, front, hread]
  rfl

/-- Once the header is known, reading the payload reads the item. -/
theorem wp_rlpReadPayload (hmem : base + len ≤ mem.length) (hlen : len < 2 ^ 16) {kind : Kind}
    {size length : Nat} {ptr : Option Nat} (hkind : kind ≠ .byte) (hsize : 0 < size)
    (hoff : offset + size ≤ len)
    (hheader : header (slice mem (base + offset) (len - offset)) = some ⟨kind, size, length⟩)
    {post : Unit → ParserContext × Rlp → Prop}
    (hpost : ∀ piece offset' rlp, offset < offset' → offset' ≤ len →
      next (slice mem (base + offset) (len - offset)) =
        some (piece, slice mem (base + offset') (len - offset')) →
      rlp.Stands mem (base + offset) (base + offset') piece →
      post () (⟨some base, len, offset', tx⟩, rlp))
    (hearly : next (slice mem (base + offset) (len - offset)) = none →
      ∀ s, early (.error .unexpectedBufferEnd) s) :
    rlpReadPayload.wp Event.Good
      (⟨some base, len, offset + size, tx⟩, ⟨kind, ptr, length⟩) post early := by
  have hwindow : (slice mem (base + offset) (len - offset)).length = len - offset :=
    slice_length (by omega)
  unfold rlpReadPayload
  simp only [Command.wp_bind, Command.wp_read, Command.wp_zoom, Lens.fst_get, Lens.fst_set]
  apply wp_readBytes hoff hlen
  · intro hfit
    simp only [Command.wp_modify]
    have hpayload : slice (slice mem (base + offset) (len - offset)) size length =
        slice mem (base + (offset + size)) length := by
      rw [slice_slice (by omega), Nat.add_assoc]
    have hlength : (slice mem (base + (offset + size)) length).length = length :=
      slice_length (by omega)
    refine hpost ⟨kind, slice mem (base + (offset + size)) length⟩ (offset + size + length) _
      (by omega) hfit ?_ ⟨rfl, ?_, fun h => absurd h hkind, base + (offset + size), rfl,
        by omega, ?_, ?_⟩
    · have htotal : (Header.mk kind size length).total ≤
          (slice mem (base + offset) (len - offset)).length := by
        rw [hwindow, Header.total_mk]
        omega
      have hrest : slice mem (base + (offset + size + length)) (len - (offset + size + length)) =
          (slice mem (base + offset) (len - offset)).drop (Header.mk kind size length).total := by
        rw [slice_drop, Header.total_mk]
        congr 1 <;> omega
      rw [next_of_header_le hheader htotal, hrest, ← hpayload]
      rfl
    · simp only [hlength, storedLength]
    · simp only [hlength]
      omega
    · simp only [hlength]
  · -- the header announces more than is left
    intro hshort
    refine hearly (next_of_header_lt hheader ?_) _
    rw [hwindow, Header.total_mk]
    omega

theorem wp_rlpReadShort (hmem : base + len ≤ mem.length) (hlen : len < 2 ^ 16) {kind : Kind}
    {length : Nat} (hkind : kind ≠ .byte) (hoff : offset + 1 ≤ len)
    (hheader : header (slice mem (base + offset) (len - offset)) = some ⟨kind, 1, length⟩)
    {post : Unit → ParserContext × Rlp → Prop}
    (hpost : ∀ piece offset' rlp, offset < offset' → offset' ≤ len →
      next (slice mem (base + offset) (len - offset)) =
        some (piece, slice mem (base + offset') (len - offset')) →
      rlp.Stands mem (base + offset) (base + offset') piece →
      post () (⟨some base, len, offset', tx⟩, rlp))
    (hearly : next (slice mem (base + offset) (len - offset)) = none →
      ∀ s, early (.error .unexpectedBufferEnd) s) :
    (rlpReadShort kind length).wp Event.Good (⟨some base, len, offset + 1, tx⟩, rlp) post
      early := by
  unfold rlpReadShort
  simp only [Command.wp_bind, Command.wp_modify]
  exact wp_rlpReadPayload hmem hlen hkind Nat.one_pos hoff hheader hpost hearly

theorem wp_rlpReadLong (hmem : base + len ≤ mem.length) (hlen : len < 2 ^ 16) {kind : Kind}
    {count : Nat} (hkind : kind ≠ .byte) (hcount : count ≤ 8) (hoff : offset + 1 ≤ len)
    (hheader : header (slice mem (base + offset) (len - offset)) =
      longHeader kind count (slice mem (base + (offset + 1)) (len - (offset + 1))))
    {post : Unit → ParserContext × Rlp → Prop}
    (hpost : ∀ piece offset' rlp, offset < offset' → offset' ≤ len →
      next (slice mem (base + offset) (len - offset)) =
        some (piece, slice mem (base + offset') (len - offset')) →
      rlp.Stands mem (base + offset) (base + offset') piece →
      post () (⟨some base, len, offset', tx⟩, rlp))
    (hearly : next (slice mem (base + offset) (len - offset)) = none →
      ∀ s, early (.error .unexpectedBufferEnd) s) :
    (rlpReadLong mem kind count).wp Event.Good (⟨some base, len, offset + 1, tx⟩, rlp) post
      early := by
  have hrest : (slice mem (base + (offset + 1)) (len - (offset + 1))).length =
      len - (offset + 1) := slice_length (by omega)
  unfold rlpReadLong
  simp only [Command.wp_bind, Command.wp_modify, Command.wp_zoom, Lens.fst_get, Lens.fst_set]
  apply wp_readBytes hoff hlen
  · intro hfit
    have hlong : header (slice mem (base + offset) (len - offset)) = some
        ⟨kind, 1 + count, BigEndian.value (slice mem (base + (offset + 1)) count)⟩ := by
      have htake : (slice mem (base + (offset + 1)) (len - (offset + 1))).take count =
          slice mem (base + (offset + 1)) count := by
        rw [slice, slice, List.take_take, Nat.min_eq_left (by omega)]
      rw [hheader, longHeader, if_pos (by omega), htake]
    refine wp_rlpLenLoop (i := 0) (by omega) (by omega) ?_
    rw [Nat.zero_add, Nat.add_assoc]
    exact wp_rlpReadPayload hmem hlen hkind (by omega) (by omega) hlong hpost hearly
  · -- the bytes end within the length
    intro hshort
    refine hearly (next_of_header_none ?_) _
    rw [hheader, longHeader, if_neg (by omega)]

/-- Reading an item reads the first item of the bytes left, or fails for want of
bytes. -/
theorem wp_rlpRead (hmem : base + len ≤ mem.length) (hlen : len < 2 ^ 16) (hoff : offset ≤ len)
    {post : Unit → ParserContext × Rlp → Prop}
    (hpost : ∀ piece offset' rlp, offset < offset' → offset' ≤ len →
      next (slice mem (base + offset) (len - offset)) =
        some (piece, slice mem (base + offset') (len - offset')) →
      rlp.Stands mem (base + offset) (base + offset') piece →
      post () (⟨some base, len, offset', tx⟩, rlp))
    (hearly : next (slice mem (base + offset) (len - offset)) = none →
      ∀ s, early (.error .unexpectedBufferEnd) s) :
    (rlpRead mem).wp Event.Good (⟨some base, len, offset, tx⟩, rlp) post early := by
  unfold rlpRead
  simp only [Command.wp_bind, Command.wp_zoom, Lens.fst_get, Lens.fst_set]
  apply wp_readBytes hoff hlen
  · intro hone
    have hlt : base + offset < mem.length := by omega
    have hsplit : len - offset = len - (offset + 1) + 1 := by omega
    have hwindow : slice mem (base + offset) (len - offset) =
        mem[base + offset] :: slice mem (base + (offset + 1)) (len - (offset + 1)) := by
      rw [hsplit, slice_succ hlt, Nat.add_assoc]
    have hheader := (congrArg header hwindow).trans (header_cons _ _)
    apply wp_load hlt
    split
    next hbyte =>
      -- the prefix is the payload
      rw [if_pos hbyte] at hheader
      have hbytes : (slice mem (base + offset) (len - offset)).length = len - offset :=
        slice_length (by omega)
      have hone' : slice mem (base + offset) 1 = [mem[base + offset]] := by
        rw [slice_succ hlt]
        simp [slice]
      have hnext := next_of_header_le hheader (by rw [hbytes, Header.total_mk]; omega)
      rw [Header.total_mk, slice_drop, Nat.zero_add, Nat.sub_sub, Nat.add_assoc] at hnext
      have hpiece : (Header.mk Kind.byte 0 1).piece (slice mem (base + offset) (len - offset)) =
          ⟨.byte, slice mem (base + offset) 1⟩ := by
        rw [hwindow, hone']
        rfl
      simp only [Command.wp_modify]
      rw [hpiece] at hnext
      have hlength : (slice mem (base + offset) 1).length = 1 := slice_length (by omega)
      refine hpost _ _ _ (Nat.lt_succ_self _) hone hnext
        ⟨rfl, rfl, fun _ => hlength, base + offset, rfl, le_rfl, ?_, ?_⟩
      · simp only [hlength, Nat.add_assoc, le_refl]
      · simp only [hlength]
    next hbyte =>
    rw [if_neg hbyte] at hheader
    split
    next hshort =>
      rw [if_pos hshort] at hheader
      exact wp_rlpReadShort hmem hlen (by decide) hone hheader hpost hearly
    next hshort =>
    rw [if_neg hshort] at hheader
    split
    next hlong =>
      rw [if_pos hlong] at hheader
      exact wp_rlpReadLong hmem hlen (by decide) (by omega) hone hheader hpost hearly
    next hlong =>
    rw [if_neg hlong] at hheader
    split
    next hlist =>
      rw [if_pos hlist] at hheader
      exact wp_rlpReadShort hmem hlen (by decide) hone hheader hpost hearly
    next hlist =>
      rw [if_neg hlist] at hheader
      have hmax : mem[base + offset].toNat < 256 := mem[base + offset].toNat_lt
      exact wp_rlpReadLong hmem hlen (by decide) (by omega) hone hheader hpost hearly
  · intro hempty
    refine hearly ?_ _
    have hnil : slice mem (base + offset) (len - offset) = [] := by
      rw [Nat.sub_eq_zero_of_le (by omega), slice, List.take_zero]
    rw [hnil]
    rfl

end Item

/-! ## Several items -/

/-- `rlps` were read into the array, and `left` is what stands after them. -/
structure Fields.Holds {n : Nat} (fields : Fields n) (rlps left : List Rlp) : Prop where
  items_eq : fields.items.toList = rlps ++ left
  count_eq : fields.count = rlps.length

section Stream

variable {mem : List UInt8} {base len : Nat} {tx : Bool} {n maxFields : Nat}

theorem Fields.Holds.length_le {fields : Fields n} {rlps left : List Rlp}
    (h : fields.Holds rlps left) : rlps.length + left.length = n := by
  have hlength := congrArg List.length h.items_eq
  simpa using hlength.symm

/-- Reading one more item into the array. -/
theorem Fields.Holds.push {fields : Fields n} {rlps left : List Rlp} {old : Rlp}
    (h : fields.Holds rlps (old :: left)) (hlt : fields.count < n) (hn : rlps.length < 2 ^ 16 - 1)
    (rlp : Rlp) :
    Fields.Holds { (Fields.item ⟨fields.count, hlt⟩).set rlp fields with
      count := u16 (fields.count + 1) } (rlps ++ [rlp]) left := by
  constructor
  · change (fields.items.set fields.count rlp hlt).toList = _
    rw [Vector.toList_set, h.items_eq, h.count_eq]
    simp
  · change u16 (fields.count + 1) = _
    rw [h.count_eq, List.length_append, List.length_singleton]
    exact Nat.mod_eq_of_lt (by omega)

/-- The loop reads what is left of the count, after the items already read. -/
theorem wp_rlpParseStreamLoop (hmem : base + len ≤ mem.length) (hlen : len < 2 ^ 16)
    (hmax : maxFields ≤ n) (hwidth : maxFields < 2 ^ 16)
    {post : Unit → ParserContext × Fields n → Prop}
    {early : Stop → ParserContext × Fields n → Prop} :
    ∀ {passes offset : Nat} {fields : Fields n} {written left : List Rlp}, offset ≤ len →
      fields.Holds written left → written.length + passes = maxFields →
      (∀ found rlps offset' fields', offset ≤ offset' → offset' ≤ len →
        takePieces passes (slice mem (base + offset) (len - offset)) =
          some (found, slice mem (base + offset') (len - offset')) →
        Layout mem (base + offset) (base + offset') rlps found →
        fields'.Holds (written ++ rlps) (left.drop rlps.length) →
        post () (⟨some base, len, offset', tx⟩, fields')) →
      (takePieces passes (slice mem (base + offset) (len - offset)) = none →
        ∀ s, early (.error .unexpectedBufferEnd) s) →
      (rlpParseStreamLoop mem maxFields passes).wp Event.Good
        (⟨some base, len, offset, tx⟩, fields) post early := by
  intro passes
  induction passes with
  | zero =>
      intro offset fields written left hoff hfields hcount hpost hearly
      have hfull : ¬ fields.count < maxFields := by
        rw [hfields.count_eq]
        omega
      simp only [rlpParseStreamLoop, Command.wp_bind, Command.wp_read, hfull, and_false, if_false,
        Command.wp_pure]
      exact hpost [] [] offset fields le_rfl hoff (takePieces_zero _) (.nil le_rfl)
        (by simpa using hfields)
  | succ passes ih =>
      intro offset fields written left hoff hfields hcount hpost hearly
      have hroom : fields.count < maxFields := by
        rw [hfields.count_eq]
        omega
      simp only [rlpParseStreamLoop, Command.wp_bind, Command.wp_read]
      split
      next hmore =>
        have hwindow : slice mem (base + offset) (len - offset) ≠ [] := by
          rw [← List.length_pos_iff_ne_nil, slice_length (by omega)]
          omega
        have htotal := hfields.length_le
        rw [hfields.count_eq] at hroom
        -- the array has a place left for the item
        obtain ⟨old, left, rfl⟩ : ∃ old tail, left = old :: tail := by
          cases left with
          | nil => rw [List.length_nil] at htotal; omega
          | cons old tail => exact ⟨old, tail, rfl⟩
        have hindex : fields.count < n := by
          rw [hfields.count_eq]
          omega
        simp only [hindex, dif_pos, Command.wp_bind, Command.wp_zoom]
        apply wp_rlpRead hmem hlen hoff
        · intro piece middle rlp hlt hmiddle hnext hstands
          simp only [Command.wp_modify]
          refine ih hmiddle (hfields.push hindex (by omega) rlp)
            (by rw [List.length_append, List.length_singleton]; omega) ?_ ?_
          · intro found rlps offset' fields' hle hend htake hlayout hholds
            refine hpost (piece :: found) (rlp :: rlps) offset' fields' (by omega) hend ?_
              (.cons hstands hlayout) (by simpa using hholds)
            rw [takePieces_succ hwindow, hnext, Option.bind_some, htake]
            rfl
          · intro hnone
            refine hearly ?_
            rw [takePieces_succ hwindow, hnext, Option.bind_some, hnone]
            rfl
        · intro hnone s
          refine hearly ?_ _
          rw [takePieces_succ hwindow, hnone]
          rfl
      next hend =>
        -- the bytes are used up before the array is full
        have hstop : offset = len := by omega
        have hwindow : slice mem (base + offset) (len - offset) = [] := by
          rw [hstop, Nat.sub_self, slice, List.take_zero]
        simp only [Command.wp_pure]
        refine hpost [] [] offset fields le_rfl hoff ?_ (.nil le_rfl) (by simpa using hfields)
        rw [hwindow, takePieces_nil]

/-- Parsing a stream reads at most `maxFields` items into the array, from its
first element on, and leaves the elements after them alone. -/
theorem wp_rlpParseStream (hmem : base + len ≤ mem.length) (hlen : len < 2 ^ 16)
    (hmax : maxFields ≤ n) (hwidth : maxFields < 2 ^ 16) {fields : Fields n}
    {post : Unit → ParserContext × Fields n → Prop}
    {early : Stop → ParserContext × Fields n → Prop}
    (hpost : ∀ found rlps offset' fields', offset' ≤ len →
      takePieces maxFields (slice mem base len) =
        some (found, slice mem (base + offset') (len - offset')) →
      Layout mem base (base + offset') rlps found →
      fields'.Holds rlps (fields.items.toList.drop rlps.length) →
      post () (⟨some base, len, offset', tx⟩, fields'))
    (hearly : takePieces maxFields (slice mem base len) = none →
      ∀ s, early (.error .unexpectedBufferEnd) s) :
    (rlpParseStream mem maxFields).wp Event.Good (⟨some base, len, 0, tx⟩, fields) post
      early := by
  unfold rlpParseStream
  simp only [Command.wp_bind, Command.wp_modify]
  have hstart : Fields.Holds { fields with count := 0 } [] fields.items.toList := ⟨rfl, rfl⟩
  refine wp_rlpParseStreamLoop hmem hlen hmax hwidth (Nat.zero_le len) hstart
    (Nat.zero_add maxFields) ?_ (by simpa using hearly)
  intro found rlps offset' fields' _ hend htake hlayout hholds
  exact hpost found rlps offset' fields' hend (by simpa using htake) (by simpa using hlayout)
    (by simpa using hholds)

/-- Reading a list reads the first items of its payload. What stands after them
is not looked at. -/
theorem wp_rlpReadList {lo hi : Nat} (hmem : hi ≤ mem.length) {list : Rlp} {piece : Piece}
    (hstands : list.Stands mem lo hi piece) (hlen : piece.payload.length < 2 ^ 16)
    (hmax : maxFields ≤ n) (hwidth : maxFields < 2 ^ 16) {fields : Fields n}
    {post : Unit → Fields n → Prop} {early : Stop → Fields n → Prop}
    (hpost : ∀ found rlps fields', readItems maxFields piece = .ok found →
      piece.kind = .list →
      (∃ address, list.ptr = some address ∧ lo ≤ address ∧ address + list.rlpLen ≤ hi ∧
        Layout mem address (address + list.rlpLen) rlps found) →
      fields'.Holds rlps (fields.items.toList.drop rlps.length) → post () fields')
    (hearly : ∀ code, readItems maxFields piece = .error code → ∀ s, early (.error code) s) :
    (rlpReadList mem list maxFields).wp Event.Good fields post early := by
  unfold rlpReadList
  rw [hstands.kind_eq]
  split
  next hne => exact (wp_fail _).mpr (hearly _ (by rw [readItems, if_pos hne]) _)
  next hkind =>
    have hlist := not_not.mp hkind
    have hlength := hstands.rlpLen_of_ne (by rw [hlist]; decide)
    obtain ⟨address, hptr, hstart, hend, hpayload⟩ := hstands.located
    rw [← hlength] at hend hpayload
    -- the payload is part of a buffer whose length has 16 bits
    have hnarrow : u16 list.rlpLen = list.rlpLen := Nat.mod_eq_of_lt (by omega)
    unfold withContext
    simp only [Command.wp_bind, Command.wp_emit, Command.wp_scope, hnarrow, Event.Good, hptr,
      true_and]
    apply wp_rlpParseStream (by omega) (by omega) hmax hwidth
    · intro found rlps offset' fields' hle htake hlayout hholds
      rw [hpayload] at htake
      refine hpost found rlps fields' ?_ hlist
        ⟨address, hptr, hstart, hend, hlayout.mono le_rfl (by omega)⟩ hholds
      rw [readItems, if_neg hkind, htake]
    · intro hnone s
      rw [hpayload] at hnone
      refine hearly _ ?_ _
      rw [readItems, if_neg hkind, hnone]

end Stream

/-! ## Numbers -/

section Number

variable {mem : List UInt8} {σ : Type} {s : σ}

/-- The number in the 32 bytes of `tmpBuffer`. -/
theorem val_tmpBuffer {tmpBuffer : List UInt8} (h : tmpBuffer.length = 32) :
    (readu256BE fun i => tmpBuffer.getD i 0).val = BigEndian.value tmpBuffer := by
  rw [val_readu256BE]
  congr 1
  apply List.ext_getElem
  · simp [h]
  · intro i hi hi'
    simp [hi']

/-- Reading a number changes nothing, and gives the number that the bytes of the
item denote. -/
theorem wp_rlpReadUInt256 {lo hi : Nat} (hmem : hi ≤ mem.length) {rlp : Rlp} {piece : Piece}
    (hstands : rlp.Stands mem lo hi piece) {post : Uint256 → σ → Prop} {early : Stop → σ → Prop}
    (hpost : ∀ value, readUInt256 piece = .ok value.val → post value s)
    (hearly : ∀ code, readUInt256 piece = .error code → early (.error code) s) :
    (rlpReadUInt256 mem rlp : Parser σ Uint256).wp Event.Good s post early := by
  unfold rlpReadUInt256
  rw [hstands.kind_eq]
  cases hkind : piece.kind with
  | byte =>
      obtain ⟨address, hlt, hptr, hpayload⟩ := hstands.byte_payload hkind hmem
      simp only [hptr, Command.wp_bind]
      apply wp_load hlt
      simp only [Command.wp_pure]
      apply hpost
      rw [readUInt256, hkind, val_tmpBuffer (by simp), BigEndian.value_replicate_append, hpayload]
  | string =>
      have hlength := hstands.rlpLen_of_ne (by rw [hkind]; decide)
      obtain ⟨address, hptr, hstart, hend, hpayload⟩ := hstands.located
      simp only [hlength]
      split
      next hlong =>
        refine (wp_fail _).mpr (hearly _ ?_)
        rw [readUInt256, hkind]
        exact if_pos hlong
      next hshort =>
        have hnarrow : u16 piece.payload.length = piece.payload.length :=
          Nat.mod_eq_of_lt (by omega)
        unfold withContext
        simp only [Command.wp_bind, Command.wp_emit, Command.wp_scope, hlength, hnarrow,
          Event.Good, hptr, true_and, Command.wp_zoom, Lens.fst_get, Lens.fst_set]
        apply wp_copyBytes (by omega) (Nat.zero_le _) (by omega) (by omega)
        simp only [Command.wp_pure, Nat.add_zero, hpayload]
        apply hpost
        rw [readUInt256, hkind, val_tmpBuffer (by simp; omega), BigEndian.value_replicate_append]
        exact if_neg hshort
  | list =>
      refine (wp_fail _).mpr (hearly _ ?_)
      rw [readUInt256, hkind]

end Number

end LedgerMatrix
