import LedgerMatrix.Foundation.RecursiveLength

/-! # The canonical encoding

Items are byte strings and lists of items. Each has one canonical encoding, with
the shortest header that tells its kind and length. The liberal reading of the
other module reads it back; a header that the reading accepts is canonical when it
is minimal.
-/

namespace RecursiveLength

/-- A byte string, or a list of items. -/
inductive Item where
  | string (bytes : List UInt8)
  | list (items : List Item)

/-- The first bytes of short headers start here. -/
def Kind.base : Kind → Nat
  | .list => 0xc0
  | _ => 0x80

/-- The shortest header of a string or list with a payload of this length. -/
def shortestHeader (kind : Kind) (length : Nat) : List UInt8 :=
  if length ≤ 55 then [UInt8.ofNat (kind.base + length)]
  else UInt8.ofNat (kind.base + 55 + (BigEndian.bytes length).length) :: BigEndian.bytes length

/-- A byte that stands for itself. -/
def StandsForItself (bytes : List UInt8) : Prop :=
  ∃ byte : UInt8, byte.toNat ≤ 0x7f ∧ bytes = [byte]

instance (bytes : List UInt8) : Decidable (StandsForItself bytes) :=
  match bytes with
  | [] => .isFalse (by rintro ⟨_, _, h⟩; cases h)
  | [byte] =>
      if h : byte.toNat ≤ 0x7f then .isTrue ⟨byte, h, rfl⟩
      else .isFalse (by rintro ⟨_, hle, heq⟩; cases heq; exact h hle)
  | _ :: _ :: _ => .isFalse (by rintro ⟨_, _, h⟩; cases h)

/-- The canonical encoding of a byte string. -/
def encodeString (bytes : List UInt8) : List UInt8 :=
  if StandsForItself bytes then bytes else shortestHeader .string bytes.length ++ bytes

/-- The canonical encoding of a list, from those of its items. -/
def encodeList (payload : List UInt8) : List UInt8 :=
  shortestHeader .list payload.length ++ payload

mutual

/-- The canonical encoding. -/
def Item.encode : Item → List UInt8
  | .string bytes => encodeString bytes
  | .list items => encodeList (Item.encodeAll items)

/-- The encodings of items, one after the other. -/
def Item.encodeAll : List Item → List UInt8
  | [] => []
  | item :: items => item.encode ++ Item.encodeAll items

end

/-- What reading an encoded byte string gives. -/
def stringPiece (bytes : List UInt8) : Piece :=
  ⟨if StandsForItself bytes then .byte else .string, bytes⟩

/-- What reading an encoded item gives. -/
def Item.piece : Item → Piece
  | .string bytes => stringPiece bytes
  | .list items => ⟨.list, Item.encodeAll items⟩

/-- The canonical encoding of an item of this kind with this payload. -/
def Piece.encode (piece : Piece) : List UInt8 :=
  match piece.kind with
  | .list => encodeList piece.payload
  | _ => encodeString piece.payload

/-! ## Headers -/

theorem Kind.base_le (kind : Kind) : kind.base ≤ 0xc0 := by
  cases kind <;> decide

theorem toNat_ofNat_base {kind : Kind} {length : Nat} (h : length < 64) :
    (UInt8.ofNat (kind.base + length)).toNat = kind.base + length := by
  have hbase := kind.base_le
  exact UInt8.toNat_ofNat_of_lt (by simp [UInt8.size]; omega)

/-- A header that announces the payload behind it is read with the payload. -/
theorem next_of_header {kind : Kind} {front payload rest : List UInt8}
    (h : header (front ++ (payload ++ rest)) = some ⟨kind, front.length, payload.length⟩) :
    next (front ++ (payload ++ rest)) = some (⟨kind, payload⟩, rest) := by
  refine next_eq_some.mpr ⟨⟨kind, front.length, payload.length⟩, front_eq_some.mpr ⟨h, ?_⟩, ?_, ?_⟩
  · simp only [Header.total_mk, List.length_append]
    omega
  · simp only [Header.piece, List.drop_left, List.take_left]
  · rw [Header.total_mk, ← List.drop_drop, List.drop_left, List.drop_left]

theorem longHeader_bytes (kind : Kind) (length : Nat) (tail : List UInt8) :
    longHeader kind (BigEndian.bytes length).length (BigEndian.bytes length ++ tail) =
      some ⟨kind, 1 + (BigEndian.bytes length).length, length⟩ := by
  rw [longHeader, if_pos (by rw [List.length_append]; omega), List.take_left,
    BigEndian.value_bytes]

/-- A shortest header is read as what it announces. -/
theorem header_shortestHeader {kind : Kind} (hkind : kind ≠ .byte) {length : Nat}
    (hlength : length < 256 ^ 8) (tail : List UInt8) :
    header (shortestHeader kind length ++ tail) =
      some ⟨kind, (shortestHeader kind length).length, length⟩ := by
  unfold shortestHeader
  split
  next hshort =>
    have hfirst : (UInt8.ofNat (kind.base + length)).toNat = kind.base + length :=
      toNat_ofNat_base (by omega)
    rw [List.singleton_append, header_cons, hfirst, List.length_singleton]
    cases kind with
    | byte => exact absurd rfl hkind
    | string =>
        have hbase : Kind.string.base = 0x80 := rfl
        have hsub : Kind.string.base + length - 0x80 = length := by omega
        rw [if_neg (by omega), if_pos (by omega), hsub]
    | list =>
        have hbase : Kind.list.base = 0xc0 := rfl
        have hsub : Kind.list.base + length - 0xc0 = length := by omega
        rw [if_neg (by omega), if_neg (by omega), if_neg (by omega), if_pos (by omega), hsub]
  next hlong =>
    have hpos : 0 < (BigEndian.bytes length).length :=
      List.length_pos_iff.mpr (BigEndian.bytes_ne_nil (by omega))
    have hle : (BigEndian.bytes length).length ≤ 8 := BigEndian.bytes_length_le hlength
    -- only the number of length bytes goes into the first byte
    generalize hbytes : BigEndian.bytes length = bytes at hpos hle
    have hfirst : (UInt8.ofNat (kind.base + 55 + bytes.length)).toNat =
        kind.base + 55 + bytes.length := by
      rw [Nat.add_assoc]
      exact toNat_ofNat_base (by omega)
    have hread := longHeader_bytes kind length tail
    rw [hbytes] at hread
    rw [List.cons_append, header_cons, hfirst, List.length_cons, Nat.add_comm bytes.length 1]
    cases kind with
    | byte => exact absurd rfl hkind
    | string =>
        have hbase : Kind.string.base = 0x80 := rfl
        have hcount : Kind.string.base + 55 + bytes.length - 0xb7 = bytes.length := by omega
        rw [if_neg (by omega), if_neg (by omega), if_pos (by omega), hcount, hread]
    | list =>
        have hbase : Kind.list.base = 0xc0 := rfl
        have hcount : Kind.list.base + 55 + bytes.length - 0xf7 = bytes.length := by omega
        rw [if_neg (by omega), if_neg (by omega), if_neg (by omega), if_neg (by omega), hcount,
          hread]

/-! ## Reading what was encoded -/

/-- A piece that reading its own encoding gives back: a byte is marked as such just
when it stands for itself. -/
def Piece.Proper (piece : Piece) : Prop :=
  piece.kind ≠ .list → (piece.kind = .byte ↔ StandsForItself piece.payload)

theorem stringPiece_proper (bytes : List UInt8) : (stringPiece bytes).Proper := by
  intro _
  unfold stringPiece
  split
  next hself => exact iff_of_true rfl hself
  next hself => exact iff_of_false (by simp) hself

theorem encode_stringPiece (bytes : List UInt8) :
    (stringPiece bytes).encode = encodeString bytes := by
  unfold stringPiece
  split <;> rfl

/-- An encoded piece is read, whatever follows it. -/
theorem next_encode_piece {piece : Piece} (hproper : piece.Proper)
    (hlength : piece.payload.length < 256 ^ 8) (rest : List UInt8) :
    next (piece.encode ++ rest) = some (piece, rest) := by
  obtain ⟨kind, payload⟩ := piece
  cases kind with
  | byte =>
      have hself := (hproper (by simp)).mp rfl
      simp only [Piece.encode, encodeString, if_pos hself]
      obtain ⟨byte, hle, rfl⟩ := hself
      have hread : header ([] ++ ([byte] ++ rest)) = some ⟨.byte, 0, 1⟩ := by
        rw [List.nil_append, List.singleton_append, header_cons, if_pos hle]
      exact @next_of_header .byte [] [byte] rest hread
  | string =>
      have hself : ¬ StandsForItself payload :=
        fun hself => absurd ((hproper (by simp)).mpr hself) (by simp)
      simp only [Piece.encode, encodeString, if_neg hself, List.append_assoc]
      exact next_of_header (header_shortestHeader (by decide) hlength _)
  | list =>
      simp only [Piece.encode, encodeList, List.append_assoc]
      exact next_of_header (header_shortestHeader (by decide) hlength _)

theorem shortestHeader_length_pos (kind : Kind) (length : Nat) :
    0 < (shortestHeader kind length).length := by
  unfold shortestHeader
  split <;> simp

theorem encodeString_length_pos (bytes : List UInt8) : 0 < (encodeString bytes).length := by
  unfold encodeString
  split
  next hself =>
    obtain ⟨byte, -, rfl⟩ := hself
    exact Nat.one_pos
  next =>
    rw [List.length_append]
    exact Nat.add_pos_left (shortestHeader_length_pos _ _) _

theorem encodeList_length_pos (payload : List UInt8) : 0 < (encodeList payload).length := by
  rw [encodeList, List.length_append]
  exact Nat.add_pos_left (shortestHeader_length_pos _ _) _

theorem Piece.encode_length_pos (piece : Piece) : 0 < piece.encode.length := by
  unfold Piece.encode
  split
  · exact encodeList_length_pos _
  · exact encodeString_length_pos _

theorem Piece.payload_length_le (piece : Piece) : piece.payload.length ≤ piece.encode.length := by
  unfold Piece.encode
  split
  · rw [encodeList, List.length_append]
    exact Nat.le_add_left _ _
  · unfold encodeString
    split
    · exact le_rfl
    · rw [List.length_append]
      exact Nat.le_add_left _ _

/-- The encodings of pieces are read as these pieces, to the end. -/
theorem takePieces_encodings {found : List Piece} {count : Nat}
    (hproper : ∀ piece ∈ found, piece.Proper) (hcount : found.length ≤ count)
    (hlength : (found.map Piece.encode).flatten.length < 256 ^ 8) :
    takePieces count (found.map Piece.encode).flatten = some (found, []) := by
  induction found generalizing count with
  | nil => exact takePieces_nil count
  | cons piece found ih =>
      obtain ⟨more, rfl⟩ : ∃ more, count = more + 1 := ⟨count - 1, by
        rw [List.length_cons] at hcount
        omega⟩
      rw [List.map_cons, List.flatten_cons, List.length_append] at hlength
      have hpos := piece.encode_length_pos
      have hpayload := piece.payload_length_le
      have hne : piece.encode ++ (found.map Piece.encode).flatten ≠ [] := by
        rw [← List.length_pos_iff, List.length_append]
        omega
      rw [List.map_cons, List.flatten_cons, takePieces_succ hne,
        next_encode_piece (hproper piece List.mem_cons_self) (by omega), Option.bind_some,
        ih (fun later hmem => hproper later (List.mem_cons_of_mem _ hmem))
          (Nat.le_of_succ_le_succ hcount) (by omega)]
      rfl

/-! ## Sequences of items -/

theorem Item.encode_piece (item : Item) : item.piece.encode = item.encode := by
  cases item with
  | string bytes => rw [Item.piece, Item.encode, encode_stringPiece]
  | list items => rw [Item.piece, Item.encode, Piece.encode]

theorem Item.piece_proper (item : Item) : item.piece.Proper := by
  cases item with
  | string bytes => exact stringPiece_proper bytes
  | list items => exact fun hkind => absurd rfl hkind

/-- An encoded item is read, whatever follows it. -/
theorem next_encode {item : Item} (hlength : item.piece.payload.length < 256 ^ 8)
    (rest : List UInt8) : next (item.encode ++ rest) = some (item.piece, rest) := by
  rw [← Item.encode_piece]
  exact next_encode_piece item.piece_proper hlength rest

theorem Item.encode_length_pos (item : Item) : 0 < item.encode.length :=
  item.encode_piece ▸ item.piece.encode_length_pos

theorem Item.payload_length_le (item : Item) : item.piece.payload.length ≤ item.encode.length :=
  item.encode_piece ▸ item.piece.payload_length_le

/-- The items of a list are encoded in fewer bytes than the list. -/
theorem Item.encodeAll_length_lt (items : List Item) :
    (Item.encodeAll items).length < (Item.list items).encode.length := by
  rw [Item.encode, encodeList, List.length_append]
  have hpos := shortestHeader_length_pos .list (Item.encodeAll items).length
  omega

theorem Item.encode_length_le_of_mem {items : List Item} {item : Item} (h : item ∈ items) :
    item.encode.length ≤ (Item.encodeAll items).length := by
  induction items with
  | nil => cases h
  | cons first items ih =>
      rw [Item.encodeAll, List.length_append]
      rcases List.mem_cons.mp h with rfl | h
      · exact Nat.le_add_right _ _
      · exact (ih h).trans (Nat.le_add_left _ _)

theorem Item.length_le_encodeAll (items : List Item) :
    items.length ≤ (Item.encodeAll items).length := by
  induction items with
  | nil => exact Nat.zero_le _
  | cons item items ih =>
      have hpos := item.encode_length_pos
      rw [Item.encodeAll, List.length_append, List.length_cons]
      omega

theorem Item.encodeAll_eq_flatten (items : List Item) :
    Item.encodeAll items = ((items.map Item.piece).map Piece.encode).flatten := by
  induction items with
  | nil => rfl
  | cons item items ih =>
      rw [Item.encodeAll, ih, List.map_cons, List.map_cons, List.flatten_cons, Item.encode_piece]

/-- The encodings of items are read as these items, to the end. -/
theorem takePieces_encodeAll {items : List Item} {count : Nat} (hcount : items.length ≤ count)
    (hlength : (Item.encodeAll items).length < 256 ^ 8) :
    takePieces count (Item.encodeAll items) = some (items.map Item.piece, []) := by
  rw [Item.encodeAll_eq_flatten] at hlength ⊢
  refine takePieces_encodings (fun piece hmem => ?_) (by rwa [List.length_map]) hlength
  obtain ⟨item, -, rfl⟩ := List.mem_map.mp hmem
  exact item.piece_proper

/-! ## Minimal headers -/

/-- The length bytes of a long header have no leading zero and say more than a
short header could. -/
def MinimalLength (count : Nat) (rest : List UInt8) : Prop :=
  rest.head? ≠ some 0 ∧ 55 < BigEndian.value (rest.take count)

/-- The first item has the shortest header for its kind and payload, and none if it
is a byte that can stand for itself. -/
def MinimalHeader : List UInt8 → Prop
  | [] => True
  | first :: rest =>
    if first.toNat ≤ 0x7f then True
    else if first.toNat ≤ 0xb7 then
      first.toNat = 0x81 → ∀ byte, rest.head? = some byte → 0x7f < byte.toNat
    else if first.toNat ≤ 0xbf then MinimalLength (first.toNat - 0xb7) rest
    else if first.toNat ≤ 0xf7 then True
    else MinimalLength (first.toNat - 0xf7) rest

theorem minimalHeader_cons (first : UInt8) (rest : List UInt8) :
    MinimalHeader (first :: rest) =
      if first.toNat ≤ 0x7f then True
      else if first.toNat ≤ 0xb7 then
        first.toNat = 0x81 → ∀ byte, rest.head? = some byte → 0x7f < byte.toNat
      else if first.toNat ≤ 0xbf then MinimalLength (first.toNat - 0xb7) rest
      else if first.toNat ≤ 0xf7 then True
      else MinimalLength (first.toNat - 0xf7) rest := rfl

/-- The bytes are at most `count` items, all with minimal headers, and nothing
else. -/
def HeadersMinimal : Nat → List UInt8 → Prop
  | 0, bytes => bytes = []
  | count + 1, bytes => bytes = [] ∨ MinimalHeader bytes ∧
      ∃ piece rest, next bytes = some (piece, rest) ∧ HeadersMinimal count rest

/-- The header, the payload and the rest make up the bytes. -/
theorem next_split {bytes rest : List UInt8} {piece : Piece}
    (h : next bytes = some (piece, rest)) : ∃ front,
      bytes = front ++ (piece.payload ++ rest) ∧
        header bytes = some ⟨piece.kind, front.length, piece.payload.length⟩ := by
  obtain ⟨head, hfront, rfl, rfl⟩ := next_eq_some.mp h
  obtain ⟨hread, hle⟩ := front_eq_some.mp hfront
  obtain ⟨kind, size, length⟩ := head
  simp only [Header.total_mk] at hle
  have hsize : (bytes.take size).length = size := by
    rw [List.length_take]
    omega
  have hlength : ((bytes.drop size).take length).length = length := by
    rw [List.length_take, List.length_drop]
    omega
  refine ⟨bytes.take size, ?_, ?_⟩
  · simp only [Header.piece, Header.total_mk]
    rw [← List.drop_drop, List.take_append_drop, List.take_append_drop]
  · simp only [Header.piece, hsize, hlength, hread]

theorem append_payload_inj {front front' payload rest : List UInt8} :
    front ++ (payload ++ rest) = (front' ++ payload) ++ rest ↔ front = front' := by
  rw [List.append_assoc, List.append_left_inj]

/-- A long header is the shortest one when its length is minimal. -/
theorem longHeader_eq_shortest_iff {kind : Kind} {first : UInt8} {lengthBytes tail : List UInt8}
    (hpos : 0 < lengthBytes.length) (hfirst : first.toNat = kind.base + 55 + lengthBytes.length) :
    first :: lengthBytes = shortestHeader kind (BigEndian.value lengthBytes) ↔
      MinimalLength lengthBytes.length (lengthBytes ++ tail) := by
  have hhead : (lengthBytes ++ tail).head? = lengthBytes.head? := by
    rw [List.head?_append_of_ne_nil _ (List.length_pos_iff.mp hpos)]
  rw [MinimalLength, hhead, List.take_left, shortestHeader]
  split
  next hshort =>
    refine ⟨fun heq => ?_, fun hmin => absurd hmin.2 (by omega)⟩
    have hlength := congrArg List.length heq
    rw [List.length_cons, List.length_singleton] at hlength
    omega
  next hlong =>
    constructor
    · intro heq
      have htail := (List.cons.inj heq).2
      exact ⟨htail ▸ BigEndian.head?_bytes_ne_zero _, by omega⟩
    · rintro ⟨hzero, -⟩
      rw [BigEndian.bytes_value hzero, ← hfirst, UInt8.ofNat_toNat]

/-- The parts of an item with a long header. -/
theorem longHeader_split {kind : Kind} {count : Nat} {first : UInt8} {tail front rest : List UInt8}
    {piece : Piece}
    (hread : longHeader kind count tail = some ⟨piece.kind, front.length, piece.payload.length⟩)
    (hbytes : first :: tail = front ++ (piece.payload ++ rest)) :
    piece.kind = kind ∧ ∃ lengthBytes, lengthBytes.length = count ∧ front = first :: lengthBytes ∧
      tail = lengthBytes ++ (piece.payload ++ rest) ∧
      piece.payload.length = BigEndian.value lengthBytes := by
  obtain ⟨hle, heq⟩ := longHeader_eq_some hread
  obtain ⟨rfl, hsize, hvalue⟩ := Header.mk.inj heq
  cases front with
  | nil =>
      rw [List.length_nil] at hsize
      omega
  | cons first' lengthBytes =>
      rw [List.cons_append] at hbytes
      obtain ⟨rfl, rfl⟩ := List.cons.inj hbytes
      rw [List.length_cons] at hsize
      obtain rfl : lengthBytes.length = count := by omega
      rw [List.take_left] at hvalue
      exact ⟨rfl, lengthBytes, rfl, rfl, rfl, hvalue⟩

/-- The parts of an item with a short header. -/
theorem shortHeader_split {first : UInt8} {tail front rest : List UInt8} {piece : Piece}
    (hsize : front.length = 1) (hbytes : first :: tail = front ++ (piece.payload ++ rest)) :
    front = [first] ∧ tail = piece.payload ++ rest := by
  obtain ⟨only, rfl⟩ := List.length_eq_one_iff.mp hsize
  obtain ⟨rfl, htail⟩ := List.cons.inj hbytes
  exact ⟨rfl, htail⟩

theorem shortestHeader_of_short {kind : Kind} {first : UInt8} {length : Nat}
    (hlength : length ≤ 55) (hfirst : first.toNat = kind.base + length) :
    shortestHeader kind length = [first] := by
  rw [shortestHeader, if_pos hlength, ← hfirst, UInt8.ofNat_toNat]

theorem StandsForItself.length_eq {bytes : List UInt8} (h : StandsForItself bytes) :
    bytes.length = 1 := by
  obtain ⟨byte, -, rfl⟩ := h
  rfl

/-- A short string is canonical unless it is a byte that stands for itself. -/
theorem shortString_canonical_iff {first : UInt8} {payload rest : List UInt8}
    (hfirst : first.toNat = 0x80 + payload.length) (hlength : payload.length ≤ 55) :
    [first] ++ (payload ++ rest) = encodeString payload ++ rest ↔
      (first.toNat = 0x81 → ∀ byte, (payload ++ rest).head? = some byte → 0x7f < byte.toNat) := by
  by_cases hself : StandsForItself payload
  · rw [encodeString, if_pos hself]
    obtain ⟨byte, hle, rfl⟩ := hself
    refine ⟨fun heq => ?_, fun hmin => ?_⟩
    · have hsame := congrArg List.length heq
      simp only [List.length_append, List.length_singleton] at hsame
      omega
    · have hbig := hmin hfirst byte rfl
      omega
  · rw [encodeString, if_neg hself, append_payload_inj]
    refine iff_of_true (shortestHeader_of_short hlength hfirst).symm fun hone byte hbyte => ?_
    obtain ⟨only, rfl⟩ : ∃ only, payload = [only] := List.length_eq_one_iff.mp (by omega)
    obtain rfl : only = byte := Option.some.inj hbyte
    by_contra hsmall
    exact hself ⟨only, Nat.le_of_not_lt hsmall, rfl⟩

/-- A long string is canonical when its length is minimal. -/
theorem longString_canonical_iff {first : UInt8} {lengthBytes payload rest : List UInt8}
    (hpos : 0 < lengthBytes.length) (hfirst : first.toNat = 0x80 + 55 + lengthBytes.length)
    (hvalue : payload.length = BigEndian.value lengthBytes) :
    first :: lengthBytes ++ (payload ++ rest) = encodeString payload ++ rest ↔
      MinimalLength lengthBytes.length (lengthBytes ++ (payload ++ rest)) := by
  by_cases hself : StandsForItself payload
  · have hone := hself.length_eq
    rw [encodeString, if_pos hself, MinimalLength, List.take_left]
    refine iff_of_false (fun heq => ?_) (fun hmin => absurd hmin.2 (by omega))
    have hsame := congrArg List.length heq
    simp only [List.length_append, List.length_cons] at hsame
    omega
  · rw [encodeString, if_neg hself, append_payload_inj, hvalue]
    exact @longHeader_eq_shortest_iff .string _ _ _ hpos hfirst

/-- What is read is the canonical encoding of the item just when the header is
minimal. -/
theorem next_canonical_iff {bytes rest : List UInt8} {piece : Piece}
    (h : next bytes = some (piece, rest)) :
    bytes = piece.encode ++ rest ↔ MinimalHeader bytes := by
  obtain ⟨front, hbytes, hread⟩ := next_split h
  cases bytes with
  | nil => cases hread
  | cons first tail =>
      rw [header_cons] at hread
      rw [minimalHeader_cons]
      split at hread
      next hbyte =>
        -- a byte below 0x80 has no header, and no shorter form
        obtain ⟨hkind, hsize, hlength⟩ := Header.mk.inj (Option.some.inj hread)
        obtain ⟨only, honly⟩ := List.length_eq_one_iff.mp hlength.symm
        obtain rfl := List.length_eq_zero_iff.mp hsize.symm
        rw [honly] at hbytes
        obtain ⟨rfl, rfl⟩ := List.cons.inj hbytes
        have hself : StandsForItself [first] := ⟨first, hbyte, rfl⟩
        simp only [hbyte, if_true, iff_true, Piece.encode, ← hkind, honly, encodeString, hself]
        rfl
      next hbyte =>
        split at hread
        next hshort =>
          obtain ⟨hkind, hsize, hlength⟩ := Header.mk.inj (Option.some.inj hread)
          obtain ⟨rfl, rfl⟩ := shortHeader_split hsize.symm hbytes
          rw [if_neg hbyte, if_pos hshort, Piece.encode, ← hkind]
          exact shortString_canonical_iff (by omega) (by omega)
        next hshort =>
          rw [if_neg hbyte, if_neg hshort]
          split at hread
          next hlong =>
            -- a long header is the shortest one if the length needs all its bytes
            obtain ⟨hkind, lengthBytes, hcount, rfl, rfl, hvalue⟩ := longHeader_split hread hbytes
            rw [if_pos hlong, Piece.encode, hkind, ← hcount]
            exact longString_canonical_iff (by omega) (by omega) hvalue
          next hlong =>
            rw [if_neg hlong]
            split at hread
            next hshortList =>
              obtain ⟨hkind, hsize, hlength⟩ := Header.mk.inj (Option.some.inj hread)
              obtain ⟨rfl, rfl⟩ := shortHeader_split hsize.symm hbytes
              have hbase : Kind.list.base = 0xc0 := rfl
              have hshortest : shortestHeader .list piece.payload.length = [first] :=
                shortestHeader_of_short (by omega) (by omega)
              simp only [hshortList, if_true, iff_true, Piece.encode, ← hkind, encodeList,
                hshortest, List.append_assoc]
              rfl
            next hlongList =>
              obtain ⟨hkind, lengthBytes, hcount, rfl, rfl, hvalue⟩ :=
                longHeader_split hread hbytes
              have hbase : Kind.list.base = 0xc0 := rfl
              rw [if_neg hlongList, Piece.encode, hkind, ← hcount]
              simp only [encodeList, hvalue]
              rw [← List.cons_append, append_payload_inj]
              exact longHeader_eq_shortest_iff (by omega) (by omega)

/-- A list that ends with the last of its items, all with minimal headers, is the
encodings of what is read. -/
theorem HeadersMinimal.eq_encodings {count : Nat} {bytes rest : List UInt8} {found : List Piece}
    (h : HeadersMinimal count bytes) (htake : takePieces count bytes = some (found, rest)) :
    bytes = (found.map Piece.encode).flatten := by
  induction count generalizing bytes found with
  | zero =>
      rw [takePieces_zero] at htake
      cases htake
      exact h
  | succ count ih =>
      by_cases hne : bytes = []
      · subst hne
        rw [takePieces_nil] at htake
        cases htake
        rfl
      · obtain hnil | ⟨hheader, piece, after, hnext, hmore⟩ := h
        · exact absurd hnil hne
        rw [takePieces_succ hne, hnext] at htake
        simp only [Option.bind_some, Option.map_eq_some_iff] at htake
        obtain ⟨⟨later, tail⟩, hlater, heq⟩ := htake
        cases heq
        rw [List.map_cons, List.flatten_cons, ← ih hmore hlater]
        exact (next_canonical_iff hnext).mpr hheader

/-- The encodings of pieces have minimal headers. -/
theorem headersMinimal_encodings {found : List Piece} {count : Nat}
    (hproper : ∀ piece ∈ found, piece.Proper) (hcount : found.length ≤ count)
    (hlength : (found.map Piece.encode).flatten.length < 256 ^ 8) :
    HeadersMinimal count (found.map Piece.encode).flatten := by
  induction found generalizing count with
  | nil =>
      cases count with
      | zero => rfl
      | succ count => exact Or.inl rfl
  | cons piece found ih =>
      obtain ⟨more, rfl⟩ : ∃ more, count = more + 1 := ⟨count - 1, by
        rw [List.length_cons] at hcount
        omega⟩
      rw [List.map_cons, List.flatten_cons, List.length_append] at hlength
      have hpayload := piece.payload_length_le
      have hnext := next_encode_piece (hproper piece List.mem_cons_self) (by omega)
        (found.map Piece.encode).flatten
      rw [List.map_cons, List.flatten_cons]
      refine Or.inr ⟨(next_canonical_iff hnext).mp rfl, piece, _, hnext, ?_⟩
      exact ih (fun later hmem => hproper later (List.mem_cons_of_mem _ hmem))
        (Nat.le_of_succ_le_succ hcount) (by omega)

/-! ## Contents -/

/-- What items hold. A leaf is a string, or a list whose payload is not looked
into. -/
inductive Contents where
  | leaf (isList : Bool) (payload : List UInt8)
  | node (children : List Contents)

mutual

def Contents.decEq : (contents contents' : Contents) → Decidable (contents = contents')
  | .leaf isList payload, .leaf isList' payload' =>
      decidable_of_iff (isList = isList' ∧ payload = payload') (by rw [Contents.leaf.injEq])
  | .node children, .node children' =>
      match Contents.decEqAll children children' with
      | .isTrue h => .isTrue (congrArg Contents.node h)
      | .isFalse h => .isFalse fun heq => h (Contents.node.inj heq)
  | .leaf _ _, .node _ => .isFalse nofun
  | .node _, .leaf _ _ => .isFalse nofun

def Contents.decEqAll : (children children' : List Contents) → Decidable (children = children')
  | [], [] => .isTrue rfl
  | child :: children, child' :: children' =>
      match Contents.decEq child child', Contents.decEqAll children children' with
      | .isTrue h, .isTrue h' => .isTrue (h ▸ h' ▸ rfl)
      | .isFalse h, _ => .isFalse fun heq => h (List.cons.inj heq).1
      | _, .isFalse h => .isFalse fun heq => h (List.cons.inj heq).2
  | [], _ :: _ => .isFalse nofun
  | _ :: _, [] => .isFalse nofun

end

instance : DecidableEq Contents := Contents.decEq

def Piece.leaf (piece : Piece) : Contents := .leaf (piece.kind = .list) piece.payload

mutual

/-- The canonical encoding of contents. -/
def Contents.encode : Contents → List UInt8
  | .leaf true payload => encodeList payload
  | .leaf false payload => encodeString payload
  | .node children => encodeList (Contents.encodeAll children)

def Contents.encodeAll : List Contents → List UInt8
  | [] => []
  | child :: children => child.encode ++ Contents.encodeAll children

end

/-- What reading encoded contents gives. -/
def Contents.piece : Contents → Piece
  | .leaf true payload => ⟨.list, payload⟩
  | .leaf false payload => stringPiece payload
  | .node children => ⟨.list, Contents.encodeAll children⟩

theorem Contents.encode_piece (contents : Contents) : contents.piece.encode = contents.encode := by
  cases contents with
  | leaf isList payload =>
      cases isList with
      | true => rw [Contents.piece, Contents.encode, Piece.encode]
      | false => rw [Contents.piece, Contents.encode, encode_stringPiece]
  | node children => rw [Contents.piece, Contents.encode, Piece.encode]

theorem Contents.piece_proper (contents : Contents) : contents.piece.Proper := by
  cases contents with
  | leaf isList payload =>
      cases isList with
      | true => exact fun hkind => absurd rfl hkind
      | false => exact stringPiece_proper payload
  | node children => exact fun hkind => absurd rfl hkind

@[simp] theorem Contents.encode_leaf (piece : Piece) : piece.leaf.encode = piece.encode := by
  obtain ⟨kind, payload⟩ := piece
  cases kind <;> simp [Piece.leaf, Piece.encode, Contents.encode]

theorem Contents.encodeAll_eq_flatten (children : List Contents) :
    Contents.encodeAll children = (children.map Contents.encode).flatten := by
  induction children with
  | nil => rfl
  | cons child children ih =>
      rw [Contents.encodeAll, ih, List.map_cons, List.flatten_cons]

/-- A list whose items are the encodings of these contents is the encoding of a
node. -/
theorem Contents.encode_node {piece : Piece} (hkind : piece.kind = .list) {children : List Contents}
    (hpayload : piece.payload = (children.map Contents.encode).flatten) :
    piece.encode = (Contents.node children).encode := by
  rw [Contents.encode, Contents.encodeAll_eq_flatten, ← hpayload, Piece.encode, hkind]

/-- The items of an encoded node are read to the end, and have minimal headers. -/
theorem Contents.children_read {children : List Contents} {count : Nat}
    (hcount : children.length ≤ count)
    (hlength : (Contents.encodeAll children).length < 256 ^ 8) :
    takePieces count (Contents.encodeAll children) = some (children.map Contents.piece, []) ∧
      HeadersMinimal count (Contents.encodeAll children) := by
  have hproper : ∀ piece ∈ children.map Contents.piece, piece.Proper := by
    intro piece hmem
    obtain ⟨child, -, rfl⟩ := List.mem_map.mp hmem
    exact child.piece_proper
  have hpieces : children.map Contents.encode =
      (children.map Contents.piece).map Piece.encode := by
    rw [List.map_map]
    exact List.map_congr_left fun child _ => child.encode_piece.symm
  rw [Contents.encodeAll_eq_flatten, hpieces] at hlength ⊢
  exact ⟨takePieces_encodings hproper (by rwa [List.length_map]) hlength,
    headersMinimal_encodings hproper (by rwa [List.length_map]) hlength⟩

end RecursiveLength
