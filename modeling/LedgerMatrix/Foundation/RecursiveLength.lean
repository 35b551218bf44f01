import LedgerMatrix.Foundation.BigEndian

/-! # Recursive length prefixes

A byte string is a sequence of items. The first byte of an item tells its kind
and, directly or through a big-endian length that follows, how many bytes its
payload has. The payload of a list is again a sequence of items. The reading
side here is liberal: it also accepts headers that the canonical encoding never
produces.
-/

namespace RecursiveLength

/-- What an item is: one byte that stands for itself, a string, or a list. -/
inductive Kind where
  | byte
  | string
  | list
  deriving DecidableEq

/-- What the first bytes of an item announce: its kind, how many bytes precede
the payload, and how many bytes the payload has. -/
structure Header where
  kind : Kind
  size : Nat
  length : Nat
  deriving DecidableEq

/-- The number of bytes of the whole item. -/
def Header.total (h : Header) : Nat := h.size + h.length

@[simp] theorem Header.total_mk (kind : Kind) (size length : Nat) :
    (Header.mk kind size length).total = size + length := rfl

/-- A header whose length stands in the `count` bytes after the first. -/
def longHeader (kind : Kind) (count : Nat) (rest : List UInt8) : Option Header :=
  if count ≤ rest.length then
    some ⟨kind, 1 + count, BigEndian.value (rest.take count)⟩
  else none

/-- Read a header. Whether the payload is there is not looked at. -/
def header : List UInt8 → Option Header
  | [] => none
  | first :: rest =>
    if first.toNat ≤ 0x7f then some ⟨.byte, 0, 1⟩
    else if first.toNat ≤ 0xb7 then some ⟨.string, 1, first.toNat - 0x80⟩
    else if first.toNat ≤ 0xbf then longHeader .string (first.toNat - 0xb7) rest
    else if first.toNat ≤ 0xf7 then some ⟨.list, 1, first.toNat - 0xc0⟩
    else longHeader .list (first.toNat - 0xf7) rest

theorem header_cons (first : UInt8) (rest : List UInt8) :
    header (first :: rest) =
      if first.toNat ≤ 0x7f then some ⟨.byte, 0, 1⟩
      else if first.toNat ≤ 0xb7 then some ⟨.string, 1, first.toNat - 0x80⟩
      else if first.toNat ≤ 0xbf then longHeader .string (first.toNat - 0xb7) rest
      else if first.toNat ≤ 0xf7 then some ⟨.list, 1, first.toNat - 0xc0⟩
      else longHeader .list (first.toNat - 0xf7) rest := rfl

/-- The header of the first item, when the whole item is there. -/
def front (bytes : List UInt8) : Option Header :=
  (header bytes).filter fun h => h.total ≤ bytes.length

/-- An item as it stands in a byte string: its kind and its payload. -/
structure Piece where
  kind : Kind
  payload : List UInt8
  deriving DecidableEq

/-- The item that a header announces at the front of `bytes`. -/
def Header.piece (h : Header) (bytes : List UInt8) : Piece :=
  ⟨h.kind, (bytes.drop h.size).take h.length⟩

/-- The first item and the bytes after it. -/
def next (bytes : List UInt8) : Option (Piece × List UInt8) :=
  (front bytes).map fun h => (h.piece bytes, bytes.drop h.total)

/-- At most `count` items from the front, and the bytes after them. -/
def takePieces : Nat → List UInt8 → Option (List Piece × List UInt8)
  | 0, bytes => some ([], bytes)
  | _ + 1, [] => some ([], [])
  | count + 1, first :: rest =>
      match next (first :: rest) with
      | none => none
      | some (piece, after) =>
          (takePieces count after).map fun result => (piece :: result.1, result.2)

/-- All the items of a byte string, which must end with the last of them. Every
item has at least one byte, so the length bounds the number of items. -/
def pieces (bytes : List UInt8) : Option (List Piece) :=
  match takePieces bytes.length bytes with
  | some (found, []) => some found
  | _ => none

/-! ## Reading -/

theorem longHeader_eq_some {kind : Kind} {count : Nat} {rest : List UInt8} {h : Header}
    (hread : longHeader kind count rest = some h) :
    count ≤ rest.length ∧ h = ⟨kind, 1 + count, BigEndian.value (rest.take count)⟩ := by
  unfold longHeader at hread
  split at hread
  next hle => exact ⟨hle, (Option.some.inj hread).symm⟩
  next => cases hread

theorem header_total_pos {bytes : List UInt8} {h : Header} (hread : header bytes = some h) :
    0 < h.total := by
  cases bytes with
  | nil => cases hread
  | cons first rest =>
      simp only [header] at hread
      split at hread
      · cases hread; decide
      split at hread
      · cases hread; simp only [Header.total]; omega
      split at hread
      · rw [(longHeader_eq_some hread).2]; simp only [Header.total]; omega
      split at hread
      · cases hread; simp only [Header.total]; omega
      · rw [(longHeader_eq_some hread).2]; simp only [Header.total]; omega

theorem front_eq_some {bytes : List UInt8} {h : Header} :
    front bytes = some h ↔ header bytes = some h ∧ h.total ≤ bytes.length := by
  simp [front, Option.filter_eq_some_iff]

theorem next_eq_some {bytes rest : List UInt8} {piece : Piece} :
    next bytes = some (piece, rest) ↔
      ∃ h, front bytes = some h ∧ h.piece bytes = piece ∧ bytes.drop h.total = rest := by
  simp [next, Option.map_eq_some_iff]

/-- An item that is a single byte has one content byte. -/
theorem next_byte_length {bytes rest : List UInt8} {piece : Piece}
    (h : next bytes = some (piece, rest)) (hkind : piece.kind = .byte) :
    piece.payload.length = 1 := by
  obtain ⟨head, hfront, rfl, -⟩ := next_eq_some.mp h
  obtain ⟨hread, hle⟩ := front_eq_some.mp hfront
  cases bytes with
  | nil => cases hread
  | cons first rest =>
      rw [header_cons] at hread
      split at hread
      next => cases hread; rfl
      next =>
        exfalso
        have hother : head.kind ≠ .byte := by
          split at hread
          · cases hread; simp
          split at hread
          · rw [(longHeader_eq_some hread).2]; simp
          split at hread
          · cases hread; simp
          · rw [(longHeader_eq_some hread).2]; simp
        exact hother hkind

/-- Reading an item consumes at least one byte. -/
theorem next_length_lt {bytes rest : List UInt8} {piece : Piece}
    (h : next bytes = some (piece, rest)) : rest.length < bytes.length := by
  obtain ⟨head, hfront, -, rfl⟩ := next_eq_some.mp h
  obtain ⟨hread, hle⟩ := front_eq_some.mp hfront
  have hpos := header_total_pos hread
  rw [List.length_drop]
  omega

/-- The payload of an item is among the bytes that it is read from. -/
theorem next_payload_le {bytes rest : List UInt8} {piece : Piece}
    (h : next bytes = some (piece, rest)) : piece.payload.length ≤ bytes.length := by
  obtain ⟨head, hfront, rfl, -⟩ := next_eq_some.mp h
  simp only [Header.piece, List.length_take, List.length_drop]
  omega

/-! ### More bytes behind -/

theorem longHeader_append {kind : Kind} {count : Nat} {rest : List UInt8} {h : Header}
    (hread : longHeader kind count rest = some h) (more : List UInt8) :
    longHeader kind count (rest ++ more) = some h := by
  obtain ⟨hle, rfl⟩ := longHeader_eq_some hread
  rw [longHeader, if_pos (by rw [List.length_append]; omega), List.take_append_of_le_length hle]

theorem header_append {bytes : List UInt8} {h : Header} (hread : header bytes = some h)
    (more : List UInt8) : header (bytes ++ more) = some h := by
  cases bytes with
  | nil => cases hread
  | cons first rest =>
      rw [List.cons_append]
      rw [header_cons] at hread ⊢
      split at hread
      next hbyte => rwa [if_pos hbyte]
      next hbyte =>
        rw [if_neg hbyte]
        split at hread
        next hshort => rwa [if_pos hshort]
        next hshort =>
          rw [if_neg hshort]
          split at hread
          next hlong =>
            rw [if_pos hlong]
            exact longHeader_append hread more
          next hlong =>
            rw [if_neg hlong]
            split at hread
            next hlist => rwa [if_pos hlist]
            next hlist =>
              rw [if_neg hlist]
              exact longHeader_append hread more

/-- The first item ends where it says, whatever stands behind it. -/
theorem next_append {bytes rest : List UInt8} {piece : Piece}
    (h : next bytes = some (piece, rest)) (more : List UInt8) :
    next (bytes ++ more) = some (piece, rest ++ more) := by
  obtain ⟨head, hfront, rfl, rfl⟩ := next_eq_some.mp h
  obtain ⟨hread, hle⟩ := front_eq_some.mp hfront
  have hsize : head.size + head.length ≤ bytes.length := hle
  refine next_eq_some.mpr ⟨head, front_eq_some.mpr ⟨header_append hread more, ?_⟩, ?_, ?_⟩
  · rw [List.length_append]
    exact hle.trans (Nat.le_add_right _ _)
  · rw [Header.piece, Header.piece, List.drop_append_of_le_length (by omega),
      List.take_append_of_le_length (by rw [List.length_drop]; omega)]
  · rw [List.drop_append_of_le_length hle]

/-- Nothing that ends inside the first item can be read. -/
theorem next_of_cut {bytes more : List UInt8} {piece : Piece}
    (h : next (bytes ++ more) = some (piece, [])) (hmore : more ≠ []) : next bytes = none := by
  cases hcut : next bytes with
  | none => rfl
  | some found =>
      have hall := (next_append hcut more).symm.trans h
      have hnil : found.2 ++ more = [] := congrArg Prod.snd (Option.some.inj hall)
      exact absurd (List.append_eq_nil_iff.mp hnil).2 hmore

@[simp] theorem takePieces_zero (bytes : List UInt8) :
    takePieces 0 bytes = some ([], bytes) := by
  cases bytes <;> rfl

@[simp] theorem takePieces_nil (count : Nat) : takePieces count [] = some ([], []) := by
  cases count <;> rfl

theorem takePieces_succ {bytes : List UInt8} (hne : bytes ≠ []) (count : Nat) :
    takePieces (count + 1) bytes = (next bytes).bind fun found =>
      (takePieces count found.2).map fun result => (found.1 :: result.1, result.2) := by
  cases bytes with
  | nil => exact absurd rfl hne
  | cons first rest =>
      simp only [takePieces]
      cases next (first :: rest) <;> rfl

/-- One read of a nonempty byte string. -/
theorem takePieces_one {bytes : List UInt8} (hne : bytes ≠ []) :
    takePieces 1 bytes = (next bytes).map fun found => ([found.1], found.2) := by
  rw [takePieces_succ hne]
  cases next bytes <;> simp

theorem takePieces_length_le {count : Nat} {bytes rest : List UInt8} {found : List Piece}
    (h : takePieces count bytes = some (found, rest)) : found.length ≤ count := by
  induction count generalizing bytes found with
  | zero =>
      rw [takePieces_zero] at h
      cases h
      exact le_rfl
  | succ count ih =>
      by_cases hne : bytes = []
      · subst hne
        cases h
        exact Nat.zero_le _
      · rw [takePieces_succ hne] at h
        simp only [Option.bind_eq_some_iff, Option.map_eq_some_iff] at h
        obtain ⟨⟨piece, after⟩, -, ⟨more, tail⟩, hmore, heq⟩ := h
        cases heq
        exact Nat.succ_le_succ (ih hmore)

theorem takePieces_byte_length {count : Nat} {bytes rest : List UInt8} {found : List Piece}
    (h : takePieces count bytes = some (found, rest)) {piece : Piece} (hmem : piece ∈ found)
    (hkind : piece.kind = .byte) : piece.payload.length = 1 := by
  induction count generalizing bytes found with
  | zero =>
      rw [takePieces_zero] at h
      cases h
      cases hmem
  | succ count ih =>
      by_cases hne : bytes = []
      · subst hne
        cases h
        cases hmem
      · rw [takePieces_succ hne] at h
        simp only [Option.bind_eq_some_iff, Option.map_eq_some_iff] at h
        obtain ⟨⟨first, after⟩, hnext, ⟨more, tail⟩, hmore, heq⟩ := h
        cases heq
        rcases List.mem_cons.mp hmem with rfl | hmem
        · exact next_byte_length hnext hkind
        · exact ih hmore hmem

theorem takePieces_payload_le {count : Nat} {bytes rest : List UInt8} {found : List Piece}
    (h : takePieces count bytes = some (found, rest)) {piece : Piece} (hmem : piece ∈ found) :
    piece.payload.length ≤ bytes.length := by
  induction count generalizing bytes found with
  | zero =>
      rw [takePieces_zero] at h
      cases h
      cases hmem
  | succ count ih =>
      by_cases hne : bytes = []
      · subst hne
        cases h
        cases hmem
      · rw [takePieces_succ hne] at h
        simp only [Option.bind_eq_some_iff, Option.map_eq_some_iff] at h
        obtain ⟨⟨first, after⟩, hnext, ⟨more, tail⟩, hmore, heq⟩ := h
        cases heq
        rcases List.mem_cons.mp hmem with rfl | hmem
        · exact next_payload_le hnext
        · exact (ih hmore hmem).trans (next_length_lt hnext).le

/-- A larger count reads on from where the smaller one stopped. -/
theorem takePieces_add {count : Nat} {bytes rest : List UInt8} {found : List Piece}
    (h : takePieces count bytes = some (found, rest)) (more : Nat) :
    takePieces (count + more) bytes =
      (takePieces more rest).map fun result => (found ++ result.1, result.2) := by
  induction count generalizing bytes found with
  | zero =>
      rw [takePieces_zero] at h
      cases h
      rw [Nat.zero_add]
      cases takePieces more rest <;> rfl
  | succ count ih =>
      by_cases hne : bytes = []
      · subst hne
        cases h
        simp
      · rw [takePieces_succ hne] at h
        simp only [Option.bind_eq_some_iff, Option.map_eq_some_iff] at h
        obtain ⟨⟨piece, after⟩, hnext, ⟨later, tail⟩, hlater, heq⟩ := h
        cases heq
        rw [Nat.add_right_comm, takePieces_succ hne, hnext, Option.bind_some, ih hlater,
          Option.map_map]
        rfl

/-- Once the end is reached, a larger count finds nothing more. -/
theorem takePieces_of_le {count more : Nat} {bytes : List UInt8} {found : List Piece}
    (h : takePieces count bytes = some (found, [])) (hle : count ≤ more) :
    takePieces more bytes = some (found, []) := by
  obtain ⟨extra, rfl⟩ := Nat.exists_eq_add_of_le hle
  rw [takePieces_add h, takePieces_nil]
  simp

/-- As many reads as there are bytes reach the end, whenever some number does. -/
theorem takePieces_length_of_end {count : Nat} {bytes : List UInt8} {found : List Piece}
    (h : takePieces count bytes = some (found, [])) :
    takePieces bytes.length bytes = some (found, []) := by
  induction count generalizing bytes found with
  | zero =>
      rw [takePieces_zero] at h
      cases h
      rfl
  | succ count ih =>
      by_cases hne : bytes = []
      · subst hne
        rw [takePieces_nil] at h ⊢
        exact h
      · rw [takePieces_succ hne] at h
        simp only [Option.bind_eq_some_iff, Option.map_eq_some_iff] at h
        obtain ⟨⟨piece, after⟩, hnext, ⟨later, tail⟩, hlater, heq⟩ := h
        cases heq
        have hless := next_length_lt hnext
        obtain ⟨size, hsize⟩ : ∃ size, bytes.length = size + 1 := ⟨bytes.length - 1, by omega⟩
        have hle : after.length ≤ size := by omega
        have hrest := takePieces_of_le (ih hlater) hle
        rw [hsize, takePieces_succ hne, hnext, Option.bind_some, hrest]
        rfl

theorem pieces_eq_some {bytes : List UInt8} {found : List Piece} :
    pieces bytes = some found ↔ takePieces bytes.length bytes = some (found, []) := by
  unfold pieces
  constructor
  · intro h
    split at h
    next heq => rw [heq, Option.some.inj h]
    next => cases h
  · intro h
    rw [h]

/-- A byte string is a sequence of items exactly when some number of reads
reaches its end. -/
theorem pieces_eq_some_iff_exists {bytes : List UInt8} {found : List Piece} :
    pieces bytes = some found ↔ ∃ count, takePieces count bytes = some (found, []) :=
  ⟨fun h => ⟨bytes.length, pieces_eq_some.mp h⟩,
    fun ⟨_, h⟩ => pieces_eq_some.mpr (takePieces_length_of_end h)⟩

/-- The items of a nonempty byte string are the first one and those after it. -/
theorem pieces_of_ne_nil {bytes : List UInt8} (hne : bytes ≠ []) {found : List Piece} :
    pieces bytes = some found ↔ ∃ piece after later,
      next bytes = some (piece, after) ∧ pieces after = some later ∧ found = piece :: later := by
  constructor
  · intro h
    obtain ⟨count, h⟩ := pieces_eq_some_iff_exists.mp h
    cases count with
    | zero =>
        rw [takePieces_zero] at h
        cases h
        exact absurd rfl hne
    | succ count =>
        rw [takePieces_succ hne] at h
        simp only [Option.bind_eq_some_iff, Option.map_eq_some_iff] at h
        obtain ⟨⟨piece, after⟩, hnext, ⟨later, tail⟩, hlater, heq⟩ := h
        cases heq
        exact ⟨piece, after, later, hnext, pieces_eq_some_iff_exists.mpr ⟨count, hlater⟩, rfl⟩
  · rintro ⟨piece, after, later, hnext, hlater, rfl⟩
    obtain ⟨count, hlater⟩ := pieces_eq_some_iff_exists.mp hlater
    refine pieces_eq_some_iff_exists.mpr ⟨count + 1, ?_⟩
    rw [takePieces_succ hne, hnext, Option.bind_some, hlater]
    rfl

/-- A sequence of items is read by any count that covers it. -/
theorem takePieces_of_pieces {bytes : List UInt8} {found : List Piece} {count : Nat}
    (h : pieces bytes = some found) (hle : found.length ≤ count) :
    takePieces count bytes = some (found, []) := by
  induction count generalizing bytes found with
  | zero =>
      obtain rfl : found = [] := List.length_eq_zero_iff.mp (by omega)
      by_cases hne : bytes = []
      · subst hne
        rfl
      · obtain ⟨_, _, _, _, _, heq⟩ := (pieces_of_ne_nil hne).mp h
        cases heq
  | succ count ih =>
      by_cases hne : bytes = []
      · subst hne
        cases h
        rfl
      · obtain ⟨piece, after, later, hnext, hlater, rfl⟩ := (pieces_of_ne_nil hne).mp h
        rw [takePieces_succ hne, hnext, Option.bind_some, ih hlater (by simpa using hle)]
        rfl

end RecursiveLength
