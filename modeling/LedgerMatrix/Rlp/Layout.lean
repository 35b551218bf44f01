import LedgerMatrix.Rlp.Basic

/-! # Items in memory

What an `rlp_t` stands for: the item that its pointer and length select, and
where in the memory its content bytes lie. A run of items read one after the
other has its contents in increasing order and without overlap.
-/

namespace LedgerMatrix

open Imperative RecursiveLength

/-- The number in an item: a single byte, or a string of at most 32 bytes. -/
def readUInt256 (piece : Piece) : Except ParserError Nat :=
  match piece.kind with
  | .string =>
      if piece.payload.length > 32 then .error .valueOutOfRange
      else .ok (BigEndian.value piece.payload)
  | .byte => .ok (BigEndian.value piece.payload)
  | .list => .error .unexpectedType

/-- The first items of a list, up to `count`. What follows them is dropped. -/
def readItems (count : Nat) (piece : Piece) : Except ParserError (List Piece) :=
  if piece.kind ≠ .list then .error .unexpectedError
  else match takePieces count piece.payload with
    | none => .error .unexpectedBufferEnd
    | some (found, _) => .ok found

theorem readUInt256_eq_ok {piece : Piece} {number : Nat} :
    readUInt256 piece = .ok number ↔
      (piece.kind = .byte ∨ piece.kind = .string ∧ piece.payload.length ≤ 32) ∧
        BigEndian.value piece.payload = number := by
  unfold readUInt256
  cases hkind : piece.kind with
  | byte => simp
  | string =>
      simp only [reduceCtorEq, true_and, false_or]
      split
      next hlong => simp [Nat.not_le.mpr hlong]
      next hshort => simp [Nat.le_of_not_lt hshort]
  | list => simp

theorem readItems_eq_ok {count : Nat} {piece : Piece} {found : List Piece} :
    readItems count piece = .ok found ↔
      piece.kind = .list ∧ ∃ rest, takePieces count piece.payload = some (found, rest) := by
  unfold readItems
  split
  next hne => simp [hne]
  next hkind =>
    have hlist := not_not.mp hkind
    cases htake : takePieces count piece.payload with
    | none => simp
    | some result => simp [hlist, Prod.ext_iff]

theorem readItems_length_le {count : Nat} {piece : Piece} {found : List Piece}
    (h : readItems count piece = .ok found) : found.length ≤ count := by
  obtain ⟨-, rest, htake⟩ := readItems_eq_ok.mp h
  exact takePieces_length_le htake

/-- An item of a list that is longer than one byte does not stand for itself. -/
theorem readItems_kind_ne_byte {count : Nat} {piece : Piece} {found : List Piece}
    (h : readItems count piece = .ok found) {item : Piece} (hmem : item ∈ found)
    (hlong : 2 ≤ item.payload.length) : item.kind ≠ .byte := by
  obtain ⟨-, rest, htake⟩ := readItems_eq_ok.mp h
  intro hkind
  have hone := takePieces_byte_length htake hmem hkind
  omega

theorem readItems_payload_le {count : Nat} {piece : Piece} {found : List Piece}
    (h : readItems count piece = .ok found) {item : Piece} (hmem : item ∈ found) :
    item.payload.length ≤ piece.payload.length := by
  obtain ⟨-, rest, htake⟩ := readItems_eq_ok.mp h
  exact takePieces_payload_le htake hmem

theorem readItems_kind {count : Nat} {piece : Piece} {found : List Piece}
    (h : readItems count piece = .ok found) : piece.kind = .list :=
  (readItems_eq_ok.mp h).1

/-- The length that an `rlp_t` of this kind records for a payload: a byte that
stands for itself has length 0. -/
def storedLength (kind : Kind) (payload : Nat) : Nat :=
  match kind with
  | .byte => 0
  | _ => payload

/-- The number of content bytes of an item: one for a byte that stands for itself. -/
def Rlp.contentLength (rlp : Rlp) : Nat :=
  match rlp.kind with
  | .byte => 1
  | _ => rlp.rlpLen

/-- The content bytes of an item, found through its pointer. -/
def Rlp.content (mem : List UInt8) (rlp : Rlp) : List UInt8 :=
  match rlp.ptr with
  | none => []
  | some address => slice mem address rlp.contentLength

/-- `rlp` stands for `piece`, whose payload lies in `[lo, hi)`. -/
structure Rlp.Stands (mem : List UInt8) (lo hi : Nat) (rlp : Rlp) (piece : Piece) : Prop where
  kind_eq : rlp.kind = piece.kind
  rlpLen_eq : rlp.rlpLen = storedLength piece.kind piece.payload.length
  byte_length : piece.kind = .byte → piece.payload.length = 1
  located : ∃ address, rlp.ptr = some address ∧ lo ≤ address ∧
    address + piece.payload.length ≤ hi ∧ slice mem address piece.payload.length = piece.payload

/-- `rlps` stand for `pieces`, one after the other in `[lo, hi)`. -/
inductive Layout (mem : List UInt8) : Nat → Nat → List Rlp → List Piece → Prop where
  | nil {lo hi : Nat} (hle : lo ≤ hi) : Layout mem lo hi [] []
  | cons {lo mid hi : Nat} {rlp : Rlp} {piece : Piece} {rlps : List Rlp} {pieces : List Piece}
      (first : rlp.Stands mem lo mid piece) (rest : Layout mem mid hi rlps pieces) :
      Layout mem lo hi (rlp :: rlps) (piece :: pieces)

namespace Rlp.Stands

variable {mem : List UInt8} {lo hi : Nat} {rlp : Rlp} {piece : Piece}

theorem mono (h : rlp.Stands mem lo hi piece) {lo' hi' : Nat} (hlo : lo' ≤ lo) (hhi : hi ≤ hi') :
    rlp.Stands mem lo' hi' piece := by
  obtain ⟨address, hptr, hstart, hend, hbytes⟩ := h.located
  exact ⟨h.kind_eq, h.rlpLen_eq, h.byte_length, address, hptr, by omega, by omega, hbytes⟩

theorem le (h : rlp.Stands mem lo hi piece) : lo ≤ hi := by
  obtain ⟨address, -, hstart, hend, -⟩ := h.located
  omega

/-- Away from single bytes the recorded length is the payload's. -/
theorem rlpLen_of_ne (h : rlp.Stands mem lo hi piece) (hkind : piece.kind ≠ .byte) :
    rlp.rlpLen = piece.payload.length := by
  rw [h.rlpLen_eq]
  cases hcase : piece.kind with
  | byte => exact absurd hcase hkind
  | string => rfl
  | list => rfl

theorem rlpLen_of_byte (h : rlp.Stands mem lo hi piece) (hkind : piece.kind = .byte) :
    rlp.rlpLen = 0 := by
  rw [h.rlpLen_eq, hkind]
  rfl

theorem contentLength_eq (h : rlp.Stands mem lo hi piece) :
    rlp.contentLength = piece.payload.length := by
  unfold Rlp.contentLength
  rw [h.kind_eq]
  cases hkind : piece.kind with
  | byte => exact (h.byte_length hkind).symm
  | string => exact h.rlpLen_of_ne (by rw [hkind]; decide)
  | list => exact h.rlpLen_of_ne (by rw [hkind]; decide)

theorem content_eq (h : rlp.Stands mem lo hi piece) : rlp.content mem = piece.payload := by
  obtain ⟨address, hptr, -, -, hbytes⟩ := h.located
  simp only [Rlp.content, hptr, h.contentLength_eq, hbytes]

/-- A single byte is the byte that the pointer selects. -/
theorem byte_payload (h : rlp.Stands mem lo hi piece) (hkind : piece.kind = .byte)
    (hmem : hi ≤ mem.length) :
    ∃ address, ∃ hlt : address < mem.length,
      rlp.ptr = some address ∧ piece.payload = [mem[address]] := by
  obtain ⟨address, hptr, -, hend, hbytes⟩ := h.located
  have hlength := h.byte_length hkind
  have hlt : address < mem.length := by omega
  refine ⟨address, hlt, hptr, ?_⟩
  rw [← hbytes, hlength, slice_succ hlt]
  simp [slice]

end Rlp.Stands

namespace Layout

variable {mem : List UInt8} {lo hi : Nat} {rlps : List Rlp} {pieces : List Piece}

theorem le (h : Layout mem lo hi rlps pieces) : lo ≤ hi := by
  induction h with
  | nil hle => exact hle
  | cons first _ ih => exact first.le.trans ih

theorem mono (h : Layout mem lo hi rlps pieces) {lo' hi' : Nat} (hlo : lo' ≤ lo)
    (hhi : hi ≤ hi') : Layout mem lo' hi' rlps pieces := by
  induction h generalizing lo' with
  | nil hle => exact .nil (hlo.trans (hle.trans hhi))
  | cons first _ ih => exact .cons (first.mono hlo le_rfl) (ih le_rfl hhi)

theorem length_eq (h : Layout mem lo hi rlps pieces) : rlps.length = pieces.length := by
  induction h with
  | nil _ => rfl
  | cons _ _ ih => rw [List.length_cons, List.length_cons, ih]

/-- What holds of the items of a run, one by one, holds of the run. -/
theorem map_eq_map {α β : Type} {values : List β} {e : β → Piece}
    (h : Layout mem lo hi rlps (values.map e)) {f : Rlp → α} {g : β → α}
    (hfg : ∀ rlp : Rlp, ∀ value ∈ values, rlp.Stands mem lo hi (e value) → f rlp = g value) :
    rlps.map f = values.map g := by
  induction values generalizing lo rlps with
  | nil =>
      cases h
      rfl
  | cons value values ih =>
      cases h with
      | cons first rest =>
          rw [List.map_cons, List.map_cons, hfg _ _ List.mem_cons_self (first.mono le_rfl rest.le),
            ih rest]
          intro rlp later hmem hstands
          exact hfg rlp later (List.mem_cons_of_mem _ hmem) (hstands.mono first.le le_rfl)

theorem map_eq (h : Layout mem lo hi rlps pieces) {α : Type} {f : Rlp → α} {g : Piece → α}
    (hfg : ∀ rlp : Rlp, ∀ piece ∈ pieces, rlp.Stands mem lo hi piece → f rlp = g piece) :
    rlps.map f = pieces.map g := by
  rw [← List.map_id pieces] at h
  exact h.map_eq_map hfg

/-- The contents of a run are the payloads, in order. -/
theorem map_content (h : Layout mem lo hi rlps pieces) :
    rlps.map (Rlp.content mem) = pieces.map Piece.payload :=
  h.map_eq fun _ _ _ hstands => hstands.content_eq

/-- Every item of a run stands inside the region of the run. -/
theorem stands (h : Layout mem lo hi rlps pieces) (i : Nat) (hrlp : i < rlps.length)
    (hpiece : i < pieces.length) : rlps[i].Stands mem lo hi pieces[i] := by
  induction h generalizing i with
  | nil _ => exact absurd hrlp (Nat.not_lt_zero _)
  | cons first rest ih =>
      cases i with
      | zero => exact first.mono le_rfl rest.le
      | succ i =>
          exact (ih i (Nat.lt_of_succ_lt_succ hrlp) (Nat.lt_of_succ_lt_succ hpiece)).mono
            first.le le_rfl

theorem append {mid : Nat} {more : List Rlp} {morePieces : List Piece}
    (h : Layout mem lo mid rlps pieces) (hmore : Layout mem mid hi more morePieces) :
    Layout mem lo hi (rlps ++ more) (pieces ++ morePieces) := by
  induction h with
  | nil hle =>
      cases hmore with
      | nil hle' => exact .nil (hle.trans hle')
      | cons first rest => exact .cons (first.mono hle le_rfl) rest
  | cons first _ ih => exact .cons first (ih hmore)

end Layout

end LedgerMatrix
