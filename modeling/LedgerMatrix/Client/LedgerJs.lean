import LedgerMatrix.Device.Session

/-! # The library of the client

`MatrixAIApp` is a class over the `GenericApp` of `@zondax/ledger-js`, which is not part
of the repository. What is assumed of it, and of the transport that it hands on, is that
paths are sent as four bytes a component, that a message is cut in order into parts that
are not empty, and that answers with a status code that is not listed become errors, of
which the code is kept.
-/

namespace LedgerMatrix

open Imperative

/-- The path lengths that the constructor of `MatrixAIApp` hands on. -/
def acceptedPathLengths : List Nat := [4, 5, 6]

/-- The `chunkSize` that it hands on. -/
def chunkSize : Nat := 250

/-- The payload of one command. -/
abbrev ChunkData : Type := { bytes : List UInt8 // bytes.length ≤ chunkSize }

theorem ChunkData.length_lt (chunk : ChunkData) : chunk.val.length < 256 :=
  chunk.property.trans_lt (by decide)

/-- The codes of `LedgerError` that the client names. -/
def ledgerNoErrors : Nat := 0x9000
def ledgerDataIsInvalid : Nat := 0x6984
def ledgerBadKeyHandle : Nat := 0x6A80
def ledgerSignVerifyError : Nat := 0x6F01

/-- The components, four bytes each. -/
def componentBytes (path : List UInt32) : List UInt8 :=
  (path.map fun component => LittleEndian.bytes 4 component.toNat).flatten

/-- An answer as it is received. -/
def Reply.bytes (reply : Reply) : List UInt8 :=
  reply.data ++ [UInt8.ofNat (reply.sw / 256), UInt8.ofNat reply.sw]

/-- What the client has from its library. -/
structure LedgerJs where
  TransportError : Type
  serializePath : List UInt32 → Option (List UInt8)
  /-- How `prepareChunks` cuts a message. -/
  slices : List UInt8 → List ChunkData
  /-- What `send` makes of an answer, with the status codes that are listed. -/
  send : List Nat → List UInt8 → Except TransportError (List UInt8)
  /-- The code in what `processErrorResponse` returns. -/
  processErrorResponse : TransportError → Nat
  serializePath_of_mem : ∀ path : List UInt32, path.length ∈ acceptedPathLengths →
    serializePath path = some (componentBytes path)
  serializePath_of_not_mem : ∀ path : List UInt32, path.length ∉ acceptedPathLengths →
    serializePath path = none
  flatten_slices : ∀ message, ((slices message).map Subtype.val).flatten = message
  slice_ne_nil : ∀ message, ∀ slice ∈ slices message, slice.val ≠ []
  send_of_mem : ∀ (codes : List Nat) (reply : Reply), reply.sw < 2 ^ 16 → reply.sw ∈ codes →
    send codes reply.bytes = .ok reply.bytes
  send_of_not_mem : ∀ (codes : List Nat) (reply : Reply), reply.sw < 2 ^ 16 → reply.sw ∉ codes →
    ∃ error, send codes reply.bytes = .error error ∧ processErrorResponse error = reply.sw

/-! ## What is sent -/

theorem componentBytes_cons (component : UInt32) (path : List UInt32) :
    componentBytes (component :: path) =
      LittleEndian.bytes 4 component.toNat ++ componentBytes path := by
  rw [componentBytes, List.map_cons, List.flatten_cons, componentBytes]

@[simp] theorem componentBytes_length (path : List UInt32) :
    (componentBytes path).length = 4 * path.length := by
  induction path with
  | nil => rfl
  | cons component path ih =>
      rw [componentBytes_cons, List.length_append, LittleEndian.bytes_length, ih, List.length_cons]
      omega

section Library

variable {js : LedgerJs} {path : List UInt32} {bytes : List UInt8}

theorem serializePath_eq_some (h : js.serializePath path = some bytes) :
    path.length ∈ acceptedPathLengths ∧ bytes = componentBytes path := by
  by_cases hmem : path.length ∈ acceptedPathLengths
  · rw [js.serializePath_of_mem path hmem] at h
    exact ⟨hmem, (Option.some.inj h).symm⟩
  · rw [js.serializePath_of_not_mem path hmem] at h
    cases h

theorem serializePath_length_le (h : js.serializePath path = some bytes) : bytes.length ≤ 24 := by
  obtain ⟨hmem, rfl⟩ := serializePath_eq_some h
  have hmax : path.length ≤ 6 := by
    revert hmem
    generalize path.length = count
    revert count
    decide
  rw [componentBytes_length]
  omega

theorem slices_eq_nil_iff (js : LedgerJs) (message : List UInt8) :
    js.slices message = [] ↔ message = [] := by
  constructor
  · intro hnil
    rw [← js.flatten_slices message, hnil]
    rfl
  · rintro rfl
    refine List.eq_nil_iff_forall_not_mem.mpr fun slice hmem => js.slice_ne_nil [] slice hmem ?_
    have hflat := js.flatten_slices []
    exact List.flatten_eq_nil_iff.mp hflat slice.val (List.mem_map_of_mem hmem)

end Library

/-! ## What is received -/

/-- The status code at the end of an answer. -/
def errorCodeOf (response : List UInt8) : Nat :=
  let errorCodeData := response.drop (response.length - 2)
  (errorCodeData.getD 0 0).toNat * 256 + (errorCodeData.getD 1 0).toNat

theorem errorCodeOf_bytes {reply : Reply} (h : reply.sw < 2 ^ 16) :
    errorCodeOf reply.bytes = reply.sw := by
  have hcode : reply.bytes.drop (reply.bytes.length - 2) =
      [UInt8.ofNat (reply.sw / 256), UInt8.ofNat reply.sw] := by
    rw [Reply.bytes, List.length_append, List.length_cons, List.length_singleton,
      Nat.add_sub_cancel, List.drop_left]
  simp only [errorCodeOf, hcode, List.getD_cons_zero, List.getD_cons_succ, UInt8.toNat_ofNat']
  omega

theorem ApduCode.value_lt (code : ApduCode) : code.value < 2 ^ 16 := by
  cases code <;> decide

/-! ## A library -/

/-- Cut into parts of the largest size. The fuel is the number of bytes. -/
def cut : Nat → List UInt8 → List ChunkData
  | 0, _ => []
  | _ + 1, [] => []
  | fuel + 1, byte :: message =>
      ⟨(byte :: message).take chunkSize, List.length_take_le _ _⟩ ::
        cut fuel ((byte :: message).drop chunkSize)

theorem flatten_cut {fuel : Nat} {message : List UInt8} (h : message.length ≤ fuel) :
    ((cut fuel message).map Subtype.val).flatten = message := by
  induction fuel generalizing message with
  | zero => exact (List.length_eq_zero_iff.mp (Nat.le_zero.mp h)).symm
  | succ fuel ih =>
      cases message with
      | nil => rfl
      | cons byte message =>
          have hdrop : ((byte :: message).drop chunkSize).length ≤ fuel := by
            rw [List.length_drop, chunkSize]
            rw [List.length_cons] at h ⊢
            omega
          rw [cut, List.map_cons, List.flatten_cons, ih hdrop, List.take_append_drop]

theorem cut_ne_nil {fuel : Nat} {message : List UInt8} :
    ∀ slice ∈ cut fuel message, slice.val ≠ [] := by
  induction fuel generalizing message with
  | zero => nofun
  | succ fuel ih =>
      cases message with
      | nil => nofun
      | cons byte message =>
          rw [cut, List.forall_mem_cons]
          exact ⟨nofun, ih⟩

/-- The error of the transport is the code. -/
def LedgerJs.reference : LedgerJs where
  TransportError := Nat
  serializePath path :=
    if path.length ∈ acceptedPathLengths then some (componentBytes path) else none
  slices message := cut message.length message
  send codes response :=
    if errorCodeOf response ∈ codes then .ok response else .error (errorCodeOf response)
  processErrorResponse := id
  serializePath_of_mem _ h := if_pos h
  serializePath_of_not_mem _ h := if_neg h
  flatten_slices _ := flatten_cut le_rfl
  slice_ne_nil _ := cut_ne_nil
  send_of_mem codes reply hlt h := by
    rw [errorCodeOf_bytes hlt]
    exact if_pos h
  send_of_not_mem codes reply hlt h := by
    rw [errorCodeOf_bytes hlt]
    exact ⟨reply.sw, if_neg h, rfl⟩

end LedgerMatrix
