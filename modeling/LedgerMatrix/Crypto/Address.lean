import LedgerMatrix.Crypto.Crc8
import LedgerMatrix.Foundation.Radix
import LedgerMatrix.Machine

/-! # The address of a public key

`crypto_encodePubkey` writes the prefix `MAN.`, the last twenty bytes of the hash
of the key in base 58, a letter for the checksum of all that, and a terminator.
The capacity it states for the base 58 text is more than the caller's buffer
has, so that nothing but the length of the text keeps the writes inside.
-/

namespace LedgerMatrix

open Imperative

def addressLen : Nat := 50
def ethAddressLen : Nat := 20
def secp256k1PubkeyLen : Nat := 65
def keccakHashSize : Nat := 32

/-- The functions that `crypto_encodePubkey` calls. An error code is `none`. -/
structure AddressLibrary where
  /-- `keccak_hash`: the hash of a string. -/
  keccakHash : List UInt8 → Option (Vector UInt8 keccakHashSize)
  /-- `encode_base58`: the text of a string, in so many characters at most. -/
  encodeBase58 : List UInt8 → Nat → Option (List UInt8)
  /-- `encode_base58_clip`: the letter of a byte. -/
  encodeBase58Clip : UInt8 → UInt8

/-- The last twenty bytes of the hash of a key. -/
def ethAddress (pubkeyHash : Vector UInt8 keccakHashSize) : List UInt8 :=
  slice pubkeyHash.toList 12 ethAddressLen

/-- `crypto_encodePubkey`. A pointer is an index into the memory that is written,
and the public key is what its pointer has behind it. -/
def cryptoEncodePubkey (library : AddressLibrary) (buffer : Option Nat) (bufferLen : Nat)
    (pubkey : Option (List UInt8)) : Parser (List UInt8) Nat :=
  match buffer, pubkey with
  | some buffer, some pubkey =>
      if bufferLen < addressLen then pure 0
      else do
        let key ← loadBytes pubkey (some 0) (secp256k1PubkeyLen - 1)
        match library.keccakHash key with
        | none => pure 0
        | some pubkeyHash => do
            storeBytes buffer (ascii "MAN.")
            match library.encodeBase58 (ethAddress pubkeyHash) 100 with
            | none => pure 0
            | some text => do
                storeBytes (buffer + 4) text
                let outlen := text.length
                let memory ← Command.read
                let checksum := crc8 (slice memory buffer (4 + outlen))
                storeAt (buffer + (4 + outlen)) (library.encodeBase58Clip checksum)
                storeAt (buffer + (4 + outlen + 1)) 0
                pure (u8 (4 + outlen + 1))
  | _, _ => pure 0

/-! ## The text of an address -/

/-- The prefix and the body of an address, which its checksum is taken of. -/
def addressFront (account : List UInt8) : List UInt8 := ascii "MAN." ++ Base58.encode account

/-- The address of an account, with the letter of its checksum at the end. -/
def addressText (clip : UInt8 → UInt8) (account : List UInt8) : List UInt8 :=
  addressFront account ++ [clip (crc8 (addressFront account))]

@[simp] theorem ethAddress_length (pubkeyHash : Vector UInt8 keccakHashSize) :
    (ethAddress pubkeyHash).length = ethAddressLen := by
  apply slice_length
  rw [Vector.length_toList]
  decide

theorem addressFront_length (account : List UInt8) :
    (addressFront account).length = 4 + (Base58.encode account).length := List.length_append

theorem addressText_length (clip : UInt8 → UInt8) (account : List UInt8) :
    (addressText clip account).length = (addressFront account).length + 1 := List.length_append

/-- The address of twenty bytes has 25 to 33 characters. -/
theorem addressText_length_bounds (clip : UInt8 → UInt8) {account : List UInt8}
    (h : account.length = ethAddressLen) :
    25 ≤ (addressText clip account).length ∧ (addressText clip account).length ≤ 33 := by
  rw [ethAddressLen] at h
  have hshort : account.length ≤ 21 := by omega
  have hlow := Base58.length_le_length_encode account
  have hhigh := Base58.length_encode_le hshort
  rw [addressText_length, addressFront_length]
  omega

/-- The letter of the checksum is the last one, so what stands before it tells
two accounts apart. -/
theorem addressText_injective (clip : UInt8 → UInt8) : Function.Injective (addressText clip) := by
  intro a b h
  obtain ⟨hfront, -⟩ := List.append_inj' h rfl
  exact Base58.encode_injective (List.append_cancel_left hfront)

theorem zero_notMem_addressText {clip : UInt8 → UInt8} (h : ∀ byte, clip byte ≠ 0)
    (account : List UInt8) : (0 : UInt8) ∉ addressText clip account := by
  rw [addressText, addressFront, List.mem_append, List.mem_append, List.mem_singleton]
  rintro ((hmark | hbody) | hcheck)
  · exact absurd hmark (by decide)
  · exact Base58.zero_notMem_encode account hbody
  · exact h _ hcheck.symm

/-! ## The run -/

/-- What the library's functions are documented to do: a hash has its 32 bytes,
and a text that fits is the one of base 58. -/
structure AddressLibrary.Standard (library : AddressLibrary)
    (digest : List UInt8 → Vector UInt8 keccakHashSize) : Prop where
  hashes : ∀ input, library.keccakHash input = some (digest input)
  encodes : ∀ (bytes : List UInt8) (capacity : Nat), bytes.length = ethAddressLen →
    (Base58.encode bytes).length ≤ capacity →
    library.encodeBase58 bytes capacity = some (Base58.encode bytes)

/-- A call of `crypto_encodePubkey`: a buffer with enough room, somewhere in a
memory, and a public key. -/
structure AddressCall where
  memory : List UInt8
  start : Nat
  bufferLen : Nat
  pubkey : List UInt8
  long : addressLen ≤ bufferLen
  room : start + bufferLen ≤ memory.length
  key : secp256k1PubkeyLen - 1 ≤ pubkey.length

namespace AddressCall

/-- How the call ends. -/
def outcome (call : AddressCall) (library : AddressLibrary) : Outcome Stop (List UInt8) Nat :=
  (cryptoEncodePubkey library (some call.start) call.bufferLen (some call.pubkey)).outcome
    call.memory

/-- The twenty bytes that the key's account is known by. -/
def account (call : AddressCall) (digest : List UInt8 → Vector UInt8 keccakHashSize) : List UInt8 :=
  ethAddress (digest (slice call.pubkey 0 (secp256k1PubkeyLen - 1)))

/-- The address of the key's account. -/
def address (call : AddressCall) (library : AddressLibrary)
    (digest : List UInt8 → Vector UInt8 keccakHashSize) : List UInt8 :=
  addressText library.encodeBase58Clip (call.account digest)

end AddressCall

section Run

variable {library : AddressLibrary} {digest : List UInt8 → Vector UInt8 keccakHashSize}
variable {memory pubkey : List UInt8} {start bufferLen : Nat}

/-- The run writes the address and a terminator, and returns its length. -/
theorem wp_cryptoEncodePubkey (h : library.Standard digest) (hlen : addressLen ≤ bufferLen)
    (hroom : start + bufferLen ≤ memory.length) (hkey : secp256k1PubkeyLen - 1 ≤ pubkey.length)
    {account address : List UInt8}
    (haccount : ethAddress (digest (slice pubkey 0 (secp256k1PubkeyLen - 1))) = account)
    (haddress : addressText library.encodeBase58Clip account = address)
    {safe : Event → Prop} {post : Nat → List UInt8 → Prop} {early : Stop → List UInt8 → Prop}
    (hpost : post address.length (overwrite memory start (address ++ [0]))) :
    (cryptoEncodePubkey library (some start) bufferLen (some pubkey)).wp safe memory post
      early := by
  have hcount : account.length = ethAddressLen := by rw [← haccount, ethAddress_length]
  obtain ⟨-, hbound⟩ := addressText_length_bounds library.encodeBase58Clip hcount
  rw [addressText_length] at hbound
  have hprefix : (ascii "MAN.").length = 4 := rfl
  have hfront := addressFront_length account
  rw [addressLen] at hlen
  simp only [cryptoEncodePubkey, Nat.not_lt.mpr hlen, addressLen, if_false, Command.wp_bind]
  apply wp_loadBytes (by rwa [Nat.zero_add])
  rw [h.hashes]
  simp only [haccount, Command.wp_bind]
  apply wp_storeBytes (by omega)
  simp only [h.encodes account 100 hcount (by omega), Command.wp_bind, Command.wp_read]
  apply wp_storeBytes (by rw [overwrite_length (by omega)]; omega)
  -- the two writes are one, of all that the checksum is taken of
  have hbody :
      overwrite (overwrite memory start (ascii "MAN.")) (start + 4) (Base58.encode account) =
        overwrite memory start (addressFront account) := by
    rw [← hprefix, overwrite_overwrite (by omega), addressFront]
  rw [hbody, ← hfront, slice_overwrite_self (by omega)]
  apply wp_storeAt (by rw [overwrite_length (by omega)]; omega)
  rw [set_eq_overwrite (by rw [overwrite_length (by omega)]; omega), overwrite_overwrite (by omega),
    ← addressText, haddress]
  have haddressLength : address.length = (addressFront account).length + 1 := by
    rw [← haddress, addressText_length]
  rw [← haddressLength]
  apply wp_storeAt (by rw [overwrite_length (by omega)]; omega)
  rw [set_eq_overwrite (by rw [overwrite_length (by omega)]; omega), overwrite_overwrite (by omega),
    Command.wp_pure, u8, Nat.mod_eq_of_lt (by omega)]
  exact hpost

/-- What an address in a memory is, and what of the memory it took. -/
structure Encoded (clip : UInt8 → UInt8) (account before after : List UInt8) (start n : Nat) :
    Prop where
  low : 25 ≤ n
  high : n ≤ 33
  length : after.length = before.length
  frame : ∀ i, i < start ∨ start + n < i → after[i]? = before[i]?
  mark : slice after start 4 = ascii "MAN."
  body : slice after (start + 4) (n - 1 - 4) = Base58.encode account
  check : after[start + (n - 1)]? = some (clip (crc8 (slice after start (n - 1))))
  terminator : after[start + n]? = some 0

/-- The text of an address and a terminator, put into a memory, are one there. -/
theorem encoded_overwrite {clip : UInt8 → UInt8} {account address : List UInt8}
    (hcount : account.length = ethAddressLen) (haddress : addressText clip account = address)
    (hroom : start + addressLen ≤ memory.length) :
    Encoded clip account memory (overwrite memory start (address ++ [0])) start address.length := by
  obtain ⟨hlow, hhigh⟩ := addressText_length_bounds clip hcount
  have hlength := addressText_length clip account
  have hfront := addressFront_length account
  rw [haddress] at hlow hhigh hlength
  have hprefix : (ascii "MAN.").length = 4 := rfl
  have hall : (address ++ [0]).length = address.length + 1 := List.length_append
  have hfit : start + (address ++ [0]).length ≤ memory.length := by
    rw [addressLen] at hroom
    omega
  have hlast : ∀ i, i < address.length + 1 →
      (overwrite memory start (address ++ [0]))[start + i]? = (address ++ [0])[i]? :=
    fun i hi => getElem?_overwrite_of_inside hfit (by omega)
  -- what is written, split before the checksum and behind the prefix
  have hparts : address ++ [0] =
      addressFront account ++ [clip (crc8 (addressFront account)), 0] := by
    rw [← haddress, addressText, List.append_assoc]
    rfl
  have hmark : address ++ [0] = ascii "MAN." ++ (Base58.encode account ++
      [clip (crc8 (addressFront account)), 0]) := by
    rw [hparts, addressFront, List.append_assoc]
  have hchecked : slice (overwrite memory start (address ++ [0])) start (address.length - 1) =
      addressFront account := by
    rw [hlength, Nat.add_sub_cancel, hparts]
    exact slice_overwrite_left (by rwa [← hparts])
  refine ⟨hlow, hhigh, overwrite_length hfit, ?_, ?_, ?_, ?_, ?_⟩
  · intro i hi
    apply getElem?_overwrite_of_outside hfit
    omega
  · rw [hmark, ← hprefix]
    exact slice_overwrite_left (by rwa [← hmark])
  · rw [slice_overwrite hfit (by omega), hmark, slice, List.drop_left' hprefix]
    exact List.take_left' (by omega)
  · rw [hchecked, hlast _ (by omega), hparts, hlength, Nat.add_sub_cancel,
      List.getElem?_append_right (Nat.le_refl _), Nat.sub_self]
    rfl
  · rw [hlast _ (by omega), List.getElem?_append_right (Nat.le_refl _), Nat.sub_self]
    rfl

/-- The call writes the address and a terminator, and returns its length. -/
theorem AddressCall.outcome_eq (h : library.Standard digest) (call : AddressCall) :
    call.outcome library = .done (call.address library digest).length
      (overwrite call.memory call.start (call.address library digest ++ [0])) := by
  have hrun : (cryptoEncodePubkey library (some call.start) call.bufferLen (some call.pubkey)).wp
      (fun _ => True) call.memory
      (fun n after => n = (call.address library digest).length ∧
        after = overwrite call.memory call.start (call.address library digest ++ [0]))
      (fun _ _ => False) :=
    wp_cryptoEncodePubkey h call.long call.room call.key rfl rfl ⟨rfl, rfl⟩
  obtain ⟨n, after, hend, rfl, rfl⟩ := hrun.exists_done
  exact hend

/-- There is room for the address and its terminator. -/
theorem AddressCall.fits (library : AddressLibrary)
    (digest : List UInt8 → Vector UInt8 keccakHashSize) (call : AddressCall) :
    call.start + (call.address library digest ++ [0]).length ≤ call.memory.length := by
  have hlen := call.long
  have hroom := call.room
  obtain ⟨-, hhigh⟩ := addressText_length_bounds library.encodeBase58Clip
    (ethAddress_length (digest (slice call.pubkey 0 (secp256k1PubkeyLen - 1))))
  rw [addressLen] at hlen
  rw [List.length_append, List.length_singleton, address, account]
  omega

theorem AddressCall.encoded (library : AddressLibrary)
    (digest : List UInt8 → Vector UInt8 keccakHashSize) (call : AddressCall) :
    Encoded library.encodeBase58Clip (call.account digest) call.memory
      (overwrite call.memory call.start (call.address library digest ++ [0])) call.start
      (call.address library digest).length :=
  encoded_overwrite (ethAddress_length _) rfl
    ((Nat.add_le_add_left call.long call.start).trans call.room)

end Run

/-- Every key gets a well-formed address, which takes 26 to 34 bytes of the
buffer and leaves the rest as it was. Two keys get the same address when the
last twenty bytes of their hashes are the same, and only then. -/
theorem address_identifies_account (library : AddressLibrary)
    (digest : List UInt8 → Vector UInt8 keccakHashSize) (h : library.Standard digest) :
    (∀ call : AddressCall, ∃ n after, call.outcome library = .done n after ∧
      Encoded library.encodeBase58Clip (call.account digest) call.memory after call.start n) ∧
    ∀ (a b : AddressCall) (n m : Nat) (after after' : List UInt8),
      a.outcome library = .done n after → b.outcome library = .done m after' →
      (slice after a.start n = slice after' b.start m ↔ a.account digest = b.account digest) := by
  refine ⟨fun call => ⟨_, _, call.outcome_eq h, call.encoded library digest⟩, ?_⟩
  intro a b n m after after' ha hb
  -- what a call returns is the length of the address that it leaves in its buffer
  have hshown : ∀ {call : AddressCall} {n : Nat} {after : List UInt8},
      call.outcome library = .done n after →
      slice after call.start n = call.address library digest := by
    intro call n after hend
    rw [call.outcome_eq h] at hend
    cases hend
    exact slice_overwrite_left (call.fits library digest)
  rw [hshown ha, hshown hb]
  exact (addressText_injective library.encodeBase58Clip).eq_iff

/-! ## A key and its address -/

def exampleKey : List UInt8 :=
  [0xb9, 0xa1, 0xfd, 0xb8, 0xa1, 0x32, 0x47, 0x12, 0xfa, 0xee, 0x3d, 0x3f, 0x92, 0x0a, 0x78, 0xc6,
    0x81, 0x68, 0x3b, 0x57, 0x50, 0xf0, 0x62, 0xa1, 0x4e, 0x27, 0x67, 0x47, 0x91, 0x18, 0x09, 0x32,
    0xe9, 0xc6, 0x12, 0xe8, 0x57, 0x18, 0x5a, 0x52, 0x24, 0x57, 0xc5, 0x99, 0x47, 0x6c, 0xc4, 0xc7,
    0x6c, 0x1c, 0x51, 0x68, 0x49, 0x8d, 0xac, 0x3c, 0xfe, 0xf9, 0x47, 0x69, 0xe5, 0xa7, 0xa2, 0x1f]

/-- The hash of the key. -/
def exampleDigest (_ : List UInt8) : Vector UInt8 keccakHashSize :=
  #v[0x14, 0x33, 0xb5, 0x38, 0x76, 0xa4, 0xbd, 0x71, 0x34, 0xa9, 0x21, 0x7a, 0xf5, 0x14, 0x16,
    0x87, 0x29, 0x4a, 0xb9, 0x72, 0x69, 0xb7, 0x80, 0xb1, 0xe0, 0x37, 0x3b, 0x15, 0x14, 0x92,
    0x31, 0x40]

def exampleLibrary : AddressLibrary where
  keccakHash input := some (exampleDigest input)
  encodeBase58 bytes capacity :=
    if (Base58.encode bytes).length ≤ capacity then some (Base58.encode bytes) else none
  encodeBase58Clip byte := Base58.letter (byte.toNat % 58)

theorem exampleLibrary_standard : exampleLibrary.Standard exampleDigest where
  hashes _ := rfl
  encodes _ _ _ hfit := if_pos hfit

def exampleCall : AddressCall where
  memory := List.replicate 50 0
  start := 0
  bufferLen := 50
  pubkey := exampleKey
  long := by decide
  room := by decide
  key := by decide

theorem exampleCall_encoded : ∃ n after, exampleCall.outcome exampleLibrary = .done n after ∧
    Encoded exampleLibrary.encodeBase58Clip (exampleCall.account exampleDigest) exampleCall.memory
      after exampleCall.start n :=
  (address_identifies_account exampleLibrary exampleDigest exampleLibrary_standard).1 exampleCall

example : exampleCall.address exampleLibrary exampleDigest =
    ascii "MAN.4R2tdcPR6Sdv28Nz4627M6Hf2ko1J" := by decide +kernel

end LedgerMatrix
