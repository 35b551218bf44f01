import LedgerMatrix.Crypto.Address
import LedgerMatrix.Device.Basic

/-! # Keys and signatures

The functions of `crypto.c`. Each call of the operating system may fail, whatever it
has written by then, and the function then goes on at `catch_cx_error`, where the key
material on its stack is cleared. A signature is given out in two forms, with the
fixed one in front.
-/

namespace LedgerMatrix

open Imperative

/-- `zxerr_t`, as far as the functions of `crypto.c` return it. -/
inductive CryptoCode where
  | ok
  | unknown
  | encodingFailed
  deriving DecidableEq

def secp256k1PrivkeyLen : Nat := 32

/-- The size of `der_signature`. -/
abbrev derSignatureLen : Nat := 73

/-- The sizes of `r`, `s` and `v`. -/
def rsvLen : Nat := 32 + 32 + 1

/-- The size of `signature_t`, which is packed. -/
def signatureSize : Nat := rsvLen + derSignatureLen

/-- What a call leaves in the objects it is pointed at, and whether it succeeded. -/
structure Cx (τ : Type) where
  ok : Bool
  left : τ

/-- The objects of a call that succeeded. -/
def Cx.value {τ : Type} (call : Cx τ) : Option τ := if call.ok then some call.left else none

/-- The fixed form of a signature. -/
structure Rsv where
  r : Vector UInt8 32
  s : Vector UInt8 32
  v : UInt8

/-- The fields of a signature in the order of `signature_t`. -/
def Rsv.bytes (rsv : Rsv) : List UInt8 := rsv.r.toList ++ rsv.s.toList ++ [rsv.v]

/-- A signature in its other form, and what else is known of it. -/
structure Der where
  bytes : List UInt8
  info : Nat
  fits : bytes.length ≤ derSignatureLen

/-- The functions of the operating system and the support library that are called
with keys. An object that is written before it is read is not among the arguments. -/
structure Sdk where
  PrivateKey : Type
  PublicKey : Type
  Sha3 : Type
  /-- Objects of zeros. -/
  clearPrivateKey : PrivateKey
  clearPublicKey : PublicKey
  clearSha3 : Sha3
  /-- The uncompressed point, the field `W`. -/
  w : PublicKey → Vector UInt8 65
  /-- `os_derive_bip32_with_seed_no_throw`, into an array of zeros. -/
  deriveBip32WithSeed : HdPath → Cx (Vector UInt8 64)
  /-- `os_derive_bip32_no_throw`, into an array of zeros. -/
  deriveBip32 : HdPath → Cx (Vector UInt8 64)
  /-- `cx_ecfp_init_private_key_no_throw`. -/
  initPrivateKey : List UInt8 → Cx PrivateKey
  /-- `cx_ecfp_init_public_key_no_throw`, without a point. -/
  initPublicKey : Cx PublicKey
  /-- `cx_ecfp_generate_pair_no_throw`, which keeps the private key. -/
  generatePair : PublicKey → PrivateKey → Cx (PublicKey × PrivateKey)
  /-- `cx_keccak_init_no_throw`, for 256 bits. -/
  keccakInit : Cx Sha3
  /-- `cx_hash_no_throw`, of all the input. -/
  hash : Sha3 → List UInt8 → Cx (Sha3 × Vector UInt8 keccakHashSize)
  /-- `cx_ecdsa_sign_no_throw`. -/
  ecdsaSign : PrivateKey → Vector UInt8 keccakHashSize → Cx Der
  /-- `convertDERtoRSV`. -/
  convertDERtoRSV : List UInt8 → Nat → Cx Rsv

/-- Why the calls of a function do not reach their end. -/
inductive Jump where
  | catchCxError
  | undefined (stop : Stop)

section Calls

variable {σ τ : Type}

/-- `CATCH_CXERROR`: what the call leaves is kept in any case. -/
def cxCall (keep : τ → σ → σ) (call : Cx τ) : Command Event Jump σ Unit := do
  Command.modify (keep call.left)
  if call.ok then pure () else Command.stop .catchCxError

/-- Write bytes to the memory of the caller. -/
def writeBytes (index : Nat) (bytes : List UInt8) : Command Event Jump (σ × List UInt8) Unit :=
  Command.handle (Command.zoom Lens.snd (storeBytes index bytes))
    fun stop => Command.stop (.undefined stop)

/-- What follows `catch_cx_error` follows in any case. -/
def untilCxError (calls : Command Event Jump σ Unit) : Parser σ Unit :=
  Command.handle calls fun
    | .catchCxError => pure ()
    | .undefined stop => Command.stop stop

end Calls

section Functions

variable (sdk : Sdk)

/-- The local variables of `crypto_extractPublicKey`. -/
structure ExtractFrame where
  publicKey : sdk.PublicKey
  privateKey : sdk.PrivateKey
  privateKeyData : Vector UInt8 64
  err : CryptoCode

def ExtractFrame.initial : ExtractFrame sdk where
  publicKey := sdk.clearPublicKey
  privateKey := sdk.clearPrivateKey
  privateKeyData := Vector.replicate 64 0
  err := .unknown

/-- `crypto_extractPublicKey` behind the check of its arguments. -/
def extractPublicKey (hdPath : HdPath) (pubkey : Nat) :
    Parser (ExtractFrame sdk × List UInt8) CryptoCode := do
  untilCxError do
    cxCall (fun data s => ({ s.1 with privateKeyData := data }, s.2))
      (sdk.deriveBip32WithSeed hdPath)
    let s ← Command.read
    cxCall (fun key s => ({ s.1 with privateKey := key }, s.2))
      (sdk.initPrivateKey (s.1.privateKeyData.toList.take secp256k1PrivkeyLen))
    cxCall (fun key s => ({ s.1 with publicKey := key }, s.2)) sdk.initPublicKey
    let s ← Command.read
    cxCall (fun pair s => ({ s.1 with publicKey := pair.1, privateKey := pair.2 }, s.2))
      (sdk.generatePair s.1.publicKey s.1.privateKey)
    let s ← Command.read
    writeBytes pubkey (sdk.w s.1.publicKey).toList
    Command.modify fun s => ({ s.1 with err := .ok }, s.2)
  Command.modify fun s =>
    ({ s.1 with privateKey := sdk.clearPrivateKey, privateKeyData := Vector.replicate 64 0 }, s.2)
  let s ← Command.read
  pure s.1.err

def cryptoExtractPublicKey (hdPath : HdPath) (pubkey : Option Nat) (pubkeyLen : Nat) :
    Parser (List UInt8) CryptoCode :=
  match pubkey with
  | none => pure .unknown
  | some pubkey =>
      if pubkeyLen < secp256k1PubkeyLen then pure .unknown
      else Command.scope (.initial sdk) (extractPublicKey sdk hdPath pubkey)

/-- The local variables of `crypto_sign`, and the length that it is pointed at. -/
structure SignFrame where
  sha3 : sdk.Sha3
  privateKey : sdk.PrivateKey
  privateKeyData : Vector UInt8 64
  messageDigest : Vector UInt8 keccakHashSize
  info : Nat
  err : CryptoCode
  signatureLength : Nat

/-- The private key is the only variable that is not initialised. -/
def SignFrame.initial (privateKey : sdk.PrivateKey) : SignFrame sdk where
  sha3 := sdk.clearSha3
  privateKey := privateKey
  privateKeyData := Vector.replicate 64 0
  messageDigest := Vector.replicate keccakHashSize 0
  info := 0
  err := .unknown
  signatureLength := derSignatureLen

/-- `crypto_sign` behind the check of its arguments. -/
def signMessage (hdPath : HdPath) (signature : Nat) (message : List UInt8) :
    Parser (SignFrame sdk × List UInt8) (CryptoCode × Nat) := do
  untilCxError do
    cxCall (fun data s => ({ s.1 with privateKeyData := data }, s.2)) (sdk.deriveBip32 hdPath)
    let s ← Command.read
    cxCall (fun key s => ({ s.1 with privateKey := key }, s.2))
      (sdk.initPrivateKey (s.1.privateKeyData.toList.take secp256k1PrivkeyLen))
    cxCall (fun sha3 s => ({ s.1 with sha3 := sha3 }, s.2)) sdk.keccakInit
    let s ← Command.read
    cxCall (fun hash s => ({ s.1 with sha3 := hash.1, messageDigest := hash.2 }, s.2))
      (sdk.hash s.1.sha3 message)
    let s ← Command.read
    let signed := sdk.ecdsaSign s.1.privateKey s.1.messageDigest
    writeBytes (signature + rsvLen) signed.left.bytes
    cxCall (fun der s =>
      ({ s.1 with signatureLength := der.bytes.length, info := der.info }, s.2)) signed
    let s ← Command.read
    let converted := sdk.convertDERtoRSV (slice s.2 (signature + rsvLen) derSignatureLen) s.1.info
    writeBytes signature converted.left.bytes
    -- this call has a code of its own
    if converted.ok then
      Command.modify fun s =>
        ({ s.1 with signatureLength := rsvLen + s.1.signatureLength, err := .ok }, s.2)
    else pure ()
  Command.modify fun s =>
    ({ s.1 with privateKey := sdk.clearPrivateKey, privateKeyData := Vector.replicate 64 0 }, s.2)
  let s ← Command.read
  pure (s.1.err, s.1.signatureLength)

/-- `crypto_sign`. The result has the length that is written through a pointer, which
stays what it was when the arguments are refused. What the private key holds before
it is initialised is `privateKey`. -/
def cryptoSign (privateKey : sdk.PrivateKey) (hdPath : HdPath) (signature : Option Nat)
    (signatureLength signatureMaxlen : Nat) (message : Option (List UInt8)) :
    Parser (List UInt8) (CryptoCode × Nat) :=
  match signature, message with
  | some signature, some message =>
      if signatureMaxlen < signatureSize then pure (.unknown, signatureLength)
      else Command.scope (.initial sdk privateKey) (signMessage sdk hdPath signature message)
  | _, _ => pure (.unknown, signatureLength)

/-- `keccak_hash` of `crypto.c`, for a buffer of 32 bytes. -/
def keccakHash (input : List UInt8) : Option (Vector UInt8 keccakHashSize) := do
  let ctx ← sdk.keccakInit.value
  let hash ← (sdk.hash ctx input).value
  pure hash.2

/-- The library of `crypto_encodePubkey` on the device. -/
def Sdk.addressLibrary (base58 : AddressLibrary) : AddressLibrary :=
  { base58 with keccakHash := keccakHash sdk }

/-- `crypto_fillAddress`. The result has the length of the answer, which is not
written when there is an error. -/
def cryptoFillAddress (base58 : AddressLibrary) (hdPath : HdPath) (buffer bufferLen : Nat) :
    Parser (List UInt8) (CryptoCode × Option Nat) :=
  if bufferLen < secp256k1PubkeyLen + addressLen then pure (.unknown, none)
  else do
    storeBytes buffer (List.replicate bufferLen 0)
    let err ← cryptoExtractPublicKey sdk hdPath (some buffer) bufferLen
    if err ≠ .ok then pure (err, none)
    else
      let memory ← Command.read
      let addrLen ← cryptoEncodePubkey (sdk.addressLibrary base58)
        (some (buffer + secp256k1PubkeyLen)) (bufferLen - secp256k1PubkeyLen)
        (some (memory.drop (buffer + 1)))
      if addrLen = 0 then
        storeBytes buffer (List.replicate bufferLen 0)
        pure (.encodingFailed, none)
      else pure (.ok, some (secp256k1PubkeyLen + addrLen))

end Functions

/-! ## What is computed -/

namespace Sdk

variable (sdk : Sdk)

/-- The public key of a path. -/
def publicKey (hdPath : HdPath) : Option (Vector UInt8 65) := do
  let data ← (sdk.deriveBip32WithSeed hdPath).value
  let key ← (sdk.initPrivateKey (data.toList.take secp256k1PrivkeyLen)).value
  let unset ← sdk.initPublicKey.value
  let pair ← (sdk.generatePair unset key).value
  pure (sdk.w pair.1)

/-- The key that signs for a path. -/
def signingKey (hdPath : HdPath) : Option sdk.PrivateKey := do
  let data ← (sdk.deriveBip32 hdPath).value
  (sdk.initPrivateKey (data.toList.take secp256k1PrivkeyLen)).value

/-- The signature of a message in its variable form. -/
def der (hdPath : HdPath) (message : List UInt8) : Option Der := do
  let key ← sdk.signingKey hdPath
  let digest ← keccakHash sdk message
  (sdk.ecdsaSign key digest).value

/-- Both forms of the signature of a message, the fixed one in front. -/
def signature (hdPath : HdPath) (message : List UInt8) : Option (List UInt8) := do
  let der ← sdk.der hdPath message
  let rsv ← (sdk.convertDERtoRSV der.bytes der.info).value
  pure (rsv.bytes ++ der.bytes)

/-- The answer to a request for an address: the public key and the address. -/
def fillAddress (base58 : AddressLibrary) (hdPath : HdPath) : Option (List UInt8) := do
  let point ← sdk.publicKey hdPath
  let hash ← keccakHash sdk (slice point.toList 1 (secp256k1PubkeyLen - 1))
  pure (point.toList ++ addressText base58.encodeBase58Clip (ethAddress hash))

/-- What is converted ends where the signature does, whatever is behind it. -/
def ReadsDer : Prop := ∀ (key : sdk.PrivateKey) (digest : Vector UInt8 keccakHashSize) (der : Der),
  (sdk.ecdsaSign key digest).value = some der → ∀ rest,
    sdk.convertDERtoRSV (der.bytes ++ rest) der.info = sdk.convertDERtoRSV der.bytes der.info

variable {sdk}

/-- A signature, one call after the other. -/
theorem der_eq (hdPath : HdPath) (message : List UInt8) : sdk.der hdPath message =
    (sdk.deriveBip32 hdPath).value.bind fun data =>
      (sdk.initPrivateKey (data.toList.take secp256k1PrivkeyLen)).value.bind fun key =>
        sdk.keccakInit.value.bind fun sha3 =>
          (sdk.hash sha3 message).value.bind fun hash => (sdk.ecdsaSign key hash.2).value := by
  simp only [Sdk.der, signingKey, keccakHash, Option.bind_eq_bind, Option.pure_def,
    Option.bind_assoc, Option.bind_some]

/-- Every signature of a message is one of its digest. -/
theorem exists_of_der {hdPath : HdPath} {message : List UInt8} {der : Der}
    (h : sdk.der hdPath message = some der) :
    ∃ key digest, sdk.signingKey hdPath = some key ∧ keccakHash sdk message = some digest ∧
      (sdk.ecdsaSign key digest).value = some der := by
  obtain ⟨key, hkey, h⟩ := Option.bind_eq_some_iff.mp h
  obtain ⟨digest, hdigest, h⟩ := Option.bind_eq_some_iff.mp h
  exact ⟨key, digest, hkey, hdigest, h⟩

end Sdk

@[simp] theorem Rsv.bytes_length (rsv : Rsv) : rsv.bytes.length = rsvLen := by
  simp [Rsv.bytes, rsvLen]

theorem Cx.left_of_value {τ : Type} {call : Cx τ} {value : τ} (h : call.value = some value) :
    call.left = value := by
  unfold Cx.value at h
  split at h
  next => exact Option.some.inj h
  next => cases h

section Rules

variable {σ τ : Type} {safe : Event → Prop}

/-- A call is the first of those that a value is made with. -/
theorem wp_cxCall {α : Type} {keep : τ → σ → σ} {call : Cx τ} {rest : τ → Option α}
    {result : Option α} (hresult : call.value.bind rest = result) {s : σ}
    {post : Unit → σ → Prop} {early : Jump → σ → Prop}
    (hok : ∀ value, call.value = some value → rest value = result → post () (keep value s))
    (herror : result = none → early .catchCxError (keep call.left s)) :
    (cxCall keep call).wp safe s post early := by
  subst hresult
  simp only [cxCall, Command.wp_bind, Command.wp_modify]
  cases hcall : call.ok with
  | true =>
      have hvalue : call.value = some call.left := if_pos hcall
      rw [hvalue] at hok
      exact (Command.wp_pure _).mpr (hok _ rfl rfl)
  | false =>
      have hvalue : call.value = none := if_neg (by rw [hcall]; decide)
      rw [hvalue] at herror
      exact (Command.wp_stop _).mpr (herror rfl)

/-- What holds at `catch_cx_error`, or where something is undefined. -/
def Landed (post : Unit → σ → Prop) (early : Stop → σ → Prop) : Jump → σ → Prop
  | .catchCxError, s => post () s
  | .undefined stop, s => early stop s

theorem wp_untilCxError {calls : Command Event Jump σ Unit} {s : σ} {post : Unit → σ → Prop}
    {early : Stop → σ → Prop} (h : calls.wp safe s post (Landed post early)) :
    (untilCxError calls).wp safe s post early := by
  rw [untilCxError, Command.wp_handle]
  refine h.mono (fun _ _ => id) fun jump t hlanded => ?_
  cases jump with
  | catchCxError => exact (Command.wp_pure ()).mpr hlanded
  | undefined stop => exact (Command.wp_stop stop).mpr hlanded

theorem wp_writeBytes {index : Nat} {bytes memory : List UInt8} {s : σ}
    (h : index + bytes.length ≤ memory.length) {post : Unit → σ × List UInt8 → Prop}
    {early : Jump → σ × List UInt8 → Prop} (hpost : post () (s, overwrite memory index bytes)) :
    (writeBytes index bytes).wp safe (s, memory) post early := by
  simp only [writeBytes, Command.wp_handle, Command.wp_zoom]
  exact wp_storeBytes h hpost

variable {sdk : Sdk} {hdPath : HdPath} {memory : List UInt8}

/-- The key material on the stack is cleared. -/
structure ExtractFrame.Cleared (frame : ExtractFrame sdk) : Prop where
  privateKey : frame.privateKey = sdk.clearPrivateKey
  privateKeyData : frame.privateKeyData = Vector.replicate 64 0

structure SignFrame.Cleared (frame : SignFrame sdk) : Prop where
  privateKey : frame.privateKey = sdk.clearPrivateKey
  privateKeyData : frame.privateKeyData = Vector.replicate 64 0

/-- The public key is written, when there is one, and the key material is cleared in
any case. -/
theorem wp_extractPublicKey {pubkey : Nat} (h : pubkey + secp256k1PubkeyLen ≤ memory.length)
    {post : CryptoCode → ExtractFrame sdk × List UInt8 → Prop}
    {early : Stop → ExtractFrame sdk × List UInt8 → Prop}
    (hok : ∀ frame point, frame.Cleared → sdk.publicKey hdPath = some point →
      post .ok (frame, overwrite memory pubkey point.toList))
    (herror : ∀ frame, frame.Cleared → sdk.publicKey hdPath = none →
      post .unknown (frame, memory)) :
    (extractPublicKey sdk hdPath pubkey).wp safe (.initial sdk, memory) post early := by
  rw [extractPublicKey, Command.wp_bind]
  apply wp_untilCxError
  simp only [Command.wp_bind, Command.wp_read, Command.wp_modify, Command.wp_pure]
  refine wp_cxCall (rfl : _ = sdk.publicKey hdPath) (fun data _ hresult => ?_) (herror _ ⟨rfl, rfl⟩)
  refine wp_cxCall hresult (fun key _ hresult => ?_) (herror _ ⟨rfl, rfl⟩)
  refine wp_cxCall hresult (fun unset _ hresult => ?_) (herror _ ⟨rfl, rfl⟩)
  refine wp_cxCall hresult (fun pair _ hresult => ?_) (herror _ ⟨rfl, rfl⟩)
  apply wp_writeBytes (by rwa [Vector.length_toList])
  exact hok _ _ ⟨rfl, rfl⟩ hresult.symm

/-- The signature is written, when there is one, with its length. Otherwise what is
written stays inside the object of the signature. The key material is cleared in any
case. -/
theorem wp_signMessage {privateKey : sdk.PrivateKey} {signature : Nat}
    (h : signature + signatureSize ≤ memory.length) {message : List UInt8}
    {post : CryptoCode × Nat → SignFrame sdk × List UInt8 → Prop}
    {early : Stop → SignFrame sdk × List UInt8 → Prop}
    (hok : ∀ frame der rest rsv, frame.Cleared → sdk.der hdPath message = some der →
      (sdk.convertDERtoRSV (der.bytes ++ rest) der.info).value = some rsv →
      post (.ok, rsvLen + der.bytes.length)
        (frame, overwrite memory signature (rsv.bytes ++ der.bytes)))
    (hder : ∀ frame length bytes, frame.Cleared → bytes.length ≤ signatureSize →
      sdk.der hdPath message = none →
      post (.unknown, length) (frame, overwrite memory signature bytes))
    (hrsv : ∀ frame length bytes der rest, frame.Cleared → bytes.length ≤ signatureSize →
      sdk.der hdPath message = some der →
      (sdk.convertDERtoRSV (der.bytes ++ rest) der.info).value = none →
      post (.unknown, length) (frame, overwrite memory signature bytes)) :
    (signMessage sdk hdPath signature message).wp safe (.initial sdk privateKey, memory)
      post early := by
  have hnone : ∀ frame length, frame.Cleared → sdk.der hdPath message = none →
      post (.unknown, length) (frame, memory) := by
    intro frame length hcleared hresult
    rw [← overwrite_nil memory signature]
    exact hder frame length [] hcleared (Nat.zero_le _) hresult
  rw [signMessage, Command.wp_bind]
  apply wp_untilCxError
  simp only [Command.wp_bind, Command.wp_read, Command.wp_modify, Command.wp_pure]
  refine wp_cxCall (Sdk.der_eq hdPath message).symm (fun data _ hresult => ?_)
    (hnone _ _ ⟨rfl, rfl⟩)
  refine wp_cxCall hresult (fun key _ hresult => ?_) (hnone _ _ ⟨rfl, rfl⟩)
  refine wp_cxCall hresult (fun sha3 _ hresult => ?_) (hnone _ _ ⟨rfl, rfl⟩)
  refine wp_cxCall hresult (fun hash _ hresult => ?_) (hnone _ _ ⟨rfl, rfl⟩)
  -- from here on the object of the signature is written to, the variable form first
  have hsize : signatureSize = rsvLen + derSignatureLen := rfl
  have hfits := (sdk.ecdsaSign key hash.2).left.fits
  have hroom : signature + rsvLen + (sdk.ecdsaSign key hash.2).left.bytes.length ≤
      memory.length := by omega
  have hkept : signature + rsvLen ≤ memory.length := by omega
  apply wp_writeBytes hroom
  refine wp_cxCall ((Option.bind_fun_some _).trans hresult) (fun der hsigned hresult => ?_)
    fun hresult => ?_
  · obtain rfl : (sdk.ecdsaSign key hash.2).left = der := Cx.left_of_value hsigned
    obtain ⟨rest, hslice⟩ := exists_slice_overwrite hkept hfits
    generalize (sdk.ecdsaSign key hash.2).left = der at *
    rw [hslice]
    generalize hconvert : sdk.convertDERtoRSV (der.bytes ++ rest) der.info = converted
    have hfixed : converted.left.bytes.length = rsvLen := Rsv.bytes_length _
    have hfront : signature + converted.left.bytes.length ≤ memory.length := by omega
    have hboth := overwrite_before hfront der.bytes
    rw [hfixed] at hboth
    apply wp_writeBytes (by rw [overwrite_length hroom]; exact hfront)
    rw [hboth]
    cases hok' : converted.ok with
    | true =>
        have hvalue : converted.value = some converted.left := if_pos hok'
        refine (Command.wp_modify _).mpr (hok _ der rest _ ⟨rfl, rfl⟩ hresult.symm ?_)
        rw [hconvert, hvalue]
    | false =>
        have hvalue : converted.value = none := if_neg (by rw [hok']; decide)
        refine (Command.wp_pure _).mpr (hrsv _ _ _ der rest ⟨rfl, rfl⟩ ?_ hresult.symm ?_)
        · rw [List.length_append, hfixed]
          omega
        · rw [hconvert, hvalue]
  · rw [← overwrite_behind hkept]
    refine hder _ _ _ ⟨rfl, rfl⟩ ?_ hresult
    rw [List.length_append, slice_length hkept]
    omega

theorem wp_cryptoExtractPublicKey {pubkey pubkeyLen : Nat} (hlen : secp256k1PubkeyLen ≤ pubkeyLen)
    (h : pubkey + secp256k1PubkeyLen ≤ memory.length) {post : CryptoCode → List UInt8 → Prop}
    {early : Stop → List UInt8 → Prop}
    (hok : ∀ point, sdk.publicKey hdPath = some point →
      post .ok (overwrite memory pubkey point.toList))
    (herror : sdk.publicKey hdPath = none → post .unknown memory) :
    (cryptoExtractPublicKey sdk hdPath (some pubkey) pubkeyLen).wp safe memory post early := by
  simp only [cryptoExtractPublicKey, if_neg (Nat.not_lt.mpr hlen), Command.wp_scope]
  exact wp_extractPublicKey h (fun _ point _ => hok point) fun _ _ => herror

theorem wp_cryptoSign (hreads : sdk.ReadsDer) {privateKey : sdk.PrivateKey}
    {signature signatureLength signatureMaxlen : Nat} (hlen : signatureSize ≤ signatureMaxlen)
    (h : signature + signatureSize ≤ memory.length) {message : List UInt8}
    {post : CryptoCode × Nat → List UInt8 → Prop} {early : Stop → List UInt8 → Prop}
    (hok : ∀ bytes, sdk.signature hdPath message = some bytes →
      rsvLen ≤ bytes.length → bytes.length ≤ signatureSize →
      post (.ok, bytes.length) (overwrite memory signature bytes))
    (herror : ∀ length bytes, bytes.length ≤ signatureSize →
      sdk.signature hdPath message = none →
      post (.unknown, length) (overwrite memory signature bytes)) :
    (cryptoSign sdk privateKey hdPath (some signature) signatureLength signatureMaxlen
      (some message)).wp safe memory post early := by
  have hsize : signatureSize = rsvLen + derSignatureLen := rfl
  -- what is behind the signature does not matter
  have hconvert : ∀ {der rest}, sdk.der hdPath message = some der →
      sdk.convertDERtoRSV (der.bytes ++ rest) der.info =
        sdk.convertDERtoRSV der.bytes der.info := by
    intro der rest hder
    obtain ⟨key, digest, -, -, hsigned⟩ := Sdk.exists_of_der hder
    exact hreads key digest der hsigned rest
  simp only [cryptoSign, if_neg (Nat.not_lt.mpr hlen), Command.wp_scope]
  refine wp_signMessage h ?_ ?_ ?_
  · intro _ der rest rsv _ hder hrsv
    rw [hconvert hder] at hrsv
    have hlength : (rsv.bytes ++ der.bytes).length = rsvLen + der.bytes.length := by
      rw [List.length_append, Rsv.bytes_length]
    have hfits := der.fits
    rw [← hlength]
    exact hok _ (by simp [Sdk.signature, hder, hrsv]) (by omega) (by omega)
  · intro _ length bytes _ hle hder
    exact herror length bytes hle (by simp [Sdk.signature, hder])
  · intro _ length bytes der rest _ hle hder hrsv
    rw [hconvert hder] at hrsv
    exact herror length bytes hle (by simp [Sdk.signature, hder, hrsv])

/-! ## The address -/

/-- A text that fits is the one of base 58. -/
def AddressLibrary.Encodes (library : AddressLibrary) : Prop :=
  ∀ (bytes : List UInt8) (capacity : Nat), bytes.length = ethAddressLen →
    (Base58.encode bytes).length ≤ capacity →
    library.encodeBase58 bytes capacity = some (Base58.encode bytes)

section Encode

variable {library : AddressLibrary} {start bufferLen : Nat} {pubkey : List UInt8}
  {post : Nat → List UInt8 → Prop} {early : Stop → List UInt8 → Prop}

/-- The address of a key whose hash is known is written. -/
theorem wp_cryptoEncodePubkey_of_hash (h : library.Encodes) (hlen : addressLen ≤ bufferLen)
    (hroom : start + bufferLen ≤ memory.length) (hkey : secp256k1PubkeyLen - 1 ≤ pubkey.length)
    {hash : Vector UInt8 keccakHashSize}
    (hhash : library.keccakHash (slice pubkey 0 (secp256k1PubkeyLen - 1)) = some hash)
    {address : List UInt8}
    (haddress : addressText library.encodeBase58Clip (ethAddress hash) = address)
    (hpost : post address.length (overwrite memory start (address ++ [0]))) :
    (cryptoEncodePubkey library (some start) bufferLen (some pubkey)).wp safe memory post
      early := by
  -- only the hash of this key is asked for
  let known : AddressLibrary := { library with keccakHash := fun _ => some hash }
  have hknown : known.Standard fun _ => hash := ⟨fun _ => rfl, h⟩
  have hrun := @wp_cryptoEncodePubkey known _ memory pubkey start bufferLen hknown hlen hroom hkey
    _ _ rfl haddress safe post early hpost
  have hload : 0 + (secp256k1PubkeyLen - 1) ≤ pubkey.length := by rwa [Nat.zero_add]
  have hsome : loadBytes pubkey (some 0) (secp256k1PubkeyLen - 1) =
      (pure (slice pubkey 0 (secp256k1PubkeyLen - 1)) : Parser (List UInt8) (List UInt8)) := by
    rw [loadBytes, if_neg (by decide)]
    exact if_pos hload
  simp only [cryptoEncodePubkey, hsome] at hrun ⊢
  split at hrun
  next hshort => rwa [if_pos hshort]
  next hlong =>
    rw [if_neg hlong, Command.wp_bind, Command.wp_pure, hhash]
    rw [Command.wp_bind, Command.wp_pure] at hrun
    exact hrun

/-- Without a hash nothing is written. -/
theorem wp_cryptoEncodePubkey_of_none (hkey : secp256k1PubkeyLen - 1 ≤ pubkey.length)
    (hhash : library.keccakHash (slice pubkey 0 (secp256k1PubkeyLen - 1)) = none)
    (hpost : post 0 memory) :
    (cryptoEncodePubkey library (some start) bufferLen (some pubkey)).wp safe memory post
      early := by
  rw [cryptoEncodePubkey]
  split
  next => exact (Command.wp_pure _).mpr hpost
  next =>
    rw [Command.wp_bind]
    apply wp_loadBytes (by rwa [Nat.zero_add])
    rw [hhash]
    exact (Command.wp_pure _).mpr hpost

end Encode

/-- A terminator in a buffer of zeros is one of the zeros behind the text. -/
theorem terminated_zeros {text : List UInt8} {size : Nat} (h : text.length < size) :
    text ++ [0] ++ (List.replicate size 0).drop (text ++ [0]).length =
      text ++ List.replicate (size - text.length) 0 := by
  have hcount : size - text.length = size - (text.length + 1) + 1 := by omega
  rw [hcount, List.replicate_succ, List.drop_replicate, List.length_append, List.length_singleton,
    List.append_assoc]
  rfl

/-- A key and a terminated text behind it, written into a buffer of zeros, leave zeros
behind them. -/
theorem overwrite_zeros {memory key text : List UInt8} {index size : Nat}
    (h : index + size ≤ memory.length) (hlt : (key ++ text).length < size) :
    overwrite (overwrite (overwrite memory index (List.replicate size 0)) index key)
        (index + key.length) (text ++ [0]) =
      overwrite memory index
        (key ++ text ++ List.replicate (size - (key ++ text).length) 0) := by
  have hzeros : (List.replicate size (0 : UInt8)).length = size := List.length_replicate
  have hcount : (key ++ text).length = key.length + text.length := List.length_append
  have hfit : index + (List.replicate size (0 : UInt8)).length ≤ memory.length := by rwa [hzeros]
  have hkey : index + key.length ≤
      (overwrite memory index (List.replicate size 0)).length := by
    rw [overwrite_length hfit]
    omega
  have hfront : (key ++ text ++ [0]).length ≤ (List.replicate size (0 : UInt8)).length := by
    rw [hzeros, List.length_append, List.length_singleton]
    exact hlt
  rw [overwrite_overwrite hkey, ← List.append_assoc, overwrite_within hfit hfront,
    terminated_zeros hlt]

/-- The buffer gets the public key and the address, and zeros behind them. Without
these it gets zeros. -/
theorem wp_cryptoFillAddress {base58 : AddressLibrary} (h : base58.Encodes) {buffer bufferLen : Nat}
    (hlen : secp256k1PubkeyLen + addressLen ≤ bufferLen)
    (hroom : buffer + bufferLen ≤ memory.length)
    {post : CryptoCode × Option Nat → List UInt8 → Prop} {early : Stop → List UInt8 → Prop}
    (hok : ∀ answer, sdk.fillAddress base58 hdPath = some answer → 0 < answer.length →
      answer.length ≤ secp256k1PubkeyLen + addressLen →
      post (.ok, some answer.length)
        (overwrite memory buffer (answer ++ List.replicate (bufferLen - answer.length) 0)))
    (herror : ∀ code, sdk.fillAddress base58 hdPath = none → code ≠ .ok →
      post (code, none) (overwrite memory buffer (List.replicate bufferLen 0))) :
    (cryptoFillAddress sdk base58 hdPath buffer bufferLen).wp safe memory post early := by
  have hshort : ¬ bufferLen < secp256k1PubkeyLen + addressLen := Nat.not_lt.mpr hlen
  have hpubkeyLen : secp256k1PubkeyLen = 65 := rfl
  have haddressLen : addressLen = 50 := rfl
  have hzeros : (List.replicate bufferLen (0 : UInt8)).length = bufferLen := List.length_replicate
  have hfit : buffer + (List.replicate bufferLen (0 : UInt8)).length ≤ memory.length := by
    rwa [hzeros]
  have hcleared : (overwrite memory buffer (List.replicate bufferLen 0)).length = memory.length :=
    overwrite_length hfit
  simp only [cryptoFillAddress, if_neg hshort, Command.wp_bind]
  apply wp_storeBytes hfit
  apply wp_cryptoExtractPublicKey (by omega) (by omega)
  · intro point hpoint
    have hcount : point.toList.length = secp256k1PubkeyLen := Vector.length_toList
    have hpointFit : buffer + point.toList.length ≤
        (overwrite memory buffer (List.replicate bufferLen 0)).length := by omega
    have hkey : slice ((overwrite (overwrite memory buffer (List.replicate bufferLen 0)) buffer
        point.toList).drop (buffer + 1)) 0 (secp256k1PubkeyLen - 1) =
          slice point.toList 1 (secp256k1PubkeyLen - 1) := by
      have hslice := @slice_overwrite _ buffer _ hpointFit 1 (secp256k1PubkeyLen - 1) (by omega)
      rw [← hslice, slice, slice, List.drop_zero]
    have hlong : secp256k1PubkeyLen - 1 ≤ ((overwrite (overwrite memory buffer
        (List.replicate bufferLen 0)) buffer point.toList).drop (buffer + 1)).length := by
      rw [List.length_drop, overwrite_length hpointFit]
      omega
    rw [if_neg (by decide)]
    simp only [Command.wp_bind, Command.wp_read]
    cases hhash : keccakHash sdk (slice point.toList 1 (secp256k1PubkeyLen - 1)) with
    | none =>
        have hnone : sdk.fillAddress base58 hdPath = none := by
          simp [Sdk.fillAddress, hpoint, hhash]
        apply wp_cryptoEncodePubkey_of_none hlong (by rw [hkey]; exact hhash)
        rw [if_pos rfl, Command.wp_bind]
        apply wp_storeBytes (by rw [overwrite_length hpointFit]; omega)
        rw [overwrite_again hpointFit (by omega), overwrite_again hfit (by omega)]
        exact (Command.wp_pure _).mpr (herror _ hnone (by decide))
    | some hash =>
        have hsome : sdk.fillAddress base58 hdPath =
            some (point.toList ++ addressText base58.encodeBase58Clip (ethAddress hash)) := by
          simp [Sdk.fillAddress, hpoint, hhash]
        obtain ⟨hlow, hhigh⟩ := addressText_length_bounds base58.encodeBase58Clip
          (ethAddress_length hash)
        generalize haddress : addressText base58.encodeBase58Clip (ethAddress hash) = address at *
        have hencodes : (sdk.addressLibrary base58).Encodes := h
        apply wp_cryptoEncodePubkey_of_hash hencodes (by omega)
          (by rw [overwrite_length hpointFit]; omega) hlong (by rw [hkey]; exact hhash) haddress
        have hne : address.length ≠ 0 := by omega
        have hlength : (point.toList ++ address).length = secp256k1PubkeyLen + address.length := by
          rw [List.length_append, hcount]
        -- the address goes behind the key, and both into zeros
        have hlt : (point.toList ++ address).length < bufferLen := by omega
        have hboth := overwrite_zeros hroom hlt
        rw [hcount] at hboth
        rw [if_neg hne, hboth, Command.wp_pure, ← hlength]
        exact hok _ hsome (by omega) (by omega)
  · intro hpoint
    have hnone : sdk.fillAddress base58 hdPath = none := by simp [Sdk.fillAddress, hpoint]
    exact (Command.wp_pure _).mpr (herror _ hnone (by decide))

end Rules

/-- Whatever calls fail, the key material on the stack of both functions is cleared at
their end, and in the memory of the caller nothing but the public key, or the object of
the signature, is written. -/
theorem key_material_cleared (sdk : Sdk) (hdPath : HdPath) (memory : List UInt8) :
    (∀ pubkey, pubkey + secp256k1PubkeyLen ≤ memory.length →
      ∃ code frame after,
        (extractPublicKey sdk hdPath pubkey).outcome (.initial sdk, memory) =
          .done code (frame, after) ∧
        frame.Cleared ∧ (code ≠ .ok → after = memory) ∧
        ∀ i, i < pubkey ∨ pubkey + secp256k1PubkeyLen ≤ i → after[i]? = memory[i]?) ∧
    ∀ privateKey signature message, signature + signatureSize ≤ memory.length →
      ∃ code length frame after,
        (signMessage sdk hdPath signature message).outcome (.initial sdk privateKey, memory) =
          .done (code, length) (frame, after) ∧
        frame.Cleared ∧
        ∀ i, i < signature ∨ signature + signatureSize ≤ i → after[i]? = memory[i]? := by
  constructor
  · intro pubkey hroom
    have hrun : (extractPublicKey sdk hdPath pubkey).wp (fun _ => True) (.initial sdk, memory)
        (fun code s => s.1.Cleared ∧ (code ≠ .ok → s.2 = memory) ∧
          ∀ i, i < pubkey ∨ pubkey + secp256k1PubkeyLen ≤ i → s.2[i]? = memory[i]?)
        (fun _ _ => False) := by
      apply wp_extractPublicKey hroom
      · intro frame point hcleared _
        have hcount : point.toList.length = secp256k1PubkeyLen := Vector.length_toList
        refine ⟨hcleared, fun hne => absurd rfl hne, fun i hi => ?_⟩
        rw [← hcount] at hroom hi
        exact getElem?_overwrite_of_outside hroom hi
      · exact fun frame hcleared _ => ⟨hcleared, fun _ => rfl, fun _ _ => rfl⟩
    obtain ⟨code, ⟨frame, after⟩, hend, hpost⟩ := hrun.exists_done
    exact ⟨code, frame, after, hend, hpost⟩
  · intro privateKey signature message hroom
    have hinside : ∀ {bytes : List UInt8}, bytes.length ≤ signatureSize → ∀ i,
        i < signature ∨ signature + signatureSize ≤ i →
          (overwrite memory signature bytes)[i]? = memory[i]? := fun hle i hi =>
      getElem?_overwrite_of_outside (by omega) (by omega)
    have hrun : (signMessage sdk hdPath signature message).wp (fun _ => True)
        (.initial sdk privateKey, memory)
        (fun _ s => s.1.Cleared ∧
          ∀ i, i < signature ∨ signature + signatureSize ≤ i → s.2[i]? = memory[i]?)
        (fun _ _ => False) := by
      apply wp_signMessage hroom
      · intro frame der _ rsv hcleared _ _
        have hsize : signatureSize = rsvLen + derSignatureLen := rfl
        have hfits := der.fits
        exact ⟨hcleared, hinside (by rw [List.length_append, Rsv.bytes_length]; omega)⟩
      · exact fun frame _ _ hcleared hle _ => ⟨hcleared, hinside hle⟩
      · exact fun frame _ _ _ _ hcleared hle _ _ => ⟨hcleared, hinside hle⟩
    obtain ⟨⟨code, length⟩, ⟨frame, after⟩, hend, hpost⟩ := hrun.exists_done
    exact ⟨code, length, frame, after, hend, hpost⟩

/-! ## A device with one key -/

/-- A signature of two numbers of 32 bytes. -/
def exampleDer : Der where
  bytes := [0x30, 0x44, 0x02, 0x20] ++ List.replicate 32 0x11 ++ [0x02, 0x20] ++
    List.replicate 32 0x22
  info := 1
  fits := by decide

/-- The fixed form of such a signature. -/
def exampleRsv (signature : List UInt8) (info : Nat) : Rsv where
  r := Vector.ofFn fun i => signature.getD (4 + i.val) 0
  s := Vector.ofFn fun i => signature.getD (38 + i.val) 0
  v := UInt8.ofNat info

/-- Every path has the key of the example, and every message one signature. -/
def exampleSdk : Sdk where
  PrivateKey := Vector UInt8 32
  PublicKey := Vector UInt8 65
  Sha3 := Unit
  clearPrivateKey := Vector.replicate 32 0
  clearPublicKey := Vector.replicate 65 0
  clearSha3 := ()
  w := id
  deriveBip32WithSeed _ := ⟨true, Vector.replicate 64 1⟩
  deriveBip32 _ := ⟨true, Vector.replicate 64 1⟩
  initPrivateKey _ := ⟨true, Vector.replicate 32 1⟩
  initPublicKey := ⟨true, Vector.replicate 65 0⟩
  generatePair _ privateKey :=
    ⟨true, (Vector.ofFn fun i => (4 :: exampleKey).getD i.val 0, privateKey)⟩
  keccakInit := ⟨true, ()⟩
  hash _ input := ⟨true, ((), exampleDigest input)⟩
  ecdsaSign _ _ := ⟨true, exampleDer⟩
  convertDERtoRSV signature info := ⟨true, exampleRsv signature info⟩

theorem exampleSdk_readsDer : exampleSdk.ReadsDer := by
  intro key digest der hsigned rest
  obtain rfl : exampleDer = der := Option.some.inj hsigned
  have hlength : exampleDer.bytes.length = 70 := rfl
  have hread : ∀ i < 70, (exampleDer.bytes ++ rest).getD i 0 = exampleDer.bytes.getD i 0 := by
    intro i hi
    rw [List.getD_eq_getElem?_getD, List.getD_eq_getElem?_getD,
      List.getElem?_append_left (by omega)]
  have hr : ∀ i : Fin 32, (exampleDer.bytes ++ rest).getD (4 + i.val) 0 =
      exampleDer.bytes.getD (4 + i.val) 0 := fun i => hread _ (by omega)
  have hs : ∀ i : Fin 32, (exampleDer.bytes ++ rest).getD (38 + i.val) 0 =
      exampleDer.bytes.getD (38 + i.val) 0 := fun i => hread _ (by omega)
  simp only [exampleSdk, exampleRsv, hr, hs]

theorem exampleLibrary_encodes : exampleLibrary.Encodes := fun _ _ _ hfit => if_pos hfit

end LedgerMatrix
