import LedgerMatrix.Client.Path
import LedgerMatrix.Device.Service

/-! # Asking for an address

The functions `getAddressAndPubKey` and `showAddressAndPubKey` of the JavaScript
client, with the device and its buffer at the other end of the transport.
-/

namespace LedgerMatrix.Answers

open Imperative

/-- `P1_VALUES`. -/
def onlyRetrieve : UInt8 := 0
def showAddressInDevice : UInt8 := 1

def pklen : Nat := 65

/-- `ResponseAddress` without the text of the error. -/
structure ResponseAddress where
  returnCode : Nat
  publicKey : Option (List UInt8)
  address : Option (List UInt8)
  deriving DecidableEq

def processGetAddrResponse (response : List UInt8) : ResponseAddress :=
  let returnCode := errorCodeOf response
  let publicKey := response.take pklen
  let response := response.drop pklen
  -- the length of the address is variable
  let address := response.take (response.length - 2)
  ⟨returnCode, some publicKey, some address⟩

/-- The transport hands on the answers with one status code. -/
def getAddrResponse (js : LedgerJs) (response : List UInt8) : ResponseAddress :=
  match js.send [ledgerNoErrors] response with
  | .ok response => processGetAddrResponse response
  | .error error => ⟨js.processErrorResponse error, none, none⟩

/-- The bytes of a command, in front of what is left in a buffer. -/
def receivedBytes (ins p1 : UInt8) (payload buffer : List UInt8) : List UInt8 :=
  [cla, ins, p1, 0, UInt8.ofNat payload.length] ++ payload ++
    buffer.drop (offsetData + payload.length)

theorem receivedBytes_rx_le (ins p1 : UInt8) (payload buffer : List UInt8) :
    offsetData + payload.length ≤ (receivedBytes ins p1 payload buffer).length := by
  simp [receivedBytes, offsetData]
  omega

theorem receivedBytes_header_le (ins p1 : UInt8) (payload buffer : List UInt8) :
    5 ≤ (receivedBytes ins p1 payload buffer).length :=
  (Nat.le_add_right offsetData _).trans (receivedBytes_rx_le ins p1 payload buffer)

theorem received_rx_lt {payload : List UInt8} (h : payload.length < 256) :
    offsetData + payload.length < 2 ^ 32 := by
  rw [offsetData]
  omega

/-- A command in the buffer of the answers, in front of what is left there. -/
def received (ins p1 : UInt8) (payload : List UInt8) (pinValidated : Bool)
    (h : payload.length < 256) (buffer : List UInt8) : Apdu where
  buffer := receivedBytes ins p1 payload buffer
  rx := offsetData + payload.length
  pinValidated := pinValidated
  header_le := receivedBytes_header_le ins p1 payload buffer
  rx_le := receivedBytes_rx_le ins p1 payload buffer
  rx_lt := received_rx_lt h

section Client

variable {b : Buffering} (js : LedgerJs) (sdk : Sdk) (base58 : AddressLibrary) (io : Io)
variable (zx : Zxlib) (version : Vector UInt8 12) (privateKey : sdk.PrivateKey)

/-- What both functions do. A path that cannot be serialized is an exception. -/
def sendGetAddr (env : Exchange) (p1 : UInt8) (path : List UInt32) :
    Routine b Stop (Option ResponseAddress) :=
  match h : js.serializePath path with
  | none => pure none
  | some serializedPath => do
      let s ← Command.read
      let response ← exchange sdk base58 io zx version privateKey env
        (received insGetAddr p1 serializedPath env.pinValidated
          ((serializePath_length_le h).trans_lt (by decide)) s.2.gIoApduBuffer)
      pure (some (getAddrResponse js response))

def getAddressAndPubKey (env : Exchange) (path : List UInt32) :
    Routine b Stop (Option ResponseAddress) :=
  sendGetAddr js sdk base58 io zx version privateKey env onlyRetrieve path

def showAddressAndPubKey (env : Exchange) (path : List UInt32) :
    Routine b Stop (Option ResponseAddress) :=
  sendGetAddr js sdk base58 io zx version privateKey env showAddressInDevice path

end Client

/-! ## One request -/

section Received

variable {ins p1 : UInt8} {payload buffer : List UInt8} {pin : Bool} {h : payload.length < 256}

theorem received_data : (received ins p1 payload pin h buffer).data = payload := by
  have hrx : offsetData ≤ offsetData + payload.length := Nat.le_add_right _ _
  have hbuffer : (received ins p1 payload pin h buffer).buffer =
      [cla, ins, p1, 0, UInt8.ofNat payload.length] ++ payload ++
        buffer.drop (offsetData + payload.length) := rfl
  rw [Apdu.data, hbuffer, received, sub32_of_le hrx (by rw [offsetData]; omega),
    Nat.add_sub_cancel_left, slice]
  exact List.take_left

theorem received_length (hroom : offsetData + payload.length ≤ buffer.length) :
    (received ins p1 payload pin h buffer).buffer.length = buffer.length := by
  rw [offsetData] at hroom
  simp [received, receivedBytes, offsetData]
  omega

end Received

/-! ## What is received -/

/-- An answer with a public key in front of an address. -/
theorem getAddrResponse_ok (js : LedgerJs) {point address : List UInt8}
    (h : point.length = pklen) :
    getAddrResponse js (Reply.bytes ⟨point ++ address, ApduCode.ok.value⟩) =
      ⟨ledgerNoErrors, some point, some address⟩ := by
  have hlt : (⟨point ++ address, ApduCode.ok.value⟩ : Reply).sw < 2 ^ 16 := ApduCode.ok.value_lt
  have hsend := js.send_of_mem [ledgerNoErrors] _ hlt (List.mem_singleton.mpr rfl)
  have hcode : errorCodeOf (Reply.bytes ⟨point ++ address, ApduCode.ok.value⟩) = ledgerNoErrors :=
    errorCodeOf_bytes hlt
  have hfront : (Reply.bytes ⟨point ++ address, ApduCode.ok.value⟩).take pklen = point := by
    rw [Reply.bytes, List.append_assoc]
    exact List.take_left' h
  have hbehind : (Reply.bytes ⟨point ++ address, ApduCode.ok.value⟩).drop pklen =
      address ++ [UInt8.ofNat (ApduCode.ok.value / 256), UInt8.ofNat ApduCode.ok.value] := by
    rw [Reply.bytes, List.append_assoc]
    exact List.drop_left' h
  have hshort : (address ++ [UInt8.ofNat (ApduCode.ok.value / 256),
      UInt8.ofNat ApduCode.ok.value]).length - 2 = address.length := by
    rw [List.length_append]
    rfl
  simp only [getAddrResponse, hsend, processGetAddrResponse, hcode, hfront, hbehind, hshort,
    List.take_left]

theorem getAddrResponse_error (js : LedgerJs) {code : ApduCode} (h : code ≠ .ok) :
    getAddrResponse js (Reply.bytes ⟨[], code.value⟩) = ⟨code.value, none, none⟩ := by
  have hne : code.value ∉ [ledgerNoErrors] := fun hmem =>
    ApduCode.value_ne_ok h (List.mem_singleton.mp hmem)
  obtain ⟨error, hsend, hcode⟩ :=
    js.send_of_not_mem [ledgerNoErrors] ⟨[], code.value⟩ code.value_lt hne
  rw [getAddrResponse, hsend]
  exact congrArg (ResponseAddress.mk · none none) hcode

section Send

variable {b : Buffering} {js : LedgerJs} {sdk : Sdk} {base58 : AddressLibrary} {io : Io}
variable {zx : Zxlib} {version : Vector UInt8 12} {privateKey : sdk.PrivateKey}
variable {env : Exchange} {p1 : UInt8}
variable {path : List UInt32} {d : Device b} {front : Front}

/-- A request that the device grants: the PIN was entered, the path that it derives is
one of the application, and what has to be confirmed is confirmed. -/
structure Granted (env : Exchange) (p1 : UInt8) (path : List UInt32) (hdPath : HdPath) : Prop where
  pin : env.pinValidated = true
  path_eq : hdPath.toList = path.take hdpathLenDefault
  mainnet : hdPath.Mainnet
  approved : p1 ≠ onlyRetrieve → env.approves = true

/-- What the client has of a request: the public key and the address when it is granted
and they can be had, and otherwise an error without them. -/
structure Answered (sdk : Sdk) (base58 : AddressLibrary) (env : Exchange) (p1 : UInt8)
    (path : List UInt32) (response : ResponseAddress) : Prop where
  granted : ∀ hdPath point hash, Granted env p1 path hdPath → sdk.publicKey hdPath = some point →
    keccakHash sdk (slice point.toList 1 (secp256k1PubkeyLen - 1)) = some hash →
    response = ⟨ledgerNoErrors, some point.toList,
      some (addressText base58.encodeBase58Clip (ethAddress hash))⟩
  refused : (∀ hdPath, Granted env p1 path hdPath → sdk.fillAddress base58 hdPath = none) →
    response.returnCode ≠ ledgerNoErrors ∧ response.publicKey = none ∧ response.address = none

/-- An error is an answer to a request that is not granted, or whose address cannot be
had. -/
theorem answered_error {code : ApduCode} (hne : code ≠ .ok)
    (h : ∀ hdPath, Granted env p1 path hdPath → sdk.fillAddress base58 hdPath = none) :
    Answered sdk base58 env p1 path (getAddrResponse js (Reply.bytes ⟨[], code.value⟩)) := by
  rw [getAddrResponse_error js hne]
  refine ⟨fun hdPath point hash hgranted hpoint hhash => ?_,
    fun _ => ⟨ApduCode.value_ne_ok hne, rfl, rfl⟩⟩
  have hnone := h hdPath hgranted
  simp [Sdk.fillAddress, hpoint, hhash] at hnone

theorem answered_ok {hdPath : HdPath} {answer : List UInt8}
    (hunique : ∀ other, Granted env p1 path other → other = hdPath)
    (hgranted : Granted env p1 path hdPath)
    (hanswer : sdk.fillAddress base58 hdPath = some answer) :
    Answered sdk base58 env p1 path
      (getAddrResponse js (Reply.bytes ⟨answer, ApduCode.ok.value⟩)) := by
  constructor
  · intro other point hash hother hpoint hhash
    obtain rfl := hunique other hother
    obtain rfl :
        point.toList ++ addressText base58.encodeBase58Clip (ethAddress hash) = answer := by
      simpa [Sdk.fillAddress, hpoint, hhash] using hanswer
    exact getAddrResponse_ok js Vector.length_toList
  · intro hnone
    rw [hnone hdPath hgranted] at hanswer
    cases hanswer

/-- The path that the device derives is the one that is granted. -/
theorem granted_eq_path {a : Apdu} {hdPath : HdPath} (hdata : a.data = componentBytes path)
    (h : Granted env p1 path hdPath) :
    4 * hdpathLenDefault ≤ a.data.length ∧ hdPath = a.path := by
  have hfive : hdpathLenDefault ≤ path.length := by
    have hlength := congrArg List.length h.path_eq
    rw [Vector.length_toList, List.length_take] at hlength
    omega
  have hlong : 4 * hdpathLenDefault ≤ a.data.length := by
    rw [hdata, componentBytes_length]
    omega
  refine ⟨hlong, Vector.toList_inj.mp ?_⟩
  rw [h.path_eq, Apdu.path, hdata, ofBytes_componentBytes hfive]

/-- What the service answers to a request. -/
theorem respond_answered {a : Apdu} (hcla : a.byte offsetCla = cla) (hrx : apduMinLength ≤ a.rx)
    (hins : a.byte offsetIns = insGetAddr) (hp1 : a.byte offsetP1 = p1)
    (hpin : a.pinValidated = env.pinValidated) (hdata : a.data = componentBytes path) :
    (respond zx (platform sdk base58 version) env a).wp (fun _ => True) d
      (fun reply _ => Answered sdk base58 env p1 path (getAddrResponse js reply.bytes))
      (fun _ _ => False) := by
  refine (respond_serves zx _ env a d).mono (fun reply d' hserves => ?_) fun _ _ => id
  rw [hserves]
  cases hvalidated : env.pinValidated with
  | false =>
      have hlocked : ¬ a.pinValidated = true := by rw [hpin, hvalidated]; decide
      have hrequest : a.request = .refused .commandNotAllowed := by
        rw [Apdu.request, if_neg (not_not.mpr hcla), if_neg (Nat.not_lt.mpr hrx), hins,
          if_neg (by decide), if_pos rfl, if_neg hlocked]
      rw [hrequest]
      refine answered_error (by decide) fun hdPath hgranted => ?_
      exact absurd (hgranted.pin.symm.trans hvalidated) (by decide)
  | true =>
      rw [request_of_getAddr ⟨hcla, hrx, hins, hpin.trans hvalidated⟩, Service.answer]
      by_cases hlong : 4 * hdpathLenDefault ≤ a.data.length
      · by_cases hmain : a.path.Mainnet
        · rw [Service.path_of_mainnet hlong hmain]
          have hfive : hdpathLenDefault ≤ path.length := by
            rw [hdata, componentBytes_length] at hlong
            omega
          have hpath : a.path.toList = path.take hdpathLenDefault := by
            rw [Apdu.path, hdata, ofBytes_componentBytes hfive]
          simp only [Service.answerAddress, deviceService, platform]
          cases hanswer : sdk.fillAddress base58 a.path with
          | none =>
              refine answered_error (by decide) fun hdPath hgranted => ?_
              obtain ⟨-, rfl⟩ := granted_eq_path hdata hgranted
              exact hanswer
          | some answer =>
              have hgranted (happroved : p1 ≠ onlyRetrieve → env.approves = true) :
                  Answered sdk base58 env p1 path
                    (getAddrResponse js (Reply.bytes ⟨answer, ApduCode.ok.value⟩)) :=
                answered_ok (fun other hother => (granted_eq_path hdata hother).2)
                  ⟨hvalidated, hpath, hmain, happroved⟩ hanswer
              dsimp only
              by_cases hconfirm : p1 = onlyRetrieve
              · rw [if_neg (by rw [hp1, hconfirm]; decide)]
                exact hgranted fun hne => absurd hconfirm hne
              · rw [if_pos (by rw [hp1]; exact decide_eq_true hconfirm)]
                cases happroves : env.approves with
                | true => exact hgranted fun _ => happroves
                | false =>
                    refine answered_error (by decide) fun hdPath hother => ?_
                    exact absurd ((hother.approved hconfirm).symm.trans happroves) (by decide)
        · rw [Service.path_of_other hlong hmain]
          refine answered_error (by decide) fun hdPath hgranted => ?_
          obtain ⟨-, rfl⟩ := granted_eq_path hdata hgranted
          exact absurd hgranted.mainnet hmain
      · rw [Service.path_of_short (Nat.lt_of_not_le hlong)]
        refine answered_error (by decide) fun hdPath hgranted => ?_
        exact absurd (granted_eq_path hdata hgranted).1 hlong

/-- A request is answered, and the answer is read from the buffer. -/
theorem sendGetAddr_answered (hio : io.Standard) (hbase58 : base58.Encodes) (hreads : sdk.ReadsDer)
    (hsized : front.Sized io) {serializedPath : List UInt8}
    (hpath : js.serializePath path = some serializedPath) :
    ∃ response s,
      (sendGetAddr js sdk base58 io zx version privateKey env p1 path).outcome (d, front) =
        .done (some response) s ∧ Answered sdk base58 env p1 path response := by
  obtain ⟨-, hbytes⟩ := serializePath_eq_some hpath
  have hshort := serializePath_length_le hpath
  have hlarge := hio.large
  have hsignature : signatureSize = 138 := rfl
  have hroom : offsetData + serializedPath.length ≤ front.gIoApduBuffer.length := by
    rw [Front.Sized] at hsized
    rw [offsetData]
    omega
  generalize ha : received insGetAddr p1 serializedPath env.pinValidated
    (hshort.trans_lt (by decide)) front.gIoApduBuffer = a
  have hsize : a.buffer.length = io.ioApduBufferSize := by
    rw [← ha, received_length hroom]
    exact hsized
  obtain ⟨reply, d', front', hend, hend'⟩ := @exchange_mirrors b sdk base58 io zx version a hio
    hbase58 hreads hsize privateKey env d front
  have hanswered : (respond zx (platform sdk base58 version) env a).wp (fun _ => True) d
      (fun reply _ => Answered sdk base58 env p1 path (getAddrResponse js reply.bytes))
      (fun _ _ => False) := by
    subst ha
    exact respond_answered rfl (Nat.le_add_right _ _) rfl rfl rfl (received_data.trans hbytes)
  refine ⟨getAddrResponse js reply.bytes, (d', front'), ?_, hanswered.of_done hend⟩
  unfold sendGetAddr
  split
  next hnone =>
    rw [hpath] at hnone
    cases hnone
  next bytes hsome =>
    obtain rfl : serializedPath = bytes := Option.some.inj (hpath.symm.trans hsome)
    subst ha
    rw [Command.outcome_bind_of_done rfl, Command.outcome_bind_of_done hend']
    rfl

end Send

/-- Whatever happened before, the client gets the public key of the first five components
of a path with the address of this key, when the PIN was entered, the path is one of the
application and, for the address that is shown, the user approves. Otherwise it gets an
error and no part of them. Only paths of four to six components are sent. -/
theorem address_requests_answered {b : Buffering} (js : LedgerJs) (sdk : Sdk)
    (base58 : AddressLibrary) (io : Io) (hio : io.Standard) (hbase58 : base58.Encodes)
    (hreads : sdk.ReadsDer) (zx : Zxlib) (version : Vector UInt8 12)
    (privateKey : sdk.PrivateKey) (env : Exchange) (path : List UInt32) (d : Device b)
    (front : Front) (hsized : front.Sized io) :
    (path.length ∉ acceptedPathLengths → ∀ p1,
      (sendGetAddr js sdk base58 io zx version privateKey env p1 path).outcome (d, front) =
        .done none (d, front)) ∧
    (path.length ∈ acceptedPathLengths →
      (∃ response s,
        (getAddressAndPubKey js sdk base58 io zx version privateKey env path).outcome (d, front) =
          .done (some response) s ∧ Answered sdk base58 env onlyRetrieve path response) ∧
      ∃ response s,
        (showAddressAndPubKey js sdk base58 io zx version privateKey env path).outcome (d, front) =
          .done (some response) s ∧
        Answered sdk base58 env showAddressInDevice path response) := by
  constructor
  · intro hlength p1
    have hnone : js.serializePath path = none := js.serializePath_of_not_mem path hlength
    unfold sendGetAddr
    split
    next => rfl
    next bytes hsome =>
      rw [hnone] at hsome
      cases hsome
  · intro hlength
    have hsome : js.serializePath path = some (componentBytes path) :=
      js.serializePath_of_mem path hlength
    exact ⟨sendGetAddr_answered hio hbase58 hreads hsized hsome,
      sendGetAddr_answered hio hbase58 hreads hsized hsome⟩

/-- The path of the example is long enough. -/
theorem address_requests_answered_example : ∃ response s,
    (showAddressAndPubKey .reference exampleSdk exampleLibrary .reference Zxlib.reference
      exampleVersion (Vector.replicate 32 7) ⟨true, true⟩ shortPath).outcome
        ((.initial emptyBuffer : Device Buffering.plain), .initial) = .done (some response) s ∧
    Answered exampleSdk exampleLibrary ⟨true, true⟩ showAddressInDevice shortPath response :=
  ((address_requests_answered .reference exampleSdk exampleLibrary .reference
    Io.reference_standard exampleLibrary_encodes exampleSdk_readsDer Zxlib.reference exampleVersion
    (Vector.replicate 32 7) ⟨true, true⟩ shortPath
    (.initial emptyBuffer : Device Buffering.plain) .initial List.length_replicate).2 (by decide)).2

end LedgerMatrix.Answers
