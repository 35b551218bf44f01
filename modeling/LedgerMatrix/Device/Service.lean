import LedgerMatrix.Device.Refinement
import LedgerMatrix.Display.Admission

/-! # What the device is for

The device is a service that receives messages in pieces and signs them when the user
approves. Between two commands it knows no more than the path and the bytes of the message
that is being received, and while a review is on the screen, what the user approves there.
Everything else that it stores, in its buffers, in the parsed transaction or in the path
of the last request, does not show in any answer, as long as no command comes in while
something is on the screen.
-/

namespace LedgerMatrix

open Imperative RecursiveLength

/-- A message that is being received, and the path of the key that is to sign it. -/
structure Reception where
  hdPath : HdPath
  message : List UInt8

/-- What a command asks for. -/
inductive Request where
  | refused (code : ApduCode)
  | version
  | address (confirm : Bool) (payload : List UInt8)
  | init (payload : List UInt8)
  | add (payload : List UInt8)
  | last (payload : List UInt8)

/-- What comes of a request: an answer, or a review, and what is answered when it is
approved. -/
inductive Response where
  | answered (reply : Reply)
  | review (approval : Reply)

/-- What is answered when the user has decided on what is shown. -/
def Response.settled (approves : Bool) : Response → Reply
  | .answered reply => reply
  | .review approval => if approves then approval else ⟨[], ApduCode.commandNotAllowed.value⟩

/-- A turn is taken by somebody who asks for something, or by the user, who decides. -/
inductive Turn where
  | request (request : Request)
  | decision (approves : Bool)

/-- What the service knows. -/
structure Memory where
  reception : Option Reception
  /-- What is answered when the review on the screen is approved. -/
  review : Option Reply

/-- No request comes in while a review is on the screen. -/
def Turn.Spares (memory : Memory) : Turn → Prop
  | .request _ => memory.review = none
  | .decision _ => True

instance (memory : Memory) : (turn : Turn) → Decidable (turn.Spares memory)
  | .request _ => inferInstanceAs (Decidable (_ = _))
  | .decision _ => isTrue trivial

/-- What the service offers: the version, room for a message, a verdict on messages,
and the address and the signatures of a path, where they can be had. -/
structure Service where
  version : List UInt8
  capacity : Nat
  verdict : List UInt8 → Option ParserError
  address : HdPath → Option (List UInt8)
  sign : HdPath → List UInt8 → Option (List UInt8)

namespace Service

variable (service : Service)

/-- The path at the front of a payload, when it is one of the application. -/
def path (payload : List UInt8) : Except ApduCode HdPath :=
  if payload.length < 4 * hdpathLenDefault then .error .wrongLength
  else if (HdPath.ofBytes (payload.take (4 * hdpathLenDefault))).Mainnet then
    .ok (HdPath.ofBytes (payload.take (4 * hdpathLenDefault)))
  else .error .dataInvalid

def answerAddress (confirm : Bool) (hdPath : HdPath) : Response :=
  match service.address hdPath with
  | none => .answered ⟨[], ApduCode.executionError.value⟩
  | some answer =>
      if confirm then .review ⟨answer, ApduCode.ok.value⟩ else .answered ⟨answer, ApduCode.ok.value⟩

/-- What comes of the last piece of a message. -/
def answerMessage (reception : Reception) : Response :=
  match service.verdict reception.message with
  | some code => .answered ⟨ascii (parserGetErrorDescription code), ApduCode.dataInvalid.value⟩
  | none => .review (signedReply (service.sign reception.hdPath reception.message))

/-- One more piece of a message, when there is room for it. -/
def receive (payload : List UInt8) : Option Reception → Except ApduCode Reception
  | none => .error .txNotInitialized
  | some reception =>
      if reception.message.length + payload.length ≤ service.capacity then
        .ok ⟨reception.hdPath, reception.message ++ payload⟩
      else .error .outputBufferTooSmall

/-- What comes of a request, and the message that is being received then. -/
def answer (reception : Option Reception) : Request → Response × Option Reception
  | .refused code => (.answered ⟨[], code.value⟩, reception)
  | .version => (.answered ⟨service.version, ApduCode.ok.value⟩, reception)
  | .address confirm payload =>
      match path payload with
      | .error code => (.answered ⟨[], code.value⟩, none)
      | .ok hdPath => (service.answerAddress confirm hdPath, none)
  | .init payload =>
      match path payload with
      | .error code => (.answered ⟨[], code.value⟩, none)
      | .ok hdPath => (.answered ⟨[], ApduCode.ok.value⟩, some ⟨hdPath, []⟩)
  | .add payload =>
      match service.receive payload reception with
      | .error code => (.answered ⟨[], code.value⟩, none)
      | .ok next => (.answered ⟨[], ApduCode.ok.value⟩, some next)
  | .last payload =>
      match service.receive payload reception with
      | .error code => (.answered ⟨[], code.value⟩, none)
      | .ok whole => (service.answerMessage whole, none)

/-- What is answered in a turn, and what is known then. -/
def step (memory : Memory) : Turn → Option Reply × Memory
  | .request request =>
      let served := service.answer memory.reception request
      match served.1 with
      | .answered reply => (some reply, ⟨served.2, memory.review⟩)
      | .review approval => (none, ⟨served.2, some approval⟩)
  | .decision approves =>
      match memory.review with
      | none => (none, memory)
      | some approval =>
          (some (Response.settled approves (.review approval)), ⟨memory.reception, none⟩)

/-- The service as a machine. -/
def machine : Mealy Memory Turn (Option Reply) := ⟨service.step⟩

end Service

/-- What a command asks for, as `handleApdu` looks at it. -/
def Apdu.request (a : Apdu) : Request :=
  if a.byte offsetCla ≠ cla then .refused .claNotSupported
  else if a.rx < apduMinLength then .refused .wrongLength
  else if a.byte offsetIns = insGetVersion then .version
  else if a.byte offsetIns = insGetAddr then
    if a.pinValidated then .address (a.byte offsetP1 ≠ 0) a.data
    else .refused .commandNotAllowed
  else if a.byte offsetIns = insSign then
    if a.pinValidated then
      if a.byte offsetPayloadType = p1Init then .init a.data
      else if a.byte offsetPayloadType = p1Add then .add a.data
      else if a.byte offsetPayloadType = p1Last then .last a.data
      else .refused .invalidP1P2
    else .refused .commandNotAllowed
  else .refused .insNotSupported

/-- The service that a device with this buffer and this platform offers. -/
def deviceService (b : Buffering) (zx : Zxlib) (p : Platform) : Service :=
  ⟨p.version, b.capacity, verdict zx, p.fillAddress, p.sign⟩

/-- What a device knows of a message. -/
def Device.reception {b : Buffering} (d : Device b) : Option Reception :=
  if d.txInitialized then some ⟨d.hdPath, b.contents d.buffering⟩ else none

/-- What a device knows. -/
def Device.memory {b : Buffering} (p : Platform) (d : Device b) : Memory :=
  ⟨d.reception, d.review.map fun _ => Answers.decided p d true⟩

section Serves

variable {b : Buffering} {zx : Zxlib} {p : Platform} {a : Apdu} {d : Device b}
variable {served : Response × Option Reception}

theorem Device.reception_of_closed (h : d.txInitialized = false) : d.reception = none := by
  rw [Device.reception, h]
  rfl

theorem Device.reception_of_open (h : d.txInitialized = true) :
    d.reception = some ⟨d.hdPath, b.contents d.buffering⟩ := by
  rw [Device.reception, h]
  rfl

/-- The path that the handlers take from a payload. -/
theorem Service.path_of_short (h : a.data.length < 4 * hdpathLenDefault) :
    Service.path a.data = .error .wrongLength := if_pos h

theorem Service.path_of_other (hlong : 4 * hdpathLenDefault ≤ a.data.length)
    (h : ¬ a.path.Mainnet) : Service.path a.data = .error .dataInvalid := by
  rw [Service.path, if_neg (Nat.not_lt.mpr hlong)]
  exact if_neg h

theorem Service.path_of_mainnet (hlong : 4 * hdpathLenDefault ≤ a.data.length)
    (h : a.path.Mainnet) : Service.path a.data = .ok a.path := by
  rw [Service.path, if_neg (Nat.not_lt.mpr hlong)]
  exact if_pos h

/-- What is stored is what the service receives. -/
theorem receive_of_stores (p : Platform) (zx : Zxlib) (hopen : d.txInitialized = true)
    (h : Stores d a.data) :
    (deviceService b zx p).receive a.data d.reception =
      .ok ⟨d.hdPath, b.contents d.buffering ++ a.data⟩ := by
  rw [Device.reception_of_open hopen]
  exact if_pos ((stores_iff d a.data).mp h)

theorem receive_of_not_stores (p : Platform) (zx : Zxlib) (hopen : d.txInitialized = true)
    (h : ¬ Stores d a.data) :
    (deviceService b zx p).receive a.data d.reception = .error .outputBufferTooSmall := by
  rw [Device.reception_of_open hopen]
  exact if_neg fun hfits => h ((stores_iff d a.data).mpr hfits)

theorem receive_of_closed (p : Platform) (zx : Zxlib) (hclosed : d.txInitialized = false) :
    (deviceService b zx p).receive a.data d.reception = .error .txNotInitialized := by
  rw [Device.reception_of_closed hclosed]
  rfl

/-- A command is answered as the service answers, with what is on the screen left there,
or puts on the screen what the service does. -/
def Serves (p : Platform) (d : Device b) (served : Response × Option Reception) :
    Option Reply → Device b → Prop
  | some reply, d' =>
      served.1 = .answered reply ∧ d'.reception = served.2 ∧ d'.review = d.review
  | none, d' =>
      served.1 = .review (Answers.decided p d' true) ∧ d'.reception = served.2 ∧
        d'.review.isSome = true

/-- A request for an address ends every reception. -/
theorem wp_address (h : a.Reaches insGetAddr) :
    (handleApdu zx p a).wp (fun _ => True) d
      (Serves p d ((deviceService b zx p).answer d.reception
        (.address (a.byte offsetP1 ≠ 0) a.data))) (fun _ _ => False) := by
  apply wp_handleApdu_getAddr h
  unfold handleGetAddr
  simp only [Command.wp_bind]
  apply wp_extractHDPath h.rx_ge
  · intro hshort
    rw [Service.answer, Service.path_of_short hshort]
    exact ⟨rfl, rfl, rfl⟩
  · intro hlong hother
    rw [Service.answer, Service.path_of_other hlong hother]
    exact ⟨rfl, rfl, rfl⟩
  · intro hlong hmain
    simp only [Service.answer, Service.path_of_mainnet hlong hmain, appFillAddress,
      Service.answerAddress, deviceService, Command.wp_bind, Command.wp_read]
    cases hanswer : p.fillAddress a.path with
    | none =>
        refine wp_throwCode.mpr ?_
        exact ⟨rfl, rfl, rfl⟩
    | some answer =>
        simp only [Command.wp_pure]
        by_cases hconfirm : a.byte offsetP1 = 0
        · rw [if_neg (not_not.mpr hconfirm)]
          refine wp_throwAnswer.mpr ?_
          simp only [hconfirm, ne_eq, not_true_eq_false, decide_false]
          exact ⟨rfl, rfl, rfl⟩
        · rw [if_pos hconfirm]
          simp only [viewReviewInit, Command.wp_bind, Command.wp_modify, Command.wp_emit,
            true_and, ne_eq, hconfirm, not_false_eq_true, decide_true, if_true]
          refine ⟨?_, rfl, rfl⟩
          simp only [Answers.decided, if_true, hanswer, Option.getD_some]

/-- A first chunk begins a message, whatever was being received. -/
theorem wp_begin (h : a.Chunk p1Init) :
    (handleApdu zx p a).wp (fun _ => True) d
      (Serves p d ((deviceService b zx p).answer d.reception (.init a.data)))
      (fun _ _ => False) := by
  apply wp_init h
  · intro hshort
    rw [Service.answer, Service.path_of_short hshort]
    exact ⟨rfl, rfl, rfl⟩
  · intro hlong hother
    rw [Service.answer, Service.path_of_other hlong hother]
    exact ⟨rfl, rfl, rfl⟩
  · intro hlong hmain
    rw [Service.answer, Service.path_of_mainnet hlong hmain]
    refine ⟨rfl, (Device.reception_of_open rfl).trans ?_, rfl⟩
    exact congrArg (fun message => some (Reception.mk a.path message)) (b.contents_reset _)

/-- A chunk in the middle of a message. -/
theorem wp_append (h : a.Chunk p1Add) :
    (handleApdu zx p a).wp (fun _ => True) d
      (Serves p d ((deviceService b zx p).answer d.reception (.add a.data)))
      (fun _ _ => False) := by
  apply wp_add h
  · intro hclosed
    rw [Service.answer, receive_of_closed p zx hclosed]
    exact ⟨rfl, Device.reception_of_closed hclosed, rfl⟩
  · intro hopen hfull
    rw [Service.answer, receive_of_not_stores p zx hopen hfull]
    exact ⟨rfl, rfl, rfl⟩
  · intro hopen hstores
    rw [Service.answer, receive_of_stores p zx hopen hstores]
    have hstored : ({ d with buffering := (b.append a.data d.buffering).1 } : Device b).reception =
        some ⟨d.hdPath, b.contents (b.append a.data d.buffering).1⟩ :=
      Device.reception_of_open hopen
    rw [hstores.contents] at hstored
    exact ⟨rfl, hstored, rfl⟩

/-- What is parsed is seen whole, and has the text of its verdict. -/
theorem wp_parseBuffer_verdict {post : Option String → Device b → Prop}
    {early : Thrown → Device b → Prop}
    (hpost : ∀ state, post ((verdict zx (b.contents d.buffering)).map parserGetErrorDescription)
      { d with ctxParsedTx := state }) :
    (parseBuffer zx).wp (fun _ => True) d post early := by
  unfold parseBuffer
  simp only [Command.wp_bind, Command.wp_read, Command.wp_emit, Command.wp_handle,
    Command.wp_quiet, Command.wp_zoom, true_and]
  have hparse : (txParse zx (b.contents d.buffering)).wp Event.Good d.ctxParsedTx
      (fun result state => post result { d with ctxParsedTx := state }) (fun _ _ => False) := by
    apply wp_txParse_verdict
    rw [b.seen_contents (b.contents_le d.buffering)]
    exact hpost
  exact (hparse.safe_mono fun _ _ => trivial).mono (fun _ _ => id) fun _ _ => False.elim

/-- The last chunk of a message: the message is parsed, and signed when it is approved. -/
theorem wp_finish (h : a.Chunk p1Last) :
    (handleApdu zx p a).wp (fun _ => True) d
      (Serves p d ((deviceService b zx p).answer d.reception (.last a.data)))
      (fun _ _ => False) := by
  apply wp_handleApdu_sign h.toReaches
  unfold handleSign
  rw [Command.wp_bind]
  apply wp_processChunk_last h
  · intro hclosed
    rw [Service.answer, receive_of_closed p zx hclosed]
    exact ⟨rfl, Device.reception_of_closed hclosed, rfl⟩
  · intro hopen hfull
    rw [Service.answer, receive_of_not_stores p zx hopen hfull]
    exact ⟨rfl, rfl, rfl⟩
  · intro hopen hstores
    have hcontents := hstores.contents
    rw [Service.answer, receive_of_stores p zx hopen hstores, if_neg (by decide), Command.wp_bind]
    simp only [Service.answerMessage, deviceService]
    apply wp_parseBuffer_verdict
    intro state
    rw [hcontents]
    cases hverdict : verdict zx (b.contents d.buffering ++ a.data) with
    | some code =>
        refine wp_throwAnswer.mpr ?_
        exact ⟨rfl, rfl, rfl⟩
    | none =>
        simp only [Option.map_none, viewReviewInit, Command.wp_bind, Command.wp_modify,
          Command.wp_emit, true_and]
        refine ⟨?_, rfl, rfl⟩
        simp only [Answers.decided, if_true, hcontents]

/-! What a command asks for, by the handler that it gets to. -/

theorem request_of_getAddr (h : a.Reaches insGetAddr) :
    a.request = .address (a.byte offsetP1 ≠ 0) a.data := by
  rw [Apdu.request, if_neg (not_not.mpr h.cla_eq), if_neg (Nat.not_lt.mpr h.rx_ge), h.ins_eq,
    if_neg (by decide), if_pos rfl, if_pos h.pin]

theorem request_of_sign (h : a.Reaches insSign) : a.request =
    if a.byte offsetPayloadType = p1Init then .init a.data
    else if a.byte offsetPayloadType = p1Add then .add a.data
    else if a.byte offsetPayloadType = p1Last then .last a.data
    else .refused .invalidP1P2 := by
  rw [Apdu.request, if_neg (not_not.mpr h.cla_eq), if_neg (Nat.not_lt.mpr h.rx_ge), h.ins_eq,
    if_neg (by decide), if_neg (by decide), if_pos rfl, if_pos h.pin]

/-- A chunk goes to one of the three rules, or is refused. -/
theorem wp_chunk (h : a.Reaches insSign) :
    (handleApdu zx p a).wp (fun _ => True) d
      (Serves p d ((deviceService b zx p).answer d.reception a.request))
      (fun _ _ => False) := by
  rw [request_of_sign h]
  split
  next htype => exact wp_begin ⟨h, htype⟩
  next hinit =>
    split
    next htype => exact wp_append ⟨h, htype⟩
    next hadd =>
      split
      next htype => exact wp_finish ⟨h, htype⟩
      next hlast =>
        apply wp_handleApdu_sign h
        unfold handleSign
        rw [Command.wp_bind]
        apply wp_processChunk_other h (fun hchunk => hinit hchunk.type_eq)
          (fun hchunk => hadd hchunk.type_eq) (fun hchunk => hlast hchunk.type_eq)
        exact ⟨rfl, rfl, rfl⟩

/-- A command that gets to neither handler changes nothing. -/
theorem wp_unreached (haddr : ¬ a.Reaches insGetAddr) (hsign : ¬ a.Reaches insSign) :
    (handleApdu zx p a).wp (fun _ => True) d
      (Serves p d ((deviceService b zx p).answer d.reception a.request))
      (fun _ _ => False) := by
  apply wp_handleApdu
  rw [dispatch, Apdu.request]
  by_cases hcla : a.byte offsetCla ≠ cla
  · rw [if_pos hcla, if_pos hcla]
    exact wp_throwCode.mpr ⟨rfl, rfl, rfl⟩
  rw [if_neg hcla, if_neg hcla]
  by_cases hrx : a.rx < apduMinLength
  · rw [if_pos hrx, if_pos hrx]
    exact wp_throwCode.mpr ⟨rfl, rfl, rfl⟩
  rw [if_neg hrx, if_neg hrx]
  by_cases hversion : a.byte offsetIns = insGetVersion
  · rw [if_pos hversion, if_pos hversion]
    exact wp_throwAnswer.mpr ⟨rfl, rfl, rfl⟩
  rw [if_neg hversion, if_neg hversion]
  have hlocked {ins : UInt8} (hnot : ¬ a.Reaches ins) (hins : a.byte offsetIns = ins) :
      ¬ a.pinValidated = true := fun hpin =>
    hnot ⟨not_not.mp hcla, Nat.le_of_not_lt hrx, hins, hpin⟩
  by_cases hins : a.byte offsetIns = insGetAddr
  · rw [if_pos hins, if_pos hins, if_neg (hlocked haddr hins), Command.wp_bind, checkPinValidated,
      if_neg (hlocked haddr hins)]
    exact wp_throwCode.mpr ⟨rfl, rfl, rfl⟩
  rw [if_neg hins, if_neg hins]
  by_cases hins' : a.byte offsetIns = insSign
  · rw [if_pos hins', if_pos hins', if_neg (hlocked hsign hins'), Command.wp_bind,
      checkPinValidated, if_neg (hlocked hsign hins')]
    exact wp_throwCode.mpr ⟨rfl, rfl, rfl⟩
  rw [if_neg hins', if_neg hins']
  exact wp_throwCode.mpr ⟨rfl, rfl, rfl⟩

/-- Every command is answered as the service answers what it asks for. -/
theorem handleApdu_serves (zx : Zxlib) (p : Platform) (a : Apdu) (d : Device b) :
    (handleApdu zx p a).wp (fun _ => True) d
      (Serves p d ((deviceService b zx p).answer d.reception a.request)) (fun _ _ => False) := by
  by_cases haddr : a.Reaches insGetAddr
  · rw [request_of_getAddr haddr]
    exact wp_address haddr
  by_cases hsign : a.Reaches insSign
  · exact wp_chunk hsign
  · exact wp_unreached haddr hsign

/-- A review that is decided at once. -/
theorem respond_serves (zx : Zxlib) (p : Platform) (env : Exchange) (a : Apdu) (d : Device b) :
    (Answers.respond zx p env a).wp (fun _ => True) d
      (fun reply _ => reply =
        ((deviceService b zx p).answer d.reception a.request).1.settled env.approves)
      (fun _ _ => False) := by
  rw [Answers.respond, Command.wp_bind]
  refine (handleApdu_serves zx p a d).mono (fun answer d' hserves => ?_) fun _ _ => id
  cases answer with
  | some reply =>
      refine (Command.wp_pure _).mpr ?_
      rw [hserves.1]
      rfl
  | none =>
      refine ⟨fun _ _ => trivial, ?_⟩
      rw [Answers.settle_outcome, hserves.1]
      cases henv : env.approves <;> rfl

end Serves

section Machine

variable {service : Service} {memory : Memory} {request : Request}

theorem Service.step_of_answered {reply : Reply}
    (h : (service.answer memory.reception request).1 = .answered reply) :
    service.step memory (.request request) =
      (some reply, ⟨(service.answer memory.reception request).2, memory.review⟩) := by
  simp only [step, h]

theorem Service.step_of_review {approval : Reply}
    (h : (service.answer memory.reception request).1 = .review approval) :
    service.step memory (.request request) =
      (none, ⟨(service.answer memory.reception request).2, some approval⟩) := by
  simp only [step, h]

end Machine

end LedgerMatrix

namespace LedgerMatrix.Answers

open Imperative

/-! ## Runs -/

/-- What an input is for the service. -/
def Input.turn : Input → Turn
  | .apdu a => .request a.request
  | .decide approves => .decision approves

section Runs

variable {b : Buffering} {sdk : Sdk} {base58 : AddressLibrary} {io : Io}

theorem decided_eq_settled (p : Platform) (d : Device b) (approves : Bool) :
    decided p d approves = Response.settled approves (.review (decided p d true)) := by
  cases approves <;> rfl

/-- The device does what the service does. -/
theorem answer_simulates (zx : Zxlib) (p : Platform) (input : Input) :
    Command.Simulates (fun (d : Device b) memory => d.memory p = memory)
      (fun memory input => input.turn.Spares memory) id (answer zx p)
      (fun input => ((deviceService b zx p).machine.command input.turn :
        Command Effect Stop Memory (Option Reply))) input := by
  rintro d _ rfl hspares
  cases input with
  | apdu a =>
      have hnone : d.review = none := Option.map_eq_none_iff.mp hspares
      obtain ⟨reply, d', hend, hserves⟩ := (handleApdu_serves zx p a d).exists_done
      cases reply with
      | some reply =>
          obtain ⟨hreply, hreception, hreview⟩ := hserves
          refine ⟨some reply, d', _, Mealy.outcome_command (Service.step_of_answered hreply), hend,
            ?_⟩
          simp only [Device.memory, hreception, hreview, hnone, Option.map_none]
      | none =>
          obtain ⟨happroval, hreception, hopened⟩ := hserves
          refine ⟨none, d', _, Mealy.outcome_command (Service.step_of_review happroval), hend, ?_⟩
          obtain ⟨callback, hreview⟩ := Option.isSome_iff_exists.mp hopened
          simp only [Device.memory, hreception, hreview, Option.map_some]
  | decide approves =>
      cases hreview : d.review with
      | none =>
          have hstep : (deviceService b zx p).step (d.memory p) (.decision approves) =
              (none, d.memory p) := by
            simp only [Service.step, Device.memory, hreview, Option.map_none]
          refine ⟨none, d, _, Mealy.outcome_command hstep, ?_, rfl⟩
          exact (Command.outcome_bind_of_done rfl).trans (by rw [if_pos hreview]; rfl)
      | some callback =>
          have hstep : (deviceService b zx p).step (d.memory p) (.decision approves) =
              (some (decided p d approves), ⟨d.reception, none⟩) := by
            rw [decided_eq_settled]
            simp only [Service.step, Device.memory, hreview, Option.map_some]
          refine ⟨some (decided p d approves), { d with review := none }, _,
            Mealy.outcome_command hstep, ?_, rfl⟩
          have hne : d.review ≠ none := hreview ▸ Option.some_ne_none callback
          refine (Command.outcome_bind_of_done rfl).trans ?_
          rw [if_neg hne, Command.outcome_bind_of_done (settle_outcome p d approves)]
          rfl

/-- The buffer answers as the service does. -/
theorem send_serves (hio : io.Standard) (hbase58 : base58.Encodes) (hreads : sdk.ReadsDer)
    (zx : Zxlib) (version : Vector UInt8 12) (privateKey : sdk.PrivateKey) {inputs : List Input}
    (hsize : ∀ input ∈ inputs, input.Sized io) {d : Device b} {front : Front}
    (hsized : front.Sized io) (hreview : d.review = none)
    (hspares : (deviceService b zx (platform sdk base58 version)).machine.Along
      (fun memory turn => turn.Spares memory) ⟨d.reception, none⟩ (inputs.map Input.turn)) :
    ∃ s' : Device b × Front,
      (Command.each (send sdk base58 io zx version privateKey) inputs).outcome (d, front) =
        .done (((deviceService b zx (platform sdk base58 version)).machine.run
          ⟨d.reception, none⟩ (inputs.map Input.turn)).1.map (Option.map Reply.bytes)) s' ∧
      s'.1.memory (platform sdk base58 version) =
        ((deviceService b zx (platform sdk base58 version)).machine.run ⟨d.reception, none⟩
          (inputs.map Input.turn)).2 := by
  have hsimulates := fun input (hmem : input ∈ inputs) =>
    (@send_simulates b sdk base58 io zx version hio hbase58 hreads privateKey input
      (hsize input hmem)).comp
      (answer_simulates zx (platform sdk base58 version) input) fun d memory hmemory hinput => by
        cases input with
        | decide approves => trivial
        | apdu a =>
            subst hmemory
            have hnone : d.review = none := Option.map_eq_none_iff.mp hinput
            exact fun haddress => Option.some_ne_none _ (haddress.symm.trans hnone)
  have hmemory : d.memory (platform sdk base58 version) = ⟨d.reception, none⟩ := by
    rw [Device.memory, hreview]
    rfl
  have hlinked : Linked sdk base58 io (d, front) d :=
    ⟨rfl, hsized, fun haddress => nomatch haddress.symm.trans hreview⟩
  obtain ⟨values, s', memory, hrun, hsent, ⟨d', hlinked', hmemory'⟩, -⟩ :=
    Command.Simulates.each hsimulates ⟨d, hlinked, hmemory⟩ (Mealy.along_command hspares)
  rw [Mealy.each_command] at hrun
  obtain ⟨rfl, rfl⟩ := Outcome.done.inj hrun
  exact ⟨s', hsent, hlinked'.device_eq ▸ hmemory'⟩

/-- Requests for an address and first chunks make the device forget. -/
theorem forgets_of_path (service : Service) {a : Apdu}
    (h : a.Reaches insGetAddr ∨ a.Chunk p1Init) :
    service.machine.Forgets (fun memory turn => turn.Spares memory) (.request a.request) := by
  intro s t hs ht
  have hanswer : service.answer s.reception a.request = service.answer t.reception a.request := by
    rcases h with haddr | hinit
    · have hrequest := request_of_getAddr haddr
      simp only [hrequest, Service.answer]
    · have hrequest : a.request = .init a.data := by
        rw [request_of_sign hinit.toReaches, if_pos hinit.type_eq]
      simp only [hrequest, Service.answer]
  have hreview : s.review = t.review := Eq.trans hs (Eq.symm ht)
  simp only [Service.machine, Service.step, hanswer, hreview]

end Runs

/-! ## The bytes that are received -/

/-- The same bytes are received. What stands behind them may differ. -/
structure SameBytes (a a' : Apdu) : Prop where
  rx_pos : 0 < a.rx
  rx_eq : a'.rx = a.rx
  pin_eq : a'.pinValidated = a.pinValidated
  received_eq : a'.buffer.take a.rx = a.buffer.take a.rx

section Bytes

variable {a a' : Apdu}

theorem SameBytes.byte_eq (h : SameBytes a a') {offset : Nat} (hoffset : offset < a.rx) :
    a'.byte offset = a.byte offset := by
  rw [Apdu.byte, Apdu.byte, List.getD_eq_getElem?_getD, List.getD_eq_getElem?_getD,
    ← List.getElem?_take_of_lt hoffset, h.received_eq, List.getElem?_take_of_lt hoffset]

theorem SameBytes.data_eq (h : SameBytes a a') (hrx : offsetData ≤ a.rx) : a'.data = a.data := by
  have hlt := a.rx_lt
  have hslice (buffer : List UInt8) :
      slice buffer offsetData (a.rx - offsetData) = (buffer.take a.rx).drop offsetData := by
    rw [slice, List.drop_take]
  rw [Apdu.data, Apdu.data, h.rx_eq, sub32_of_le hrx hlt, hslice, hslice, h.received_eq]

/-- What a command asks for is in the bytes that are received. -/
theorem SameBytes.request_eq (h : SameBytes a a') : a'.request = a.request := by
  have hcla : offsetCla < a.rx := h.rx_pos
  rw [Apdu.request, Apdu.request, h.byte_eq hcla, h.rx_eq, h.pin_eq]
  by_cases hshort : a.rx < apduMinLength
  · rw [if_pos hshort, if_pos hshort]
  · have hrx : offsetData ≤ a.rx := Nat.le_of_not_lt hshort
    have hins : offsetIns < a.rx := lt_of_lt_of_le (by decide) hrx
    have hp1 : offsetP1 < a.rx := lt_of_lt_of_le (by decide) hrx
    have htype : offsetPayloadType < a.rx := hp1
    rw [h.byte_eq hins, h.byte_eq hp1, h.byte_eq htype, h.data_eq hrx]

/-- The same happens: a command with the same bytes, or the same decision. -/
inductive Input.Same : Input → Input → Prop
  | apdu {a a' : Apdu} (h : SameBytes a a') : Same (.apdu a) (.apdu a')
  | decide (approves : Bool) : Same (.decide approves) (.decide approves)

theorem Input.Same.turn_eq {input input' : Input} (h : input.Same input') :
    input'.turn = input.turn := by
  cases h with
  | apdu h => exact congrArg Turn.request h.request_eq
  | decide approves => rfl

theorem map_turn_eq {inputs inputs' : List Input} (h : List.Forall₂ Input.Same inputs inputs') :
    inputs'.map Input.turn = inputs.map Input.turn := by
  induction h with
  | nil => rfl
  | cons hsame _ ih => rw [List.map_cons, List.map_cons, hsame.turn_eq, ih]

end Bytes

/-- Through every run of commands and decisions in which no command comes in while
something is on the screen, whatever was before, the bytes that are sent are the answers
of the service, which knows of nothing but the message that is being received and what the
user is asked. -/
theorem device_serves {b : Buffering} (sdk : Sdk) (base58 : AddressLibrary) (io : Io)
    (hio : io.Standard) (hbase58 : base58.Encodes) (hreads : sdk.ReadsDer) (zx : Zxlib)
    (version : Vector UInt8 12) (privateKey : sdk.PrivateKey) (inputs : List Input)
    (hsize : ∀ input ∈ inputs, input.Sized io) (d : Device b) (front : Front)
    (hsized : front.Sized io) (hreview : d.review = none)
    (hspares : (deviceService b zx (platform sdk base58 version)).machine.Along
      (fun memory turn => turn.Spares memory) ⟨d.reception, none⟩ (inputs.map Input.turn)) :
    ∃ (d' : Device b) (front' : Front),
      (Command.each (send sdk base58 io zx version privateKey) inputs).outcome (d, front) =
        .done (((deviceService b zx (platform sdk base58 version)).machine.run
          ⟨d.reception, none⟩ (inputs.map Input.turn)).1.map (Option.map Reply.bytes))
          (d', front') ∧
      d'.memory (platform sdk base58 version) =
        ((deviceService b zx (platform sdk base58 version)).machine.run ⟨d.reception, none⟩
          (inputs.map Input.turn)).2 := by
  obtain ⟨s', hend, hmemory⟩ :=
    send_serves hio hbase58 hreads zx version privateKey hsize hsized hreview hspares
  exact ⟨s'.1, s'.2, hend, hmemory⟩

/-- From a request for an address or a first chunk on, two devices that did different
things before, with different buffers of one capacity and other bytes left behind every
command, send the same bytes, as long as no command comes in while something is on the
screen. -/
theorem sessions_apart {b b' : Buffering} (hcapacity : b.capacity = b'.capacity) (sdk : Sdk)
    (base58 : AddressLibrary) (io : Io) (hio : io.Standard) (hbase58 : base58.Encodes)
    (hreads : sdk.ReadsDer) (zx : Zxlib) (version : Vector UInt8 12)
    (privateKey privateKey' : sdk.PrivateKey) (a : Apdu)
    (h : a.Reaches insGetAddr ∨ a.Chunk p1Init) (inputs inputs' : List Input)
    (hsame : List.Forall₂ Input.Same (.apdu a :: inputs) inputs')
    (hsize : ∀ input ∈ .apdu a :: inputs, input.Sized io)
    (hsize' : ∀ input ∈ inputs', input.Sized io)
    (hspares : (deviceService b zx (platform sdk base58 version)).machine.Along
      (fun memory turn => turn.Spares memory) ⟨none, none⟩
      ((.apdu a :: inputs).map Input.turn))
    (d : Device b) (d' : Device b') (front front' : Front) (hsized : front.Sized io)
    (hsized' : front'.Sized io) (hreview : d.review = none) (hreview' : d'.review = none) :
    ∃ (sent : List (Option (List UInt8))) (s : Device b × Front) (s' : Device b' × Front),
      (Command.each (send sdk base58 io zx version privateKey) (.apdu a :: inputs)).outcome
        (d, front) = .done sent s ∧
      (Command.each (send sdk base58 io zx version privateKey') inputs').outcome
        (d', front') = .done sent s' := by
  have hservice : deviceService b' zx (platform sdk base58 version) =
      deviceService b zx (platform sdk base58 version) := by
    rw [deviceService, deviceService, hcapacity]
  have hforgets := forgets_of_path (deviceService b zx (platform sdk base58 version)) h
  have hidle (reception : Option Reception) :
      Turn.Spares ⟨reception, none⟩ (.request a.request) := rfl
  obtain ⟨s, hend, -⟩ := send_serves hio hbase58 hreads zx version privateKey hsize hsized hreview
    (hforgets.along hspares (hidle d.reception))
  obtain ⟨s', hend', -⟩ := send_serves hio hbase58 hreads zx version privateKey' hsize' hsized'
    hreview' (by
      rw [hservice, map_turn_eq hsame]
      exact hforgets.along hspares (hidle d'.reception))
  rw [hservice, map_turn_eq hsame] at hend'
  rw [List.map_cons, Input.turn, hforgets.run_eq (hidle d.reception) (hidle d'.reception)] at hend
  exact ⟨_, s, s', hend, hend'⟩

/-! ## A session -/

/-- A command with other bytes in the buffer behind it. -/
def behind (a : Apdu) (rest : List UInt8) : Apdu where
  buffer := a.buffer ++ rest
  rx := a.rx
  pinValidated := a.pinValidated
  header_le := a.header_le.trans (by simp)
  rx_le := a.rx_le.trans (by simp)
  rx_lt := a.rx_lt

/-- The path of the example, with these bytes left behind it. -/
def exampleOpening (left : UInt8) : Apdu := behind exampleInit (List.replicate 235 left)

/-- The message comes after the path, and is approved. -/
def exampleSession (left : UInt8) : List Input :=
  [.apdu (exampleOpening left), .apdu (behind exampleLast (List.replicate 237 left)),
    .decide true]

theorem exampleSession_same (left left' : UInt8) :
    List.Forall₂ Input.Same (exampleSession left) (exampleSession left') :=
  .cons (.apdu ⟨Nat.succ_pos _, rfl, rfl, rfl⟩)
    (.cons (.apdu ⟨Nat.succ_pos _, rfl, rfl, rfl⟩) (.cons (.decide true) .nil))

/-- The path is accepted, and the message is signed. -/
theorem device_serves_example : ∃ (d' : Device Buffering.plain) (front' : Front),
    (Command.each (send exampleSdk exampleLibrary .reference Zxlib.reference exampleVersion
      (Vector.replicate 32 7)) (exampleSession 0)).outcome (.initial emptyBuffer, .initial) =
      .done [some [0x90, 0x00], none, some ((exampleRsv exampleDer.bytes 1).bytes ++
        exampleDer.bytes ++ [0x90, 0x00])] (d', front') ∧
    d'.reception = none := by
  obtain ⟨d', front', hend, hmemory⟩ := device_serves exampleSdk exampleLibrary .reference
    Io.reference_standard exampleLibrary_encodes exampleSdk_readsDer Zxlib.reference exampleVersion
    (Vector.replicate 32 7) (exampleSession 0) (by decide +kernel) (.initial emptyBuffer) .initial
    List.length_replicate rfl (by decide +kernel)
  have hsent : ((deviceService Buffering.plain Zxlib.reference
      (platform exampleSdk exampleLibrary exampleVersion)).machine.run ⟨none, none⟩
        ((exampleSession 0).map Input.turn)).1.map (Option.map Reply.bytes) =
      [some [0x90, 0x00], none, some ((exampleRsv exampleDer.bytes 1).bytes ++
        exampleDer.bytes ++ [0x90, 0x00])] := by decide +kernel
  have hknown : ((deviceService Buffering.plain Zxlib.reference
      (platform exampleSdk exampleLibrary exampleVersion)).machine.run ⟨none, none⟩
        ((exampleSession 0).map Input.turn)).2.reception.isNone = true := by decide +kernel
  refine ⟨d', front', hend.trans (congrArg (Outcome.done · _) hsent), ?_⟩
  exact (congrArg Memory.reception hmemory).trans (Option.isNone_iff_eq_none.mp hknown)

/-- The session, begun anew on a device that was receiving another message, with other
bytes behind the commands. -/
theorem sessions_apart_example : ∃ (sent : List (Option (List UInt8)))
    (s s' : Device Buffering.plain × Front),
    (Command.each (send exampleSdk exampleLibrary .reference Zxlib.reference exampleVersion
      (Vector.replicate 32 7)) (exampleSession 0)).outcome (.initial emptyBuffer, .initial) =
        .done sent s ∧
    (Command.each (send exampleSdk exampleLibrary .reference Zxlib.reference exampleVersion
      (Vector.replicate 32 7)) (exampleSession 7)).outcome
        ({ Device.initial emptyBuffer with txInitialized := true }, .initial) = .done sent s' :=
  sessions_apart rfl exampleSdk exampleLibrary .reference Io.reference_standard
    exampleLibrary_encodes exampleSdk_readsDer Zxlib.reference exampleVersion
    (Vector.replicate 32 7) (Vector.replicate 32 7) (exampleOpening 0) (.inr (by decide +kernel))
    [.apdu (behind exampleLast (List.replicate 237 0)), .decide true] (exampleSession 7)
    (exampleSession_same 0 7) (by decide +kernel) (by decide +kernel) (by decide +kernel) _ _ _ _
    List.length_replicate List.length_replicate rfl rfl

end LedgerMatrix.Answers
