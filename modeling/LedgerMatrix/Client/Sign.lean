import LedgerMatrix.Client.Path

/-! # Sending a message

The functions `sign` and `signSendChunk` of the JavaScript client, with the device
at the other end of the transport. The first chunk is the path, the others are the
message. The client looks at the answers from the second chunk on.
-/

namespace LedgerMatrix

open Imperative

def rsvSignatureLen : Nat := 65

/-- `ResponseSign` without the text of the error. -/
structure ResponseSign where
  returnCode : Nat
  signatureRSV : List UInt8
  signatureDER : List UInt8
  deriving DecidableEq

/-- What happens at the device during one exchange. -/
structure Exchange where
  pinValidated : Bool
  approves : Bool

/-- What can be seen of a call: the chunks that are sent, with the code of the
answer, and what the device does. -/
inductive ClientEvent where
  | sent (payloadType : UInt8) (returnCode : Nat)
  | device (effect : Effect)
  deriving DecidableEq

/-- What the client makes of an answer that the transport hands on. -/
def processSignResponse (response : List UInt8) : ResponseSign :=
  let returnCode := errorCodeOf response
  if returnCode = ledgerNoErrors ∧ 2 < response.length then
    ⟨returnCode, response.take rsvSignatureLen,
      (response.take (response.length - 2)).drop rsvSignatureLen⟩
  else ⟨returnCode, [], []⟩

/-- The status codes that the transport hands on. -/
def signStatusCodes : List Nat :=
  [ledgerNoErrors, ledgerDataIsInvalid, ledgerBadKeyHandle, ledgerSignVerifyError]

def signResponse (js : LedgerJs) (response : List UInt8) : ResponseSign :=
  match js.send signStatusCodes response with
  | .ok response => processSignResponse response
  | .error error => ⟨js.processErrorResponse error, [], []⟩

section Client

variable {b : Buffering} (js : LedgerJs) (zx : Zxlib) (p : Platform)

/-- The device answers at once, or when the user has decided. -/
def exchange (env : Exchange) (a : Apdu) : Command Effect Stop (Device b) Reply := do
  let reply ← handleApdu zx p a
  match reply with
  | some reply => pure reply
  | none =>
      Command.modify fun d => { d with review := none }
      if env.approves then appSign p else appReject

/-- The type of a chunk: both tests are made, and the second one counts. -/
def payloadTypeOf (chunkIdx chunkNum : Nat) : UInt8 :=
  let payloadType := p1Add
  let payloadType := if chunkIdx = 1 then p1Init else payloadType
  if chunkIdx = chunkNum then p1Last else payloadType

/-- The command that carries a chunk. -/
def chunkCommand (env : Exchange) (payloadType : UInt8) (chunk : ChunkData) : Apdu :=
  .command insSign payloadType chunk.val env.pinValidated chunk.length_lt

def signSendChunk (env : Nat → Exchange) (chunkIdx chunkNum : Nat) (chunk : ChunkData) :
    Command ClientEvent Stop (Device b) ResponseSign := do
  let payloadType := payloadTypeOf chunkIdx chunkNum
  let reply ← Command.label ClientEvent.device
    (exchange zx p (env chunkIdx) (chunkCommand (env chunkIdx) payloadType chunk))
  let response := signResponse js reply.bytes
  Command.emit (.sent payloadType response.returnCode)
  pure response

/-- The loop of `sign` over the chunks from index `i` on. -/
def signLoop (env : Nat → Exchange) (chunkNum : Nat) :
    Nat → List ChunkData → ResponseSign → Command ClientEvent Stop (Device b) ResponseSign
  | _, [], result => pure result
  | i, chunk :: chunks, _ => do
      let result ← signSendChunk js zx p env (1 + i) chunkNum chunk
      if result.returnCode ≠ ledgerNoErrors then pure result
      else signLoop env chunkNum (i + 1) chunks result

/-- The serialized path, and the slices of the message. -/
def prepareChunks (path : List UInt32) (message : List UInt8) :
    Option (ChunkData × List ChunkData) :=
  match h : js.serializePath path with
  | none => none
  | some bytes => some (⟨bytes, (serializePath_length_le h).trans (by decide)⟩,
      js.slices message)

/-- `sign`, when the chunks are prepared: the first one is the path. -/
def sign (env : Nat → Exchange) (chunks : ChunkData × List ChunkData) :
    Command ClientEvent Stop (Device b) ResponseSign := do
  let chunkNum := chunks.2.length + 1
  let response ← signSendChunk js zx p env 1 chunkNum chunks.1
  signLoop js zx p env chunkNum 1 chunks.2 ⟨response.returnCode, [], []⟩

end Client

/-! ## One exchange -/

theorem signResponse_of_mem {js : LedgerJs} {reply : Reply} (hlt : reply.sw < 2 ^ 16)
    (h : reply.sw ∈ signStatusCodes) :
    signResponse js reply.bytes = processSignResponse reply.bytes := by
  rw [signResponse, js.send_of_mem _ reply hlt h]

theorem signResponse_of_not_mem {js : LedgerJs} {reply : Reply} (hlt : reply.sw < 2 ^ 16)
    (h : reply.sw ∉ signStatusCodes) : signResponse js reply.bytes = ⟨reply.sw, [], []⟩ := by
  obtain ⟨error, hsend, hcode⟩ := js.send_of_not_mem _ reply hlt h
  rw [signResponse, hsend]
  exact congrArg (ResponseSign.mk · [] []) hcode

/-- The code that the client returns is the status word of the answer. -/
theorem signResponse_returnCode (js : LedgerJs) {reply : Reply} (hlt : reply.sw < 2 ^ 16) :
    (signResponse js reply.bytes).returnCode = reply.sw := by
  by_cases hlisted : reply.sw ∈ signStatusCodes
  · rw [signResponse_of_mem hlt hlisted, processSignResponse, errorCodeOf_bytes hlt]
    split <;> rfl
  · rw [signResponse_of_not_mem hlt hlisted]

section Exchange

variable {b : Buffering} {zx : Zxlib} {p : Platform} {d : Device b} {safe : Effect → Prop}
variable {post : Reply → Device b → Prop} {early : Stop → Device b → Prop}

/-- The decision of the user follows a command that is not answered at once. -/
theorem wp_exchange {env : Exchange} {a : Apdu}
    (h : (handleApdu zx p a).wp safe d (fun answer d' =>
      match answer with
      | some reply => post reply d'
      | none => (∀ path message, safe (.sign path message)) ∧
          ∀ reply, post reply { d' with review := none }) early) :
    (exchange zx p env a).wp safe d post early := by
  unfold exchange
  rw [Command.wp_bind]
  refine h.mono (fun answer d' hanswer => ?_) fun _ _ => id
  cases answer with
  | some reply => exact (Command.wp_pure reply).mpr hanswer
  | none =>
      obtain ⟨hsign, hreply⟩ := hanswer
      simp only [Command.wp_bind, Command.wp_modify]
      split
      · simp only [appSign, Command.wp_bind, Command.wp_read, Command.wp_emit]
        refine ⟨hsign _ _, ?_⟩
        split <;> exact (Command.wp_pure _).mpr (hreply _)
      · exact (Command.wp_pure _).mpr (hreply _)

variable {env : Exchange} {payloadType : UInt8} {chunk : ChunkData}

theorem chunkCommand_chunk (h : env.pinValidated = true) :
    (chunkCommand env payloadType chunk).Chunk payloadType where
  toReaches := Apdu.command_reaches_iff.mpr h
  type_eq := rfl

theorem chunkCommand_data : (chunkCommand env payloadType chunk).data = chunk.val :=
  Apdu.command_data

/-- Without the PIN every chunk is refused, and nothing changes. -/
theorem wp_exchange_locked (h : env.pinValidated = false)
    (hpost : ∀ reply : Reply, reply.sw ≠ ledgerNoErrors → post reply d) :
    (exchange zx p env (chunkCommand env payloadType chunk)).wp safe d post early := by
  have hreaches : ∀ ins, ¬ (chunkCommand env payloadType chunk).Reaches ins := fun ins hins =>
    absurd (hins.pin.symm.trans h) (by decide)
  apply wp_exchange
  refine wp_handleApdu_unreached (hreaches _) (hreaches _) fun code answer hne => ?_
  exact hpost _ (ApduCode.value_ne_ok (hne rfl))

/-- What the device accepts as a first chunk. -/
def AcceptsInit (env : Exchange) (chunk : ChunkData) : Prop :=
  env.pinValidated = true ∧ 4 * hdpathLenDefault ≤ chunk.val.length ∧
    (HdPath.ofBytes (chunk.val.take (4 * hdpathLenDefault))).Mainnet

/-- A first chunk is accepted or not, and opens an empty message when it is. -/
theorem wp_exchange_init
    (haccepted : AcceptsInit env chunk → ∀ (reply : Reply) (d' : Device b),
      reply.sw = ledgerNoErrors → d'.txInitialized = true → b.contents d'.buffering = [] →
      post reply d')
    (hrefused : ¬ AcceptsInit env chunk → ∀ (reply : Reply) (d' : Device b),
      reply.sw ≠ ledgerNoErrors → post reply d') :
    (exchange zx p env (chunkCommand env p1Init chunk)).wp safe d post early := by
  cases hpin : env.pinValidated with
  | false =>
      refine wp_exchange_locked hpin fun reply hne => hrefused (fun haccepts => ?_) _ _ hne
      exact absurd (haccepts.1.symm.trans hpin) (by decide)
  | true =>
      have hdata : (chunkCommand env p1Init chunk).data = chunk.val := chunkCommand_data
      apply wp_exchange
      apply wp_init (chunkCommand_chunk hpin)
      · intro hshort
        refine hrefused (fun haccepts => ?_) _ _ (by decide)
        rw [hdata] at hshort
        exact absurd haccepts.2.1 (Nat.not_le.mpr hshort)
      · intro _ hother
        refine hrefused (fun haccepts => hother ?_) _ _ (by decide)
        rw [Apdu.path, hdata]
        exact haccepts.2.2
      · intro hlong hmain
        rw [Apdu.path] at hmain
        rw [hdata] at hlong hmain
        exact haccepted ⟨hpin, hlong, hmain⟩ _ _ rfl rfl (b.contents_reset _)

/-- A chunk that adds to an open message is stored in full when it is accepted. -/
theorem wp_exchange_add (hopen : d.txInitialized = true)
    (haccepted : ∀ (reply : Reply) (d' : Device b), reply.sw = ledgerNoErrors →
      d'.txInitialized = true →
      b.contents d'.buffering = b.contents d.buffering ++ chunk.val → post reply d')
    (hrefused : ∀ (reply : Reply) (d' : Device b), reply.sw ≠ ledgerNoErrors → post reply d') :
    (exchange zx p env (chunkCommand env p1Add chunk)).wp safe d post early := by
  cases hpin : env.pinValidated with
  | false => exact wp_exchange_locked hpin fun reply hne => hrefused _ _ hne
  | true =>
      apply wp_exchange
      refine wp_add (chunkCommand_chunk hpin) ?_ (fun _ _ => hrefused _ _ (by decide)) ?_
      · exact fun hclosed => absurd (hopen.symm.trans hclosed) (by decide)
      · intro _ hstores
        refine haccepted _ _ rfl hopen ?_
        rw [hstores.contents, chunkCommand_data]

/-- With the last chunk the message is parsed, if anything is. The answer is not an
error only when the chunk is stored in full. -/
theorem wp_exchange_last (hsafe : safe (.parse (b.contents d.buffering ++ chunk.val)))
    (hother : ∀ effect, (∀ message, effect ≠ .parse message) → safe effect)
    (hpost : ∀ (reply : Reply) (d' : Device b), (reply.sw = ledgerNoErrors →
      env.pinValidated = true ∧ Stores d chunk.val) → post reply d') :
    (exchange zx p env (chunkCommand env p1Last chunk)).wp safe d post early := by
  cases hpin : env.pinValidated with
  | false =>
      exact wp_exchange_locked hpin fun reply hne => hpost _ _ fun hok => absurd hok hne
  | true =>
      have hdata : (chunkCommand env p1Last chunk).data = chunk.val := chunkCommand_data
      apply wp_exchange
      refine wp_last (chunkCommand_chunk hpin) (fun _ => hpost _ _ nofun)
        (fun _ _ => hpost _ _ nofun) ?_ ?_ (fun _ _ _ _ => hpost _ _ nofun)
      · intro _ _
        rw [hdata]
        exact hsafe
      · intro _ hstores state t _ _
        rw [hdata] at hstores
        exact ⟨hother _ nofun, fun _ _ => hother _ nofun,
          fun _ => hpost _ _ fun _ => ⟨hpin, hstores⟩⟩

/-- Such a chunk completes a message, which is parsed. -/
theorem exchange_parses (hopen : d.txInitialized = true) (hpin : env.pinValidated = true)
    (hstores : Stores d chunk.val) : Effect.parse (b.contents d.buffering ++ chunk.val) ∈
      (exchange zx p env (chunkCommand env p1Last chunk)).trace d := by
  have hdata : (chunkCommand env p1Last chunk).data = chunk.val := chunkCommand_data
  have hparsed := @last_parsed b zx p (chunkCommand env p1Last chunk) d (chunkCommand_chunk hpin)
    hopen (hdata.symm ▸ hstores)
  rw [hdata] at hparsed
  exact Command.mem_trace_bind hparsed _

end Exchange

/-! ## The order of the chunks -/

/-- The chunks in a trace, with the codes of their answers. -/
def sents (trace : List ClientEvent) : List (UInt8 × Nat) :=
  trace.filterMap fun
    | .sent payloadType returnCode => some (payloadType, returnCode)
    | .device _ => none

/-- Chunks of these types are sent in order, up to the first one that is refused,
and the code of the last answer is returned. -/
inductive Follows : List UInt8 → List (UInt8 × Nat) → Nat → Prop
  | last (payloadType : UInt8) (code : Nat) : Follows [payloadType] [(payloadType, code)] code
  | refused (payloadType : UInt8) (types : List UInt8) {code : Nat} (h : code ≠ ledgerNoErrors) :
      Follows (payloadType :: types) [(payloadType, code)] code
  | next (payloadType : UInt8) {types : List UInt8} {sent : List (UInt8 × Nat)} {code : Nat}
      (h : Follows types sent code) :
      Follows (payloadType :: types) ((payloadType, ledgerNoErrors) :: sent) code

namespace Follows

variable {types : List UInt8} {sent : List (UInt8 × Nat)} {code : Nat}

theorem types_prefix (h : Follows types sent code) : sent.map Prod.fst <+: types := by
  induction h with
  | last payloadType code => exact List.prefix_refl _
  | refused payloadType types _ => exact ⟨types, rfl⟩
  | next payloadType _ ih => exact List.prefix_cons_inj _ |>.mpr ih

/-- Without a refusal all the chunks are sent. -/
theorem types_eq (h : Follows types sent code) (hall : ∀ e ∈ sent, e.2 = ledgerNoErrors) :
    sent.map Prod.fst = types := by
  induction h with
  | last payloadType code => rfl
  | refused payloadType types hne => exact absurd (hall _ List.mem_cons_self) hne
  | next payloadType _ ih =>
      rw [List.map_cons, ih fun e he => hall e (List.mem_cons_of_mem _ he)]

theorem eq_of_singleton_eq {α : Type} {x e : α} {before after : List α}
    (h : [x] = before ++ e :: after) : e = x ∧ after = [] := by
  cases before with
  | nil => exact ⟨(List.cons.inj h).1.symm, (List.cons.inj h).2.symm⟩
  | cons first before => exact absurd (List.cons.inj h).2 (by simp)

/-- Nothing is sent after a refusal, whose code is returned. -/
theorem stops (h : Follows types sent code) {before after : List (UInt8 × Nat)} {e : UInt8 × Nat}
    (hsent : sent = before ++ e :: after) (hne : e.2 ≠ ledgerNoErrors) :
    after = [] ∧ code = e.2 := by
  induction h generalizing before with
  | last payloadType code =>
      obtain ⟨rfl, rfl⟩ := eq_of_singleton_eq hsent
      exact ⟨rfl, rfl⟩
  | refused payloadType types _ =>
      obtain ⟨rfl, rfl⟩ := eq_of_singleton_eq hsent
      exact ⟨rfl, rfl⟩
  | next payloadType _ ih =>
      cases before with
      | nil =>
          obtain ⟨rfl, -⟩ := List.cons.inj hsent
          exact absurd rfl hne
      | cons first before => exact ih (List.cons.inj hsent).2

end Follows

theorem sents_append (trace more : List ClientEvent) :
    sents (trace ++ more) = sents trace ++ sents more := List.filterMap_append

theorem sents_device (effects : List Effect) : sents (effects.map ClientEvent.device) = [] := by
  rw [sents, List.filterMap_map]
  exact List.filterMap_eq_nil_iff.mpr fun _ _ => rfl

section Run

variable {b : Buffering} {js : LedgerJs} {zx : Zxlib} {p : Platform} {env : Nat → Exchange}
variable {d d' : Device b}

/-- A status word is two bytes. -/
theorem exchange_sw_lt {e : Exchange} {a : Apdu} {reply : Reply}
    (h : (exchange zx p e a).outcome d = .done reply d') : reply.sw < 2 ^ 16 := by
  have hapdu : (handleApdu zx p a).wp (fun _ => True) d
      (fun answer _ => ∀ reply, answer = some reply → reply.sw < 2 ^ 16) (fun _ _ => True) := by
    apply wp_handleApdu
    refine ⟨fun _ _ => trivial, ?_⟩
    cases (dispatch zx p a).outcome d with
    | done value s => nofun
    | stop thrown s =>
        cases thrown with
        | code code answer =>
            rintro _ ⟨⟩
            exact code.value_lt
        | undefined stop => trivial
  have hexchange : (exchange zx p e a).wp (fun _ => True) d (fun reply _ => reply.sw < 2 ^ 16)
      (fun _ _ => True) := by
    unfold exchange
    rw [Command.wp_bind]
    refine hapdu.mono (fun answer s hsmall => ?_) fun _ _ => id
    cases answer with
    | some reply => exact (Command.wp_pure reply).mpr (hsmall reply rfl)
    | none =>
        simp only [Command.wp_bind, Command.wp_modify]
        split
        · simp only [appSign, Command.wp_bind, Command.wp_read, Command.wp_emit, true_and]
          split
          · exact (Command.wp_pure _).mpr ApduCode.signVerifyError.value_lt
          · exact (Command.wp_pure _).mpr ApduCode.ok.value_lt
        · exact (Command.wp_pure _).mpr ApduCode.commandNotAllowed.value_lt
  exact hexchange.of_done h

/-- One chunk is one exchange. -/
theorem signSendChunk_run {idx num : Nat} {payloadType : UInt8}
    (htype : payloadTypeOf idx num = payloadType) {chunk : ChunkData} {reply : Reply}
    (h : (exchange zx p (env idx) (chunkCommand (env idx) payloadType chunk)).outcome d =
      .done reply d') :
    (signSendChunk js zx p env idx num chunk).outcome d =
      .done (signResponse js reply.bytes) d' ∧
    (signSendChunk js zx p env idx num chunk).trace d =
      ((exchange zx p (env idx) (chunkCommand (env idx) payloadType chunk)).trace d).map
        ClientEvent.device ++ [.sent payloadType reply.sw] := by
  subst htype
  have hlabel : (Command.label ClientEvent.device (exchange zx p (env idx)
      (chunkCommand (env idx) (payloadTypeOf idx num) chunk))).outcome d = .done reply d' := h
  constructor
  · rw [signSendChunk, Command.outcome_bind_of_done hlabel]
    rfl
  · rw [signSendChunk, Command.trace_bind_of_done hlabel,
      ← signResponse_returnCode js (exchange_sw_lt h)]
    rfl

theorem sents_chunk (effects : List Effect) (payloadType : UInt8) (code : Nat) :
    sents (effects.map ClientEvent.device ++ [.sent payloadType code]) = [(payloadType, code)] := by
  rw [sents_append, sents_device]
  rfl

theorem mem_of_mem_chunk {effects : List Effect} {payloadType : UInt8} {code : Nat}
    {effect : Effect}
    (h : ClientEvent.device effect ∈ effects.map ClientEvent.device ++ [.sent payloadType code]) :
    effect ∈ effects := by
  simpa using h

theorem exchange_ends (d : Device b) (e : Exchange) (a : Apdu) :
    ∃ reply d', (exchange zx p e a).outcome d = .done reply d' := by
  have hends : (exchange zx p e a).wp (fun _ => True) d (fun _ _ => True) (fun _ _ => False) := by
    apply wp_exchange
    refine (handleApdu_ends a d).mono (fun answer _ _ => ?_) fun _ _ => id
    cases answer with
    | some _ => trivial
    | none => exact ⟨fun _ _ => trivial, fun _ => trivial⟩
  obtain ⟨reply, d', hend, -⟩ := hends.exists_done
  exact ⟨reply, d', hend⟩

/-- The loop ends with a chunk that is refused. -/
theorem signLoop_refused {chunkNum i : Nat} {chunk : ChunkData} {chunks : List ChunkData}
    {result response : ResponseSign}
    (h : (signSendChunk js zx p env (1 + i) chunkNum chunk).outcome d = .done response d')
    (hcode : response.returnCode ≠ ledgerNoErrors) :
    (signLoop js zx p env chunkNum i (chunk :: chunks) result).outcome d = .done response d' ∧
    (signLoop js zx p env chunkNum i (chunk :: chunks) result).trace d =
      (signSendChunk js zx p env (1 + i) chunkNum chunk).trace d := by
  rw [signLoop, Command.outcome_bind_of_done h, Command.trace_bind_of_done h, if_pos hcode]
  exact ⟨rfl, List.append_nil _⟩

/-- It goes on after one that is accepted. -/
theorem signLoop_accepted {chunkNum i : Nat} {chunk : ChunkData} {chunks : List ChunkData}
    {result response : ResponseSign}
    (h : (signSendChunk js zx p env (1 + i) chunkNum chunk).outcome d = .done response d')
    (hcode : response.returnCode = ledgerNoErrors) :
    (signLoop js zx p env chunkNum i (chunk :: chunks) result).outcome d =
      (signLoop js zx p env chunkNum (i + 1) chunks response).outcome d' ∧
    (signLoop js zx p env chunkNum i (chunk :: chunks) result).trace d =
      (signSendChunk js zx p env (1 + i) chunkNum chunk).trace d ++
        (signLoop js zx p env chunkNum (i + 1) chunks response).trace d' := by
  rw [signLoop, Command.outcome_bind_of_done h, Command.trace_bind_of_done h,
    if_neg (not_not.mpr hcode)]
  exact ⟨rfl, rfl⟩

/-- The last chunk ends the loop in any case. -/
theorem signLoop_single {chunkNum i : Nat} {chunk : ChunkData} {result response : ResponseSign}
    (h : (signSendChunk js zx p env (1 + i) chunkNum chunk).outcome d = .done response d') :
    (signLoop js zx p env chunkNum i [chunk] result).outcome d = .done response d' ∧
    (signLoop js zx p env chunkNum i [chunk] result).trace d =
      (signSendChunk js zx p env (1 + i) chunkNum chunk).trace d := by
  by_cases hcode : response.returnCode = ledgerNoErrors
  · obtain ⟨hend, htrace⟩ := @signLoop_accepted b js zx p env d d' chunkNum i chunk [] result
      response h hcode
    exact ⟨hend, htrace.trans (List.append_nil _)⟩
  · exact signLoop_refused h hcode

/-- Whatever the device answers, the loop ends and sends its first chunk. -/
theorem signLoop_ends (chunks : List ChunkData) (chunkNum i : Nat) (result : ResponseSign)
    (d : Device b) : ∃ (response : ResponseSign) (d' : Device b),
      (signLoop js zx p env chunkNum i chunks result).outcome d = .done response d' ∧
      (chunks ≠ [] → sents ((signLoop js zx p env chunkNum i chunks result).trace d) ≠ []) := by
  induction chunks generalizing i result d with
  | nil => exact ⟨result, d, rfl, fun hne => absurd rfl hne⟩
  | cons chunk chunks ih =>
      obtain ⟨reply, d', hend⟩ := @exchange_ends b zx p d (env (1 + i))
        (chunkCommand (env (1 + i)) (payloadTypeOf (1 + i) chunkNum) chunk)
      obtain ⟨hsend, hchunk⟩ := signSendChunk_run rfl hend
      have hsent : sents ((signSendChunk js zx p env (1 + i) chunkNum chunk).trace d) ≠ [] := by
        rw [hchunk, sents_chunk]
        exact List.cons_ne_nil _ _
      by_cases hcode : (signResponse js reply.bytes).returnCode = ledgerNoErrors
      · obtain ⟨hout, htrace⟩ :=
          @signLoop_accepted b js zx p env d d' chunkNum i chunk chunks result _ hsend hcode
        obtain ⟨response, d'', hrest, -⟩ := ih (i + 1) (signResponse js reply.bytes) d'
        refine ⟨response, d'', hout.trans hrest, fun _ hnil => hsent ?_⟩
        rw [htrace, sents_append] at hnil
        exact (List.append_eq_nil_iff.mp hnil).1
      · obtain ⟨hout, htrace⟩ :=
          @signLoop_refused b js zx p env d d' chunkNum i chunk chunks result _ hsend hcode
        exact ⟨_, d', hout, fun _ => htrace ▸ hsent⟩

/-- The chunks of a message, sent one after the other to a device that receives it:
they follow the order, only the whole message is parsed, and it is when no chunk is
refused. -/
theorem signLoop_run {chunkNum i : Nat} {chunk : ChunkData} {chunks : List ChunkData}
    (hi : 1 ≤ i) (hnum : chunkNum = i + (chunks.length + 1)) (hopen : d.txInitialized = true)
    (result : ResponseSign) : ∃ (response : ResponseSign) (d' : Device b),
      (signLoop js zx p env chunkNum i (chunk :: chunks) result).outcome d = .done response d' ∧
      Follows (List.replicate chunks.length p1Add ++ [p1Last])
        (sents ((signLoop js zx p env chunkNum i (chunk :: chunks) result).trace d))
        response.returnCode ∧
      (∀ message, .device (.parse message) ∈
          (signLoop js zx p env chunkNum i (chunk :: chunks) result).trace d →
        message = b.contents d.buffering ++ ((chunk :: chunks).map Subtype.val).flatten) ∧
      ((∀ e ∈ sents ((signLoop js zx p env chunkNum i (chunk :: chunks) result).trace d),
          e.2 = ledgerNoErrors) →
        .device (.parse (b.contents d.buffering ++
            ((chunk :: chunks).map Subtype.val).flatten)) ∈
          (signLoop js zx p env chunkNum i (chunk :: chunks) result).trace d) := by
  induction chunks generalizing i chunk d result with
  | nil =>
      -- the last chunk: the device parses what it holds, with this chunk behind it
      have htype : payloadTypeOf (1 + i) chunkNum = p1Last := by
        rw [payloadTypeOf, if_pos (by rw [hnum]; exact Nat.add_comm 1 i)]
      have hexchange : (exchange zx p (env (1 + i)) (chunkCommand (env (1 + i)) p1Last chunk)).wp
          (fun event => ∀ message, event = .parse message →
            message = b.contents d.buffering ++ chunk.val) d
          (fun reply _ => reply.sw = ledgerNoErrors →
            (env (1 + i)).pinValidated = true ∧ Stores d chunk.val) (fun _ _ => False) :=
        wp_exchange_last (fun _ heq => (Effect.parse.inj heq).symm)
          (fun effect hne message heq => absurd heq (hne message)) (fun _ _ hstored => hstored)
      obtain ⟨reply, d', hend, hstored⟩ := hexchange.exists_done
      obtain ⟨hsend, hchunk⟩ := signSendChunk_run htype hend
      obtain ⟨hout, htrace⟩ := @signLoop_single b js zx p env d d' chunkNum i chunk result _ hsend
      rw [htrace, hchunk, sents_chunk, List.map_singleton, List.flatten_singleton]
      refine ⟨_, d', hout, ?_, fun message hmem => ?_, fun hall => ?_⟩
      · rw [signResponse_returnCode js (exchange_sw_lt hend)]
        exact .last p1Last reply.sw
      · exact hexchange.1 _ (mem_of_mem_chunk hmem) message rfl
      · obtain ⟨hpin, hstores⟩ := hstored (hall _ (List.mem_singleton.mpr rfl))
        exact List.mem_append_left _ (List.mem_map_of_mem (exchange_parses hopen hpin hstores))
  | cons next chunks ih =>
      -- a chunk in the middle is stored, and the rest is sent only if it was accepted
      have htype : payloadTypeOf (1 + i) chunkNum = p1Add := by
        rw [payloadTypeOf, if_neg (by rw [hnum, List.length_cons]; omega), if_neg (by omega)]
      have hexchange : (exchange zx p (env (1 + i)) (chunkCommand (env (1 + i)) p1Add chunk)).wp
          (fun event => ∀ message, event ≠ .parse message) d
          (fun reply d' => reply.sw = ledgerNoErrors → d'.txInitialized = true ∧
            b.contents d'.buffering = b.contents d.buffering ++ chunk.val) (fun _ _ => False) :=
        wp_exchange_add hopen (fun _ _ _ hopen' hcontents _ => ⟨hopen', hcontents⟩)
          (fun _ _ hne heq => absurd heq hne)
      obtain ⟨reply, d', hend, hpost⟩ := hexchange.exists_done
      obtain ⟨hsend, hchunk⟩ := signSendChunk_run htype hend
      have hcode := signResponse_returnCode js (exchange_sw_lt hend)
      by_cases haccepted : reply.sw = ledgerNoErrors
      · obtain ⟨hopen', hcontents⟩ := hpost haccepted
        obtain ⟨hout, htrace⟩ := @signLoop_accepted b js zx p env d d' chunkNum i chunk
          (next :: chunks) result _ hsend (hcode.trans haccepted)
        obtain ⟨response, d'', hrest, hfollows, hparsed, hdelivered⟩ := @ih d' (i + 1) next
          (by omega) (by rw [hnum, List.length_cons]; omega) hopen' (signResponse js reply.bytes)
        rw [hcontents, List.append_assoc] at hparsed hdelivered
        rw [htrace, hchunk, sents_append, sents_chunk, haccepted, List.map_cons,
          List.flatten_cons]
        refine ⟨response, d'', hout.trans hrest, .next p1Add hfollows, fun message hmem => ?_,
          fun hall => ?_⟩
        · rcases List.mem_append.mp hmem with hmem | hmem
          · exact absurd rfl (hexchange.1 _ (mem_of_mem_chunk hmem) message)
          · exact hparsed message hmem
        · exact List.mem_append_right _
            (hdelivered fun e he => hall e (List.mem_append_right _ he))
      · obtain ⟨hout, htrace⟩ := @signLoop_refused b js zx p env d d' chunkNum i chunk
          (next :: chunks) result _ hsend (fun heq => haccepted (hcode.symm.trans heq))
        rw [htrace, hchunk, sents_chunk]
        refine ⟨_, d', hout, ?_, fun message hmem => ?_, fun hall => ?_⟩
        · rw [hcode]
          exact .refused p1Add _ haccepted
        · exact absurd rfl (hexchange.1 _ (mem_of_mem_chunk hmem) message)
        · exact absurd (hall _ (List.mem_singleton.mpr rfl)) haccepted

/-! ## A call -/

/-- The message is transferred, or the first refusal is reported: the chunks are sent
in order, all of them unless one is refused, and then nothing after that one, whose
code is returned. If a message is parsed it is this one, and it is parsed if no chunk
is refused. -/
structure Transfers (message : List UInt8) (code : Nat) (trace : List ClientEvent) : Prop where
  order : ∃ adds, (sents trace).map Prod.fst <+:
    p1Init :: (List.replicate adds p1Add ++ [p1Last])
  complete : (∀ e ∈ sents trace, e.2 = ledgerNoErrors) → ∃ adds,
    (sents trace).map Prod.fst = p1Init :: (List.replicate adds p1Add ++ [p1Last])
  stops : ∀ before e after, sents trace = before ++ e :: after → e.2 ≠ ledgerNoErrors →
    after = [] ∧ code = e.2
  parses : ∀ parsed, .device (.parse parsed) ∈ trace → parsed = message
  delivers : (∀ e ∈ sents trace, e.2 = ledgerNoErrors) → .device (.parse message) ∈ trace

/-- The first chunk that is sent is a first chunk. -/
theorem Transfers.head_type {message : List UInt8} {code : Nat} {trace : List ClientEvent}
    (h : Transfers message code trace) {payloadType : UInt8} {first : Nat}
    {after : List (UInt8 × Nat)} (hsents : sents trace = (payloadType, first) :: after) :
    payloadType = p1Init := by
  obtain ⟨adds, horder⟩ := h.order
  rw [hsents] at horder
  exact (List.cons_prefix_cons.mp horder).1

/-- The device accepts the path as a first chunk when it is long enough and one of
the application. -/
theorem acceptsInit_iff {e : Exchange} {path : List UInt32} {chunk : ChunkData}
    (h : js.serializePath path = some chunk.val) :
    AcceptsInit e chunk ↔
      e.pinValidated = true ∧ hdpathLenDefault ≤ path.length ∧ HasPrefix path := by
  obtain ⟨-, hbytes⟩ := serializePath_eq_some h
  have hcount : 4 * hdpathLenDefault ≤ chunk.val.length ↔ hdpathLenDefault ≤ path.length := by
    rw [hbytes, componentBytes_length]
    omega
  rw [AcceptsInit, hcount]
  refine and_congr_right fun _ => and_congr_right fun hfive => ?_
  rw [hbytes, mainnet_iff_hasPrefix, ofBytes_componentBytes hfive, hasPrefix_take]

theorem prepareChunks_eq_some {path : List UInt32} {message : List UInt8}
    {chunks : ChunkData × List ChunkData} (h : prepareChunks js path message = some chunks) :
    js.serializePath path = some chunks.1.val ∧ chunks.2 = js.slices message := by
  unfold prepareChunks at h
  split at h
  next => cases h
  next bytes hbytes =>
    cases h
    exact ⟨hbytes, rfl⟩

theorem sign_run {first : ChunkData} {slices : List ChunkData} {response : ResponseSign}
    (h : (signSendChunk js zx p env 1 (slices.length + 1) first).outcome d = .done response d') :
    (sign js zx p env (first, slices)).outcome d =
      (signLoop js zx p env (slices.length + 1) 1 slices ⟨response.returnCode, [], []⟩).outcome d' ∧
    (sign js zx p env (first, slices)).trace d =
      (signSendChunk js zx p env 1 (slices.length + 1) first).trace d ++
        (signLoop js zx p env (slices.length + 1) 1 slices
          ⟨response.returnCode, [], []⟩).trace d' := by
  rw [sign, Command.outcome_bind_of_done h, Command.trace_bind_of_done h]
  exact ⟨rfl, rfl⟩

/-- Without a message the path is sent as a last chunk. -/
theorem sign_empty (first : ChunkData) (d : Device b) :
    ∃ (response : ResponseSign) (d' : Device b) (code : Nat),
      (sign js zx p env (first, [])).outcome d = .done response d' ∧
      sents ((sign js zx p env (first, [])).trace d) = [(p1Last, code)] := by
  have htype : payloadTypeOf 1 (([] : List ChunkData).length + 1) = p1Last := rfl
  obtain ⟨reply, d', hend⟩ := @exchange_ends b zx p d (env 1) (chunkCommand (env 1) p1Last first)
  obtain ⟨hsend, hchunk⟩ := signSendChunk_run htype hend
  obtain ⟨hout, htrace⟩ := sign_run hsend
  refine ⟨_, d', reply.sw, hout, ?_⟩
  rw [htrace, hchunk, sents_append, sents_chunk]
  rfl

/-- A path that is refused is followed by another chunk. -/
theorem sign_refused {first : ChunkData} (hrefused : ¬ AcceptsInit (env 1) first)
    (chunk : ChunkData) (chunks : List ChunkData) (d : Device b) :
    ∃ (response : ResponseSign) (d' : Device b) (code : Nat) (after : List (UInt8 × Nat)),
      (sign js zx p env (first, chunk :: chunks)).outcome d = .done response d' ∧
      sents ((sign js zx p env (first, chunk :: chunks)).trace d) = (p1Init, code) :: after ∧
      code ≠ ledgerNoErrors ∧ after ≠ [] := by
  have htype : payloadTypeOf 1 ((chunk :: chunks).length + 1) = p1Init := by
    rw [payloadTypeOf, if_neg (by rw [List.length_cons]; omega), if_pos rfl]
  have hexchange : (exchange zx p (env 1) (chunkCommand (env 1) p1Init first)).wp
      (fun _ => True) d (fun reply _ => reply.sw ≠ ledgerNoErrors) (fun _ _ => False) :=
    wp_exchange_init (fun haccepted => absurd haccepted hrefused) (fun _ _ _ hne => hne)
  obtain ⟨reply, d', hend, hne⟩ := hexchange.exists_done
  obtain ⟨hsend, hchunk⟩ := signSendChunk_run htype hend
  obtain ⟨hout, htrace⟩ := sign_run hsend
  obtain ⟨response, d'', hrest, hsents⟩ := @signLoop_ends b js zx p env (chunk :: chunks)
    ((chunk :: chunks).length + 1) 1 ⟨(signResponse js reply.bytes).returnCode, [], []⟩ d'
  refine ⟨response, d'', reply.sw, _, hout.trans hrest, ?_, hne, hsents (List.cons_ne_nil _ _)⟩
  rw [htrace, hchunk, sents_append, sents_chunk]
  rfl

/-- A path that is accepted is followed by the message. -/
theorem sign_accepted {first : ChunkData} (haccepted : AcceptsInit (env 1) first)
    (chunk : ChunkData) (chunks : List ChunkData) (d : Device b) :
    ∃ (response : ResponseSign) (d' : Device b),
      (sign js zx p env (first, chunk :: chunks)).outcome d = .done response d' ∧
      Follows (p1Init :: (List.replicate chunks.length p1Add ++ [p1Last]))
        (sents ((sign js zx p env (first, chunk :: chunks)).trace d)) response.returnCode ∧
      (∀ parsed, .device (.parse parsed) ∈ (sign js zx p env (first, chunk :: chunks)).trace d →
        parsed = ((chunk :: chunks).map Subtype.val).flatten) ∧
      ((∀ e ∈ sents ((sign js zx p env (first, chunk :: chunks)).trace d), e.2 = ledgerNoErrors) →
        .device (.parse ((chunk :: chunks).map Subtype.val).flatten) ∈
          (sign js zx p env (first, chunk :: chunks)).trace d) := by
  have htype : payloadTypeOf 1 ((chunk :: chunks).length + 1) = p1Init := by
    rw [payloadTypeOf, if_neg (by rw [List.length_cons]; omega), if_pos rfl]
  have hexchange : (exchange zx p (env 1) (chunkCommand (env 1) p1Init first)).wp
      (fun event => ∀ message, event ≠ .parse message) d
      (fun reply d' => reply.sw = ledgerNoErrors ∧ d'.txInitialized = true ∧
        b.contents d'.buffering = []) (fun _ _ => False) :=
    wp_exchange_init (fun _ _ _ hok hopen hempty => ⟨hok, hopen, hempty⟩)
      (fun hrefused => absurd haccepted hrefused)
  obtain ⟨reply, d', hend, hok, hopen, hempty⟩ := hexchange.exists_done
  obtain ⟨hsend, hchunk⟩ := signSendChunk_run htype hend
  obtain ⟨hout, htrace⟩ := sign_run hsend
  obtain ⟨response, d'', hrest, hfollows, hparsed, hdelivered⟩ := @signLoop_run b js zx p env d'
    ((chunk :: chunks).length + 1) 1 chunk chunks le_rfl (Nat.add_comm _ 1) hopen
    ⟨(signResponse js reply.bytes).returnCode, [], []⟩
  rw [hempty, List.nil_append] at hparsed hdelivered
  rw [htrace, hchunk, sents_append, sents_chunk, hok]
  refine ⟨response, d'', hout.trans hrest, .next p1Init hfollows, fun parsed hmem => ?_,
    fun hall => ?_⟩
  · rcases List.mem_append.mp hmem with hmem | hmem
    · exact absurd rfl (hexchange.1 _ (mem_of_mem_chunk hmem) parsed)
    · exact hparsed parsed hmem
  · exact List.mem_append_right _ (hdelivered fun e he => hall e (List.mem_append_right _ he))

/-- Chunks that follow the order and carry the message transfer it. -/
theorem Follows.transfers {trace : List ClientEvent} {code adds : Nat} {message : List UInt8}
    (h : Follows (p1Init :: (List.replicate adds p1Add ++ [p1Last])) (sents trace) code)
    (hparses : ∀ parsed, .device (.parse parsed) ∈ trace → parsed = message)
    (hdelivers : (∀ e ∈ sents trace, e.2 = ledgerNoErrors) → .device (.parse message) ∈ trace) :
    Transfers message code trace where
  order := ⟨adds, h.types_prefix⟩
  complete := fun hall => ⟨adds, h.types_eq hall⟩
  stops := fun _ _ _ hsent hne => h.stops hsent hne
  parses := hparses
  delivers := hdelivers

/-- The client transfers the message or reports the first refusal exactly when there
is a message and the device accepts the path. -/
theorem sign_transfers_iff {path : List UInt32} {message : List UInt8}
    {chunks : ChunkData × List ChunkData} (h : prepareChunks js path message = some chunks)
    (d : Device b) : ∃ (response : ResponseSign) (d' : Device b),
      (sign js zx p env chunks).outcome d = .done response d' ∧
      (Transfers message response.returnCode ((sign js zx p env chunks).trace d) ↔
        message ≠ [] ∧ (env 1).pinValidated = true ∧ hdpathLenDefault ≤ path.length ∧
          HasPrefix path) := by
  obtain ⟨first, slices⟩ := chunks
  obtain ⟨hpath, rfl⟩ := prepareChunks_eq_some h
  rw [← acceptsInit_iff hpath]
  have hnil := slices_eq_nil_iff js message
  have hflat := js.flatten_slices message
  cases hslices : js.slices message with
  | nil =>
      -- without a message there is a first chunk alone, and no last one
      obtain ⟨response, d', code, hend, hsents⟩ := @sign_empty b js zx p env first d
      refine ⟨response, d', hend, iff_of_false (fun htransfers => ?_) fun hcondition => ?_⟩
      · exact absurd (htransfers.head_type hsents) (by decide)
      · exact hcondition.1 (hnil.mp hslices)
  | cons chunk chunks =>
      have hne : message ≠ [] := fun heq => by
        rw [hnil.mpr heq] at hslices
        cases hslices
      by_cases haccepted : AcceptsInit (env 1) first
      · obtain ⟨response, d', hend, hfollows, hparsed, hdelivered⟩ :=
          @sign_accepted b js zx p env first haccepted chunk chunks d
        rw [hslices] at hflat
        rw [hflat] at hparsed hdelivered
        exact ⟨response, d', hend,
          iff_of_true (hfollows.transfers hparsed hdelivered) ⟨hne, haccepted⟩⟩
      · -- the answer to the first chunk is not looked at, so another chunk follows
        obtain ⟨response, d', code, after, hend, hsents, hcode, hafter⟩ :=
          @sign_refused b js zx p env first haccepted chunk chunks d
        refine ⟨response, d', hend, iff_of_false (fun htransfers => ?_) fun hcondition => ?_⟩
        · exact hafter (htransfers.stops [] _ after hsents hcode).1
        · exact haccepted hcondition.2

end Run

/-! ## Calls -/

/-- The PIN is entered, and the user approves. -/
def Exchange.approving : Exchange := ⟨true, true⟩

theorem componentBytes_length_le {path : List UInt32} (h : path.length ≤ 6) :
    (componentBytes path).length ≤ chunkSize := by
  rw [componentBytes_length, chunkSize]
  omega

def pathChunk (path : List UInt32) (h : path.length ≤ 6) : ChunkData :=
  ⟨componentBytes path, componentBytes_length_le h⟩

/-- A transaction with 300 bytes of data, which takes two chunks. -/
def longMessage : List UInt8 :=
  [0xf9, 0x01, 0x3f, 0x80, 0x80, 0x80, 0x80, 0x80, 0xb9, 0x01, 0x2c] ++ List.replicate 300 7 ++
    [0x03, 0x80, 0x80, 0x80, 0x80, 0x80, 0xc4, 0xc3, 0x80, 0x80, 0xc0]

/-- It is transferred with the path of the example. -/
theorem sign_transfers_iff_example : ∃ (response : ResponseSign) (d' : Device Buffering.plain),
    (sign .reference Zxlib.reference Platform.reference (fun _ => .approving)
      (pathChunk shortPath (by decide), LedgerJs.reference.slices longMessage)).outcome
        (.initial emptyBuffer) = .done response d' ∧
    Transfers longMessage response.returnCode
      ((sign .reference Zxlib.reference Platform.reference (fun _ => .approving)
        (pathChunk shortPath (by decide), LedgerJs.reference.slices longMessage)).trace
          (.initial emptyBuffer)) := by
  have hprepare : prepareChunks .reference shortPath longMessage =
      some (pathChunk shortPath (by decide), LedgerJs.reference.slices longMessage) := rfl
  obtain ⟨response, d', hend, hiff⟩ := @sign_transfers_iff Buffering.plain .reference
    Zxlib.reference Platform.reference (fun _ => .approving) _ _ _ hprepare (.initial emptyBuffer)
  exact ⟨response, d', hend, hiff.mpr ⟨by decide, rfl, by decide, rfl, rfl⟩⟩

/-- Its chunks are all accepted. -/
example : sents ((sign .reference Zxlib.reference Platform.reference (fun _ => .approving)
    (pathChunk shortPath (by decide), LedgerJs.reference.slices longMessage)).trace
      (.initial emptyBuffer : Device Buffering.plain)) =
        [(p1Init, 0x9000), (p1Add, 0x9000), (p1Last, 0x9000)] := by
  decide +kernel

/-- A path with another coin type, which the device refuses. -/
def foreignPath : List UInt32 := [hdpath0Default, 0x80000000, 0x80000000, 0, 0]

/-- The chunks of an empty message, and those of a message with such a path. -/
theorem sents_example :
    sents ((sign .reference Zxlib.reference Platform.reference (fun _ => .approving)
      (pathChunk shortPath (by decide), LedgerJs.reference.slices [])).trace
        (.initial emptyBuffer)) = [(p1Last, 0x6987)] ∧
    sents ((sign .reference Zxlib.reference Platform.reference (fun _ => .approving)
      (pathChunk foreignPath (by decide), LedgerJs.reference.slices blank)).trace
        (.initial emptyBuffer)) = [(p1Init, 0x6984), (p1Last, 0x6987)] := by
  decide +kernel

/-- An empty message is not begun. A message is sent on after the path was refused,
and the code of the refusal is not what is returned. -/
theorem sign_not_transfers :
    (∀ code, ¬ Transfers [] code
      ((sign .reference Zxlib.reference Platform.reference (fun _ => .approving)
        (pathChunk shortPath (by decide), LedgerJs.reference.slices [])).trace
          (.initial emptyBuffer))) ∧
    (∀ code, ¬ Transfers blank code
      ((sign .reference Zxlib.reference Platform.reference (fun _ => .approving)
        (pathChunk foreignPath (by decide), LedgerJs.reference.slices blank)).trace
          (.initial emptyBuffer))) ∧
    ((sign .reference Zxlib.reference Platform.reference (fun _ => .approving)
      (pathChunk foreignPath (by decide), LedgerJs.reference.slices blank)).outcome
        (.initial emptyBuffer)).result = .ok ⟨0x6987, [], []⟩ := by
  refine ⟨fun code htransfers => ?_, fun code htransfers => ?_, by decide +kernel⟩
  · exact absurd (htransfers.head_type sents_example.1) (by decide)
  · exact absurd (htransfers.stops [] _ _ sents_example.2 (by decide)).1 (by decide)

end LedgerMatrix
