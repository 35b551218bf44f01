import LedgerMatrix.Device.Handlers
import LedgerMatrix.Display.Validity

/-! # Signing sessions

A message is parsed only at the end of a session: a first chunk that was accepted,
then chunks that were all stored in full, with nothing in between that another
first chunk or an address request could have left behind. This holds in every run
of commands from the start, because the flag that says that a message is being
received is set only while such a session is on.
-/

namespace LedgerMatrix

open Imperative

/-! ## Chunks -/

namespace Apdu

variable {a : Apdu} {payloadType payloadType' : UInt8}

theorem Chunk.type_unique (h : a.Chunk payloadType) (h' : a.Chunk payloadType') :
    payloadType = payloadType' :=
  h.type_eq.symm.trans h'.type_eq

/-- A chunk of one type is not a chunk of another. -/
theorem Chunk.not_of_ne (h : a.Chunk payloadType) (hne : payloadType ≠ payloadType') :
    ¬ a.Chunk payloadType' := fun h' => hne (h.type_unique h')

end Apdu

section Session

variable {b : Buffering} (zx : Zxlib) (p : Platform)

/-- The device when it starts. Only the buffer has a past. -/
def Device.initial (buffering : b.State) : Device b where
  txInitialized := false
  hdPath := Vector.replicate hdpathLenDefault 0
  buffering := buffering
  ctxParsedTx := .initial
  review := none

/-- The device after some commands. -/
def deviceAfter (d : Device b) (frames : List Apdu) : Device b :=
  frames.foldl (fun d a => ((handleApdu zx p a).outcome d).state) d

/-- The bytes of the chunks that add to a message. -/
def received (frames : List Apdu) : List UInt8 :=
  ((frames.filter fun a => a.Chunk p1Add).map Apdu.data).flatten

/-- After the commands `before`, the chunk `init` opened a session, which is still on
after the commands `after`. -/
structure Session (d : Device b) (before : List Apdu) (init : Apdu) (after : List Apdu) :
    Prop where
  init_chunk : init.Chunk p1Init
  init_ok : ∃ d', (handleApdu zx p init).outcome (deviceAfter zx p d before) =
    .done (some ⟨[], ApduCode.ok.value⟩) d'
  path_length : 4 * hdpathLenDefault ≤ init.data.length
  path_mainnet : init.path.Mainnet
  no_init : ∀ a ∈ after, ¬ a.Chunk p1Init
  no_getAddr : ∀ a ∈ after, ¬ a.Reaches insGetAddr
  no_last : ∀ a ∈ after, ¬ a.Chunk p1Last
  stored : ∀ first a rest, after = first ++ a :: rest → a.Chunk p1Add →
    Stores (deviceAfter zx p d (before ++ init :: first)) a.data

/-- While the flag is set a session is on, and the path and the buffer are what it
made them. -/
def Tracks (d : Device b) (frames : List Apdu) (now : Device b) : Prop :=
  now.txInitialized = true → ∃ before init after, frames = before ++ init :: after ∧
    Session zx p d before init after ∧ now.hdPath = init.path ∧
    b.contents now.buffering = received after

variable {zx p} {d : Device b}

@[simp] theorem deviceAfter_concat (frames : List Apdu) (a : Apdu) :
    deviceAfter zx p d (frames ++ [a]) =
      ((handleApdu zx p a).outcome (deviceAfter zx p d frames)).state := by
  rw [deviceAfter, List.foldl_append]
  rfl

theorem received_append (frames more : List Apdu) :
    received (frames ++ more) = received frames ++ received more := by
  simp only [received, List.filter_append, List.map_append, List.flatten_append]

theorem received_singleton {a : Apdu} (h : a.Chunk p1Add) : received [a] = a.data := by
  simp [received, h]

theorem received_singleton_of_not {a : Apdu} (h : ¬ a.Chunk p1Add) : received [a] = [] := by
  simp [received, h]

variable {before after : List Apdu} {init a : Apdu}

/-- A session goes on with a command that neither opens nor closes one, and is
stored in full when it is to be stored. -/
theorem Session.extend (h : Session zx p d before init after) (hinit : ¬ a.Chunk p1Init)
    (haddr : ¬ a.Reaches insGetAddr) (hlast : ¬ a.Chunk p1Last)
    (hstored : a.Chunk p1Add → Stores (deviceAfter zx p d (before ++ init :: after)) a.data) :
    Session zx p d before init (after ++ [a]) := by
  refine ⟨h.init_chunk, h.init_ok, h.path_length, h.path_mainnet, ?_, ?_, ?_, ?_⟩
  · simpa only [List.forall_mem_append, List.forall_mem_singleton] using ⟨h.no_init, hinit⟩
  · simpa only [List.forall_mem_append, List.forall_mem_singleton] using ⟨h.no_getAddr, haddr⟩
  · simpa only [List.forall_mem_append, List.forall_mem_singleton] using ⟨h.no_last, hlast⟩
  · intro first x rest heq hx
    -- the chunk is the new command, or one of those before it
    rcases List.eq_nil_or_concat rest with rfl | ⟨rest, y, rfl⟩
    · obtain ⟨rfl, hsame⟩ := List.append_inj' heq rfl
      obtain rfl := (List.cons.inj hsame).1
      exact hstored hx
    · rw [List.concat_eq_append, ← List.cons_append, ← List.append_assoc] at heq
      exact h.stored first x rest (List.append_inj' heq rfl).1 hx

theorem Tracks.of_closed {now : Device b} {frames : List Apdu} (h : now.txInitialized = false) :
    Tracks zx p d frames now := fun hflag => absurd hflag (by rw [h]; decide)

theorem Tracks.start {frames : List Apdu} {now : Device b} (h : a.Chunk p1Init)
    (hlong : 4 * hdpathLenDefault ≤ a.data.length) (hmain : a.path.Mainnet)
    (hpath : now.hdPath = a.path) (hempty : b.contents now.buffering = []) :
    Tracks zx p d (frames ++ [a]) now := fun _ =>
  ⟨frames, a, [], rfl, ⟨h, ⟨_, init_accepted h hlong hmain⟩, hlong, hmain, nofun, nofun, nofun,
    fun _ _ _ heq => absurd heq (by simp)⟩, hpath, hempty⟩

/-- Tracking goes on with a command that a session goes on with. -/
theorem Tracks.extend {frames : List Apdu} {now : Device b}
    (h : Tracks zx p d frames (deviceAfter zx p d frames)) (hinit : ¬ a.Chunk p1Init)
    (haddr : ¬ a.Reaches insGetAddr) (hlast : ¬ a.Chunk p1Last)
    (hstored : a.Chunk p1Add → Stores (deviceAfter zx p d frames) a.data)
    (hflag : now.txInitialized = (deviceAfter zx p d frames).txInitialized)
    (hpath : now.hdPath = (deviceAfter zx p d frames).hdPath)
    (hcontents : b.contents now.buffering = b.contents (deviceAfter zx p d frames).buffering ++
      received [a]) : Tracks zx p d (frames ++ [a]) now := by
  intro hopen
  obtain ⟨before, init, after, rfl, hsession, hsame, hbytes⟩ := h (hflag.symm.trans hopen)
  refine ⟨before, init, after ++ [a], by simp, hsession.extend hinit haddr hlast hstored,
    hpath.trans hsame, ?_⟩
  rw [hcontents, hbytes, received_append]

/-- Every command keeps track of the session. -/
theorem Tracks.step {frames : List Apdu} (h : Tracks zx p d frames (deviceAfter zx p d frames))
    (a : Apdu) : (handleApdu zx p a).wp (fun _ => True) (deviceAfter zx p d frames)
      (fun _ now => Tracks zx p d (frames ++ [a]) now) (fun _ _ => False) := by
  by_cases haddr : a.Reaches insGetAddr
  · exact wp_getAddr haddr (fun _ => .of_closed rfl) (fun _ _ => ⟨trivial, .of_closed rfl⟩)
      (fun _ _ _ _ => .of_closed rfl)
  by_cases hinit : a.Chunk p1Init
  · exact wp_init hinit (fun _ => .of_closed rfl) (fun _ _ => .of_closed rfl)
      (fun hlong hmain => .start hinit hlong hmain rfl (b.contents_reset _))
  by_cases hadd : a.Chunk p1Add
  · have hlast : ¬ a.Chunk p1Last := hadd.not_of_ne (by decide)
    refine wp_add hadd .of_closed (fun _ _ => .of_closed rfl) fun _ hstores => ?_
    refine h.extend hinit haddr hlast (fun _ => hstores) rfl rfl ?_
    rw [hstores.contents, received_singleton hadd]
  by_cases hlast : a.Chunk p1Last
  · exact wp_last hlast .of_closed (fun _ _ => .of_closed rfl) (fun _ _ => trivial)
      (fun _ _ _ _ _ _ => ⟨trivial, .of_closed rfl⟩) (fun _ _ _ _ => .of_closed rfl)
  · refine wp_idle haddr hinit hadd hlast fun _ _ _ => ?_
    refine h.extend hinit haddr hlast (fun hadd' => absurd hadd' hadd) rfl rfl ?_
    rw [received_singleton_of_not hadd, List.append_nil]

/-- The session is tracked through every run that starts with no message. -/
theorem tracks (h : d.txInitialized = false) (frames : List Apdu) :
    Tracks zx p d frames (deviceAfter zx p d frames) := by
  induction frames using List.reverseRecOn with
  | nil => exact .of_closed h
  | append_singleton frames a ih =>
      obtain ⟨_, now, hend, hnow⟩ := (ih.step a).exists_done
      rw [deviceAfter_concat, hend]
      exact hnow

/-! ## What is parsed -/

/-- Only a last chunk that is stored in full behind an open message is parsed, and
what is parsed is the message with that chunk. -/
theorem parse_of_trace {now : Device b} {message : List UInt8}
    (h : Effect.parse message ∈ (handleApdu zx p a).trace now) :
    a.Chunk p1Last ∧ now.txInitialized = true ∧ Stores now a.data ∧
      message = b.contents now.buffering ++ a.data := by
  have hsafe : (handleApdu zx p a).wp (fun event => ∀ message, event = .parse message →
      a.Chunk p1Last ∧ now.txInitialized = true ∧ Stores now a.data ∧
        message = b.contents now.buffering ++ a.data) now (fun _ _ => True) (fun _ _ => True) := by
    by_cases haddr : a.Reaches insGetAddr
    · exact wp_getAddr haddr (fun _ => trivial) (fun _ _ => ⟨nofun, trivial⟩)
        (fun _ _ _ _ => trivial)
    by_cases hinit : a.Chunk p1Init
    · exact wp_init hinit (fun _ => trivial) (fun _ _ => trivial) (fun _ _ => trivial)
    by_cases hadd : a.Chunk p1Add
    · exact wp_add hadd (fun _ => trivial) (fun _ _ => trivial) (fun _ _ => trivial)
    by_cases hlast : a.Chunk p1Last
    · refine wp_last hlast (fun _ => trivial) (fun _ _ => trivial) ?_
        (fun _ _ _ _ _ _ => ⟨nofun, trivial⟩) (fun _ _ _ _ => trivial)
      intro hflag hstores message heq
      cases heq
      exact ⟨hlast, hflag, hstores, rfl⟩
    · exact wp_idle haddr hinit hadd hlast fun _ _ _ => trivial
  exact hsafe.1 _ h message rfl

theorem last_keeps {now : Device b} (h : a.Chunk p1Last) :
    ((handleApdu zx p a).outcome now).state.hdPath = now.hdPath := by
  have hkeeps : (handleApdu zx p a).wp (fun _ => True) now (fun _ d' => d'.hdPath = now.hdPath)
      (fun _ _ => False) :=
    wp_last h (fun _ => rfl) (fun _ _ => rfl) (fun _ _ => trivial)
      (fun _ _ _ _ _ _ => ⟨trivial, rfl⟩) (fun _ _ _ _ => rfl)
  obtain ⟨_, _, hend, hpath⟩ := hkeeps.exists_done
  rw [hend]
  exact hpath

/-- The command is answered with an error. -/
def Refused (zx : Zxlib) (p : Platform) (a : Apdu) (now : Device b) : Prop :=
  ∃ code answer now', code ≠ ApduCode.ok ∧
    (handleApdu zx p a).outcome now = .done (some ⟨answer, code.value⟩) now'

theorem refused_of_wp {now : Device b} (h : (handleApdu zx p a).wp (fun _ => True) now
    (fun reply _ => ∃ code answer, code ≠ ApduCode.ok ∧ reply = some ⟨answer, code.value⟩)
    (fun _ _ => False)) : Refused zx p a now := by
  obtain ⟨_, now', hend, code, answer, hne, rfl⟩ := h.exists_done
  exact ⟨code, answer, now', hne, hend⟩

/-- Behind these commands a chunk is taken: as a first chunk with a path of the
application, as a chunk that goes on with a session and is stored in full, or as a last
chunk that ends one, is stored in full and parsed. -/
inductive Taken (zx : Zxlib) (p : Platform) (d : Device b) (frames : List Apdu) (a : Apdu) :
    Prop where
  | init (chunk : a.Chunk p1Init) (long : 4 * hdpathLenDefault ≤ a.data.length)
      (mainnet : a.path.Mainnet)
      (answered : ∃ now, (handleApdu zx p a).outcome (deviceAfter zx p d frames) =
        .done (some ⟨[], ApduCode.ok.value⟩) now)
  | add (chunk : a.Chunk p1Add) (before : List Apdu) (init : Apdu) (after : List Apdu)
      (frames_eq : frames = before ++ init :: after) (session : Session zx p d before init after)
      (stored : Stores (deviceAfter zx p d frames) a.data)
      (answered : ∃ now, (handleApdu zx p a).outcome (deviceAfter zx p d frames) =
        .done (some ⟨[], ApduCode.ok.value⟩) now)
  | last (chunk : a.Chunk p1Last) (before : List Apdu) (init : Apdu) (after : List Apdu)
      (frames_eq : frames = before ++ init :: after) (session : Session zx p d before init after)
      (stored : Stores (deviceAfter zx p d frames) a.data)
      (parsed : Effect.parse (received after ++ a.data) ∈
        (handleApdu zx p a).trace (deviceAfter zx p d frames))

section Chunks

variable {frames : List Apdu}

theorem init_taken_or_refused (h : a.Chunk p1Init) :
    Taken zx p d frames a ∨ Refused zx p a (deviceAfter zx p d frames) := by
  by_cases hlong : 4 * hdpathLenDefault ≤ a.data.length
  · by_cases hmain : a.path.Mainnet
    · exact .inl (.init h hlong hmain ⟨_, init_accepted h hlong hmain⟩)
    · exact .inr (refused_of_wp (wp_init h (fun _ => ⟨_, _, by decide, rfl⟩)
        (fun _ _ => ⟨_, _, by decide, rfl⟩) fun _ hmain' => absurd hmain' hmain))
  · exact .inr (refused_of_wp (wp_init h (fun _ => ⟨_, _, by decide, rfl⟩)
      (fun hlong' => absurd hlong' hlong) fun hlong' => absurd hlong' hlong))

theorem add_taken_or_refused (htracks : Tracks zx p d frames (deviceAfter zx p d frames))
    (h : a.Chunk p1Add) :
    Taken zx p d frames a ∨ Refused zx p a (deviceAfter zx p d frames) := by
  by_cases hboth : (deviceAfter zx p d frames).txInitialized = true ∧
      Stores (deviceAfter zx p d frames) a.data
  · obtain ⟨hflag, hstores⟩ := hboth
    obtain ⟨before, init, after, heq, hsession, -⟩ := htracks hflag
    have hanswered : (handleApdu zx p a).wp (fun _ => True) (deviceAfter zx p d frames)
        (fun reply _ => reply = some ⟨[], ApduCode.ok.value⟩) (fun _ _ => False) :=
      wp_add h (fun hclosed => absurd (hflag.symm.trans hclosed) (by decide))
        (fun _ hfull => absurd hstores hfull) fun _ _ => rfl
    obtain ⟨_, now, hend, rfl⟩ := hanswered.exists_done
    exact .inl (.add h before init after heq hsession hstores ⟨now, hend⟩)
  · exact .inr (refused_of_wp (wp_add h (fun _ => ⟨_, _, by decide, rfl⟩)
      (fun _ _ => ⟨_, _, by decide, rfl⟩) fun hflag hstores => absurd ⟨hflag, hstores⟩ hboth))

theorem last_taken_or_refused (htracks : Tracks zx p d frames (deviceAfter zx p d frames))
    (h : a.Chunk p1Last) :
    Taken zx p d frames a ∨ Refused zx p a (deviceAfter zx p d frames) := by
  by_cases hboth : (deviceAfter zx p d frames).txInitialized = true ∧
      Stores (deviceAfter zx p d frames) a.data
  · obtain ⟨hflag, hstores⟩ := hboth
    obtain ⟨before, init, after, heq, hsession, -, hbytes⟩ := htracks hflag
    have hparsed := @last_parsed b zx p a _ h hflag hstores
    rw [hbytes] at hparsed
    exact .inl (.last h before init after heq hsession hstores hparsed)
  · exact .inr (refused_of_wp (wp_last h (fun _ => ⟨_, _, by decide, rfl⟩)
      (fun _ _ => ⟨_, _, by decide, rfl⟩) (fun _ _ => trivial)
      (fun hflag hstores => absurd ⟨hflag, hstores⟩ hboth)
      (fun hflag hstores => absurd ⟨hflag, hstores⟩ hboth)))

/-- A command to sign that is not taken is refused. -/
theorem taken_or_refused (htracks : Tracks zx p d frames (deviceAfter zx p d frames))
    (hins : a.byte offsetIns = insSign) :
    Taken zx p d frames a ∨ Refused zx p a (deviceAfter zx p d frames) := by
  have haddr : ¬ a.Reaches insGetAddr := fun haddr =>
    absurd (haddr.ins_eq.symm.trans hins) (by decide)
  by_cases hinit : a.Chunk p1Init
  · exact init_taken_or_refused hinit
  by_cases hadd : a.Chunk p1Add
  · exact add_taken_or_refused htracks hadd
  by_cases hlast : a.Chunk p1Last
  · exact last_taken_or_refused htracks hlast
  · exact .inr (refused_of_wp (wp_idle haddr hinit hadd hlast fun code answer hne =>
      ⟨code, answer, hne hins, rfl⟩))

end Chunks

/-- In every run from the start, a message is parsed only at the end of a session: a
first chunk that was accepted, then no other first chunk and no address request, and
chunks that were all stored in full. What is parsed is their payloads in order, and
the path is that of the first chunk. Every command to sign is an accepted first chunk,
a chunk of a session that is stored in full, a last chunk that is parsed, or refused. -/
theorem signing_session (s : b.State) (frames : List Apdu) (last : Apdu) :
    (∀ message, Effect.parse message ∈
        (handleApdu zx p last).trace (deviceAfter zx p (.initial s) frames) →
      last.Chunk p1Last ∧ Stores (deviceAfter zx p (.initial s) frames) last.data ∧
      ∃ before init after, frames = before ++ init :: after ∧
        Session zx p (.initial s) before init after ∧
        message = received after ++ last.data ∧
        (deviceAfter zx p (.initial s) (frames ++ [last])).hdPath = init.path) ∧
    (last.byte offsetIns = insSign → Taken zx p (.initial s) frames last ∨
      Refused zx p last (deviceAfter zx p (.initial s) frames)) := by
  have htracks : Tracks zx p (.initial s) frames (deviceAfter zx p (.initial s) frames) :=
    tracks rfl frames
  refine ⟨?_, taken_or_refused htracks⟩
  intro message hmem
  obtain ⟨hlast, hflag, hstores, rfl⟩ := parse_of_trace hmem
  obtain ⟨before, init, after, heq, hsession, hpath, hbytes⟩ := htracks hflag
  refine ⟨hlast, hstores, before, init, after, heq, hsession, by rw [hbytes], ?_⟩
  rw [deviceAfter_concat, last_keeps hlast, hpath]

end Session

/-! ## A session -/

/-- A platform that answers everything. -/
def Platform.reference : Platform where
  version := List.replicate 12 0
  fillAddress _ := some (ascii "MAN.2Uoz8g8jauMa2mtnwxrschj2qPJrE")
  sign _ message := some message

/-- The bytes of the path 44'/318'/0'/0/0. -/
def examplePath : List UInt8 :=
  [0x2c, 0x00, 0x00, 0x80, 0x3e, 0x01, 0x00, 0x80, 0x00, 0x00, 0x00, 0x80, 0x00, 0x00, 0x00, 0x00,
    0x00, 0x00, 0x00, 0x00]

def exampleInit : Apdu := .command insSign p1Init examplePath true (by decide)

def exampleLast : Apdu := .command insSign p1Last blank true (by decide)

def emptyBuffer : Buffering.plain.State := ⟨[], Nat.zero_le _⟩

def exampleAdd : Apdu := .command insSign p1Add (blank.take 10) true (by decide)

def exampleRest : Apdu := .command insSign p1Last (blank.drop 10) true (by decide)

/-- A chunk of a type that there is not. -/
def exampleOther : Apdu := .command insSign 3 [] true (by decide)

/-- Three commands make a session, and in it a chunk of another type is refused, as a
last chunk is without one. -/
theorem signing_session_example :
    (∃ before init after, [exampleInit, exampleAdd] = before ++ init :: after ∧
      Session Zxlib.reference Platform.reference (.initial emptyBuffer) before init after ∧
      blank = received after ++ exampleRest.data) ∧
    Refused Zxlib.reference Platform.reference exampleOther
      (deviceAfter Zxlib.reference Platform.reference (.initial emptyBuffer)
        [exampleInit, exampleAdd]) ∧
    Refused Zxlib.reference Platform.reference exampleLast (.initial emptyBuffer) := by
  refine ⟨?_, ?_, ?_⟩
  · obtain ⟨-, -, before, init, after, heq, hsession, hmessage, -⟩ :=
      (@signing_session _ Zxlib.reference Platform.reference emptyBuffer
        [exampleInit, exampleAdd] exampleRest).1 blank (by decide +kernel)
    exact ⟨before, init, after, heq, hsession, hmessage⟩
  · refine ((signing_session emptyBuffer [exampleInit, exampleAdd] exampleOther).2 rfl).resolve_left
      fun htaken => ?_
    cases htaken with
    | init chunk => exact absurd chunk (by decide)
    | add chunk => exact absurd chunk (by decide)
    | last chunk => exact absurd chunk (by decide)
  · refine ((signing_session emptyBuffer [] exampleLast).2 rfl).resolve_left fun htaken => ?_
    cases htaken with
    | init chunk => exact absurd chunk (by decide)
    | add chunk => exact absurd chunk (by decide)
    | last chunk before init after heq => exact absurd heq (by simp)

end LedgerMatrix
