import LedgerMatrix.Device.Session

/-! # What is approved

A review of a transaction is opened when the buffer was parsed and validated. The
device signs what the buffer holds, with the path that is set, at the time of the
approval. Nothing refuses a command while the review is on the screen, so these are
the ones of the review as long as no first chunk of another message and no request
for another address gets to its handler.
-/

namespace LedgerMatrix

open Imperative

section Approval

variable {b : Buffering} {zx : Zxlib} {p : Platform}

/-- The command puts a transaction on the screen, and is not answered yet. -/
structure Opens (zx : Zxlib) (p : Platform) (a : Apdu) (d d' : Device b) : Prop where
  unanswered : (handleApdu zx p a).outcome d = .done none d'
  review : Effect.review .appSign ∈ (handleApdu zx p a).trace d

/-- A first chunk, or a request for the address of another path. -/
def Action.Disturbs (path : HdPath) : Action → Prop
  | .apdu a => a.Chunk p1Init ∨
      a.Reaches insGetAddr ∧ 4 * hdpathLenDefault ≤ a.data.length ∧ a.path ≠ path
  | _ => False

/-- No message is being received, and the path and the message are what they were
when the review was opened. -/
structure Pending (opened now : Device b) : Prop where
  closed : now.txInitialized = false
  path_eq : now.hdPath = opened.hdPath
  contents_eq : b.contents now.buffering = b.contents opened.buffering

variable {d opened now : Device b} {a : Apdu}

/-- A transaction is put on the screen by a last chunk. -/
theorem Opens.last (h : Opens zx p a d opened) : a.Chunk p1Last := by
  have hsafe : (handleApdu zx p a).wp (fun event => event = .review .appSign → a.Chunk p1Last) d
      (fun _ _ => True) (fun _ _ => True) := by
    by_cases haddr : a.Reaches insGetAddr
    · exact wp_getAddr haddr (fun _ => trivial) (fun _ _ => ⟨nofun, trivial⟩)
        (fun _ _ _ _ => trivial)
    by_cases hinit : a.Chunk p1Init
    · exact wp_init hinit (fun _ => trivial) (fun _ _ => trivial) (fun _ _ => trivial)
    by_cases hadd : a.Chunk p1Add
    · exact wp_add hadd (fun _ => trivial) (fun _ _ => trivial) (fun _ _ => trivial)
    by_cases hlast : a.Chunk p1Last
    · exact wp_last hlast (fun _ => trivial) (fun _ _ => trivial) (fun _ _ => nofun)
        (fun _ _ _ _ _ _ => ⟨fun _ => hlast, trivial⟩) (fun _ _ _ _ => trivial)
    · exact wp_idle haddr hinit hadd hlast fun _ _ _ => trivial
  exact hsafe.1 _ h.review rfl

/-- The buffer then holds a valid transaction, which was parsed. -/
theorem Opens.pending (h : Opens zx p a d opened) :
    Pending opened opened ∧ opened.hdPath = d.hdPath ∧
      Effect.parse (b.contents opened.buffering) ∈ (handleApdu zx p a).trace d ∧
      ∃ t, Holds (b.contents opened.buffering) opened.ctxParsedTx t ∧ t.Valid zx := by
  have hopened : (handleApdu zx p a).wp (fun _ => True) d
      (fun reply d' => reply = none → d'.txInitialized = false ∧ d'.hdPath = d.hdPath ∧
        Effect.parse (b.contents d'.buffering) ∈ (handleApdu zx p a).trace d ∧
        ∃ t, Holds (b.contents d'.buffering) d'.ctxParsedTx t ∧ t.Valid zx)
      (fun _ _ => True) := by
    refine wp_last h.last (fun _ => nofun) (fun _ _ => nofun) (fun _ _ => trivial) ?_
      (fun _ _ _ _ => nofun)
    intro hflag hstores state t hholds hvalid
    refine ⟨trivial, fun _ => ⟨rfl, rfl, ?_, t, ?_, hvalid⟩⟩
    · have hparsed := @last_parsed b zx p a d h.last hflag hstores
      rwa [← hstores.contents] at hparsed
    · rwa [← hstores.contents] at hholds
  obtain ⟨hclosed, hpath, hparse, ht⟩ := hopened.of_done h.unanswered rfl
  exact ⟨⟨hclosed, rfl, rfl⟩, hpath, hparse, ht⟩

/-- A command that does not disturb keeps the review pending. -/
theorem Pending.apdu (h : Pending opened now) (hinit : ¬ a.Chunk p1Init)
    (haddr : a.Reaches insGetAddr → 4 * hdpathLenDefault ≤ a.data.length →
      a.path = opened.hdPath) :
    (handleApdu zx p a).wp (fun _ => True) now (fun _ now' => Pending opened now')
      (fun _ _ => False) := by
  have hopen : now.txInitialized = true → False := fun hflag =>
    absurd (hflag.symm.trans h.closed) (by decide)
  by_cases hreaches : a.Reaches insGetAddr
  · exact wp_getAddr hreaches (fun _ => ⟨rfl, h.path_eq, h.contents_eq⟩)
      (fun hlong _ => ⟨trivial, rfl, haddr hreaches hlong, h.contents_eq⟩)
      (fun hlong _ _ _ => ⟨rfl, haddr hreaches hlong, h.contents_eq⟩)
  by_cases hadd : a.Chunk p1Add
  · exact wp_add hadd (fun _ => h) (fun hflag => (hopen hflag).elim)
      (fun hflag => (hopen hflag).elim)
  by_cases hlast : a.Chunk p1Last
  · exact wp_last hlast (fun _ => h) (fun hflag => (hopen hflag).elim) (fun _ _ => trivial)
      (fun hflag => (hopen hflag).elim) (fun hflag => (hopen hflag).elim)
  · exact wp_idle hreaches hinit hadd hlast fun _ _ _ => h

/-- What does not disturb keeps the review pending. -/
theorem Pending.step (h : Pending opened now) {action : Action}
    (hquiet : ¬ action.Disturbs opened.hdPath) :
    (action.perform zx p).wp (fun _ => True) now (fun _ now' => Pending opened now')
      (fun _ _ => False) := by
  cases action with
  | apdu a =>
      simp only [Action.perform, Command.wp_bind, Command.wp_pure]
      exact h.apdu (fun hinit => hquiet (.inl hinit)) fun haddr hlong =>
        not_not.mp fun hne => hquiet (.inr ⟨haddr, hlong, hne⟩)
  | getItem displayIdx pageIdx display =>
      simp only [Action.perform, getItem, Command.wp_bind, Command.wp_read]
      split <;> exact (Command.wp_pure _).mpr ((Command.wp_pure ()).mpr h)
  | approve =>
      simp only [Action.perform, approve, Command.wp_bind, Command.wp_read]
      split
      · simp only [appSign, Command.wp_bind, Command.wp_read, Command.wp_emit]
        refine ⟨trivial, ?_⟩
        split <;> simpa only [Command.wp_pure, Command.wp_modify] using
          ⟨h.closed, h.path_eq, h.contents_eq⟩
      · exact (Command.wp_modify _).mpr ⟨h.closed, h.path_eq, h.contents_eq⟩
  | reject =>
      simp only [Action.perform, appReject, Command.wp_bind, Command.wp_pure, Command.wp_modify]
      exact ⟨h.closed, h.path_eq, h.contents_eq⟩

/-- It stays pending through any number of actions. -/
theorem Pending.run (h : Pending opened now) {actions : List Action}
    (hquiet : ∀ action ∈ actions, ¬ action.Disturbs opened.hdPath) :
    (performAll zx p actions).wp (fun _ => True) now (fun _ now' => Pending opened now')
      (fun _ _ => False) := by
  induction actions generalizing now with
  | nil => exact (Command.wp_pure ()).mpr h
  | cons action actions ih =>
      rw [performAll, Command.wp_bind]
      refine (h.step (hquiet action List.mem_cons_self)).mono (fun _ now' hnow => ?_) fun _ _ => id
      exact ih hnow fun later hmem => hquiet later (List.mem_cons_of_mem _ hmem)

/-- The device signs what the buffer holds with the path that is set. -/
theorem approve_signs {path : HdPath} {message : List UInt8}
    (h : Effect.sign path message ∈ (approve p).trace now) :
    path = now.hdPath ∧ message = b.contents now.buffering := by
  have hsafe : (approve p).wp (fun event => ∀ path message, event = .sign path message →
      path = now.hdPath ∧ message = b.contents now.buffering) now (fun _ _ => True)
      (fun _ _ => True) := by
    have hlength : u16 (b.contents now.buffering).length = (b.contents now.buffering).length := by
      have hle := (b.contents_le now.buffering).trans b.capacity_le
      exact Nat.mod_eq_of_lt (hle.trans_lt (by decide))
    simp only [approve, Command.wp_bind, Command.wp_read]
    split
    · simp only [appSign, Command.wp_bind, Command.wp_read, Command.wp_emit]
      constructor
      · intro path message heq
        cases heq
        rw [hlength, List.take_length]
        exact ⟨rfl, rfl⟩
      · split <;> simp only [Command.wp_pure, Command.wp_modify]
    · exact (Command.wp_modify _).mpr trivial
  exact hsafe.1 _ h path message rfl

/-- What is approved is what is signed, unless it was disturbed: the message is the
one that was parsed when the review was opened, and the path the one that was set
then. -/
theorem approved_is_signed (h : Opens zx p a d opened) {actions : List Action}
    (hquiet : ∀ action ∈ actions, ¬ action.Disturbs opened.hdPath) :
    ∃ (message : List UInt8) (t : Transaction) (now : Device b),
      Effect.parse message ∈ (handleApdu zx p a).trace d ∧
      Holds message opened.ctxParsedTx t ∧ t.Valid zx ∧
      (performAll zx p actions).outcome opened = .done () now ∧
      ∀ path signed, Effect.sign path signed ∈ (approve p).trace now →
        path = opened.hdPath ∧ path = d.hdPath ∧ signed = message := by
  obtain ⟨hpending, hpath, hparse, t, hholds, hvalid⟩ := h.pending
  obtain ⟨_, now, hend, hnow⟩ := (@Pending.run b zx p _ _ hpending _ hquiet).exists_done
  refine ⟨_, t, now, hparse, hholds, hvalid, hend, fun path signed hsign => ?_⟩
  obtain ⟨rfl, rfl⟩ := approve_signs hsign
  exact ⟨hnow.path_eq, hnow.path_eq.trans hpath, hnow.contents_eq⟩

end Approval

/-- The device with the review of the example on the screen. -/
def exampleOpened : Device Buffering.plain :=
  deviceAfter Zxlib.reference Platform.reference (.initial emptyBuffer)
    ([exampleInit] ++ [exampleLast])

theorem exampleLast_opens : Opens Zxlib.reference Platform.reference exampleLast
    (deviceAfter Zxlib.reference Platform.reference (.initial emptyBuffer) [exampleInit])
    exampleOpened where
  unanswered := by
    rw [exampleOpened, deviceAfter_concat]
    exact Outcome.eq_done (by decide +kernel)
  review := by decide +kernel

theorem exampleLast_trace : (handleApdu Zxlib.reference Platform.reference exampleLast).trace
    (deviceAfter Zxlib.reference Platform.reference (.initial emptyBuffer) [exampleInit]) =
      [.parse blank, .review .appSign] := by
  decide +kernel

/-- A page is looked at and a chunk is refused, and then what was shown is signed. -/
theorem approved_is_signed_example : ∃ now : Device Buffering.plain,
    (performAll Zxlib.reference Platform.reference
      [.getItem 0 0 ⟨[], List.replicate 40 0, 0⟩, .apdu exampleLast]).outcome exampleOpened =
        .done () now ∧
    ∀ path signed, Effect.sign path signed ∈ (approve Platform.reference).trace now →
      path = .ofBytes examplePath ∧ signed = blank := by
  have hquiet : ∀ action ∈ [Action.getItem 0 0 ⟨[], List.replicate 40 0, 0⟩, .apdu exampleLast],
      ¬ action.Disturbs exampleOpened.hdPath := by
    simp only [List.forall_mem_cons, Action.Disturbs, not_false_eq_true, true_and,
      List.not_mem_nil, false_imp_iff, implies_true, and_true]
    rintro (hinit | ⟨haddr, -⟩)
    · exact absurd hinit (by decide)
    · exact absurd haddr (by decide)
  obtain ⟨message, t, now, hparse, -, -, hend, hsigned⟩ :=
    approved_is_signed exampleLast_opens hquiet
  rw [exampleLast_trace] at hparse
  obtain rfl : message = blank := by simpa using hparse
  refine ⟨now, hend, fun path signed hsign => ?_⟩
  obtain ⟨hpath, -, hmessage⟩ := hsigned path signed hsign
  exact ⟨hpath.trans (by decide +kernel), hmessage⟩

/-! ## A review that is disturbed -/

/-- The bytes of the path 44'/318'/0'/0/1. -/
def otherPath : List UInt8 :=
  [0x2c, 0x00, 0x00, 0x80, 0x3e, 0x01, 0x00, 0x80, 0x00, 0x00, 0x00, 0x80, 0x00, 0x00, 0x00, 0x00,
    0x01, 0x00, 0x00, 0x00]

def otherInit : Apdu := .command insSign p1Init otherPath true (by decide)

def otherAddr : Apdu := .command insGetAddr 0 otherPath true (by decide)

/-- Another first chunk empties the buffer under the review, and a request for an
address replaces the path: what is signed is not what was shown. -/
theorem approved_differs :
    HdPath.ofBytes otherPath ≠ exampleOpened.hdPath ∧
    (performAll Zxlib.reference Platform.reference
        [.apdu exampleInit, .apdu exampleLast, .apdu otherInit, .approve]).trace
      (.initial emptyBuffer) =
        [.parse blank, .review .appSign, .sign (.ofBytes otherPath) []] ∧
    (performAll Zxlib.reference Platform.reference
        [.apdu exampleInit, .apdu exampleLast, .apdu otherAddr, .approve]).trace
      (.initial emptyBuffer) =
        [.parse blank, .review .appSign, .sign (.ofBytes otherPath) blank] := by
  decide +kernel

end LedgerMatrix
