import LedgerMatrix.Display.Validity

/-! # After a rejection

A transaction that is rejected stays in the context of the device: the pointer to
the transaction object is set before anything is read, and nothing resets it. So
the items of a rejected transaction are there to be displayed, as far as they
were read.
-/

namespace LedgerMatrix

open Imperative RecursiveLength

/-! ## The transaction pointer -/

section Frame

theorem fail_keeps {σ τ α : Type} {part : σ → τ} (code : ParserError) :
    (fail code : Parser σ α).Keeps part := Command.Keeps.stop _

theorem fault_keeps {σ τ α : Type} {part : σ → τ} (cause : Fault) :
    (fault cause : Parser σ α).Keeps part := Command.Keeps.stop _

theorem load_keeps {σ τ : Type} {part : σ → τ} (mem : List UInt8) (pointer : Option Nat) :
    (load mem pointer : Parser σ UInt8).Keeps part := by
  unfold load
  split
  · exact fault_keeps _
  · split
    · exact fault_keeps _
    · exact Command.Keeps.pure _

theorem readBytes_keeps (count : Nat) : (readBytes count).Keeps ParserContext.txObj := by
  refine Command.Keeps.bind Command.Keeps.read fun ctx => ?_
  split
  · exact fail_keeps _
  · exact Command.Keeps.bind (Command.Keeps.modify fun _ => rfl) fun _ =>
      Command.Keeps.bind (Command.Keeps.emit _) fun _ => Command.Keeps.pure _

/-- The part of a reader's state that it does not touch. -/
abbrev pointerSet {σ : Type} (s : ParserContext × σ) : Bool := s.1.txObj

theorem rlpReadPayload_keeps : rlpReadPayload.Keeps pointerSet := by
  refine Command.Keeps.bind Command.Keeps.read fun s => ?_
  exact Command.Keeps.bind ((readBytes_keeps _).zoom fun _ _ h => h) fun _ =>
    Command.Keeps.modify fun _ => rfl

theorem rlpReadShort_keeps (kind : Kind) (rlpLen : Nat) :
    (rlpReadShort kind rlpLen).Keeps pointerSet :=
  Command.Keeps.bind (Command.Keeps.modify fun _ => rfl) fun _ => rlpReadPayload_keeps

theorem rlpLenLoop_keeps (mem : List UInt8) (rlpLenPtr : Option Nat) (left i : Nat) :
    (rlpLenLoop mem rlpLenPtr left i).Keeps pointerSet := by
  induction left generalizing i with
  | zero => exact Command.Keeps.pure _
  | succ left ih =>
      refine Command.Keeps.bind (load_keeps _ _) fun byte => ?_
      exact Command.Keeps.bind (Command.Keeps.modify fun _ => rfl) fun _ => ih (i + 1)

theorem rlpReadLong_keeps (mem : List UInt8) (kind : Kind) (bytesLen : Nat) :
    (rlpReadLong mem kind bytesLen).Keeps pointerSet := by
  refine Command.Keeps.bind (Command.Keeps.modify fun _ => rfl) fun _ => ?_
  refine Command.Keeps.bind ((readBytes_keeps _).zoom fun _ _ h => h) fun rlpLenPtr => ?_
  refine Command.Keeps.bind (Command.Keeps.modify fun _ => rfl) fun _ => ?_
  exact Command.Keeps.bind (rlpLenLoop_keeps mem rlpLenPtr bytesLen 0) fun _ =>
    rlpReadPayload_keeps

theorem rlpRead_keeps (mem : List UInt8) : (rlpRead mem).Keeps pointerSet := by
  refine Command.Keeps.bind ((readBytes_keeps _).zoom fun _ _ h => h) fun prefixPtr => ?_
  refine Command.Keeps.bind (load_keeps _ _) fun first => ?_
  split
  · exact Command.Keeps.modify fun _ => rfl
  split
  · exact rlpReadShort_keeps _ _
  split
  · exact rlpReadLong_keeps _ _ _
  split
  · exact rlpReadShort_keeps _ _
  · exact rlpReadLong_keeps _ _ _

theorem rlpParseStreamLoop_keeps (mem : List UInt8) {n : Nat} (maxFields passes : Nat) :
    (rlpParseStreamLoop mem maxFields passes :
      Parser (ParserContext × Fields n) Unit).Keeps pointerSet := by
  induction passes with
  | zero =>
      refine Command.Keeps.bind Command.Keeps.read fun s => ?_
      split
      · exact fault_keeps _
      · exact Command.Keeps.pure _
  | succ passes ih =>
      refine Command.Keeps.bind Command.Keeps.read fun s => ?_
      split
      · split
        · refine Command.Keeps.bind ((rlpRead_keeps mem).zoom fun _ _ h => h) fun _ => ?_
          exact Command.Keeps.bind (Command.Keeps.modify fun _ => rfl) fun _ => ih
        · exact fault_keeps _
      · exact Command.Keeps.pure _

theorem read_keeps (mem : List UInt8) : (_read mem).Keeps pointerSet := by
  have hstream : (rlpParseStream mem 1 : Parser (ParserContext × Fields 1) Unit).Keeps
      pointerSet :=
    Command.Keeps.bind (Command.Keeps.modify fun _ => rfl) fun _ =>
      rlpParseStreamLoop_keeps mem 1 1
  refine Command.Keeps.bind (Command.Keeps.scope (hstream.zoom fun _ _ h => h)) fun _ => ?_
  refine Command.Keeps.bind Command.Keeps.read fun s => ?_
  split
  · exact fail_keeps _
  split
  · exact fail_keeps _
  · exact (Command.Keeps.unit _).zoom fun _ _ _ => rfl

/-- Parsing sets the transaction pointer, unless there is nothing to parse. It is
set for an error as well. -/
theorem parserParse_txObj (bytes : List UInt8) (s : ParserState) :
    ((parserParse bytes (some 0) bytes.length).outcome s).state.ctx.txObj =
      (s.ctx.txObj || u16 bytes.length != 0) := by
  by_cases hzero : u16 bytes.length = 0
  · have hinit : (parserInitContext (some 0) (u16 bytes.length)).outcome s = .stop
        (.error .initContextEmpty)
        { s with ctx := { s.ctx with offset := 0, buffer := none, bufferLen := 0 } } := by
      rw [hzero]
      rfl
    rw [parserParse, Command.outcome_bind_of_stop hinit, hzero]
    simp [Outcome.state]
  · have hinit : (parserInitContext (some 0) (u16 bytes.length)).outcome s =
        .done () ⟨⟨some 0, u16 bytes.length, 0, true⟩, ParserTx.zero⟩ := by
      have hsome : ¬ (u16 bytes.length = 0 ∨ some 0 = none) := by simpa using hzero
      simp only [parserInitContext, hsome, if_false]
      rfl
    have hkeeps : (Command.zoom ParserState.both (_read bytes)).Keeps fun s => s.ctx.txObj :=
      (read_keeps bytes).zoom fun _ _ h => h
    rw [parserParse, Command.outcome_bind_of_done hinit]
    exact (hkeeps _).trans (by simp [hzero])

theorem txParse_txObj (zx : Zxlib) (buffer : List UInt8) (s : ParserState) :
    ((txParse zx buffer).outcome s).state.ctx.txObj =
      (s.ctx.txObj || u16 buffer.length != 0) := by
  refine (Command.handle_state (fun s => s.ctx.txObj) ?_ s).trans ?_
  · rintro (code | cause)
    · exact Command.Keeps.pure _
    · exact fault_keeps _
  refine (Command.bind_state (fun s => s.ctx.txObj) (fun _ => ?_) s).trans
    (parserParse_txObj buffer s)
  -- validation only reads
  refine Command.Keeps.bind Command.Keeps.read fun t => ?_
  refine Command.Keeps.bind ?_ fun _ => Command.Keeps.pure _
  exact (Command.Keeps.unit _).zoom fun _ _ _ => rfl

end Frame

/-! ## What can be shown after a rejection -/

section Rejected

variable {zx : Zxlib}

/-- Every call that asks for the number of items or for an item is answered with
an error, whatever the memory holds. -/
def NothingShown (zx : Zxlib) (state : ParserState) : Prop :=
  (∀ {σ : Type} (s : σ), ∃ code, (txGetNumItems state : Command Event ZxStop σ Nat).outcome s =
    .stop (.error code) s) ∧
  ∀ (mem : List UInt8) (displayIdx : Int) (pageIdx : Nat) (d : Display), -128 ≤ displayIdx →
    displayIdx ≤ 127 → ∃ code d',
      (txGetItem zx mem state displayIdx pageIdx).outcome d = .stop (.error code) d'

/-- The buffers are parsed one after the other, and each is rejected with a text. -/
inductive Rejections (zx : Zxlib) : ParserState → List (List UInt8) → ParserState → Prop where
  | nil (state : ParserState) : Rejections zx state [] state
  | cons {before between after : ParserState} {buffer : List UInt8} {buffers : List (List UInt8)}
      {text : String}
      (rejected : (txParse zx buffer).outcome before = .done (some text) between)
      (later : Rejections zx between buffers after) :
      Rejections zx before (buffer :: buffers) after

/-- Whether anything is shown depends on the transaction pointer alone. -/
theorem nothingShown_iff (state : ParserState) :
    NothingShown zx state ↔ state.ctx.txObj = false := by
  constructor
  · rintro ⟨hnumItems, -⟩
    obtain ⟨code, hend⟩ := hnumItems ()
    by_contra hset
    have hdone : (parserGetNumItems state : Parser Unit Nat).outcome () =
        .done (u8 (displayCount + state.txObj.extraToFieldsItems * 3)) () := by
      rw [parserGetNumItems, if_neg (by simpa using hset)]
      rfl
    rw [txGetNumItems, Command.outcome_handle_of_done hdone] at hend
    cases hend
  · intro hunset
    have hnumItems {σ : Type} (s : σ) :
        (txGetNumItems state : Command Event ZxStop σ Nat).outcome s =
          .stop (.error .unknown) s := by
      have hstop : (parserGetNumItems state : Parser σ Nat).outcome s =
          .stop (.error .unexpectedError) s := by
        rw [parserGetNumItems, if_pos (by simp [hunset])]
        rfl
      rw [txGetNumItems, Command.outcome_handle_of_stop hstop]
      rfl
    refine ⟨fun s => ⟨_, hnumItems s⟩, fun mem displayIdx pageIdx d _ _ => ?_⟩
    exact ⟨_, _, Command.outcome_bind_of_stop (hnumItems d)⟩

/-- The pointer is set by the first buffer that is not empty, and stays set. -/
theorem Rejections.txObj_iff {before after : ParserState} {buffers : List (List UInt8)}
    (h : Rejections zx before buffers after) :
    after.ctx.txObj = false ↔
      before.ctx.txObj = false ∧ ∀ buffer ∈ buffers, u16 buffer.length = 0 := by
  induction h with
  | nil state => simp
  | @cons before between after buffer buffers text rejected later ih =>
      have hpointer := txParse_txObj zx buffer before
      rw [rejected] at hpointer
      rw [ih, List.forall_mem_cons, ← and_assoc]
      refine and_congr_left fun _ => ?_
      simp only [Outcome.state] at hpointer
      rw [hpointer, Bool.or_eq_false_iff, bne_eq_false_iff_eq]

/-- After rejections nothing is shown exactly when no transaction was ever
parsed, and all that was rejected were empty buffers. -/
theorem nothingShown_iff_nothing_parsed {before after : ParserState} {buffers : List (List UInt8)}
    (h : Rejections zx before buffers after) :
    NothingShown zx after ↔
      before.ctx.txObj = false ∧ ∀ buffer ∈ buffers, u16 buffer.length = 0 :=
  (nothingShown_iff after).trans h.txObj_iff

theorem nothingShown_iff_nothing_parsed_empty :
    NothingShown Zxlib.reference ParserState.initial ↔
      ParserState.initial.ctx.txObj = false ∧
        ∀ buffer ∈ [([] : List UInt8)], u16 buffer.length = 0 := by
  have hempty : (txParse Zxlib.reference []).outcome .initial =
      .done (some "Initialized empty context") .initial := by decide +kernel
  exact nothingShown_iff_nothing_parsed (.cons hempty (.nil _))

/-- The state that parsing these bytes leaves. -/
def txParsedState (buffer : List UInt8) (state : ParserState) : ParserState :=
  ((txParse Zxlib.reference buffer).outcome state).state

/-- When the one byte `80` is rejected, the first item follows a null pointer. When
no bytes are rejected, the transaction that was accepted before is displayed. -/
theorem rejected_still_shown :
    (∃ text d, (txParse Zxlib.reference [0x80]).outcome .initial =
        .done (some text) (txParsedState [0x80] .initial) ∧
      ¬ NothingShown Zxlib.reference (txParsedState [0x80] .initial) ∧
      (txGetItem Zxlib.reference [0x80] (txParsedState [0x80] .initial) 0 0).outcome
        ⟨List.replicate 40 0, List.replicate 40 0, 0⟩ = .stop (.fault .nullPointer) d) ∧
    ∃ text d, (txParse Zxlib.reference blank).outcome .initial =
        .done none (txParsedState blank .initial) ∧
      (txParse Zxlib.reference []).outcome (txParsedState blank .initial) =
        .done (some text) (txParsedState [] (txParsedState blank .initial)) ∧
      (txGetItem Zxlib.reference blank (txParsedState [] (txParsedState blank .initial)) 6
        0).outcome ⟨List.replicate 40 0, List.replicate 40 0, 0⟩ = .done () d ∧
      cString d.outKey = ascii "ChainID" ∧ cString d.outVal = ascii "3" := by
  constructor
  · refine ⟨"Unrecognized error code",
      ⟨snprintf (ascii "Nonce") (clearedKey 40), clearedValue 40, 1⟩, by decide +kernel, ?_, ?_⟩
    · rw [nothingShown_iff]
      decide +kernel
    · decide +kernel
  · refine ⟨"Initialized empty context",
      ⟨snprintf (ascii "ChainID") (clearedKey 40), snprintf (ascii "3") (clearedValue 40), 1⟩, ?_⟩
    decide +kernel

end Rejected

end LedgerMatrix
