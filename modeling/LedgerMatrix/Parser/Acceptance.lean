import LedgerMatrix.Parser.Rendering

/-! # Accepted bytes

A transaction is accepted when parsing and validation both return `parser_ok`.
The bytes of an accepted transaction determine it, and its items are displayed
as the table of the transaction says.
-/

namespace LedgerMatrix

open Imperative RecursiveLength

/-- `parser_parse` returned `parser_ok` on the bytes and left this state. -/
def Parsed (bytes : List UInt8) (state : ParserState) : Prop :=
  ∃ before, (parserParse bytes (some 0) bytes.length).outcome before = .done () state

/-- `parser_validate` returned `parser_ok` as well. -/
structure Accepted (zx : Zxlib) (bytes : List UInt8) (state : ParserState) : Prop where
  parsed : Parsed bytes state
  validated : (parserValidate zx bytes state).outcome () = .done () ()

/-- The item at an index is this key with this rendering, for a transaction of
this type: the code shows it whenever the rendering gives a value, and shows
nothing else. -/
def DisplaysAs (zx : Zxlib) (bytes : List UInt8) (state : ParserState)
    (displayIdx extraTxType : Nat) (key : List UInt8) (rendering : Rendering) : Prop :=
  ∀ pageIdx d d', 2 ≤ d.outVal.length → d.outVal.length < 2 ^ 16 →
    ((parserGetItem zx bytes state displayIdx pageIdx).outcome d = .done () d' ↔
      ∃ shown, rendering.show zx extraTxType pageIdx (clearedValue d.outVal.length) = .ok shown ∧
        d' = ⟨snprintf key (clearedKey d.outKey.length), shown.1, shown.2⟩)

/-- The state holds this transaction, read from these bytes. -/
structure Holds (bytes : List UInt8) (state : ParserState) (t : Transaction) : Prop where
  decodes : t.Decodes (seen bytes)
  ctx_eq : state.ctx = ⟨some 0, u16 bytes.length, u16 bytes.length, true⟩
  views : state.txObj.Views bytes (u16 bytes.length) t

/-- Every item is shown on its first page, in buffers of 40 bytes. -/
def Transaction.Valid (zx : Zxlib) (t : Transaction) : Prop :=
  ∀ displayIdx < displayCount + t.recipients.length * 3,
    ∃ d, t.showItem zx displayIdx 0 40 40 = .ok d

/-- The code of the first item that cannot be shown so, from an index on. -/
def Transaction.firstError (zx : Zxlib) (t : Transaction) : Nat → Nat → Option ParserError
  | 0, _ => none
  | left + 1, idx =>
      match t.showItem zx idx 0 40 40 with
      | .error code => some code
      | .ok _ => t.firstError zx left (idx + 1)

theorem Transaction.firstError_eq_none_iff {zx : Zxlib} {t : Transaction} {left idx : Nat} :
    t.firstError zx left idx = none ↔
      ∀ i, idx ≤ i → i < idx + left → ∃ d, t.showItem zx i 0 40 40 = .ok d := by
  induction left generalizing idx with
  | zero => exact iff_of_true rfl fun i hle hlt => by omega
  | succ left ih =>
      rw [Transaction.firstError]
      split
      next code herror =>
        refine iff_of_false (Option.some_ne_none _) fun hall => ?_
        obtain ⟨d, hshow⟩ := hall idx le_rfl (by omega)
        cases hshow.symm.trans herror
      next d hshow =>
        rw [ih]
        constructor
        · intro hall i hle hlt
          by_cases hfirst : i = idx
          · exact hfirst ▸ ⟨d, hshow⟩
          · exact hall i (by omega) (by omega)
        · exact fun hall i hle hlt => hall i (by omega) (by omega)

theorem Transaction.valid_iff_firstError {zx : Zxlib} {t : Transaction} :
    t.Valid zx ↔ t.firstError zx (displayCount + t.recipients.length * 3) 0 = none := by
  rw [Transaction.firstError_eq_none_iff, Transaction.Valid, Nat.zero_add]
  exact forall_congr' fun i => ⟨fun h _ => h, fun h => h (Nat.zero_le _)⟩

/-! ## Parsing -/

theorem Parsed.exists_holds {bytes : List UInt8} {state : ParserState} (h : Parsed bytes state) :
    ∃ t, Holds bytes state t := by
  obtain ⟨before, hend⟩ := h
  have hparse : (parserParse bytes (some 0) bytes.length).wp Event.Good before
      (fun _ state => ∃ t, Holds bytes state t) (fun _ _ => True) :=
    wp_parserParse (fun t _ ht hviews => ⟨t, ht, rfl, hviews⟩) (fun _ _ _ => trivial)
  exact hparse.of_done hend

/-- Parsing accepts the bytes of every transaction, whatever was parsed before. -/
theorem parsed_of_decodes {bytes : List UInt8} {t : Transaction} (h : t.Decodes (seen bytes))
    (before : ParserState) : ∃ state,
      (parserParse bytes (some 0) bytes.length).outcome before = .done () state ∧
        Holds bytes state t := by
  have hparse : (parserParse bytes (some 0) bytes.length).wp Event.Good before
      (fun _ state => Holds bytes state t) (fun _ _ => False) := by
    apply wp_parserParse
    · intro t' v ht hviews
      obtain rfl := h.unique ht
      exact ⟨ht, rfl, hviews⟩
    · exact fun hnone => absurd h (hnone t)
  obtain ⟨_, state, hend, hholds⟩ := hparse.exists_done
  exact ⟨state, hend, hholds⟩

/-- The state of a device on which nothing was parsed. -/
def ParserState.initial : ParserState := ⟨⟨none, 0, 0, false⟩, ParserTx.zero⟩

/-- The state that parsing leaves when nothing was parsed before. -/
def parsedState (bytes : List UInt8) : ParserState :=
  ((parserParse bytes (some 0) bytes.length).outcome .initial).state

/-- The blob of the test vector `Example1`. -/
def example1 : List UInt8 :=
  [ 0xf8, 0x47, 0x87, 0x10, 0x00, 0x00, 0x00, 0x00, 0x00, 0x08, 0x85, 0x04, 0x30, 0xe2, 0x34,
    0x00, 0x82, 0x52, 0x08, 0xa1, 0x4d, 0x41, 0x4e, 0x2e, 0x32, 0x55, 0x6f, 0x7a, 0x38, 0x67,
    0x38, 0x6a, 0x61, 0x75, 0x4d, 0x61, 0x32, 0x6d, 0x74, 0x6e, 0x77, 0x78, 0x72, 0x73, 0x63,
    0x68, 0x6a, 0x32, 0x71, 0x50, 0x4a, 0x72, 0x45, 0x83, 0x98, 0x96, 0x80, 0x80, 0x03, 0x80,
    0x80, 0x80, 0x80, 0x84, 0x5c, 0x3d, 0x93, 0xc9, 0xc4, 0xc3, 0x80, 0x80, 0xc0 ]

theorem example1_parsed : Parsed example1 (parsedState example1) :=
  ⟨.initial, by decide +kernel⟩

/-- A transaction with a recipient, in which no field is empty. -/
def filled : List UInt8 :=
  [0xf8, 0x59, 0x87, 0x10, 0x00, 0x00, 0x00, 0x00, 0x00, 0x08, 0x85, 0x04, 0x30, 0xe2, 0x34, 0x00,
    0x82, 0x52, 0x08, 0xa1, 0x4d, 0x41, 0x4e, 0x2e, 0x32, 0x55, 0x6f, 0x7a, 0x38, 0x67, 0x38,
    0x6a, 0x61, 0x75, 0x4d, 0x61, 0x32, 0x6d, 0x74, 0x6e, 0x77, 0x78, 0x72, 0x73, 0x63, 0x68,
    0x6a, 0x32, 0x71, 0x50, 0x4a, 0x72, 0x45, 0x83, 0x98, 0x96, 0x80, 0x82, 0xab, 0xcd, 0x03,
    0x05, 0x81, 0xc8, 0x05, 0x01, 0x84, 0x5c, 0x3d, 0x93, 0xc9, 0xd3, 0xd2, 0x03, 0x82, 0x12,
    0x34, 0xcd, 0xcc, 0x85, 0x4d, 0x41, 0x4e, 0x2e, 0x41, 0x82, 0x01, 0x00, 0x82, 0x68, 0x69]

theorem filled_parsed : Parsed filled (parsedState filled) :=
  ⟨.initial, by decide +kernel⟩

/-! ## Display -/

theorem showItem_eq_ok {zx : Zxlib} {t : Transaction} {displayIdx pageIdx outKeyLen outValLen : Nat}
    {key : List UInt8} {rendering : Rendering} (hitem : t.item displayIdx = some (key, rendering))
    {d : Display} :
    t.showItem zx displayIdx pageIdx outKeyLen outValLen = .ok d ↔
      ∃ shown, rendering.show zx (u8 t.number) pageIdx (clearedValue outValLen) = .ok shown ∧
        d = ⟨snprintf key (clearedKey outKeyLen), shown.1, shown.2⟩ := by
  simp only [Transaction.showItem, hitem]
  constructor
  · intro h
    obtain ⟨shown, hshown, rfl⟩ := map_ok h
    exact ⟨shown, hshown, rfl⟩
  · rintro ⟨shown, hshown, rfl⟩
    rw [hshown]
    rfl

theorem clearedValue_length (length : Nat) : (clearedValue length).length = length := by
  rw [clearedValue, snprintf_length, List.length_replicate]

namespace Holds

variable {bytes : List UInt8} {state : ParserState} {t : Transaction} {zx : Zxlib}

theorem length_lt (bytes : List UInt8) : u16 bytes.length < 2 ^ 16 := Nat.mod_lt _ (by decide)

theorem unique {t' : Transaction} (h : Holds bytes state t) (h' : Holds bytes state t') : t = t' :=
  h.decodes.unique h'.decodes

theorem txObj_set (h : Holds bytes state t) : state.ctx.txObj = true := by
  rw [h.ctx_eq]

theorem getNumItems {σ : Type} (h : Holds bytes state t) (s : σ) :
    (parserGetNumItems state : Parser σ Nat).outcome s =
      .done (displayCount + t.recipients.length * 3) s := by
  have hcount : (parserGetNumItems state : Parser σ Nat).wp Event.Good s
      (fun value s' => value = displayCount + t.recipients.length * 3 ∧ s' = s)
      (fun _ _ => False) :=
    wp_parserGetNumItems h.views h.txObj_set ⟨rfl, rfl⟩
  obtain ⟨_, _, hend, rfl, rfl⟩ := hcount.exists_done
  exact hend

variable {displayIdx pageIdx : Nat} {d : Display}

theorem getItem_ok (h : Holds bytes state t) (hmin : 2 ≤ d.outVal.length)
    (hmax : d.outVal.length < 2 ^ 32) {d' : Display}
    (hshow : t.showItem zx displayIdx pageIdx d.outKey.length d.outVal.length = .ok d') :
    (parserGetItem zx bytes state displayIdx pageIdx).outcome d = .done () d' := by
  have hitem : (parserGetItem zx bytes state displayIdx pageIdx).wp Event.Good d
      (fun _ s => s = d') (fun _ _ => False) := by
    apply wp_parserGetItem (u16_length_le bytes) (length_lt bytes) h.views h.txObj_set hmin hmax
    · intro shown hshown
      exact (Except.ok.inj (hshow.symm.trans hshown)).symm
    · intro code _ herror
      cases hshow.symm.trans herror
  obtain ⟨_, _, hend, rfl⟩ := hitem.exists_done
  exact hend

theorem getItem_error (h : Holds bytes state t) (hmin : 2 ≤ d.outVal.length)
    (hmax : d.outVal.length < 2 ^ 32) {code : ParserError}
    (hshow : t.showItem zx displayIdx pageIdx d.outKey.length d.outVal.length = .error code) :
    ∃ d', (parserGetItem zx bytes state displayIdx pageIdx).outcome d = .stop (.error code) d' ∧
      d'.outKey.length = d.outKey.length ∧ d'.outVal.length = d.outVal.length := by
  have hitem : (parserGetItem zx bytes state displayIdx pageIdx).wp Event.Good d
      (fun _ _ => False) (fun stop d' => stop = .error code ∧
        d'.outKey.length = d.outKey.length ∧ d'.outVal.length = d.outVal.length) := by
    apply wp_parserGetItem (u16_length_le bytes) (length_lt bytes) h.views h.txObj_set hmin hmax
    · intro shown hshown
      cases hshow.symm.trans hshown
    · intro code' d' herror hkey hvalue
      cases hshow.symm.trans herror
      exact ⟨rfl, hkey, hvalue⟩
  cases hend : (parserGetItem zx bytes state displayIdx pageIdx).outcome d with
  | done value d' => exact (hitem.of_done hend).elim
  | stop stop d' =>
      obtain ⟨rfl, hlengths⟩ := hitem.of_stop hend
      exact ⟨d', rfl, hlengths⟩

/-- The code displays an item exactly when the table has one that can be shown. -/
theorem getItem_done_iff (h : Holds bytes state t) (hmin : 2 ≤ d.outVal.length)
    (hmax : d.outVal.length < 2 ^ 32) {d' : Display} :
    (parserGetItem zx bytes state displayIdx pageIdx).outcome d = .done () d' ↔
      t.showItem zx displayIdx pageIdx d.outKey.length d.outVal.length = .ok d' := by
  refine ⟨fun hend => ?_, h.getItem_ok hmin hmax⟩
  cases hshow : t.showItem zx displayIdx pageIdx d.outKey.length d.outVal.length with
  | ok shown =>
      have hok := h.getItem_ok hmin hmax hshow
      cases hok.symm.trans hend
      rfl
  | error code =>
      obtain ⟨_, herror, -⟩ := h.getItem_error hmin hmax hshow
      cases herror.symm.trans hend

/-- The display is the table of the transaction. -/
theorem displaysAs (h : Holds bytes state t) {key : List UInt8} {rendering : Rendering}
    (hitem : t.item displayIdx = some (key, rendering)) :
    DisplaysAs zx bytes state displayIdx (u8 t.number) key rendering :=
  fun _ _ _ hmin hmax =>
    (h.getItem_done_iff hmin (hmax.trans (by decide))).trans (showItem_eq_ok hitem)

/-- The code shows what the rendering gives. -/
theorem outcome_of_show (h : Holds bytes state t) {key : List UInt8} {rendering : Rendering}
    (hitem : t.item displayIdx = some (key, rendering)) (hmin : 2 ≤ d.outVal.length)
    (hmax : d.outVal.length < 2 ^ 16) {shown : List UInt8 × Nat}
    (hshow : rendering.show zx (u8 t.number) pageIdx (clearedValue d.outVal.length) = .ok shown) :
    (parserGetItem zx bytes state displayIdx pageIdx).outcome d =
      .done () ⟨snprintf key (clearedKey d.outKey.length), shown.1, shown.2⟩ :=
  (h.displaysAs hitem pageIdx d _ hmin hmax).mpr ⟨shown, hshow, rfl⟩

end Holds

/-- Two renderings of one item show the same in every buffer. -/
theorem DisplaysAs.show_iff {zx : Zxlib} {bytes : List UInt8} {state : ParserState}
    {displayIdx extraTxType extraTxType' : Nat} {key : List UInt8}
    {rendering rendering' : Rendering}
    (h : DisplaysAs zx bytes state displayIdx extraTxType key rendering)
    (h' : DisplaysAs zx bytes state displayIdx extraTxType' key rendering')
    {pageIdx outValLen : Nat} (hmin : 2 ≤ outValLen) (hmax : outValLen < 2 ^ 16)
    {shown : List UInt8 × Nat} :
    rendering.show zx extraTxType pageIdx (clearedValue outValLen) = .ok shown ↔
      rendering'.show zx extraTxType' pageIdx (clearedValue outValLen) = .ok shown := by
  have hlength : (List.replicate outValLen (0 : UInt8)).length = outValLen :=
    List.length_replicate ..
  have hboth := (h pageIdx ⟨[], List.replicate outValLen 0, 0⟩
    ⟨snprintf key (clearedKey 0), shown.1, shown.2⟩ (by rw [hlength]; exact hmin)
    (by rw [hlength]; exact hmax)).symm.trans
      (h' pageIdx ⟨[], List.replicate outValLen 0, 0⟩ _ (by rw [hlength]; exact hmin)
        (by rw [hlength]; exact hmax))
  simp only [hlength] at hboth
  constructor
  · intro hshown
    obtain ⟨shown', hshown', heq⟩ := hboth.mp ⟨shown, hshown, rfl⟩
    have hsame : shown = shown' :=
      Prod.ext (congrArg Display.outVal heq) (congrArg Display.pageCount heq)
    rwa [hsame]
  · intro hshown
    obtain ⟨shown', hshown', heq⟩ := hboth.mpr ⟨shown, hshown, rfl⟩
    have hsame : shown = shown' :=
      Prod.ext (congrArg Display.outVal heq) (congrArg Display.pageCount heq)
    rwa [hsame]

/-! ## Validation -/

section Validation

variable {zx : Zxlib} {bytes : List UInt8} {state : ParserState} {t : Transaction}

/-- The loop renders the items from `idx` on. -/
theorem wp_parserValidateLoop (h : Holds bytes state t) {post : Unit → Display → Prop}
    {early : Stop → Display → Prop} :
    ∀ {left idx : Nat} {d : Display}, d.outKey.length = 40 → d.outVal.length = 40 →
      (∀ d', t.firstError zx left idx = none → post () d') →
      (∀ code d', t.firstError zx left idx = some code → early (.error code) d') →
      (parserValidateLoop zx bytes state left idx).wp Event.Good d post early := by
  intro left
  induction left with
  | zero =>
      intro idx d _ _ hpost _
      exact (Command.wp_pure ()).mpr (hpost d rfl)
  | succ left ih =>
      intro idx d hkey hvalue hpost hearly
      simp only [parserValidateLoop, Command.wp_bind, Command.wp_modify]
      apply wp_parserGetItem (u16_length_le bytes) (Holds.length_lt bytes) h.views h.txObj_set
      · simp only [hvalue]
        decide
      · simp only [hvalue]
        decide
      · intro d' hshow
        simp only [hkey, hvalue] at hshow
        obtain ⟨hkey', hvalue'⟩ := Transaction.showItem_length hshow
        -- this item was shown now, and those behind it are left to the other passes
        have hnext : t.firstError zx (left + 1) idx = t.firstError zx left (idx + 1) := by
          rw [Transaction.firstError, hshow]
        rw [hnext] at hpost hearly
        exact ih hkey' hvalue' hpost hearly
      · intro code d' herror _ _
        simp only [hkey, hvalue] at herror
        refine hearly code d' ?_
        rw [Transaction.firstError, herror]

/-- Validation stops at the first item that cannot be shown. -/
theorem wp_parserValidate_firstError (h : Holds bytes state t) {post : Unit → Unit → Prop}
    {early : Stop → Unit → Prop} (hpost : t.Valid zx → post () ())
    (hearly : ∀ code, t.firstError zx (displayCount + t.recipients.length * 3) 0 = some code →
      early (.error code) ()) :
    (parserValidate zx bytes state).wp Event.Good () post early := by
  simp only [parserValidate, Command.wp_bind]
  apply wp_parserGetNumItems h.views h.txObj_set
  simp only [Command.wp_scope, Command.wp_zoom, Lens.fst_get, Lens.fst_set]
  apply wp_parserValidateLoop h (List.length_replicate ..) (List.length_replicate ..)
  · exact fun d' hnone => hpost (Transaction.valid_iff_firstError.mpr hnone)
  · exact fun code d' hfirst => hearly code hfirst

theorem wp_parserValidate (h : Holds bytes state t) {post : Unit → Unit → Prop}
    {early : Stop → Unit → Prop} (hpost : t.Valid zx → post () ())
    (hearly : ∀ code, ¬ t.Valid zx → early (.error code) ()) :
    (parserValidate zx bytes state).wp Event.Good () post early := by
  refine wp_parserValidate_firstError h hpost fun code hfirst => hearly code fun hvalid => ?_
  cases hfirst.symm.trans (Transaction.valid_iff_firstError.mp hvalid)

theorem Accepted.exists_holds (h : Accepted zx bytes state) :
    ∃ t, Holds bytes state t ∧ t.Valid zx := by
  obtain ⟨t, hholds⟩ := h.parsed.exists_holds
  have hvalidate : (parserValidate zx bytes state).wp Event.Good () (fun _ _ => t.Valid zx)
      (fun _ _ => True) := wp_parserValidate hholds id (fun _ _ => trivial)
  exact ⟨t, hholds, hvalidate.of_done h.validated⟩

/-- What is stored is the transaction of the bytes. -/
theorem Accepted.holds (h : Accepted zx bytes state) (ht : t.Decodes (seen bytes)) :
    Holds bytes state t ∧ t.Valid zx := by
  obtain ⟨t', hholds, hvalid⟩ := h.exists_holds
  obtain rfl := hholds.decodes.unique ht
  exact ⟨hholds, hvalid⟩

/-- A valid transaction can show what stands at any of its indices. -/
theorem Transaction.Valid.show_ok (h : t.Valid zx) {displayIdx : Nat} {key : List UInt8}
    {rendering : Rendering} (hitem : t.item displayIdx = some (key, rendering)) :
    ∃ shown, rendering.show zx (u8 t.number) 0 (clearedValue 40) = .ok shown := by
  have hlt : displayIdx < displayCount + t.recipients.length * 3 := by
    rw [← Nat.not_le, ← Transaction.item_eq_none_iff, hitem]
    exact Option.some_ne_none _
  obtain ⟨d, hshow⟩ := h displayIdx hlt
  simp only [Transaction.showItem, hitem] at hshow
  obtain ⟨shown, hshown, -⟩ := map_ok hshow
  exact ⟨shown, hshown⟩

end Validation

end LedgerMatrix
