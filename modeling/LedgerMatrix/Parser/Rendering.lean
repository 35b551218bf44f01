import LedgerMatrix.Parser.Display
import LedgerMatrix.Parser.Reading

/-! # What the display shows

The display of a transaction without pointers: a table that gives each index its
key and the item it renders, and what each way of rendering writes. The code
shows exactly this, whatever the buffers held before.
-/

namespace LedgerMatrix

open Imperative RecursiveLength

/-- How a display item is rendered, and from which item of the transaction. -/
inductive Rendering where
  | number (piece : Piece)
  | page (piece : Piece)
  | data (piece : Piece)
  | chain (piece : Piece)
  | time (piece : Piece)
  | txType
  | recipientPage (piece : Piece)
  | recipientNumber (piece : Piece)
  deriving DecidableEq

/-- The name of a transaction type, for the types that can be shown. -/
def typeName : Nat → Option String
  | 0 => some "Normal"
  | 3 => some "Scheduled"
  | 4 => some "Revert"
  | 5 => some "Authorize"
  | 6 => some "Cancel Auth"
  | 9 => some "Create curr"
  | _ => none

/-- The bytes that a pager gets of an item: those that the recorded length
covers, so none of a single byte. -/
def pagedBytes (piece : Piece) : List UInt8 :=
  match piece.kind with
  | .byte => []
  | _ => piece.payload

/-- A value is replaced when the recorded length of its item is 0. -/
def orEmpty (piece : Piece) (shown : List UInt8 × Nat) : List UInt8 × Nat :=
  if storedLength piece.kind piece.payload.length = 0 then
    (snprintf (ascii "Empty") shown.1, 1)
  else shown

/-- A number in a buffer, when it fits with its terminator. -/
def showNumber (number : Nat) (value : List UInt8) : Except ParserError (List UInt8 × Nat) :=
  if (Numeral.text 10 number).length < value.length then
    .ok (snprintf (Numeral.text 10 number) value, 1)
  else .error .unexpectedError

/-- The value and the number of pages that a rendering writes into a buffer. -/
def Rendering.show (zx : Zxlib) (extraTxType pageIdx : Nat) (value : List UInt8) :
    Rendering → Except ParserError (List UInt8 × Nat)
  | number piece => (readUInt256 piece).bind fun n => showNumber n value
  | page piece => .ok (zx.pageStringExt value (pagedBytes piece) pageIdx)
  | data piece =>
      if extraTxType = 5 ∨ extraTxType = 9 ∨ extraTxType = 6 then
        .ok (orEmpty piece (zx.pageStringExt value (pagedBytes piece) pageIdx))
      else if extraTxType = 0 ∨ extraTxType = 3 ∨ extraTxType = 4 then
        .ok (orEmpty piece (zx.pageStringHex value (pagedBytes piece) pageIdx))
      else .error .unexpectedType
  | chain piece =>
      if piece.kind = .byte then
        .ok (snprintf (Numeral.text 10 (BigEndian.value piece.payload)) value, 1)
      else .error .unexpectedValue
  | time piece => (readUInt256 piece).bind fun n =>
      if n < 2 ^ 64 ∧ (zx.printTime value (UInt64.ofNat n)).1 = true then
        .ok ((zx.printTime value (UInt64.ofNat n)).2, 1)
      else .error .unexpectedError
  | txType =>
      match typeName extraTxType with
      | some name => .ok (snprintf (ascii name) value, 1)
      | none => .error .unexpectedType
  | recipientPage piece => .ok (orEmpty piece (zx.pageStringExt value (pagedBytes piece) pageIdx))
  | recipientNumber piece => (readUInt256 piece).bind fun n =>
      (showNumber n value).map (orEmpty piece)

/-- The three items of a recipient. -/
def Recipient.item (r : Recipient) (index : Nat) : Nat → List UInt8 × Rendering
  | 0 => (indexedKey "To" index, .recipientPage r.toItem)
  | 1 => (indexedKey "Amount" index, .recipientNumber r.amount)
  | _ => (indexedKey "Payload" index, .recipientPage r.payload)

/-- The key and the rendering at a display index. -/
def Transaction.item (t : Transaction) : Nat → Option (List UInt8 × Rendering)
  | 0 => some (ascii "Nonce", .number (t.fields.get RootField.nonce))
  | 1 => some (ascii "Gas Price", .number (t.fields.get RootField.gasPrice))
  | 2 => some (ascii "Gas Limit", .number (t.fields.get RootField.gasLimit))
  | 3 => some (ascii "To", .page (t.fields.get RootField.to))
  | 4 => some (ascii "Value", .number (t.fields.get RootField.value))
  | 5 => some (ascii "Data", .data (t.fields.get RootField.data))
  | 6 => some (ascii "ChainID", .chain (t.fields.get RootField.v))
  | 7 => some (ascii "EnterType", .number (t.fields.get RootField.r))
  | 8 => some (ascii "IsEntrustTx", .number (t.fields.get RootField.isEntrustTx))
  | 9 => some (ascii "CommitTime", .time (t.fields.get RootField.commitTime))
  | 10 => some (ascii "TxType", .txType)
  | 11 => some (ascii "Lock Height", .number t.lockHeight)
  | index + 12 =>
      t.recipients[index / 3]?.map fun r => r.item (index / 3) (index % 3)

/-- A key buffer after `cleanOutput`. -/
def clearedKey (length : Nat) : List UInt8 := snprintf (ascii "?") (List.replicate length 0)

/-- A value buffer after `cleanOutput`. -/
def clearedValue (length : Nat) : List UInt8 := snprintf (ascii " ") (List.replicate length 0)

/-- What is displayed at an index, in buffers of the given lengths. -/
def Transaction.showItem (zx : Zxlib) (t : Transaction) (displayIdx pageIdx outKeyLen
    outValLen : Nat) : Except ParserError Display :=
  match t.item displayIdx with
  | none => .error .displayIdxOutOfRange
  | some (key, rendering) =>
      (rendering.show zx (u8 t.number) pageIdx (clearedValue outValLen)).map fun shown =>
        ⟨snprintf key (clearedKey outKeyLen), shown.1, shown.2⟩

/-! ## Lengths -/

section Lengths

variable {zx : Zxlib} {value : List UInt8} {shown : List UInt8 × Nat}

theorem orEmpty_length (piece : Piece) (shown : List UInt8 × Nat) :
    (orEmpty piece shown).1.length = shown.1.length := by
  unfold orEmpty
  split
  · exact snprintf_length _ _
  · rfl

theorem showNumber_length {number : Nat} (h : showNumber number value = .ok shown) :
    shown.1.length = value.length := by
  unfold showNumber at h
  split at h
  next => cases h; exact snprintf_length _ _
  next => cases h

/-- What is read before a value is written does not matter to its length. -/
theorem bind_ok {α β : Type} {c : Except ParserError α} {f : α → Except ParserError β} {b : β}
    (h : c.bind f = .ok b) : ∃ a, c = .ok a ∧ f a = .ok b := by
  cases c with
  | error code => cases h
  | ok a => exact ⟨a, rfl, h⟩

theorem map_ok {α β : Type} {c : Except ParserError α} {f : α → β} {b : β}
    (h : c.map f = .ok b) : ∃ a, c = .ok a ∧ f a = b := by
  cases c with
  | error code => cases h
  | ok a => exact ⟨a, rfl, Except.ok.inj h⟩

/-- Every rendering keeps the length of the buffer. -/
theorem Rendering.show_length {extraTxType pageIdx : Nat} {rendering : Rendering}
    (h : rendering.show zx extraTxType pageIdx value = .ok shown) :
    shown.1.length = value.length := by
  cases rendering with
  | number piece =>
      obtain ⟨n, -, hnumber⟩ := bind_ok h
      exact showNumber_length hnumber
  | page piece =>
      cases h
      exact zx.pageStringExt_length _ _ _
  | data piece =>
      simp only [Rendering.show] at h
      split at h
      next =>
        cases h
        rw [orEmpty_length, zx.pageStringExt_length]
      next =>
        split at h
        next =>
          cases h
          rw [orEmpty_length, zx.pageStringHex_length]
        next => cases h
  | chain piece =>
      simp only [Rendering.show] at h
      split at h
      next => cases h; exact snprintf_length _ _
      next => cases h
  | time piece =>
      obtain ⟨n, -, htime⟩ := bind_ok h
      split at htime
      next => cases htime; exact zx.printTime_length _ _
      next => cases htime
  | txType =>
      simp only [Rendering.show] at h
      split at h
      next => cases h; exact snprintf_length _ _
      next => cases h
  | recipientPage piece =>
      cases h
      rw [orEmpty_length, zx.pageStringExt_length]
  | recipientNumber piece =>
      obtain ⟨n, -, hnumber⟩ := bind_ok h
      obtain ⟨plain, hplain, rfl⟩ := map_ok hnumber
      rw [orEmpty_length, showNumber_length hplain]

theorem Transaction.showItem_length {t : Transaction} {displayIdx pageIdx outKeyLen outValLen : Nat}
    {d : Display} (h : t.showItem zx displayIdx pageIdx outKeyLen outValLen = .ok d) :
    d.outKey.length = outKeyLen ∧ d.outVal.length = outValLen := by
  unfold Transaction.showItem at h
  split at h
  next => cases h
  next key rendering hitem =>
    obtain ⟨shown, hshown, rfl⟩ := map_ok h
    refine ⟨?_, ?_⟩
    · simp only [clearedKey, snprintf_length, List.length_replicate]
    · rw [Rendering.show_length hshown, clearedValue, snprintf_length, List.length_replicate]

end Lengths

/-! ## One value -/

/-- A command that writes the value that `spec` gives, or gives up with the code
that `spec` gives, and keeps the key and the length of the value buffer. -/
def Shows (c : Parser Display Unit)
    (spec : List UInt8 → Except ParserError (List UInt8 × Nat)) : Prop :=
  ∀ {key value : List UInt8} {post : Unit → Display → Prop} {early : Stop → Display → Prop},
    2 ≤ value.length → value.length < 2 ^ 32 →
    (∀ shown, spec value = .ok shown → post () ⟨key, shown.1, shown.2⟩) →
    (∀ code value' count, spec value = .error code → value'.length = value.length →
      early (.error code) ⟨key, value', count⟩) →
    c.wp Event.Good ⟨key, value, 1⟩ post early

section Values

variable {mem : List UInt8} {lo hi : Nat} {rlp : Rlp} {piece : Piece} {zx : Zxlib}

/-- `tostring256` leaves a buffer as `snprintf` would. -/
theorem snprintf_of_lt {text value : List UInt8} (h : text.length < value.length) :
    snprintf text value = text ++ 0 :: value.drop (text.length + 1) := by
  rw [snprintf, if_neg (by omega), List.take_of_length_le (by omega)]

theorem wp_tostring_decimal {value : Uint256} {n : Nat} (hn : value.val = n) {d : Display}
    (hmin : 2 ≤ d.outVal.length)
    (hmax : d.outVal.length < 2 ^ 32) {post : Bool → Display → Prop}
    {early : Stop → Display → Prop}
    (hpost : ∀ shown, showNumber n d.outVal = .ok shown → shown.2 = 1 →
      post true { d with outVal := shown.1 })
    (hfail : ∀ buffer, showNumber n d.outVal = .error .unexpectedError →
      buffer.length = d.outVal.length → post false { d with outVal := buffer }) :
    (Command.zoom Display.value (tostring256 value 10 d.outVal.length)).wp Event.Good d post
      early := by
  rw [Command.wp_zoom]
  refine wp_tostring256 (by decide) (by decide) hmin hmax ?_
  rw [hn]
  split
  next hfit =>
    rw [← snprintf_of_lt hfit]
    exact hpost _ (if_pos hfit) rfl
  next hfit =>
    intro buffer hbuffer
    exact hfail buffer (if_neg hfit) hbuffer

theorem shows_printUInt256 (hmem : hi ≤ mem.length) (hstands : rlp.Stands mem lo hi piece)
    (extraTxType pageIdx : Nat) :
    Shows (printUInt256 mem rlp)
      fun value => (Rendering.number piece).show zx extraTxType pageIdx value := by
  intro key value post early hmin hmax hpost hearly
  simp only [printUInt256, Command.wp_bind]
  apply wp_rlpReadUInt256 hmem hstands
  · intro number hnumber
    obtain ⟨n, hn⟩ : ∃ n, number.val = n := ⟨_, rfl⟩
    rw [hn] at hnumber
    simp only [Rendering.show, hnumber, Except.bind] at hpost hearly
    simp only [printDecimal, Command.wp_bind, Command.wp_read]
    apply wp_tostring_decimal hn (d := ⟨key, value, 1⟩) hmin hmax
    · intro shown hshown hone
      have hall := hpost shown hshown
      rw [hone] at hall
      simpa only [if_true, Command.wp_pure] using hall
    · intro buffer hnot hbuffer
      exact (wp_fail _).mpr (hearly _ _ _ hnot hbuffer)
  · intro code herror
    simp only [Rendering.show, herror, Except.bind] at hearly
    exact hearly code value 1 rfl rfl

theorem pagedBytes_of_byte (h : piece.kind = .byte) : pagedBytes piece = [] := by
  rw [pagedBytes, h]

theorem pagedBytes_of_ne (h : piece.kind ≠ .byte) : pagedBytes piece = piece.payload := by
  unfold pagedBytes
  split
  next hkind => exact absurd hkind h
  next => rfl

theorem wp_loadItem {σ : Type} {s : σ} (hmem : hi ≤ mem.length)
    (hstands : rlp.Stands mem lo hi piece) {post : List UInt8 → σ → Prop}
    {early : Stop → σ → Prop} (hpost : post (pagedBytes piece) s) :
    (loadBytes mem rlp.ptr rlp.rlpLen : Parser σ (List UInt8)).wp Event.Good s post early := by
  obtain ⟨address, hptr, _, hend, hpayload⟩ := hstands.located
  by_cases hkind : piece.kind = .byte
  · rw [pagedBytes_of_byte hkind] at hpost
    rw [hstands.rlpLen_of_byte hkind]
    exact (Command.wp_pure _).mpr hpost
  · rw [pagedBytes_of_ne hkind, ← hpayload] at hpost
    rw [hstands.rlpLen_of_ne hkind, hptr]
    exact wp_loadBytes (hend.trans hmem) hpost

/-- The check of the recorded length, after a value was written. -/
theorem wp_printEmpty (hstands : rlp.Stands mem lo hi piece) {d : Display}
    {post : Unit → Display → Prop} {early : Stop → Display → Prop}
    (hpost : post () { d with
      outVal := (orEmpty piece (d.outVal, d.pageCount)).1
      pageCount := (orEmpty piece (d.outVal, d.pageCount)).2 }) :
    (printEmpty rlp).wp Event.Good d post early := by
  rw [orEmpty, ← hstands.rlpLen_eq] at hpost
  unfold printEmpty
  split
  next hzero =>
    rw [if_pos hzero] at hpost
    exact (Command.wp_modify _).mpr hpost
  next hne =>
    rw [if_neg hne] at hpost
    exact (Command.wp_pure ()).mpr hpost

theorem wp_printPage (hmem : hi ≤ mem.length) (hstands : rlp.Stands mem lo hi piece)
    (page : List UInt8 → List UInt8 → Nat → List UInt8 × Nat) {d : Display} (pageIdx : Nat)
    {post : Unit → Display → Prop} {early : Stop → Display → Prop}
    (hpost : post () { d with
      outVal := (page d.outVal (pagedBytes piece) pageIdx).1
      pageCount := (page d.outVal (pagedBytes piece) pageIdx).2 }) :
    (printPage page mem rlp pageIdx).wp Event.Good d post early := by
  simp only [printPage, Command.wp_bind]
  exact wp_loadItem hmem hstands ((Command.wp_modify _).mpr hpost)

theorem shows_printDataField (hmem : hi ≤ mem.length) (hstands : rlp.Stands mem lo hi piece)
    (extraTxType pageIdx : Nat) :
    Shows (printDataField zx mem rlp extraTxType pageIdx)
      fun value => (Rendering.data piece).show zx extraTxType pageIdx value := by
  intro key value post early hmin hmax hpost hearly
  simp only [Rendering.show] at hpost hearly
  simp only [printDataField, printDataPage, Command.wp_bind]
  split
  next htext =>
    simp only [htext, if_true] at hpost
    exact wp_printPage hmem hstands _ pageIdx (wp_printEmpty hstands (hpost _ rfl))
  next htext =>
    simp only [htext, if_false] at hpost hearly
    split
    next hhex =>
      simp only [hhex, if_true] at hpost
      exact wp_printPage hmem hstands _ pageIdx (wp_printEmpty hstands (hpost _ rfl))
    next hhex =>
      simp only [hhex, if_false] at hearly
      exact (wp_fail _).mpr (hearly _ _ _ rfl rfl)

theorem shows_printCommitTime (hmem : hi ≤ mem.length) (hstands : rlp.Stands mem lo hi piece)
    (extraTxType pageIdx : Nat) :
    Shows (printCommitTimeField zx mem rlp)
      fun value => (Rendering.time piece).show zx extraTxType pageIdx value := by
  intro key value post early hmin hmax hpost hearly
  simp only [printCommitTimeField, Command.wp_bind]
  apply wp_rlpReadUInt256 hmem hstands
  · intro number hnumber
    have hlimb : number.val < 2 ^ 64 ↔ _ := val_lt_limb_iff
    have hlowest : number.val < 2 ^ 64 → _ := lowest_limb
    obtain ⟨n, hn⟩ : ∃ n, number.val = n := ⟨_, rfl⟩
    rw [hn] at hnumber hlimb hlowest
    simp only [Rendering.show, hnumber, Except.bind] at hpost hearly
    unfold printCommitTime
    split
    next hbig =>
      have hnot : ¬ n < 2 ^ 64 := by
        rw [hlimb]
        tauto
      refine (wp_fail _).mpr (hearly _ _ _ (if_neg fun h => hnot h.1) rfl)
    next hsmall =>
      have hlt : n < 2 ^ 64 := by
        rw [hlimb]
        tauto
      have htime : number.lower.lower = UInt64.ofNat n := by
        rw [← UInt64.toNat_inj, hlowest hlt, UInt64.toNat_ofNat_of_lt' hlt]
      simp only [Command.wp_bind, Command.wp_read, Command.wp_modify, htime]
      split
      next hwritten =>
        simp only [hlt, hwritten, and_self, if_true] at hpost
        exact (Command.wp_pure ()).mpr (hpost _ rfl)
      next hnot =>
        exact (wp_fail _).mpr (hearly _ _ _ (if_neg fun h => hnot h.2) (zx.printTime_length _ _))
  · intro code herror
    simp only [Rendering.show, herror, Except.bind] at hearly
    exact hearly code value 1 rfl rfl

theorem shows_printTxType (extraTxType pageIdx : Nat) :
    Shows (printTxType extraTxType)
      fun value => Rendering.txType.show zx extraTxType pageIdx value := by
  intro key value post early hmin hmax hpost hearly
  simp only [Rendering.show] at hpost hearly
  unfold printTxType
  split
  case h_7 h₀ h₃ h₄ h₅ h₆ h₉ =>
    have hnone : typeName extraTxType = none := by
      unfold typeName
      split <;> first | rfl | contradiction
    rw [hnone] at hearly
    exact (wp_fail _).mpr (hearly _ _ _ rfl rfl)
  all_goals exact (Command.wp_modify _).mpr (hpost _ rfl)

theorem shows_printPage (hmem : hi ≤ mem.length) (hstands : rlp.Stands mem lo hi piece)
    (extraTxType pageIdx : Nat) :
    Shows (printPage zx.pageStringExt mem rlp pageIdx)
      fun value => (Rendering.page piece).show zx extraTxType pageIdx value := by
  intro key value post early hmin hmax hpost hearly
  exact wp_printPage hmem hstands _ pageIdx (hpost _ rfl)

theorem shows_printChainID (hmem : hi ≤ mem.length) (hstands : rlp.Stands mem lo hi piece)
    (extraTxType pageIdx : Nat) :
    Shows (printChainID mem rlp)
      fun value => (Rendering.chain piece).show zx extraTxType pageIdx value := by
  intro key value post early hmin hmax hpost hearly
  simp only [Rendering.show] at hpost hearly
  unfold printChainID
  by_cases hkind : piece.kind = .byte
  · obtain ⟨address, hlt, hptr, hpayload⟩ := hstands.byte_payload hkind hmem
    rw [if_neg (by rw [hstands.kind_eq, hstands.rlpLen_of_byte hkind]; simp [hkind]), hptr,
      Command.wp_bind]
    apply wp_load hlt
    rw [if_pos hkind, hpayload, BigEndian.value_singleton] at hpost
    exact (Command.wp_modify _).mpr (hpost _ rfl)
  · rw [if_pos (Or.inl (by rw [hstands.kind_eq]; exact hkind))]
    exact (wp_fail _).mpr (hearly _ _ _ (if_neg hkind) rfl)

theorem shows_printRecipientText (hmem : hi ≤ mem.length) (hstands : rlp.Stands mem lo hi piece)
    (extraTxType pageIdx : Nat) :
    Shows (printRecipientText zx mem rlp pageIdx)
      fun value => (Rendering.recipientPage piece).show zx extraTxType pageIdx value := by
  intro key value post early hmin hmax hpost hearly
  rw [printRecipientText, Command.wp_bind]
  exact wp_printPage hmem hstands _ pageIdx (wp_printEmpty hstands (hpost _ rfl))

theorem shows_printRecipientAmount (hmem : hi ≤ mem.length) (hstands : rlp.Stands mem lo hi piece)
    (extraTxType pageIdx : Nat) :
    Shows (printRecipientAmount mem rlp)
      fun value => (Rendering.recipientNumber piece).show zx extraTxType pageIdx value := by
  intro key value post early hmin hmax hpost hearly
  simp only [printRecipientAmount, Command.wp_bind, Command.wp_read]
  apply wp_rlpReadUInt256 hmem hstands
  · intro number hnumber
    obtain ⟨n, hn⟩ : ∃ n, number.val = n := ⟨_, rfl⟩
    rw [hn] at hnumber
    simp only [Rendering.show, hnumber, Except.bind] at hpost hearly
    apply wp_tostring_decimal hn (d := ⟨key, value, 1⟩) hmin hmax
    · intro shown hshown hone
      simp only at hshown
      rw [hshown] at hpost
      apply wp_printEmpty hstands
      rw [if_pos rfl, ← hone]
      exact (Command.wp_pure ()).mpr (hpost _ rfl)
    · intro buffer hnot hbuffer
      simp only at hnot
      rw [hnot] at hearly
      apply wp_printEmpty hstands
      rw [if_neg Bool.false_ne_true]
      exact (wp_fail _).mpr (hearly _ _ _ rfl ((orEmpty_length _ _).trans hbuffer))
  · intro code herror
    simp only [Rendering.show, herror, Except.bind] at hearly
    exact hearly code value 1 rfl rfl

end Values

/-! ## The items of the display -/

section Items

variable {mem : List UInt8} {hi : Nat} {v : ParserTx} {t : Transaction} {zx : Zxlib}
  {post : Unit → Display → Prop} {early : Stop → Display → Prop}

/-- A value under its key. -/
theorem wp_keyed {body : Parser Display Unit}
    {spec : List UInt8 → Except ParserError (List UInt8 × Nat)} (hbody : Shows body spec)
    {key : List UInt8} {d : Display} (hcount : d.pageCount = 1) (hmin : 2 ≤ d.outVal.length)
    (hmax : d.outVal.length < 2 ^ 32)
    (hpost : ∀ shown, spec d.outVal = .ok shown →
      post () ⟨snprintf key d.outKey, shown.1, shown.2⟩)
    (hearly : ∀ code d', spec d.outVal = .error code → d'.outKey.length = d.outKey.length →
      d'.outVal.length = d.outVal.length → early (.error code) d') :
    (printKey key >>= fun _ => body).wp Event.Good d post early := by
  simp only [Command.wp_bind, printKey, Command.wp_modify]
  rw [hcount]
  refine hbody hmin hmax hpost ?_
  intro code value' count herror hlength
  exact hearly code _ herror (snprintf_length _ _) hlength

/-- The items of a recipient are those of its entry. -/
theorem wp_printExtraFields (hmem : hi ≤ mem.length) (hhi : hi < 2 ^ 16) (h : v.Views mem hi t)
    {index pageIdx : Nat} {r : Recipient} (hr : t.recipients[index / 3]? = some r) {d : Display}
    (hcount : d.pageCount = 1) (hmin : 2 ≤ d.outVal.length) (hmax : d.outVal.length < 2 ^ 32)
    (hpost : ∀ shown, (r.item (index / 3) (index % 3)).2.show zx (u8 t.number) pageIdx d.outVal =
      .ok shown → post () ⟨snprintf (r.item (index / 3) (index % 3)).1 d.outKey, shown.1, shown.2⟩)
    (hearly : ∀ code d', (r.item (index / 3) (index % 3)).2.show zx (u8 t.number) pageIdx
      d.outVal = .error code → d'.outKey.length = d.outKey.length →
      d'.outVal.length = d.outVal.length → early (.error code) d') :
    (printExtraFields zx mem v (index + 12) pageIdx).wp Event.Good d post early := by
  obtain ⟨hlt, rfl⟩ := List.getElem?_eq_some_iff.mp hr
  have hindex : index / 3 < extraListFieldCount := hlt.trans_le t.recipients_length_le
  have hstands := h.recipient_stands _ hlt hindex
  have hpayload := hstands.payload_le
  have hrange : ¬ index + 12 ≥ displayCount + v.extraToFieldsItems * 3 := by
    rw [h.extraToFieldsItems]
    simp only [displayCount]
    omega
  unfold printExtraFields
  rw [if_neg hrange, Nat.add_sub_cancel]
  simp only [hindex, dif_pos, Command.wp_scope, Command.wp_bind, Command.wp_zoom, Lens.fst_get,
    Lens.fst_set]
  apply wp_rlpReadList hmem hstands (by omega) le_rfl (by decide)
  · rintro found rlps stored hitems _ ⟨address, hptr, _, hend, hlayout⟩ hholds
    obtain rfl : found = [_, _, _] :=
      Except.ok.inj (hitems.symm.trans t.recipients[index / 3].items_eq)
    rw [← hholds.toList_eq (by rw [hlayout.length_eq]; rfl)] at hlayout
    have hlayout' : Layout mem address _ stored.items.toList
        (#v[t.recipients[index / 3].toItem, t.recipients[index / 3].amount,
          t.recipients[index / 3].payload] : Vector Piece 3).toList := hlayout
    have hto : stored.items[0].Stands mem _ _ t.recipients[index / 3].toItem :=
      hlayout'.vector_stands 0 (by decide)
    have hamount : stored.items[1].Stands mem _ _ t.recipients[index / 3].amount :=
      hlayout'.vector_stands 1 (by decide)
    have hdata : stored.items[2].Stands mem _ _ t.recipients[index / 3].payload :=
      hlayout'.vector_stands 2 (by decide)
    simp only [Command.wp_read, Lens.snd_get, Lens.snd_set]
    -- every entry shows three items, and the index says which of them is meant
    have hfield : index % 3 < 3 := Nat.mod_lt _ (by decide)
    generalize index % 3 = fieldIdx at hfield hpost hearly
    obtain rfl | rfl | rfl : fieldIdx = 0 ∨ fieldIdx = 1 ∨ fieldIdx = 2 := by omega
    · simp only [Recipient.item] at hpost hearly
      rw [printExtraField]
      exact wp_keyed (shows_printRecipientText (hend.trans hmem) hto _ pageIdx) hcount hmin hmax
        hpost hearly
    · simp only [Recipient.item] at hpost hearly
      rw [printExtraField]
      exact wp_keyed (shows_printRecipientAmount (hend.trans hmem) hamount _ pageIdx) hcount hmin
        hmax hpost hearly
    · simp only [Recipient.item] at hpost hearly
      rw [printExtraField]
      exact wp_keyed (shows_printRecipientText (hend.trans hmem) hdata _ pageIdx) hcount hmin hmax
        hpost hearly
  · intro code herror
    cases t.recipients[index / 3].items_eq.symm.trans herror

/-- The code renders at each index what the table says. -/
theorem wp_printItem (hmem : hi ≤ mem.length) (hhi : hi < 2 ^ 16) (h : v.Views mem hi t)
    {displayIdx pageIdx : Nat} {key : List UInt8} {rendering : Rendering}
    (hitem : t.item displayIdx = some (key, rendering)) {d : Display} (hcount : d.pageCount = 1)
    (hmin : 2 ≤ d.outVal.length) (hmax : d.outVal.length < 2 ^ 32)
    (hpost : ∀ shown, rendering.show zx (u8 t.number) pageIdx d.outVal = .ok shown →
      post () ⟨snprintf key d.outKey, shown.1, shown.2⟩)
    (hearly : ∀ code d', rendering.show zx (u8 t.number) pageIdx d.outVal = .error code →
      d'.outKey.length = d.outKey.length → d'.outVal.length = d.outVal.length →
      early (.error code) d') :
    (printItem zx mem v displayIdx pageIdx).wp Event.Good d post early := by
  have hfield (i : Nat) (hi' : i < rootFieldCount) := h.fields_stands i hi'
  have hextra (i : Nat) (hi' : i < extraFieldCount) := h.extraFields_stands i hi'
  match displayIdx, hitem with
  | 0, hitem =>
      cases hitem
      exact wp_keyed (shows_printUInt256 hmem (hfield 0 (by decide)) _ pageIdx) hcount hmin hmax
        hpost hearly
  | 1, hitem =>
      cases hitem
      exact wp_keyed (shows_printUInt256 hmem (hfield 1 (by decide)) _ pageIdx) hcount hmin hmax
        hpost hearly
  | 2, hitem =>
      cases hitem
      exact wp_keyed (shows_printUInt256 hmem (hfield 2 (by decide)) _ pageIdx) hcount hmin hmax
        hpost hearly
  | 3, hitem =>
      cases hitem
      exact wp_keyed (shows_printPage hmem (hfield 3 (by decide)) _ pageIdx) hcount hmin hmax
        hpost hearly
  | 4, hitem =>
      cases hitem
      exact wp_keyed (shows_printUInt256 hmem (hfield 4 (by decide)) _ pageIdx) hcount hmin hmax
        hpost hearly
  | 5, hitem =>
      cases hitem
      rw [← h.extraTxType] at hpost hearly
      exact wp_keyed (shows_printDataField hmem (hfield 5 (by decide)) _ pageIdx) hcount hmin hmax
        hpost hearly
  | 6, hitem =>
      cases hitem
      exact wp_keyed (shows_printChainID hmem (hfield 6 (by decide)) _ pageIdx) hcount hmin hmax
        hpost hearly
  | 7, hitem =>
      cases hitem
      exact wp_keyed (shows_printUInt256 hmem (hfield 7 (by decide)) _ pageIdx) hcount hmin hmax
        hpost hearly
  | 8, hitem =>
      cases hitem
      exact wp_keyed (shows_printUInt256 hmem (hfield 10 (by decide)) _ pageIdx) hcount hmin hmax
        hpost hearly
  | 9, hitem =>
      cases hitem
      exact wp_keyed (shows_printCommitTime hmem (hfield 11 (by decide)) _ pageIdx) hcount hmin hmax
        hpost hearly
  | 10, hitem =>
      cases hitem
      rw [← h.extraTxType] at hpost hearly
      exact wp_keyed (shows_printTxType _ pageIdx) hcount hmin hmax
        hpost hearly
  | 11, hitem =>
      cases hitem
      exact wp_keyed (shows_printUInt256 hmem (hextra 1 (by decide)) _ pageIdx) hcount hmin hmax
        hpost hearly
  | index + 12, hitem =>
      obtain ⟨r, hr, heq⟩ := Option.map_eq_some_iff.mp hitem
      obtain rfl := congrArg Prod.fst heq
      obtain rfl := congrArg Prod.snd heq
      exact wp_printExtraFields hmem hhi h hr hcount hmin hmax hpost hearly

/-- The table covers the indices below the number of items, and no others. -/
theorem Transaction.item_eq_none_iff {displayIdx : Nat} :
    t.item displayIdx = none ↔ displayCount + t.recipients.length * 3 ≤ displayIdx := by
  unfold Transaction.item
  split
  case h_13 index =>
    rw [Option.map_eq_none_iff, List.getElem?_eq_none_iff, displayCount]
    omega
  all_goals
    simp only [reduceCtorEq, displayCount, false_iff, not_le]
    omega

/-- The items of a recipient follow each other. -/
theorem Transaction.item_recipient {i k : Nat} {r : Recipient} (hr : t.recipients[i]? = some r)
    (hk : k < 3) : t.item (12 + 3 * i + k) = some (r.item i k) := by
  have hindex : 12 + 3 * i + k = 3 * i + k + 12 := by omega
  have hdiv : (3 * i + k) / 3 = i := by omega
  have hmod : (3 * i + k) % 3 = k := by omega
  rw [hindex]
  simp only [Transaction.item, hdiv, hmod, hr, Option.map_some]

/-- The number of items is 12 and three for every recipient. -/
theorem wp_parserGetNumItems {σ : Type} {s : σ} {state : ParserState}
    (h : state.txObj.Views mem hi t) (htx : state.ctx.txObj = true) {post : Nat → σ → Prop}
    {early : Stop → σ → Prop} (hpost : post (displayCount + t.recipients.length * 3) s) :
    (parserGetNumItems state : Parser σ Nat).wp Event.Good s post early := by
  have hle := t.recipients_length_le
  have hfit : u8 (displayCount + state.txObj.extraToFieldsItems * 3) =
      displayCount + t.recipients.length * 3 := by
    rw [h.extraToFieldsItems, u8]
    simp only [displayCount, extraListFieldCount] at hle ⊢
    omega
  unfold parserGetNumItems
  rw [if_neg (not_not.mpr htx), hfit]
  exact (Command.wp_pure _).mpr hpost

/-- Every item is shown as the table says, into buffers of any content. -/
theorem wp_parserGetItem (hmem : hi ≤ mem.length) (hhi : hi < 2 ^ 16) {state : ParserState}
    (h : state.txObj.Views mem hi t) (htx : state.ctx.txObj = true) {displayIdx pageIdx : Nat}
    {d : Display} (hmin : 2 ≤ d.outVal.length) (hmax : d.outVal.length < 2 ^ 32)
    (hpost : ∀ d', t.showItem zx displayIdx pageIdx d.outKey.length d.outVal.length = .ok d' →
      post () d')
    (hearly : ∀ code d',
      t.showItem zx displayIdx pageIdx d.outKey.length d.outVal.length = .error code →
      d'.outKey.length = d.outKey.length → d'.outVal.length = d.outVal.length →
      early (.error code) d') :
    (parserGetItem zx mem state displayIdx pageIdx).wp Event.Good d post early := by
  simp only [Transaction.showItem] at hpost hearly
  simp only [parserGetItem, Command.wp_bind, Command.wp_modify]
  apply wp_parserGetNumItems h htx
  simp only [checkSanity]
  cases hitem : t.item displayIdx with
  | none =>
      rw [hitem] at hearly
      rw [if_pos (Transaction.item_eq_none_iff.mp hitem)]
      exact (wp_fail _).mpr (hearly _ _ rfl rfl rfl)
  | some found =>
      obtain ⟨key, rendering⟩ := found
      rw [hitem] at hpost hearly
      have hinside : ¬ displayIdx ≥ displayCount + t.recipients.length * 3 := by
        rw [ge_iff_le, ← Transaction.item_eq_none_iff, hitem]
        exact Option.some_ne_none _
      have hlength : (clearedValue d.outVal.length).length = d.outVal.length := by
        rw [clearedValue, snprintf_length, List.length_replicate]
      rw [if_neg hinside]
      simp only [Command.wp_pure, cleanOutput, Command.wp_modify]
      -- the buffers are cleared first, so what they held does not matter
      apply wp_printItem hmem hhi h hitem rfl
      · exact hlength.symm ▸ hmin
      · exact hlength.symm ▸ hmax
      · intro shown hshown
        refine hpost _ ?_
        change ((rendering.show zx (u8 t.number) pageIdx (clearedValue d.outVal.length)).map _) = _
        have hshown' : rendering.show zx (u8 t.number) pageIdx (clearedValue d.outVal.length) =
          .ok shown := hshown
        rw [hshown']
        rfl
      · intro code d' herror hkey hvalue
        refine hearly code d' ?_ ?_ ?_
        · have herror' : rendering.show zx (u8 t.number) pageIdx
            (clearedValue d.outVal.length) = .error code := herror
          simp only [herror', Except.map]
        · rw [hkey, snprintf_length, List.length_replicate]
        · rw [hvalue, snprintf_length, List.length_replicate]

end Items

end LedgerMatrix
