import LedgerMatrix.Display.Validity

/-! # Keys and what stands under them

Each key of the display names a field of the transaction. The item under
`EnterType` is read from the field `R`, two places before the field that its key
names. The type that is shown is the last byte of the type that is encoded.
-/

namespace LedgerMatrix

open Imperative RecursiveLength

/-! ## The type of a transaction -/

/-- The values of `tx_type_e`. -/
def txTypes : List Nat := [0, 1, 2, 3, 4, 5, 6, 9, 10, 11, 12, 13, 14, 122]

/-- The integer that the type item encodes is stored, declared, and what the
label and the rendering of the data go by. -/
def TypeShown (zx : Zxlib) (bytes : List UInt8) (state : ParserState) (t : Transaction) : Prop :=
  state.txObj.extraTxType = t.number ∧ t.number ∈ txTypes ∧
    DisplaysAs zx bytes state 10 t.number (ascii "TxType") .txType ∧
    DisplaysAs zx bytes state 5 t.number (ascii "Data") (.data (t.fields.get RootField.data))

/-- The types that have a label, with their labels. -/
def labels : List (Nat × String) :=
  [(0, "Normal"), (3, "Scheduled"), (4, "Revert"), (5, "Authorize"), (6, "Cancel Auth"),
    (9, "Create curr")]

theorem mem_labels {number : Nat} {name : String} (h : typeName number = some name) :
    (number, name) ∈ labels := by
  unfold typeName at h
  split at h
  all_goals first
    | cases h
      decide
    | cases h

/-- A label belongs to one type, fits any value buffer of the display, and has no
zero byte. -/
theorem labels_spec : ∀ first ∈ labels, first.1 ∈ txTypes ∧ (ascii first.2).length < 40 ∧
    (0 : UInt8) ∉ ascii first.2 ∧
    ∀ second ∈ labels, ascii first.2 = ascii second.2 → first.1 = second.1 := by
  decide +kernel

theorem show_txType_eq_ok {zx : Zxlib} {extraTxType pageIdx : Nat} {value : List UInt8}
    {shown : List UInt8 × Nat} :
    Rendering.txType.show zx extraTxType pageIdx value = .ok shown ↔
      ∃ name, typeName extraTxType = some name ∧ shown = (snprintf (ascii name) value, 1) := by
  simp only [Rendering.show]
  cases typeName extraTxType with
  | none => simp
  | some name => simp [eq_comm]

section TypeLabels

variable {zx : Zxlib} {bytes bytes' : List UInt8} {state state' : ParserState}
  {t t' : Transaction}

/-- A valid transaction has a type with a label. -/
theorem Transaction.Valid.typeName_isSome (h : t.Valid zx) :
    ∃ name, typeName (u8 t.number) = some name := by
  have hitem : t.item 10 = some (ascii "TxType", .txType) := rfl
  obtain ⟨shown, hshown⟩ := h.show_ok hitem
  obtain ⟨name, hname, -⟩ := show_txType_eq_ok.mp hshown
  exact ⟨name, hname⟩

theorem Holds.typeShown_iff (h : Holds bytes state t) (hvalid : t.Valid zx) :
    TypeShown zx bytes state t ↔ t.number < 2 ^ 8 := by
  constructor
  · rintro ⟨hstored, -⟩
    rw [h.views.extraTxType] at hstored
    exact hstored ▸ Nat.mod_lt _ (by decide)
  · intro hlt
    have hsame : u8 t.number = t.number := Nat.mod_eq_of_lt hlt
    obtain ⟨name, hname⟩ := hvalid.typeName_isSome
    have hlabel : DisplaysAs zx bytes state 10 (u8 t.number) (ascii "TxType") .txType :=
      h.displaysAs rfl
    have hdata : DisplaysAs zx bytes state 5 (u8 t.number) (ascii "Data")
        (.data (t.fields.get RootField.data)) :=
      h.displaysAs rfl
    rw [hsame] at hname hlabel hdata
    exact ⟨h.views.extraTxType.trans hsame, (labels_spec _ (mem_labels hname)).1, hlabel, hdata⟩

/-- Transactions of different types have different labels, as long as the types
are below 256. -/
theorem TypeShown.label_ne (h : TypeShown zx bytes state t) (h' : TypeShown zx bytes' state' t')
    (hne : t.number ≠ t'.number) {pageIdx : Nat} {d d₁ d₂ : Display}
    (hmin : 40 ≤ d.outVal.length) (hmax : d.outVal.length < 2 ^ 16)
    (h₁ : (parserGetItem zx bytes state 10 pageIdx).outcome d = .done () d₁)
    (h₂ : (parserGetItem zx bytes' state' 10 pageIdx).outcome d = .done () d₂) :
    cString d₁.outVal ≠ cString d₂.outVal := by
  obtain ⟨_, hshow₁, rfl⟩ := (h.2.2.1 pageIdx d d₁ (by omega) hmax).mp h₁
  obtain ⟨_, hshow₂, rfl⟩ := (h'.2.2.1 pageIdx d d₂ (by omega) hmax).mp h₂
  obtain ⟨name₁, hname₁, rfl⟩ := show_txType_eq_ok.mp hshow₁
  obtain ⟨name₂, hname₂, rfl⟩ := show_txType_eq_ok.mp hshow₂
  obtain ⟨-, hfit₁, hzero₁, hinj⟩ := labels_spec _ (mem_labels hname₁)
  obtain ⟨-, hfit₂, hzero₂, -⟩ := labels_spec _ (mem_labels hname₂)
  have hlength := clearedValue_length d.outVal.length
  rw [cString_snprintf hzero₁ (by omega), cString_snprintf hzero₂ (by omega)]
  exact fun heq => hne (hinj _ (mem_labels hname₂) heq)

/-- The type that is stored and shown is the encoded one exactly when that is
below 256; and among such transactions different types have different labels. -/
theorem typeShown_iff_lt (h : Accepted zx bytes state) :
    ∃ t, t.Decodes (seen bytes) ∧ (TypeShown zx bytes state t ↔ t.number < 2 ^ 8) ∧
      ∀ (bytes' : List UInt8) (state' : ParserState) (t' : Transaction),
        Accepted zx bytes' state' → t'.Decodes (seen bytes') →
        t.number < 2 ^ 8 → t'.number < 2 ^ 8 → t.number ≠ t'.number →
        ∀ pageIdx d d₁ d₂, 40 ≤ d.outVal.length → d.outVal.length < 2 ^ 16 →
          (parserGetItem zx bytes state 10 pageIdx).outcome d = .done () d₁ →
          (parserGetItem zx bytes' state' 10 pageIdx).outcome d = .done () d₂ →
          cString d₁.outVal ≠ cString d₂.outVal := by
  obtain ⟨t, hholds, hvalid⟩ := h.exists_holds
  refine ⟨t, hholds.decodes, hholds.typeShown_iff hvalid, ?_⟩
  intro bytes' state' t' h' ht' hlt hlt' hne pageIdx d d₁ d₂ hmin hmax h₁ h₂
  obtain ⟨hholds', hvalid'⟩ := h'.holds ht'
  exact ((hholds.typeShown_iff hvalid).mpr hlt).label_ne ((hholds'.typeShown_iff hvalid').mpr hlt')
    hne hmin hmax h₁ h₂

theorem typeShown_iff_lt_filled : ∃ t, t.Decodes (seen filled) ∧
    (TypeShown Zxlib.reference filled (parsedState filled) t ↔ t.number < 2 ^ 8) := by
  obtain ⟨t, ht, hiff, -⟩ := typeShown_iff_lt filled_accepted
  exact ⟨t, ht, hiff⟩

/-- A transaction whose type is encoded as 256. -/
def aliasedType : List UInt8 :=
  [0xd3, 0x80, 0x80, 0x80, 0x80, 0x80, 0x80, 0x03, 0x80, 0x80, 0x80, 0x80, 0x80,
    0xc6, 0xc5, 0x82, 0x01, 0x00, 0x80, 0xc0]

/-- It is accepted and shown as a transaction of type 0. -/
theorem aliasedType_shown : Accepted Zxlib.reference aliasedType (parsedState aliasedType) ∧
    ∀ t : Transaction, t.Decodes (seen aliasedType) → t.number = 256 ∧
      ¬ TypeShown Zxlib.reference aliasedType (parsedState aliasedType) t := by
  have haccepted : Accepted Zxlib.reference aliasedType (parsedState aliasedType) :=
    ⟨⟨.initial, by decide +kernel⟩, by decide +kernel⟩
  refine ⟨haccepted, fun t ht => ?_⟩
  obtain ⟨hholds, -⟩ := haccepted.holds ht
  have hcontent : (parsedState aliasedType).txObj.extraFields[0].content aliasedType =
      t.typeItem.payload := (hholds.views.extraFields_stands 0 (by decide)).content_eq
  have hpayload : (parsedState aliasedType).txObj.extraFields[0].content aliasedType = [1, 0] := by
    decide +kernel
  have hnumber : t.number = 256 := by
    rw [← (readUInt256_eq_ok.mp t.type_number).2, ← hcontent, hpayload]
    decide
  have hstored : (parsedState aliasedType).txObj.extraTxType = 0 := by decide +kernel
  refine ⟨hnumber, fun hshown => ?_⟩
  have hsame := hshown.1
  rw [hstored, hnumber] at hsame
  cases hsame

end TypeLabels

/-! ## The fields that the keys name -/

/-- The first twelve items of the display as their keys name the fields. The root
list is nonce, gas price, gas limit, to, value, data, V, R, S, enter type, is
entrust tx, commit time and extra; R and S have no key. -/
def Transaction.named (t : Transaction) : Nat → Option (List UInt8 × Rendering)
  | 0 => some (ascii "Nonce", .number (t.fields.get RootField.nonce))
  | 1 => some (ascii "Gas Price", .number (t.fields.get RootField.gasPrice))
  | 2 => some (ascii "Gas Limit", .number (t.fields.get RootField.gasLimit))
  | 3 => some (ascii "To", .page (t.fields.get RootField.to))
  | 4 => some (ascii "Value", .number (t.fields.get RootField.value))
  | 5 => some (ascii "Data", .data (t.fields.get RootField.data))
  | 6 => some (ascii "ChainID", .chain (t.fields.get RootField.v))
  | 7 => some (ascii "EnterType", .number (t.fields.get RootField.enterType))
  | 8 => some (ascii "IsEntrustTx", .number (t.fields.get RootField.isEntrustTx))
  | 9 => some (ascii "CommitTime", .time (t.fields.get RootField.commitTime))
  | 10 => some (ascii "TxType", .txType)
  | 11 => some (ascii "Lock Height", .number t.lockHeight)
  | _ => none

/-- Each of the first twelve items is computed from the field that its key names. -/
def LabelsAgree (zx : Zxlib) (bytes : List UInt8) (state : ParserState) (t : Transaction) : Prop :=
  ∀ displayIdx key rendering, t.named displayIdx = some (key, rendering) →
    DisplaysAs zx bytes state displayIdx (u8 t.number) key rendering

section Fields

variable {zx : Zxlib} {bytes bytes' : List UInt8} {state state' : ParserState}
  {t t' : Transaction}

/-- Only the item under `EnterType` is not the one that its key names. -/
theorem Transaction.named_eq_item {displayIdx : Nat} (hne : displayIdx ≠ 7)
    {entry : List UInt8 × Rendering} (h : t.named displayIdx = some entry) :
    t.item displayIdx = some entry := by
  unfold Transaction.named at h
  split at h
  case h_8 => exact absurd rfl hne
  case h_13 => cases h
  all_goals exact h

/-- A number is shown like another in every buffer only when it is the same. -/
theorem readUInt256_eq_of_show {zx : Zxlib} {extraTxType pageIdx number : Nat}
    {value : List UInt8} {piece piece' : Piece} {shown : List UInt8 × Nat}
    (hread : readUInt256 piece = .ok number)
    (h : (Rendering.number piece).show zx extraTxType pageIdx value = .ok shown)
    (h' : (Rendering.number piece').show zx extraTxType pageIdx value = .ok shown) :
    readUInt256 piece' = .ok number := by
  obtain ⟨hkind, hfit, hshown⟩ := show_number_eq_ok.mp h
  obtain ⟨hkind', hfit', hshown'⟩ := show_number_eq_ok.mp h'
  have hnumber := (readUInt256_eq_ok.mp hread).2
  refine readUInt256_eq_ok.mpr ⟨hkind', ?_⟩
  have htexts := congrArg cString (congrArg Prod.fst (hshown'.symm.trans hshown))
  simp only at htexts
  rw [cString_snprintf (Numeral.zero_notMem_text (by decide) (by decide)) hfit',
    cString_snprintf (Numeral.zero_notMem_text (by decide) (by decide)) hfit,
    Numeral.text_inj (by decide) (by decide)] at htexts
  rw [htexts, hnumber]

theorem Holds.labelsAgree_iff (h : Holds bytes state t) (hvalid : t.Valid zx) :
    LabelsAgree zx bytes state t ↔
      readUInt256 (t.fields.get RootField.enterType) = readUInt256 (t.fields.get RootField.r) := by
  have hshown : DisplaysAs zx bytes state 7 (u8 t.number) (ascii "EnterType")
      (.number (t.fields.get RootField.r)) := h.displaysAs rfl
  have hitem : t.item 7 = some (ascii "EnterType", .number (t.fields.get RootField.r)) := rfl
  constructor
  · intro hagree
    have hnamed := hagree 7 _ _ rfl
    obtain ⟨shown, hshow⟩ := hvalid.show_ok hitem
    obtain ⟨number, hnumber, -⟩ := bind_ok hshow
    have hshow' := (hshown.show_iff hnamed (by decide) (by decide)).mp hshow
    rw [hnumber]
    exact readUInt256_eq_of_show hnumber hshow hshow'
  · intro hsame displayIdx key rendering hnamed
    by_cases henter : displayIdx = 7
    · subst henter
      cases hnamed
      intro pageIdx d d' hmin hmax
      rw [hshown pageIdx d d' hmin hmax]
      simp only [Rendering.show, hsame]
    · exact h.displaysAs (Transaction.named_eq_item henter hnamed)

/-- The names do not mention R and S. -/
theorem Transaction.named_congr
    (hfields : ∀ i, i ≠ RootField.r → i ≠ RootField.s → t.fields.get i = t'.fields.get i)
    (hlock : t.lockHeight = t'.lockHeight) (displayIdx : Nat) :
    t.named displayIdx = t'.named displayIdx := by
  unfold Transaction.named
  split
  case h_12 => rw [hlock]
  case h_11 => rfl
  case h_13 => rfl
  all_goals rw [hfields _ (by decide) (by decide)]

theorem Transaction.named_isSome (t : Transaction) {displayIdx : Nat}
    (hlt : displayIdx < displayCount) : ∃ entry, t.named displayIdx = some entry := by
  match displayIdx, hlt with
  | 0, _ | 1, _ | 2, _ | 3, _ | 4, _ | 5, _ => exact ⟨_, rfl⟩
  | 6, _ | 7, _ | 8, _ | 9, _ | 10, _ | 11, _ => exact ⟨_, rfl⟩

/-- Transactions that differ in R or S only are displayed in the same way. -/
theorem LabelsAgree.getItem_iff (h : LabelsAgree zx bytes state t)
    (h' : LabelsAgree zx bytes' state' t')
    (hfields : ∀ i, i ≠ RootField.r → i ≠ RootField.s → t.fields.get i = t'.fields.get i)
    {displayIdx : Nat} (hlt : displayIdx < displayCount) {pageIdx : Nat} {d d' : Display}
    (hmin : 2 ≤ d.outVal.length) (hmax : d.outVal.length < 2 ^ 16) :
    (parserGetItem zx bytes state displayIdx pageIdx).outcome d = .done () d' ↔
      (parserGetItem zx bytes' state' displayIdx pageIdx).outcome d = .done () d' := by
  -- the type and the lock height stand in the last field
  obtain ⟨-, -, hlock, -, hnumber, -⟩ :=
    Transaction.eq_of_extra_eq (hfields RootField.extra (by decide) (by decide))
  obtain ⟨⟨key, rendering⟩, hnamed⟩ := t.named_isSome hlt
  have hnamed' := (Transaction.named_congr hfields hlock displayIdx).symm.trans hnamed
  rw [h _ _ _ hnamed pageIdx d d' hmin hmax, h' _ _ _ hnamed' pageIdx d d' hmin hmax, hnumber]

/-- Transactions with different enter types are displayed in different ways. -/
theorem LabelsAgree.enterType_ne (h : LabelsAgree zx bytes state t)
    (h' : LabelsAgree zx bytes' state' t')
    (hne : BigEndian.value (t.fields.get RootField.enterType).payload ≠
      BigEndian.value (t'.fields.get RootField.enterType).payload)
    {pageIdx : Nat} {d d₁ d₂ : Display} (hmin : 2 ≤ d.outVal.length)
    (hmax : d.outVal.length < 2 ^ 16)
    (h₁ : (parserGetItem zx bytes state 7 pageIdx).outcome d = .done () d₁)
    (h₂ : (parserGetItem zx bytes' state' 7 pageIdx).outcome d = .done () d₂) : d₁ ≠ d₂ := by
  rintro rfl
  obtain ⟨shown, hshow, hd⟩ := (h 7 _ _ rfl pageIdx d d₁ hmin hmax).mp h₁
  obtain ⟨shown', hshow', hd'⟩ := (h' 7 _ _ rfl pageIdx d d₁ hmin hmax).mp h₂
  have hvalue := congrArg Display.outVal (hd.symm.trans hd')
  simp only at hvalue
  obtain ⟨hkind, hfit, hshown⟩ := show_number_eq_ok.mp hshow
  obtain ⟨hkind', hfit', hshown'⟩ := show_number_eq_ok.mp hshow'
  have hzero (number : Nat) : (0 : UInt8) ∉ Numeral.text 10 number :=
    Numeral.zero_notMem_text (by decide) (by decide)
  have htexts := congrArg cString hvalue
  rw [hshown, hshown', cString_snprintf (hzero _) hfit, cString_snprintf (hzero _) hfit',
    Numeral.text_inj (by decide) (by decide)] at htexts
  exact hne htexts

/-- The labels agree with the fields exactly when R and the enter type are the
same readable number. Among such transactions R and S do not show, and the enter
type does. -/
theorem labelsAgree_iff_same_number (h : Accepted zx bytes state) :
    ∃ t, t.Decodes (seen bytes) ∧
      (LabelsAgree zx bytes state t ↔
        readUInt256 (t.fields.get RootField.enterType) = readUInt256 (t.fields.get RootField.r)) ∧
      ∀ (bytes' : List UInt8) (state' : ParserState) (t' : Transaction),
        Accepted zx bytes' state' → t'.Decodes (seen bytes') →
        readUInt256 (t.fields.get RootField.enterType) = readUInt256 (t.fields.get RootField.r) →
        readUInt256 (t'.fields.get RootField.enterType) = readUInt256 (t'.fields.get RootField.r) →
        ((∀ i, i ≠ RootField.r → i ≠ RootField.s → t.fields.get i = t'.fields.get i) →
          ∀ displayIdx < displayCount, ∀ pageIdx d d', 2 ≤ d.outVal.length →
            d.outVal.length < 2 ^ 16 →
            ((parserGetItem zx bytes state displayIdx pageIdx).outcome d = .done () d' ↔
              (parserGetItem zx bytes' state' displayIdx pageIdx).outcome d = .done () d')) ∧
        (BigEndian.value (t.fields.get RootField.enterType).payload ≠
            BigEndian.value (t'.fields.get RootField.enterType).payload →
          ∀ pageIdx d d₁ d₂, 2 ≤ d.outVal.length → d.outVal.length < 2 ^ 16 →
            (parserGetItem zx bytes state 7 pageIdx).outcome d = .done () d₁ →
            (parserGetItem zx bytes' state' 7 pageIdx).outcome d = .done () d₂ → d₁ ≠ d₂) := by
  obtain ⟨t, hholds, hvalid⟩ := h.exists_holds
  refine ⟨t, hholds.decodes, hholds.labelsAgree_iff hvalid, ?_⟩
  intro bytes' state' t' h' ht' hsame hsame'
  obtain ⟨hholds', hvalid'⟩ := h'.holds ht'
  have hagree := (hholds.labelsAgree_iff hvalid).mpr hsame
  have hagree' := (hholds'.labelsAgree_iff hvalid').mpr hsame'
  refine ⟨fun hfields => ?_, ?_⟩
  · intro displayIdx hlt pageIdx d d' hmin hmax
    exact hagree.getItem_iff hagree' hfields hlt hmin hmax
  · intro hne pageIdx d d₁ d₂ hmin hmax h₁ h₂
    exact hagree.enterType_ne hagree' hne hmin hmax h₁ h₂

theorem labelsAgree_iff_same_number_filled : ∃ t, t.Decodes (seen filled) ∧
    (LabelsAgree Zxlib.reference filled (parsedState filled) t ↔
      readUInt256 (t.fields.get RootField.enterType) = readUInt256 (t.fields.get RootField.r)) := by
  obtain ⟨t, ht, hiff, -⟩ := labelsAgree_iff_same_number filled_accepted
  exact ⟨t, ht, hiff⟩

/-- A transaction whose R is 5 and whose enter type is 0. -/
def enterTypeFromR : List UInt8 :=
  [0xd1, 0x80, 0x80, 0x80, 0x80, 0x80, 0x80, 0x03, 0x05, 0x80, 0x80, 0x80, 0x80,
    0xc4, 0xc3, 0x80, 0x80, 0xc0]

/-- It is accepted, and its enter type is shown as 5. -/
theorem enterTypeFromR_shown :
    Accepted Zxlib.reference enterTypeFromR (parsedState enterTypeFromR) ∧
    ∀ t : Transaction, t.Decodes (seen enterTypeFromR) →
      BigEndian.value (t.fields.get RootField.r).payload = 5 ∧
      BigEndian.value (t.fields.get RootField.enterType).payload = 0 ∧
      ¬ LabelsAgree Zxlib.reference enterTypeFromR (parsedState enterTypeFromR) t := by
  have haccepted : Accepted Zxlib.reference enterTypeFromR (parsedState enterTypeFromR) :=
    ⟨⟨.initial, by decide +kernel⟩, by decide +kernel⟩
  refine ⟨haccepted, fun t ht => ?_⟩
  obtain ⟨hholds, hvalid⟩ := haccepted.holds ht
  have hstands (i : Fin rootFieldCount) :
      ((parsedState enterTypeFromR).txObj.fields.get i).Stands _ _ _ (t.fields.get i) :=
    hholds.views.fields_stands i.val i.isLt
  have hr : BigEndian.value (t.fields.get RootField.r).payload = 5 := by
    rw [← (hstands RootField.r).content_eq]
    decide +kernel
  have henter : BigEndian.value (t.fields.get RootField.enterType).payload = 0 := by
    rw [← (hstands RootField.enterType).content_eq]
    decide +kernel
  have hkind : (t.fields.get RootField.r).kind = .byte := by
    rw [← (hstands RootField.r).kind_eq]
    decide +kernel
  refine ⟨hr, henter, fun hagree => ?_⟩
  have hsame := (hholds.labelsAgree_iff hvalid).mp hagree
  rw [readUInt256_eq_ok.mpr ⟨.inl hkind, hr⟩, readUInt256_eq_ok, henter] at hsame
  cases hsame.2

end Fields

end LedgerMatrix
