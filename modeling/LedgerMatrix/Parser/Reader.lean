import LedgerMatrix.Parser.Transaction

/-! # Reading without pointers

A transaction is read from the bytes in the order in which the parser reads them.
What is found wrong first gives the code of the error.
-/

namespace LedgerMatrix

open RecursiveLength

section Steps

variable {ε α β : Type}

/-- A step that knows what the step before it returned. -/
def pbind (c : Except ε α) (f : ∀ a, c = .ok a → Except ε β) : Except ε β :=
  match c, f with
  | .error code, _ => .error code
  | .ok a, f => f a rfl

variable {c : Except ε α} {f : ∀ a, c = .ok a → Except ε β}

theorem pbind_of_ok {a : α} (h : c = .ok a) : pbind c f = f a h := by
  subst h
  rfl

theorem pbind_of_error {code : ε} (h : c = .error code) : pbind c f = .error code := by
  subst h
  rfl

theorem pbind_eq_ok {b : β} : pbind c f = .ok b ↔ ∃ a, ∃ h : c = .ok a, f a h = .ok b := by
  cases c with
  | error code =>
      rw [pbind_of_error rfl]
      simp
  | ok a =>
      rw [pbind_of_ok rfl]
      constructor
      · exact fun h => ⟨a, rfl, h⟩
      · rintro ⟨_, heq, h⟩
        cases heq
        exact h

end Steps

/-! ## Lists of a fixed length -/

section Exact

variable {count : Nat} {short : ParserError} {piece : Piece}

/-- The items of a list, of which there must be so many at its front. -/
def readExactly (count : Nat) (short : ParserError) (piece : Piece) :
    Except ParserError (Vector Piece count) :=
  (readItems count piece).bind fun found =>
    if h : found.length = count then .ok ⟨found.toArray, h⟩ else .error short

theorem readExactly_of_error {code : ParserError} (h : readItems count piece = .error code) :
    readExactly count short piece = .error code := by
  rw [readExactly, h]
  rfl

theorem readExactly_of_short {found : List Piece} (h : readItems count piece = .ok found)
    (hne : found.length ≠ count) : readExactly count short piece = .error short := by
  rw [readExactly, h]
  exact dif_neg hne

theorem readExactly_eq_ok {items : Vector Piece count} :
    readExactly count short piece = .ok items ↔ readItems count piece = .ok items.toList := by
  cases hitems : readItems count piece with
  | error code =>
      rw [readExactly_of_error hitems]
      simp
  | ok found =>
      by_cases hlength : found.length = count
      · have hread : readExactly count short piece = .ok ⟨found.toArray, hlength⟩ := by
          rw [readExactly, hitems]
          exact dif_pos hlength
        rw [hread, Except.ok.injEq, Except.ok.injEq, ← Vector.toList_inj]
        rfl
      · rw [readExactly_of_short hitems hlength]
        refine iff_of_false (by simp) fun heq => hlength ?_
        rw [Except.ok.inj heq, Vector.length_toList]

end Exact

/-! ## The stages -/

/-- The list inside the extra list. An empty extra list leaves `{0}` in its place,
which is no list. -/
def readInner (extra : Piece) : Except ParserError Piece :=
  (readItems 1 extra).bind fun found => match found with
    | [inner] => .ok inner
    | _ => .error .unexpectedError

/-- The list inside the extra list, with its three items. -/
def readExtra (extra : Piece) : Except ParserError (Piece × Vector Piece extraFieldCount) :=
  (readInner extra).bind fun inner =>
    (readExactly extraFieldCount .unexpectedNumberItems inner).map fun items => (inner, items)

/-- The type, whose last byte must be one of those that the search finds. -/
def readTxType (typeItem : Piece) : Except ParserError Nat :=
  (readUInt256 typeItem).bind fun number =>
    if u8 number ≤ txTypeSuperblock then .ok number else .error .valueOutOfRange

/-- An entry of the recipient list. -/
def readRecipient (entry : Piece) : Except ParserError Recipient :=
  match h : readItems extraToFieldCount entry with
  | .error code => .error code
  | .ok [toItem, amount, payload] => .ok ⟨entry, toItem, amount, payload, h⟩
  | .ok _ => .error .unexpectedValue

def readEntries : List Piece → Except ParserError (List Recipient)
  | [] => .ok []
  | entry :: entries =>
      (readRecipient entry).bind fun r =>
        (readEntries entries).map fun recipients => r :: recipients

def readRecipients (extraTo : Piece) : Except ParserError (List Recipient) :=
  (recipientEntries extraTo).bind readEntries

section Stages

variable {extra inner typeItem entry extraTo : Piece}

theorem readInner_eq_ok : readInner extra = .ok inner ↔ readItems 1 extra = .ok [inner] := by
  unfold readInner
  cases readItems 1 extra with
  | error code => simp [Except.bind]
  | ok found =>
      simp only [Except.bind]
      split
      next => simp
      next hother =>
        refine iff_of_false (by simp) fun heq => hother inner (Except.ok.inj heq)

theorem readExtra_eq_ok {items : Vector Piece extraFieldCount} :
    readExtra extra = .ok (inner, items) ↔
      readItems 1 extra = .ok [inner] ∧ readItems extraFieldCount inner = .ok items.toList := by
  rw [← readInner_eq_ok, ← @readExactly_eq_ok _ .unexpectedNumberItems]
  unfold readExtra
  cases readInner extra with
  | error code => simp [Except.bind]
  | ok found =>
      simp only [Except.bind, Except.ok.injEq]
      cases hitems : readExactly extraFieldCount .unexpectedNumberItems found with
      | error code =>
          refine iff_of_false (by simp [Except.map]) ?_
          rintro ⟨rfl, heq⟩
          rw [hitems] at heq
          cases heq
      | ok found' =>
          simp only [Except.map, Except.ok.injEq, Prod.mk.injEq]
          constructor
          · rintro ⟨rfl, rfl⟩
            exact ⟨rfl, hitems⟩
          · rintro ⟨rfl, heq⟩
            exact ⟨rfl, Except.ok.inj (hitems.symm.trans heq)⟩

theorem readExtra_of_error {code : ParserError} (h : readItems 1 extra = .error code) :
    readExtra extra = .error code := by
  rw [readExtra, readInner, h]
  rfl

theorem readExtra_of_nil (h : readItems 1 extra = .ok []) :
    readExtra extra = .error .unexpectedError := by
  rw [readExtra, readInner, h]
  rfl

theorem readExtra_of_inner {code : ParserError} (h : readItems 1 extra = .ok [inner])
    (hinner : readExactly extraFieldCount .unexpectedNumberItems inner = .error code) :
    readExtra extra = .error code := by
  rw [readExtra, readInner_eq_ok.mpr h, Except.bind, hinner]
  rfl

theorem readTxType_of_error {code : ParserError} (h : readUInt256 typeItem = .error code) :
    readTxType typeItem = .error code := by
  rw [readTxType, h]
  rfl

theorem readTxType_of_lt {number : Nat} (h : readUInt256 typeItem = .ok number)
    (hlt : txTypeSuperblock < u8 number) : readTxType typeItem = .error .valueOutOfRange := by
  rw [readTxType, h]
  exact if_neg (Nat.not_le.mpr hlt)

theorem readTxType_eq_ok {number : Nat} :
    readTxType typeItem = .ok number ↔
      readUInt256 typeItem = .ok number ∧ u8 number ≤ txTypeSuperblock := by
  unfold readTxType
  cases readUInt256 typeItem with
  | error code => simp [Except.bind]
  | ok found =>
      simp only [Except.bind, Except.ok.injEq]
      split
      next hle =>
        rw [Except.ok.injEq]
        exact ⟨fun heq => ⟨heq, heq ▸ hle⟩, fun h => h.1⟩
      next hbig =>
        refine iff_of_false (by simp) ?_
        rintro ⟨rfl, hle⟩
        exact hbig hle

theorem readRecipient_of_error {code : ParserError}
    (h : readItems extraToFieldCount entry = .error code) :
    readRecipient entry = .error code := by
  unfold readRecipient
  split
  next heq => rw [Except.error.inj (heq.symm.trans h)]
  next heq => cases heq.symm.trans h
  next heq => cases heq.symm.trans h

theorem readRecipient_of_short {found : List Piece}
    (h : readItems extraToFieldCount entry = .ok found) (hne : found.length ≠ extraToFieldCount) :
    readRecipient entry = .error .unexpectedValue := by
  unfold readRecipient
  split
  next heq => cases heq.symm.trans h
  next heq =>
    rw [← Except.ok.inj (heq.symm.trans h)] at hne
    exact absurd rfl hne
  next => rfl

theorem readRecipient_entry (r : Recipient) : readRecipient r.entry = .ok r := by
  unfold readRecipient
  split
  next heq => cases heq.symm.trans r.items_eq
  next heq => exact congrArg Except.ok (Recipient.eq_of_entry_eq rfl)
  next hother heq => exact absurd (Except.ok.inj (heq.symm.trans r.items_eq)) (hother _ _ _)

theorem readRecipient_eq_ok {r : Recipient} (h : readRecipient entry = .ok r) :
    r.entry = entry := by
  unfold readRecipient at h
  split at h
  next => cases h
  next =>
    cases h
    rfl
  next => cases h

theorem readEntries_map (recipients : List Recipient) :
    readEntries (recipients.map Recipient.entry) = .ok recipients := by
  induction recipients with
  | nil => rfl
  | cons r recipients ih =>
      rw [List.map_cons, readEntries, readRecipient_entry, Except.bind, ih]
      rfl

theorem readEntries_of_first {entries : List Piece} {code : ParserError}
    (h : readRecipient entry = .error code) : readEntries (entry :: entries) = .error code := by
  rw [readEntries, h]
  rfl

theorem readEntries_of_rest {entries : List Piece} {r : Recipient} {code : ParserError}
    (h : readRecipient entry = .ok r) (hrest : readEntries entries = .error code) :
    readEntries (entry :: entries) = .error code := by
  rw [readEntries, h, Except.bind, hrest]
  rfl

theorem readEntries_eq_ok {entries : List Piece} {recipients : List Recipient}
    (h : readEntries entries = .ok recipients) : recipients.map Recipient.entry = entries := by
  induction entries generalizing recipients with
  | nil =>
      cases h
      rfl
  | cons entry entries ih =>
      simp only [readEntries] at h
      cases hentry : readRecipient entry with
      | error code =>
          rw [hentry] at h
          cases h
      | ok r =>
          rw [hentry, Except.bind] at h
          cases hrest : readEntries entries with
          | error code =>
              rw [hrest] at h
              cases h
          | ok rest =>
              rw [hrest] at h
              cases h
              rw [List.map_cons, ih hrest, readRecipient_eq_ok hentry]

theorem readRecipients_of_error {code : ParserError} (h : recipientEntries extraTo = .error code) :
    readRecipients extraTo = .error code := by
  rw [readRecipients, h]
  rfl

theorem readRecipients_of_entries {entries : List Piece} {code : ParserError}
    (h : recipientEntries extraTo = .ok entries) (hentries : readEntries entries = .error code) :
    readRecipients extraTo = .error code := by
  rw [readRecipients, h]
  exact hentries

theorem readRecipients_eq_ok {recipients : List Recipient} :
    readRecipients extraTo = .ok recipients ↔
      recipientEntries extraTo = .ok (recipients.map Recipient.entry) := by
  unfold readRecipients
  constructor
  · intro h
    cases hentries : recipientEntries extraTo with
    | error code =>
        rw [hentries] at h
        cases h
    | ok entries =>
        rw [hentries] at h
        rw [readEntries_eq_ok h]
  · intro h
    rw [h]
    exact readEntries_map recipients

end Stages

/-! ## The whole transaction -/

/-- What the three extra fields are. -/
theorem toList_extraFields {α : Type} (items : Vector α extraFieldCount) :
    items.toList = [items.get ExtraField.txType, items.get ExtraField.lockHeight,
      items.get ExtraField.to] := by
  have hlength : items.toList.length = 3 := Vector.length_toList
  obtain ⟨first, second, third, heq⟩ := List.length_eq_three.mp hlength
  have hget (i : Fin extraFieldCount) :
      ([first, second, third] : List α)[i.val]? = some (items.get i) := by
    rw [← heq, Vector.getElem?_toList, Vector.getElem?_eq_getElem i.isLt]
    rfl
  rw [heq, ← Option.some.inj (hget ExtraField.txType),
    ← Option.some.inj (hget ExtraField.lockHeight), ← Option.some.inj (hget ExtraField.to)]

/-- The transaction of a root list. -/
def readTransaction (root : Piece) : Except ParserError Transaction :=
  pbind (readExactly rootFieldCount .unexpectedNumberItems root) fun fields hfields =>
    pbind (readExtra (fields.get RootField.extra)) fun extra hextra =>
      pbind (readTxType (extra.2.get ExtraField.txType)) fun number hnumber =>
        pbind (readRecipients (extra.2.get ExtraField.to)) fun recipients hrecipients =>
          .ok
            { root := root
              fields := fields
              inner := extra.1
              typeItem := extra.2.get ExtraField.txType
              lockHeight := extra.2.get ExtraField.lockHeight
              extraTo := extra.2.get ExtraField.to
              number := number
              recipients := recipients
              root_items := readExactly_eq_ok.mp hfields
              extra_items := (readExtra_eq_ok.mp hextra).1
              inner_items := (readExtra_eq_ok.mp hextra).2.trans
                (congrArg Except.ok (toList_extraFields extra.2))
              type_number := (readTxType_eq_ok.mp hnumber).1
              type_le := (readTxType_eq_ok.mp hnumber).2
              extraTo_entries := readRecipients_eq_ok.mp hrecipients }

/-- The transaction that bytes are, or the code of the first thing that is wrong
with them. -/
def Transaction.ofBytes (bytes : List UInt8) : Except ParserError Transaction :=
  if bytes = [] then .error .initContextEmpty
  else match next bytes with
    | none => .error .unexpectedBufferEnd
    | some (root, rest) =>
        if rest ≠ [] then .error .unexpectedUnparsedBytes
        else if root.kind ≠ .list then .error .unexpectedType
        else readTransaction root

section Front

variable {bytes : List UInt8}

theorem Transaction.ofBytes_of_next (hne : bytes ≠ []) {root : Piece} {rest : List UInt8}
    (hnext : next bytes = some (root, rest)) : Transaction.ofBytes bytes =
      if rest ≠ [] then .error .unexpectedUnparsedBytes
      else if root.kind ≠ .list then .error .unexpectedType
      else readTransaction root := by
  rw [Transaction.ofBytes, if_neg hne, hnext]

theorem Transaction.ofBytes_of_no_next (hne : bytes ≠ []) (hnext : next bytes = none) :
    Transaction.ofBytes bytes = .error .unexpectedBufferEnd := by
  rw [Transaction.ofBytes, if_neg hne, hnext]

end Front

section Root

variable {root inner typeItem lockHeight extraTo : Piece} {fields : Vector Piece rootFieldCount}
  {number : Nat} {code : ParserError}

theorem readTransaction_of_root
    (h : readExactly rootFieldCount .unexpectedNumberItems root = .error code) :
    readTransaction root = .error code :=
  pbind_of_error h

theorem readTransaction_of_extra (hfields : readItems rootFieldCount root = .ok fields.toList)
    (h : readExtra (fields.get RootField.extra) = .error code) :
    readTransaction root = .error code :=
  (pbind_of_ok (readExactly_eq_ok.mpr hfields)).trans (pbind_of_error h)

/-- The stages before the type, when they succeed. -/
theorem readExtra_of_items {extra : Piece} (hinner : readItems 1 extra = .ok [inner])
    (hitems : readItems extraFieldCount inner = .ok [typeItem, lockHeight, extraTo]) :
    readExtra extra = .ok (inner, #v[typeItem, lockHeight, extraTo]) :=
  readExtra_eq_ok.mpr ⟨hinner, hitems⟩

theorem readTransaction_of_txType (hfields : readItems rootFieldCount root = .ok fields.toList)
    (hinner : readItems 1 (fields.get RootField.extra) = .ok [inner])
    (hitems : readItems extraFieldCount inner = .ok [typeItem, lockHeight, extraTo])
    (h : readTxType typeItem = .error code) : readTransaction root = .error code :=
  (pbind_of_ok (readExactly_eq_ok.mpr hfields)).trans
    ((pbind_of_ok (readExtra_of_items hinner hitems)).trans (pbind_of_error h))

theorem readTransaction_of_recipients
    (hfields : readItems rootFieldCount root = .ok fields.toList)
    (hinner : readItems 1 (fields.get RootField.extra) = .ok [inner])
    (hitems : readItems extraFieldCount inner = .ok [typeItem, lockHeight, extraTo])
    (hnumber : readUInt256 typeItem = .ok number) (hle : u8 number ≤ txTypeSuperblock)
    (h : readRecipients extraTo = .error code) : readTransaction root = .error code :=
  (pbind_of_ok (readExactly_eq_ok.mpr hfields)).trans
    ((pbind_of_ok (readExtra_of_items hinner hitems)).trans
      ((pbind_of_ok (readTxType_eq_ok.mpr ⟨hnumber, hle⟩)).trans (pbind_of_error h)))

end Root

/-- Reading finds every transaction. -/
theorem readTransaction_root (t : Transaction) : readTransaction t.root = .ok t := by
  have hfields : readExactly rootFieldCount .unexpectedNumberItems t.root = .ok t.fields :=
    readExactly_eq_ok.mpr t.root_items
  have hextra : readExtra (t.fields.get RootField.extra) = .ok _ :=
    readExtra_of_items t.extra_items t.inner_items
  have hnumber : readTxType t.typeItem = .ok t.number :=
    readTxType_eq_ok.mpr ⟨t.type_number, t.type_le⟩
  have hrecipients : readRecipients t.extraTo = .ok t.recipients :=
    readRecipients_eq_ok.mpr t.extraTo_entries
  rw [readTransaction, pbind_of_ok hfields, pbind_of_ok hextra]
  refine (pbind_of_ok hnumber).trans ((pbind_of_ok hrecipients).trans ?_)
  exact congrArg Except.ok (Transaction.eq_of_root_eq rfl)

theorem root_of_readTransaction {root : Piece} {t : Transaction}
    (h : readTransaction root = .ok t) : t.root = root := by
  obtain ⟨fields, hfields, h⟩ := pbind_eq_ok.mp h
  obtain ⟨extra, hextra, h⟩ := pbind_eq_ok.mp h
  obtain ⟨number, hnumber, h⟩ := pbind_eq_ok.mp h
  obtain ⟨recipients, hrecipients, h⟩ := pbind_eq_ok.mp h
  exact congrArg Transaction.root (Except.ok.inj h).symm

theorem Transaction.ofBytes_eq_ok {bytes : List UInt8} {t : Transaction} :
    Transaction.ofBytes bytes = .ok t ↔ t.Decodes bytes := by
  constructor
  · intro h
    unfold Transaction.ofBytes at h
    split at h
    next => cases h
    next =>
      split at h
      next => cases h
      next root rest hnext =>
        split at h
        next => cases h
        next hrest =>
          split at h
          next => cases h
          next => rw [Transaction.Decodes, hnext, root_of_readTransaction h, not_not.mp hrest]
  · intro h
    have hne : bytes ≠ [] := by
      rintro rfl
      cases h
    rw [Transaction.ofBytes_of_next hne h, if_neg (not_not.mpr rfl),
      if_neg (not_not.mpr t.root_kind)]
    exact readTransaction_root t

end LedgerMatrix
