import LedgerMatrix.Parser.Reader
import LedgerMatrix.Rlp.Reading

/-! # What the parser stores

The parser returns `parser_ok` exactly on the bytes of a transaction. It then
stores items that stand for the items of that transaction, every one inside the
payload of the list it was read from.
-/

namespace LedgerMatrix

open Imperative RecursiveLength

/-- What is stored stands for `t`, and the items of a list lie inside it. The list
between the extra list and its items is not stored, but lies in the extra list. -/
structure ParserTx.Views (mem : List UInt8) (hi : Nat) (v : ParserTx) (t : Transaction) :
    Prop where
  root : v.root.Stands mem 0 hi t.root
  rootFieldsItems : v.rootFieldsItems = rootFieldCount
  extraFieldsItems : v.extraFieldsItems = extraFieldCount
  extraToFieldsItems : v.extraToFieldsItems = t.recipients.length
  extraTxType : v.extraTxType = u8 t.number
  fields : ∃ address, v.root.ptr = some address ∧
    Layout mem address (address + v.root.rlpLen) v.fields.toList t.fields.toList
  extraFields : ∃ (address : Nat) (innerList : Rlp) (start : Nat),
    v.fields[rootFieldCount - 1].ptr = some address ∧
    innerList.Stands mem address (address + v.fields[rootFieldCount - 1].rlpLen) t.inner ∧
    innerList.ptr = some start ∧
    Layout mem start (start + innerList.rlpLen) v.extraFields.toList
      [t.typeItem, t.lockHeight, t.extraTo]
  recipients : ∃ address, v.extraFields[extraFieldCount - 1].ptr = some address ∧
    Layout mem address (address + v.extraFields[extraFieldCount - 1].rlpLen)
      (v.extraToListFields.toList.take t.recipients.length) (t.recipients.map Recipient.entry)

section Pieces

variable {mem : List UInt8} {n : Nat}

theorem Fields.Holds.toList_eq {fields : Fields n} {rlps left : List Rlp}
    (h : fields.Holds rlps left) (hfull : rlps.length = n) : fields.items.toList = rlps := by
  have htotal := h.length_le
  have hleft : left = [] := List.length_eq_zero_iff.mp (by omega)
  rw [h.items_eq, hleft, List.append_nil]

/-- An item of an array stands for the item at the same place. -/
theorem Layout.vector_stands {lo hi : Nat} {rlps : Vector Rlp n} {pieces : Vector Piece n}
    (h : Layout mem lo hi rlps.toList pieces.toList) (i : Nat) (hi' : i < n) :
    rlps[i].Stands mem lo hi pieces[i] := by
  have hstands := h.stands i (by simpa using hi') (by simpa using hi')
  simpa only [Vector.getElem_toList] using hstands

/-- A list of the right length, as a vector. -/
theorem exists_vector {α : Type} {found : List α} (h : found.length = n) :
    ∃ v : Vector α n, v.toList = found :=
  ⟨⟨found.toArray, by simpa using h⟩, by simp [Vector.toList]⟩

theorem Rlp.Stands.payload_le {lo hi : Nat} {rlp : Rlp} {piece : Piece}
    (h : rlp.Stands mem lo hi piece) : lo + piece.payload.length ≤ hi := by
  obtain ⟨address, -, hstart, hend, -⟩ := h.located
  omega

end Pieces

/-! ## The stages of the parser -/

section Stages

variable {mem : List UInt8} {hi : Nat} {early : Stop → ParserTx → Prop}

theorem wp_readRootItems (hmem : hi ≤ mem.length) (hhi : hi < 2 ^ 16) {v : ParserTx}
    {root : Piece} (hroot : v.root.Stands mem 0 hi root) {post : Unit → ParserTx → Prop}
    (hpost : ∀ (stored : Fields rootFieldCount) (fields : Vector Piece rootFieldCount),
      readItems rootFieldCount root = .ok fields.toList → stored.count = rootFieldCount →
      (∃ address, v.root.ptr = some address ∧ address + v.root.rlpLen ≤ hi ∧
        Layout mem address (address + v.root.rlpLen) stored.items.toList fields.toList) →
      post () (ParserTx.rootItems.set stored v))
    (hearly : ∀ code s, readExactly rootFieldCount .unexpectedNumberItems root = .error code →
      early (.error code) s) :
    (readRootItems mem).wp Event.Good v post early := by
  have hpayload := hroot.payload_le
  simp only [readRootItems, Command.wp_bind, Command.wp_read, Command.wp_zoom]
  apply wp_rlpReadList hmem hroot (by omega) le_rfl (by decide)
  · rintro found rlps stored hitems _ ⟨address, hptr, _, hend, hlayout⟩ hholds
    have hlength := hlayout.length_eq
    have hcount := hholds.count_eq
    split
    next hne =>
      -- 13 items would have been stored, had the list begun with 13
      refine (wp_fail _).mpr (hearly _ _ (readExactly_of_short hitems ?_))
      rw [← hlength, ← hcount]
      exact hne
    next heq =>
      have hall : stored.count = rootFieldCount := not_not.mp heq
      obtain ⟨fields, rfl⟩ := exists_vector (hlength.symm.trans (hcount.symm.trans hall))
      refine (Command.wp_pure ()).mpr
        (hpost stored fields hitems hall ⟨address, hptr, hend, ?_⟩)
      rw [hholds.toList_eq (hcount.symm.trans hall)]
      exact hlayout
  · exact fun code herror s => hearly code _ (readExactly_of_error herror)

/-- The 13th item must be a list whose first item is a list of three items. -/
theorem wp_readExtraItems (hmem : hi ≤ mem.length) (hhi : hi < 2 ^ 16) {v : ParserTx}
    {extra : Piece} (hextra : v.fields[rootFieldCount - 1].Stands mem 0 hi extra)
    {post : Unit → ParserTx → Prop}
    (hpost : ∀ (stored : Fields extraFieldCount) (inner typeItem lockHeight extraTo : Piece),
      readItems 1 extra = .ok [inner] →
      readItems extraFieldCount inner = .ok [typeItem, lockHeight, extraTo] →
      stored.count = extraFieldCount →
      (∃ (address : Nat) (innerList : Rlp) (start : Nat),
        v.fields[rootFieldCount - 1].ptr = some address ∧
        innerList.Stands mem address (address + v.fields[rootFieldCount - 1].rlpLen) inner ∧
        innerList.ptr = some start ∧ start + innerList.rlpLen ≤ hi ∧
        Layout mem start (start + innerList.rlpLen) stored.items.toList
          [typeItem, lockHeight, extraTo]) →
      post () (ParserTx.extraItems.set stored v))
    (hearly : ∀ code s, readExtra extra = .error code → early (.error code) s) :
    (readExtraItems mem).wp Event.Good v post early := by
  have hpayload := hextra.payload_le
  simp only [readExtraItems, Command.wp_scope, Command.wp_bind, Command.wp_read, Command.wp_zoom]
  apply wp_rlpReadList hmem hextra (by omega) le_rfl (by decide)
  · rintro found rlps first hitems _ ⟨address, hptr, _, hend, hlayout⟩ hholds
    cases hlayout with
    | nil _ =>
        -- the list is empty, so the inner element is still `{0}`
        have hzero : first.items.toList = [Rlp.zero] := by simpa using hholds.items_eq
        have hfirst : first.items[0] = Rlp.zero := by
          rw [← Vector.getElem_toList (by simp)]
          simp only [hzero, List.getElem_cons_zero]
        simp only [ParserTx.innerElements_set, hfirst]
        exact (wp_fail _).mpr (hearly _ _ (readExtra_of_nil hitems))
    | @cons _ mid _ rlp inner rlps pieces hinner hrest =>
        -- one item was asked for, so none stands behind it
        obtain rfl : pieces = [] := by
          have hle := readItems_length_le hitems
          rw [List.length_cons] at hle
          exact List.length_eq_zero_iff.mp (by omega)
        cases hrest with
        | nil hmid =>
            have hone : first.items.toList = [rlp] := by simpa using hholds.items_eq
            have hfirst : first.items[0] = rlp := by
              rw [← Vector.getElem_toList (by simp)]
              simp only [hone, List.getElem_cons_zero]
            have hinnerLe := hinner.payload_le
            simp only [ParserTx.innerElements_set, hfirst, Lens.snd_get, ParserTx.extraItems_get]
            apply wp_rlpReadList (by omega) hinner (by omega) le_rfl (by decide)
            · rintro found rlps stored hinnerItems _ ⟨start, hstart, _, hstop, hlayout⟩ hholds
              have hlength := hlayout.length_eq
              have hcount := hholds.count_eq
              split
              next hne =>
                refine (wp_fail _).mpr (hearly _ _ (readExtra_of_inner hitems ?_))
                refine readExactly_of_short hinnerItems ?_
                rw [← hlength, ← hcount]
                exact hne
              next heq =>
                have hall : stored.count = extraFieldCount := not_not.mp heq
                obtain ⟨typeItem, lockHeight, extraTo, rfl⟩ :=
                  List.length_eq_three.mp (hlength.symm.trans (hcount.symm.trans hall))
                refine (Command.wp_pure ()).mpr (hpost stored inner typeItem lockHeight extraTo
                  hitems hinnerItems hall ⟨address, rlp, start, hptr, hinner.mono le_rfl hmid,
                    hstart, by omega, ?_⟩)
                rw [hholds.toList_eq (hcount.symm.trans hall)]
                exact hlayout
            · intro code herror s
              exact hearly code _ (readExtra_of_inner hitems (readExactly_of_error herror))
  · exact fun code herror s => hearly code _ (readExtra_of_error herror)

theorem searchTxType_found : ∀ value ≤ txTypeSuperblock,
    searchTxType value (txTypeSuperblock + 1) 0 txTypeSuperblock = some true := by
  decide

/-- The binary search runs over all numbers up to the largest type, so it finds
every one of them. -/
theorem wp_validateTxType {σ : Type} {s : σ} {value : Nat} {post : Unit → σ → Prop}
    {early : Stop → σ → Prop} (hpost : value ≤ txTypeSuperblock → post () s)
    (hearly : txTypeSuperblock < value → early (.error .valueOutOfRange) s) :
    (validateTxType value : Parser σ Unit).wp Event.Good s post early := by
  unfold validateTxType
  split
  next hbig => exact (wp_fail _).mpr (hearly hbig)
  next hle =>
    rw [searchTxType_found value (Nat.le_of_not_lt hle)]
    exact (Command.wp_pure ()).mpr (hpost (Nat.le_of_not_lt hle))

/-- The lowest limb keeps the last byte of a number. -/
theorem u8_lowest (value : Uint256) : u8 value.lower.lower.toNat = u8 value.val := by
  rw [u8, u8, Uint256.val, DoubleWord.join_mod_pow (by decide), Uint128.val,
    DoubleWord.join_mod_pow (by decide)]

theorem wp_readExtraTxType (hmem : hi ≤ mem.length) {v : ParserTx} {typeItem : Piece}
    (htype : v.extraFields[0].Stands mem 0 hi typeItem) {post : Unit → ParserTx → Prop}
    (hpost : ∀ number, readUInt256 typeItem = .ok number → u8 number ≤ txTypeSuperblock →
      post () { v with extraTxType := u8 number })
    (hearly : ∀ code s, readTxType typeItem = .error code → early (.error code) s) :
    (readExtraTxType mem).wp Event.Good v post early := by
  simp only [readExtraTxType, Command.wp_bind, Command.wp_read]
  apply wp_rlpReadUInt256 hmem htype
  · intro value hnumber
    simp only [Command.wp_modify, u8_lowest]
    apply wp_validateTxType
    · exact hpost value.val hnumber
    · exact fun hbig => hearly _ _ (readTxType_of_lt hnumber hbig)
  · exact fun code herror => hearly code _ (readTxType_of_error herror)

/-! ## The recipients -/

/-- The loop accepts the entries that have three items, and stores nothing. -/
theorem wp_verifyExtraTo (hmem : hi ≤ mem.length) (hhi : hi < 2 ^ 16) {v : ParserTx} {lo : Nat}
    {entries : List Piece} (hcount : entries.length ≤ extraListFieldCount)
    (hlayout : Layout mem lo hi (v.extraToListFields.toList.take entries.length) entries)
    {post : Unit → ParserTx → Prop} :
    ∀ {left i : Nat}, i + left = entries.length →
      (∀ recipients : List Recipient, recipients.map Recipient.entry = entries.drop i →
        post () v) →
      (∀ code s, readEntries (entries.drop i) = .error code → early (.error code) s) →
      (verifyExtraTo mem left i).wp Event.Good v post early := by
  intro left
  induction left with
  | zero =>
      intro i htotal hpost _
      have hnone : entries.drop i = [] := List.drop_eq_nil_of_le (by omega)
      exact (Command.wp_pure ()).mpr (hpost [] hnone.symm)
  | succ left ih =>
      intro i htotal hpost hearly
      have hi' : i < entries.length := by omega
      have hindex : i < extraListFieldCount := by omega
      have hentry : v.extraToListFields[i].Stands mem lo hi entries[i] := by
        have hlength := hlayout.length_eq
        have hstands := hlayout.stands i (by omega) hi'
        simpa only [List.getElem_take, Vector.getElem_toList] using hstands
      have hpayload := hentry.payload_le
      have hdrop : entries.drop i = entries[i] :: entries.drop (i + 1) :=
        List.drop_eq_getElem_cons hi'
      simp only [verifyExtraTo, Command.wp_bind, Command.wp_read, hindex, dif_pos,
        Command.wp_scope, Command.wp_zoom, Lens.fst_get, Lens.fst_set]
      apply wp_rlpReadList hmem hentry (by omega) le_rfl (by decide)
      · rintro found rlps stored hitems _ ⟨_, _, _, _, hinside⟩ hholds
        have hlength := hinside.length_eq
        have hstored := hholds.count_eq
        change (if stored.count ≠ extraToFieldCount then fail .unexpectedValue else pure () :
          Parser (Fields extraToFieldCount × ParserTx) Unit).wp Event.Good (stored, v) _ _
        by_cases hall : stored.count = extraToFieldCount
        · rw [if_neg (not_not.mpr hall)]
          obtain ⟨toItem, amount, payload, rfl⟩ :=
            List.length_eq_three.mp (hlength.symm.trans (hstored.symm.trans hall))
          simp only [Command.wp_pure]
          refine ih (by omega) ?_ ?_
          · intro recipients hrecipients
            refine hpost (⟨entries[i], toItem, amount, payload, hitems⟩ :: recipients) ?_
            rw [hdrop, List.map_cons, hrecipients]
          · intro code s hrest
            refine hearly code s ?_
            rw [hdrop]
            exact readEntries_of_rest
              (readRecipient_entry ⟨entries[i], toItem, amount, payload, hitems⟩) hrest
        · -- an entry with another number of items belongs to no recipient
          rw [if_pos hall]
          refine (wp_fail _).mpr (hearly _ _ ?_)
          rw [hdrop]
          refine readEntries_of_first (readRecipient_of_short hitems ?_)
          rwa [← hlength, ← hstored]
      · -- neither does one whose items cannot be read
        intro code herror s
        refine hearly code _ ?_
        rw [hdrop]
        exact readEntries_of_first (readRecipient_of_error herror)

/-- The recipients are read from the third extra field, when it is a list that is
not empty; otherwise nothing is stored. -/
theorem wp_readExtraTo (hmem : hi ≤ mem.length) (hhi : hi < 2 ^ 16) {v : ParserTx}
    {extraTo : Piece} (hextraTo : v.extraFields[extraFieldCount - 1].Stands mem 0 hi extraTo)
    (hzero : v.extraToFieldsItems = 0) {post : Unit → ParserTx → Prop}
    (hpost : ∀ (stored : Fields extraListFieldCount) (recipients : List Recipient),
      recipientEntries extraTo = .ok (recipients.map Recipient.entry) →
      stored.count = recipients.length →
      (∃ address, v.extraFields[extraFieldCount - 1].ptr = some address ∧
        Layout mem address (address + v.extraFields[extraFieldCount - 1].rlpLen)
          (stored.items.toList.take recipients.length) (recipients.map Recipient.entry)) →
      post () (ParserTx.extraToItems.set stored v))
    (hearly : ∀ code s, readRecipients extraTo = .error code → early (.error code) s) :
    (readExtraTo mem).wp Event.Good v post early := by
  have hpayload := hextraTo.payload_le
  have hcond : v.extraFields[extraFieldCount - 1].kind = .list ∧
      v.extraFields[extraFieldCount - 1].rlpLen > 0 ↔
        extraTo.kind = .list ∧ extraTo.payload.length > 0 := by
    rw [hextraTo.kind_eq]
    constructor
    · rintro ⟨hkind, hlen⟩
      exact ⟨hkind, hextraTo.rlpLen_of_ne (by rw [hkind]; decide) ▸ hlen⟩
    · rintro ⟨hkind, hlen⟩
      exact ⟨hkind, (hextraTo.rlpLen_of_ne (by rw [hkind]; decide)).symm ▸ hlen⟩
  simp only [readExtraTo, Command.wp_bind, Command.wp_read]
  split
  next hlist =>
    have hentries : recipientEntries extraTo = readItems extraListFieldCount extraTo :=
      if_pos (hcond.mp hlist)
    simp only [Command.wp_bind, Command.wp_zoom, Command.wp_read]
    apply wp_rlpReadList hmem hextraTo (by omega) le_rfl (by decide)
    · rintro found rlps stored hitems _ ⟨address, hptr, _, hend, hlayout⟩ hholds
      have hlength := hlayout.length_eq
      have hcount : stored.count = found.length := hholds.count_eq.trans hlength
      have htake : stored.items.toList.take found.length = rlps := by
        rw [hholds.items_eq, ← hlength, List.take_left]
      have hinside : Layout mem address (address + v.extraFields[extraFieldCount - 1].rlpLen)
          ((ParserTx.extraToItems.set stored v).extraToListFields.toList.take found.length)
            found := by
        rw [ParserTx.extraToItems_set, htake]
        exact hlayout
      apply wp_verifyExtraTo (hend.trans hmem) (by omega) (readItems_length_le hitems) hinside
      · simp only [ParserTx.extraToItems_set, hcount, Nat.zero_add]
      · intro recipients hrecipients
        rw [List.drop_zero] at hrecipients
        subst hrecipients
        rw [List.length_map] at hcount hinside
        exact hpost stored recipients (hentries.trans hitems) hcount ⟨address, hptr, hinside⟩
      · intro code s hrest
        rw [List.drop_zero] at hrest
        exact hearly code s (readRecipients_of_entries (hentries.trans hitems) hrest)
    · exact fun code herror s => hearly code _ (readRecipients_of_error (hentries.trans herror))
  next hnot =>
    -- no list, or an empty one: there are no further recipients
    obtain ⟨address, hptr, -, -, -⟩ := hextraTo.located
    exact (Command.wp_pure ()).mpr (hpost (ParserTx.extraToItems.get v) []
      (if_neg (fun h => hnot (hcond.mpr h))) hzero ⟨address, hptr, .nil (Nat.le_add_right _ _)⟩)

end Stages

/-! ## The whole transaction -/

section Whole

variable {mem : List UInt8}

/-- The stages after the root list, in a transaction object that has no
recipients yet. -/
theorem wp_readStages {hi : Nat} (hmem : hi ≤ mem.length) (hhi : hi < 2 ^ 16) {v : ParserTx}
    {root : Piece} (hroot : v.root.Stands mem 0 hi root) (hzero : v.extraToFieldsItems = 0)
    {post : Unit → ParserTx → Prop} {early : Stop → ParserTx → Prop}
    (hpost : ∀ (t : Transaction) v, t.root = root → v.Views mem hi t → post () v)
    (hearly : ∀ code s, readTransaction root = .error code → early (.error code) s) :
    (readRootItems mem >>= fun _ => readExtraItems mem >>= fun _ => readExtraTxType mem >>=
      fun _ => readExtraTo mem).wp Event.Good v post early := by
  simp only [Command.wp_bind]
  apply wp_readRootItems hmem hhi hroot
  · rintro stored₁ fields hfields hcount₁ ⟨address₁, hptr₁, hend₁, hlayout₁⟩
    have hextra : stored₁.items[rootFieldCount - 1].Stands mem 0 hi fields[rootFieldCount - 1] :=
      (hlayout₁.vector_stands (rootFieldCount - 1) (by decide)).mono (Nat.zero_le _) hend₁
    apply wp_readExtraItems hmem hhi hextra
    · rintro stored₂ inner typeItem lockHeight extraTo hinner hthree hcount₂
        ⟨address₂, innerList, start, hptr₂, hinnerList, hstart, hend₂, hlayout₂⟩
      have hlayout₂' : Layout mem start _ stored₂.items.toList
          (#v[typeItem, lockHeight, extraTo] : Vector Piece 3).toList := hlayout₂
      have htype : stored₂.items[0].Stands mem 0 hi typeItem :=
        (hlayout₂'.vector_stands 0 (by decide)).mono (Nat.zero_le _) hend₂
      have hextraTo : stored₂.items[extraFieldCount - 1].Stands mem 0 hi extraTo :=
        (hlayout₂'.vector_stands 2 (by decide)).mono (Nat.zero_le _) hend₂
      apply wp_readExtraTxType hmem htype
      · intro number hnumber hle
        refine wp_readExtraTo hmem hhi hextraTo ?_ ?_ ?_
        · exact hzero
        · intro stored₃ recipients hrecipients hcount₃ hlayout₃
          -- what the stages found is all that a transaction consists of
          let t : Transaction :=
            { root, fields, inner, typeItem, lockHeight, extraTo, number, recipients,
              root_items := hfields, extra_items := hinner, inner_items := hthree,
              type_number := hnumber, type_le := hle, extraTo_entries := hrecipients }
          exact hpost t _ rfl
            { root := hroot
              rootFieldsItems := hcount₁
              extraFieldsItems := hcount₂
              extraToFieldsItems := hcount₃
              extraTxType := rfl
              fields := ⟨address₁, hptr₁, hlayout₁⟩
              extraFields := ⟨address₂, innerList, start, hptr₂, hinnerList, hstart, hlayout₂⟩
              recipients := hlayout₃ }
        · -- reading without pointers found the same items, and stops here too
          intro code s herror
          exact hearly code s
            (readTransaction_of_recipients hfields hinner hthree hnumber hle herror)
      · intro code s herror
        exact hearly code s (readTransaction_of_txType hfields hinner hthree herror)
    · exact fun code s herror => hearly code s (readTransaction_of_extra hfields herror)
  · exact fun code s herror => hearly code s (readTransaction_of_root herror)

/-- From the state that `parser_init_context` leaves, parsing succeeds exactly on
a transaction, and stores it. -/
theorem wp_read {len : Nat} {tx : Bool} (hmem : len ≤ mem.length) (hlen : len < 2 ^ 16)
    (hpos : 0 < len) {post : Unit → ParserContext × ParserTx → Prop}
    {early : Stop → ParserContext × ParserTx → Prop}
    (hpost : ∀ t v, t.Decodes (mem.take len) → v.Views mem len t →
      post () (⟨some 0, len, len, tx⟩, v))
    (hearly : ∀ code s, Transaction.ofBytes (mem.take len) = .error code →
      early (.error code) s) :
    (_read mem).wp Event.Good (⟨some 0, len, 0, tx⟩, ParserTx.zero) post early := by
  have hwindow : slice mem 0 len = mem.take len := by rw [slice, List.drop_zero]
  have hne : mem.take len ≠ [] := by
    rw [← List.length_pos_iff_ne_nil, List.length_take]
    omega
  unfold _read
  simp only [Command.wp_bind, Command.wp_scope, Command.wp_zoom, ParserTx.rootStream_get]
  apply wp_rlpParseStream (by omega) hlen le_rfl (by decide)
  · intro found rlps offset' stored hend htake hlayout hholds
    rw [hwindow, takePieces_one hne, Option.map_eq_some_iff] at htake
    obtain ⟨⟨root, rest⟩, hnext, heq⟩ := htake
    obtain ⟨rfl, rfl⟩ := Prod.mk.inj heq
    cases hlayout with
    | @cons _ mid _ rlp _ rlps _ hroot hrest =>
        cases hrest with
        | nil hmid =>
            have hone : stored.items.toList = [rlp] := by simpa using hholds.items_eq
            have hfirst : stored.items[0] = rlp := by
              rw [← Vector.getElem_toList (by simp)]
              simp only [hone, List.getElem_cons_zero]
            have hinside : rlp.Stands mem 0 len root := hroot.mono le_rfl (by omega)
            have hrest : (slice mem (0 + offset') (len - offset')).length = len - offset' :=
              slice_length (by omega)
            simp only [ParserTx.rootStream_set, Command.wp_read, hfirst]
            split
            next hmore =>
              -- bytes are left behind the root list
              refine (wp_fail _).mpr (hearly _ _ ?_)
              have hleft : slice mem (0 + offset') (len - offset') ≠ [] := by
                rw [← List.length_pos_iff_ne_nil, hrest]
                omega
              rw [Transaction.ofBytes_of_next hne hnext, if_pos hleft]
            next hmore =>
              obtain rfl : offset' = len := by omega
              have hnil : slice mem (0 + offset') (offset' - offset') = [] :=
                List.length_eq_zero_iff.mp (by rw [hrest, Nat.sub_self])
              rw [hnil] at hnext
              split
              next hkind =>
                refine (wp_fail _).mpr (hearly _ _ ?_)
                rw [hinside.kind_eq] at hkind
                rw [Transaction.ofBytes_of_next hne hnext, if_neg (not_not.mpr rfl), if_pos hkind]
              next hkind =>
                rw [Command.wp_zoom]
                apply wp_readStages hmem hlen hinside rfl
                · intro t v ht hviews
                  refine hpost t v ?_ hviews
                  rw [Transaction.Decodes, hnext, ht]
                · intro code s herror
                  refine hearly code _ ?_
                  rw [hinside.kind_eq] at hkind
                  rw [Transaction.ofBytes_of_next hne hnext, if_neg (not_not.mpr rfl),
                    if_neg hkind]
                  exact herror
  · intro hnone s
    refine hearly _ _ (Transaction.ofBytes_of_no_next hne ?_)
    rwa [hwindow, takePieces_one hne, Option.map_eq_none_iff] at hnone

/-- The bytes that a parser sees of its input: their number is cut to 16 bits. -/
def seen (bytes : List UInt8) : List UInt8 := bytes.take (u16 bytes.length)

theorem seen_of_lt {bytes : List UInt8} (h : bytes.length < 2 ^ 16) : seen bytes = bytes := by
  rw [seen, u16, Nat.mod_eq_of_lt h, List.take_length]

theorem u16_length_le (bytes : List UInt8) : u16 bytes.length ≤ bytes.length :=
  Nat.mod_le _ _

/-- Parsing does what reading without pointers does, from any state. What it leaves
does not depend on what was parsed before. -/
theorem wp_parserParse_ofBytes {bytes : List UInt8} {s : ParserState}
    {post : Unit → ParserState → Prop} {early : Stop → ParserState → Prop}
    (hpost : ∀ t v, t.Decodes (seen bytes) → v.Views bytes (u16 bytes.length) t →
      post () ⟨⟨some 0, u16 bytes.length, u16 bytes.length, true⟩, v⟩)
    (hearly : ∀ code s, Transaction.ofBytes (seen bytes) = .error code →
      early (.error code) s) :
    (parserParse bytes (some 0) bytes.length).wp Event.Good s post early := by
  have hlt : u16 bytes.length < 2 ^ 16 := Nat.mod_lt _ (by decide)
  simp only [parserParse, parserInitContext, Command.wp_bind, Command.wp_modify]
  split
  next hnone =>
    have hzero : u16 bytes.length = 0 := by simpa using hnone
    have hempty : seen bytes = [] := by rw [seen, hzero, List.take_zero]
    exact (wp_fail _).mpr (hearly _ _ (if_pos hempty))
  next hsome =>
    have hpos : 0 < u16 bytes.length := by
      rw [Nat.pos_iff_ne_zero]
      exact fun h => hsome (Or.inl h)
    simp only [Command.wp_modify, Command.wp_zoom, ParserState.both]
    apply wp_read (u16_length_le bytes) hlt hpos
    · exact hpost
    · exact fun code s => hearly code _

/-- Parsing succeeds, from any state, exactly on the bytes of a transaction. -/
theorem wp_parserParse {bytes : List UInt8} {s : ParserState}
    {post : Unit → ParserState → Prop} {early : Stop → ParserState → Prop}
    (hpost : ∀ t v, t.Decodes (seen bytes) → v.Views bytes (u16 bytes.length) t →
      post () ⟨⟨some 0, u16 bytes.length, u16 bytes.length, true⟩, v⟩)
    (hearly : (∀ t : Transaction, ¬ t.Decodes (seen bytes)) →
      ∀ code s, early (.error code) s) :
    (parserParse bytes (some 0) bytes.length).wp Event.Good s post early := by
  refine wp_parserParse_ofBytes hpost fun code s herror => hearly (fun t ht => ?_) code s
  rw [Transaction.ofBytes_eq_ok.mpr ht] at herror
  cases herror

end Whole

/-! ## What the stored items stand for -/

namespace ParserTx.Views

variable {mem : List UInt8} {hi : Nat} {v : ParserTx} {t : Transaction}

/-- The payload of a stored list ends where the list does. -/
theorem payload_end {lo hi address : Nat} {rlp : Rlp} {piece : Piece}
    (h : rlp.Stands mem lo hi piece) (hkind : piece.kind ≠ .byte)
    (hptr : rlp.ptr = some address) : address + rlp.rlpLen ≤ hi := by
  obtain ⟨start, hstart, -, hend, -⟩ := h.located
  obtain rfl : address = start := Option.some.inj (hptr.symm.trans hstart)
  rw [h.rlpLen_of_ne hkind]
  exact hend

theorem fields_stands (h : v.Views mem hi t) (i : Nat) (hi' : i < rootFieldCount) :
    v.fields[i].Stands mem 0 hi t.fields[i] := by
  obtain ⟨address, hptr, hlayout⟩ := h.fields
  have hend := payload_end h.root (by rw [t.root_kind]; decide) hptr
  exact (hlayout.vector_stands i hi').mono (Nat.zero_le _) hend

theorem extraFields_stands (h : v.Views mem hi t) (i : Nat) (hi' : i < extraFieldCount) :
    v.extraFields[i].Stands mem 0 hi
      (#v[t.typeItem, t.lockHeight, t.extraTo] : Vector Piece extraFieldCount)[i] := by
  obtain ⟨address, innerList, start, hptr, hinner, hstart, hlayout⟩ := h.extraFields
  have hkind := readItems_kind t.extra_items
  have hend := payload_end (h.fields_stands _ (by decide)) (by rw [hkind]; decide) hptr
  have hinnerKind := readItems_kind t.inner_items
  have hstop := payload_end hinner (by rw [hinnerKind]; decide) hstart
  have hlayout' : Layout mem start _ v.extraFields.toList
      (#v[t.typeItem, t.lockHeight, t.extraTo] : Vector Piece extraFieldCount).toList := hlayout
  exact (hlayout'.vector_stands i hi').mono (Nat.zero_le _) (hstop.trans hend)

theorem recipient_stands (h : v.Views mem hi t) (i : Nat) (hi' : i < t.recipients.length)
    (hindex : i < extraListFieldCount) :
    v.extraToListFields[i].Stands mem 0 hi t.recipients[i].entry := by
  obtain ⟨address, hptr, hlayout⟩ := h.recipients
  have hextraTo := h.extraFields_stands (extraFieldCount - 1) (by decide)
  have hkind : t.extraTo.kind = .list := Transaction.extraTo_kind (List.getElem_mem hi')
  have hend := payload_end hextraTo
    (show t.extraTo.kind ≠ .byte by rw [hkind]; decide) hptr
  have hlength := hlayout.length_eq
  have hstands := hlayout.stands i (by rw [hlength]; simpa using hi') (by simpa using hi')
  simp only [List.getElem_take, Vector.getElem_toList, List.getElem_map] at hstands
  exact hstands.mono (Nat.zero_le _) hend

end ParserTx.Views

end LedgerMatrix
