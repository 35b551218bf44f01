import LedgerMatrix.Foundation.Paging
import LedgerMatrix.Parser.Display

/-! # The pagers of the support library

What is assumed of the functions of the support library that show a text page by
page: a page leaves room for the terminator, the number of pages is reported in one
byte, and as long as it fits there the pages are consecutive pieces of the text.
`Zxlib.reference` is a library that does this.
-/

namespace LedgerMatrix

/-- Two hexadecimal digits for each byte. -/
def hexText (bytes : List UInt8) : List UInt8 :=
  bytes.flatMap fun byte => [Numeral.symbol (byte.toNat / 16), Numeral.symbol (byte.toNat % 16)]

/-- The type of `pageStringExt` and `pageStringHex`. -/
abbrev Pager : Type := List UInt8 → List UInt8 → Nat → List UInt8 × Nat

/-- A pager that shows the characters `chars` of its text. When their pages cannot be
counted in one byte, nothing is known of a page but its size. -/
structure Pager.Pages (page : Pager) (chars : List UInt8 → List UInt8) (width : Nat → Nat) :
    Prop where
  width_pos : ∀ {outLen}, 3 ≤ outLen → 0 < width outLen
  width_lt : ∀ {outLen}, 3 ≤ outLen → width outLen < outLen
  /-- The number of pages has one byte. -/
  count_eq : ∀ {out text pageIdx}, 3 ≤ out.length →
    (page out text pageIdx).2 = u8 (Paging.count (width out.length) (chars text))
  shown_eq : ∀ {out text pageIdx}, 3 ≤ out.length →
    Paging.count (width out.length) (chars text) ≤ 255 → pageIdx < (page out text pageIdx).2 →
    ∃ rest, (page out text pageIdx).1 =
      Paging.page (width out.length) (chars text) pageIdx ++ 0 :: rest
  shown_le : ∀ {out text pageIdx}, 3 ≤ out.length →
    (cString (page out text pageIdx).1).length ≤ width out.length
  /-- An index behind the reported number of pages shows nothing. -/
  blank_eq : ∀ {out text pageIdx}, 3 ≤ out.length → (page out text pageIdx).2 ≤ pageIdx →
    ∃ rest, (page out text pageIdx).1 = 0 :: rest

/-- The text of a page up to its first zero byte, in this buffer. It is the page of the
characters when their pages can be counted in one byte, and else whatever the pager
makes of them. -/
def pageText (page : Pager) (chars : List UInt8 → List UInt8) (width : Nat → Nat)
    (out text : List UInt8) (pageIdx : Nat) : List UInt8 :=
  if Paging.count (width out.length) (chars text) ≤ 255 then
    cString (Paging.page (width out.length) (chars text) pageIdx)
  else cString (page out text pageIdx).1

section Pages

variable {page : Pager} {chars : List UInt8 → List UInt8} {width : Nat → Nat}
  {out text : List UInt8}

theorem pageText_of_le (h : Paging.count (width out.length) (chars text) ≤ 255) (pageIdx : Nat) :
    pageText page chars width out text pageIdx =
      cString (Paging.page (width out.length) (chars text) pageIdx) := if_pos h

theorem Pager.Pages.cString_eq (h : Pager.Pages page chars width) (hlength : 3 ≤ out.length)
    (text : List UInt8) (pageIdx : Nat) :
    cString (page out text pageIdx).1 =
      if pageIdx < u8 (Paging.count (width out.length) (chars text)) then
        pageText page chars width out text pageIdx
      else [] := by
  have hcount : (page out text pageIdx).2 = _ := h.count_eq hlength
  rw [← hcount]
  split
  next hinside =>
    unfold pageText
    split
    next hle =>
      obtain ⟨rest, heq⟩ := h.shown_eq hlength hle hinside
      rw [heq, cString_append_terminator]
    next => rfl
  next hbehind =>
    obtain ⟨rest, heq⟩ := h.blank_eq hlength (Nat.le_of_not_lt hbehind)
    rw [heq]
    exact cString_append_terminator [] rest

/-- The pages that are reported have fewer characters than the text, when their number
does not fit into one byte. -/
theorem Pager.Pages.flatMap_ne (h : Pager.Pages page chars width) (hlength : 3 ≤ out.length)
    (hmany : 255 < Paging.count (width out.length) (chars text)) :
    (List.range (u8 (Paging.count (width out.length) (chars text)))).flatMap
      (pageText page chars width out text) ≠ chars text := by
  intro heq
  have hpos := h.width_pos hlength
  have hshort : ((List.range (u8 (Paging.count (width out.length) (chars text)))).flatMap
      (pageText page chars width out text)).length ≤
        u8 (Paging.count (width out.length) (chars text)) * width out.length := by
    refine Paging.length_flatMap_range_le fun pageIdx => ?_
    rw [pageText, if_neg (Nat.not_le.mpr hmany)]
    exact h.shown_le hlength
  have hlong : ¬ Paging.count (width out.length) (chars text) ≤
      u8 (Paging.count (width out.length) (chars text)) := by
    rw [u8]
    omega
  rw [heq, ← Paging.count_le_iff hpos] at hshort
  exact hlong hshort

end Pages

/-- The pagers of a support library, with the numbers of characters on a page of
text and on a page of hexadecimal digits. -/
structure Zxlib.Pages (zx : Zxlib) (textWidth hexWidth : Nat → Nat) : Prop where
  ext : Pager.Pages zx.pageStringExt id textWidth
  hex : Pager.Pages zx.pageStringHex hexText hexWidth

/-! ## A library that pages -/

/-- A pager that fills what is left of its buffer with zeros. The last page that is
reported has what is left of the characters, also when the number of pages has been
cut to one byte. -/
def pager (chars : List UInt8 → List UInt8) (width : Nat → Nat) : Pager :=
  fun out text pageIdx =>
    let count := u8 (Paging.count (width out.length) (chars text))
    let lastLen := (chars text).length % width out.length
    let page := Paging.page (width out.length) (chars text) pageIdx
    let shown :=
      if pageIdx < count then
        if pageIdx + 1 = count ∧ lastLen ≠ 0 then page.take lastLen else page
      else []
    ((shown ++ List.replicate out.length 0).take out.length, count)

theorem pager_length (chars : List UInt8 → List UInt8) (width : Nat → Nat) (out text : List UInt8)
    (pageIdx : Nat) : (pager chars width out text pageIdx).1.length = out.length := by
  simp [pager]

/-- What fits with a terminator is followed by one. -/
theorem padded_eq {shown : List UInt8} {length : Nat} (h : shown.length < length) :
    ∃ rest, (shown ++ List.replicate length 0).take length = shown ++ 0 :: rest := by
  obtain ⟨left, hleft⟩ : ∃ left, length - shown.length = left + 1 :=
    ⟨length - shown.length - 1, by omega⟩
  refine ⟨List.replicate left 0, ?_⟩
  rw [List.take_append, List.take_of_length_le (by omega), List.take_replicate, hleft,
    Nat.min_eq_left (by omega), List.replicate_succ]

theorem cString_padded_length {shown : List UInt8} {length : Nat} (h : shown.length < length) :
    (cString ((shown ++ List.replicate length 0).take length)).length ≤ shown.length := by
  obtain ⟨rest, heq⟩ := padded_eq h
  rw [heq, cString_append_terminator]
  exact (List.takeWhile_prefix _).length_le

theorem pager_pages {chars : List UInt8 → List UInt8} {width : Nat → Nat}
    (hpos : ∀ {outLen}, 3 ≤ outLen → 0 < width outLen)
    (hlt : ∀ {outLen}, 3 ≤ outLen → width outLen < outLen) :
    Pager.Pages (pager chars width) chars width where
  width_pos := hpos
  width_lt := hlt
  count_eq _ := rfl
  shown_eq := by
    intro out text pageIdx hlength hle hinside
    have hinside' : pageIdx < u8 (Paging.count (width out.length) (chars text)) := hinside
    have hall : u8 (Paging.count (width out.length) (chars text)) =
        Paging.count (width out.length) (chars text) := Nat.mod_eq_of_lt (by omega)
    have hpage : (Paging.page (width out.length) (chars text) pageIdx).length < out.length :=
      (Paging.page_length_le _ _ _).trans_lt (hlt hlength)
    simp only [pager, hinside', if_true]
    split
    next hlast =>
      have hshort : (Paging.page (width out.length) (chars text) pageIdx).length ≤
          (chars text).length % width out.length :=
        Paging.page_length_le_mod (hpos hlength) (by omega) hlast.2
      rw [List.take_of_length_le hshort]
      exact padded_eq hpage
    next => exact padded_eq hpage
  shown_le := by
    intro out text pageIdx hlength
    have hpage := Paging.page_length_le (width out.length) (chars text) pageIdx
    have hfits {shown : List UInt8} (hshown : shown.length ≤ width out.length) :
        (cString ((shown ++ List.replicate out.length 0).take out.length)).length ≤
          width out.length :=
      (cString_padded_length (hshown.trans_lt (hlt hlength))).trans hshown
    simp only [pager]
    refine hfits ?_
    split
    next =>
      split
      next => exact (List.length_take_le' _ _).trans hpage
      next => exact hpage
    next => exact Nat.zero_le _
  blank_eq := by
    intro out text pageIdx hlength hbehind
    have hbehind' : ¬ pageIdx < u8 (Paging.count (width out.length) (chars text)) :=
      Nat.not_lt.mpr hbehind
    simp only [pager, hbehind', if_false]
    exact padded_eq (by rw [List.length_nil]; omega)

/-- The year, the month and the day of the month of a day, counted from 1970. -/
def civilDate (days : Nat) : Nat × Nat × Nat :=
  -- days since 1 March of the year 0, in eras of 400 years
  let era := (days + 719468) / 146097
  let day := (days + 719468) % 146097
  let year := (day - day / 1460 + day / 36524 - day / 146096) / 365
  let dayOfYear := day - (365 * year + year / 4 - year / 100)
  let month := (5 * dayOfYear + 2) / 153
  let dayOfMonth := dayOfYear - (153 * month + 2) / 5 + 1
  if month < 10 then (year + era * 400, month + 3, dayOfMonth)
  else (year + era * 400 + 1, month - 9, dayOfMonth)

def monthName : Nat → List UInt8
  | 1 => ascii "Jan"
  | 2 => ascii "Feb"
  | 3 => ascii "Mar"
  | 4 => ascii "Apr"
  | 5 => ascii "May"
  | 6 => ascii "Jun"
  | 7 => ascii "Jul"
  | 8 => ascii "Aug"
  | 9 => ascii "Sep"
  | 10 => ascii "Oct"
  | 11 => ascii "Nov"
  | _ => ascii "Dec"

def twoDigits (number : Nat) : List UInt8 :=
  [Numeral.symbol (number / 10), Numeral.symbol (number % 10)]

/-- A time in seconds since 1970, as in `15Jan2019 08:03:21UTC`. -/
def timeText (time : Nat) : List UInt8 :=
  let date := civilDate (time / 86400)
  twoDigits date.2.2 ++ monthName date.2.1 ++ Numeral.text 10 date.1 ++ ascii " " ++
    twoDigits (time % 86400 / 3600) ++ ascii ":" ++ twoDigits (time % 3600 / 60) ++ ascii ":" ++
    twoDigits (time % 60) ++ ascii "UTC"

/-- A time up to the year 9999 is written, a later one is refused. -/
def writeTime (out : List UInt8) (time : UInt64) : Bool × List UInt8 :=
  if time.toNat < 253402300800 then (true, snprintf (timeText time.toNat) out) else (false, out)

theorem writeTime_length (out : List UInt8) (time : UInt64) :
    (writeTime out time).2.length = out.length := by
  unfold writeTime
  split
  · exact snprintf_length _ _
  · rfl

/-- A support library whose pages are as long as the buffer allows; a page of
hexadecimal digits does not split a byte. -/
def Zxlib.reference : Zxlib where
  pageStringExt := pager id (· - 1)
  pageStringHex := pager hexText fun outLen => (outLen - 1) / 2 * 2
  printTime := writeTime
  pageStringExt_length := pager_length _ _
  pageStringHex_length := pager_length _ _
  printTime_length := writeTime_length

theorem pageStringExt_reference : Zxlib.reference.pageStringExt = pager id (· - 1) := rfl

theorem pageStringHex_reference :
    Zxlib.reference.pageStringHex = pager hexText fun outLen => (outLen - 1) / 2 * 2 := rfl

theorem Zxlib.reference_pages :
    Zxlib.reference.Pages (· - 1) fun outLen => (outLen - 1) / 2 * 2 where
  ext := by
    rw [pageStringExt_reference]
    refine pager_pages ?_ ?_
    · intro outLen hlong
      omega
    · intro outLen hlong
      omega
  hex := by
    rw [pageStringHex_reference]
    refine pager_pages ?_ ?_
    · intro outLen hlong
      omega
    · intro outLen hlong
      omega

example : timeText 0x5c3d93c9 = ascii "15Jan2019 08:03:21UTC" := by decide +kernel

end LedgerMatrix
