import Mathlib.Data.Nat.Digits.Lemmas

/-! # Positional numerals

The numeral of a number in a base up to sixteen, written with `0` to `9` and `a`
to `f`. Unlike `Nat.digits`, the numeral of zero has one digit.
-/

namespace Numeral

/-- The digits of a number, least significant first, and at least one. -/
def digits (base number : Nat) : List Nat :=
  if number = 0 then [0] else Nat.digits base number

/-- The character of a digit. -/
def symbol (digit : Nat) : UInt8 :=
  if digit < 10 then 48 + UInt8.ofNat digit else 87 + UInt8.ofNat digit

/-- The numeral of a number, most significant digit first. -/
def text (base number : Nat) : List UInt8 := (digits base number).reverse.map symbol

/-- A numeral is the last digit, after the numeral of what is left if that is
not zero. -/
theorem digits_eq {base : Nat} (hbase : 2 ≤ base) (number : Nat) :
    digits base number =
      number % base :: if number / base = 0 then [] else digits base (number / base) := by
  by_cases hzero : number = 0
  · subst hzero
    simp [digits]
  · rw [digits, if_neg hzero, Nat.digits_def' hbase (Nat.pos_of_ne_zero hzero)]
    split
    next hsmall => rw [hsmall, Nat.digits_zero]
    next hmore => rw [digits, if_neg hmore]

theorem digits_length_pos (base number : Nat) : 0 < (digits base number).length := by
  unfold digits
  split
  · exact Nat.one_pos
  next hne => exact List.length_pos_of_ne_nil (Nat.digits_ne_nil_iff_ne_zero.mpr hne)

theorem digits_lt {base number digit : Nat} (hbase : 2 ≤ base)
    (h : digit ∈ digits base number) : digit < base := by
  unfold digits at h
  split at h
  · rw [List.mem_singleton] at h
    omega
  · exact Nat.digits_lt_base hbase h

@[simp] theorem text_length (base number : Nat) :
    (text base number).length = (digits base number).length := by
  simp [text]

theorem text_length_pos (base number : Nat) : 0 < (text base number).length := by
  rw [text_length]
  exact digits_length_pos base number

/-- The numeral has as many digits as the base needs to reach the number. -/
theorem text_length_le_iff {base : Nat} (hbase : 2 ≤ base) {number count : Nat}
    (hcount : 0 < count) : (text base number).length ≤ count ↔ number < base ^ count := by
  rw [text_length]
  by_cases hzero : number = 0
  · subst hzero
    simp only [digits, if_true, List.length_singleton]
    exact ⟨fun _ => Nat.pow_pos (by omega), fun _ => hcount⟩
  · rw [digits, if_neg hzero]
    exact Nat.digits_length_le_iff hbase number

/-- Evaluating the digits gives the number back. -/
theorem ofDigits_digits (base number : Nat) :
    Nat.ofDigits base (digits base number) = number := by
  unfold digits
  split
  next hzero => simp [hzero]
  next => exact Nat.ofDigits_digits base number

/-- The digit that a character stands for. -/
def digitOf (character : UInt8) : Nat :=
  if character.toNat < 58 then character.toNat - 48 else character.toNat - 87

theorem digitOf_symbol {digit : Nat} (h : digit < 16) : digitOf (symbol digit) = digit := by
  have hall : ∀ digit < 16, digitOf (symbol digit) = digit := by decide
  exact hall digit h

theorem symbol_ne_zero {digit : Nat} (h : digit < 16) : symbol digit ≠ 0 := by
  have hall : ∀ digit < 16, symbol digit ≠ 0 := by decide
  exact hall digit h

/-- A numeral is made of the characters of digits. -/
theorem exists_digit_of_mem_text {base number : Nat} (hbase : 2 ≤ base) {character : UInt8}
    (h : character ∈ text base number) : ∃ digit < base, symbol digit = character := by
  obtain ⟨digit, hdigit, rfl⟩ := List.mem_map.mp h
  exact ⟨digit, digits_lt hbase (List.mem_reverse.mp hdigit), rfl⟩

/-- A numeral has no zero byte. -/
theorem zero_notMem_text {base number : Nat} (hbase : 2 ≤ base) (hmax : base ≤ 16) :
    (0 : UInt8) ∉ text base number := by
  intro hmem
  obtain ⟨digit, hlt, hzero⟩ := exists_digit_of_mem_text hbase hmem
  exact symbol_ne_zero (hlt.trans_le hmax) hzero

/-- Reading the characters of a numeral gives its digits back. -/
theorem map_digitOf_text {base : Nat} (hbase : 2 ≤ base) (hmax : base ≤ 16) (number : Nat) :
    (text base number).map digitOf = (digits base number).reverse := by
  rw [text, List.map_map]
  conv_rhs => rw [← List.map_id (digits base number).reverse]
  apply List.map_congr_left
  intro digit hdigit
  exact digitOf_symbol ((digits_lt hbase (List.mem_reverse.mp hdigit)).trans_le hmax)

/-- A text is a numeral of a number when its characters are digits of the base,
it has no leading zero, and its value is the number. -/
structure IsNumeral (base number : Nat) (text : List UInt8) : Prop where
  digits : ∀ character ∈ text, ∃ digit < base, symbol digit = character
  leading : ∀ rest, text = symbol 0 :: rest → rest = []
  nonempty : text ≠ []
  value : Nat.ofDigits base (text.reverse.map digitOf) = number

theorem isNumeral_text {base : Nat} (hbase : 2 ≤ base) (hmax : base ≤ 16) (number : Nat) :
    IsNumeral base number (text base number) where
  digits _ h := exists_digit_of_mem_text hbase h
  leading rest h := by
    have hread := map_digitOf_text hbase hmax number
    rw [h, List.map_cons, digitOf_symbol (by decide)] at hread
    by_cases hzero : number = 0
    · subst hzero
      simpa [digits] using hread
    · -- the most significant digit of a positive number is not zero
      rw [digits, if_neg hzero] at hread
      have hne : Nat.digits base number ≠ [] := Nat.digits_ne_nil_iff_ne_zero.mpr hzero
      have hlast := Nat.getLast_digit_ne_zero base hzero
      rw [← List.head_reverse (by simpa using hne)] at hlast
      simp [← hread] at hlast
  nonempty := List.ne_nil_of_length_pos (text_length_pos base number)
  value := by
    rw [List.map_reverse, map_digitOf_text hbase hmax, List.reverse_reverse, ofDigits_digits]

/-- Different numbers have different numerals. -/
theorem text_inj {base a b : Nat} (hbase : 2 ≤ base) (hmax : base ≤ 16) :
    text base a = text base b ↔ a = b := by
  refine ⟨fun h => ?_, fun h => h ▸ rfl⟩
  have hread := congrArg (List.map digitOf) h
  rw [map_digitOf_text hbase hmax, map_digitOf_text hbase hmax, List.reverse_inj] at hread
  rw [← ofDigits_digits base a, ← ofDigits_digits base b, hread]

end Numeral
