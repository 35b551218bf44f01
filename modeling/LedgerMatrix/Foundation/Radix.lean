import Mathlib.Data.List.TakeWhile
import Mathlib.Data.Nat.Digits.Lemmas

/-! # Change of radix with leading zeros

A list of digits, the highest first, is written in another base: its leading
zeros are kept one by one and the rest is the numeral of its value. Writing it
back gives the list, so two lists of digits are never written alike. `Base58` is
the text of a byte string in base 58.
-/

namespace Radix

/-- How many zeros a list of digits starts with. -/
def leading (digits : List Nat) : Nat := (digits.takeWhile (· == 0)).length

/-- The digits behind the leading zeros. -/
def significant (digits : List Nat) : List Nat := digits.dropWhile (· == 0)

/-- The number that digits stand for. -/
def value (base : Nat) (digits : List Nat) : Nat := Nat.ofDigits base digits.reverse

/-- The digits of one base written in another. -/
def convert (source target : Nat) (digits : List Nat) : List Nat :=
  List.replicate (leading digits) 0 ++ (Nat.digits target (value source digits)).reverse

theorem replicate_append_significant (digits : List Nat) :
    List.replicate (leading digits) 0 ++ significant digits = digits := by
  have hzeros : digits.takeWhile (· == 0) = List.replicate (leading digits) 0 := by
    rw [List.eq_replicate_iff]
    refine ⟨rfl, fun digit hdigit => ?_⟩
    simpa using List.mem_takeWhile_imp hdigit
  rw [← hzeros, significant, List.takeWhile_append_dropWhile]

theorem leading_add_length (digits : List Nat) :
    leading digits + (significant digits).length = digits.length := by
  have h := congrArg List.length (replicate_append_significant digits)
  rwa [List.length_append, List.length_replicate] at h

/-- The highest significant digit is not zero. -/
theorem head_significant_ne_zero (digits : List Nat) (h : significant digits ≠ []) :
    (significant digits).head h ≠ 0 := by
  have hhead := List.head_dropWhile_not (· == 0) h
  exact beq_eq_false_iff_ne.mp hhead

/-- Leading zeros do not change the value. -/
theorem value_significant (base : Nat) (digits : List Nat) :
    value base (significant digits) = value base digits := by
  conv_rhs => rw [← replicate_append_significant digits]
  rw [value, value, List.reverse_append, List.reverse_replicate,
    Nat.ofDigits_append_replicate_zero]

section Digits

variable {source target : Nat} {digits : List Nat}

theorem mem_of_mem_significant {digit : Nat} (h : digit ∈ significant digits) : digit ∈ digits :=
  (List.dropWhile_suffix _).mem h

/-- The significant digits are the numeral of the value. -/
theorem digits_value (hbase : 1 < source) (hdigits : ∀ digit ∈ digits, digit < source) :
    (Nat.digits source (value source digits)).reverse = significant digits := by
  rw [← value_significant, value, Nat.digits_ofDigits source hbase, List.reverse_reverse]
  · intro digit hdigit
    exact hdigits digit (mem_of_mem_significant (List.mem_reverse.mp hdigit))
  · intro hne
    rw [List.getLast_reverse]
    exact head_significant_ne_zero digits _

/-- A numeral does not start with a zero. -/
theorem leading_convert : leading (convert source target digits) = leading digits := by
  have hnumeral : (Nat.digits target (value source digits)).reverse.takeWhile (· == 0) = [] := by
    cases hreverse : (Nat.digits target (value source digits)).reverse with
    | nil => rfl
    | cons digit rest =>
        -- the highest digit of a numeral is not zero
        have hne : value source digits ≠ 0 := by
          intro hzero
          rw [hzero, Nat.digits_zero] at hreverse
          cases hreverse
        have hlast := Nat.getLast_digit_ne_zero target hne
        rw [← List.head_reverse (by simp [hreverse])] at hlast
        simp only [hreverse, List.head_cons] at hlast
        rw [List.takeWhile_cons_of_neg (by simpa using hlast)]
  rw [leading, convert, List.takeWhile_append_of_pos, hnumeral, List.append_nil,
    List.length_replicate]
  intro digit hdigit
  rw [List.eq_of_mem_replicate hdigit, beq_self_eq_true]

theorem value_convert : value target (convert source target digits) = value source digits := by
  rw [value, convert, List.reverse_append, List.reverse_reverse, List.reverse_replicate,
    Nat.ofDigits_append_replicate_zero, Nat.ofDigits_digits]

/-- Writing digits in another base and back changes nothing. -/
theorem convert_convert (hbase : 1 < source) (hdigits : ∀ digit ∈ digits, digit < source) :
    convert target source (convert source target digits) = digits := by
  rw [convert, leading_convert, value_convert, digits_value hbase hdigits,
    replicate_append_significant]

theorem convert_lt (hbase : 1 < target) {digit : Nat} (h : digit ∈ convert source target digits) :
    digit < target := by
  rcases List.mem_append.mp h with hzero | hdigit
  · rw [List.eq_of_mem_replicate hzero]
    omega
  · exact Nat.digits_lt_base hbase (List.mem_reverse.mp hdigit)

theorem length_convert : (convert source target digits).length =
    leading digits + (Nat.digits target (value source digits)).length := by
  rw [convert, List.length_append, List.length_replicate, List.length_reverse]

/-- In a smaller base there are no fewer digits. -/
theorem length_le_length_convert (hbase : 1 < target) (hle : target ≤ source)
    (hdigits : ∀ digit ∈ digits, digit < source) :
    digits.length ≤ (convert source target digits).length := by
  -- the leading zeros stay, so only the significant digits are compared
  rw [length_convert, ← leading_add_length digits,
    ← digits_value (hbase.trans_le hle) hdigits, List.length_reverse]
  apply Nat.add_le_add_left
  rw [Nat.digits_length_le_iff (hbase.trans_le hle)]
  calc value source digits < target ^ _ := Nat.lt_base_pow_length_digits hbase
    _ ≤ source ^ _ := Nat.pow_le_pow_left hle _

/-- In another base there are `extra` more digits at most, when as many more
places are enough for any number of the digits. -/
theorem length_convert_le (hsource : 1 < source) (hbase : 1 < target) {extra : Nat}
    (hdigits : ∀ digit ∈ digits, digit < source)
    (hextra : ∀ count ≤ digits.length, source ^ count ≤ target ^ (count + extra)) :
    (convert source target digits).length ≤ digits.length + extra := by
  have hlength := leading_add_length digits
  have hnumeral : (Nat.digits target (value source digits)).length ≤
      (significant digits).length + extra := by
    rw [Nat.digits_length_le_iff hbase, ← digits_value hsource hdigits, List.length_reverse]
    calc value source digits
        < source ^ (Nat.digits source (value source digits)).length :=
          Nat.lt_base_pow_length_digits hsource
      _ ≤ _ := hextra _ ?_
    rw [← List.length_reverse, digits_value hsource hdigits]
    omega
  rw [length_convert]
  omega

end Digits

end Radix

/-! ## Base 58 -/

namespace Base58

open Radix

/-- The digits in order: no `0`, `O`, `I` or `l`. -/
def alphabet : List UInt8 :=
  "123456789ABCDEFGHJKLMNPQRSTUVWXYZabcdefghijkmnopqrstuvwxyz".toList.map Char.toUInt8

def letter (digit : Nat) : UInt8 := alphabet.getD digit 0

/-- The digit that a letter stands for. -/
def digitOf (character : UInt8) : Nat := alphabet.idxOf character

/-- The text of a byte string. Every leading zero byte is a letter of its own. -/
def encode (bytes : List UInt8) : List UInt8 :=
  (convert 256 58 (bytes.map UInt8.toNat)).map letter

/-- The byte string of a text. -/
def decode (text : List UInt8) : List UInt8 :=
  (convert 58 256 (text.map digitOf)).map UInt8.ofNat

theorem digitOf_letter {digit : Nat} (h : digit < 58) : digitOf (letter digit) = digit := by
  have hall : ∀ digit < 58, digitOf (letter digit) = digit := by decide +kernel
  exact hall digit h

theorem toNat_lt_of_mem {bytes : List UInt8} : ∀ digit ∈ bytes.map UInt8.toNat, digit < 256 := by
  intro digit hdigit
  obtain ⟨byte, -, rfl⟩ := List.mem_map.mp hdigit
  exact byte.toNat_lt

/-- Reading a text gives the bytes it was written for. -/
theorem decode_encode (bytes : List UInt8) : decode (encode bytes) = bytes := by
  have hdigits : (encode bytes).map digitOf = convert 256 58 (bytes.map UInt8.toNat) := by
    rw [encode, List.map_map]
    conv_rhs => rw [← List.map_id (convert 256 58 (bytes.map UInt8.toNat))]
    apply List.map_congr_left
    intro digit hdigit
    exact digitOf_letter (convert_lt (by decide) hdigit)
  rw [decode, hdigits, convert_convert (by decide) toNat_lt_of_mem, List.map_map]
  conv_rhs => rw [← List.map_id bytes]
  apply List.map_congr_left
  intro byte _
  exact UInt8.ofNat_toNat

theorem encode_injective : Function.Injective encode :=
  Function.LeftInverse.injective decode_encode

/-- There is no terminator among the letters. -/
theorem letter_ne_zero {digit : Nat} (h : digit < 58) : letter digit ≠ 0 := by
  have hall : ∀ digit < 58, letter digit ≠ 0 := by decide +kernel
  exact hall digit h

theorem zero_notMem_encode (bytes : List UInt8) : (0 : UInt8) ∉ encode bytes := by
  intro hmem
  obtain ⟨digit, hdigit, hzero⟩ := List.mem_map.mp hmem
  exact letter_ne_zero (convert_lt (by decide) hdigit) hzero

theorem encode_length (bytes : List UInt8) :
    (encode bytes).length = (convert 256 58 (bytes.map UInt8.toNat)).length := List.length_map _

theorem length_le_length_encode (bytes : List UInt8) : bytes.length ≤ (encode bytes).length := by
  rw [encode_length]
  have hle : 58 ≤ 256 := by decide
  simpa only [List.length_map] using length_le_length_convert (by decide) hle toNat_lt_of_mem

/-- Eight more letters than bytes are enough for short strings. -/
theorem length_encode_le {bytes : List UInt8} (h : bytes.length ≤ 21) :
    (encode bytes).length ≤ bytes.length + 8 := by
  have hextra : ∀ count ≤ 21, 256 ^ count ≤ 58 ^ (count + 8) := by decide
  have hle := length_convert_le (by decide) (by decide) toNat_lt_of_mem
    fun count (hcount : count ≤ (bytes.map UInt8.toNat).length) =>
      hextra count (hcount.trans ((List.length_map _).trans_le h))
  rwa [List.length_map, ← encode_length] at hle

end Base58
