import Mathlib.Data.List.Basic
import Mathlib.Algebra.Group.Nat.Defs
import Mathlib.Tactic.Common

/-! # Little-endian numbers

Numbers as byte strings with the least significant byte first, and of a fixed
length.
-/

namespace LittleEndian

/-- The number that the bytes spell. -/
def value : List UInt8 → Nat
  | [] => 0
  | byte :: rest => byte.toNat + 256 * value rest

/-- The `count` lowest bytes of a number. -/
def bytes : Nat → Nat → List UInt8
  | 0, _ => []
  | count + 1, n => UInt8.ofNat n :: bytes count (n / 256)

@[simp] theorem bytes_length (count n : Nat) : (bytes count n).length = count := by
  induction count generalizing n with
  | zero => rfl
  | succ count ih => rw [bytes, List.length_cons, ih]

/-- The lowest bytes spell the number as far as it fits. -/
theorem value_bytes (count n : Nat) : value (bytes count n) = n % 256 ^ count := by
  induction count generalizing n with
  | zero => rw [bytes, value, pow_zero, Nat.mod_one]
  | succ count ih =>
      have hbyte : (UInt8.ofNat n).toNat = n % 256 := by simp
      rw [bytes, value, ih, hbyte, pow_succ', Nat.mod_mul]

theorem value_lt (list : List UInt8) : value list < 256 ^ list.length := by
  induction list with
  | nil => exact Nat.one_pos
  | cons byte rest ih =>
      have hbyte := byte.toNat_lt
      rw [value, List.length_cons, pow_succ']
      omega

/-- The bytes one by one. -/
theorem bytes_eq_ofFn (count n : Nat) :
    bytes count n = List.ofFn fun k : Fin count => UInt8.ofNat (n / 256 ^ k.val) := by
  induction count generalizing n with
  | zero => rfl
  | succ count ih =>
      rw [bytes, ih, List.ofFn_succ]
      simp only [Fin.val_zero, pow_zero, Nat.div_one, Fin.val_succ, pow_succ',
        Nat.div_div_eq_div_mul]

/-- Each byte can be read off the number. -/
theorem ofNat_value_div (list : List UInt8) {k : Nat} (h : k < list.length) :
    UInt8.ofNat (value list / 256 ^ k) = list[k] := by
  induction list generalizing k with
  | nil => cases h
  | cons byte rest ih =>
      have hbyte := byte.toNat_lt
      cases k with
      | zero =>
          apply UInt8.toNat_inj.mp
          rw [pow_zero, Nat.div_one, UInt8.toNat_ofNat', value, List.getElem_cons_zero]
          omega
      | succ k =>
          have hdrop : (byte.toNat + 256 * value rest) / 256 = value rest := by omega
          rw [value, pow_succ', ← Nat.div_div_eq_div_mul, hdrop, List.getElem_cons_succ]
          exact ih (Nat.lt_of_succ_lt_succ h)

end LittleEndian
