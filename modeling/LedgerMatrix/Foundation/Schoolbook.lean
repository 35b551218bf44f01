import Mathlib.Data.Nat.ModEq
import Mathlib.Tactic.LinearCombination
import Mathlib.Tactic.Ring
import Mathlib.Tactic.Zify

/-! # Products of four digits

The lower half of a product of two numbers of four digits. Each digit product has
a low and a high part, and the parts of one weight are summed to a column.
-/

namespace Schoolbook

/-- A number of four digits, most significant first as in an array. -/
def number (base : Nat) (digits : Nat → Nat) : Nat :=
  ((digits 0 * base + digits 1) * base + digits 2) * base + digits 3

/-- The low part of the product of two digits. -/
def low (base : Nat) (a b : Nat → Nat) (i j : Nat) : Nat := a i * b j % base

/-- The high part of the product of two digits. -/
def high (base : Nat) (a b : Nat → Nat) (i j : Nat) : Nat := a i * b j / base

/-- The column of weight 1. -/
def column0 (base : Nat) (a b : Nat → Nat) : Nat := low base a b 3 3

/-- The column of weight `base`. -/
def column1 (base : Nat) (a b : Nat → Nat) : Nat :=
  low base a b 3 2 + high base a b 3 3 + low base a b 2 3

/-- The column of weight `base ^ 2`. -/
def column2 (base : Nat) (a b : Nat → Nat) : Nat :=
  low base a b 3 1 + high base a b 3 2 + low base a b 2 2 + high base a b 2 3 +
    low base a b 1 3

/-- The column of weight `base ^ 3`. -/
def column3 (base : Nat) (a b : Nat → Nat) : Nat :=
  low base a b 3 0 + high base a b 3 1 + low base a b 2 1 + high base a b 2 2 +
    low base a b 1 2 + high base a b 1 3 + low base a b 0 3

section Columns

variable (base : Nat) (a b : Nat → Nat)

theorem low_add_high (i j : Nat) :
    low base a b i j + base * high base a b i j = a i * b j := Nat.mod_add_div _ _

theorem low_lt {base : Nat} (a b : Nat → Nat) (hbase : 0 < base) (i j : Nat) :
    low base a b i j < base :=
  Nat.mod_lt _ hbase

theorem high_lt {base : Nat} (a b : Nat → Nat) {i j : Nat} (ha : a i < base)
    (hb : b j < base) : high base a b i j < base := by
  apply Nat.div_lt_of_lt_mul
  exact Nat.mul_lt_mul'' ha hb

/-- The columns, each at its weight, give the product up to `base ^ 4`. -/
theorem columns_modEq :
    column0 base a b + column1 base a b * base + column2 base a b * base ^ 2 +
      column3 base a b * base ^ 3 ≡ number base a * number base b [MOD base ^ 4] := by
  -- the part of the product from `base ^ 4` on
  obtain ⟨upper, hupper⟩ : ∃ upper, upper =
      (high base a b 3 0 + high base a b 2 1 + high base a b 1 2 + high base a b 0 3) +
      (a 2 * b 0 + a 1 * b 1 + a 0 * b 2) + (a 1 * b 0 + a 0 * b 1) * base +
      a 0 * b 0 * base ^ 2 := ⟨_, rfl⟩
  have hproduct : number base a * number base b =
      column0 base a b + column1 base a b * base + column2 base a b * base ^ 2 +
        column3 base a b * base ^ 3 + upper * base ^ 4 := by
    have h33 := low_add_high base a b 3 3
    have h32 := low_add_high base a b 3 2
    have h31 := low_add_high base a b 3 1
    have h30 := low_add_high base a b 3 0
    have h23 := low_add_high base a b 2 3
    have h22 := low_add_high base a b 2 2
    have h21 := low_add_high base a b 2 1
    have h13 := low_add_high base a b 1 3
    have h12 := low_add_high base a b 1 2
    have h03 := low_add_high base a b 0 3
    rw [hupper]
    unfold number column0 column1 column2 column3
    zify at *
    linear_combination (-1 : ℤ) * h33 - base * (h32 + h23) - base ^ 2 * (h31 + h22 + h13) -
      base ^ 3 * (h30 + h21 + h12 + h03)
  rw [hproduct]
  refine (Nat.modEq_iff_dvd' (Nat.le_add_right _ _)).mpr ⟨upper, ?_⟩
  rw [Nat.add_sub_cancel_left]
  ring

end Columns

end Schoolbook
