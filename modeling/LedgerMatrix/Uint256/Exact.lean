import LedgerMatrix.Uint256.InPlace
import Mathlib.Order.Bounds.Basic

/-! # Exactness

The shifts, the bit length, the sum, the difference and the comparisons are
those of the numbers that the operands denote, at every shift amount and for
every pattern of limbs.
-/

namespace LedgerMatrix

open Imperative

/-! ## Shifts and bit length -/

/-- A call that ends shifts no limb by its width or more, and by no difference
that has wrapped. It leaves in its target a number with the property. -/
def Leaves {α : Type} (call : Writes (Nat → α) Unit) (memory : Nat → α) (target : Nat)
    (property : α → Prop) : Prop :=
  ∃ after, call.outcome memory = .done () after ∧ property (after target)

theorem Leaves.of_left {α : Type}
    {command : Lens (Nat → α) α → Lens (Nat → α) α → Lens (Nat → α) α → Writes (Nat → α) Unit}
    {memory : Nat → α} {number1 number2 target : Nat} {value : α}
    (h : left command memory number1 number2 target = some value) {property : α → Prop}
    (hvalue : property value) :
    Leaves (command (.object number1) (.object number2) (.object target)) memory target
      property := by
  unfold left at h
  split at h
  next after hend => exact ⟨after, hend, by rw [Option.some.inj h]; exact hvalue⟩
  next => cases h

/-- The bit length is the least number of bits that hold the number. -/
theorem isLeast_size (n : Nat) : IsLeast {b | n < 2 ^ b} n.size :=
  ⟨Nat.lt_size_self n, fun _ hb => Nat.size_le.mpr hb⟩

/-- Both shifts of both widths are exact at every amount, on a target apart from
the operand, and the bit lengths are the least ones. -/
theorem shifts_exact (narrow : Nat → Uint128) (wide : Nat → Uint256) {number target : Nat}
    (h : number ≠ target) (value : Nat) :
    Leaves (Writes.shiftl128 (.object number) value (.object target)) narrow target
      (fun result => result.val = (narrow number).val * 2 ^ value % 2 ^ 128) ∧
    Leaves (Writes.shiftr128 (.object number) value (.object target)) narrow target
      (fun result => result.val = (narrow number).val / 2 ^ value) ∧
    Leaves (Writes.shiftl256 (.object number) value (.object target)) wide target
      (fun result => result.val = (wide number).val * 2 ^ value % 2 ^ 256) ∧
    Leaves (Writes.shiftr256 (.object number) value (.object target)) wide target
      (fun result => result.val = (wide number).val / 2 ^ value) ∧
    (∃ b, bits128 (narrow number) = some b ∧ IsLeast {c | (narrow number).val < 2 ^ c} b) ∧
    ∃ b, bits256 (wide number) = some b ∧ IsLeast {c | (wide number).val < 2 ^ c} b := by
  have hl128 := @left_run128 (.shiftl value) narrow number number target (Or.inl h)
  have hr128 := @left_run128 (.shiftr value) narrow number number target (Or.inl h)
  have hl256 := left_run256 (.shiftl value) wide number number target
  have hr256 := left_run256 (.shiftr value) wide number number target
  exact ⟨Leaves.of_left hl128 (val_shiftl128 _ _), Leaves.of_left hr128 (val_shiftr128 _ _),
    Leaves.of_left hl256 (val_shiftl256 _ _), Leaves.of_left hr256 (val_shiftr256 _ _),
    ⟨_, bits128_eq _, isLeast_size _⟩, _, bits256_eq _, isLeast_size _⟩

theorem shifts_exact_limb :
    Leaves (Writes.shiftl128 (.object 0) 64 (.object 1)) (fun _ => ⟨5, 7⟩) 1
      (fun result => result.val = (⟨5, 7⟩ : Uint128).val * 2 ^ 64 % 2 ^ 128) ∧
    Leaves (Writes.shiftr128 (.object 0) 64 (.object 1)) (fun _ => ⟨5, 7⟩) 1
      (fun result => result.val = (⟨5, 7⟩ : Uint128).val / 2 ^ 64) ∧
    Leaves (Writes.shiftl256 (.object 0) 64 (.object 1)) (fun _ => ⟨⟨1, 2⟩, ⟨3, 4⟩⟩) 1
      (fun result => result.val = (⟨⟨1, 2⟩, ⟨3, 4⟩⟩ : Uint256).val * 2 ^ 64 % 2 ^ 256) ∧
    Leaves (Writes.shiftr256 (.object 0) 64 (.object 1)) (fun _ => ⟨⟨1, 2⟩, ⟨3, 4⟩⟩) 1
      (fun result => result.val = (⟨⟨1, 2⟩, ⟨3, 4⟩⟩ : Uint256).val / 2 ^ 64) ∧
    (∃ b, bits128 ⟨5, 7⟩ = some b ∧ IsLeast {c | (⟨5, 7⟩ : Uint128).val < 2 ^ c} b) ∧
    ∃ b, bits256 ⟨⟨1, 2⟩, ⟨3, 4⟩⟩ = some b ∧
      IsLeast {c | (⟨⟨1, 2⟩, ⟨3, 4⟩⟩ : Uint256).val < 2 ^ c} b :=
  shifts_exact (fun _ => ⟨5, 7⟩) (fun _ => ⟨⟨1, 2⟩, ⟨3, 4⟩⟩) (by decide) 64

/-! ## Sum, difference and comparison -/

/-- What is added and subtracted again, up to a modulus. -/
theorem add_sub_emod {a b m : Int} (ha : 0 ≤ a) (ham : a < m) : ((a + b) % m - b) % m = a := by
  rw [Int.emod_sub_emod, add_sub_cancel_right, Int.emod_eq_of_lt ha ham]

theorem sub_add_emod {a b m : Int} (ha : 0 ≤ a) (ham : a < m) : ((a - b) % m + b) % m = a := by
  rw [Int.emod_add_emod, sub_add_cancel, Int.emod_eq_of_lt ha ham]

theorem minus128_add128 (a b : Uint128) : minus128 (add128 a b) b = a := by
  have ha : (a.val : Int) < 2 ^ 128 := by exact_mod_cast a.val_lt
  rw [← Uint128.val_inj, ← Nat.cast_inj (R := Int), val_minus128, val_add128]
  push_cast
  exact add_sub_emod (Int.natCast_nonneg _) ha

theorem add128_minus128 (a b : Uint128) : add128 (minus128 a b) b = a := by
  have ha : (a.val : Int) < 2 ^ 128 := by exact_mod_cast a.val_lt
  rw [← Uint128.val_inj, ← Nat.cast_inj (R := Int), val_add128]
  push_cast
  rw [val_minus128]
  exact sub_add_emod (Int.natCast_nonneg _) ha

theorem minus256_add256 (a b : Uint256) : minus256 (add256 a b) b = a := by
  have ha : (a.val : Int) < 2 ^ 256 := by exact_mod_cast a.val_lt
  rw [← Uint256.val_inj, ← Nat.cast_inj (R := Int), val_minus256, val_add256]
  push_cast
  exact add_sub_emod (Int.natCast_nonneg _) ha

theorem add256_minus256 (a b : Uint256) : add256 (minus256 a b) b = a := by
  have ha : (a.val : Int) < 2 ^ 256 := by exact_mod_cast a.val_lt
  rw [← Uint256.val_inj, ← Nat.cast_inj (R := Int), val_add256]
  push_cast
  rw [val_minus256]
  exact sub_add_emod (Int.natCast_nonneg _) ha

/-- Sum and difference are exact up to the width and undo each other, and the
comparisons decide the order of the numbers, at both widths. -/
theorem sums_exact (a b : Uint256) (c d : Uint128) :
    ((add256 a b).val = (a.val + b.val) % 2 ^ 256 ∧
      ((minus256 a b).val : Int) = ((a.val : Int) - b.val) % 2 ^ 256 ∧
      minus256 (add256 a b) b = a ∧ add256 (minus256 a b) b = a ∧
      (gt256 a b = true ↔ a.val > b.val) ∧ (gte256 a b = true ↔ a.val ≥ b.val) ∧
      (equal256 a b = true ↔ a.val = b.val)) ∧
    ((add128 c d).val = (c.val + d.val) % 2 ^ 128 ∧
      ((minus128 c d).val : Int) = ((c.val : Int) - d.val) % 2 ^ 128 ∧
      minus128 (add128 c d) d = c ∧ add128 (minus128 c d) d = c ∧
      (gt128 c d = true ↔ c.val > d.val) ∧ (gte128 c d = true ↔ c.val ≥ d.val) ∧
      (equal128 c d = true ↔ c.val = d.val)) :=
  ⟨⟨val_add256 a b, val_minus256 a b, minus256_add256 a b, add256_minus256 a b, gt256_iff,
    gte256_iff, equal256_iff⟩,
    val_add128 c d, val_minus128 c d, minus128_add128 c d, add128_minus128 c d, gt128_iff,
    gte128_iff, equal128_iff⟩

end LedgerMatrix
