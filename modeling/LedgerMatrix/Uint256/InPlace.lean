import LedgerMatrix.Uint256.Value
import LedgerMatrix.Uint256.Writes

/-! # In place and out of place

A memory of named objects, in which the functions of `uint256.c` are called with
a target that is apart from the first operand, or that is the first operand
itself. Both calls leave the same value in the target, with one exception: the
right shift of a 128-bit number by 64 clears the upper limb before it reads it.
The neighbouring branches keep the limb, by the order of their writes or by a
local copy, so the exception is a slip.
-/

namespace LedgerMatrix

open Imperative Writes

/-- The functions that write a number made of one or two others. The shifts have
one operand. -/
inductive Operation where
  | shiftl (value : Nat)
  | shiftr (value : Nat)
  | add
  | minus
  | or
  deriving DecidableEq

section Operations

variable {σ : Type}

/-- `shiftl128`, `shiftr128`, `add128`, `minus128` and `or128`. -/
def Operation.run128 : Operation → Lens σ Uint128 → Lens σ Uint128 → Lens σ Uint128 →
    Writes σ Unit
  | shiftl value, number, _, target => Writes.shiftl128 number value target
  | shiftr value, number, _, target => Writes.shiftr128 number value target
  | add, number1, number2, target => Writes.add128 number1 number2 target
  | minus, number1, number2, target => Writes.minus128 number1 number2 target
  | or, number1, number2, target => Writes.or128 number1 number2 target

/-- `shiftl256`, `shiftr256`, `add256`, `minus256` and `or256`. -/
def Operation.run256 : Operation → Lens σ Uint256 → Lens σ Uint256 → Lens σ Uint256 →
    Writes σ Unit
  | shiftl value, number, _, target => Writes.shiftl256 number value target
  | shiftr value, number, _, target => Writes.shiftr256 number value target
  | add, number1, number2, target => Writes.add256 number1 number2 target
  | minus, number1, number2, target => Writes.minus256 number1 number2 target
  | or, number1, number2, target => Writes.or256 number1 number2 target

/-- What the operation makes of 128-bit values. -/
def Operation.value128 : Operation → Uint128 → Uint128 → Uint128
  | shiftl value, number, _ => shiftl128 number value
  | shiftr value, number, _ => shiftr128 number value
  | add, number1, number2 => add128 number1 number2
  | minus, number1, number2 => minus128 number1 number2
  | or, number1, number2 => or128 number1 number2

/-- What the operation makes of 256-bit values. -/
def Operation.value256 : Operation → Uint256 → Uint256 → Uint256
  | shiftl value, number, _ => shiftl256 number value
  | shiftr value, number, _ => shiftr256 number value
  | add, number1, number2 => add256 number1 number2
  | minus, number1, number2 => minus256 number1 number2
  | or, number1, number2 => or256 number1 number2

end Operations

/-- The value that a call leaves in its target, when the call ends. -/
def left {α : Type} (command : Lens (Nat → α) α → Lens (Nat → α) α → Lens (Nat → α) α →
    Writes (Nat → α) Unit) (memory : Nat → α) (number1 number2 target : Nat) : Option α :=
  match (command (.object number1) (.object number2) (.object target)).outcome memory with
  | .done _ after => some (after target)
  | .stop _ _ => none

theorem left_of_wp {α : Type} {command : Lens (Nat → α) α → Lens (Nat → α) α → Lens (Nat → α) α →
    Writes (Nat → α) Unit} {memory : Nat → α} {number1 number2 target : Nat} {value : α}
    (h : (command (.object number1) (.object number2) (.object target)).wp (fun _ => True) memory
      (fun _ after => after target = value) (fun _ _ => False)) :
    left command memory number1 number2 target = some value := by
  obtain ⟨_, after, hend, hvalue⟩ := h.exists_done
  rw [left, hend, ← hvalue]

/-- A branch of the right shift of a 128-bit number that does not work in place. -/
def Operation.LosesLimb (operation : Operation) (number : Uint128) : Prop :=
  operation = .shiftr 64 ∧ number.upper ≠ 0

theorem left_run256 (operation : Operation) (memory : Nat → Uint256)
    (number1 number2 target : Nat) :
    left operation.run256 memory number1 number2 target =
      some (operation.value256 (memory number1) (memory number2)) := by
  have htarget := Lens.object_lawful (α := Uint256) target
  have h1 := Lens.Operand.object (α := Uint256) number1 target
  have h2 := Lens.Operand.object (α := Uint256) number2 target
  apply left_of_wp
  cases operation with
  | shiftl value => exact (wp_shiftl256 htarget h1 value).mpr (htarget.get_set _ _)
  | shiftr value => exact (wp_shiftr256 htarget h1 value).mpr (htarget.get_set _ _)
  | add => exact (add256_exact htarget h1 h2).mpr (htarget.get_set _ _)
  | minus => exact (minus256_exact htarget h1 h2).mpr (htarget.get_set _ _)
  | or => exact (or256_exact htarget h1 h2).mpr (htarget.get_set _ _)

theorem left_run128 {operation : Operation} (memory : Nat → Uint128)
    {number1 number2 target : Nat} (h : number1 ≠ target ∨ operation ≠ .shiftr 64) :
    left operation.run128 memory number1 number2 target =
      some (operation.value128 (memory number1) (memory number2)) := by
  have htarget := Lens.object_lawful (α := Uint128) target
  have h1 := Lens.Operand.object (α := Uint128) number1 target
  have h2 := Lens.Operand.object (α := Uint128) number2 target
  apply left_of_wp
  cases operation with
  | shiftl value => exact (wp_shiftl128 htarget h1 value).mpr (htarget.get_set _ _)
  | shiftr value =>
      -- the one operation that asks for more than an operand
      have hoperand : (Lens.object number1 : Lens (Nat → Uint128) _).Apart (.object target) ∨
          (Lens.object number1 : Lens (Nat → Uint128) _) = .object target ∧ value ≠ 64 := by
        rcases h with hne | hvalue
        · exact Or.inl (Lens.object_apart hne)
        · have hvalue' : value ≠ 64 := fun heq => hvalue (heq ▸ rfl)
          rcases h1 with hsame | hapart
          · exact Or.inr ⟨hsame, hvalue'⟩
          · exact Or.inl hapart
      exact (wp_shiftr128 htarget hoperand).mpr (htarget.get_set _ _)
  | add => exact (add128_exact htarget h1 h2).mpr (htarget.get_set _ _)
  | minus => exact (minus128_exact htarget h1 h2).mpr (htarget.get_set _ _)
  | or => exact (or128_exact htarget h1 h2).mpr (htarget.get_set _ _)

/-- Shifting a number right by one limb in place clears it. -/
theorem left_shiftr128_limb (memory : Nat → Uint128) (number other : Nat) :
    left (Operation.run128 (.shiftr 64)) memory number other number = some clear128 := by
  have hnumber := Lens.object_lawful (α := Uint128) number
  exact left_of_wp ((wp_shiftr128_inPlace_limb hnumber).mpr (hnumber.get_set _ _))

/-- Whatever the second operand is, a call in place leaves in the target what the
call on a separate target does, except that shifting a 128-bit number right by
64 in place loses its upper limb. -/
theorem inPlace_agrees_iff (operation : Operation) (narrow : Nat → Uint128)
    (wide : Nat → Uint256) {number1 target : Nat} (h : number1 ≠ target) (number2 : Nat) :
    (∃ value, left operation.run128 narrow number1 number2 target = some value ∧
      (left operation.run128 narrow number1 number2 number1 = some value ↔
        ¬ operation.LosesLimb (narrow number1))) ∧
    (∃ value, left operation.run256 wide number1 number2 target = some value ∧
      left operation.run256 wide number1 number2 number1 = some value) := by
  refine ⟨⟨_, left_run128 narrow (Or.inl h), ?_⟩,
    ⟨_, left_run256 operation wide number1 number2 target,
      left_run256 operation wide number1 number2 number1⟩⟩
  by_cases hslip : operation = .shiftr 64
  · subst hslip
    have hvalue : shiftr128 (narrow number1) 64 = ⟨0, (narrow number1).upper⟩ := rfl
    rw [left_shiftr128_limb]
    simp [Operation.LosesLimb, Operation.value128, hvalue, clear128, eq_comm]
  · rw [left_run128 narrow (Or.inr hslip)]
    simp [Operation.LosesLimb, hslip]

theorem inPlace_agrees_iff_limb :
    (∃ value, left (Operation.run128 (.shiftr 64)) (fun _ => ⟨5, 7⟩) 0 2 1 = some value ∧
      (left (Operation.run128 (.shiftr 64)) (fun _ => ⟨5, 7⟩) 0 2 0 = some value ↔
        ¬ Operation.LosesLimb (.shiftr 64) ⟨5, 7⟩)) ∧
    (∃ value,
      left (Operation.run256 (.shiftr 64)) (fun _ => ⟨⟨1, 2⟩, ⟨3, 4⟩⟩) 0 2 1 = some value ∧
      left (Operation.run256 (.shiftr 64)) (fun _ => ⟨⟨1, 2⟩, ⟨3, 4⟩⟩) 0 2 0 = some value) :=
  inPlace_agrees_iff (.shiftr 64) (fun _ => ⟨5, 7⟩) (fun _ => ⟨⟨1, 2⟩, ⟨3, 4⟩⟩) (by decide) 2

/-- The number with one bit above the lower limb is lost in place. -/
theorem shiftr128_inPlace_differs :
    ¬ ∀ (operation : Operation) (memory : Nat → Uint128) (number1 number2 target : Nat),
      number1 ≠ target → number2 ≠ target →
        left operation.run128 memory number1 number2 number1 =
          left operation.run128 memory number1 number2 target := by
  intro h
  have hsame := h (.shiftr 64) (fun _ => ⟨1, 0⟩) 0 0 1 (by decide) (by decide)
  rw [left_shiftr128_limb, left_run128 _ (Or.inl (by decide))] at hsame
  revert hsame
  decide

end LedgerMatrix
