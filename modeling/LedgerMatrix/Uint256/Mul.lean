import LedgerMatrix.Foundation.Schoolbook
import LedgerMatrix.Uint256.Value

/-! # Multiplication

Both multiplications of `uint256.c` split their operands into four parts and sum
the halves of the partial products by their weight. In `mul128` every column is
added at its weight. In `mul256` the carry of the second column is stored one
limb too high, so the product is exact only when that column has no carry.
-/

namespace LedgerMatrix

/-! ## The source -/

/-- The lower 32 bits of a limb. -/
def low32 (limb : UInt64) : UInt64 := limb &&& 0xffffffff

/-- The upper 32 bits of a limb. -/
def high32 (limb : UInt64) : UInt64 := limb >>> 32

/-- `top` and `bottom` of `mul128`: the parts of 32 bits, most significant first. -/
def parts32 (number : Uint128) : Nat → UInt64
  | 0 => high32 number.upper
  | 1 => low32 number.upper
  | 2 => high32 number.lower
  | _ => low32 number.lower

/-- `products[row][y]` of `mul128`, whose rows run against the order of `top`. -/
def products64 (number1 number2 : Uint128) (row y : Nat) : UInt64 :=
  parts32 number1 (3 - row) * parts32 number2 y

def fourth32 (products : Nat → Nat → UInt64) : UInt64 := low32 (products 0 3)

def third32 (products : Nat → Nat → UInt64) : UInt64 :=
  low32 (products 0 2) + high32 (products 0 3) + low32 (products 1 3)

def second32 (products : Nat → Nat → UInt64) : UInt64 :=
  low32 (products 0 1) + high32 (products 0 2) +
    (low32 (products 1 2) + high32 (products 1 3)) + low32 (products 2 3)

def first32 (products : Nat → Nat → UInt64) : UInt64 :=
  low32 (products 0 0) + high32 (products 0 1) +
    (low32 (products 1 1) + high32 (products 1 2)) +
    (low32 (products 2 2) + high32 (products 2 3)) + low32 (products 3 3)

def mul128 (number1 number2 : Uint128) : Uint128 :=
  let products := products64 number1 number2
  let target := add128 ⟨first32 products <<< 32, 0⟩
    ⟨high32 (third32 products), third32 products <<< 32⟩
  let tmp2 := add128 ⟨second32 products, 0⟩ target
  add128 ⟨0, fourth32 products⟩ tmp2

/-- `top` and `bottom` of `mul256`: the limbs, most significant first. -/
def parts64 (number : Uint256) : Nat → UInt64
  | 0 => number.upper.upper
  | 1 => number.upper.lower
  | 2 => number.lower.upper
  | _ => number.lower.lower

/-- `products[row][y]` of `mul256`. -/
def products128 (number1 number2 : Uint256) (row y : Nat) : Uint128 :=
  mul128 ⟨0, parts64 number1 (3 - row)⟩ ⟨0, parts64 number2 y⟩

def fourth64 (products : Nat → Nat → Uint128) : Uint128 := ⟨0, (products 0 3).lower⟩

def third64 (products : Nat → Nat → Uint128) : Uint128 :=
  add128 ⟨0, (products 1 3).lower⟩
    (add128 ⟨0, (products 0 2).lower⟩ ⟨0, (products 0 3).upper⟩)

def second64 (products : Nat → Nat → Uint128) : Uint128 :=
  add128 ⟨0, (products 2 3).lower⟩
    (add128 ⟨0, (products 1 3).upper⟩
      (add128 ⟨0, (products 1 2).lower⟩
        (add128 ⟨0, (products 0 1).lower⟩ ⟨0, (products 0 2).upper⟩)))

def first64 (products : Nat → Nat → Uint128) : Uint128 :=
  add128 ⟨0, (products 3 3).lower⟩
    (add128 ⟨0, (products 2 3).upper⟩
      (add128 ⟨0, (products 2 2).lower⟩
        (add128 ⟨0, (products 1 2).upper⟩
          (add128 ⟨0, (products 1 1).lower⟩
            (add128 ⟨0, (products 0 0).lower⟩ ⟨0, (products 0 1).upper⟩)))))

def mul256 (number1 number2 : Uint256) : Uint256 :=
  let products := products128 number1 number2
  -- the upper limb of the second column goes to the top of the number
  let target := add256 ⟨shiftl128 (first64 products) 64, clear128⟩
    ⟨⟨(third64 products).upper, 0⟩, shiftl128 (third64 products) 64⟩
  let target2 := add256 ⟨second64 products, clear128⟩ target
  add256 ⟨clear128, fourth64 products⟩ target2

/-! ## 128 bits -/

/-- The parts of a 128-bit number as natural numbers. -/
def digits32 (number : Uint128) (i : Nat) : Nat := (parts32 number i).toNat

theorem toNat_low32 (limb : UInt64) : (low32 limb).toNat = limb.toNat % 2 ^ 32 := by
  rw [low32, UInt64.toNat_and]
  exact Nat.and_two_pow_sub_one_eq_mod _ 32

theorem toNat_high32 (limb : UInt64) : (high32 limb).toNat = limb.toNat / 2 ^ 32 := by
  rw [high32, UInt64.toNat_shiftRight]
  exact Nat.shiftRight_eq_div_pow _ 32

theorem toNat_shiftLeft_32 (limb : UInt64) :
    (limb <<< 32).toNat = limb.toNat * 2 ^ 32 % 2 ^ 64 := by
  rw [UInt64.toNat_shiftLeft]
  exact congrArg (· % 2 ^ 64) (Nat.shiftLeft_eq _ 32)

theorem digits32_lt (number : Uint128) (i : Nat) : digits32 number i < 2 ^ 32 := by
  have hupper := number.upper.toNat_lt
  have hlower := number.lower.toNat_lt
  unfold digits32 parts32
  split
  · rw [toNat_high32]
    omega
  · rw [toNat_low32]
    omega
  · rw [toNat_high32]
    omega
  · rw [toNat_low32]
    omega

theorem number_digits32 (number : Uint128) :
    Schoolbook.number (2 ^ 32) (digits32 number) = number.val := by
  simp only [Schoolbook.number, digits32, parts32, toNat_low32, toNat_high32, Uint128.val,
    DoubleWord.join]
  omega

section Products64

variable (a b : Uint128)

theorem toNat_products64 (row y : Nat) :
    (products64 a b row y).toNat = digits32 a (3 - row) * digits32 b y := by
  have hlt := Nat.mul_lt_mul'' (digits32_lt a (3 - row)) (digits32_lt b y)
  rw [products64, UInt64.toNat_mul, Nat.mod_eq_of_lt]
  · rfl
  · exact hlt.trans_le (by decide)

theorem toNat_low32_products64 (row y : Nat) : (low32 (products64 a b row y)).toNat =
    Schoolbook.low (2 ^ 32) (digits32 a) (digits32 b) (3 - row) y := by
  rw [toNat_low32, toNat_products64, Schoolbook.low]

theorem toNat_high32_products64 (row y : Nat) : (high32 (products64 a b row y)).toNat =
    Schoolbook.high (2 ^ 32) (digits32 a) (digits32 b) (3 - row) y := by
  rw [toNat_high32, toNat_products64, Schoolbook.high]

theorem low_lt (i j : Nat) :
    Schoolbook.low (2 ^ 32) (digits32 a) (digits32 b) i j < 2 ^ 32 :=
  Schoolbook.low_lt _ _ (by decide) i j

theorem high_lt (i j : Nat) :
    Schoolbook.high (2 ^ 32) (digits32 a) (digits32 b) i j < 2 ^ 32 :=
  Schoolbook.high_lt _ _ (digits32_lt a i) (digits32_lt b j)

theorem toNat_fourth32 : (fourth32 (products64 a b)).toNat =
    Schoolbook.column0 (2 ^ 32) (digits32 a) (digits32 b) :=
  toNat_low32_products64 a b 0 3

/-- No column of halves fills a limb. -/
theorem toNat_third32 : (third32 (products64 a b)).toNat =
    Schoolbook.column1 (2 ^ 32) (digits32 a) (digits32 b) := by
  have h₁ := low_lt a b 3 2
  have h₂ := high_lt a b 3 3
  have h₃ := low_lt a b 2 3
  simp only [third32, UInt64.toNat_add, toNat_low32_products64, toNat_high32_products64,
    Schoolbook.column1, Nat.sub_zero, Nat.reduceSub]
  omega

theorem toNat_second32 : (second32 (products64 a b)).toNat =
    Schoolbook.column2 (2 ^ 32) (digits32 a) (digits32 b) := by
  have h₁ := low_lt a b 3 1
  have h₂ := high_lt a b 3 2
  have h₃ := low_lt a b 2 2
  have h₄ := high_lt a b 2 3
  have h₅ := low_lt a b 1 3
  simp only [second32, UInt64.toNat_add, toNat_low32_products64, toNat_high32_products64,
    Schoolbook.column2, Nat.sub_zero, Nat.reduceSub]
  omega

theorem toNat_first32 : (first32 (products64 a b)).toNat =
    Schoolbook.column3 (2 ^ 32) (digits32 a) (digits32 b) := by
  have h₁ := low_lt a b 3 0
  have h₂ := high_lt a b 3 1
  have h₃ := low_lt a b 2 1
  have h₄ := high_lt a b 2 2
  have h₅ := low_lt a b 1 2
  have h₆ := high_lt a b 1 3
  have h₇ := low_lt a b 0 3
  simp only [first32, UInt64.toNat_add, toNat_low32_products64, toNat_high32_products64,
    Schoolbook.column3, Nat.sub_zero, Nat.reduceSub]
  omega

/-- The columns are added at their weights, up to the width. -/
theorem val_mul128 : (mul128 a b).val = a.val * b.val % 2 ^ 128 := by
  have hthird : (⟨high32 (third32 (products64 a b)), third32 (products64 a b) <<< 32⟩ :
      Uint128).val = (third32 (products64 a b)).toNat * 2 ^ 32 := by
    have hlt := (third32 (products64 a b)).toNat_lt
    rw [Uint128.val, DoubleWord.join, toNat_high32, toNat_shiftLeft_32]
    omega
  have hfirst : (⟨first32 (products64 a b) <<< 32, 0⟩ : Uint128).val =
      (first32 (products64 a b)).toNat * 2 ^ 96 % 2 ^ 128 := by
    rw [Uint128.val, DoubleWord.join, toNat_shiftLeft_32, UInt64.toNat_zero]
    omega
  have hsecond : (⟨second32 (products64 a b), 0⟩ : Uint128).val =
      (second32 (products64 a b)).toNat * 2 ^ 64 := by
    rw [Uint128.val, DoubleWord.join, UInt64.toNat_zero, Nat.add_zero]
  have hcolumns := Schoolbook.columns_modEq (2 ^ 32) (digits32 a) (digits32 b)
  rw [number_digits32, number_digits32, ← pow_mul, ← pow_mul, ← pow_mul] at hcolumns
  have hmod : a.val * b.val % 2 ^ 128 = _ := hcolumns.symm
  rw [hmod]
  simp only [mul128, val_add128, hthird, hfirst, hsecond, Uint128.val_mk_zero, toNat_first32,
    toNat_second32, toNat_third32, toNat_fourth32]
  omega

end Products64

/-! ## 256 bits -/

/-- The limbs of a 256-bit number as natural numbers. -/
def digits64 (number : Uint256) (i : Nat) : Nat := (parts64 number i).toNat

theorem digits64_lt (number : Uint256) (i : Nat) : digits64 number i < 2 ^ 64 :=
  (parts64 number i).toNat_lt

theorem number_digits64 (number : Uint256) :
    Schoolbook.number (2 ^ 64) (digits64 number) = number.val := by
  simp only [Schoolbook.number, digits64, parts64, Uint256.val, Uint128.val, DoubleWord.join]
  ring

theorem toNat_lower (number : Uint128) : number.lower.toNat = number.val % 2 ^ 64 := by
  have hlower := number.lower.toNat_lt
  rw [Uint128.val, DoubleWord.join]
  omega

theorem toNat_upper (number : Uint128) : number.upper.toNat = number.val / 2 ^ 64 := by
  have hlower := number.lower.toNat_lt
  rw [Uint128.val, DoubleWord.join]
  omega

section Products128

variable (a b : Uint256)

theorem val_products128 (row y : Nat) :
    (products128 a b row y).val = digits64 a (3 - row) * digits64 b y := by
  have hlt := Nat.mul_lt_mul'' (digits64_lt a (3 - row)) (digits64_lt b y)
  rw [products128, val_mul128, Uint128.val_mk_zero, Uint128.val_mk_zero]
  exact Nat.mod_eq_of_lt (hlt.trans_le (by decide))

theorem lower_products128 (row y : Nat) : (products128 a b row y).lower.toNat =
    Schoolbook.low (2 ^ 64) (digits64 a) (digits64 b) (3 - row) y := by
  rw [toNat_lower, val_products128, Schoolbook.low]

theorem upper_products128 (row y : Nat) : (products128 a b row y).upper.toNat =
    Schoolbook.high (2 ^ 64) (digits64 a) (digits64 b) (3 - row) y := by
  rw [toNat_upper, val_products128, Schoolbook.high]

theorem low64_lt (i j : Nat) :
    Schoolbook.low (2 ^ 64) (digits64 a) (digits64 b) i j < 2 ^ 64 :=
  Schoolbook.low_lt _ _ (by decide) i j

theorem high64_lt (i j : Nat) :
    Schoolbook.high (2 ^ 64) (digits64 a) (digits64 b) i j < 2 ^ 64 :=
  Schoolbook.high_lt _ _ (digits64_lt a i) (digits64_lt b j)

theorem val_fourth64 : (fourth64 (products128 a b)).val =
    Schoolbook.column0 (2 ^ 64) (digits64 a) (digits64 b) := by
  rw [fourth64, Uint128.val_mk_zero, lower_products128, Schoolbook.column0]

theorem val_third64 : (third64 (products128 a b)).val =
    Schoolbook.column1 (2 ^ 64) (digits64 a) (digits64 b) := by
  have h₁ := low64_lt a b 3 2
  have h₂ := high64_lt a b 3 3
  have h₃ := low64_lt a b 2 3
  simp only [third64, val_add128, Uint128.val_mk_zero, lower_products128, upper_products128,
    Schoolbook.column1, Nat.sub_zero, Nat.reduceSub]
  omega

theorem val_second64 : (second64 (products128 a b)).val =
    Schoolbook.column2 (2 ^ 64) (digits64 a) (digits64 b) := by
  have h₁ := low64_lt a b 3 1
  have h₂ := high64_lt a b 3 2
  have h₃ := low64_lt a b 2 2
  have h₄ := high64_lt a b 2 3
  have h₅ := low64_lt a b 1 3
  simp only [second64, val_add128, Uint128.val_mk_zero, lower_products128, upper_products128,
    Schoolbook.column2, Nat.sub_zero, Nat.reduceSub]
  omega

theorem val_first64 : (first64 (products128 a b)).val =
    Schoolbook.column3 (2 ^ 64) (digits64 a) (digits64 b) := by
  have h₁ := low64_lt a b 3 0
  have h₂ := high64_lt a b 3 1
  have h₃ := low64_lt a b 2 1
  have h₄ := high64_lt a b 2 2
  have h₅ := low64_lt a b 1 2
  have h₆ := high64_lt a b 1 3
  have h₇ := low64_lt a b 0 3
  simp only [first64, val_add128, Uint128.val_mk_zero, lower_products128, upper_products128,
    Schoolbook.column3, Nat.sub_zero, Nat.reduceSub]
  omega

/-- The columns are added at their weights, but for the carry of the second,
which has the weight `2 ^ 192` and not `2 ^ 128`. -/
theorem val_mul256 {column : Nat}
    (hcolumn : Schoolbook.column1 (2 ^ 64) (digits64 a) (digits64 b) = column) :
    (mul256 a b).val =
      (a.val * b.val + column / 2 ^ 64 * (2 ^ 192 - 2 ^ 128)) % 2 ^ 256 := by
  have hfirst : (⟨shiftl128 (first64 (products128 a b)) 64, clear128⟩ : Uint256).val =
      (first64 (products128 a b)).val * 2 ^ 192 % 2 ^ 256 := by
    rw [Uint256.val, DoubleWord.join, val_shiftl128, val_clear128]
    omega
  have hthird : (⟨⟨(third64 (products128 a b)).upper, 0⟩,
      shiftl128 (third64 (products128 a b)) 64⟩ : Uint256).val =
        (third64 (products128 a b)).val * 2 ^ 64 +
          (third64 (products128 a b)).val / 2 ^ 64 * (2 ^ 192 - 2 ^ 128) := by
    have hupper : (⟨(third64 (products128 a b)).upper, 0⟩ : Uint128).val =
        (third64 (products128 a b)).val / 2 ^ 64 * 2 ^ 64 := by
      rw [← toNat_upper, Uint128.val, DoubleWord.join, UInt64.toNat_zero, Nat.add_zero]
    rw [Uint256.val, DoubleWord.join, val_shiftl128, hupper]
    omega
  have hsecond : (⟨second64 (products128 a b), clear128⟩ : Uint256).val =
      (second64 (products128 a b)).val * 2 ^ 128 := by
    rw [Uint256.val, DoubleWord.join, val_clear128, Nat.add_zero]
  have hcolumns := Schoolbook.columns_modEq (2 ^ 64) (digits64 a) (digits64 b)
  rw [number_digits64, number_digits64, ← pow_mul, ← pow_mul, ← pow_mul] at hcolumns
  have hmod : a.val * b.val % 2 ^ 256 = _ := hcolumns.symm
  rw [Nat.add_mod, hmod]
  simp only [mul256, val_add256, hfirst, hthird, hsecond, Uint256.val_mk_clear, val_first64,
    val_second64, val_third64, val_fourth64, hcolumn]
  omega

end Products128

theorem column1_lt (a b : Uint256) :
    Schoolbook.column1 (2 ^ 64) (digits64 a) (digits64 b) < 3 * 2 ^ 64 := by
  have h₁ := low64_lt a b 3 2
  have h₂ := high64_lt a b 3 3
  have h₃ := low64_lt a b 2 3
  rw [Schoolbook.column1]
  omega

/-- What the misplaced carry adds is below the width, so it shows whenever there
is a carry. -/
theorem misplaced_eq_iff {column : Nat} (hless : column < 3 * 2 ^ 64) (product : Nat) :
    (product + column / 2 ^ 64 * (2 ^ 192 - 2 ^ 128)) % 2 ^ 256 = product % 2 ^ 256 ↔
      column < 2 ^ 64 := by
  constructor
  · intro heq
    have hzero : column / 2 ^ 64 * (2 ^ 192 - 2 ^ 128) ≡ 0 [MOD 2 ^ 256] :=
      Nat.ModEq.add_left_cancel' product heq
    clear heq
    have hsmall : column / 2 ^ 64 * (2 ^ 192 - 2 ^ 128) < 2 ^ 256 := by omega
    have hnone := (Nat.mod_eq_of_lt hsmall).symm.trans hzero
    rw [Nat.zero_mod] at hnone
    omega
  · intro hsmall
    rw [Nat.div_eq_of_lt hsmall, Nat.zero_mul, Nat.add_zero]

/-- Multiplication of 128 bits is exact up to the width. Multiplication of 256
bits is exact up to the width just when the limb products of weight `2 ^ 64` have
no carry into the next limb. -/
theorem mul_exact_iff (x y : Uint128) (a b : Uint256) :
    (mul128 x y).val = x.val * y.val % 2 ^ 128 ∧
    ((mul256 a b).val = a.val * b.val % 2 ^ 256 ↔
      a.lower.lower.toNat * b.lower.upper.toNat % 2 ^ 64 +
        a.lower.lower.toNat * b.lower.lower.toNat / 2 ^ 64 +
        a.lower.upper.toNat * b.lower.lower.toNat % 2 ^ 64 < 2 ^ 64) := by
  refine ⟨val_mul128 x y, ?_⟩
  have hiff := misplaced_eq_iff (column1_lt a b) (a.val * b.val)
  rw [← val_mul256 a b rfl] at hiff
  simpa only [Schoolbook.column1, Schoolbook.low, Schoolbook.high, digits64, parts64] using hiff

/-- The product of `2 ^ 64 - 1` and `2 ^ 65 - 1` has a carry in the second column. -/
theorem mul256_carry_misplaced :
    ¬ ∀ a b : Uint256, (mul256 a b).val = a.val * b.val % 2 ^ 256 := by
  intro h
  have hwrong := h ⟨⟨0, 0⟩, ⟨0, 0xffffffffffffffff⟩⟩ ⟨⟨0, 0⟩, ⟨1, 0xffffffffffffffff⟩⟩
  revert hwrong
  decide +kernel

end LedgerMatrix
