import LedgerMatrix.Foundation.BigEndian
import LedgerMatrix.Foundation.DoubleWord
import LedgerMatrix.Uint256.Basic
import Mathlib.Data.Nat.ModEq

/-! # What the operations compute

Every operation is exact on the numbers that its operands denote: the shifts,
the sum and the difference up to the width, the comparisons and the bit length
without restriction. The 256-bit operations follow from the 128-bit ones by the
same laws of double words that give the 128-bit ones from the limbs.
-/

namespace LedgerMatrix

open Imperative

/-- The number that a 128-bit value denotes. -/
def Uint128.val (number : Uint128) : Nat :=
  DoubleWord.join 64 number.upper.toNat number.lower.toNat

/-- The number that a 256-bit value denotes. -/
def Uint256.val (number : Uint256) : Nat :=
  DoubleWord.join 128 number.upper.val number.lower.val

theorem Uint128.val_lt (number : Uint128) : number.val < 2 ^ 128 :=
  DoubleWord.join_lt number.upper.toNat_lt number.lower.toNat_lt

theorem Uint256.val_lt (number : Uint256) : number.val < 2 ^ 256 :=
  DoubleWord.join_lt number.upper.val_lt number.lower.val_lt

theorem Uint128.val_inj {a b : Uint128} : a.val = b.val ↔ a = b := by
  refine ⟨fun h => ?_, fun h => h ▸ rfl⟩
  obtain ⟨hu, hl⟩ := (DoubleWord.join_inj a.lower.toNat_lt b.lower.toNat_lt).mp h
  cases a
  cases b
  simp_all [UInt64.toNat_inj]

theorem Uint256.val_inj {a b : Uint256} : a.val = b.val ↔ a = b := by
  refine ⟨fun h => ?_, fun h => h ▸ rfl⟩
  obtain ⟨hu, hl⟩ := (DoubleWord.join_inj a.lower.val_lt b.lower.val_lt).mp h
  rw [Uint128.val_inj] at hu hl
  cases a
  cases b
  simp_all

theorem Uint128.val_mk_zero (limb : UInt64) : (⟨0, limb⟩ : Uint128).val = limb.toNat := by
  rw [Uint128.val, DoubleWord.join, UInt64.toNat_zero, Nat.zero_mul, Nat.zero_add]

@[simp] theorem val_clear128 : clear128.val = 0 := Uint128.val_mk_zero 0

@[simp] theorem val_one128 : (⟨0, 1⟩ : Uint128).val = 1 := Uint128.val_mk_zero 1

theorem Uint256.val_mk_clear (half : Uint128) : (⟨clear128, half⟩ : Uint256).val = half.val := by
  rw [Uint256.val, DoubleWord.join, val_clear128, Nat.zero_mul, Nat.zero_add]

@[simp] theorem val_clear256 : clear256.val = 0 :=
  (Uint256.val_mk_clear clear128).trans val_clear128

@[simp] theorem val_one256 : (⟨clear128, ⟨0, 1⟩⟩ : Uint256).val = 1 :=
  (Uint256.val_mk_clear ⟨0, 1⟩).trans val_one128

/-! ## Comparison -/

theorem equal128_iff {a b : Uint128} : equal128 a b = true ↔ a.val = b.val := by
  rw [Uint128.val_inj]
  cases a
  cases b
  simp [equal128]

theorem gt128_iff {a b : Uint128} : gt128 a b = true ↔ b.val < a.val := by
  unfold gt128 Uint128.val
  rw [DoubleWord.join_lt_join_iff b.lower.toNat_lt a.lower.toNat_lt]
  by_cases heq : a.upper = b.upper
  · simp [heq, UInt64.lt_iff_toNat_lt]
  · have hne : ¬ b.upper.toNat = a.upper.toNat := fun h => heq (UInt64.toNat_inj.mp h).symm
    simp [heq, hne, UInt64.lt_iff_toNat_lt]

theorem gte128_iff {a b : Uint128} : gte128 a b = true ↔ b.val ≤ a.val := by
  simp only [gte128, Bool.or_eq_true, gt128_iff, equal128_iff]
  omega

theorem zero128_iff {a : Uint128} : zero128 a = true ↔ a.val = 0 := by
  have hzero : a.val = 0 ↔ a.val = clear128.val := by rw [val_clear128]
  rw [hzero, Uint128.val_inj]
  cases a
  simp [zero128, clear128, and_comm]

theorem equal256_iff {a b : Uint256} : equal256 a b = true ↔ a.val = b.val := by
  simp only [equal256, Bool.and_eq_true, equal128_iff]
  exact (DoubleWord.join_inj a.lower.val_lt b.lower.val_lt).symm

theorem gt256_iff {a b : Uint256} : gt256 a b = true ↔ b.val < a.val := by
  unfold gt256 Uint256.val
  rw [DoubleWord.join_lt_join_iff b.lower.val_lt a.lower.val_lt]
  by_cases heq : a.upper.val = b.upper.val
  · simp [equal128_iff.mpr heq, gt128_iff, heq]
  · have hfalse : equal128 a.upper b.upper = false := by
      rw [Bool.eq_false_iff]
      exact fun h => heq (equal128_iff.mp h)
    have hne : ¬ b.upper.val = a.upper.val := fun h => heq h.symm
    simp [hfalse, gt128_iff, hne]

theorem gte256_iff {a b : Uint256} : gte256 a b = true ↔ b.val ≤ a.val := by
  simp only [gte256, Bool.or_eq_true, gt256_iff, equal256_iff]
  omega

theorem zero256_iff {a : Uint256} : zero256 a = true ↔ a.val = 0 := by
  simp only [zero256, Bool.and_eq_true, zero128_iff, Uint256.val, DoubleWord.join]
  omega

/-! ## Addition and subtraction -/

theorem val_add128 (a b : Uint128) : (add128 a b).val = (a.val + b.val) % 2 ^ 128 := by
  have hsum := DoubleWord.join_add (w := 64) a.upper.toNat b.upper.toNat
    a.lower.toNat_lt b.lower.toNat_lt
  rw [Uint128.val, Uint128.val, Uint128.val, hsum]
  simp only [add128, UInt64.toNat_add, UInt64.lt_iff_toNat_lt]
  split <;> simp

/-- Limb subtraction wraps at the limb width. -/
theorem toNat_sub_emod (x y : UInt64) :
    ((x - y).toNat : Int) = ((x.toNat : Int) - y.toNat) % 2 ^ 64 := by
  have hx : x.toNat < 2 ^ 64 := x.toNat_lt
  have hy : y.toNat < 2 ^ 64 := y.toNat_lt
  rw [UInt64.toNat_sub]
  omega

theorem val_minus128 (a b : Uint128) :
    ((minus128 a b).val : Int) = ((a.val : Int) - b.val) % 2 ^ 128 := by
  have hdiff := DoubleWord.join_sub (w := 64) a.upper.toNat b.upper.toNat
    a.lower.toNat_lt b.lower.toNat_lt
  have hgt : a.lower - b.lower > a.lower ↔
      (a.lower.toNat : Int) < ((a.lower.toNat : Int) - b.lower.toNat) % 2 ^ 64 := by
    rw [← toNat_sub_emod, gt_iff_lt, UInt64.lt_iff_toNat_lt, Nat.cast_lt]
  rw [Uint128.val, Uint128.val, Uint128.val, hdiff, DoubleWord.join_cast]
  simp only [minus128]
  rw [toNat_sub_emod, toNat_sub_emod, toNat_sub_emod]
  congr 2
  by_cases h : a.lower - b.lower > a.lower
  · rw [if_pos h, if_pos (hgt.mp h), UInt64.toNat_one]
    omega
  · rw [if_neg h, if_neg (hgt.not.mp h), UInt64.toNat_zero]
    omega

theorem val_add256 (a b : Uint256) : (add256 a b).val = (a.val + b.val) % 2 ^ 256 := by
  have hsum := DoubleWord.join_add a.upper.val b.upper.val a.lower.val_lt b.lower.val_lt
  have hcarry : gt128 a.lower (add128 a.lower b.lower) = true ↔
      (a.lower.val + b.lower.val) % 2 ^ 128 < a.lower.val := by
    rw [gt128_iff, val_add128]
  rw [Uint256.val, Uint256.val, Uint256.val, hsum]
  simp only [add256]
  by_cases h : gt128 a.lower (add128 a.lower b.lower) = true
  · rw [if_pos h, if_pos (hcarry.mp h), val_add128, val_add128, val_add128, val_one128,
      Nat.mod_add_mod]
  · rw [if_neg h, if_neg (hcarry.not.mp h), val_add128, val_add128, Nat.add_zero]

theorem val_minus256 (a b : Uint256) :
    ((minus256 a b).val : Int) = ((a.val : Int) - b.val) % 2 ^ 256 := by
  have hdiff := DoubleWord.join_sub a.upper.val b.upper.val a.lower.val_lt b.lower.val_lt
  have hborrow : gt128 (minus128 a.lower b.lower) a.lower = true ↔
      (a.lower.val : Int) < ((a.lower.val : Int) - b.lower.val) % 2 ^ 128 := by
    rw [← val_minus128, gt128_iff, Nat.cast_lt]
  rw [Uint256.val, Uint256.val, Uint256.val, hdiff, DoubleWord.join_cast]
  simp only [minus256]
  by_cases h : gt128 (minus128 a.lower b.lower) a.lower = true
  · rw [if_pos h, if_pos (hborrow.mp h), val_minus128, val_minus128, val_minus128, val_one128,
      Nat.cast_one, Int.emod_sub_emod, sub_eq_add_neg _ (1 : Int)]
  · rw [if_neg h, if_neg (hborrow.not.mp h), val_minus128, val_minus128, Int.add_zero]

/-- Subtraction of a number that is not larger. -/
theorem val_minus256_of_le {a b : Uint256} (h : b.val ≤ a.val) :
    (minus256 a b).val = a.val - b.val := by
  have hval := val_minus256 a b
  have ha := a.val_lt
  rw [Int.emod_eq_of_lt (by omega) (by omega)] at hval
  omega

/-! ## Shifts -/

theorem toNat_shl (limb : UInt64) (amount : Nat) (h : amount < 64) :
    (shl limb amount h).toNat = limb.toNat * 2 ^ amount % 2 ^ 64 := by
  have hamount : (UInt64.ofNat amount).toNat % 64 = amount := by
    rw [UInt64.toNat_ofNat']
    omega
  rw [shl, UInt64.toNat_shiftLeft, hamount, Nat.shiftLeft_eq]

theorem toNat_shr (limb : UInt64) (amount : Nat) (h : amount < 64) :
    (shr limb amount h).toNat = limb.toNat / 2 ^ amount := by
  have hamount : (UInt64.ofNat amount).toNat % 64 = amount := by
    rw [UInt64.toNat_ofNat']
    omega
  rw [shr, UInt64.toNat_shiftRight, hamount, Nat.shiftRight_eq_div_pow]

theorem val_shiftl128 (number : Uint128) (value : Nat) :
    (shiftl128 number value).val = number.val * 2 ^ value % 2 ^ 128 := by
  -- one case for each branch of the source: all out, one limb, none, less, more
  unfold shiftl128
  split
  next hbig =>
    obtain ⟨extra, rfl⟩ := Nat.exists_eq_add_of_le hbig
    rw [val_clear128, Nat.pow_add, Nat.mul_left_comm, Nat.mul_mod_right]
  split
  next hword =>
    subst hword
    have hmove := DoubleWord.shiftl_ge 64 0 number.upper.toNat number.lower.toNat
    rw [Uint128.val, Uint128.val, hmove, Nat.pow_zero, Nat.mul_one,
      Nat.mod_eq_of_lt number.lower.toNat_lt, UInt64.toNat_zero]
  split
  next hzero =>
    subst hzero
    rw [Nat.pow_zero, Nat.mul_one, Nat.mod_eq_of_lt number.val_lt]
  split
  next hlt =>
    have hmove := DoubleWord.shiftl_lt (w := 64) number.upper.toNat number.lower.toNat
      (Nat.le_of_lt hlt)
    rw [Uint128.val, Uint128.val, hmove, UInt64.toNat_add, toNat_shl, toNat_shl, toNat_shr,
      Nat.mod_add_mod]
  split
  next hmid =>
    have hmove := DoubleWord.shiftl_ge 64 (value - 64) number.upper.toNat number.lower.toNat
    rw [Nat.add_sub_cancel' (Nat.le_of_lt hmid.2)] at hmove
    rw [Uint128.val, Uint128.val, hmove, toNat_shl, UInt64.toNat_zero]
  next => omega

theorem val_shiftr128 (number : Uint128) (value : Nat) :
    (shiftr128 number value).val = number.val / 2 ^ value := by
  unfold shiftr128
  split
  next hbig =>
    rw [val_clear128, Nat.div_eq_of_lt]
    exact number.val_lt.trans_le (Nat.pow_le_pow_right (by decide) hbig)
  split
  next hword =>
    subst hword
    have hmove := DoubleWord.shiftr_ge (w := 64) 0 number.upper.toNat
      number.lower.toNat_lt
    rw [Uint128.val, Uint128.val, hmove, Nat.pow_zero, Nat.div_one, UInt64.toNat_zero]
  split
  next hzero =>
    subst hzero
    rw [Nat.pow_zero, Nat.div_one]
  split
  next hlt =>
    have hmove := DoubleWord.shiftr_lt (w := 64) number.upper.toNat number.lower.toNat
      (Nat.le_of_lt hlt)
    -- the bits that come down meet zeros, so their sum has no carry
    have hfit := DoubleWord.shiftr_carry_lt number.upper.toNat (Nat.le_of_lt hlt)
      number.lower.toNat_lt
    rw [Uint128.val, Uint128.val, hmove, UInt64.toNat_add, toNat_shl, toNat_shr, toNat_shr,
      Nat.mod_eq_of_lt hfit]
  split
  next hmid =>
    have hmove := DoubleWord.shiftr_ge (w := 64) (value - 64) number.upper.toNat
      number.lower.toNat_lt
    rw [Nat.add_sub_cancel' (Nat.le_of_lt hmid.2)] at hmove
    rw [Uint128.val, Uint128.val, hmove, toNat_shr, UInt64.toNat_zero]
  next => omega

theorem val_shiftl256 (number : Uint256) (value : Nat) :
    (shiftl256 number value).val = number.val * 2 ^ value % 2 ^ 256 := by
  unfold shiftl256
  split
  next hbig =>
    obtain ⟨extra, rfl⟩ := Nat.exists_eq_add_of_le hbig
    rw [val_clear256, Nat.pow_add, Nat.mul_left_comm, Nat.mul_mod_right]
  split
  next hword =>
    subst hword
    have hmove := DoubleWord.shiftl_ge 128 0 number.upper.val number.lower.val
    rw [Uint256.val, Uint256.val, hmove, Nat.pow_zero, Nat.mul_one,
      Nat.mod_eq_of_lt number.lower.val_lt, val_clear128]
  split
  next hzero =>
    subst hzero
    rw [Nat.pow_zero, Nat.mul_one, Nat.mod_eq_of_lt number.val_lt]
  split
  next hlt =>
    have hmove := DoubleWord.shiftl_lt (w := 128) number.upper.val number.lower.val
      (Nat.le_of_lt hlt)
    rw [Uint256.val, Uint256.val, hmove, val_add128, val_shiftl128, val_shiftl128, val_shiftr128,
      Nat.mod_add_mod]
  split
  next hmid =>
    have hmove := DoubleWord.shiftl_ge 128 (value - 128) number.upper.val number.lower.val
    rw [Nat.add_sub_cancel' (Nat.le_of_lt hmid.2)] at hmove
    rw [Uint256.val, Uint256.val, hmove, val_shiftl128, val_clear128]
  next => omega

theorem val_shiftr256 (number : Uint256) (value : Nat) :
    (shiftr256 number value).val = number.val / 2 ^ value := by
  unfold shiftr256
  split
  next hbig =>
    rw [val_clear256, Nat.div_eq_of_lt]
    exact number.val_lt.trans_le (Nat.pow_le_pow_right (by decide) hbig)
  split
  next hword =>
    subst hword
    have hmove := DoubleWord.shiftr_ge (w := 128) 0 number.upper.val
      number.lower.val_lt
    rw [Uint256.val, Uint256.val, hmove, Nat.pow_zero, Nat.div_one, val_clear128]
  split
  next hzero =>
    subst hzero
    rw [Nat.pow_zero, Nat.div_one]
  split
  next hlt =>
    have hmove := DoubleWord.shiftr_lt (w := 128) number.upper.val number.lower.val
      (Nat.le_of_lt hlt)
    -- the bits that come down meet zeros, so their sum has no carry
    have hfit := DoubleWord.shiftr_carry_lt number.upper.val (Nat.le_of_lt hlt)
      number.lower.val_lt
    rw [Uint256.val, Uint256.val, hmove, val_add128, val_shiftl128, val_shiftr128, val_shiftr128,
      Nat.add_comm (number.lower.val / 2 ^ value), Nat.mod_eq_of_lt hfit]
  split
  next hmid =>
    have hmove := DoubleWord.shiftr_ge (w := 128) (value - 128) number.upper.val
      number.lower.val_lt
    rw [Nat.add_sub_cancel' (Nat.le_of_lt hmid.2)] at hmove
    rw [Uint256.val, Uint256.val, hmove, val_shiftr128, val_clear128]
  next => omega

/-! ## Disjunction and bit length -/

theorem val_or128 (a b : Uint128) : (or128 a b).val = a.val ||| b.val := by
  rw [Uint128.val, Uint128.val, Uint128.val,
    ← DoubleWord.join_or a.lower.toNat_lt b.lower.toNat_lt]
  simp only [or128, UInt64.toNat_or]

theorem val_or256 (a b : Uint256) : (or256 a b).val = a.val ||| b.val := by
  rw [Uint256.val, Uint256.val, Uint256.val,
    ← DoubleWord.join_or a.lower.val_lt b.lower.val_lt]
  simp only [or256, val_or128]

theorem shiftOutLimb_eq (limb : UInt64) (result : Nat) :
    shiftOutLimb limb result = some (result + limb.toNat.size) := by
  refine whileLoop_halve UInt64.toNat _ (fun limb => limb >>> 1) ?_ ?_ ?_ result
  · intro limb count
    simp [← UInt64.toNat_inj]
  · intro limb
    simp [Nat.shiftRight_eq_div_pow]
  · rw [Nat.size_le]
    exact limb.toNat_lt

theorem shiftOutHalf_eq (half : Uint128) (result : Nat) :
    shiftOutHalf half result = some (result + half.val.size) := by
  refine whileLoop_halve Uint128.val _ (fun half => shiftr128 half 1) ?_ ?_ ?_ result
  · intro half count
    simp only [Bool.not_eq_true', ← Bool.not_eq_true, zero128_iff, ne_eq]
  · intro half
    rw [val_shiftr128, Nat.pow_one]
  · rw [Nat.size_le]
    exact half.val_lt

theorem bits256_eq (number : Uint256) : bits256 number = some number.val.size := by
  rw [Uint256.val, DoubleWord.size_join number.lower.val_lt]
  unfold bits256
  by_cases hzero : number.upper.val = 0
  · rw [if_neg (by simp [zero128_iff.mpr hzero]), if_pos hzero, shiftOutHalf_eq, Nat.zero_add]
  · have hnot : (!zero128 number.upper) = true := by
      rw [Bool.not_eq_true', ← Bool.not_eq_true, zero128_iff]
      exact hzero
    rw [if_pos hnot, if_neg hzero, shiftOutHalf_eq]

theorem bits128_eq (number : Uint128) : bits128 number = some number.val.size := by
  rw [Uint128.val, DoubleWord.size_join number.lower.toNat_lt]
  unfold bits128
  by_cases hzero : number.upper.toNat = 0
  · rw [if_neg (by simp [← UInt64.toNat_inj, hzero]), if_pos hzero, shiftOutLimb_eq, Nat.zero_add]
  · rw [if_pos (by simpa [← UInt64.toNat_inj] using hzero), if_neg hzero, shiftOutLimb_eq]

/-! ## The lowest limb -/

/-- A number fits the lowest limb when the three limbs above it are zero. -/
theorem val_lt_limb_iff {number : Uint256} : number.val < 2 ^ 64 ↔
    number.upper.upper = 0 ∧ number.upper.lower = 0 ∧ number.lower.upper = 0 := by
  have hupper : number.upper.val = 0 ↔ number.upper.upper = 0 ∧ number.upper.lower = 0 := by
    rw [← zero128_iff]
    simp [zero128, and_comm]
  have hlower : number.lower.val < 2 ^ 64 ↔ number.lower.upper = 0 := by
    rw [Uint128.val, DoubleWord.join_lt_pow_iff le_rfl, ← UInt64.toNat_inj, UInt64.toNat_zero]
    exact and_iff_left number.lower.lower.toNat_lt
  rw [Uint256.val, DoubleWord.join_lt_pow_iff (by decide), hupper, hlower, and_assoc]

/-- A number below 2^64 is its lowest limb. -/
theorem lowest_limb {number : Uint256} (h : number.val < 2 ^ 64) :
    number.lower.lower.toNat = number.val := by
  have hhalf : number.val = number.lower.val := DoubleWord.join_eq_low
    (h.trans (Nat.pow_lt_pow_right (by decide) (by decide)))
  rw [hhalf] at h ⊢
  exact (DoubleWord.join_eq_low h).symm

/-! ## Reading bytes -/

/-- A byte that is moved above the bytes after it. -/
theorem toNat_byte_or {byte : UInt8} {amount low : UInt64} {rest : List UInt8}
    (hlow : low.toNat = BigEndian.value rest) (hamount : amount.toNat = 8 * rest.length)
    (hrest : rest.length ≤ 7) :
    (byte.toUInt64 <<< amount ||| low).toNat = BigEndian.value (byte :: rest) := by
  have hpow : 256 ^ rest.length = 2 ^ (8 * rest.length) := by rw [Nat.pow_mul]
  have hlt := BigEndian.value_lt rest
  have hbyte : byte.toNat * 2 ^ (8 * rest.length) < 2 ^ 64 := by
    calc byte.toNat * 2 ^ (8 * rest.length)
        < 2 ^ 8 * 2 ^ (8 * rest.length) := Nat.mul_lt_mul_of_pos_right byte.toNat_lt (by positivity)
      _ = 2 ^ (8 + 8 * rest.length) := (Nat.pow_add 2 8 _).symm
      _ ≤ 2 ^ 64 := Nat.pow_le_pow_right (by decide) (by omega)
  have hmod : 8 * rest.length % 64 = 8 * rest.length := Nat.mod_eq_of_lt (by omega)
  have hshift : (byte.toUInt64 <<< amount).toNat = byte.toNat * 2 ^ (8 * rest.length) := by
    rw [UInt64.toNat_shiftLeft, UInt8.toNat_toUInt64, hamount, hmod, Nat.shiftLeft_eq,
      Nat.mod_eq_of_lt hbyte]
  rw [hpow] at hlt
  rw [UInt64.toNat_or, hshift, hlow, BigEndian.value_cons, hpow, Nat.mul_comm,
    ← Nat.two_pow_add_eq_or_of_lt hlt]

theorem toNat_readUint64BE (buffer : Nat → UInt8) :
    (readUint64BE buffer).toNat = BigEndian.value ((List.range 8).map buffer) := by
  have hlast : (buffer 7).toUInt64.toNat = BigEndian.value [buffer 7] := by
    rw [UInt8.toNat_toUInt64, BigEndian.value_singleton]
  unfold readUint64BE
  simp only [UInt64.or_assoc]
  refine toNat_byte_or ?_ rfl (by simp)
  refine toNat_byte_or ?_ rfl (by simp)
  refine toNat_byte_or ?_ rfl (by simp)
  refine toNat_byte_or ?_ rfl (by simp)
  refine toNat_byte_or ?_ rfl (by simp)
  refine toNat_byte_or ?_ rfl (by simp)
  exact toNat_byte_or hlast rfl (by simp)

/-- The number in `count + more` bytes, from the first `count` and the rest. -/
theorem value_range_add (buffer : Nat → UInt8) (count more : Nat) :
    BigEndian.value ((List.range (count + more)).map buffer) =
      BigEndian.value ((List.range count).map buffer) * 256 ^ more +
        BigEndian.value ((List.range more).map fun i => buffer (i + count)) := by
  rw [List.range_add, List.map_append, BigEndian.value_append, List.length_map, List.length_map,
    List.length_range, List.map_map]
  simp only [Function.comp_def, Nat.add_comm count]

theorem val_readu128BE (buffer : Nat → UInt8) :
    (readu128BE buffer).val = BigEndian.value ((List.range 16).map buffer) := by
  have hsplit := value_range_add buffer 8 8
  have hwidth : 256 ^ 8 = 2 ^ 64 := by decide
  rw [hwidth] at hsplit
  rw [Uint128.val, readu128BE, toNat_readUint64BE, toNat_readUint64BE, DoubleWord.join, hsplit]

theorem val_readu256BE (buffer : Nat → UInt8) :
    (readu256BE buffer).val = BigEndian.value ((List.range 32).map buffer) := by
  have hsplit := value_range_add buffer 16 16
  have hwidth : 256 ^ 16 = 2 ^ 128 := by decide
  rw [hwidth] at hsplit
  rw [Uint256.val, readu256BE, val_readu128BE, val_readu128BE, DoubleWord.join, hsplit]

end LedgerMatrix
