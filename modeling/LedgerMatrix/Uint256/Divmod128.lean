import LedgerMatrix.Uint256.Divmod

/-! # Division of 128-bit numbers

`divmod128` is `divmod256` with the operations of the other width. Its loop is
mirrored by that of `divmod256` on the same numbers with a clear upper half, so
what holds of the wide division holds of the narrow one.
-/

namespace LedgerMatrix

open Imperative

/-- The local variables of the loop of `divmod128`. -/
structure DivmodState128 where
  copyd : Uint128
  adder : Uint128
  resDiv : Uint128
  resMod : Uint128

/-- One pass of the loop of `divmod128`. -/
def divmodPass128 (s : DivmodState128) : DivmodState128 :=
  let t := if gte128 s.resMod s.copyd then
      { s with resMod := minus128 s.resMod s.copyd, resDiv := or128 s.resDiv s.adder }
    else s
  { t with copyd := shiftr128 t.copyd 1, adder := shiftr128 t.adder 1 }

/-- The state in which the loop of `divmod128` starts. -/
def divmodStart128 (l r : Uint128) (diffBits : Nat) : DivmodState128 :=
  let one : Uint128 := ⟨0, 1⟩
  let copyd := shiftl128 r diffBits
  let adder := shiftl128 one diffBits
  if gt128 copyd l then ⟨shiftr128 copyd 1, shiftr128 adder 1, clear128, l⟩
  else ⟨copyd, adder, clear128, l⟩

/-- Quotient and remainder by shift and subtract, with the passes of the wide
division, which are more than enough. -/
def divmod128 (l r : Uint128) : Option (Uint128 × Uint128) :=
  match bits128 l, bits128 r with
  | some lBits, some rBits =>
      let diffBits := u32 (2 ^ 32 - rBits + lBits)
      if gt128 r l then some (clear128, l)
      else
        (whileLoop (fun s => gte128 s.resMod r) divmodPass128 256
          (divmodStart128 l r diffBits)).map fun s => (s.resDiv, s.resMod)
  | _, _ => none

/-! ## The wide division mirrors the narrow one -/

/-- The same number in 256 bits. -/
def Uint128.widen (number : Uint128) : Uint256 := ⟨clear128, number⟩

@[simp] theorem val_widen (number : Uint128) : number.widen.val = number.val :=
  Uint256.val_mk_clear number

theorem widen_gte (a b : Uint128) : gte256 a.widen b.widen = gte128 a b := by
  rw [Bool.eq_iff_iff, gte256_iff, gte128_iff, val_widen, val_widen]

theorem widen_gt (a b : Uint128) : gt256 a.widen b.widen = gt128 a b := by
  rw [Bool.eq_iff_iff, gt256_iff, gt128_iff, val_widen, val_widen]

theorem widen_zero (a : Uint128) : zero256 a.widen = zero128 a := by
  rw [Bool.eq_iff_iff, zero256_iff, zero128_iff, val_widen]

theorem widen_shiftr (a : Uint128) (value : Nat) :
    shiftr256 a.widen value = (shiftr128 a value).widen := by
  rw [← Uint256.val_inj, val_shiftr256, val_widen, val_widen, val_shiftr128]

theorem widen_or (a b : Uint128) : or256 a.widen b.widen = (or128 a b).widen := by
  rw [← Uint256.val_inj, val_or256, val_widen, val_widen, val_widen, val_or128]

theorem widen_minus {a b : Uint128} (h : b.val ≤ a.val) :
    minus256 a.widen b.widen = (minus128 a b).widen := by
  have hval := val_minus128 a b
  have ha := a.val_lt
  rw [Int.emod_eq_of_lt (by omega) (by omega)] at hval
  have hwide : b.widen.val ≤ a.widen.val := by rwa [val_widen, val_widen]
  rw [← Uint256.val_inj, val_minus256_of_le hwide, val_widen, val_widen, val_widen]
  omega

/-- A left shift that loses no bit. -/
theorem widen_shiftl {a : Uint128} {value : Nat} (h : a.val * 2 ^ value < 2 ^ 128) :
    shiftl256 a.widen value = (shiftl128 a value).widen := by
  have hwide : a.val * 2 ^ value < 2 ^ 256 :=
    h.trans_le (Nat.pow_le_pow_right (by decide) (by decide))
  rw [← Uint256.val_inj, val_shiftl256, val_widen, val_widen, val_shiftl128,
    Nat.mod_eq_of_lt h, Nat.mod_eq_of_lt hwide]

def DivmodState128.widen (s : DivmodState128) : DivmodState :=
  ⟨s.copyd.widen, s.adder.widen, s.resDiv.widen, s.resMod.widen⟩

theorem divmodPass_widen (s : DivmodState128) : divmodPass s.widen = (divmodPass128 s).widen := by
  unfold divmodPass divmodPass128
  have hgte : gte256 s.widen.resMod s.widen.copyd = gte128 s.resMod s.copyd := widen_gte _ _
  rw [hgte]
  by_cases hge : gte128 s.resMod s.copyd = true
  · simp only [if_pos hge, DivmodState128.widen, widen_shiftr, widen_or,
      widen_minus (gte128_iff.mp hge)]
  · simp only [if_neg hge, DivmodState128.widen, widen_shiftr]

theorem divmodStart_widen {l r : Uint128} {diffBits : Nat}
    (hcopyd : r.val * 2 ^ diffBits < 2 ^ 128) (hadder : 2 ^ diffBits < 2 ^ 128) :
    divmodStart l.widen r.widen diffBits = (divmodStart128 l r diffBits).widen := by
  have hone : (⟨clear128, ⟨0, 1⟩⟩ : Uint256) = (⟨0, 1⟩ : Uint128).widen := rfl
  have hadder' : (⟨0, 1⟩ : Uint128).val * 2 ^ diffBits < 2 ^ 128 := by
    rwa [val_one128, Nat.one_mul]
  unfold divmodStart divmodStart128
  simp only [hone, widen_shiftl hcopyd, widen_shiftl hadder', widen_gt, widen_shiftr]
  split <;> rfl

/-- Dividing by a nonzero number is the wide division of the same numbers. -/
theorem divmod256_widen {l r : Uint128} (hr : 0 < r.val) :
    divmod256 l.widen r.widen =
      (divmod128 l r).map fun result => (result.1.widen, result.2.widen) := by
  unfold divmod256 divmod128
  rw [bits256_eq, bits256_eq, bits128_eq, bits128_eq, val_widen, val_widen]
  simp only [widen_gt]
  by_cases hgt : gt128 r l = true
  · rw [if_pos hgt, if_pos hgt]
    rfl
  · have hle : r.val ≤ l.val := Nat.le_of_not_lt (gt128_iff.not.mp hgt)
    have hlsize : l.val.size ≤ 128 := Nat.size_le.mpr l.val_lt
    have hsizes : r.val.size ≤ l.val.size := Nat.size_le_size hle
    have hrsize : 0 < r.val.size := Nat.size_pos.mpr hr
    have hdiff : u32 (2 ^ 32 - r.val.size + l.val.size) = l.val.size - r.val.size := by
      unfold u32
      omega
    have hcopyd : r.val * 2 ^ (l.val.size - r.val.size) < 2 ^ 128 :=
      (shift_bounds hr hle).1.trans_le (Nat.pow_le_pow_right (by decide) hlsize)
    have hadder : 2 ^ (l.val.size - r.val.size) < 2 ^ 128 :=
      Nat.pow_lt_pow_right (by decide) (by omega)
    rw [if_neg hgt, if_neg hgt, hdiff, divmodStart_widen hcopyd hadder,
      whileLoop_map (fun s => widen_gte s.resMod r) divmodPass_widen, Option.map_map,
      Option.map_map]
    rfl

/-- Division of 128-bit numbers by a nonzero number ends and is Euclidean. -/
theorem divmod128_spec {l r : Uint128} (hr : 0 < r.val) :
    ∃ q m, divmod128 l r = some (q, m) ∧ q.val = l.val / r.val ∧ m.val = l.val % r.val := by
  obtain ⟨q, m, hwide, hq, hm⟩ := divmod256_spec (l := l.widen) (r := r.widen) (by rwa [val_widen])
  rw [divmod256_widen hr, Option.map_eq_some_iff] at hwide
  obtain ⟨result, hnarrow, hresult⟩ := hwide
  obtain ⟨rfl, rfl⟩ := Prod.mk.inj hresult
  rw [val_widen, val_widen, val_widen] at hq hm
  exact ⟨result.1, result.2, hnarrow, hq, hm⟩

end LedgerMatrix
