import Mathlib.Data.Nat.Size
import Mathlib.Tactic.Ring
import Mathlib.Tactic.Linarith
import Mathlib.Tactic.LinearCombination

/-! # Double words

A number of `2 * w` bits held as two words of `w` bits. The laws below say what
the usual word-by-word algorithms compute. They are stated for any width, so a
four-word number is a double word of double words.
-/

namespace DoubleWord

/-- The number that a high and a low word of `w` bits denote. -/
def join (w hi lo : Nat) : Nat := hi * 2 ^ w + lo

theorem join_lt {w hi lo : Nat} (hhi : hi < 2 ^ w) (hlo : lo < 2 ^ w) :
    join w hi lo < 2 ^ (w + w) := by
  rw [join, Nat.pow_add]
  calc hi * 2 ^ w + lo < hi * 2 ^ w + 2 ^ w := by omega
    _ = (hi + 1) * 2 ^ w := by ring
    _ ≤ 2 ^ w * 2 ^ w := Nat.mul_le_mul_right _ hhi

/-- A double word below one word is its low word. -/
theorem join_eq_low {w hi lo : Nat} (h : join w hi lo < 2 ^ w) : join w hi lo = lo := by
  have hzero : hi = 0 := by
    rcases Nat.eq_zero_or_pos hi with hzero | hpos
    · exact hzero
    · have hle : 1 * 2 ^ w ≤ hi * 2 ^ w := Nat.mul_le_mul_right _ hpos
      rw [join] at h
      omega
  rw [join, hzero, Nat.zero_mul, Nat.zero_add]

theorem join_cast (w hi lo : Nat) : (join w hi lo : Int) = hi * 2 ^ w + lo := by
  simp [join]

/-! ## Order -/

theorem join_lt_join_iff {w ah al bh bl : Nat} (hal : al < 2 ^ w) (hbl : bl < 2 ^ w) :
    join w ah al < join w bh bl ↔ ah < bh ∨ ah = bh ∧ al < bl := by
  unfold join
  rcases lt_trichotomy ah bh with hless | rfl | hmore
  · have hstep : (ah + 1) * 2 ^ w ≤ bh * 2 ^ w := Nat.mul_le_mul_right _ hless
    rw [Nat.add_mul, Nat.one_mul] at hstep
    exact ⟨fun _ => Or.inl hless, fun _ => by omega⟩
  · simp
  · have hstep : (bh + 1) * 2 ^ w ≤ ah * 2 ^ w := Nat.mul_le_mul_right _ hmore
    rw [Nat.add_mul, Nat.one_mul] at hstep
    constructor
    · intro h
      omega
    · rintro (h | ⟨h, -⟩) <;> omega

theorem join_inj {w ah al bh bl : Nat} (hal : al < 2 ^ w) (hbl : bl < 2 ^ w) :
    join w ah al = join w bh bl ↔ ah = bh ∧ al = bl := by
  constructor
  · intro h
    have hnot : ¬ join w ah al < join w bh bl := h.not_lt
    have hnot' : ¬ join w bh bl < join w ah al := h.symm.not_lt
    rw [join_lt_join_iff hal hbl] at hnot
    rw [join_lt_join_iff hbl hal] at hnot'
    push Not at hnot hnot'
    have hhi : ah = bh := by omega
    exact ⟨hhi, by have := hnot.2 hhi; have := hnot'.2 hhi.symm; omega⟩
  · rintro ⟨rfl, rfl⟩
    rfl

/-- A double word is below a power within the low part when its high part is zero
and its low part is below that power. -/
theorem join_lt_pow_iff {w k : Nat} (hk : k ≤ w) {hi lo : Nat} :
    join w hi lo < 2 ^ k ↔ hi = 0 ∧ lo < 2 ^ k := by
  have hpow : 2 ^ k ≤ 2 ^ w := Nat.pow_le_pow_right (by decide) hk
  constructor
  · intro h
    have hlow := join_eq_low (h.trans_le hpow)
    have hzero : hi * 2 ^ w = 0 := by
      rw [join] at hlow
      omega
    exact ⟨by simpa using hzero, hlow ▸ h⟩
  · rintro ⟨rfl, h⟩
    simpa [join] using h

/-- The low bits of a double word are those of its low part. -/
theorem join_mod_pow {w k : Nat} (hk : k ≤ w) (hi lo : Nat) :
    join w hi lo % 2 ^ k = lo % 2 ^ k := by
  have hpow : 2 ^ w = 2 ^ k * 2 ^ (w - k) := by rw [← Nat.pow_add, Nat.add_sub_cancel' hk]
  rw [join, hpow, Nat.mul_left_comm, Nat.mul_add_mod]

/-! ## Addition and subtraction -/

/-- A number reduced to a double word is reduced word by word, with what the low
part carries into the high part. -/
theorem join_emod (w : Nat) (hi lo : Int) :
    (hi * 2 ^ w + lo) % 2 ^ (w + w) = (hi + lo / 2 ^ w) % 2 ^ w * 2 ^ w + lo % 2 ^ w := by
  have hpos : (0 : Int) < 2 ^ w := by positivity
  have hlo := Int.mul_ediv_add_emod lo (2 ^ w)
  have hhi := Int.mul_ediv_add_emod (hi + lo / 2 ^ w) (2 ^ w)
  have hsplit : hi * 2 ^ w + lo =
      (hi + lo / 2 ^ w) % 2 ^ w * 2 ^ w + lo % 2 ^ w +
        2 ^ (w + w) * ((hi + lo / 2 ^ w) / 2 ^ w) := by
    rw [pow_add]
    linear_combination (-1 : Int) * hlo - 2 ^ w * hhi
  rw [hsplit, Int.add_mul_emod_self_left]
  have hlo0 := Int.emod_nonneg lo hpos.ne'
  have hlo1 := Int.emod_lt_of_pos lo hpos
  have hhi0 := Int.emod_nonneg (hi + lo / 2 ^ w) hpos.ne'
  have hhi1 := Int.emod_lt_of_pos (hi + lo / 2 ^ w) hpos
  apply Int.emod_eq_of_lt
  · positivity
  · rw [pow_add]
    nlinarith

theorem join_mod (w hi lo : Nat) :
    (hi * 2 ^ w + lo) % 2 ^ (w + w) = (hi + lo / 2 ^ w) % 2 ^ w * 2 ^ w + lo % 2 ^ w := by
  have h := join_emod w hi lo
  exact_mod_cast h

/-- The carry of a word addition is seen from the wrapped sum. -/
theorem carry_eq {w a b : Nat} (ha : a < 2 ^ w) (hb : b < 2 ^ w) :
    (a + b) / 2 ^ w = if (a + b) % 2 ^ w < a then 1 else 0 := by
  by_cases hfit : a + b < 2 ^ w
  · rw [Nat.div_eq_of_lt hfit, Nat.mod_eq_of_lt hfit, if_neg (by omega)]
  · have hmod : (a + b) % 2 ^ w = a + b - 2 ^ w := by
      rw [Nat.mod_eq_sub_mod (by omega), Nat.mod_eq_of_lt (by omega)]
    rw [hmod, if_pos (by omega), Nat.div_eq_of_lt_le] <;> omega

/-- The borrow of a word subtraction is seen from the wrapped difference. -/
theorem borrow_eq {w a b : Nat} (ha : a < 2 ^ w) (hb : b < 2 ^ w) :
    ((a : Int) - b) / 2 ^ w = if (a : Int) < ((a : Int) - b) % 2 ^ w then -1 else 0 := by
  have ha' : (a : Int) < 2 ^ w := by exact_mod_cast ha
  have hb' : (b : Int) < 2 ^ w := by exact_mod_cast hb
  by_cases hle : b ≤ a
  · rw [Int.ediv_eq_zero_of_lt (by omega) (by omega), Int.emod_eq_of_lt (by omega) (by omega),
      if_neg (by omega)]
  · have hmod : ((a : Int) - b) % 2 ^ w = (a : Int) - b + 2 ^ w := by
      rw [← Int.add_emod_right, Int.emod_eq_of_lt (by omega) (by omega)]
    have hdiv : ((a : Int) - b) / 2 ^ w = -1 := by
      have hsum := Int.mul_ediv_add_emod ((a : Int) - b) (2 ^ w)
      rw [hmod] at hsum
      have hprod : (2 : Int) ^ w * (((a : Int) - b) / 2 ^ w) = 2 ^ w * (-1) := by linarith
      exact mul_left_cancel₀ (by positivity) hprod
    rw [hmod, hdiv, if_pos (by omega)]

/-- A sum of double words, up to the width, from wrapped word sums. -/
theorem join_add {w al bl : Nat} (ah bh : Nat) (hal : al < 2 ^ w) (hbl : bl < 2 ^ w) :
    (join w ah al + join w bh bl) % 2 ^ (w + w) =
      join w ((ah + bh + if (al + bl) % 2 ^ w < al then 1 else 0) % 2 ^ w)
        ((al + bl) % 2 ^ w) := by
  have hsum : join w ah al + join w bh bl = (ah + bh) * 2 ^ w + (al + bl) := by
    simp only [join]
    ring
  rw [hsum, join_mod, carry_eq hal hbl, join]

/-- A difference of double words, up to the width, from wrapped word differences. -/
theorem join_sub {w al bl : Nat} (ah bh : Nat) (hal : al < 2 ^ w) (hbl : bl < 2 ^ w) :
    ((join w ah al : Int) - join w bh bl) % 2 ^ (w + w) =
      ((ah : Int) - bh + if (al : Int) < ((al : Int) - bl) % 2 ^ w then -1 else 0) % 2 ^ w *
        2 ^ w + ((al : Int) - bl) % 2 ^ w := by
  have hdiff : (join w ah al : Int) - join w bh bl =
      ((ah : Int) - bh) * 2 ^ w + ((al : Int) - bl) := by
    rw [join_cast, join_cast]
    ring
  rw [hdiff, join_emod, borrow_eq hal hbl]

/-! ## Shifts -/

/-- A left shift by less than a word moves the top bits of the low word up. -/
theorem shiftl_lt {w k : Nat} (hi lo : Nat) (hk : k ≤ w) :
    join w hi lo * 2 ^ k % 2 ^ (w + w) =
      join w ((hi * 2 ^ k + lo / 2 ^ (w - k)) % 2 ^ w) (lo * 2 ^ k % 2 ^ w) := by
  have hcarry : lo * 2 ^ k / 2 ^ w = lo / 2 ^ (w - k) := by
    conv_lhs => rw [← Nat.sub_add_cancel hk, Nat.pow_add]
    exact Nat.mul_div_mul_right _ _ (by positivity)
  rw [join, join, ← hcarry, ← join_mod]
  ring_nf

/-- A left shift by a word or more moves the low word into the high word. -/
theorem shiftl_ge (w k hi lo : Nat) :
    join w hi lo * 2 ^ (w + k) % 2 ^ (w + w) = join w (lo * 2 ^ k % 2 ^ w) 0 := by
  have hsplit : join w hi lo * 2 ^ (w + k) =
      lo * 2 ^ k * 2 ^ w + 2 ^ (w + w) * (hi * 2 ^ k) := by
    rw [join]
    ring
  rw [hsplit, Nat.add_mul_mod_self_left, ← Nat.add_zero (lo * 2 ^ k * 2 ^ w), join_mod]
  simp [join]

/-- The bits that a left shift moves into the high word fit below its own. -/
theorem shiftl_carry_lt {w k lo : Nat} (hi : Nat) (hk : k ≤ w) (hlo : lo < 2 ^ w) :
    hi * 2 ^ k % 2 ^ w + lo / 2 ^ (w - k) < 2 ^ w := by
  have hmod : hi * 2 ^ k % 2 ^ w = hi % 2 ^ (w - k) * 2 ^ k := by
    conv_lhs => rw [← Nat.sub_add_cancel hk, Nat.pow_add]
    exact Nat.mul_mod_mul_right _ _ _
  have hlow : lo / 2 ^ (w - k) < 2 ^ k := by
    rw [Nat.div_lt_iff_lt_mul (by positivity), ← Nat.pow_add, Nat.add_sub_cancel' hk]
    exact hlo
  have hhi : hi % 2 ^ (w - k) < 2 ^ (w - k) := Nat.mod_lt _ (by positivity)
  have hpow : 2 ^ w = 2 ^ (w - k) * 2 ^ k := by rw [← Nat.pow_add, Nat.sub_add_cancel hk]
  rw [hmod, hpow]
  calc hi % 2 ^ (w - k) * 2 ^ k + lo / 2 ^ (w - k)
      < hi % 2 ^ (w - k) * 2 ^ k + 2 ^ k := by omega
    _ = (hi % 2 ^ (w - k) + 1) * 2 ^ k := by ring
    _ ≤ 2 ^ (w - k) * 2 ^ k := Nat.mul_le_mul_right _ hhi

/-- A right shift by at most a word moves the low bits of the high word down. -/
theorem shiftr_lt {w k : Nat} (hi lo : Nat) (hk : k ≤ w) :
    join w hi lo / 2 ^ k =
      join w (hi / 2 ^ k) (hi * 2 ^ (w - k) % 2 ^ w + lo / 2 ^ k) := by
  have hpow : 2 ^ w = 2 ^ k * 2 ^ (w - k) := by rw [← Nat.pow_add, Nat.add_sub_cancel' hk]
  have hmod : hi * 2 ^ (w - k) % 2 ^ w = hi % 2 ^ k * 2 ^ (w - k) := by
    rw [hpow]
    exact Nat.mul_mod_mul_right _ _ _
  have hhi := Nat.div_add_mod hi (2 ^ k)
  rw [join, join, hmod]
  have hsplit : hi * 2 ^ w + lo = lo + 2 ^ k * (hi * 2 ^ (w - k)) := by rw [hpow]; ring
  rw [hsplit, Nat.add_mul_div_left _ _ (by positivity)]
  calc lo / 2 ^ k + hi * 2 ^ (w - k)
      = lo / 2 ^ k + (2 ^ k * (hi / 2 ^ k) + hi % 2 ^ k) * 2 ^ (w - k) := by rw [hhi]
    _ = hi / 2 ^ k * 2 ^ w + (hi % 2 ^ k * 2 ^ (w - k) + lo / 2 ^ k) := by rw [hpow]; ring

/-- The bits that a right shift moves into the low word fit above its own. -/
theorem shiftr_carry_lt {w k lo : Nat} (hi : Nat) (hk : k ≤ w) (hlo : lo < 2 ^ w) :
    hi * 2 ^ (w - k) % 2 ^ w + lo / 2 ^ k < 2 ^ w := by
  have h := shiftl_carry_lt hi (Nat.sub_le w k) hlo
  rwa [Nat.sub_sub_self hk] at h

/-- A right shift by a word or more moves the high word into the low word. -/
theorem shiftr_ge {w lo : Nat} (k hi : Nat) (hlo : lo < 2 ^ w) :
    join w hi lo / 2 ^ (w + k) = join w 0 (hi / 2 ^ k) := by
  rw [Nat.pow_add, ← Nat.div_div_eq_div_mul, join, Nat.add_comm (hi * 2 ^ w),
    Nat.add_mul_div_right _ _ (by positivity), Nat.div_eq_of_lt hlo]
  simp [join]

/-! ## Bits -/

theorem join_or {w ah al bh bl : Nat} (hal : al < 2 ^ w) (hbl : bl < 2 ^ w) :
    join w (ah ||| bh) (al ||| bl) = join w ah al ||| join w bh bl := by
  apply Nat.eq_of_testBit_eq
  intro i
  unfold join
  rw [Nat.testBit_or, Nat.mul_comm, Nat.mul_comm ah, Nat.mul_comm bh,
    Nat.testBit_two_pow_mul_add _ (Nat.or_lt_two_pow hal hbl),
    Nat.testBit_two_pow_mul_add _ hal, Nat.testBit_two_pow_mul_add _ hbl]
  split <;> rw [Nat.testBit_or]

/-- The length of a double word is that of its high word, or of its low word
when the high word is zero. -/
theorem size_join {w hi lo : Nat} (hlo : lo < 2 ^ w) :
    (join w hi lo).size = if hi = 0 then lo.size else w + hi.size := by
  split
  next hzero => simp [join, hzero]
  next hne =>
    apply le_antisymm
    · rw [Nat.size_le, join, Nat.add_comm w, Nat.pow_add]
      calc hi * 2 ^ w + lo < hi * 2 ^ w + 2 ^ w := by omega
        _ = (hi + 1) * 2 ^ w := by ring
        _ ≤ 2 ^ hi.size * 2 ^ w := Nat.mul_le_mul_right _ (Nat.lt_size_self hi)
    · have hpos : 0 < hi.size := Nat.size_pos.mpr (Nat.pos_of_ne_zero hne)
      obtain ⟨bits, hbits⟩ : ∃ bits, hi.size = bits + 1 := ⟨hi.size - 1, by omega⟩
      have hhi : 2 ^ bits ≤ hi := Nat.lt_size.mp (by omega)
      rw [hbits, ← Nat.add_assoc, Nat.succ_le_iff, Nat.lt_size, join, Nat.pow_add]
      calc 2 ^ w * 2 ^ bits = 2 ^ bits * 2 ^ w := Nat.mul_comm _ _
        _ ≤ hi * 2 ^ w := Nat.mul_le_mul_right _ hhi
        _ ≤ hi * 2 ^ w + lo := Nat.le_add_right _ _

end DoubleWord
