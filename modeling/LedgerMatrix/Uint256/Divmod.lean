import LedgerMatrix.Uint256.Value

/-! # Division

The loop of `divmod256` is guarded by the remainder, not by a bit counter. What
carries it is that the shifted divisor and the quotient bit stay aligned: they
are the divisor and one, both times the same power of two, and the remainder is
below twice the shifted divisor.
-/

namespace LedgerMatrix

open Imperative

/-- The shifted divisor and the quotient bit stand at position `j`, the
remainder needs no quotient bit above `j`, and none below `j + 1` is set. -/
structure DivmodAligned (r : Nat) (s : DivmodState) (j : Nat) : Prop where
  copyd : s.copyd.val = r * 2 ^ j
  adder : s.adder.val = 2 ^ j
  resMod : s.resMod.val < r * 2 ^ (j + 1)
  resDiv : 2 ^ (j + 1) ∣ s.resDiv.val

/-- The quotient so far and the remainder account for the dividend; when there
is still something to divide, the loop is aligned at some position. -/
structure DivmodInvariant (l r : Nat) (s : DivmodState) : Prop where
  total : l = s.resDiv.val * r + s.resMod.val
  aligned : s.resMod.val < r ∨ ∃ j, DivmodAligned r s j

/-- Setting a quotient bit below all those that are set adds it. -/
theorem val_or256_of_dvd {q b : Uint256} {j : Nat} (hb : b.val = 2 ^ j)
    (hq : 2 ^ (j + 1) ∣ q.val) : (or256 q b).val = q.val + 2 ^ j := by
  obtain ⟨top, htop⟩ := hq
  have hlt : 2 ^ j < 2 ^ (j + 1) := Nat.pow_lt_pow_right (by decide) (Nat.lt_succ_self j)
  rw [val_or256, hb, htop, Nat.two_pow_add_eq_or_of_lt hlt]

/-- Moving the shifted divisor and the quotient bit down one position. -/
theorem DivmodAligned.shift {r j : Nat} {s t : DivmodState}
    (hcopyd : s.copyd.val = r * 2 ^ j) (hadder : s.adder.val = 2 ^ j)
    (htcopyd : t.copyd = shiftr256 s.copyd 1) (htadder : t.adder = shiftr256 s.adder 1)
    (hresMod : t.resMod.val < r * 2 ^ j) (hresDiv : 2 ^ j ∣ t.resDiv.val) :
    t.resMod.val < r ∨ ∃ i, DivmodAligned r t i := by
  cases j with
  | zero => exact Or.inl (by simpa using hresMod)
  | succ i =>
      refine Or.inr ⟨i, ?_, ?_, hresMod, hresDiv⟩
      · rw [htcopyd, val_shiftr256, hcopyd, Nat.pow_one, Nat.pow_succ, ← Nat.mul_assoc,
          Nat.mul_div_cancel _ (by decide)]
      · rw [htadder, val_shiftr256, hadder, Nat.pow_one, Nat.pow_succ,
          Nat.mul_div_cancel _ (by decide)]

/-- One pass keeps the invariant, from any position. -/
theorem divmodPass_invariant {l r : Nat} {s : DivmodState} {j : Nat}
    (htotal : l = s.resDiv.val * r + s.resMod.val) (h : DivmodAligned r s j) :
    DivmodInvariant l r (divmodPass s) := by
  have hdouble : r * 2 ^ (j + 1) = r * 2 ^ j + r * 2 ^ j := by ring
  have hbit : 2 ^ j ∣ s.resDiv.val :=
    (Nat.pow_dvd_pow 2 (Nat.le_succ j)).trans h.resDiv
  have hresMod := h.resMod
  by_cases hge : gte256 s.resMod s.copyd = true
  · -- the bit at `j` is set: what is taken off the remainder is that bit times `r`
    have hle := gte256_iff.mp hge
    have hmod := val_minus256_of_le hle
    have hdiv := val_or256_of_dvd h.adder h.resDiv
    have hpass : divmodPass s = ⟨shiftr256 s.copyd 1, shiftr256 s.adder 1,
        or256 s.resDiv s.adder, minus256 s.resMod s.copyd⟩ := by
      simp [divmodPass, hge]
    rw [hpass]
    constructor
    · simp only
      rw [hmod, hdiv, h.copyd, Nat.add_mul, Nat.mul_comm (2 ^ j), htotal]
      have := h.copyd
      omega
    · refine DivmodAligned.shift h.copyd h.adder rfl rfl ?_ ?_
      · simp only
        rw [hmod, h.copyd]
        omega
      · simp only
        rw [hdiv]
        exact Nat.dvd_add hbit (Nat.dvd_refl _)
  · have hlt : s.resMod.val < s.copyd.val := Nat.lt_of_not_le (gte256_iff.not.mp hge)
    have hpass : divmodPass s = ⟨shiftr256 s.copyd 1, shiftr256 s.adder 1,
        s.resDiv, s.resMod⟩ := by
      simp [divmodPass, hge]
    rw [hpass]
    refine ⟨htotal, DivmodAligned.shift h.copyd h.adder rfl rfl ?_ hbit⟩
    simp only
    rw [← h.copyd]
    exact hlt

/-- One pass moves the quotient bit down, so its length decreases. -/
theorem divmodPass_variant {r : Nat} {s : DivmodState} {j : Nat} (h : DivmodAligned r s j) :
    (divmodPass s).adder.val.size < s.adder.val.size := by
  have hadder : (divmodPass s).adder = shiftr256 s.adder 1 := by
    unfold divmodPass
    split <;> rfl
  rw [hadder, val_shiftr256, h.adder, Nat.lt_size, Nat.pow_one]
  apply Nat.pow_le_pow_right (by decide)
  rw [Nat.size_le, Nat.div_lt_iff_lt_mul (by decide), ← Nat.pow_succ]
  exact Nat.pow_lt_pow_right (by decide) (Nat.lt_succ_self j)

/-- Aligning the top bits of divisor and dividend leaves the dividend below
twice the shifted divisor, and the divisor is not shifted out of range. -/
theorem shift_bounds {l r : Nat} (hr : 0 < r) (hle : r ≤ l) :
    r * 2 ^ (l.size - r.size) < 2 ^ l.size ∧ l < r * 2 ^ (l.size - r.size + 1) := by
  have hsize : r.size ≤ l.size := Nat.size_le_size hle
  have hrpos : 0 < r.size := Nat.size_pos.mpr hr
  have htop : 2 ^ (r.size - 1) ≤ r := Nat.lt_size.mp (by omega)
  constructor
  · calc r * 2 ^ (l.size - r.size)
        < 2 ^ r.size * 2 ^ (l.size - r.size) :=
          Nat.mul_lt_mul_of_pos_right (Nat.lt_size_self r) (by positivity)
      _ = 2 ^ l.size := by rw [← Nat.pow_add, Nat.add_sub_cancel' hsize]
  · calc l < 2 ^ l.size := Nat.lt_size_self l
      _ = 2 ^ (r.size - 1) * 2 ^ (l.size - r.size + 1) := by
          rw [← Nat.pow_add]
          congr 1
          omega
      _ ≤ r * 2 ^ (l.size - r.size + 1) := Nat.mul_le_mul_right _ htop

theorem divmodStart_invariant {l r : Uint256} (hr : 0 < r.val) (hle : r.val ≤ l.val) :
    DivmodInvariant l.val r.val (divmodStart l r (l.val.size - r.val.size)) ∧
      (divmodStart l r (l.val.size - r.val.size)).adder.val.size ≤ 256 := by
  obtain ⟨hfit, hbelow⟩ := shift_bounds hr hle
  have hlsize : l.val.size ≤ 256 := Nat.size_le.mpr l.val_lt
  have hrsize : 0 < r.val.size := Nat.size_pos.mpr hr
  have hwidth : 2 ^ l.val.size ≤ 2 ^ 256 := Nat.pow_le_pow_right (by decide) hlsize
  obtain ⟨d, hd⟩ : ∃ d, l.val.size - r.val.size = d := ⟨_, rfl⟩
  rw [hd] at hfit hbelow ⊢
  have hcopyd : (shiftl256 r d).val = r.val * 2 ^ d := by
    rw [val_shiftl256, Nat.mod_eq_of_lt (hfit.trans_le hwidth)]
  have hadder : (shiftl256 ⟨clear128, ⟨0, 1⟩⟩ d).val = 2 ^ d := by
    rw [val_shiftl256, val_one256, Nat.one_mul,
      Nat.mod_eq_of_lt (Nat.pow_lt_pow_right (by decide) (by omega))]
  have hsize (s : DivmodState) (j : Nat) (hs : s.adder.val = 2 ^ j) (hj : j < 256) :
      s.adder.val.size ≤ 256 := by
    rw [hs, Nat.size_le]
    exact Nat.pow_lt_pow_right (by decide) (by omega)
  have htotal : l.val = clear256.val * r.val + l.val := by rw [val_clear256]; omega
  have hzero : 2 ^ (d + 1) ∣ clear256.val := by rw [val_clear256]; exact Nat.dvd_zero _
  by_cases hgt : gt256 (shiftl256 r d) l = true
  · -- one bit too far: the divisor is moved back, which needs `d` to be positive
    have hlt : l.val < r.val * 2 ^ d := by rw [← hcopyd]; exact gt256_iff.mp hgt
    have hstart : divmodStart l r d = ⟨shiftr256 (shiftl256 r d) 1,
        shiftr256 (shiftl256 ⟨clear128, ⟨0, 1⟩⟩ d) 1, clear256, l⟩ := by
      simp [divmodStart, hgt]
    rw [hstart]
    refine ⟨⟨htotal, ?_⟩, ?_⟩
    · refine DivmodAligned.shift (s := ⟨shiftl256 r d, shiftl256 ⟨clear128, ⟨0, 1⟩⟩ d,
        clear256, l⟩) hcopyd hadder rfl rfl hlt ?_
      exact (Nat.pow_dvd_pow 2 (Nat.le_succ d)).trans hzero
    · simp only
      rw [val_shiftr256, hadder, Nat.size_le]
      exact (Nat.div_le_self _ _).trans_lt (Nat.pow_lt_pow_right (by decide) (by omega))
  · have hstart : divmodStart l r d =
        ⟨shiftl256 r d, shiftl256 ⟨clear128, ⟨0, 1⟩⟩ d, clear256, l⟩ := by
      simp [divmodStart, hgt]
    rw [hstart]
    exact ⟨⟨htotal, Or.inr ⟨d, hcopyd, hadder, hbelow, hzero⟩⟩,
      hsize _ d hadder (by omega)⟩

/-- Division by a nonzero number ends and is Euclidean. -/
theorem divmod256_spec {l r : Uint256} (hr : 0 < r.val) :
    ∃ q m, divmod256 l r = some (q, m) ∧ q.val = l.val / r.val ∧ m.val = l.val % r.val := by
  unfold divmod256
  rw [bits256_eq, bits256_eq]
  simp only
  by_cases hgt : gt256 r l = true
  · have hlt := gt256_iff.mp hgt
    refine ⟨clear256, l, by rw [if_pos hgt], ?_, ?_⟩
    · rw [val_clear256, Nat.div_eq_of_lt hlt]
    · rw [Nat.mod_eq_of_lt hlt]
  · have hle : r.val ≤ l.val := Nat.le_of_not_lt (gt256_iff.not.mp hgt)
    have hlsize : l.val.size ≤ 256 := Nat.size_le.mpr l.val_lt
    have hsizes : r.val.size ≤ l.val.size := Nat.size_le_size hle
    have hdiff : u32 (2 ^ 32 - r.val.size + l.val.size) = l.val.size - r.val.size := by
      unfold u32
      omega
    obtain ⟨hinit, hbound⟩ := divmodStart_invariant hr hle
    have hpass : ∀ s, DivmodInvariant l.val r.val s → gte256 s.resMod r = true →
        DivmodInvariant l.val r.val (divmodPass s) ∧
          (divmodPass s).adder.val.size < s.adder.val.size := by
      intro s hs hgo
      have hge := gte256_iff.mp hgo
      obtain ⟨j, hj⟩ := hs.aligned.resolve_left (Nat.not_lt.mpr hge)
      exact ⟨divmodPass_invariant hs.total hj, divmodPass_variant hj⟩
    obtain ⟨t, hrun, hinvariant, hstop⟩ :=
      whileLoop_spec (DivmodInvariant l.val r.val) (fun s => s.adder.val.size) hpass hinit hbound
    have hlt : t.resMod.val < r.val := by
      rw [← Nat.not_le, ← gte256_iff, hstop]
      decide
    have htotal := hinvariant.total
    have hunique : l.val / r.val = t.resDiv.val ∧ l.val % r.val = t.resMod.val :=
      (Nat.div_mod_unique hr).mpr ⟨by rw [Nat.mul_comm]; omega, hlt⟩
    rw [if_neg hgt, hdiff, hrun]
    exact ⟨t.resDiv, t.resMod, rfl, hunique.1.symm, hunique.2.symm⟩

end LedgerMatrix
