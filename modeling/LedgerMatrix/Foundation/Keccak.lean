import LedgerMatrix.Foundation.Crc
import Mathlib.Data.Fintype.Pi
import Mathlib.Data.Fintype.EquivFin

/-! # The Keccak permutations

Twenty-five lanes of `w` bits, at two coordinates modulo five, and the five steps
of a round on them. Every step can be undone, so the rounds permute the lanes.
Only for the step that mixes the columns this takes an argument: it adds to a
column a sum of two neighbours. Applied twice, that is the sum of the neighbours
at the double distance, so columns that are the sums of their neighbours are so
at any power of four, where nothing is rotated any more, and then they are zero.
-/

namespace Keccak

variable {w : Nat}

theorem xor_xor_cancel (x y : BitVec w) : x ^^^ (x ^^^ y) = y := by
  rw [← BitVec.xor_assoc, BitVec.xor_self, BitVec.zero_xor]

/-! ## Rotations -/

/-- Bit `i` goes `r` places up, around the end of the lane. -/
theorem getLsbD_rotateLeft_add (x : BitVec w) (r : Nat) {i : Nat} (hi : i < w) :
    (x.rotateLeft r).getLsbD ((i + r) % w) = x.getLsbD i := by
  have hr : r % w < w := Nat.mod_lt _ (by omega)
  rw [BitVec.getLsbD_rotateLeft, Nat.add_mod, Nat.mod_eq_of_lt hi]
  by_cases hwrap : i + r % w < w
  · have hnot : ¬ i + r % w < r % w := by omega
    rw [Nat.mod_eq_of_lt hwrap]
    simp [hwrap, hnot]
  · have hmod : (i + r % w) % w = i + r % w - w := by
      rw [Nat.mod_eq_sub_mod (by omega), Nat.mod_eq_of_lt (by omega)]
    have hlt : i + r % w - w < r % w := by omega
    have hplace : w - r % w + (i + r % w - w) = i := by omega
    rw [hmod]
    simp only [hlt, decide_true, cond_true, hplace]

/-- Every place is one that a bit goes to. -/
theorem exists_place (r : Nat) {j : Nat} (hj : j < w) : ∃ i < w, (i + r) % w = j := by
  have hpos : 0 < w := by omega
  have hr : r % w < w := Nat.mod_lt _ hpos
  refine ⟨(j + (w - r % w)) % w, Nat.mod_lt _ hpos, ?_⟩
  have hround : j + (w - r % w) + r = j + w * (1 + r / w) := by
    have hdiv := Nat.mod_add_div r w
    rw [Nat.mul_add]
    omega
  rw [Nat.mod_add_mod, hround, Nat.add_mul_mod_self_left, Nat.mod_eq_of_lt hj]

/-- A rotation is known by where it takes each bit. -/
theorem rotateLeft_eq_iff {x y : BitVec w} {r : Nat} :
    x.rotateLeft r = y ↔ ∀ i < w, y.getLsbD ((i + r) % w) = x.getLsbD i := by
  constructor
  · rintro rfl i hi
    exact getLsbD_rotateLeft_add x r hi
  · intro h
    apply BitVec.eq_of_getLsbD_eq
    intro j hj
    obtain ⟨i, hi, rfl⟩ := exists_place r hj
    rw [getLsbD_rotateLeft_add x r hi, h i hi]

theorem rotateLeft_rotateLeft (x : BitVec w) (r s : Nat) :
    (x.rotateLeft r).rotateLeft s = x.rotateLeft (r + s) := by
  symm
  rw [rotateLeft_eq_iff]
  intro i hi
  have hpos : 0 < w := by omega
  have hplace : (i + (r + s)) % w = ((i + r) % w + s) % w := by
    rw [Nat.mod_add_mod, Nat.add_assoc]
  rw [hplace, getLsbD_rotateLeft_add _ _ (Nat.mod_lt _ hpos), getLsbD_rotateLeft_add _ _ hi]

theorem rotateLeft_xor (x y : BitVec w) (r : Nat) :
    (x ^^^ y).rotateLeft r = x.rotateLeft r ^^^ y.rotateLeft r := by
  rw [rotateLeft_eq_iff]
  intro i hi
  rw [BitVec.getLsbD_xor, getLsbD_rotateLeft_add x r hi, getLsbD_rotateLeft_add y r hi,
    BitVec.getLsbD_xor]

/-- A rotation all the way around. -/
theorem rotateLeft_of_dvd (x : BitVec w) {r : Nat} (h : w ∣ r) : x.rotateLeft r = x := by
  rw [rotateLeft_eq_iff]
  intro i hi
  rw [Nat.add_mod, Nat.mod_eq_zero_of_dvd h, Nat.add_zero, Nat.mod_mod, Nat.mod_eq_of_lt hi]

theorem rotateLeft_injective (r : Nat) : Function.Injective fun x : BitVec w => x.rotateLeft r := by
  intro x y h
  apply BitVec.eq_of_getLsbD_eq
  intro i hi
  have hrotated : x.rotateLeft r = y.rotateLeft r := h
  rw [← getLsbD_rotateLeft_add x r hi, hrotated, getLsbD_rotateLeft_add y r hi]

/-! ## The steps of a round -/

/-- The coordinates of a lane are residues. -/
scoped instance five_neZero : NeZero 5 := ⟨by decide⟩

/-- Twenty-five lanes, at two coordinates modulo five. -/
abbrev Lanes (w : Nat) : Type := Fin 5 → Fin 5 → BitVec w

/-- The sum of a column. -/
def parity (a : Lanes w) (x : Fin 5) : BitVec w := a x 0 ^^^ a x 1 ^^^ a x 2 ^^^ a x 3 ^^^ a x 4

/-- The sum of the columns `step` before and behind each, the latter rotated. -/
def neighbours (step : Fin 5) (turn : Nat) (c : Fin 5 → BitVec w) (x : Fin 5) : BitVec w :=
  c (x - step) ^^^ (c (x + step)).rotateLeft turn

/-- Mix the columns. -/
def theta (a : Lanes w) : Lanes w := fun x y => a x y ^^^ neighbours 1 1 (parity a) x

/-- The coordinates that the offsets are given to, one after the other. -/
def walk : Nat → Fin 5 × Fin 5
  | 0 => (1, 0)
  | t + 1 => ((walk t).2, 2 * (walk t).1 + 3 * (walk t).2)

/-- The offset of a lane: the triangular number of its place on the walk. The lane
at the origin is not on it and stays. -/
def offset (x y : Fin 5) : Nat :=
  (((List.range 24).find? fun t => walk t = (x, y)).map fun t => (t + 1) * (t + 2) / 2).getD 0

/-- Rotate each lane by its offset. -/
def rho (a : Lanes w) : Lanes w := fun x y => (a x y).rotateLeft (offset x y)

/-- Move the lanes. -/
def pi (a : Lanes w) : Lanes w := fun x y => a (x + 3 * y) x

/-- Combine each lane with the next two of its row. -/
def chi (a : Lanes w) : Lanes w := fun x y => a x y ^^^ (~~~a (x + 1) y &&& a (x + 2) y)

/-- Add a constant at the origin. -/
def iota (constant : BitVec w) (a : Lanes w) : Lanes w :=
  fun x y => if (x, y) = (0, 0) then a x y ^^^ constant else a x y

/-- The output of the shift register of `x ^ 8 + x ^ 6 + x ^ 5 + x ^ 4 + 1` at a
time. -/
def registerBit (time : Nat) : Bool :=
  ((fun register => Crc.shiftIn 0x71#8 register false)^[time] 1#8).getLsbD 0

/-- The constant of a round has seven bits of the register, at the places below
the powers of two. -/
def roundConstant (w : Nat) (index : Nat) : BitVec w :=
  (List.range 7).foldl (fun constant j =>
    if registerBit (j + 7 * index) then constant ||| 1#w <<< (2 ^ j - 1) else constant) 0#w

def round (index : Nat) (a : Lanes w) : Lanes w :=
  iota (roundConstant w index) (chi (pi (rho (theta a))))

/-- The permutation, which takes a number of rounds. -/
def permutation (rounds : Nat) (a : Lanes w) : Lanes w :=
  (List.range rounds).foldl (fun a index => round index a) a

/-! ## The steps can be undone -/

section Inverse

variable {c : Fin 5 → BitVec w} {a b : Lanes w}

theorem parity_theta (a : Lanes w) (x : Fin 5) :
    parity (theta a) x = parity a x ^^^ neighbours 1 1 (parity a) x := by
  simp only [parity, theta]
  generalize neighbours 1 1 (parity a) x = d
  -- the summand comes five times, and twice is nothing
  apply BitVec.eq_of_getLsbD_eq
  intro i _
  simp only [BitVec.getLsbD_xor]
  cases d.getLsbD i <;> simp

theorem neighbours_xor (step : Fin 5) (turn : Nat) (c d : Fin 5 → BitVec w) (x : Fin 5) :
    neighbours step turn (fun x => c x ^^^ d x) x =
      neighbours step turn c x ^^^ neighbours step turn d x := by
  simp only [neighbours, rotateLeft_xor]
  ac_rfl

/-- Applied twice, the sum of the neighbours is one with the double distance. -/
theorem neighbours_neighbours (step : Fin 5) (turn : Nat) (c : Fin 5 → BitVec w) :
    neighbours step turn (neighbours step turn c) = neighbours (step + step) (turn + turn) c := by
  funext x
  simp only [neighbours, rotateLeft_xor, rotateLeft_rotateLeft, sub_add_cancel,
    add_sub_cancel_right, sub_sub, add_assoc]
  rw [BitVec.xor_assoc, xor_xor_cancel]

/-- What is the sum of its neighbours stays so at any power of four. -/
theorem eq_neighbours_pow (h : c = neighbours 1 1 c) (k : Nat) :
    ∃ step, (step = 1 ∨ step = 4) ∧ c = neighbours step (4 ^ k) c := by
  induction k with
  | zero => exact ⟨1, .inl rfl, h⟩
  | succ k ih =>
      obtain ⟨step, hstep, hfixed⟩ := ih
      have hdouble : c = neighbours (step + step) (4 ^ k + 4 ^ k) c := by
        rw [← neighbours_neighbours, ← hfixed, ← hfixed]
      have hpow : 4 ^ k + 4 ^ k + (4 ^ k + 4 ^ k) = 4 ^ (k + 1) := by
        rw [Nat.pow_succ]
        omega
      refine ⟨step + step + (step + step), ?_, ?_⟩
      · rcases hstep with rfl | rfl <;> decide
      · rw [← hpow, ← neighbours_neighbours, ← hdouble, ← hdouble]

/-- Five bits each of which is the sum of the two beside it are all zero. -/
theorem eq_false_of_neighbours : ∀ step : Fin 5, step = 1 ∨ step = 4 → ∀ bits : Fin 5 → Bool,
    (∀ x, bits x = (bits (x - step) ^^ bits (x + step))) → ∀ x, bits x = false := by
  decide

/-- Columns each of which is the sum of its neighbours are all zero. -/
theorem eq_zero_of_neighbours {k : Nat} (hw : w ∣ 4 ^ k) (h : c = neighbours 1 1 c) (x : Fin 5) :
    c x = 0#w := by
  obtain ⟨step, hstep, hfixed⟩ := eq_neighbours_pow h k
  apply BitVec.eq_of_getLsbD_eq
  intro i _
  rw [BitVec.getLsbD_zero]
  refine eq_false_of_neighbours step hstep (fun x => (c x).getLsbD i) (fun x => ?_) x
  have hsum := congrFun hfixed x
  rw [neighbours, rotateLeft_of_dvd _ hw] at hsum
  rw [hsum, BitVec.getLsbD_xor]

theorem theta_injective {k : Nat} (hw : w ∣ 4 ^ k) : Function.Injective (theta (w := w)) := by
  intro a b h
  have hfixed : (fun x => parity a x ^^^ parity b x) =
      neighbours 1 1 fun x => parity a x ^^^ parity b x := by
    funext x
    have hparity := congrArg (fun lanes => parity lanes x) h
    simp only [parity_theta] at hparity
    rw [neighbours_xor]
    generalize neighbours 1 1 (parity a) x = n at hparity ⊢
    generalize neighbours 1 1 (parity b) x = m at hparity ⊢
    calc parity a x ^^^ parity b x
        = n ^^^ (n ^^^ (parity a x ^^^ parity b x)) := (xor_xor_cancel _ _).symm
      _ = (parity a x ^^^ n) ^^^ (parity b x ^^^ n) := by ac_rfl
      _ = parity b x ^^^ (parity b x ^^^ (n ^^^ m)) := by rw [hparity]; ac_rfl
      _ = n ^^^ m := xor_xor_cancel _ _
  have hsame : parity a = parity b := by
    funext x
    exact BitVec.xor_eq_zero_iff.mp (eq_zero_of_neighbours hw hfixed x)
  funext x y
  have hlane := congrFun (congrFun h x) y
  rw [theta, theta, hsame] at hlane
  exact (BitVec.xor_left_inj _).mp hlane

theorem rho_injective : Function.Injective (rho (w := w)) := by
  intro a b h
  funext x y
  exact rotateLeft_injective (offset x y) (congrFun (congrFun h x) y)

theorem pi_injective : Function.Injective (pi (w := w)) := by
  intro a b h
  -- the lane at `x` and `y` goes to the coordinates `y` and `2 * x + 3 * y`
  have hplace : ∀ x y : Fin 5, (y + 3 * (2 * x + 3 * y), y) = (x, y) := by decide
  funext x y
  have hlane := congrFun (congrFun h y) (2 * x + 3 * y)
  have hx : y + 3 * (2 * x + 3 * y) = x := congrArg Prod.fst (hplace x y)
  rw [pi, pi, hx] at hlane
  exact hlane

/-- Five bits are known by what the combination makes of them. -/
theorem chi_bits : ∀ bits bits' : Fin 5 → Bool,
    (∀ x, (bits x ^^ (!bits (x + 1) && bits (x + 2))) =
      (bits' x ^^ (!bits' (x + 1) && bits' (x + 2)))) → ∀ x, bits x = bits' x := by
  decide +kernel

theorem chi_injective : Function.Injective (chi (w := w)) := by
  intro a b h
  funext x y
  apply BitVec.eq_of_getLsbD_eq
  intro i hi
  refine chi_bits (fun x => (a x y).getLsbD i) (fun x => (b x y).getLsbD i) (fun x => ?_) x
  have hbit := congrArg (fun lanes : Lanes w => (lanes x y).getLsbD i) h
  simpa only [chi, BitVec.getLsbD_xor, BitVec.getLsbD_and, BitVec.getLsbD_not, hi, decide_true,
    Bool.true_and] using hbit

theorem iota_injective (constant : BitVec w) : Function.Injective (iota constant) := by
  intro a b h
  funext x y
  have hlane := congrFun (congrFun h x) y
  unfold iota at hlane
  split at hlane
  · exact (BitVec.xor_left_inj _).mp hlane
  · exact hlane

theorem round_injective {k : Nat} (hw : w ∣ 4 ^ k) (index : Nat) :
    Function.Injective (round (w := w) index) :=
  (iota_injective _).comp (chi_injective.comp (pi_injective.comp (rho_injective.comp
    (theta_injective hw))))

theorem permutation_injective {k : Nat} (hw : w ∣ 4 ^ k) (rounds : Nat) :
    Function.Injective (permutation (w := w) rounds) := by
  induction rounds with
  | zero => exact Function.injective_id
  | succ rounds ih =>
      intro a b h
      simp only [permutation, List.range_succ, List.foldl_append, List.foldl_cons,
        List.foldl_nil] at h
      exact ih (round_injective hw rounds h)

instance finite_bitVec : Finite (BitVec w) :=
  Finite.of_injective BitVec.toFin fun _ _ h => BitVec.toFin_inj.mp h

end Inverse

end Keccak
