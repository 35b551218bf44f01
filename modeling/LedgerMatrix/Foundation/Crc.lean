import Mathlib.Algebra.Field.ZMod
import Mathlib.Algebra.Polynomial.Div
import Mathlib.Tactic.LinearCombination

/-! # Cyclic redundancy checks

A word of `w` bits stands for a polynomial over GF(2) of degree below `w`, and a
message for the polynomial whose coefficients are its bits, the first one
highest. A shift register that takes the message bit by bit holds the remainder
of the message, shifted by its own width, by the generator `x ^ w + low`. The
register takes a word of its width as if the word had been added to it first,
which is what a table of words makes use of.
-/

namespace Crc

open Polynomial

variable {w : Nat}

/-! ## Polynomials of words and messages -/

/-- The coefficient that a bit stands for. -/
def coefficient (bit : Bool) : ZMod 2 := if bit then 1 else 0

theorem coefficient_xor (a b : Bool) :
    coefficient (a ^^ b) = coefficient a + coefficient b := by
  cases a <;> cases b <;> decide

theorem coefficient_injective : Function.Injective coefficient := by
  intro a b h
  cases a <;> cases b <;> first | rfl | exact absurd h (by decide)

/-- The polynomial of a word: bit `i` is the coefficient of `x ^ i`. -/
noncomputable def poly (word : BitVec w) : Polynomial (ZMod 2) :=
  ∑ i ∈ Finset.range w, C (coefficient (word.getLsbD i)) * X ^ i

/-- The polynomial of a message, its first bit being the highest coefficient. -/
noncomputable def message (bits : List Bool) : Polynomial (ZMod 2) :=
  bits.foldl (fun p bit => p * X + C (coefficient bit)) 0

/-- The bits of a word, the highest first. -/
def bitsOf (word : BitVec w) : List Bool := ((List.range w).map word.getLsbD).reverse

/-- The generator of a check of width `w`, from its coefficients below `x ^ w`. -/
noncomputable def generator (low : BitVec w) : Polynomial (ZMod 2) := X ^ w + poly low

@[simp] theorem coeff_poly (word : BitVec w) (i : Nat) :
    (poly word).coeff i = coefficient (word.getLsbD i) := by
  simp only [poly, finsetSum_coeff, coeff_C_mul, coeff_X_pow, mul_ite, mul_one, mul_zero,
    Finset.sum_ite_eq, Finset.mem_range]
  split
  · rfl
  next hbeyond =>
    rw [BitVec.getLsbD_of_ge word i (Nat.le_of_not_lt hbeyond)]
    rfl

theorem poly_injective : Function.Injective (poly (w := w)) := by
  intro a b h
  apply BitVec.eq_of_getLsbD_eq
  intro i _
  apply coefficient_injective
  rw [← coeff_poly, ← coeff_poly, h]

@[simp] theorem poly_zero : poly (0#w) = 0 := by
  ext i
  simp [coefficient]

theorem poly_xor (a b : BitVec w) : poly (a ^^^ b) = poly a + poly b := by
  ext i
  rw [coeff_add, coeff_poly, coeff_poly, coeff_poly, BitVec.getLsbD_xor, coefficient_xor]

theorem degree_poly_lt (word : BitVec w) : (poly word).degree < w := by
  rw [degree_lt_iff_coeff_zero]
  intro i hi
  rw [coeff_poly, BitVec.getLsbD_of_ge word i hi]
  rfl

/-- Moving a word up by one place loses its highest bit. -/
theorem poly_shift (word : BitVec w) :
    poly word * X = poly (word <<< 1) + C (coefficient word.msb) * X ^ w := by
  ext i
  simp only [coeff_add, coeff_poly, coeff_C_mul, coeff_X_pow, BitVec.getLsbD_shiftLeft]
  cases i with
  | zero =>
      -- the lowest coefficient is zero, and a word of no bits has no highest one
      cases w with
      | zero => simp [coefficient, BitVec.msb_eq_getLsbD_last]
      | succ w => simp [coefficient]
  | succ i =>
      rw [coeff_mul_X, coeff_poly]
      by_cases hlast : i + 1 = w
      · subst hlast
        simp [coefficient, BitVec.msb_eq_getLsbD_last]
      · by_cases hi : i + 1 < w
        · simp [hi, hlast]
        · simp [hi, hlast, coefficient, BitVec.getLsbD_of_ge word i (by omega)]

theorem message_concat (bits : List Bool) (bit : Bool) :
    message (bits ++ [bit]) = message bits * X + C (coefficient bit) := by
  simp only [message, List.foldl_append, List.foldl_cons, List.foldl_nil]

theorem coeff_message (bits : List Bool) (i : Nat) :
    (message bits).coeff i = coefficient (bits.reverse.getD i false) := by
  induction bits using List.reverseRecOn generalizing i with
  | nil => simp [message, coefficient]
  | append_singleton bits bit ih =>
      rw [message_concat, List.reverse_append]
      cases i with
      | zero => simp
      | succ i => simp [ih]

/-- A word as a message is the polynomial of the word. -/
theorem message_bitsOf (word : BitVec w) : message (bitsOf word) = poly word := by
  ext i
  rw [coeff_message, coeff_poly, bitsOf, List.reverse_reverse]
  congr 1
  by_cases hi : i < w
  · simp [hi]
  · simp [hi, BitVec.getLsbD_of_ge word i (Nat.le_of_not_lt hi)]

@[simp] theorem bitsOf_length (word : BitVec w) : (bitsOf word).length = w := by simp [bitsOf]

theorem generator_monic (low : BitVec w) : (generator low).Monic :=
  monic_X_pow_add (degree_poly_lt low)

theorem degree_generator (low : BitVec w) : (generator low).degree = w := by
  rw [generator, degree_add_eq_left_of_degree_lt] <;> simp [degree_poly_lt]

/-- The polynomial of a word is what it leaves by the generator. -/
theorem poly_mod (low word : BitVec w) : poly word %ₘ generator low = poly word :=
  (modByMonic_eq_self_iff (generator_monic low)).mpr
    (by rw [degree_generator]; exact degree_poly_lt word)

/-! ## The shift register -/

/-- One step of the register: the bit that leaves it and the bit that comes in
decide whether the generator is taken off. -/
def shiftIn (low register : BitVec w) (bit : Bool) : BitVec w :=
  if register.msb ^^ bit then register <<< 1 ^^^ low else register <<< 1

/-- The register after the bits of a message. -/
def run (low register : BitVec w) (bits : List Bool) : BitVec w := bits.foldl (shiftIn low) register

/-- The register after one word. -/
def feed (low register word : BitVec w) : BitVec w := run low register (bitsOf word)

/-- The register after the words of a message. -/
def words (low register : BitVec w) (message : List (BitVec w)) : BitVec w :=
  message.foldl (feed low) register

theorem run_append (low register : BitVec w) (first second : List Bool) :
    run low register (first ++ second) = run low (run low register first) second :=
  List.foldl_append

/-- One step multiplies by `x`, adds the bit above the register, and takes the
remainder. -/
theorem poly_shiftIn (low register : BitVec w) (bit : Bool) :
    poly (shiftIn low register bit) =
      (poly register * X + C (coefficient bit) * X ^ w) %ₘ generator low := by
  have hsum : poly register * X + C (coefficient bit) * X ^ w =
      poly (register <<< 1) + C (coefficient (register.msb ^^ bit)) * X ^ w := by
    rw [poly_shift, coefficient_xor, C_add]
    ring
  rw [hsum, shiftIn]
  cases register.msb ^^ bit with
  | false => simp [coefficient, poly_mod]
  | true =>
      -- twice the low part of the generator is zero
      have htwice : poly low + poly low = 0 := by rw [← poly_xor, BitVec.xor_self, poly_zero]
      have hone : C (coefficient true) = 1 := C_1
      have hquotient : poly (register <<< 1 ^^^ low) + generator low * (1 : Polynomial (ZMod 2)) =
          poly (register <<< 1) + C (coefficient true) * X ^ w := by
        rw [poly_xor, generator, hone]
        linear_combination htwice
      exact ((div_modByMonic_unique 1 _ (generator_monic low) ⟨hquotient,
        by rw [degree_generator]; exact degree_poly_lt _⟩).2).symm

/-- The register holds the remainder of all that went into it. -/
theorem poly_run (low register : BitVec w) (bits : List Bool) :
    poly (run low register bits) =
      (poly register * X ^ bits.length + message bits * X ^ w) %ₘ generator low := by
  induction bits using List.reverseRecOn with
  | nil => simp [run, message, poly_mod]
  | append_singleton bits bit ih =>
      rw [run_append, run, List.foldl_cons, List.foldl_nil, poly_shiftIn, ih]
      apply modByMonic_eq_of_dvd_sub (generator_monic low)
      -- what was taken off before is a multiple of the generator, and stays one
      obtain ⟨quotient, hquotient⟩ := dvd_modByMonic_sub
        (poly register * X ^ bits.length + message bits * X ^ w) (generator low)
      refine ⟨quotient * X, ?_⟩
      rw [message_concat, List.length_append, List.length_singleton]
      linear_combination X * hquotient

theorem poly_feed (low register word : BitVec w) :
    poly (feed low register word) = (poly (register ^^^ word) * X ^ w) %ₘ generator low := by
  rw [feed, poly_run, bitsOf_length, message_bitsOf, poly_xor, add_mul]

/-- Only the sum of the register and the word that comes in matters. -/
theorem feed_congr (low : BitVec w) {a b word word' : BitVec w} (h : a ^^^ word = b ^^^ word') :
    feed low a word = feed low b word' := by
  apply poly_injective
  rw [poly_feed, poly_feed, h]

theorem words_eq_run (low register : BitVec w) (message : List (BitVec w)) :
    words low register message = run low register (message.flatMap bitsOf) := by
  induction message generalizing register with
  | nil => rfl
  | cons word message ih =>
      rw [List.flatMap_cons, run_append, ← ih]
      rfl

/-- From zero, the register holds the remainder of the message above it. -/
theorem poly_words (low : BitVec w) (data : List (BitVec w)) :
    poly (words low 0#w data) = (message (data.flatMap bitsOf) * X ^ w) %ₘ generator low := by
  rw [words_eq_run, poly_run, poly_zero, zero_mul, zero_add]

/-! ## What a check tells apart -/

/-- Two lists that differ in a single place agree before and after it. -/
theorem exists_split_of_single {α : Type} {first second : List α}
    (hlength : first.length = second.length) (hsingle : ∃! i : Nat, first[i]? ≠ second[i]?) :
    ∃ before a b after, a ≠ b ∧ first = before ++ a :: after ∧ second = before ++ b :: after := by
  obtain ⟨i, hne, honly⟩ := hsingle
  have hi : i < first.length := by
    by_contra hbeyond
    apply hne
    rw [List.getElem?_eq_none (by omega), List.getElem?_eq_none (by omega)]
  have hi' : i < second.length := hlength ▸ hi
  -- everywhere else the lists agree, so they agree before the place and behind it
  have hsame : ∀ j, j ≠ i → first[j]? = second[j]? :=
    fun j hj => not_not.mp fun hdiffer => hj (honly j hdiffer)
  have hbefore : first.take i = second.take i := by
    apply List.ext_getElem?
    intro j
    rw [List.getElem?_take, List.getElem?_take]
    split
    next hj => exact hsame j (Nat.ne_of_lt hj)
    · rfl
  have hafter : first.drop (i + 1) = second.drop (i + 1) := by
    apply List.ext_getElem?
    intro j
    rw [List.getElem?_drop, List.getElem?_drop]
    exact hsame _ (by omega)
  refine ⟨first.take i, first[i], second[i], first.drop (i + 1), ?_, ?_, ?_⟩
  · intro heq
    apply hne
    rw [List.getElem?_eq_getElem hi, List.getElem?_eq_getElem hi', heq]
  · rw [← List.drop_eq_getElem_cons hi, List.take_append_drop]
  · rw [hbefore, hafter, ← List.drop_eq_getElem_cons hi', List.take_append_drop]

section Detection

variable {low : BitVec w}

/-- With a constant term in the generator, the lowest bit of the register shows
what the last step did. -/
theorem shiftIn_getLsbD_zero (hlow : low.getLsbD 0) (register : BitVec w) (bit : Bool) :
    (shiftIn low register bit).getLsbD 0 = (register.msb ^^ bit) := by
  unfold shiftIn
  cases register.msb ^^ bit with
  | false => simp
  | true => simp [hlow]

/-- With a constant term in the generator, a step can be undone. -/
theorem shiftIn_injective (hlow : low.getLsbD 0) (bit : Bool) :
    Function.Injective fun register => shiftIn low register bit := by
  intro a b h
  have hsame : shiftIn low a bit = shiftIn low b bit := h
  -- the bit that was lost is in the lowest place now
  have hmsb : a.msb = b.msb := by
    have hzero := congrArg (fun register => register.getLsbD 0) hsame
    simp only [shiftIn_getLsbD_zero hlow] at hzero
    exact Bool.xor_left_inj.mp hzero
  have hshift : a <<< 1 = b <<< 1 := by
    rw [shiftIn, shiftIn, hmsb] at hsame
    split at hsame
    · exact (BitVec.xor_left_inj low).mp hsame
    · exact hsame
  apply poly_injective
  apply isRegular_X.right
  calc poly a * X = poly (b <<< 1) + C (coefficient b.msb) * X ^ w := by
        rw [poly_shift, hshift, hmsb]
    _ = poly b * X := (poly_shift b).symm

theorem run_injective (hlow : low.getLsbD 0) (bits : List Bool) :
    Function.Injective fun register => run low register bits := by
  induction bits with
  | nil => exact Function.injective_id
  | cons bit bits ih => exact ih.comp (shiftIn_injective hlow bit)

/-- Two words leave different registers behind. -/
theorem feed_injective (hlow : low.getLsbD 0) (register : BitVec w) :
    Function.Injective (feed low register) := by
  intro a b h
  have hfeed : ∀ word, feed low register word = feed low (register ^^^ word) 0#w :=
    fun word => feed_congr low (BitVec.xor_zero (x := register ^^^ word)).symm
  rw [hfeed, hfeed] at h
  exact (BitVec.xor_right_inj register).mp (run_injective hlow _ h)

theorem words_injective (hlow : low.getLsbD 0) (data : List (BitVec w)) :
    Function.Injective fun register => words low register data := by
  simp only [words_eq_run]
  exact run_injective hlow _

/-- A message and one that differs from it in a single word have different
checks. -/
theorem words_ne_of_single (hlow : low.getLsbD 0) (register : BitVec w)
    (before after : List (BitVec w)) {a b : BitVec w} (hne : a ≠ b) :
    words low register (before ++ a :: after) ≠ words low register (before ++ b :: after) := by
  simp only [words, List.foldl_append, List.foldl_cons]
  intro h
  exact hne (feed_injective hlow _ (words_injective hlow after h))

end Detection

end Crc
