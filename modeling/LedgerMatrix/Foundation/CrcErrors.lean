import LedgerMatrix.Foundation.Crc
import Mathlib.Algebra.Polynomial.Eval.Degree
import Mathlib.Data.Nat.Cast.Basic
import Mathlib.RingTheory.Coprime.Lemmas

/-! # The errors that a check finds

Two messages of one length have the same check exactly when the generator divides
the polynomial of the places in which they differ. A generator with a constant term
divides no burst that is as short as the register, and one that vanishes at 1
divides nothing with an odd number of terms.
-/

namespace Crc

open Polynomial

variable {w : Nat}

/-- The places in which two messages differ. -/
def flips (bits bits' : List Bool) : List Bool := List.zipWith (· ^^ ·) bits bits'

/-- The polynomial of the differing places is the difference of the polynomials. -/
theorem message_flips {bits bits' : List Bool} (h : bits.length = bits'.length) :
    message (flips bits bits') = message bits + message bits' := by
  ext i
  rw [coeff_add, coeff_message, coeff_message, coeff_message, ← coefficient_xor, flips,
    List.reverse_zipWith h]
  congr 1
  have hreverse : bits.reverse.length = bits'.reverse.length := by
    rw [List.length_reverse, List.length_reverse, h]
  by_cases hi : i < bits.reverse.length
  · have hi' : i < bits'.reverse.length := hreverse ▸ hi
    simp only [List.getD_eq_getElem?_getD, List.getElem?_zipWith, List.getElem?_eq_getElem hi,
      List.getElem?_eq_getElem hi', Option.getD_some]
  · have hi' : bits'.reverse.length ≤ i := hreverse ▸ Nat.le_of_not_lt hi
    simp only [List.getD_eq_getElem?_getD, List.getElem?_zipWith,
      List.getElem?_eq_none (Nat.le_of_not_lt hi), List.getElem?_eq_none hi', Option.getD_none,
      Bool.xor_false]

theorem add_self_eq_zero (p : Polynomial (ZMod 2)) : p + p = 0 := by
  have htwo : (2 : ZMod 2) = 0 := by decide
  rw [← two_mul, ← C_ofNat, htwo, C_0, zero_mul]

theorem add_eq_sub (p q : Polynomial (ZMod 2)) : p + q = p - q := by
  rw [sub_eq_add_neg, ← sub_eq_zero, add_sub_add_left_eq_sub, sub_neg_eq_add, add_self_eq_zero]

theorem modByMonic_eq_iff {g p q : Polynomial (ZMod 2)} (hg : g.Monic) :
    p %ₘ g = q %ₘ g ↔ g ∣ p - q := by
  rw [← modByMonic_eq_zero_iff_dvd hg, sub_modByMonic, sub_eq_zero]

section Detection

variable {low : BitVec w}

theorem generator_coeff_zero (hlow : low.getLsbD 0) : (generator low).coeff 0 = 1 := by
  have hpos : w ≠ 0 := by
    rintro rfl
    rw [BitVec.getLsbD_of_ge low 0 le_rfl] at hlow
    cases hlow
  rw [generator, coeff_add, coeff_poly, hlow, coeff_X_pow, if_neg (Ne.symm hpos), zero_add]
  rfl

theorem generator_coprime (hlow : low.getLsbD 0) (n : Nat) : IsCoprime (generator low) (X ^ n) := by
  refine IsCoprime.pow_right ⟨1, -divX (generator low), ?_⟩
  have hsplit := divX_mul_X_add (generator low)
  rw [generator_coeff_zero hlow, C_1] at hsplit
  linear_combination -hsplit

/-- Two messages have the same check exactly when the generator divides the
polynomial of the places in which they differ. -/
theorem run_eq_iff (hlow : low.getLsbD 0) (register : BitVec w) {bits bits' : List Bool}
    (h : bits.length = bits'.length) :
    run low register bits = run low register bits' ↔
      generator low ∣ message (flips bits bits') := by
  rw [← poly_injective.eq_iff, poly_run, poly_run, modByMonic_eq_iff (generator_monic low), h,
    add_sub_add_left_eq_sub, ← sub_mul, ← add_eq_sub, ← message_flips h]
  exact ⟨(generator_coprime hlow w).dvd_of_dvd_mul_right, fun hdvd => hdvd.mul_right _⟩

theorem degree_message_lt (bits : List Bool) : (message bits).degree < bits.length := by
  rw [degree_lt_iff_coeff_zero]
  intro i hi
  rw [coeff_message, List.getD_eq_getElem?_getD,
    List.getElem?_eq_none (by rwa [List.length_reverse])]
  rfl

/-- A message of which the polynomial vanishes has no bit set. -/
theorem eq_false_of_message_eq_zero {bits : List Bool} (h : message bits = 0) :
    ∀ bit ∈ bits, bit = false := by
  intro bit hbit
  obtain ⟨i, hi, rfl⟩ := List.getElem_of_mem (List.mem_reverse.mpr hbit)
  have hcoeff := coeff_message bits i
  rw [h, coeff_zero, List.getD_eq_getElem?_getD, List.getElem?_eq_getElem hi] at hcoeff
  exact coefficient_injective hcoeff.symm

theorem eq_of_flips {bits bits' : List Bool} (h : bits.length = bits'.length)
    (hflips : ∀ bit ∈ flips bits bits', bit = false) : bits = bits' := by
  induction bits generalizing bits' with
  | nil => exact (List.length_eq_zero_iff.mp h.symm).symm
  | cons bit bits ih =>
      cases bits' with
      | nil => cases h
      | cons bit' bits' =>
          have hfirst : (bit ^^ bit') = false := hflips _ List.mem_cons_self
          rw [bne_eq_false_iff_eq.mp hfirst, ih (Nat.succ.inj h) fun b hb =>
            hflips b (List.mem_cons_of_mem _ hb)]

/-- A burst that is no longer than the register is found, wherever it is. -/
theorem run_ne_of_burst (hlow : low.getLsbD 0) (register : BitVec w) (before after : List Bool)
    {burst burst' : List Bool} (hlength : burst.length = burst'.length) (hle : burst.length ≤ w)
    (hne : burst ≠ burst') :
    run low register (before ++ burst ++ after) ≠ run low register (before ++ burst' ++ after) := by
  intro heq
  rw [run_append, run_append, run_append, run_append] at heq
  have hdvd := (run_eq_iff hlow _ hlength).mp (run_injective hlow after heq)
  have hdegree : (message (flips burst burst')).degree < (generator low).degree := by
    refine (degree_message_lt _).trans_le ?_
    rw [degree_generator, flips, List.length_zipWith, ← hlength, Nat.min_self]
    exact_mod_cast hle
  have hzero := eq_zero_of_dvd_of_degree_lt hdvd hdegree
  exact hne (eq_of_flips hlength (eq_false_of_message_eq_zero hzero))

theorem eval_one_message (bits : List Bool) :
    (message bits).eval 1 = (bits.count true : ZMod 2) := by
  induction bits using List.reverseRecOn with
  | nil => simp [message]
  | append_singleton bits bit ih =>
      rw [message_concat, eval_add, eval_mul, eval_X, eval_C, mul_one, ih, List.count_append]
      cases bit <;> simp [coefficient]

/-- An odd number of flipped bits is found by a generator that vanishes at 1. -/
theorem run_ne_of_odd (hlow : low.getLsbD 0) (hone : (generator low).eval 1 = 0)
    (register : BitVec w) {bits bits' : List Bool} (h : bits.length = bits'.length)
    (hodd : Odd ((flips bits bits').count true)) :
    run low register bits ≠ run low register bits' := by
  intro heq
  obtain ⟨quotient, hquotient⟩ := (run_eq_iff hlow register h).mp heq
  have heval := eval_one_message (flips bits bits')
  rw [hquotient, eval_mul, hone, zero_mul] at heval
  obtain ⟨half, hhalf⟩ := hodd
  have htwo : (2 : ZMod 2) = 0 := by decide
  rw [hhalf, Nat.cast_add, Nat.cast_mul, Nat.cast_ofNat, htwo, zero_mul, zero_add] at heval
  exact absurd heval (by decide)

/-- What a word leaves behind is additive. -/
theorem feed_xor (low a b : BitVec w) :
    feed low 0#w (a ^^^ b) = feed low 0#w a ^^^ feed low 0#w b := by
  apply poly_injective
  rw [poly_xor, poly_feed, poly_feed, poly_feed, BitVec.zero_xor, BitVec.zero_xor, BitVec.zero_xor,
    poly_xor, add_mul, add_modByMonic]

/-- A word that stands twice in a sum can be left out. -/
theorem xor_cancel (a b word : BitVec w) : (word ^^^ a) ^^^ (word ^^^ b) = a ^^^ b := by
  calc (word ^^^ a) ^^^ (word ^^^ b) = (word ^^^ word) ^^^ (a ^^^ b) := by ac_rfl
    _ = a ^^^ b := by rw [BitVec.xor_self, BitVec.zero_xor]

theorem xor_eq_iff (a b a' b' : BitVec w) : a ^^^ b = a' ^^^ b' ↔ a ^^^ a' = b' ^^^ b := by
  rw [← BitVec.xor_right_inj (b ^^^ a')]
  have hleft : (b ^^^ a') ^^^ (a ^^^ b) = a ^^^ a' := by
    rw [BitVec.xor_comm a b, xor_cancel, BitVec.xor_comm]
  have hright : (b ^^^ a') ^^^ (a' ^^^ b') = b' ^^^ b := by
    rw [BitVec.xor_comm b a', xor_cancel, BitVec.xor_comm]
  rw [hleft, hright]

/-- Two words that follow each other are exchanged unnoticed exactly when their sum
leaves itself behind. -/
theorem words_swap_iff (hlow : low.getLsbD 0) (register : BitVec w) (before after : List (BitVec w))
    (a b : BitVec w) :
    words low register (before ++ a :: b :: after) =
        words low register (before ++ b :: a :: after) ↔
      feed low 0#w (a ^^^ b) = a ^^^ b := by
  have hfeed (register word : BitVec w) :
      feed low register word = feed low 0#w (register ^^^ word) :=
    feed_congr low (BitVec.zero_xor (x := register ^^^ word)).symm
  have hwords (a b : BitVec w) : words low register (before ++ a :: b :: after) =
      words low (feed low 0#w (feed low 0#w (words low register before ^^^ a) ^^^ b)) after := by
    rw [← hfeed, ← hfeed]
    simp only [words, List.foldl_append, List.foldl_cons]
  rw [hwords, hwords, (words_injective hlow after).eq_iff, (feed_injective hlow 0#w).eq_iff,
    xor_eq_iff, ← feed_xor, xor_cancel]

end Detection

end Crc
