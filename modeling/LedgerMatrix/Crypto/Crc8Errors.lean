import LedgerMatrix.Crypto.Crc8
import LedgerMatrix.Foundation.CrcErrors

/-! # The errors that the checksum of an address finds

The generator of `crc8` has a constant term and vanishes at 1. So the checksum finds
every error within eight bits that follow each other and every odd number of wrong
bits, and nearly every exchange of two neighbours.
-/

namespace LedgerMatrix

open Polynomial

theorem bitsOf_length (data : List UInt8) : (bitsOf data).length = data.length * 8 := by
  simp only [bitsOf, List.length_flatMap, Crc.bitsOf_length, List.map_const', List.sum_replicate,
    smul_eq_mul]

theorem crc8_eq_run (data : List UInt8) :
    (crc8 data).toBitVec = Crc.run poly7 0#8 (bitsOf data) := by
  rw [crc8_toBitVec, Crc.words_eq_run, List.flatMap_map]
  rfl

theorem crc8_eq_iff {data data' : List UInt8} :
    crc8 data = crc8 data' ↔
      Crc.run poly7 0#8 (bitsOf data) = Crc.run poly7 0#8 (bitsOf data') := by
  rw [← UInt8.toBitVec_inj, crc8_eq_run, crc8_eq_run]

/-- The generator is divisible by `x + 1`. -/
theorem generator_eval_one : (Crc.generator poly7).eval 1 = 0 := by
  rw [generator_poly7]
  simp only [eval_add, eval_pow, eval_X, eval_one, one_pow]
  decide

/-- Two byte strings of one length have the same checksum exactly when the generator
divides the polynomial of the bits in which they differ. An odd number of wrong bits
is always found, and so is every error within eight bits that follow each other. -/
theorem crc8_finds :
    (∀ data data' : List UInt8, data.length = data'.length →
      (crc8 data = crc8 data' ↔
        (X ^ 8 + X ^ 2 + X + 1 : Polynomial (ZMod 2)) ∣
          Crc.message (Crc.flips (bitsOf data) (bitsOf data')))) ∧
    (∀ data data' : List UInt8, data.length = data'.length →
      Odd ((Crc.flips (bitsOf data) (bitsOf data')).count true) → crc8 data ≠ crc8 data') ∧
    ∀ (data data' : List UInt8) (before burst burst' after : List Bool),
      bitsOf data = before ++ burst ++ after → bitsOf data' = before ++ burst' ++ after →
      burst.length = burst'.length → burst.length ≤ 8 → burst ≠ burst' →
      crc8 data ≠ crc8 data' := by
  have hbits {data data' : List UInt8} (h : data.length = data'.length) :
      (bitsOf data).length = (bitsOf data').length := by
    rw [bitsOf_length, bitsOf_length, h]
  refine ⟨fun data data' h => ?_, fun data data' h hodd heq => ?_, ?_⟩
  · rw [crc8_eq_iff, Crc.run_eq_iff (by decide) 0#8 (hbits h), generator_poly7]
  · exact Crc.run_ne_of_odd (by decide) generator_eval_one 0#8 (hbits h) hodd (crc8_eq_iff.mp heq)
  · intro data data' before burst burst' after hdata hdata' hlength hle hne heq
    have hrun := crc8_eq_iff.mp heq
    rw [hdata, hdata'] at hrun
    exact Crc.run_ne_of_burst (by decide) 0#8 before after hlength hle hne hrun

/-- The bytes that the table maps to themselves. -/
theorem crc8Poly7_fixed (index : Fin 256) :
    (crc8Poly7.get index).toBitVec = BitVec.ofFin index ↔ index = 0 ∨ index = 0xfd := by
  revert index
  decide +kernel

/-- Two neighbours are exchanged unnoticed exactly when they are equal or differ by
`0xfd`, and in a text of letters below 128 only when they are equal. -/
theorem crc8_swap_iff (before after : List UInt8) (a b : UInt8) :
    (crc8 (before ++ a :: b :: after) = crc8 (before ++ b :: a :: after) ↔
      a = b ∨ a ^^^ b = 0xfd) ∧
    (a < 128 → b < 128 →
      (crc8 (before ++ a :: b :: after) = crc8 (before ++ b :: a :: after) ↔ a = b)) := by
  have hswap : crc8 (before ++ a :: b :: after) = crc8 (before ++ b :: a :: after) ↔
      a = b ∨ a ^^^ b = 0xfd := by
    rw [← UInt8.toBitVec_inj, crc8_toBitVec, crc8_toBitVec]
    simp only [List.map_append, List.map_cons]
    rw [Crc.words_swap_iff (by decide)]
    have hfixed := crc8Poly7_fixed (a ^^^ b).toFin
    rw [crc8Poly7_get] at hfixed
    have hword : BitVec.ofFin (a ^^^ b).toFin = a.toBitVec ^^^ b.toBitVec := rfl
    rw [hword] at hfixed
    rw [hfixed, ← UInt8.xor_eq_zero_iff, ← UInt8.toFin_inj, ← UInt8.toFin_inj (b := 0xfd)]
    rfl
  refine ⟨hswap, fun ha hb => ?_⟩
  rw [hswap, or_iff_left]
  intro hsum
  -- the highest bit is in neither of the two
  have hlow : a.toNat ^^^ b.toNat < 2 ^ 7 := Nat.xor_lt_two_pow ha hb
  rw [← UInt8.toNat_xor, hsum] at hlow
  exact absurd hlow (by decide)

end LedgerMatrix
