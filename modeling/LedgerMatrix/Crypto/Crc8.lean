import LedgerMatrix.Foundation.Crc
import Mathlib.Data.List.Basic
import Mathlib.Tactic.Common

/-! # The checksum of an address

`crc8` goes over the bytes with a table of 256 literals. The table has what the
shift register of the generator `x ^ 8 + x ^ 2 + x + 1` does to each byte, so the
checksum is the remainder of the polynomial of the bytes by that generator.
-/

namespace LedgerMatrix

open Polynomial

def crc8Init : UInt8 := 0x00

def crc8XorOut : UInt8 := 0x00

set_option maxRecDepth 2048 in
/-- The table, from which `crc8` takes every value of its checksum. -/
def crc8Poly7 : Vector UInt8 256 := #v[
  0, 7, 14, 9, 28, 27, 18, 21, 56, 63, 54, 49, 36, 35, 42, 45, 112, 119, 126, 121, 108, 107, 98,
  101, 72, 79, 70, 65, 84, 83, 90, 93, 224, 231, 238, 233, 252, 251, 242, 245, 216, 223, 214,
  209, 196, 195, 202, 205, 144, 151, 158, 153, 140, 139, 130, 133, 168, 175, 166, 161, 180, 179,
  186, 189, 199, 192, 201, 206, 219, 220, 213, 210, 255, 248, 241, 246, 227, 228, 237, 234, 183,
  176, 185, 190, 171, 172, 165, 162, 143, 136, 129, 134, 147, 148, 157, 154, 39, 32, 41, 46, 59,
  60, 53, 50, 31, 24, 17, 22, 3, 4, 13, 10, 87, 80, 89, 94, 75, 76, 69, 66, 111, 104, 97, 102,
  115, 116, 125, 122, 137, 142, 135, 128, 149, 146, 155, 156, 177, 182, 191, 184, 173, 170, 163,
  164, 249, 254, 247, 240, 229, 226, 235, 236, 193, 198, 207, 200, 221, 218, 211, 212, 105, 110,
  103, 96, 117, 114, 123, 124, 81, 86, 95, 88, 77, 74, 67, 68, 25, 30, 23, 16, 5, 2, 11, 12, 33,
  38, 47, 40, 61, 58, 51, 52, 78, 73, 64, 71, 82, 85, 92, 91, 118, 113, 120, 127, 106, 109, 100,
  99, 62, 57, 48, 55, 34, 37, 44, 43, 6, 1, 8, 15, 26, 29, 20, 19, 174, 169, 160, 167, 178, 181,
  188, 187, 150, 145, 152, 159, 138, 141, 132, 131, 222, 217, 208, 215, 194, 197, 204, 203, 230,
  225, 232, 239, 250, 253, 244, 243]

/-- One pass of the loop of `crc8`. -/
def crc8Step (crc byte : UInt8) : UInt8 := crc8Poly7.get (crc ^^^ byte).toFin

def crc8 (data : List UInt8) : UInt8 := data.foldl crc8Step crc8Init ^^^ crc8XorOut

/-- The generator without its highest term: `x ^ 2 + x + 1`. -/
def poly7 : BitVec 8 := 7

/-- The bits of a byte string, the highest bit of each byte first. -/
def bitsOf (data : List UInt8) : List Bool := data.flatMap fun byte => Crc.bitsOf byte.toBitVec

/-- The table has the remainder of each byte. -/
theorem crc8Poly7_get (index : Fin 256) :
    (crc8Poly7.get index).toBitVec = Crc.feed poly7 0#8 (BitVec.ofFin index) := by
  revert index
  decide +kernel

theorem crc8Step_toBitVec (crc byte : UInt8) :
    (crc8Step crc byte).toBitVec = Crc.feed poly7 crc.toBitVec byte.toBitVec := by
  rw [crc8Step, crc8Poly7_get]
  apply Crc.feed_congr
  rw [BitVec.zero_xor]
  rfl

theorem foldl_crc8Step (data : List UInt8) (crc : UInt8) :
    (data.foldl crc8Step crc).toBitVec =
      Crc.words poly7 crc.toBitVec (data.map UInt8.toBitVec) := by
  induction data generalizing crc with
  | nil => rfl
  | cons byte data ih =>
      rw [List.foldl_cons, ih, crc8Step_toBitVec]
      rfl

/-- The checksum is what the register of the generator holds at the end. -/
theorem crc8_toBitVec (data : List UInt8) :
    (crc8 data).toBitVec = Crc.words poly7 0#8 (data.map UInt8.toBitVec) := by
  rw [crc8, crc8XorOut, UInt8.xor_zero, foldl_crc8Step]
  rfl

theorem generator_poly7 : Crc.generator poly7 = X ^ 8 + X ^ 2 + X + 1 := by
  have hlow : Crc.poly poly7 = X ^ 2 + X + 1 := by
    simp only [Crc.poly, Finset.sum_range_succ, Finset.sum_range_zero]
    simp [poly7, Crc.coefficient]
    ring
  rw [Crc.generator, hlow]
  ring

/-- The checksum is the remainder of the bytes times `x ^ 8`, which the shift
register computes bit by bit. So the checksum of what was read so far is all that
matters for what follows, and an error in a single byte is found. -/
theorem crc8_remainder :
    (∀ data : List UInt8, Crc.poly (crc8 data).toBitVec =
      (Crc.message (bitsOf data) * X ^ 8) %ₘ (X ^ 8 + X ^ 2 + X + 1)) ∧
    (∀ data : List UInt8, (crc8 data).toBitVec = (bitsOf data).foldl (Crc.shiftIn poly7) 0#8) ∧
    (∃ extend : UInt8 → List UInt8 → UInt8, ∀ a b, crc8 (a ++ b) = extend (crc8 a) b) ∧
    (∀ data data' : List UInt8, data.length = data'.length → (∃! i : Nat, data[i]? ≠ data'[i]?) →
      crc8 data ≠ crc8 data') := by
  have hbits : ∀ data : List UInt8,
      (data.map UInt8.toBitVec).flatMap Crc.bitsOf = bitsOf data := fun data => by
    rw [List.flatMap_map]
    rfl
  refine ⟨?_, ?_, ?_, ?_⟩
  · intro data
    rw [crc8_toBitVec, Crc.poly_words, hbits, generator_poly7]
  · intro data
    rw [crc8_toBitVec, Crc.words_eq_run, hbits]
    rfl
  · -- nothing is added at the end, so the checksum is where the loop stands
    refine ⟨fun crc b => b.foldl crc8Step crc, fun a b => ?_⟩
    rw [crc8, crc8, crc8XorOut, UInt8.xor_zero, UInt8.xor_zero, List.foldl_append]
  · intro data data' hlength hsingle h
    obtain ⟨before, a, b, after, hne, rfl, rfl⟩ := Crc.exists_split_of_single hlength hsingle
    have hwords := congrArg UInt8.toBitVec h
    simp only [crc8_toBitVec, List.map_append, List.map_cons] at hwords
    have hne' : a.toBitVec ≠ b.toBitVec := fun hbyte => hne (UInt8.eq_of_toBitVec_eq hbyte)
    exact Crc.words_ne_of_single (by decide) _ _ _ hne' hwords

example : (List.range 7).map (fun length => crc8 (List.take length [104, 101, 108, 108, 111, 33])) =
    [0x00, 0x1F, 0x61, 0x23, 0xEA, 0x92, 0x10] := by decide

end LedgerMatrix
