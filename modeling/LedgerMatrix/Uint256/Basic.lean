import LedgerMatrix.Foundation.Loop
import Mathlib.Algebra.Group.Nat.Defs
import Mathlib.Tactic.Common

/-! # 128-bit and 256-bit integers

The arithmetic of `uint256.c`. A number is held as an upper and a lower half,
down to limbs of 64 bits. Every function here returns the value that the source
writes through its `target` argument; the `copy` functions are plain
assignments. Loops that the source guards by a value, not by a counter, are run
with a bound on their passes, and `none` means that the bound was not enough.
-/

namespace LedgerMatrix

open Imperative

/-- `uint128_t`: `elements[0]` is the upper half. -/
structure Uint128 where
  upper : UInt64
  lower : UInt64
  deriving DecidableEq

/-- `uint256_t`: `elements[0]` is the upper half. -/
structure Uint256 where
  upper : Uint128
  lower : Uint128
  deriving DecidableEq

/-- The value that a `uint32_t` keeps of a number. -/
def u32 (n : Nat) : Nat := n % 2 ^ 32

/-- Eight bytes at a pointer, most significant first. -/
def readUint64BE (buffer : Nat → UInt8) : UInt64 :=
  ((buffer 0).toUInt64 <<< 56) ||| ((buffer 1).toUInt64 <<< 48) |||
    ((buffer 2).toUInt64 <<< 40) ||| ((buffer 3).toUInt64 <<< 32) |||
    ((buffer 4).toUInt64 <<< 24) ||| ((buffer 5).toUInt64 <<< 16) |||
    ((buffer 6).toUInt64 <<< 8) ||| (buffer 7).toUInt64

def readu128BE (buffer : Nat → UInt8) : Uint128 :=
  ⟨readUint64BE buffer, readUint64BE fun i => buffer (i + 8)⟩

def readu256BE (buffer : Nat → UInt8) : Uint256 :=
  ⟨readu128BE buffer, readu128BE fun i => buffer (i + 16)⟩

def zero128 (number : Uint128) : Bool := number.lower == 0 && number.upper == 0

def zero256 (number : Uint256) : Bool := zero128 number.lower && zero128 number.upper

def clear128 : Uint128 := ⟨0, 0⟩

def clear256 : Uint256 := ⟨clear128, clear128⟩

/-- A limb shift, which C defines only for amounts below the width. -/
def shl (limb : UInt64) (amount : Nat) (_ : amount < 64) : UInt64 :=
  limb <<< UInt64.ofNat amount

/-- A limb shift, which C defines only for amounts below the width. -/
def shr (limb : UInt64) (amount : Nat) (_ : amount < 64) : UInt64 :=
  limb >>> UInt64.ofNat amount

def shiftl128 (number : Uint128) (value : Nat) : Uint128 :=
  if value ≥ 128 then clear128
  else if value = 64 then ⟨number.lower, 0⟩
  else if hzero : value = 0 then number
  else if hlt : value < 64 then
    ⟨shl number.upper value hlt + shr number.lower (64 - value) (by omega),
      shl number.lower value hlt⟩
  else if hmid : 128 > value ∧ value > 64 then
    ⟨shl number.lower (value - 64) (by omega), 0⟩
  else clear128

def shiftr128 (number : Uint128) (value : Nat) : Uint128 :=
  if value ≥ 128 then clear128
  else if value = 64 then ⟨0, number.upper⟩
  else if hzero : value = 0 then number
  else if hlt : value < 64 then
    ⟨shr number.upper value hlt,
      shl number.upper (64 - value) (by omega) + shr number.lower value hlt⟩
  else if hmid : 128 > value ∧ value > 64 then
    ⟨0, shr number.upper (value - 64) (by omega)⟩
  else clear128

/-- The carry is seen from the wrapped lower sum. -/
def add128 (number1 number2 : Uint128) : Uint128 :=
  ⟨number1.upper + number2.upper +
      (if number1.lower + number2.lower < number1.lower then 1 else 0),
    number1.lower + number2.lower⟩

/-- The borrow is seen from the wrapped lower difference. -/
def minus128 (number1 number2 : Uint128) : Uint128 :=
  ⟨number1.upper - number2.upper -
      (if number1.lower - number2.lower > number1.lower then 1 else 0),
    number1.lower - number2.lower⟩

def or128 (number1 number2 : Uint128) : Uint128 :=
  ⟨number1.upper ||| number2.upper, number1.lower ||| number2.lower⟩

def equal128 (number1 number2 : Uint128) : Bool :=
  number1.upper == number2.upper && number1.lower == number2.lower

def gt128 (number1 number2 : Uint128) : Bool :=
  if number1.upper == number2.upper then number1.lower > number2.lower
  else number1.upper > number2.upper

def gte128 (number1 number2 : Uint128) : Bool :=
  gt128 number1 number2 || equal128 number1 number2

def shiftl256 (number : Uint256) (value : Nat) : Uint256 :=
  if value ≥ 256 then clear256
  else if value = 128 then ⟨number.lower, clear128⟩
  else if value = 0 then number
  else if value < 128 then
    let tmp1 := shiftl128 number.upper value
    let tmp2 := shiftr128 number.lower (128 - value)
    ⟨add128 tmp1 tmp2, shiftl128 number.lower value⟩
  else if 256 > value ∧ value > 128 then
    ⟨shiftl128 number.lower (value - 128), clear128⟩
  else clear256

def shiftr256 (number : Uint256) (value : Nat) : Uint256 :=
  if value ≥ 256 then clear256
  else if value = 128 then ⟨clear128, number.upper⟩
  else if value = 0 then number
  else if value < 128 then
    let tmp1 := shiftr128 number.lower value
    let tmp2 := shiftl128 number.upper (128 - value)
    ⟨shiftr128 number.upper value, add128 tmp1 tmp2⟩
  else if 256 > value ∧ value > 128 then
    ⟨clear128, shiftr128 number.upper (value - 128)⟩
  else clear256

def add256 (number1 number2 : Uint256) : Uint256 :=
  let upper := add128 number1.upper number2.upper
  let tmp := add128 number1.lower number2.lower
  ⟨if gt128 number1.lower tmp then add128 upper ⟨0, 1⟩ else upper,
    add128 number1.lower number2.lower⟩

def minus256 (number1 number2 : Uint256) : Uint256 :=
  let upper := minus128 number1.upper number2.upper
  let tmp := minus128 number1.lower number2.lower
  ⟨if gt128 tmp number1.lower then minus128 upper ⟨0, 1⟩ else upper,
    minus128 number1.lower number2.lower⟩

def or256 (number1 number2 : Uint256) : Uint256 :=
  ⟨or128 number1.upper number2.upper, or128 number1.lower number2.lower⟩

def equal256 (number1 number2 : Uint256) : Bool :=
  equal128 number1.upper number2.upper && equal128 number1.lower number2.lower

def gt256 (number1 number2 : Uint256) : Bool :=
  if equal128 number1.upper number2.upper then gt128 number1.lower number2.lower
  else gt128 number1.upper number2.upper

def gte256 (number1 number2 : Uint256) : Bool :=
  gt256 number1 number2 || equal256 number1 number2

/-- The loop of `bits128`: shift a limb to zero and count the shifts. -/
def shiftOutLimb (limb : UInt64) (result : Nat) : Option Nat :=
  (whileLoop (fun s : UInt64 × Nat => s.1 != 0) (fun s => (s.1 >>> 1, s.2 + 1)) 64
    (limb, result)).map Prod.snd

def bits128 (number : Uint128) : Option Nat :=
  if number.upper ≠ 0 then shiftOutLimb number.upper 64
  else shiftOutLimb number.lower 0

/-- The loop of `bits256`: shift a half to zero and count the shifts. -/
def shiftOutHalf (half : Uint128) (result : Nat) : Option Nat :=
  (whileLoop (fun s : Uint128 × Nat => !zero128 s.1) (fun s => (shiftr128 s.1 1, s.2 + 1)) 128
    (half, result)).map Prod.snd

def bits256 (number : Uint256) : Option Nat :=
  if !zero128 number.upper then shiftOutHalf number.upper 128
  else shiftOutHalf number.lower 0

/-- The local variables of the loop of `divmod256`. -/
structure DivmodState where
  copyd : Uint256
  adder : Uint256
  resDiv : Uint256
  resMod : Uint256

/-- One pass of the loop of `divmod256`. -/
def divmodPass (s : DivmodState) : DivmodState :=
  let t := if gte256 s.resMod s.copyd then
      { s with resMod := minus256 s.resMod s.copyd, resDiv := or256 s.resDiv s.adder }
    else s
  { t with copyd := shiftr256 t.copyd 1, adder := shiftr256 t.adder 1 }

/-- The state in which the loop of `divmod256` starts. The bit lengths differ by
`diffBits`, so the shifted divisor is too large by at most one bit. -/
def divmodStart (l r : Uint256) (diffBits : Nat) : DivmodState :=
  let one : Uint256 := ⟨clear128, ⟨0, 1⟩⟩
  let copyd := shiftl256 r diffBits
  let adder := shiftl256 one diffBits
  if gt256 copyd l then ⟨shiftr256 copyd 1, shiftr256 adder 1, clear256, l⟩
  else ⟨copyd, adder, clear256, l⟩

/-- Quotient and remainder by shift and subtract. Each pass moves the divisor
down one bit, so 256 passes are enough whenever the loop ends at all. -/
def divmod256 (l r : Uint256) : Option (Uint256 × Uint256) :=
  match bits256 l, bits256 r with
  | some lBits, some rBits =>
      let diffBits := u32 (2 ^ 32 - rBits + lBits)
      if gt256 r l then some (clear256, l)
      else
        (whileLoop (fun s => gte256 s.resMod r) divmodPass 256 (divmodStart l r diffBits)).map
          fun s => (s.resDiv, s.resMod)
  | _, _ => none

end LedgerMatrix
