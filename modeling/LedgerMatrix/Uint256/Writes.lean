import LedgerMatrix.Foundation.Pointer
import LedgerMatrix.Uint256.Basic

/-! # The operations as writes through pointers

The functions of `uint256.c` write one field of their target after the other,
and read their operands in between. Here each is a command on whatever state its
pointers point into, with the reads and writes in the order of the source. The
value that such a command leaves in its target is that of the function of the
same name on values, for every target that is apart from the operands, and in
place for all but one of them.
-/

namespace LedgerMatrix

open Imperative

/-- What C leaves undefined in these functions. -/
inductive ArithmeticFault where
  /-- A limb is shifted by its width or more, or by a difference below zero that
  `uint32_t` has wrapped. -/
  | shiftAmount
  | noTermination
  deriving DecidableEq

/-- A function that writes through pointers into the state `σ`. -/
abbrev Writes (σ α : Type) : Type := Command Empty ArithmeticFault σ α

instance : Halves Uint128 UInt64 where
  join upper lower := ⟨upper, lower⟩
  high := Uint128.upper
  low := Uint128.lower
  high_join _ _ := rfl
  low_join _ _ := rfl
  join_eta _ := rfl

instance : Halves Uint256 Uint128 where
  join upper lower := ⟨upper, lower⟩
  high := Uint256.upper
  low := Uint256.lower
  high_join _ _ := rfl
  low_join _ _ := rfl
  join_eta _ := rfl

@[simp] theorem high_uint128 (number : Uint128) : Halves.high number = number.upper := rfl

@[simp] theorem low_uint128 (number : Uint128) : Halves.low number = number.lower := rfl

@[simp] theorem join_uint128 (upper lower : UInt64) :
    Halves.join upper lower = (⟨upper, lower⟩ : Uint128) := rfl

@[simp] theorem high_uint256 (number : Uint256) : Halves.high number = number.upper := rfl

@[simp] theorem low_uint256 (number : Uint256) : Halves.low number = number.lower := rfl

@[simp] theorem join_uint256 (upper lower : Uint128) :
    Halves.join upper lower = (⟨upper, lower⟩ : Uint256) := rfl

namespace Writes

open Command

section Definitions

variable {σ : Type}

/-- `limb << amount`, for the exact value of the amount. -/
def shl (limb : UInt64) (amount : Int) : Writes σ UInt64 :=
  if 0 ≤ amount ∧ amount < 64 then pure (limb <<< UInt64.ofNat amount.toNat)
  else stop .shiftAmount

/-- `limb >> amount`, for the exact value of the amount. -/
def shr (limb : UInt64) (amount : Int) : Writes σ UInt64 :=
  if 0 ≤ amount ∧ amount < 64 then pure (limb >>> UInt64.ofNat amount.toNat)
  else stop .shiftAmount

/-- The `uint32_t` argument that a difference is passed as. -/
def difference (a b : Nat) : Nat := u32 (2 ^ 32 - b + a)

def copy128 (target number : Lens σ Uint128) : Writes σ Unit := do
  store target.upper (← fetch number.upper)
  store target.lower (← fetch number.lower)

def copy256 (target number : Lens σ Uint256) : Writes σ Unit := do
  copy128 target.upper number.upper
  copy128 target.lower number.lower

def clear128 (target : Lens σ Uint128) : Writes σ Unit := do
  store target.upper 0
  store target.lower 0

def clear256 (target : Lens σ Uint256) : Writes σ Unit := do
  clear128 target.upper
  clear128 target.lower

def shiftl128 (number : Lens σ Uint128) (value : Nat) (target : Lens σ Uint128) :
    Writes σ Unit :=
  if value ≥ 128 then clear128 target
  else if value = 64 then do
    store target.upper (← fetch number.lower)
    store target.lower 0
  else if value = 0 then copy128 target number
  else if value < 64 then do
    let moved ← shl (← fetch number.upper) value
    let carried ← shr (← fetch number.lower) (64 - value)
    store target.upper (moved + carried)
    store target.lower (← shl (← fetch number.lower) value)
  else if 128 > value ∧ value > 64 then do
    store target.upper (← shl (← fetch number.lower) (value - 64))
    store target.lower 0
  else clear128 target

def shiftr128 (number : Lens σ Uint128) (value : Nat) (target : Lens σ Uint128) :
    Writes σ Unit :=
  if value ≥ 128 then clear128 target
  else if value = 64 then do
    store target.upper 0
    store target.lower (← fetch number.upper)
  else if value = 0 then copy128 target number
  else if value < 64 then
    scope LedgerMatrix.clear128 do
      let result : Lens (Uint128 × σ) Uint128 := Lens.fst
      store result.upper (← shr (← fetch number.caller.upper) value)
      let carried ← shl (← fetch number.caller.upper) (64 - value)
      let moved ← shr (← fetch number.caller.lower) value
      store result.lower (carried + moved)
      copy128 target.caller result
  else if 128 > value ∧ value > 64 then do
    store target.lower (← shr (← fetch number.upper) (value - 64))
    store target.upper 0
  else clear128 target

def add128 (number1 number2 target : Lens σ Uint128) : Writes σ Unit := do
  let low1 ← fetch number1.lower
  let low2 ← fetch number2.lower
  store target.upper ((← fetch number1.upper) + (← fetch number2.upper) +
    (if low1 + low2 < low1 then 1 else 0))
  store target.lower ((← fetch number1.lower) + (← fetch number2.lower))

def minus128 (number1 number2 target : Lens σ Uint128) : Writes σ Unit := do
  let low1 ← fetch number1.lower
  let low2 ← fetch number2.lower
  store target.upper ((← fetch number1.upper) - (← fetch number2.upper) -
    (if low1 - low2 > low1 then 1 else 0))
  store target.lower ((← fetch number1.lower) - (← fetch number2.lower))

def or128 (number1 number2 target : Lens σ Uint128) : Writes σ Unit := do
  store target.upper ((← fetch number1.upper) ||| (← fetch number2.upper))
  store target.lower ((← fetch number1.lower) ||| (← fetch number2.lower))

/-- The local variables of the 256-bit shifts. -/
structure ShiftLocals where
  tmp1 : Uint128
  tmp2 : Uint128
  result : Uint256

namespace ShiftLocals

def tmp1P : Lens ShiftLocals Uint128 := ⟨tmp1, fun value s => { s with tmp1 := value }⟩

def tmp2P : Lens ShiftLocals Uint128 := ⟨tmp2, fun value s => { s with tmp2 := value }⟩

def resultP : Lens ShiftLocals Uint256 := ⟨result, fun value s => { s with result := value }⟩

/-- What stands in the variables at the start is not read. -/
def start : ShiftLocals :=
  ⟨LedgerMatrix.clear128, LedgerMatrix.clear128, LedgerMatrix.clear256⟩

theorem tmp1P_lawful : tmp1P.Lawful := ⟨fun _ _ => rfl, fun _ => rfl, fun _ _ _ => rfl⟩

theorem tmp2P_lawful : tmp2P.Lawful := ⟨fun _ _ => rfl, fun _ => rfl, fun _ _ _ => rfl⟩

theorem resultP_lawful : resultP.Lawful := ⟨fun _ _ => rfl, fun _ => rfl, fun _ _ _ => rfl⟩

end ShiftLocals

open ShiftLocals in
def shiftl256 (number : Lens σ Uint256) (value : Nat) (target : Lens σ Uint256) :
    Writes σ Unit :=
  if value ≥ 256 then clear256 target
  else if value = 128 then do
    copy128 target.upper number.lower
    clear128 target.lower
  else if value = 0 then copy256 target number
  else if value < 128 then
    scope start do
      shiftl128 number.caller.upper value tmp1P.locals
      shiftr128 number.caller.lower (difference 128 value) tmp2P.locals
      add128 tmp1P.locals tmp2P.locals resultP.locals.upper
      shiftl128 number.caller.lower value resultP.locals.lower
      copy256 target.caller resultP.locals
  else if 256 > value ∧ value > 128 then do
    shiftl128 number.lower (difference value 128) target.upper
    clear128 target.lower
  else clear256 target

open ShiftLocals in
def shiftr256 (number : Lens σ Uint256) (value : Nat) (target : Lens σ Uint256) :
    Writes σ Unit :=
  if value ≥ 256 then clear256 target
  else if value = 128 then do
    copy128 target.lower number.upper
    clear128 target.upper
  else if value = 0 then copy256 target number
  else if value < 128 then
    scope start do
      shiftr128 number.caller.upper value resultP.locals.upper
      shiftr128 number.caller.lower value tmp1P.locals
      shiftl128 number.caller.upper (difference 128 value) tmp2P.locals
      add128 tmp1P.locals tmp2P.locals resultP.locals.lower
      copy256 target.caller resultP.locals
  else if 256 > value ∧ value > 128 then do
    shiftr128 number.upper (difference value 128) target.lower
    clear128 target.upper
  else clear256 target

/-- The local variables of the 256-bit sum and difference. -/
structure CarryLocals where
  tmp : Uint128
  one : Uint128

namespace CarryLocals

def tmpP : Lens CarryLocals Uint128 := ⟨tmp, fun value s => { s with tmp := value }⟩

def oneP : Lens CarryLocals Uint128 := ⟨one, fun value s => { s with one := value }⟩

/-- What stands in the variables at the start is not read. -/
def start : CarryLocals := ⟨LedgerMatrix.clear128, LedgerMatrix.clear128⟩

theorem tmpP_lawful : tmpP.Lawful := ⟨fun _ _ => rfl, fun _ => rfl, fun _ _ _ => rfl⟩

theorem oneP_lawful : oneP.Lawful := ⟨fun _ _ => rfl, fun _ => rfl, fun _ _ _ => rfl⟩

end CarryLocals

open CarryLocals in
/-- The 256-bit sum and difference. A copy of the lower half of the result tells
whether there is one to carry into the upper half, or to borrow from it. -/
def halfwise (word : Lens (CarryLocals × σ) Uint128 → Lens (CarryLocals × σ) Uint128 →
      Lens (CarryLocals × σ) Uint128 → Writes (CarryLocals × σ) Unit)
    (carries : Uint128 → Uint128 → Bool) (number1 number2 target : Lens σ Uint256) :
    Writes σ Unit :=
  scope start do
    word number1.caller.upper number2.caller.upper target.caller.upper
    word number1.caller.lower number2.caller.lower tmpP.locals
    if carries (← fetch number1.caller.lower) (← fetch tmpP.locals) then
      store oneP.locals.upper 0
      store oneP.locals.lower 1
      word target.caller.upper oneP.locals target.caller.upper
    word number1.caller.lower number2.caller.lower target.caller.lower

def add256 (number1 number2 target : Lens σ Uint256) : Writes σ Unit :=
  halfwise add128 (fun low tmp => gt128 low tmp) number1 number2 target

def minus256 (number1 number2 target : Lens σ Uint256) : Writes σ Unit :=
  halfwise minus128 (fun low tmp => gt128 tmp low) number1 number2 target

def or256 (number1 number2 target : Lens σ Uint256) : Writes σ Unit := do
  or128 number1.upper number2.upper target.upper
  or128 number1.lower number2.lower target.lower

end Definitions

/-! ## The 128-bit operations -/

section Specifications

variable {σ : Type} {safe : Empty → Prop} {s : σ} {early : ArithmeticFault → σ → Prop}

/-- The command leaves in its target what the function on values makes of the
operands, and nothing else changes. An operand may be the target itself. -/
def Exact {α : Type} (command : Lens σ α → Lens σ α → Lens σ α → Writes σ Unit)
    (value : α → α → α) : Prop :=
  ∀ {number1 number2 target : Lens σ α}, target.Lawful → number1.Operand target →
    number2.Operand target → ∀ {safe : Empty → Prop} {s : σ} {post : Unit → σ → Prop}
    {early : ArithmeticFault → σ → Prop},
    wp safe (command number1 number2 target) s post early ↔
      post () (target.set (value (number1.get s) (number2.get s)) s)

theorem wp_shl {limb : UInt64} {amount : Nat} (h : amount < 64) {post : UInt64 → σ → Prop} :
    wp safe (shl limb amount) s post early ↔ post (LedgerMatrix.shl limb amount h) s := by
  unfold shl
  rw [if_pos (by omega), wp_pure, Int.toNat_natCast, LedgerMatrix.shl]

theorem wp_shr {limb : UInt64} {amount : Nat} (h : amount < 64) {post : UInt64 → σ → Prop} :
    wp safe (shr limb amount) s post early ↔ post (LedgerMatrix.shr limb amount h) s := by
  unfold shr
  rw [if_pos (by omega), wp_pure, Int.toNat_natCast, LedgerMatrix.shr]

theorem difference_eq {a b : Nat} (hle : b ≤ a) (ha : a < 2 ^ 32) : difference a b = a - b := by
  unfold difference u32
  omega

section Narrow

variable {number number1 number2 target : Lens σ Uint128} {post : Unit → σ → Prop}

@[simp] theorem wp_clear128 (ht : target.Lawful) :
    wp safe (clear128 target) s post early ↔ post () (target.set LedgerMatrix.clear128 s) := by
  simp only [clear128, wp_bind, wp_store, ht.set_halves]
  rfl

theorem wp_copy128 (ht : target.Lawful) (h : number.Operand target) :
    wp safe (copy128 target number) s post early ↔ post () (target.set (number.get s) s) := by
  simp only [copy128, wp_bind, wp_fetch, wp_store, h.lower_apart ht _ s, ht.set_halves]
  rfl

theorem wp_shiftl128 (ht : target.Lawful) (h : number.Operand target) (value : Nat) :
    wp safe (shiftl128 number value target) s post early ↔
      post () (target.set (LedgerMatrix.shiftl128 (number.get s) value) s) := by
  unfold shiftl128 LedgerMatrix.shiftl128
  split
  next => exact wp_clear128 ht
  split
  next =>
    simp only [wp_bind, wp_fetch, wp_store, ht.set_halves]
    rfl
  split
  next => exact wp_copy128 ht h
  split
  next hlt =>
    have hcast : (64 : Int) - value = (64 - value : Nat) := by omega
    have hrest : 64 - value < 64 := by omega
    simp only [hcast, wp_bind, wp_fetch, wp_store, wp_shl hlt, wp_shr hrest,
      h.lower_apart ht _ s, ht.set_halves]
    rfl
  split
  next hmid =>
    have hcast : (value : Int) - 64 = (value - 64 : Nat) := by omega
    have hrest : value - 64 < 64 := by omega
    simp only [hcast, wp_bind, wp_fetch, wp_store, wp_shl hrest, ht.set_halves]
    rfl
  next => exact wp_clear128 ht

/-- The right shift is exact in place too, but for an amount of one limb: that
branch clears the upper limb before it reads it. -/
theorem wp_shiftr128 (ht : target.Lawful) {value : Nat}
    (h : number.Apart target ∨ number = target ∧ value ≠ 64) :
    wp safe (shiftr128 number value target) s post early ↔
      post () (target.set (LedgerMatrix.shiftr128 (number.get s) value) s) := by
  have hoperand : number.Operand target := by
    rcases h with h | ⟨h, -⟩
    · exact Or.inr h
    · exact Or.inl h
  unfold shiftr128 LedgerMatrix.shiftr128
  split
  next => exact wp_clear128 ht
  split
  next hword =>
    have hapart : number.Apart target := h.resolve_right fun hsame => hsame.2 hword
    simp only [wp_bind, wp_fetch, wp_store, hapart.upper _ s, ht.set_halves]
    rfl
  split
  next => exact wp_copy128 ht hoperand
  split
  next hlt =>
    -- the result is put together in a local variable, so the operand stays whole
    have hcast : (64 : Int) - value = (64 - value : Nat) := by omega
    have hrest : 64 - value < 64 := by omega
    simp only [hcast, wp_scope, wp_bind, wp_fetch, wp_store, wp_shr hlt, wp_shl hrest,
      Lens.fst_lawful.set_halves,
      wp_copy128 ht.caller (Or.inr (Lens.fst_apart_caller target))]
    rfl
  split
  next hmid =>
    -- the lower limb is written first here, and does not touch the upper one
    have hcast : (value : Int) - 64 = (value - 64 : Nat) := by omega
    have hrest : value - 64 < 64 := by omega
    simp only [hcast, wp_bind, wp_fetch, wp_store, wp_shr hrest, ht.set_halves']
    rfl
  next => exact wp_clear128 ht

/-- In place the branch for one limb leaves nothing. -/
theorem wp_shiftr128_inPlace_limb (ht : target.Lawful) :
    wp safe (shiftr128 target 64 target) s post early ↔
      post () (target.set LedgerMatrix.clear128 s) := by
  have hlt : ¬ 64 ≥ 128 := by decide
  rw [shiftr128, if_neg hlt, if_pos rfl]
  simp only [wp_bind, wp_fetch, wp_store, ht.upper.get_set, ht.set_halves]
  rfl

theorem add128_exact : Exact (add128 (σ := σ)) LedgerMatrix.add128 := by
  intro number1 number2 target ht h1 h2 safe s post early
  simp only [add128, wp_bind, wp_fetch, wp_store, h1.lower_apart ht _ s, h2.lower_apart ht _ s,
    ht.set_halves]
  rfl

theorem minus128_exact : Exact (minus128 (σ := σ)) LedgerMatrix.minus128 := by
  intro number1 number2 target ht h1 h2 safe s post early
  simp only [minus128, wp_bind, wp_fetch, wp_store, h1.lower_apart ht _ s, h2.lower_apart ht _ s,
    ht.set_halves]
  rfl

theorem or128_exact : Exact (or128 (σ := σ)) LedgerMatrix.or128 := by
  intro number1 number2 target ht h1 h2 safe s post early
  simp only [or128, wp_bind, wp_fetch, wp_store, h1.lower_apart ht _ s, h2.lower_apart ht _ s,
    ht.set_halves]
  rfl

end Narrow

/-! ## The 256-bit operations -/

section Wide

variable {number number1 number2 target : Lens σ Uint256} {post : Unit → σ → Prop}

theorem wp_clear256 (ht : target.Lawful) :
    wp safe (clear256 target) s post early ↔ post () (target.set LedgerMatrix.clear256 s) := by
  simp only [clear256, wp_bind, wp_clear128 ht.upper, wp_clear128 ht.lower, ht.set_halves]
  rfl

theorem wp_copy256 (ht : target.Lawful) (h : number.Operand target) :
    wp safe (copy256 target number) s post early ↔ post () (target.set (number.get s) s) := by
  simp only [copy256, wp_bind, wp_copy128 ht.upper h.upper, wp_copy128 ht.lower h.lower,
    h.lower_apart ht _ s, ht.set_halves]
  rfl

open ShiftLocals in
theorem wp_shiftl256 (ht : target.Lawful) (h : number.Operand target) (value : Nat) :
    wp safe (shiftl256 number value target) s post early ↔
      post () (target.set (LedgerMatrix.shiftl256 (number.get s) value) s) := by
  have hlower : number.lower.Operand target.upper := Or.inr (h.lower_apart ht)
  unfold shiftl256 LedgerMatrix.shiftl256
  split
  next => exact wp_clear256 ht
  split
  next =>
    simp only [wp_bind, wp_copy128 ht.upper hlower, wp_clear128 ht.lower, ht.set_halves]
    rfl
  split
  next => exact wp_copy256 ht h
  split
  next hlt =>
    -- the operand is the caller's, the variables are the function's own
    have hread1 : number.caller.upper.Operand tmp1P.locals := Or.inr fun _ _ => rfl
    have hread2 : number.caller.lower.Apart tmp2P.locals := fun _ _ => rfl
    have hread3 : number.caller.lower.Operand resultP.locals.lower := Or.inr fun _ _ => rfl
    have hsum1 : tmp1P.locals.Operand (resultP.locals : Lens (ShiftLocals × σ) _).upper :=
      Or.inr fun _ _ => rfl
    have hsum2 : tmp2P.locals.Operand (resultP.locals : Lens (ShiftLocals × σ) _).upper :=
      Or.inr fun _ _ => rfl
    simp only [difference_eq (Nat.le_of_lt hlt) (by decide), wp_scope, wp_bind,
      wp_shiftl128 tmp1P_lawful.locals hread1, wp_shiftr128 tmp2P_lawful.locals (Or.inl hread2),
      add128_exact resultP_lawful.locals.upper hsum1 hsum2,
      wp_shiftl128 resultP_lawful.locals.lower hread3,
      wp_copy256 ht.caller (Or.inr (Lens.locals_apart_caller resultP target))]
    rfl
  split
  next hmid =>
    have hwide : value < 2 ^ 32 := by omega
    simp only [difference_eq (Nat.le_of_lt hmid.2) hwide, wp_bind, wp_shiftl128 ht.upper hlower,
      wp_clear128 ht.lower, ht.set_halves]
    rfl
  next => exact wp_clear256 ht

open ShiftLocals in
theorem wp_shiftr256 (ht : target.Lawful) (h : number.Operand target) (value : Nat) :
    wp safe (shiftr256 number value target) s post early ↔
      post () (target.set (LedgerMatrix.shiftr256 (number.get s) value) s) := by
  have hupper : number.upper.Apart target.lower := h.upper_apart ht
  unfold shiftr256 LedgerMatrix.shiftr256
  split
  next => exact wp_clear256 ht
  split
  next =>
    simp only [wp_bind, wp_copy128 ht.lower (Or.inr hupper), wp_clear128 ht.upper, ht.set_halves']
    rfl
  split
  next => exact wp_copy256 ht h
  split
  next hlt =>
    have hread1 : number.caller.upper.Apart resultP.locals.upper := fun _ _ => rfl
    have hread2 : number.caller.lower.Apart tmp1P.locals := fun _ _ => rfl
    have hread3 : number.caller.upper.Operand tmp2P.locals := Or.inr fun _ _ => rfl
    have hsum1 : tmp1P.locals.Operand (resultP.locals : Lens (ShiftLocals × σ) _).lower :=
      Or.inr fun _ _ => rfl
    have hsum2 : tmp2P.locals.Operand (resultP.locals : Lens (ShiftLocals × σ) _).lower :=
      Or.inr fun _ _ => rfl
    simp only [difference_eq (Nat.le_of_lt hlt) (by decide), wp_scope, wp_bind,
      wp_shiftr128 resultP_lawful.locals.upper (Or.inl hread1),
      wp_shiftr128 tmp1P_lawful.locals (Or.inl hread2), wp_shiftl128 tmp2P_lawful.locals hread3,
      add128_exact resultP_lawful.locals.lower hsum1 hsum2,
      wp_copy256 ht.caller (Or.inr (Lens.locals_apart_caller resultP target))]
    rfl
  split
  next hmid =>
    have hwide : value < 2 ^ 32 := by omega
    simp only [difference_eq (Nat.le_of_lt hmid.2) hwide, wp_bind,
      wp_shiftr128 ht.lower (Or.inl hupper), wp_clear128 ht.upper, ht.set_halves']
    rfl
  next => exact wp_clear256 ht

open CarryLocals in
theorem halfwise_exact {word : Lens (CarryLocals × σ) Uint128 → Lens (CarryLocals × σ) Uint128 →
      Lens (CarryLocals × σ) Uint128 → Writes (CarryLocals × σ) Unit}
    {value : Uint128 → Uint128 → Uint128} (hword : Exact word value)
    (carries : Uint128 → Uint128 → Bool) :
    Exact (halfwise word carries) fun number1 number2 =>
      ⟨if carries number1.lower (value number1.lower number2.lower) then
          value (value number1.upper number2.upper) ⟨0, 1⟩
        else value number1.upper number2.upper,
        value number1.lower number2.lower⟩ := by
  intro number1 number2 target ht h1 h2 safe s post early
  have hupper := (ht.upper.caller : (target.upper.caller : Lens (CarryLocals × σ) _).Lawful)
  have hlower := (ht.lower.caller : (target.lower.caller : Lens (CarryLocals × σ) _).Lawful)
  have htmp := (tmpP_lawful.locals : (tmpP.locals : Lens (CarryLocals × σ) _).Lawful)
  have hone := (oneP_lawful.locals : (oneP.locals : Lens (CarryLocals × σ) _).Lawful)
  have hread (number : Lens σ Uint256) : number.lower.caller.Operand tmpP.locals :=
    Or.inr (Lens.caller_apart_locals number.lower tmpP)
  have hcarry : oneP.locals.Operand target.upper.caller :=
    Or.inr (Lens.locals_apart_caller oneP target.upper)
  -- the upper half is written first, and the lower halves are read after that
  have hlow1 := h1.lower_apart ht
  have hlow2 := h2.lower_apart ht
  simp only [halfwise, Lens.caller_upper, Lens.caller_lower, wp_scope, wp_bind,
    hword hupper h1.upper.caller h2.upper.caller, hword htmp (hread number1) (hread number2),
    wp_fetch, Lens.caller_get, Lens.caller_set, Lens.locals_get, Lens.locals_set,
    hlow1 _ _, hlow2 _ _, tmpP_lawful.get_set]
  split
  next hgo =>
    have hcarries : carries (number1.get s).lower
        (value (number1.get s).lower (number2.get s).lower) = true := hgo
    simp only [hcarries, if_true, wp_bind, wp_store, hone.set_halves, hword hupper (.same _) hcarry,
      hword hlower h1.lower.caller h2.lower.caller, Lens.caller_get, Lens.caller_set,
      Lens.locals_get, Lens.locals_set, hlow1 _ _, hlow2 _ _, oneP_lawful.get_set,
      ht.upper.get_set, ht.set_halves, ht.set_upper]
    rfl
  next hgo =>
    have hcarries : ¬ carries (number1.get s).lower
        (value (number1.get s).lower (number2.get s).lower) = true := hgo
    simp only [hcarries, hword hlower h1.lower.caller h2.lower.caller, Lens.caller_get,
      Lens.caller_set, hlow1 _ _, hlow2 _ _, ht.set_halves]
    rfl

theorem add256_exact : Exact (add256 (σ := σ)) LedgerMatrix.add256 :=
  halfwise_exact add128_exact _

theorem minus256_exact : Exact (minus256 (σ := σ)) LedgerMatrix.minus256 :=
  halfwise_exact minus128_exact _

theorem or256_exact : Exact (or256 (σ := σ)) LedgerMatrix.or256 := by
  intro number1 number2 target ht h1 h2 safe s post early
  simp only [or256, wp_bind, or128_exact ht.upper h1.upper h2.upper,
    or128_exact ht.lower h1.lower h2.lower, h1.lower_apart ht _ s, h2.lower_apart ht _ s,
    ht.set_halves]
  rfl

end Wide

end Specifications

end Writes

end LedgerMatrix
