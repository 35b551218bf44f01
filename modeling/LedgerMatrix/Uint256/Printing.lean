import LedgerMatrix.Uint256.Divmod128
import LedgerMatrix.Uint256.ToString

/-! # Printing at both widths

`tostring128` is `tostring256` at the other width, but for the room it keeps: it
compares the offset with the whole length of the buffer, so a numeral that fits
exactly leaves no byte for the terminator. Both subtract from the length before
they compare, so neither is protected where the subtraction wraps.
-/

namespace LedgerMatrix

open Imperative

/-- The loop of `tostring128`. A number of 128 bits has at most 128 digits. -/
def tostring128Loop (base : Uint128) (outLength : Nat) :
    Nat → Uint128 → Nat → Parser (List UInt8) Bool
  | 0, _, _ => fault .noTermination
  | passes + 1, rDiv, offset =>
      if offset > u32 (outLength + (2 ^ 32 - 1)) then pure false
      else match divmod128 rDiv base with
        | none => fault .noTermination
        | some (quotient, rMod) =>
            match hexDigits[u8 rMod.lower.toNat]? with
            | none => fault .outOfBounds
            | some digit => do
                storeAt offset digit
                if zero128 quotient then do
                  storeAt (offset + 1) 0
                  reverseString (offset + 1)
                  pure true
                else tostring128Loop base outLength passes quotient (offset + 1)

def tostring128 (number : Uint128) (baseParam outLength : Nat) : Parser (List UInt8) Bool :=
  if baseParam < 2 ∨ baseParam > 16 then pure false
  else tostring128Loop ⟨0, UInt64.ofNat baseParam⟩ outLength 128 number 0

/-- The loop is that of `tostring256` on the same numbers. -/
theorem tostringLoop_widen {base : Uint128} (hbase : 0 < base.val) (outLength : Nat) :
    ∀ (passes : Nat) (number : Uint128) (offset : Nat),
      tostringLoop base.widen outLength passes number.widen offset =
        tostring128Loop base outLength passes number offset := by
  intro passes
  induction passes with
  | zero => intro number offset; rfl
  | succ passes ih =>
      intro number offset
      unfold tostringLoop tostring128Loop
      rw [divmod256_widen hbase]
      cases divmod128 number base with
      | none => rfl
      | some result =>
          simp only [Option.map_some, widen_zero, ih]
          rfl

/-- What becomes of the buffer of `tostring128`, for every length of it. -/
theorem wp_tostring128_printed {number : Uint128} {baseParam : Nat} (hmin : 2 ≤ baseParam)
    (hmax : baseParam ≤ 16) {out : List UInt8} {bound : Nat}
    (hbound : u32 (out.length + (2 ^ 32 - 1)) = bound) {safe : Event → Prop}
    {early : Stop → List UInt8 → Prop} {post : Bool → List UInt8 → Prop}
    (hprinted : Printed bound [] out ((Numeral.digits baseParam number.val).map Numeral.symbol)
      post early) :
    (tostring128 number baseParam out.length).wp safe out post early := by
  have hword : baseParam < 2 ^ 64 := by omega
  have hbase : (⟨0, UInt64.ofNat baseParam⟩ : Uint128).val = baseParam := by
    rw [Uint128.val_mk_zero, UInt64.toNat_ofNat_of_lt' hword]
  have hfit : number.val < baseParam ^ 128 :=
    number.val_lt.trans_le (Nat.pow_le_pow_left hmin 128)
  have hsmall : ([] : List UInt8).length + 128 < 2 ^ 32 := by
    rw [List.length_nil]
    decide
  unfold tostring128
  rw [if_neg (by omega), ← tostringLoop_widen (by omega)]
  exact wp_tostringLoop ((val_widen _).trans hbase) hmin hmax hbound (by rwa [val_widen])
    (by decide) hsmall (Nat.zero_le _) (by rwa [val_widen])

/-! ## Correctness -/

/-- Printing a 256-bit number in a buffer of two bytes or more ends. Outside the
bases from 2 to 16 it returns false and leaves the buffer. Otherwise it returns
true if and only if the numeral fits, and then the buffer holds the numeral and a
terminator. -/
theorem tostring256_correct (number : Uint256) (baseParam : Nat) {out : List UInt8}
    (hout : 2 ≤ out.length) (hout' : out.length < 2 ^ 32) :
    ∃ result after, (tostring256 number baseParam out.length).outcome out = .done result after ∧
      (¬ (2 ≤ baseParam ∧ baseParam ≤ 16) → result = false ∧ after = out) ∧
      (2 ≤ baseParam ∧ baseParam ≤ 16 →
        (result = true ↔ (Numeral.text baseParam number.val).length ≤ out.length - 1) ∧
        (result = true → ∃ text rest, after = text ++ 0 :: rest ∧ after.length = out.length ∧
          text = Numeral.text baseParam number.val ∧
          Numeral.IsNumeral baseParam number.val text)) := by
  by_cases hbase : 2 ≤ baseParam ∧ baseParam ≤ 16
  · have hrun : (tostring256 number baseParam out.length).wp (fun _ => True) out
        (fun result after =>
          (result = true ↔ (Numeral.text baseParam number.val).length ≤ out.length - 1) ∧
          (result = true → ∃ text rest, after = text ++ 0 :: rest ∧ after.length = out.length ∧
            text = Numeral.text baseParam number.val ∧
            Numeral.IsNumeral baseParam number.val text)) (fun _ _ => False) := by
      apply wp_tostring256 hbase.1 hbase.2 hout hout'
      split
      next hfits =>
        refine ⟨iff_of_true rfl (by omega), fun _ => ⟨_, _, rfl, length_terminated hfits, rfl,
          Numeral.isNumeral_text hbase.1 hbase.2 _⟩⟩
      next hlong =>
        intro buffer _
        exact ⟨iff_of_false (by decide) (by omega), fun h => by cases h⟩
    obtain ⟨result, after, hend, hresult⟩ := hrun.exists_done
    exact ⟨result, after, hend, fun h => absurd hbase h, fun _ => hresult⟩
  · refine ⟨false, out, ?_, fun _ => ⟨rfl, rfl⟩, fun h => absurd h hbase⟩
    have houtside : baseParam < 2 ∨ baseParam > 16 := by omega
    rw [tostring256, if_pos houtside, Command.outcome_pure]

theorem tostring256_correct_hex :
    ∃ result after, (tostring256 ⟨clear128, ⟨0, 255⟩⟩ 16 ([0, 0, 0] : List UInt8).length).outcome
        [0, 0, 0] = .done result after ∧
      (¬ (2 ≤ 16 ∧ 16 ≤ 16) → result = false ∧ after = [0, 0, 0]) ∧
      (2 ≤ 16 ∧ 16 ≤ 16 →
        (result = true ↔ (Numeral.text 16 (⟨clear128, ⟨0, 255⟩⟩ : Uint256).val).length ≤
          ([0, 0, 0] : List UInt8).length - 1) ∧
        (result = true → ∃ text rest, after = text ++ 0 :: rest ∧
          after.length = ([0, 0, 0] : List UInt8).length ∧
          text = Numeral.text 16 (⟨clear128, ⟨0, 255⟩⟩ : Uint256).val ∧
          Numeral.IsNumeral 16 (⟨clear128, ⟨0, 255⟩⟩ : Uint256).val text)) :=
  tostring256_correct ⟨clear128, ⟨0, 255⟩⟩ 16 (by simp) (by simp)

/-! ## Bounds -/

/-- Every index at which the call writes is below the length of its buffer: a
write behind the buffer is a fault. -/
def InBounds (call : Parser (List UInt8) Bool) (out : List UInt8) : Prop :=
  ∀ after, call.outcome out ≠ .stop (.fault .outOfBounds) after

/-- The numeral of the number has as many digits as there are bytes. -/
def ExactFit (base number length : Nat) : Prop :=
  number < base ^ length ∧ (length = 1 ∨ base ^ (length - 1) ≤ number)

theorem InBounds.of_wp {call : Parser (List UInt8) Bool} {out : List UInt8}
    (h : call.wp (fun _ => True) out (fun _ _ => True) fun _ _ => False) : InBounds call out := by
  intro after hstop
  exact h.of_stop hstop

theorem not_inBounds_of_wp {call : Parser (List UInt8) Bool} {out : List UInt8}
    (h : call.wp (fun _ => True) out (fun _ _ => False)
      fun stop _ => stop = .fault .outOfBounds) : ¬ InBounds call out := by
  intro hin
  cases hend : call.outcome out with
  | done result after => exact h.of_done hend
  | stop code after => exact hin after (h.of_stop hend ▸ hend)

/-- When neither the digits nor the terminator are refused, the call stays in the
buffer if and only if the text and the terminator fit. -/
theorem inBounds_iff {call : Parser (List UInt8) Bool} {out text : List UInt8} {bound : Nat}
    (hcall : ∀ (post : Bool → List UInt8 → Prop) (early : Stop → List UInt8 → Prop),
      Printed bound [] out text post early → call.wp (fun _ => True) out post early) :
    InBounds call out ↔
      if text.length ≤ bound + 1 then text.length < out.length else bound < out.length := by
  constructor
  · intro hin
    by_contra hnot
    refine not_inBounds_of_wp (hcall _ _ ?_) hin
    rw [Printed, List.length_nil, Nat.zero_add, Nat.zero_add]
    split
    next hall =>
      rw [if_pos hall] at hnot
      rw [if_neg hnot]
      exact fun _ => rfl
    next hrefused =>
      rw [if_neg hrefused] at hnot
      rw [if_neg hnot]
      exact fun _ => rfl
  · intro hfits
    refine .of_wp (hcall _ _ ?_)
    rw [Printed, List.length_nil, Nat.zero_add, Nat.zero_add]
    split
    next hall =>
      rw [if_pos hall] at hfits
      rw [if_pos hfits]
      trivial
    next hrefused =>
      rw [if_neg hrefused] at hfits
      rw [if_pos hfits]
      exact fun _ _ => trivial

theorem exactFit_iff {base : Nat} (hbase : 2 ≤ base) {number length : Nat} (hpos : 0 < length) :
    ExactFit base number length ↔ (Numeral.digits base number).length = length := by
  have hle (count : Nat) (hcount : 0 < count) :
      (Numeral.digits base number).length ≤ count ↔ number < base ^ count := by
    rw [← Numeral.text_length, Numeral.text_length_le_iff hbase hcount]
  have hdigits := Numeral.digits_length_pos base number
  unfold ExactFit
  rw [← hle length hpos]
  by_cases hone : length = 1
  · subst hone
    simp only [true_or, and_true]
    omega
  · have hless := hle (length - 1) (by omega)
    rw [← Nat.not_lt (a := number), ← hless]
    omega

/-- The 128-bit printing stays in its buffer if and only if there is a byte and
the numeral does not fit exactly; the 256-bit printing, if and only if there are
two bytes. -/
theorem printing_inBounds_iff (narrow : Uint128) (wide : Uint256) {baseParam : Nat}
    (hmin : 2 ≤ baseParam) (hmax : baseParam ≤ 16) {out : List UInt8}
    (hout : out.length < 2 ^ 32) :
    (InBounds (tostring128 narrow baseParam out.length) out ↔
      0 < out.length ∧ ¬ ExactFit baseParam narrow.val out.length) ∧
    (InBounds (tostring256 wide baseParam out.length) out ↔ 2 ≤ out.length) := by
  have hnarrow := @inBounds_iff (tostring128 narrow baseParam out.length) out _ _ fun _ _ =>
    wp_tostring128_printed hmin hmax rfl
  have hwide := @inBounds_iff (tostring256 wide baseParam out.length) out _ _ fun _ _ =>
    wp_tostring256_printed hmin hmax rfl
  have hdigits := Numeral.digits_length_pos baseParam narrow.val
  have hdigits' := Numeral.digits_length_pos baseParam wide.val
  rw [hnarrow, hwide, List.length_map, List.length_map]
  constructor
  · rcases Nat.eq_zero_or_pos out.length with hzero | hpos
    · rw [hzero]
      simp
    · rw [u32_pred hpos hout, exactFit_iff hmin hpos]
      split <;> omega
  · -- below two bytes one of the two subtractions wraps
    obtain hzero | hone | htwo : out.length = 0 ∨ out.length = 1 ∨ 2 ≤ out.length := by omega
    · rw [hzero]
      simp [u32]
    · have hbound : u32 (u32 (1 + (2 ^ 32 - 1)) + (2 ^ 32 - 1)) = 2 ^ 32 - 1 := rfl
      rw [hone, hbound]
      split <;> omega
    · rw [u32_pred_pred htwo hout]
      split <;> omega

theorem printing_inBounds_iff_ten :
    (InBounds (tostring128 ⟨0, 42⟩ 10 ([0, 0, 0] : List UInt8).length) [0, 0, 0] ↔
      0 < ([0, 0, 0] : List UInt8).length ∧
        ¬ ExactFit 10 (⟨0, 42⟩ : Uint128).val ([0, 0, 0] : List UInt8).length) ∧
    (InBounds (tostring256 ⟨clear128, ⟨0, 42⟩⟩ 10 ([0, 0, 0] : List UInt8).length) [0, 0, 0] ↔
      2 ≤ ([0, 0, 0] : List UInt8).length) :=
  printing_inBounds_iff ⟨0, 42⟩ ⟨clear128, ⟨0, 42⟩⟩ (by decide) (by decide) (by simp)

/-- One digit in one byte leaves no room for the terminator. -/
theorem tostring128_writes_behind :
    ¬ ∀ (number : Uint128) (baseParam : Nat) (out : List UInt8), 2 ≤ baseParam → baseParam ≤ 16 →
      out.length < 2 ^ 32 → InBounds (tostring128 number baseParam out.length) out := by
  intro h
  refine h ⟨0, 7⟩ 10 [0] (by decide) (by decide) (by simp) [55] ?_
  decide +kernel

end LedgerMatrix
