import LedgerMatrix.Foundation.Numeral
import LedgerMatrix.Machine
import LedgerMatrix.Uint256.Divmod

/-! # Printing

`tostring256` writes the digits from the last to the first and then reverses
them in place. It keeps a byte for the terminator, so a buffer of `n` bytes
holds numerals of up to `n - 1` digits.
-/

namespace LedgerMatrix

open Imperative

/-- `HEXDIGITS`, with its terminator. -/
def hexDigits : List UInt8 := ascii "0123456789abcdef" ++ [0]

/-- Exchange two bytes of a buffer. -/
def swapAt (i j : Nat) : Parser (List UInt8) Unit := do
  let buffer ← Command.read
  match buffer[i]?, buffer[j]? with
  | some a, some b => Command.modify fun buffer => (buffer.set i b).set j a
  | _, _ => fault .outOfBounds

/-- The loop of `reverseString`, whose indices move towards each other. -/
def reverseLoop : Nat → Nat → Nat → Parser (List UInt8) Unit
  | 0, i, j => if i < j then fault .noTermination else pure ()
  | passes + 1, i, j =>
      if i < j then do
        swapAt i j
        reverseLoop passes (i + 1) (j - 1)
      else pure ()

def reverseString (length : Nat) : Parser (List UInt8) Unit :=
  reverseLoop length 0 (u32 (length + (2 ^ 32 - 1)))

/-- The loop of `tostring256`. A number of 256 bits has at most 256 digits. -/
def tostringLoop (base : Uint256) (outLength : Nat) :
    Nat → Uint256 → Nat → Parser (List UInt8) Bool
  | 0, _, _ => fault .noTermination
  | passes + 1, rDiv, offset =>
      if offset > u32 (outLength + (2 ^ 32 - 1)) then pure false
      else match divmod256 rDiv base with
        | none => fault .noTermination
        | some (quotient, rMod) =>
            match hexDigits[u8 rMod.lower.lower.toNat]? with
            | none => fault .outOfBounds
            | some digit => do
                storeAt offset digit
                if zero256 quotient then do
                  storeAt (offset + 1) 0
                  reverseString (offset + 1)
                  pure true
                else tostringLoop base outLength passes quotient (offset + 1)

def tostring256 (number : Uint256) (baseParam outLength : Nat) : Parser (List UInt8) Bool :=
  if baseParam < 2 ∨ baseParam > 16 then pure false
  else
    -- keep a byte for termination
    tostringLoop ⟨clear128, ⟨0, UInt64.ofNat baseParam⟩⟩ (u32 (outLength + (2 ^ 32 - 1))) 256
      number 0

/-! ## Reversal -/

/-- Decrementing a nonzero `uint32_t` does not wrap. -/
theorem u32_pred {n : Nat} (hpos : 0 < n) (hlt : n < 2 ^ 32) : u32 (n + (2 ^ 32 - 1)) = n - 1 := by
  unfold u32
  omega

/-- The last offset at which `tostring256` writes a digit. -/
theorem u32_pred_pred {n : Nat} (hmin : 2 ≤ n) (hlt : n < 2 ^ 32) :
    u32 (u32 (n + (2 ^ 32 - 1)) + (2 ^ 32 - 1)) = n - 2 := by
  have hpred : u32 (n + (2 ^ 32 - 1)) = n - 1 := u32_pred (by omega) hlt
  rw [hpred]
  exact u32_pred (by omega) (by omega)

section Reversal

variable {safe : Event → Prop} {early : Stop → List UInt8 → Prop}

theorem wp_swapAt {front middle back : List UInt8} {a b : UInt8}
    {post : Unit → List UInt8 → Prop} (hpost : post () (front ++ b :: middle ++ a :: back)) :
    (swapAt front.length (front.length + middle.length + 1)).wp safe
      (front ++ a :: middle ++ b :: back) post early := by
  have hfirst : (front ++ a :: middle ++ b :: back)[front.length]? = some a := by simp
  have hlast : (front ++ a :: middle ++ b :: back)[front.length + middle.length + 1]? =
      some b := by
    rw [List.getElem?_append_right (by simp; omega)]
    simp [Nat.add_assoc]
  have hset : ((front ++ a :: middle ++ b :: back).set front.length b).set
      (front.length + middle.length + 1) a = front ++ b :: middle ++ a :: back := by
    have hset₁ : (front ++ a :: middle ++ b :: back).set front.length b =
        front ++ b :: middle ++ b :: back := by simp
    rw [hset₁, List.set_append_right _ _ (by simp; omega)]
    simp [Nat.add_assoc]
  simp only [swapAt, Command.wp_bind, Command.wp_read, hfirst, hlast, Command.wp_modify]
  rw [hset]
  exact hpost

/-- The loop reverses what stands between its two indices. -/
theorem wp_reverseLoop {middle : List UInt8} :
    ∀ {passes : Nat} {front back : List UInt8} {j : Nat} {post : Unit → List UInt8 → Prop},
      j + 1 = front.length + middle.length → middle.length ≤ passes →
      post () (front ++ middle.reverse ++ back) →
      (reverseLoop passes front.length j).wp safe (front ++ middle ++ back) post early := by
  induction middle using List.bidirectionalRec with
  | nil =>
      intro passes front back j post hj _ hpost
      have hstop : ¬ front.length < j := by simp at hj; omega
      cases passes <;> simpa [reverseLoop, hstop] using hpost
  | singleton a =>
      intro passes front back j post hj _ hpost
      have hstop : ¬ front.length < j := by simp at hj; omega
      cases passes <;> simpa [reverseLoop, hstop] using hpost
  | cons_append a inner b ih =>
      -- the outer two change places, and the loop goes on between them
      intro passes front back j post hj hpasses hpost
      simp only [List.length_cons, List.length_append, List.length_nil] at hj hpasses
      obtain ⟨passes, rfl⟩ : ∃ p, passes = p + 1 := ⟨passes - 1, by omega⟩
      obtain rfl : j = front.length + inner.length + 1 := by omega
      have hgo : front.length < front.length + inner.length + 1 := by omega
      have hinput : front ++ a :: (inner ++ [b]) ++ back = front ++ a :: inner ++ b :: back := by
        simp
      simp only [reverseLoop, hgo, if_true, Command.wp_bind]
      rw [hinput]
      apply wp_swapAt
      have hnext : (reverseLoop passes (front ++ [b]).length (front.length + inner.length)).wp
          safe ((front ++ [b]) ++ inner ++ (a :: back)) post early :=
        ih (by simp; omega) (by omega) (by simpa using hpost)
      simpa using hnext

theorem wp_reverseString {digits back : List UInt8} (hpos : 0 < digits.length)
    (hlen : digits.length < 2 ^ 32) {post : Unit → List UInt8 → Prop}
    (hpost : post () (digits.reverse ++ back)) :
    (reverseString digits.length).wp safe (digits ++ back) post early := by
  rw [reverseString, u32_pred hpos hlen]
  have hall : (reverseLoop digits.length ([] : List UInt8).length (digits.length - 1)).wp safe
      ([] ++ digits ++ back) post early :=
    wp_reverseLoop (by simp; omega) le_rfl (by simpa using hpost)
  exact hall

end Reversal

/-! ## Digits -/

section Digits

variable {safe : Event → Prop} {early : Stop → List UInt8 → Prop}

theorem hexDigits_getElem? {digit : Nat} (h : digit < 16) :
    hexDigits[digit]? = some (Numeral.symbol digit) := by
  have hall : ∀ digit < 16, hexDigits[digit]? = some (Numeral.symbol digit) := by decide
  exact hall digit h

theorem val_base (baseParam : Nat) (h : baseParam < 2 ^ 64) :
    (⟨clear128, ⟨0, UInt64.ofNat baseParam⟩⟩ : Uint256).val = baseParam := by
  rw [Uint256.val_mk_clear, Uint128.val_mk_zero, UInt64.toNat_ofNat_of_lt' h]

/-- A digit survives the cast to `uint8_t` of the lowest limb. -/
theorem u8_lowest_limb {number : Uint256} (h : number.val < 16) :
    u8 number.lower.lower.toNat = number.val := by
  rw [lowest_limb (h.trans (by decide)), u8, Nat.mod_eq_of_lt (h.trans (by decide))]

/-- A division by the base gives the last digit and what is left. -/
theorem divmod256_digit {base : Uint256} {b : Nat} (hbase : base.val = b) (hmin : 2 ≤ b)
    (hmax : b ≤ 16) (number : Uint256) :
    ∃ quotient rMod, divmod256 number base = some (quotient, rMod) ∧
      quotient.val = number.val / b ∧
      hexDigits[u8 rMod.lower.lower.toNat]? = some (Numeral.symbol (number.val % b)) := by
  obtain ⟨quotient, rMod, hdivmod, hquotient, hrMod⟩ :=
    divmod256_spec (l := number) (r := base) (hbase.symm ▸ Nat.zero_lt_of_lt hmin)
  rw [hbase] at hquotient hrMod
  have hdigit : number.val % b < 16 := (Nat.mod_lt _ (by omega)).trans_le hmax
  refine ⟨quotient, rMod, hdivmod, hquotient, ?_⟩
  rw [u8_lowest_limb (hrMod ▸ hdigit), hrMod]
  exact hexDigits_getElem? hdigit

/-- What becomes of a buffer in which `written` and `rest` stand when the digits
`text` are still to be written. The loop refuses to write above `bound`; when that
is outside the buffer, or when the terminator is, it faults. -/
def Printed (bound : Nat) (written rest text : List UInt8) (post : Bool → List UInt8 → Prop)
    (early : Stop → List UInt8 → Prop) : Prop :=
  if written.length + text.length ≤ bound + 1 then
    if text.length < rest.length then
      post true ((written ++ text).reverse ++ 0 :: rest.drop (text.length + 1))
    else ∀ buffer, early (.fault .outOfBounds) buffer
  else if bound < written.length + rest.length then
    ∀ buffer : List UInt8, buffer.length = written.length + rest.length → post false buffer
  else ∀ buffer, early (.fault .outOfBounds) buffer

namespace Printed

variable {bound : Nat} {written rest text : List UInt8} {first second digit : UInt8}
  {post : Bool → List UInt8 → Prop}

/-- Writing one digit. -/
theorem tail (h : Printed bound written (first :: rest) (digit :: text) post early) :
    Printed bound (written ++ [digit]) rest text post early := by
  simpa [Printed, Nat.add_assoc, Nat.add_comm 1] using h

/-- The loop stops at the first offset above the bound. -/
theorem full (h : Printed bound written rest text post early) (hpos : 0 < text.length)
    (hfull : written.length = bound + 1) : post false (written ++ rest) := by
  rw [Printed, if_neg (by omega), if_pos (by omega)] at h
  exact h _ List.length_append

/-- A digit is written behind the buffer. -/
theorem outside (h : Printed bound written [] text post early) (hroom : written.length ≤ bound)
    (buffer : List UInt8) : early (.fault .outOfBounds) buffer := by
  rw [Printed, List.length_nil, if_neg (Nat.not_lt_zero _)] at h
  split at h
  · exact h buffer
  · rw [if_neg (by omega)] at h
    exact h buffer

/-- The terminator is written behind the buffer. -/
theorem unterminated (h : Printed bound written [first] [digit] post early)
    (hroom : written.length ≤ bound) (buffer : List UInt8) :
    early (.fault .outOfBounds) buffer := by
  rw [Printed, List.length_singleton, List.length_singleton, if_pos (by omega),
    if_neg (by decide)] at h
  exact h buffer

/-- The last digit and the terminator are written. -/
theorem last (h : Printed bound written (first :: second :: rest) [digit] post early)
    (hroom : written.length ≤ bound) : post true ((written ++ [digit]).reverse ++ 0 :: rest) := by
  rw [Printed, List.length_singleton, if_pos (by omega), if_pos (by simp)] at h
  exact h

end Printed

/-- The end of the loop: the last digit is written, and the text is terminated
and reversed. -/
theorem wp_tostring_end {bound : Nat} {written rest : List UInt8} {first digit : UInt8}
    {post : Bool → List UInt8 → Prop} (hsmall : written.length + 1 < 2 ^ 32)
    (hroom : written.length ≤ bound)
    (h : Printed bound written (first :: rest) [digit] post early) :
    (do storeAt (written.length + 1) 0
        reverseString (written.length + 1)
        pure true : Parser (List UInt8) Bool).wp safe ((written ++ [digit]) ++ rest) post
      early := by
  simp only [Command.wp_bind]
  cases rest with
  | nil => exact wp_storeAt_outside (by simp) _ (h.unterminated hroom _)
  | cons second rest =>
      apply wp_storeAt (by simp)
      have hterminate : ((written ++ [digit]) ++ second :: rest).set (written.length + 1) 0 =
          (written ++ [digit]) ++ 0 :: rest := by simp
      rw [hterminate]
      have hreverse : (reverseString (written ++ [digit]).length).wp safe
          ((written ++ [digit]) ++ 0 :: rest) (fun _ buffer => post true buffer) early :=
        wp_reverseString (by simp) (by simpa using hsmall) (h.last hroom)
      simpa using hreverse

/-- A pass writes the last digit and goes on with what is left. The digits
written before it stand in `written`, last digit first. -/
theorem wp_tostringLoop {base : Uint256} {b outLength bound : Nat} (hbase : base.val = b)
    (hmin : 2 ≤ b) (hmax : b ≤ 16) (hbound : u32 (outLength + (2 ^ 32 - 1)) = bound) :
    ∀ {passes : Nat} {number : Uint256} {written rest : List UInt8}
      {post : Bool → List UInt8 → Prop},
      number.val < b ^ passes → 0 < passes → written.length + passes < 2 ^ 32 →
      written.length ≤ bound + 1 →
      Printed bound written rest ((Numeral.digits b number.val).map Numeral.symbol) post early →
      (tostringLoop base outLength passes number written.length).wp safe (written ++ rest)
        post early := by
  intro passes
  induction passes with
  | zero =>
      intro number written rest post _ hpos
      omega
  | succ passes ih =>
      intro number written rest post hfit _ hsmall hwritten hprinted
      obtain ⟨quotient, rMod, hdivmod, hquotient, hsymbol⟩ :=
        divmod256_digit hbase hmin hmax number
      have hdigits := Numeral.digits_eq hmin number.val
      have hpos := Numeral.digits_length_pos b number.val
      unfold tostringLoop
      rw [hbound]
      split
      next hfull =>
        simp only [Command.wp_pure]
        exact hprinted.full (by rwa [List.length_map]) (by omega)
      next hroom =>
        rw [hdivmod]
        simp only [hsymbol, Command.wp_bind]
        cases rest with
        | nil =>
            -- the bound wrapped around, and the digit goes behind the buffer
            exact wp_storeAt_outside (by simp) _ (hprinted.outside (by omega) _)
        | cons first rest =>
            apply wp_storeAt (by simp)
            have hwrite : (written ++ first :: rest).set written.length
                (Numeral.symbol (number.val % b)) =
                  (written ++ [Numeral.symbol (number.val % b)]) ++ rest := by simp
            rw [hwrite]
            by_cases hzero : number.val / b = 0
            · -- this was the highest digit
              have hstop : zero256 quotient = true :=
                zero256_iff.mpr (by rw [hquotient, hzero])
              rw [if_pos hzero] at hdigits
              rw [hdigits] at hprinted
              rw [if_pos hstop]
              exact wp_tostring_end (by omega) (by omega) hprinted
            · -- what is left has a digit less, so a pass less is enough for it
              have hgo : ¬ zero256 quotient = true := by
                rw [zero256_iff, hquotient]
                exact hzero
              rw [if_neg hzero] at hdigits
              rw [hdigits, List.map_cons, ← hquotient] at hprinted
              have hpow : number.val / b < b ^ passes := by
                rw [Nat.div_lt_iff_lt_mul (by omega), ← Nat.pow_succ]
                exact hfit
              have hpasses : 0 < passes := by
                rcases Nat.eq_zero_or_pos passes with rfl | hpos
                · exact absurd (by simpa using hpow) hzero
                · exact hpos
              have hlength : (written ++ [Numeral.symbol (number.val % b)]).length =
                  written.length + 1 := by simp
              have hnext : (tostringLoop base outLength passes quotient
                  (written ++ [Numeral.symbol (number.val % b)]).length).wp safe
                  ((written ++ [Numeral.symbol (number.val % b)]) ++ rest) post early :=
                ih (by rwa [hquotient]) hpasses (by omega) (by omega) hprinted.tail
              rw [if_neg hgo, ← hlength]
              exact hnext

/-- What becomes of the buffer of `tostring256`, for every length of it. -/
theorem wp_tostring256_printed {number : Uint256} {baseParam : Nat} (hmin : 2 ≤ baseParam)
    (hmax : baseParam ≤ 16) {out : List UInt8} {bound : Nat}
    (hbound : u32 (u32 (out.length + (2 ^ 32 - 1)) + (2 ^ 32 - 1)) = bound)
    {post : Bool → List UInt8 → Prop}
    (hprinted : Printed bound [] out ((Numeral.digits baseParam number.val).map Numeral.symbol)
      post early) :
    (tostring256 number baseParam out.length).wp safe out post early := by
  have hfit : number.val < baseParam ^ 256 :=
    number.val_lt.trans_le (Nat.pow_le_pow_left hmin 256)
  unfold tostring256
  rw [if_neg (by omega)]
  have hsmall : ([] : List UInt8).length + 256 < 2 ^ 32 := by
    rw [List.length_nil]
    decide
  exact wp_tostringLoop (val_base baseParam (by omega)) hmin hmax hbound hfit (by decide)
    hsmall (Nat.zero_le _) hprinted

/-- Printing ends with the numeral and a terminator when they fit, and otherwise
returns false; it never writes outside the buffer. -/
theorem wp_tostring256 {number : Uint256} {baseParam : Nat} (hmin : 2 ≤ baseParam)
    (hmax : baseParam ≤ 16) {out : List UInt8} (hout : 2 ≤ out.length)
    (hout' : out.length < 2 ^ 32) {post : Bool → List UInt8 → Prop}
    (hpost : if (Numeral.text baseParam number.val).length < out.length then
        post true (Numeral.text baseParam number.val ++
          0 :: out.drop ((Numeral.text baseParam number.val).length + 1))
      else ∀ buffer : List UInt8, buffer.length = out.length → post false buffer) :
    (tostring256 number baseParam out.length).wp safe out post early := by
  refine wp_tostring256_printed hmin hmax (u32_pred_pred hout hout') ?_
  have hlength : (Numeral.text baseParam number.val).length =
      (Numeral.digits baseParam number.val).length := Numeral.text_length _ _
  have htext : (([] : List UInt8) ++ (Numeral.digits baseParam number.val).map
      Numeral.symbol).reverse = Numeral.text baseParam number.val := by
    rw [List.nil_append, ← List.map_reverse, Numeral.text]
  rw [hlength] at hpost
  rw [Printed, htext, List.length_map, List.length_nil, Nat.zero_add, Nat.zero_add]
  split
  next hfits =>
    have hroom : (Numeral.digits baseParam number.val).length < out.length := by omega
    rw [if_pos hroom] at hpost ⊢
    exact hpost
  next hlong =>
    rw [if_neg (by omega)] at hpost
    rw [if_pos (by omega)]
    exact hpost

end Digits

end LedgerMatrix
