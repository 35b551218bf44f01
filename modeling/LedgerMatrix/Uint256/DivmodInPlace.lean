import LedgerMatrix.Uint256.Divmod128
import LedgerMatrix.Uint256.Writes

/-! # Division through pointers

The division functions read the dividend and the divisor through pointers and
write the quotient and the remainder through two others. The printing functions
let the quotient take the place of the dividend. All that is read of it is read
before the quotient is written, so the call gives the same result.
-/

namespace LedgerMatrix

open Imperative

namespace Writes

open Command

variable {σ α : Type}

/-- The end of a division. When the divisor is above the dividend, the dividend
is copied before the quotient is cleared. -/
def giveBack (copy : Lens σ α → Lens σ α → Writes σ Unit) (clear : Lens σ α → Writes σ Unit)
    (l retDiv retMod : Lens σ α) (above : Bool) (results : Option (α × α)) : Writes σ Unit :=
  if above then do
    copy retMod l
    clear retDiv
  else match results with
    | some (resDiv, resMod) => do
        store retDiv resDiv
        store retMod resMod
    | none => stop .noTermination

def divmod256 (l r retDiv retMod : Lens σ Uint256) : Writes σ Unit := do
  let dividend ← fetch l
  let divisor ← fetch r
  match bits256 dividend, bits256 divisor with
  | some lBits, some rBits =>
      giveBack copy256 clear256 l retDiv retMod (gt256 divisor dividend)
        ((whileLoop (fun s => gte256 s.resMod divisor) divmodPass 256
          (divmodStart dividend divisor (difference lBits rBits))).map fun s =>
            (s.resDiv, s.resMod))
  | _, _ => stop .noTermination

def divmod128 (l r retDiv retMod : Lens σ Uint128) : Writes σ Unit := do
  let dividend ← fetch l
  let divisor ← fetch r
  match bits128 dividend, bits128 divisor with
  | some lBits, some rBits =>
      giveBack copy128 clear128 l retDiv retMod (gt128 divisor dividend)
        ((whileLoop (fun s => gte128 s.resMod divisor) divmodPass128 256
          (divmodStart128 dividend divisor (difference lBits rBits))).map fun s =>
            (s.resDiv, s.resMod))
  | _, _ => stop .noTermination

end Writes

/-- The call ends with quotient and remainder in the objects they are returned
in, and changes no other object. The quotient may take the place of the dividend
or of the divisor. -/
def Returns {α : Type} (call : Lens (Nat → α) α → Lens (Nat → α) α → Lens (Nat → α) α →
    Lens (Nat → α) α → Writes (Nat → α) Unit) (dividend divisor quotient remainder : α) : Prop :=
  ∀ (memory : Nat → α) (l r retDiv retMod : Nat), memory l = dividend → memory r = divisor →
    retDiv ≠ retMod →
    ∃ after, (call (.object l) (.object r) (.object retDiv) (.object retMod)).outcome memory =
        .done () after ∧ after retDiv = quotient ∧ after retMod = remainder ∧
      ∀ other, other ≠ retDiv → other ≠ retMod → after other = memory other

section GiveBack

variable {α : Type} {copy : Lens (Nat → α) α → Lens (Nat → α) α → Writes (Nat → α) Unit}
  {clear : Lens (Nat → α) α → Writes (Nat → α) Unit}

/-- What `giveBack` leaves in a memory, for a copy and a clear that do what
their names say. -/
theorem giveBack_outcome (zero : α)
    (hcopy : ∀ (target number : Nat) (memory : Nat → α),
      (copy (.object target) (.object number)).wp (fun _ => True) memory
        (fun _ after => after = Function.update memory target (memory number)) fun _ _ => False)
    (hclear : ∀ (target : Nat) (memory : Nat → α),
      (clear (.object target)).wp (fun _ => True) memory
        (fun _ after => after = Function.update memory target zero) fun _ _ => False)
    {memory : Nat → α} {l retDiv retMod : Nat} (hne : retDiv ≠ retMod) {above : Bool}
    {results : Option (α × α)} {quotient remainder : α}
    (hresult : (if above then some (zero, memory l) else results) = some (quotient, remainder)) :
    (Writes.giveBack copy clear (.object l) (.object retDiv) (.object retMod) above results).wp
      (fun _ => True) memory (fun _ after => after retDiv = quotient ∧ after retMod = remainder ∧
        ∀ other, other ≠ retDiv → other ≠ retMod → after other = memory other)
      fun _ _ => False := by
  unfold Writes.giveBack
  split
  next habove =>
    rw [if_pos habove, Option.some.injEq, Prod.mk.injEq] at hresult
    obtain ⟨rfl, rfl⟩ := hresult
    rw [Command.wp_bind]
    refine (hcopy retMod l memory).mono (fun _ copied hcopied => ?_) fun _ _ hfalse => hfalse
    refine (hclear retDiv copied).mono (fun _ after hafter => ?_) fun _ _ hfalse => hfalse
    subst hcopied hafter
    refine ⟨by simp, by simp [hne.symm], fun other hdiv hmod => by simp [hdiv, hmod]⟩
  next habove =>
    rw [if_neg habove] at hresult
    rw [hresult]
    simp only [Command.wp_bind, Command.wp_store, Lens.object_set]
    exact ⟨by simp [hne], by simp, fun other hdiv hmod => by simp [hdiv, hmod]⟩

end GiveBack

theorem divmod256_returns {l r q m : Uint256} (h : divmod256 l r = some (q, m)) :
    Returns Writes.divmod256 l r q m := by
  intro memory lP rP retDiv retMod hl hr hne
  have hcall : (Writes.divmod256 (.object lP) (.object rP) (.object retDiv) (.object retMod)).wp
      (fun _ => True) memory (fun _ after => after retDiv = q ∧ after retMod = m ∧
        ∀ other, other ≠ retDiv → other ≠ retMod → after other = memory other)
      fun _ _ => False := by
    unfold divmod256 at h
    rw [bits256_eq, bits256_eq] at h
    simp only [Writes.divmod256, Command.wp_bind, Command.wp_fetch, Lens.object_get, hl, hr,
      bits256_eq]
    refine giveBack_outcome clear256 ?_ ?_ hne ?_
    · intro target number memory
      exact (Writes.wp_copy256 (Lens.object_lawful target) (.object number target)).mpr rfl
    · intro target memory
      exact (Writes.wp_clear256 (Lens.object_lawful target)).mpr rfl
    · rw [hl, ← h]
      rfl
  obtain ⟨_, after, hend, hafter⟩ := hcall.exists_done
  exact ⟨after, hend, hafter⟩

theorem divmod128_returns {l r q m : Uint128} (h : divmod128 l r = some (q, m)) :
    Returns Writes.divmod128 l r q m := by
  intro memory lP rP retDiv retMod hl hr hne
  have hcall : (Writes.divmod128 (.object lP) (.object rP) (.object retDiv) (.object retMod)).wp
      (fun _ => True) memory (fun _ after => after retDiv = q ∧ after retMod = m ∧
        ∀ other, other ≠ retDiv → other ≠ retMod → after other = memory other)
      fun _ _ => False := by
    unfold divmod128 at h
    rw [bits128_eq, bits128_eq] at h
    simp only [Writes.divmod128, Command.wp_bind, Command.wp_fetch, Lens.object_get, hl, hr,
      bits128_eq]
    refine giveBack_outcome clear128 ?_ ?_ hne ?_
    · intro target number memory
      exact (Writes.wp_copy128 (Lens.object_lawful target) (.object number target)).mpr rfl
    · intro target memory
      exact (Writes.wp_clear128 (Lens.object_lawful target)).mpr rfl
    · rw [hl, ← h]
      rfl
  obtain ⟨_, after, hend, hafter⟩ := hcall.exists_done
  exact ⟨after, hend, hafter⟩

/-- Division by a nonzero number ends with the Euclidean quotient and remainder,
at both widths, and also when the quotient takes the place of the dividend. -/
theorem divmod_euclidean {l r : Uint256} (hr : r.val ≠ 0) {c d : Uint128} (hd : d.val ≠ 0) :
    (∃ q m, divmod256 l r = some (q, m) ∧ l.val = q.val * r.val + m.val ∧ m.val < r.val ∧
      Returns Writes.divmod256 l r q m) ∧
    ∃ q m, divmod128 c d = some (q, m) ∧ c.val = q.val * d.val + m.val ∧ m.val < d.val ∧
      Returns Writes.divmod128 c d q m := by
  obtain ⟨q, m, hrun, hq, hm⟩ := divmod256_spec (l := l) (Nat.pos_of_ne_zero hr)
  obtain ⟨q', m', hrun', hq', hm'⟩ := divmod128_spec (l := c) (Nat.pos_of_ne_zero hd)
  refine ⟨⟨q, m, hrun, ?_, ?_, divmod256_returns hrun⟩,
    q', m', hrun', ?_, ?_, divmod128_returns hrun'⟩
  · rw [hq, hm, Nat.mul_comm, Nat.div_add_mod]
  · rw [hm]
    exact Nat.mod_lt _ (Nat.pos_of_ne_zero hr)
  · rw [hq', hm', Nat.mul_comm, Nat.div_add_mod]
  · rw [hm']
    exact Nat.mod_lt _ (Nat.pos_of_ne_zero hd)

theorem divmod_euclidean_ten :
    (∃ q m, divmod256 ⟨clear128, ⟨0, 1234⟩⟩ ⟨clear128, ⟨0, 10⟩⟩ = some (q, m) ∧
      (⟨clear128, ⟨0, 1234⟩⟩ : Uint256).val = q.val * (⟨clear128, ⟨0, 10⟩⟩ : Uint256).val + m.val ∧
      m.val < (⟨clear128, ⟨0, 10⟩⟩ : Uint256).val ∧
      Returns Writes.divmod256 ⟨clear128, ⟨0, 1234⟩⟩ ⟨clear128, ⟨0, 10⟩⟩ q m) ∧
    ∃ q m, divmod128 ⟨7, 1⟩ ⟨0, 10⟩ = some (q, m) ∧
      (⟨7, 1⟩ : Uint128).val = q.val * (⟨0, 10⟩ : Uint128).val + m.val ∧
      m.val < (⟨0, 10⟩ : Uint128).val ∧ Returns Writes.divmod128 ⟨7, 1⟩ ⟨0, 10⟩ q m :=
  divmod_euclidean (by decide) (by decide)

end LedgerMatrix
