import Mathlib.Algebra.Group.Nat.Defs
import Mathlib.Data.Nat.Size
import Mathlib.Tactic.ByContra

/-! # Loops

A loop that may not terminate is run with a number of passes it is allowed to
take; `none` means that the passes ran out. The rule `whileLoop_spec` asks for
an invariant and a variant, and gives a result for every sufficient number of
passes, so a proof about the result also proves termination.
-/

namespace Imperative

variable {σ : Type}

/-- Run `body` while `cond` holds, for at most `passes` passes. -/
def whileLoop (cond : σ → Bool) (body : σ → σ) : Nat → σ → Option σ
  | 0, s => if cond s then none else some s
  | passes + 1, s => if cond s then whileLoop cond body passes (body s) else some s

variable {cond : σ → Bool} {body : σ → σ}

theorem whileLoop_of_not {s : σ} (h : cond s = false) (passes : Nat) :
    whileLoop cond body passes s = some s := by
  cases passes <;> simp [whileLoop, h]

theorem whileLoop_of_cond {s : σ} (h : cond s = true) (passes : Nat) :
    whileLoop cond body (passes + 1) s = whileLoop cond body passes (body s) := by
  simp [whileLoop, h]

/-- An invariant that every pass keeps, and a variant that every pass decreases
and that the allowed passes cover, give a final state where the invariant holds
and the condition fails. -/
theorem whileLoop_spec (invariant : σ → Prop) (variant : σ → Nat)
    (hstep : ∀ s, invariant s → cond s = true →
      invariant (body s) ∧ variant (body s) < variant s)
    {s : σ} (hinit : invariant s) {passes : Nat} (hpasses : variant s ≤ passes) :
    ∃ t, whileLoop cond body passes s = some t ∧ invariant t ∧ cond t = false := by
  induction passes generalizing s with
  | zero =>
      cases hcond : cond s with
      | false => exact ⟨s, whileLoop_of_not hcond 0, hinit, hcond⟩
      | true =>
          have hless := (hstep s hinit hcond).2
          omega
  | succ passes ih =>
      cases hcond : cond s with
      | false => exact ⟨s, whileLoop_of_not hcond _, hinit, hcond⟩
      | true =>
          obtain ⟨hkeep, hless⟩ := hstep s hinit hcond
          rw [whileLoop_of_cond hcond]
          exact ih hkeep (by omega)

/-- A loop whose states another loop mirrors ends in the mirrored state. -/
theorem whileLoop_map {τ : Type} {mirror : σ → τ} {cond' : τ → Bool} {body' : τ → τ}
    (hcond : ∀ s, cond' (mirror s) = cond s) (hbody : ∀ s, body' (mirror s) = mirror (body s))
    (passes : Nat) (s : σ) :
    whileLoop cond' body' passes (mirror s) = (whileLoop cond body passes s).map mirror := by
  induction passes generalizing s with
  | zero =>
      simp only [whileLoop, hcond]
      split <;> rfl
  | succ passes ih =>
      simp only [whileLoop, hcond, hbody, ih]
      split <;> rfl

/-- A loop that halves a number to zero counts the bits of the number. -/
theorem whileLoop_halve (measure : σ → Nat) (cond : σ × Nat → Bool)
    (half : σ → σ) (hcond : ∀ s n, cond (s, n) = true ↔ measure s ≠ 0)
    (hhalf : ∀ s, measure (half s) = measure s / 2) {s : σ} {bits : Nat}
    (hbits : (measure s).size ≤ bits) (count : Nat) :
    (whileLoop cond (fun t => (half t.1, t.2 + 1)) bits (s, count)).map Prod.snd =
      some (count + (measure s).size) := by
  -- halving a number that is not zero takes one bit off
  have hsize (s : σ) (hne : measure s ≠ 0) :
      (measure s).size = (measure (half s)).size + 1 := by
    have hle : (measure s).size ≤ (measure (half s)).size + 1 := by
      rw [Nat.size_le, Nat.pow_succ', hhalf]
      have := Nat.lt_size_self (measure s / 2)
      omega
    have hge : (measure (half s)).size + 1 ≤ (measure s).size := by
      have hpos := Nat.size_pos.mpr (Nat.pos_of_ne_zero hne)
      have hhalved : (measure (half s)).size ≤ (measure s).size - 1 := by
        rw [Nat.size_le, hhalf, Nat.div_lt_iff_lt_mul (by decide), ← Nat.pow_succ,
          Nat.succ_eq_add_one, Nat.sub_add_cancel hpos]
        exact Nat.lt_size_self _
      omega
    omega
  have hpass : ∀ t : σ × Nat, t.2 + (measure t.1).size = count + (measure s).size →
      cond t = true → t.2 + 1 + (measure (half t.1)).size = count + (measure s).size ∧
        (measure (half t.1)).size < (measure t.1).size := by
    intro t htotal hgo
    have hstep := hsize t.1 ((hcond t.1 t.2).mp hgo)
    omega
  obtain ⟨t, hrun, htotal, hstop⟩ :
      ∃ t, whileLoop cond (fun t => (half t.1, t.2 + 1)) bits (s, count) = some t ∧
        t.2 + (measure t.1).size = count + (measure s).size ∧ cond t = false :=
    whileLoop_spec (fun t : σ × Nat => t.2 + (measure t.1).size = count + (measure s).size)
      (fun t : σ × Nat => (measure t.1).size) hpass rfl hbits
  have hzero : measure t.1 = 0 := by
    by_contra hne
    rw [(hcond t.1 t.2).mpr hne] at hstop
    cases hstop
  rw [hrun, Option.map_some, ← htotal, hzero]
  rfl

/-! ## Loops over places -/

/-- A loop over different indices that changes at each one what belongs to it. -/
theorem foldl_view {ι σ β : Type} [DecidableEq ι] {view : ι → σ → β} {body : ι → σ → σ}
    {change : ι → β → β}
    (hbody : ∀ i s j, view j (body i s) = if j = i then change i (view i s) else view j s)
    {indices : List ι} (h : indices.Nodup) (s : σ) (j : ι) :
    view j (indices.foldl (fun s i => body i s) s) =
      if j ∈ indices then change j (view j s) else view j s := by
  induction indices generalizing s with
  | nil => simp
  | cons i indices ih =>
      obtain ⟨hnot, hrest⟩ := List.nodup_cons.mp h
      rw [List.foldl_cons, ih hrest, hbody]
      by_cases hj : j = i
      · subst hj
        simp [hnot]
      · simp [hj]

theorem get_set {α : Type} {n : Nat} (v : Vector α n) (i j : Fin n) (value : α) :
    (v.set i value i.isLt).get j = if j = i then value else v.get j := by
  have hset : (v.set i value i.isLt).get j = if i.val = j.val then value else v.get j :=
    Vector.getElem_set ..
  rw [hset]
  simp only [Fin.ext_iff, eq_comm]

/-- One pass of a loop that hands a value on: it is put in a place, and what was
there is handed on. -/
def handOn {ι α : Type} {n : Nat} (place : ι → Fin n) (turn : ι → α → α) (s : Vector α n × α)
    (i : ι) : Vector α n × α :=
  (s.1.set (place i) (turn i s.2) (place i).isLt, s.1.get (place i))

/-- A loop that hands a value on through different places moves what was in each
to the next one. -/
theorem foldl_handOn {ι α : Type} {n : Nat} {place : ι → Fin n} (turn : ι → α → α)
    {steps : List ι} (h : (steps.map place).Nodup) (v : Vector α n) (t : α) :
    steps.map (fun i => (steps.foldl (handOn place turn) (v, t)).1.get (place i)) =
        List.zipWith turn steps (t :: steps.map fun i => v.get (place i)) ∧
      ∀ j ∉ steps.map place, (steps.foldl (handOn place turn) (v, t)).1.get j = v.get j := by
  induction steps generalizing v t with
  | nil => exact ⟨rfl, fun _ _ => rfl⟩
  | cons i steps ih =>
      obtain ⟨hnot, hrest⟩ := List.nodup_cons.mp h
      obtain ⟨hmoved, hkept⟩ :=
        ih hrest (v.set (place i) (turn i t) (place i).isLt) (v.get (place i))
      have hsame : ∀ j, j ≠ place i → (v.set (place i) (turn i t) (place i).isLt).get j = v.get j :=
        fun j hj => by rw [get_set, if_neg hj]
      have hold : steps.map (fun k => (v.set (place i) (turn i t) (place i).isLt).get (place k)) =
          steps.map fun k => v.get (place k) :=
        List.map_congr_left fun k hk => hsame _ fun heq => hnot (heq ▸ List.mem_map_of_mem hk)
      rw [List.foldl_cons, handOn]
      refine ⟨?_, fun j hj => ?_⟩
      · rw [List.map_cons, List.map_cons, List.zipWith_cons_cons, hmoved, hold, hkept _ hnot,
          get_set, if_pos rfl]
      · rw [List.map_cons, List.mem_cons, not_or] at hj
        rw [hkept j hj.2, hsame j hj.1]

end Imperative
