import LedgerMatrix.Foundation.Keccak
import LedgerMatrix.Foundation.Loop

/-! # The permutation of the hash

`keccakf` works in place, with the places and the rotations of the lanes in tables
and five words of scratch. It computes the permutation of twenty-four rounds.
-/

namespace LedgerMatrix.KeccakTiny

open Imperative
open scoped Keccak

/-- A 64-bit word of the state. -/
abbrev Lane : Type := BitVec 64

/-- The rotations, in the order in which the lanes are moved. -/
def rho : Vector Nat 24 :=
  #v[1, 3, 6, 10, 15, 21, 28, 36, 45, 55, 2, 14, 27, 41, 56, 8, 25, 43, 62, 18, 39, 61, 20, 44]

/-- The lanes, in that order. -/
def pi : Vector (Fin 25) 24 :=
  #v[10, 7, 11, 17, 18, 3, 5, 16, 8, 21, 24, 4, 15, 23, 19, 13, 12, 2, 20, 14, 22, 9, 6, 1]

/-- `RC`, the constants of the rounds. -/
def rc : Vector Lane 24 :=
  #v[1, 0x8082, 0x800000000000808a, 0x8000000080008000, 0x808b, 0x80000001, 0x8000000080008081,
    0x8000000000008009, 0x8a, 0x88, 0x80008009, 0x8000000a, 0x8000808b, 0x800000000000008b,
    0x8000000000008089, 0x8000000000008003, 0x8000000000008002, 0x8000000000000080, 0x800a,
    0x800000008000000a, 0x8000000080008081, 0x8000000000008080, 0x80000001, 0x8000000080008008]

def rol (x : Lane) (s : Nat) : Lane := x <<< s ||| x >>> (64 - s)

/-- `FOR5`: the body for each of five values. -/
def for5 {σ : Type} (body : Fin 5 → σ → σ) (s : σ) : σ :=
  [0, 1, 2, 3, 4].foldl (fun s v => body v s) s

/-- The index `y + x` of a lane, where the loops count `y` by fives. -/
def lane (x y : Fin 5) : Fin 25 := ⟨5 * y.val + x.val, by omega⟩

/-- The variables of `keccakf`. -/
structure Work where
  a : Vector Lane 25
  b : Vector Lane 5
  t : Lane

/-- The first loop of theta: the sums of the columns. -/
def sumColumns (a : Vector Lane 25) (b : Vector Lane 5) : Vector Lane 5 :=
  for5 (fun x b => for5 (fun y b => b.set x (b.get x ^^^ a.get (lane x y))) (b.set x 0)) b

/-- The second loop of theta. -/
def mixColumns (b : Vector Lane 5) (a : Vector Lane 25) : Vector Lane 25 :=
  for5 (fun x a => for5 (fun y a => a.set (lane x y)
    (a.get (lane x y) ^^^ (b.get (x + 4) ^^^ rol (b.get (x + 1)) 1))) a) a

def theta (s : Work) : Work :=
  let b := sumColumns s.a s.b
  { s with a := mixColumns b s.a, b := b }

/-- Rho and pi, for one lane: `b[0]` holds what the lane was. -/
def rhoPiStep (s : Work) (x : Fin 24) : Work :=
  let b := s.b.set 0 (s.a.get (pi.get x))
  { a := s.a.set (pi.get x) (rol s.t (rho.get x)), b := b, t := b.get 0 }

def rhoPi (s : Work) : Work := (List.finRange 24).foldl rhoPiStep { s with t := s.a.get 1 }

/-- Chi, for one row. -/
def chiRow (y : Fin 5) (s : Work) : Work :=
  let b := for5 (fun x b => b.set x (s.a.get (lane x y))) s.b
  { s with
    a := for5 (fun x a => a.set (lane x y) (b.get x ^^^ (~~~b.get (x + 1) &&& b.get (x + 2)))) s.a
    b := b }

def chi (s : Work) : Work := for5 chiRow s

def iota (i : Fin 24) (s : Work) : Work := { s with a := s.a.set 0 (s.a.get 0 ^^^ rc.get i) }

def round (s : Work) (i : Fin 24) : Work := iota i (chi (rhoPi (theta s)))

def keccakf (state : Vector Lane 25) : Vector Lane 25 :=
  ((List.finRange 24).foldl round ⟨state, Vector.replicate 5 0, 0⟩).a

/-! ## The steps -/

/-- The lanes of a state at their coordinates. -/
def lanes (a : Vector Lane 25) : Keccak.Lanes 64 := fun x y => a.get (lane x y)

theorem lane_inj : ∀ {x y x' y' : Fin 5}, lane x y = lane x' y' ↔ x = x' ∧ y = y' := by decide

theorem lanes_injective : Function.Injective lanes := by
  have hlane : ∀ i : Fin 25, ∃ x y, lane x y = i := by decide
  intro a b h
  apply Vector.ext
  intro i hi
  obtain ⟨x, y, hxy⟩ := hlane ⟨i, hi⟩
  have hget := congrFun (congrFun h x) y
  rw [lanes, lanes, hxy] at hget
  exact hget

/-- A loop over five values that changes for each one what belongs to it. -/
theorem view_for5 {σ β : Type} {view : Fin 5 → σ → β} {body : Fin 5 → σ → σ}
    {change : Fin 5 → β → β}
    (hbody : ∀ i s j, view j (body i s) = if j = i then change i (view i s) else view j s)
    (s : σ) (j : Fin 5) : view j (for5 body s) = change j (view j s) := by
  have hmem : ∀ j : Fin 5, j ∈ [0, 1, 2, 3, 4] := by decide
  rw [for5, foldl_view hbody (by decide), if_pos (hmem j)]

/-- A loop over five different places of a state. -/
theorem get_for5 {place : Fin 5 → Fin 25} (hplace : Function.Injective place)
    (change : Fin 5 → Lane → Lane) (a : Vector Lane 25) :
    let last := for5 (fun v a => a.set (place v) (change v (a.get (place v)))) a
    (∀ v, last.get (place v) = change v (a.get (place v))) ∧
      ∀ j, (∀ v, j ≠ place v) → last.get j = a.get j := by
  constructor
  · refine @view_for5 _ _ (fun v (a : Vector Lane 25) => a.get (place v)) _ change
      (fun i a j => ?_) a
    rw [get_set]
    simp only [hplace.eq_iff]
  · intro j hj
    simp only [for5, List.foldl_cons, List.foldl_nil, get_set, if_neg (hj _)]

theorem rol_eq_rotateLeft (x : Lane) {s : Nat} (h : s < 64) : rol x s = x.rotateLeft s := by
  rw [BitVec.rotateLeft_def, Nat.mod_eq_of_lt h, rol]

theorem sumColumns_get (a : Vector Lane 25) (b : Vector Lane 5) (x : Fin 5) :
    (sumColumns a b).get x = Keccak.parity (lanes a) x := by
  refine @view_for5 _ _ (fun x (b : Vector Lane 5) => b.get x) _
    (fun x _ => Keccak.parity (lanes a) x) (fun i b j => ?_) b x
  simp only [for5, List.foldl_cons, List.foldl_nil, get_set, if_true]
  split
  · simp [Keccak.parity, lanes]
  · rfl

theorem lanes_mixColumns (b : Vector Lane 5) (a : Vector Lane 25) (x y : Fin 5) :
    lanes (mixColumns b a) x y = lanes a x y ^^^ (b.get (x + 4) ^^^ rol (b.get (x + 1)) 1) := by
  refine congrFun (@view_for5 _ _ (fun x a y => lanes a x y) _ (fun x column y =>
    column y ^^^ (b.get (x + 4) ^^^ rol (b.get (x + 1)) 1)) (fun i a j => ?_) a x) y
  have hplace : Function.Injective (lane i) := fun y y' h => (lane_inj.mp h).2
  obtain ⟨hcolumn, hother⟩ := get_for5 hplace
    (fun _ value => value ^^^ (b.get (i + 4) ^^^ rol (b.get (i + 1)) 1)) a
  split
  next heq =>
    subst heq
    exact funext hcolumn
  next hne => exact funext fun y => hother _ fun y' heq => hne (lane_inj.mp heq).1

theorem lanes_theta (s : Work) : lanes (theta s).a = Keccak.theta (lanes s.a) := by
  funext x y
  have hbefore : x + 4 = x - 1 := by decide +revert
  rw [theta, lanes_mixColumns, sumColumns_get, sumColumns_get, rol_eq_rotateLeft _ (by decide),
    hbefore]
  rfl

/-- The lane that is moved before the one at `x`, which is handed its value. -/
def source (x : Fin 24) : Fin 25 := if x.val = 0 then 1 else pi.get (x - 1)

/-- Every lane but the one at the origin is moved, from where the permutation takes
it and by its offset. -/
theorem exists_move : ∀ x y : Fin 5, (x = 0 ∧ y = 0) ∨ ∃ k : Fin 24, pi.get k = lane x y ∧
    source k = lane (x + 3 * y) x ∧ rho.get k = Keccak.offset (x + 3 * y) x % 64 := by
  decide +kernel

/-- The scratch word hands each lane on to the next place. -/
theorem foldl_rhoPiStep (steps : List (Fin 24)) (s : Work) :
    ((steps.foldl rhoPiStep s).a, (steps.foldl rhoPiStep s).t) =
      steps.foldl (handOn pi.get fun x value => rol value (rho.get x)) (s.a, s.t) := by
  induction steps generalizing s with
  | nil => rfl
  | cons x steps ih =>
      have hscratch : (s.b.set 0 (s.a.get (pi.get x))).get 0 = s.a.get (pi.get x) :=
        (get_set s.b 0 0 _).trans (if_pos rfl)
      rw [List.foldl_cons, List.foldl_cons, ih]
      simp only [rhoPiStep, handOn, hscratch]

theorem rhoPi_get (s : Work) (k : Fin 24) :
    (rhoPi s).a.get (pi.get k) = rol (s.a.get (source k)) (rho.get k) := by
  have hnodup : ((List.finRange 24).map pi.get).Nodup := by decide
  have hfold := foldl_rhoPiStep (List.finRange 24) { s with t := s.a.get 1 }
  have hmoved := (foldl_handOn (fun x value => rol value (rho.get x)) hnodup s.a (s.a.get 1)).1
  rw [← hfold] at hmoved
  have hplace := congrArg (fun values => values[k.val]?) hmoved
  have hsource : ((s.a.get 1) :: (List.finRange 24).map fun i => s.a.get (pi.get i))[k.val]? =
      some (s.a.get (source k)) := by
    obtain ⟨k, hk⟩ := k
    cases k with
    | zero => rfl
    | succ k =>
        have hprevious : (⟨k + 1, hk⟩ - 1 : Fin 24) = ⟨k, by omega⟩ := by
          apply Fin.ext
          simp [Fin.sub_def]
          omega
        have hlt : k < (List.finRange 24).length := by
          rw [List.length_finRange]
          omega
        rw [source, if_neg (Nat.succ_ne_zero k), hprevious, List.getElem?_cons_succ,
          List.getElem?_map, List.getElem?_eq_getElem hlt]
        simp
  simp only [List.getElem?_map, List.getElem?_zipWith, hsource] at hplace
  unfold rhoPi
  simpa using hplace

theorem rhoPi_get_zero (s : Work) : (rhoPi s).a.get 0 = s.a.get 0 := by
  have hnodup : ((List.finRange 24).map pi.get).Nodup := by decide
  have hfold := foldl_rhoPiStep (List.finRange 24) { s with t := s.a.get 1 }
  have hkept := (foldl_handOn (fun x value => rol value (rho.get x)) hnodup s.a (s.a.get 1)).2
  rw [← hfold] at hkept
  exact hkept 0 (by decide)

theorem lanes_rhoPi (s : Work) : lanes (rhoPi s).a = Keccak.pi (Keccak.rho (lanes s.a)) := by
  have hsmall : ∀ k : Fin 24, rho.get k < 64 := by decide
  funext x y
  rcases exists_move x y with ⟨rfl, rfl⟩ | ⟨k, hplace, hsource, hoffset⟩
  · -- the lane at the origin stays, and its offset is zero
    have hzero : Keccak.offset 0 0 = 0 := by decide +kernel
    have hstays : Keccak.pi (Keccak.rho (lanes s.a)) 0 0 = (s.a.get 0).rotateLeft 0 := by
      rw [← hzero]
      rfl
    rw [hstays, Keccak.rotateLeft_of_dvd _ (dvd_zero 64)]
    exact rhoPi_get_zero s
  · rw [lanes, ← hplace, rhoPi_get, hsource, rol_eq_rotateLeft _ (hsmall k), hoffset,
      BitVec.rotateLeft_mod_eq_rotateLeft]
    rfl

theorem lanes_chi (s : Work) : lanes (chi s).a = Keccak.chi (lanes s.a) := by
  funext x y
  refine congrFun (@view_for5 _ _ (fun y (s : Work) x => lanes s.a x y) _ (fun _ row x =>
    row x ^^^ (~~~row (x + 1) &&& row (x + 2))) (fun i s j => ?_) s y) x
  have hplace : Function.Injective fun x => lane x i := fun _ _ h => (lane_inj.mp h).1
  have hb : ∀ x, (for5 (fun x b => b.set x (s.a.get (lane x i))) s.b).get x = s.a.get (lane x i) :=
    @view_for5 _ _ (fun x (b : Vector Lane 5) => b.get x) _
      (fun x _ => s.a.get (lane x i)) (fun i b j => get_set b i j _) s.b
  obtain ⟨hrow, hother⟩ := get_for5 hplace
    (fun x value => s.a.get (lane x i) ^^^
      (~~~s.a.get (lane (x + 1) i) &&& s.a.get (lane (x + 2) i))) s.a
  simp only [chiRow, hb]
  split
  next heq =>
    subst heq
    exact funext hrow
  next hne => exact funext fun x => hother _ fun x' heq => hne (lane_inj.mp heq).2

theorem lanes_iota (i : Fin 24) (s : Work) :
    lanes (iota i s).a = Keccak.iota (Keccak.roundConstant 64 i) (lanes s.a) := by
  have hconstant : ∀ i : Fin 24, rc.get i = Keccak.roundConstant 64 i := by decide +kernel
  funext x y
  have horigin : (x, y) = ((0, 0) : Fin 5 × Fin 5) ↔ lane x y = 0 := by decide +revert
  have hset : lanes (iota i s).a x y =
      if lane x y = 0 then s.a.get 0 ^^^ rc.get i else lanes s.a x y := get_set s.a 0 (lane x y) _
  rw [hset, hconstant, Keccak.iota]
  simp only [horigin]
  split
  next heq => rw [← heq, lanes]
  next => rfl

theorem lanes_round (s : Work) (i : Fin 24) :
    lanes (round s i).a = Keccak.round i (lanes s.a) := by
  rw [round, lanes_iota, lanes_chi, lanes_rhoPi, lanes_theta, Keccak.round]

/-- The code computes the permutation of twenty-four rounds. -/
theorem lanes_keccakf (a : Vector Lane 25) :
    lanes (keccakf a) = Keccak.permutation 24 (lanes a) := by
  have hrounds : ∀ (indices : List (Fin 24)) (s : Work), lanes (indices.foldl round s).a =
      (indices.map Fin.val).foldl (fun a index => Keccak.round index a) (lanes s.a) := by
    intro indices
    induction indices with
    | nil => exact fun _ => rfl
    | cons i indices ih =>
        intro s
        rw [List.foldl_cons, ih, lanes_round, List.map_cons, List.foldl_cons]
  rw [keccakf, hrounds, Keccak.permutation, List.map_coe_finRange_eq_range]

/-- The code computes Keccak-f[1600], the permutation that is made of the five steps,
and no two states end in the same one. -/
theorem keccakf_permutes : (∀ a, lanes (keccakf a) = Keccak.permutation 24 (lanes a)) ∧
    Function.Bijective keccakf := by
  have hwidth : 64 ∣ 4 ^ 3 := dvd_refl 64
  have hinjective : Function.Injective keccakf := by
    intro a b h
    have hlanes := congrArg lanes h
    rw [lanes_keccakf, lanes_keccakf] at hlanes
    exact lanes_injective (Keccak.permutation_injective hwidth 24 hlanes)
  have hfinite : Finite (Vector Lane 25) := Finite.of_injective lanes lanes_injective
  exact ⟨lanes_keccakf, Finite.injective_iff_bijective.mp hinjective⟩

end LedgerMatrix.KeccakTiny
