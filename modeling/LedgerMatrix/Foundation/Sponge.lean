import Mathlib.Data.List.Basic
import Mathlib.Data.List.Induction
import Mathlib.Data.List.Infix
import Mathlib.Logic.Function.Iterate
import Mathlib.Tactic.Common

/-! # Sponges

A state is a part that blocks are added to and a part that they do not reach. The
blocks of a message are added one after the other, with a permutation after each,
and output is taken off a block at a time. Messages that end in the same state
have met before in the part that blocks do not reach, unless one of them came back
to where it began. A message is filled up to whole blocks by a one, zeros and a
one, which can be taken off again.
-/

/-- What a sponge is made of: the permutation, how a block is added to a state, and
the part of a state that blocks do not reach. -/
structure Sponge (S B C : Type) where
  permute : S → S
  mix : B → S → S
  inner : S → C
  permute_injective : Function.Injective permute
  inner_mix : ∀ block s, inner (mix block s) = inner s
  mix_injective : ∀ s, Function.Injective fun block => mix block s

namespace Sponge

variable {S B C : Type} (sponge : Sponge S B C)

/-! ## Absorbing -/

/-- Add the blocks to a state. -/
def absorb (s : S) (blocks : List B) : S :=
  blocks.foldl (fun s block => sponge.permute (sponge.mix block s)) s

theorem absorb_concat (s : S) (blocks : List B) (block : B) :
    sponge.absorb s (blocks ++ [block]) =
      sponge.permute (sponge.mix block (sponge.absorb s blocks)) := by
  simp only [absorb, List.foldl_append, List.foldl_cons, List.foldl_nil]

/-- On the way to the blocks, two states differ where blocks can be added, and
nowhere else. -/
def Meets (s : S) (first second : List B) : Prop :=
  ∃ before ∈ first.inits, ∃ before' ∈ second.inits,
    sponge.absorb s before ≠ sponge.absorb s before' ∧
    sponge.inner (sponge.absorb s before) = sponge.inner (sponge.absorb s before')

/-- Some of the blocks lead back to the state they began at. -/
def Returns (s : S) (blocks : List B) : Prop :=
  ∃ before ∈ blocks.inits, before ≠ [] ∧ sponge.absorb s before = s

instance [DecidableEq S] [DecidableEq C] (s : S) (first second : List B) :
    Decidable (sponge.Meets s first second) :=
  inferInstanceAs (Decidable (∃ _ ∈ first.inits, ∃ _ ∈ second.inits, _))

instance [DecidableEq S] (s : S) (blocks : List B) : Decidable (sponge.Returns s blocks) :=
  inferInstanceAs (Decidable (∃ _ ∈ blocks.inits, _))

variable {sponge} {s : S} {first second : List B}

theorem mem_inits_concat {before blocks : List B} (h : before ∈ blocks.inits) (block : B) :
    before ∈ (blocks ++ [block]).inits :=
  (List.mem_inits _ _).mpr (((List.mem_inits _ _).mp h).trans (List.prefix_append _ _))

theorem mem_inits_self (blocks : List B) : blocks ∈ blocks.inits :=
  (List.mem_inits _ _).mpr (List.prefix_refl _)

theorem Meets.concat (h : sponge.Meets s first second) (block block' : B) :
    sponge.Meets s (first ++ [block]) (second ++ [block']) := by
  obtain ⟨before, hbefore, before', hbefore', hdiffer⟩ := h
  exact ⟨before, mem_inits_concat hbefore _, before', mem_inits_concat hbefore' _, hdiffer⟩

theorem Returns.concat {blocks : List B} (h : sponge.Returns s blocks) (block : B) :
    sponge.Returns s (blocks ++ [block]) := by
  obtain ⟨before, hbefore, hback⟩ := h
  exact ⟨before, mem_inits_concat hbefore _, hback⟩

/-- Different blocks that lead to the same state have met before, or they are not
as many and some of them lead back to where they began. -/
theorem meets_of_absorb_eq (hne : first ≠ second)
    (h : sponge.absorb s first = sponge.absorb s second) :
    sponge.Meets s first second ∨
      first.length ≠ second.length ∧ (sponge.Returns s first ∨ sponge.Returns s second) := by
  -- the last blocks are taken off as long as they are the same
  induction first using List.reverseRecOn generalizing second with
  | nil =>
      refine .inr ⟨fun hlength => hne ?_, .inr ⟨second, mem_inits_self _, hne.symm, h.symm⟩⟩
      exact (List.length_eq_zero_iff.mp hlength.symm).symm
  | append_singleton first block ih =>
      rcases List.eq_nil_or_concat' second with rfl | ⟨second, block', rfl⟩
      · exact .inr ⟨by simp, .inl ⟨_, mem_inits_self _, hne, h⟩⟩
      rw [absorb_concat, absorb_concat] at h
      have hmix := sponge.permute_injective h
      by_cases hstate : sponge.absorb s first = sponge.absorb s second
      · rw [hstate] at hmix
        obtain rfl := sponge.mix_injective _ hmix
        rcases ih (fun heq => hne (by rw [heq])) hstate with hmeets | ⟨hlength, hreturns⟩
        · exact .inl (hmeets.concat _ _)
        · refine .inr ⟨by simpa using hlength, ?_⟩
          exact hreturns.imp (fun h => h.concat _) fun h => h.concat _
      · -- the states before the last blocks differ, and these cannot even that out inside
        refine .inl ⟨first, mem_inits_concat (mem_inits_self _) _, second,
          mem_inits_concat (mem_inits_self _) _, hstate, ?_⟩
        rw [← sponge.inner_mix block, hmix, sponge.inner_mix]

/-! ## Squeezing -/

section Output

variable {ω : Type} (sponge) (shown : S → Nat → ω) (rate : Nat)

/-- The first symbols that a state shows, `rate` of them before each permutation. -/
def output (s : S) (count : Nat) : List ω :=
  (List.range count).map fun k => shown (sponge.permute^[k / rate] s) (k % rate)

@[simp] theorem output_length (s : S) (count : Nat) :
    (sponge.output shown rate s count).length = count := by
  rw [output, List.length_map, List.length_range]

variable {rate}

/-- Fewer symbols than a block are those of the state itself. -/
theorem output_of_lt {count : Nat} (h : count ≤ rate) (s : S) :
    sponge.output shown rate s count = (List.range count).map (shown s) := by
  refine List.map_congr_left fun k hk => ?_
  have hlt : k < rate := Nat.lt_of_lt_of_le (List.mem_range.mp hk) h
  rw [Nat.div_eq_of_lt hlt, Nat.mod_eq_of_lt hlt, Function.iterate_zero_apply]

/-- A block is followed by what the permuted state shows. -/
theorem output_of_le {count : Nat} (hpos : 0 < rate) (h : rate ≤ count) (s : S) :
    sponge.output shown rate s count =
      (List.range rate).map (shown s) ++
        sponge.output shown rate (sponge.permute s) (count - rate) := by
  have hcount : count = rate + (count - rate) := by omega
  rw [← output_of_lt sponge shown (Nat.le_refl rate) s, output, output, output, hcount,
    List.range_add, List.map_append, List.map_map, Nat.add_sub_cancel_left]
  congr 1
  refine List.map_congr_left fun k _ => ?_
  rw [Function.comp_apply, Nat.add_div_left k hpos, Nat.add_mod_left, Function.iterate_succ_apply]

end Output

/-! ## Padding -/

/-- A one, zeros and a one. -/
def padding (zeros : Nat) : List Bool := true :: (List.replicate zeros false ++ [true])

/-- What the padding is taken off of again. -/
def unpad (bits : List Bool) : List Bool := ((bits.reverse.drop 1).dropWhile not).tail.reverse

theorem unpad_append_padding (bits : List Bool) (zeros : Nat) :
    unpad (bits ++ padding zeros) = bits := by
  have hzeros : ((List.replicate zeros false) ++ true :: bits.reverse).dropWhile not =
      true :: bits.reverse := by
    rw [List.dropWhile_append_of_pos (by simp)]
    simp
  simp [unpad, padding, hzeros]

/-- Padded messages are different when the messages are. -/
theorem append_padding_inj {bits bits' : List Bool} {zeros zeros' : Nat}
    (h : bits ++ padding zeros = bits' ++ padding zeros') : bits = bits' := by
  rw [← unpad_append_padding bits zeros, h, unpad_append_padding]

end Sponge
