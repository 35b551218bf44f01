import Mathlib.Algebra.Group.Nat.Defs
import Mathlib.Data.List.TakeWhile
import Mathlib.Tactic.Common

/-! # Pages of a text

A text cut into pages of one width, of which only the last may be shorter. The
pages that a counter can name show the whole text just when the counter can
count them.
-/

namespace Paging

variable {α : Type}

/-- The page at an index. Behind the end of the text pages are empty. -/
def page (width : Nat) (text : List α) (index : Nat) : List α :=
  (text.drop (index * width)).take width

/-- The number of pages that are not empty. -/
def count (width : Nat) (text : List α) : Nat := (text.length + width - 1) / width

@[simp] theorem count_nil {width : Nat} (hwidth : 0 < width) : count width ([] : List α) = 0 := by
  rw [count, List.length_nil, Nat.zero_add]
  exact Nat.div_eq_of_lt (by omega)

theorem count_le_iff {width : Nat} (hwidth : 0 < width) {text : List α} {pages : Nat} :
    count width text ≤ pages ↔ text.length ≤ pages * width := by
  rw [count, ← Nat.lt_add_one_iff, Nat.div_lt_iff_lt_mul hwidth, Nat.add_mul]
  omega

theorem page_length_le (width : Nat) (text : List α) (index : Nat) :
    (page width text index).length ≤ width := by
  rw [page, List.length_take]
  exact Nat.min_le_left _ _

theorem page_zero (width : Nat) (text : List α) : page width text 0 = text.take width := by
  rw [page, Nat.zero_mul, List.drop_zero]

/-- A text that fits one page is that page. -/
theorem page_of_length_le {width : Nat} {text : List α} (h : text.length ≤ width) :
    page width text 0 = text := by
  rw [page_zero, List.take_of_length_le h]

/-- The last page has what is left of the text, when this does not fill a page. -/
theorem page_length_le_mod {width : Nat} (hwidth : 0 < width) {text : List α} {index : Nat}
    (hlast : count width text ≤ index + 1) (hleft : text.length % width ≠ 0) :
    (page width text index).length ≤ text.length % width := by
  have hsplit := Nat.div_add_mod text.length width
  rw [count_le_iff hwidth] at hlast
  have hfull : text.length / width < index + 1 := by
    refine @Nat.lt_of_mul_lt_mul_left width _ _ ?_
    rw [Nat.mul_comm width (index + 1)]
    omega
  have hbefore : width * (text.length / width) ≤ index * width := by
    rw [Nat.mul_comm index]
    exact Nat.mul_le_mul_left width (Nat.le_of_lt_succ hfull)
  rw [page, List.length_take, List.length_drop]
  omega

/-- Pages of no more than one width. -/
theorem length_flatMap_range_le {β : Type} {width pages : Nat} {shown : Nat → List β}
    (h : ∀ index, (shown index).length ≤ width) :
    ((List.range pages).flatMap shown).length ≤ pages * width := by
  induction pages with
  | zero => simp
  | succ pages ih =>
      rw [List.range_succ, List.flatMap_append, List.flatMap_singleton, List.length_append,
        Nat.succ_mul]
      exact Nat.add_le_add ih (h pages)

/-- The first pages in order are the start of the text. -/
theorem flatMap_page (width pages : Nat) (text : List α) :
    (List.range pages).flatMap (page width text) = text.take (pages * width) := by
  induction pages with
  | zero => simp
  | succ pages ih =>
      rw [List.range_succ, List.flatMap_append, ih, List.flatMap_singleton, Nat.succ_mul,
        List.take_add]
      rfl

/-- The first pages are the whole text just when there are enough of them. -/
theorem flatMap_page_eq_iff {width : Nat} (hwidth : 0 < width) {pages : Nat} {text : List α} :
    (List.range pages).flatMap (page width text) = text ↔ count width text ≤ pages := by
  rw [flatMap_page, count_le_iff hwidth]
  refine ⟨fun h => ?_, List.take_of_length_le⟩
  have hlength := congrArg List.length h
  rw [List.length_take] at hlength
  omega

theorem mem_of_mem_page {width index : Nat} {text : List α} {x : α}
    (h : x ∈ page width text index) : x ∈ text :=
  List.mem_of_mem_drop (List.mem_of_mem_take h)

/-- When every page is cut before its first bad character, the pages are the whole
text just when there are enough of them and no character is bad. -/
theorem flatMap_takeWhile_page_eq_iff {width : Nat} (hwidth : 0 < width) {good : α → Bool}
    {pages : Nat} {text : List α} :
    (List.range pages).flatMap (fun index => (page width text index).takeWhile good) = text ↔
      count width text ≤ pages ∧ ∀ x ∈ text, good x := by
  have huncut (hgood : ∀ x ∈ text, good x) :
      (List.range pages).flatMap (fun index => (page width text index).takeWhile good) =
        (List.range pages).flatMap (page width text) := by
    congr 1
    funext index
    exact List.takeWhile_eq_self_iff.mpr fun x hx => hgood x (mem_of_mem_page hx)
  constructor
  · intro h
    have hgood : ∀ x ∈ text, good x := by
      intro x hx
      rw [← h, List.mem_flatMap] at hx
      obtain ⟨index, -, hx⟩ := hx
      exact List.mem_takeWhile_imp hx
    rw [huncut hgood] at h
    exact ⟨(flatMap_page_eq_iff hwidth).mp h, hgood⟩
  · rintro ⟨hcount, hgood⟩
    rw [huncut hgood]
    exact (flatMap_page_eq_iff hwidth).mpr hcount

end Paging
