import LedgerMatrix.Foundation.Command
import Mathlib.Logic.Function.Basic

/-! # Pointers into a state

A pointer is a lens that obeys the laws of reading and writing. Two pointers may
denote the same object, or objects that a write through one does not touch, so a
function that is given pointers can be run with and without aliasing. An object
may consist of two halves, which are objects themselves.
-/

namespace Imperative

namespace Lens

variable {σ τ υ ι α β : Type}

/-- What is read is what was written last, and a write changes nothing else. -/
structure Lawful (p : Lens σ τ) : Prop where
  get_set : ∀ value s, p.get (p.set value s) = value
  set_get : ∀ s, p.set (p.get s) s = s
  set_set : ∀ value other s, p.set value (p.set other s) = p.set value s

/-- A write through `b` is not seen through `a`. -/
def Apart (a : Lens σ τ) (b : Lens σ υ) : Prop := ∀ value s, a.get (b.set value s) = a.get s

/-- An operand that is the target itself, or that writes to the target leave alone. -/
def Operand (number target : Lens σ τ) : Prop := number = target ∨ number.Apart target

/-- A part of a part. -/
def comp (outer : Lens σ τ) (inner : Lens τ υ) : Lens σ υ :=
  ⟨fun s => inner.get (outer.get s), fun value s => outer.set (inner.set value (outer.get s)) s⟩

/-- The object with a name in a memory of named objects. -/
def object [DecidableEq ι] (name : ι) : Lens (ι → α) α :=
  ⟨fun memory => memory name, fun value memory => Function.update memory name value⟩

/-- A pointer of the caller, where a function also has local variables. -/
def caller (p : Lens σ τ) : Lens (υ × σ) τ := snd.comp p

/-- A local variable of a function. -/
def locals (p : Lens υ τ) : Lens (υ × σ) τ := fst.comp p

@[simp] theorem object_get [DecidableEq ι] (name : ι) (memory : ι → α) :
    (object name).get memory = memory name := rfl

@[simp] theorem object_set [DecidableEq ι] (name : ι) (value : α) (memory : ι → α) :
    (object name).set value memory = Function.update memory name value := rfl

@[simp] theorem caller_get (p : Lens σ τ) (s : υ × σ) : p.caller.get s = p.get s.2 := rfl

@[simp] theorem caller_set (p : Lens σ τ) (value : τ) (s : υ × σ) :
    p.caller.set value s = (s.1, p.set value s.2) := rfl

@[simp] theorem locals_get (p : Lens υ τ) (s : υ × σ) : p.locals.get s = p.get s.1 := rfl

@[simp] theorem locals_set (p : Lens υ τ) (value : τ) (s : υ × σ) :
    p.locals.set value s = (p.set value s.1, s.2) := rfl

theorem Lawful.comp {outer : Lens σ τ} {inner : Lens τ υ} (houter : outer.Lawful)
    (hinner : inner.Lawful) : (outer.comp inner).Lawful where
  get_set value s := by simp [Lens.comp, houter.get_set, hinner.get_set]
  set_get s := by simp [Lens.comp, houter.set_get, hinner.set_get]
  set_set value _ s := by
    simp [Lens.comp, houter.get_set, houter.set_set, hinner.set_set]

theorem object_lawful [DecidableEq ι] (name : ι) : (object name : Lens (ι → α) α).Lawful where
  get_set _ _ := by simp
  set_get _ := by simp
  set_set _ _ _ := by simp

theorem fst_lawful : (fst : Lens (σ × τ) σ).Lawful :=
  ⟨fun _ _ => rfl, fun _ => rfl, fun _ _ _ => rfl⟩

theorem snd_lawful : (snd : Lens (σ × τ) τ).Lawful :=
  ⟨fun _ _ => rfl, fun _ => rfl, fun _ _ _ => rfl⟩

theorem Lawful.caller {p : Lens σ τ} (h : p.Lawful) : (p.caller : Lens (υ × σ) τ).Lawful :=
  snd_lawful.comp h

theorem Lawful.locals {p : Lens υ τ} (h : p.Lawful) : (p.locals : Lens (υ × σ) τ).Lawful :=
  fst_lawful.comp h

theorem Apart.comp {a : Lens σ τ} {b : Lens σ υ} (h : a.Apart b) (x : Lens τ α) (y : Lens υ β) :
    (a.comp x).Apart (b.comp y) := fun _ s => congrArg x.get (h _ s)

/-- Parts of one object that are apart in it. -/
theorem Apart.within {p : Lens σ τ} (hp : p.Lawful) {x : Lens τ α} {y : Lens τ β}
    (h : x.Apart y) : (p.comp x).Apart (p.comp y) := by
  intro value s
  simp only [Lens.comp, hp.get_set]
  exact h value (p.get s)

theorem object_apart [DecidableEq ι] {a b : ι} (h : a ≠ b) :
    (object a : Lens (ι → α) α).Apart (object b) := by
  intro value memory
  simp [h]

theorem Apart.caller {a : Lens σ τ} {b : Lens σ α} (h : a.Apart b) :
    (a.caller : Lens (υ × σ) τ).Apart b.caller := fun value s => h value s.2

theorem caller_apart_locals (a : Lens σ τ) (b : Lens υ α) : a.caller.Apart b.locals :=
  fun _ _ => rfl

theorem fst_apart_caller (b : Lens σ α) : (fst : Lens (υ × σ) υ).Apart b.caller :=
  fun _ _ => rfl

theorem locals_apart_caller (a : Lens υ τ) (b : Lens σ α) : a.locals.Apart b.caller :=
  fun _ _ => rfl

theorem Apart.locals {a : Lens υ τ} {b : Lens υ α} (h : a.Apart b) :
    (a.locals : Lens (υ × σ) τ).Apart b.locals := fun value s => h value s.1

namespace Operand

theorem same (p : Lens σ τ) : p.Operand p := Or.inl rfl

theorem object [DecidableEq ι] (a b : ι) :
    (Lens.object a : Lens (ι → α) α).Operand (Lens.object b) := by
  by_cases h : a = b
  · exact Or.inl (h ▸ rfl)
  · exact Or.inr (object_apart h)

theorem comp {a b : Lens σ τ} (h : a.Operand b) (x : Lens τ υ) : (a.comp x).Operand (b.comp x) := by
  rcases h with rfl | h
  · exact same _
  · exact Or.inr (h.comp x x)

/-- A part of an operand that is apart from the part written. -/
theorem apart {a b : Lens σ τ} (h : a.Operand b) (hb : b.Lawful) {x : Lens τ α} {y : Lens τ β}
    (hxy : x.Apart y) : (a.comp x).Apart (b.comp y) := by
  rcases h with rfl | h
  · exact Apart.within hb hxy
  · exact h.comp x y

theorem caller {a b : Lens σ τ} (h : a.Operand b) :
    (a.caller : Lens (υ × σ) τ).Operand b.caller := by
  rcases h with rfl | h
  · exact same _
  · exact Or.inr h.caller

end Operand

end Lens

/-! ## Objects in two halves -/

/-- An object that consists of an upper and a lower half. -/
class Halves (α : Type) (β : outParam Type) where
  join : β → β → α
  high : α → β
  low : α → β
  high_join : ∀ upper lower, high (join upper lower) = upper
  low_join : ∀ upper lower, low (join upper lower) = lower
  join_eta : ∀ whole, join (high whole) (low whole) = whole

namespace Lens

variable {σ ι α β : Type} [Halves α β]

def upperHalf : Lens α β := ⟨Halves.high, fun value whole => Halves.join value (Halves.low whole)⟩

def lowerHalf : Lens α β := ⟨Halves.low, fun value whole => Halves.join (Halves.high whole) value⟩

/-- The upper half of the object that a pointer denotes. -/
def upper (p : Lens σ α) : Lens σ β := p.comp upperHalf

/-- The lower half of the object that a pointer denotes. -/
def lower (p : Lens σ α) : Lens σ β := p.comp lowerHalf

theorem upperHalf_lawful : (upperHalf : Lens α β).Lawful where
  get_set _ _ := Halves.high_join _ _
  set_get whole := Halves.join_eta whole
  set_set _ _ _ := by simp [upperHalf, Halves.low_join]

theorem lowerHalf_lawful : (lowerHalf : Lens α β).Lawful where
  get_set _ _ := Halves.low_join _ _
  set_get whole := Halves.join_eta whole
  set_set _ _ _ := by simp [lowerHalf, Halves.high_join]

theorem lowerHalf_apart : (lowerHalf : Lens α β).Apart upperHalf :=
  fun _ _ => Halves.low_join _ _

theorem upperHalf_apart : (upperHalf : Lens α β).Apart lowerHalf :=
  fun _ _ => Halves.high_join _ _

variable {p q : Lens σ α}

theorem caller_upper (p : Lens σ α) : (p.caller.upper : Lens (ι × σ) β) = p.upper.caller := rfl

theorem caller_lower (p : Lens σ α) : (p.caller.lower : Lens (ι × σ) β) = p.lower.caller := rfl

theorem Lawful.upper (h : p.Lawful) : p.upper.Lawful := h.comp upperHalf_lawful

theorem Lawful.lower (h : p.Lawful) : p.lower.Lawful := h.comp lowerHalf_lawful

/-- Writing both halves writes the whole. -/
theorem Lawful.set_halves (h : p.Lawful) (high low : β) (s : σ) :
    p.lower.set low (p.upper.set high s) = p.set (Halves.join high low) s := by
  simp [Lens.upper, Lens.lower, Lens.comp, upperHalf, lowerHalf, h.get_set, h.set_set,
    Halves.high_join]

theorem Lawful.set_halves' (h : p.Lawful) (high low : β) (s : σ) :
    p.upper.set high (p.lower.set low s) = p.set (Halves.join high low) s := by
  simp [Lens.upper, Lens.lower, Lens.comp, upperHalf, lowerHalf, h.get_set, h.set_set,
    Halves.low_join]

/-- Writing the whole forgets what was written to a half. -/
theorem Lawful.set_upper (h : p.Lawful) (whole : α) (high : β) (s : σ) :
    p.set whole (p.upper.set high s) = p.set whole s := h.set_set _ _ _

theorem Operand.upper (h : p.Operand q) : p.upper.Operand q.upper := h.comp upperHalf

theorem Operand.lower (h : p.Operand q) : p.lower.Operand q.lower := h.comp lowerHalf

theorem Operand.lower_apart (h : p.Operand q) (hq : q.Lawful) : p.lower.Apart q.upper :=
  h.apart hq lowerHalf_apart

theorem Operand.upper_apart (h : p.Operand q) (hq : q.Lawful) : p.upper.Apart q.lower :=
  h.apart hq upperHalf_apart

theorem Apart.upper (h : p.Apart q) : p.upper.Apart q.upper := h.comp upperHalf upperHalf

theorem Apart.lower (h : p.Apart q) : p.lower.Apart q.lower := h.comp lowerHalf lowerHalf

end Lens

/-! ## Reading and writing through a pointer -/

namespace Command

variable {ω ε σ τ : Type}

/-- Read the object that a pointer denotes. -/
def fetch (p : Lens σ τ) : Command ω ε σ τ := do
  let s ← read
  pure (p.get s)

/-- Write the object that a pointer denotes. -/
def store (p : Lens σ τ) (value : τ) : Command ω ε σ Unit := modify fun s => p.set value s

variable {safe : ω → Prop} {s : σ} {early : ε → σ → Prop}

@[simp] theorem wp_fetch {p : Lens σ τ} {post : τ → σ → Prop} :
    wp safe (fetch p : Command ω ε σ τ) s post early ↔ post (p.get s) s := by
  simp [fetch]

@[simp] theorem wp_store {p : Lens σ τ} {value : τ} {post : Unit → σ → Prop} :
    wp safe (store p value : Command ω ε σ Unit) s post early ↔ post () (p.set value s) := by
  simp [store]

end Command

end Imperative
