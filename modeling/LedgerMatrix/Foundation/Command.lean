import Mathlib.Logic.Basic

/-! # Commands with early return

A command runs over a mutable state, may return early with a code, and emits a
trace of events. An early return keeps the state reached so far: this is how a
function that writes through its pointer arguments and then returns an error
behaves. `Command.wp` is the weakest precondition of a command. It bounds the
trace, the normal result and the early returns at once, so one specification
per function says all that its callers need.
-/

namespace Imperative

/-- How a command ends. Both ways keep the state reached. -/
inductive Outcome (ε σ α : Type) where
  | done (value : α) (state : σ)
  | stop (code : ε) (state : σ)
  deriving DecidableEq

namespace Outcome

variable {ε σ τ α : Type}

/-- Replace the state an outcome carries. -/
def mapState (f : σ → τ) : Outcome ε σ α → Outcome ε τ α
  | done value state => done value (f state)
  | stop code state => stop code (f state)

/-- The state an outcome carries, however the command ended. -/
def state : Outcome ε σ α → σ
  | done _ state => state
  | stop _ state => state

/-- The normal result and the code of an early return, without the state. -/
def result : Outcome ε σ α → Except ε α
  | done value _ => .ok value
  | stop code _ => .error code

theorem eq_done {outcome : Outcome ε σ α} {value : α} (h : outcome.result = .ok value) :
    outcome = .done value outcome.state := by
  cases outcome with
  | done _ _ => rw [Except.ok.inj h]; rfl
  | stop _ _ => cases h

end Outcome

/-- A part of a state that a command can be pointed at. -/
structure Lens (σ τ : Type) where
  get : σ → τ
  set : τ → σ → σ

namespace Lens

variable {σ τ : Type}

/-- The first component of a pair. -/
def fst : Lens (σ × τ) σ := ⟨Prod.fst, fun value s => (value, s.2)⟩

/-- The second component of a pair. -/
def snd : Lens (σ × τ) τ := ⟨Prod.snd, fun value s => (s.1, value)⟩

@[simp] theorem fst_get (s : σ × τ) : fst.get s = s.1 := rfl
@[simp] theorem fst_set (value : σ) (s : σ × τ) : fst.set value s = (value, s.2) := rfl
@[simp] theorem snd_get (s : σ × τ) : snd.get s = s.2 := rfl
@[simp] theorem snd_set (value : τ) (s : σ × τ) : snd.set value s = (s.1, value) := rfl

end Lens

/-- A command over the state `σ` that returns `α`, returns early with a code
`ε`, and emits events `ω`. -/
structure Command (ω ε σ α : Type) where
  run : σ → Outcome ε σ α × List ω

namespace Command

variable {ω ω' ε δ σ τ α β : Type}

/-- How the command ends from a state. -/
def outcome (c : Command ω ε σ α) (s : σ) : Outcome ε σ α := (c.run s).1

/-- The events the command emits from a state. -/
def trace (c : Command ω ε σ α) (s : σ) : List ω := (c.run s).2

/-- Run two commands in sequence. An early return of the first is that of both. -/
protected def bind (c : Command ω ε σ α) (f : α → Command ω ε σ β) : Command ω ε σ β :=
  ⟨fun s => match c.run s with
    | (.done value t, events) => (((f value).run t).1, events ++ ((f value).run t).2)
    | (.stop code t, events) => (.stop code t, events)⟩

/-- Return a value and do nothing. -/
protected def pure (value : α) : Command ω ε σ α := ⟨fun s => (.done value s, [])⟩

instance : Monad (Command ω ε σ) where
  pure := Command.pure
  bind := Command.bind

/-- Return early, keeping the state. -/
def stop (code : ε) : Command ω ε σ α := ⟨fun s => (.stop code s, [])⟩

/-- Read the state. -/
def read : Command ω ε σ σ := ⟨fun s => (.done s s, [])⟩

/-- Update the state. -/
def modify (f : σ → σ) : Command ω ε σ Unit := ⟨fun s => (.done () (f s), [])⟩

/-- Emit one event. -/
def emit (event : ω) : Command ω ε σ Unit := ⟨fun s => (.done () s, [event])⟩

/-- Run a command on a part of the state. -/
def zoom (part : Lens σ τ) (c : Command ω ε τ α) : Command ω ε σ α :=
  ⟨fun s => ((c.outcome (part.get s)).mapState (fun value => part.set value s),
    c.trace (part.get s))⟩

/-- Run a command with a local variable, which is gone at the end. -/
def scope (init : τ) (c : Command ω ε (τ × σ) α) : Command ω ε σ α :=
  ⟨fun s => ((c.outcome (init, s)).mapState Prod.snd, c.trace (init, s))⟩

/-- Answer an early return with another command, which goes on from the state
that was reached. -/
def handle (c : Command ω ε σ α) (handler : ε → Command ω δ σ α) : Command ω δ σ α :=
  ⟨fun s => match c.run s with
    | (.done value t, events) => (.done value t, events)
    | (.stop code t, events) => (((handler code).run t).1, events ++ ((handler code).run t).2)⟩

/-- Run a command without its events. -/
def quiet (c : Command ω ε σ α) : Command ω' ε σ α := ⟨fun s => (c.outcome s, [])⟩

/-- Give the events of a command other names. -/
def label (f : ω → ω') (c : Command ω ε σ α) : Command ω' ε σ α :=
  ⟨fun s => (c.outcome s, (c.trace s).map f)⟩

@[simp] theorem outcome_pure (value : α) (s : σ) :
    (pure value : Command ω ε σ α).outcome s = .done value s := rfl

@[simp] theorem outcome_zoom (part : Lens σ τ) (c : Command ω ε τ α) (s : σ) :
    (zoom part c).outcome s =
      (c.outcome (part.get s)).mapState (fun value => part.set value s) := rfl

@[simp] theorem outcome_scope (init : τ) (c : Command ω ε (τ × σ) α) (s : σ) :
    (scope init c).outcome s = (c.outcome (init, s)).mapState Prod.snd := rfl

theorem trace_zoom (part : Lens σ τ) (c : Command ω ε τ α) (s : σ) :
    (zoom part c).trace s = c.trace (part.get s) := rfl

theorem trace_scope (init : τ) (c : Command ω ε (τ × σ) α) (s : σ) :
    (scope init c).trace s = c.trace (init, s) := rfl

theorem outcome_bind_of_done {c : Command ω ε σ α} {f : α → Command ω ε σ β} {s t : σ}
    {value : α} (h : c.outcome s = .done value t) :
    (c >>= f).outcome s = (f value).outcome t := by
  simp only [outcome, bind, Command.bind] at h ⊢
  cases hrun : c.run s with
  | mk result events =>
      rw [hrun] at h
      subst h
      rfl

theorem outcome_bind_of_stop {c : Command ω ε σ α} {f : α → Command ω ε σ β} {s t : σ}
    {code : ε} (h : c.outcome s = .stop code t) :
    (c >>= f).outcome s = .stop code t := by
  simp only [outcome, bind, Command.bind] at h ⊢
  cases hrun : c.run s with
  | mk result events =>
      rw [hrun] at h
      subst h
      rfl

theorem trace_bind_of_done {c : Command ω ε σ α} {f : α → Command ω ε σ β} {s t : σ} {value : α}
    (h : c.outcome s = .done value t) :
    (c >>= f).trace s = c.trace s ++ (f value).trace t := by
  simp only [outcome, trace, bind, Command.bind] at h ⊢
  cases hrun : c.run s with
  | mk result events =>
      rw [hrun] at h
      subst h
      rfl

/-- What the first command emits is emitted. -/
theorem mem_trace_bind {c : Command ω ε σ α} {s : σ} {event : ω} (h : event ∈ c.trace s)
    (f : α → Command ω ε σ β) : event ∈ (c >>= f).trace s := by
  simp only [trace, bind, Command.bind] at h ⊢
  cases hrun : c.run s with
  | mk result events =>
      rw [hrun] at h
      cases result with
      | done value t => exact List.mem_append_left _ h
      | stop code t => exact h

theorem mem_trace_handle {c : Command ω ε σ α} {s : σ} {event : ω} (h : event ∈ c.trace s)
    (handler : ε → Command ω δ σ α) : event ∈ (c.handle handler).trace s := by
  simp only [trace, handle] at h ⊢
  cases hrun : c.run s with
  | mk result events =>
      rw [hrun] at h
      cases result with
      | done value t => exact h
      | stop code t => exact List.mem_append_left _ h

theorem outcome_handle_of_done {c : Command ω ε σ α} {handler : ε → Command ω δ σ α} {s t : σ}
    {value : α} (h : c.outcome s = .done value t) :
    (c.handle handler).outcome s = .done value t := by
  simp only [outcome, handle] at h ⊢
  cases hrun : c.run s with
  | mk result events =>
      rw [hrun] at h
      subst h
      rfl

theorem outcome_handle_of_stop {c : Command ω ε σ α} {handler : ε → Command ω δ σ α} {s t : σ}
    {code : ε} (h : c.outcome s = .stop code t) :
    (c.handle handler).outcome s = (handler code).outcome t := by
  simp only [outcome, handle] at h ⊢
  cases hrun : c.run s with
  | mk result events =>
      rw [hrun] at h
      subst h
      rfl

/-! ## Weakest preconditions -/

/-- Every event of the run from `s` satisfies `safe`, a normal end satisfies
`post`, and an early return satisfies `early`. -/
def wp (safe : ω → Prop) (c : Command ω ε σ α) (s : σ) (post : α → σ → Prop)
    (early : ε → σ → Prop) : Prop :=
  (∀ event ∈ c.trace s, safe event) ∧
    match c.outcome s with
    | .done value t => post value t
    | .stop code t => early code t

section Rules

variable {safe : ω → Prop} {c : Command ω ε σ α} {s t : σ}
variable {post post' : α → σ → Prop} {early early' : ε → σ → Prop}

theorem wp.of_done (h : wp safe c s post early) {value : α}
    (hend : c.outcome s = .done value t) : post value t := by
  have hpost := h.2
  rw [hend] at hpost
  exact hpost

theorem wp.of_stop (h : wp safe c s post early) {code : ε}
    (hend : c.outcome s = .stop code t) : early code t := by
  have hearly := h.2
  rw [hend] at hearly
  exact hearly

/-- A command with no early return ends normally. -/
theorem wp.exists_done (h : wp safe c s post (fun _ _ => False)) :
    ∃ value t, c.outcome s = .done value t ∧ post value t := by
  cases hend : c.outcome s with
  | done value t => exact ⟨value, t, rfl, h.of_done hend⟩
  | stop code t => exact (h.of_stop hend).elim

theorem wp.mono (h : wp safe c s post early) (hpost : ∀ value t, post value t → post' value t)
    (hearly : ∀ code t, early code t → early' code t) : wp safe c s post' early' := by
  refine ⟨h.1, ?_⟩
  cases hend : c.outcome s with
  | done value t => exact hpost value t (h.of_done hend)
  | stop code t => exact hearly code t (h.of_stop hend)

theorem wp.safe_mono {safe' : ω → Prop} (h : wp safe c s post early)
    (hsafe : ∀ event, safe event → safe' event) : wp safe' c s post early :=
  ⟨fun event hevent => hsafe event (h.1 event hevent), h.2⟩

@[simp] theorem wp_pure (value : α) :
    wp safe (pure value : Command ω ε σ α) s post early ↔ post value s := by
  simp [wp, trace, outcome, pure, Command.pure]

@[simp] theorem wp_stop (code : ε) :
    wp safe (stop code : Command ω ε σ α) s post early ↔ early code s := by
  simp [wp, trace, outcome, stop]

@[simp] theorem wp_read {post : σ → σ → Prop} :
    wp safe (read : Command ω ε σ σ) s post early ↔ post s s := by
  simp [wp, trace, outcome, read]

@[simp] theorem wp_modify {post : Unit → σ → Prop} (f : σ → σ) :
    wp safe (modify f : Command ω ε σ Unit) s post early ↔ post () (f s) := by
  simp [wp, trace, outcome, modify]

@[simp] theorem wp_emit {post : Unit → σ → Prop} (event : ω) :
    wp safe (emit event : Command ω ε σ Unit) s post early ↔ safe event ∧ post () s := by
  simp [wp, trace, outcome, emit]

@[simp] theorem wp_bind {f : α → Command ω ε σ β} {post : β → σ → Prop} :
    wp safe (c >>= f) s post early ↔
      wp safe c s (fun value t => wp safe (f value) t post early) early := by
  simp only [wp, trace, outcome, bind, Command.bind]
  cases hrun : c.run s with
  | mk result events =>
      cases result with
      | done value t => simp only [List.mem_append, or_imp, forall_and, and_assoc]
      | stop code t => rfl

@[simp] theorem wp_handle {handler : ε → Command ω δ σ α} {early : δ → σ → Prop} :
    wp safe (c.handle handler) s post early ↔
      wp safe c s post (fun code t => wp safe (handler code) t post early) := by
  simp only [wp, trace, outcome, handle]
  cases hrun : c.run s with
  | mk result events =>
      cases result with
      | done value t => rfl
      | stop code t => simp only [List.mem_append, or_imp, forall_and, and_assoc]

@[simp] theorem wp_zoom (part : Lens σ τ) (c : Command ω ε τ α) :
    wp safe (zoom part c) s post early ↔
      wp safe c (part.get s) (fun value t => post value (part.set t s))
        (fun code t => early code (part.set t s)) := by
  rw [wp, wp, outcome_zoom, trace_zoom]
  cases c.outcome (part.get s) <;> rfl

@[simp] theorem wp_scope (init : τ) (c : Command ω ε (τ × σ) α) :
    wp safe (scope init c) s post early ↔
      wp safe c (init, s) (fun value t => post value t.2) (fun code t => early code t.2) := by
  rw [wp, wp, outcome_scope, trace_scope]
  cases c.outcome (init, s) <;> rfl

@[simp] theorem wp_quiet {safe' : ω' → Prop} :
    wp safe' (quiet c) s post early ↔ wp (fun _ => True) c s post early := by
  simp [wp, trace, outcome, quiet]

end Rules

/-! ## Frames -/

/-- However it ends, the command leaves a part of the state as it was. -/
def Keeps (part : σ → τ) (c : Command ω ε σ α) : Prop :=
  ∀ s, part (c.outcome s).state = part s

section Frames

variable {ρ υ : Type} {part : σ → τ}

theorem Keeps.pure (value : α) : (pure value : Command ω ε σ α).Keeps part := fun _ => rfl

theorem Keeps.stop (code : ε) : (stop code : Command ω ε σ α).Keeps part := fun _ => rfl

theorem Keeps.read : (read : Command ω ε σ σ).Keeps part := fun _ => rfl

theorem Keeps.emit (event : ω) : (emit event : Command ω ε σ Unit).Keeps part := fun _ => rfl

theorem Keeps.modify {f : σ → σ} (h : ∀ s, part (f s) = part s) :
    (modify f : Command ω ε σ Unit).Keeps part := h

/-- What comes second does not matter to what it keeps. -/
theorem bind_state (part : σ → τ) {c : Command ω ε σ α} {f : α → Command ω ε σ β}
    (hf : ∀ value, (f value).Keeps part) (s : σ) :
    part ((c >>= f).outcome s).state = part (c.outcome s).state := by
  cases hend : c.outcome s with
  | done value t =>
      rw [outcome_bind_of_done hend]
      exact hf value t
  | stop code t => rw [outcome_bind_of_stop hend]; rfl

theorem handle_state (part : σ → τ) {c : Command ω ε σ α} {handler : ε → Command ω δ σ α}
    (hhandler : ∀ code, (handler code).Keeps part) (s : σ) :
    part ((c.handle handler).outcome s).state = part (c.outcome s).state := by
  cases hend : c.outcome s with
  | done value t => rw [outcome_handle_of_done hend]; rfl
  | stop code t =>
      rw [outcome_handle_of_stop hend]
      exact hhandler code t

theorem Keeps.bind {c : Command ω ε σ α} {f : α → Command ω ε σ β} (h : c.Keeps part)
    (hf : ∀ value, (f value).Keeps part) : (c >>= f).Keeps part :=
  fun s => (bind_state part hf s).trans (h s)

/-- A command on a component keeps what the component does not touch, or what it
keeps of the component. -/
theorem Keeps.zoom {view : Lens σ ρ} {inner : ρ → υ} {c : Command ω ε ρ α} (h : c.Keeps inner)
    (hset : ∀ s value, inner value = inner (view.get s) → part (view.set value s) = part s) :
    (zoom view c).Keeps part := by
  intro s
  rw [outcome_zoom]
  have hinner := h (view.get s)
  cases hend : c.outcome (view.get s) with
  | done value t =>
      rw [hend] at hinner
      exact hset s t hinner
  | stop code t =>
      rw [hend] at hinner
      exact hset s t hinner

/-- What every command keeps. -/
theorem Keeps.unit (c : Command ω ε σ α) : c.Keeps fun _ => () := fun _ => rfl

theorem Keeps.scope {init : ρ} {c : Command ω ε (ρ × σ) α}
    (h : c.Keeps fun s => part s.2) : (scope init c).Keeps part := by
  intro s
  rw [outcome_scope]
  have hinner := h (init, s)
  cases hend : c.outcome (init, s) with
  | done value t =>
      rw [hend] at hinner
      exact hinner
  | stop code t =>
      rw [hend] at hinner
      exact hinner

end Frames

end Command

end Imperative
