import LedgerMatrix.Foundation.Command

/-! # Simulations

A command is run for each of its arguments, and every run starts in the state that the
one before has left. One command simulates another when its states stay related to those
of the other one and its values tell what the other one returns: then this holds for any
number of arguments. It may have to be assumed that some arguments do not come in some
states. A machine that answers requests is a command as well.
-/

namespace Imperative

namespace Command

variable {ω ω' ω'' ε ε' ε'' σ τ υ κ α β γ : Type}

/-- Run a command for each of its arguments. -/
def each (command : κ → Command ω ε σ α) : List κ → Command ω ε σ (List α)
  | [] => pure []
  | k :: ks => do
      let value ← command k
      let values ← each command ks
      pure (value :: values)

/-- Every argument is allowed in the state in which the command is run for it. -/
def Along (allowed : σ → κ → Prop) (command : κ → Command ω ε σ α) : σ → List κ → Prop
  | _, [] => True
  | s, k :: ks => allowed s k ∧ Along allowed command ((command k).outcome s).state ks

instance instDecidableAlong {allowed : σ → κ → Prop} [∀ s k, Decidable (allowed s k)]
    (command : κ → Command ω ε σ α) :
    (s : σ) → (ks : List κ) → Decidable (Along allowed command s ks)
  | _, [] => isTrue trivial
  | s, k :: ks =>
      @instDecidableAnd _ _ _ (instDecidableAlong command ((command k).outcome s).state ks)

/-- Run for `k`, the command does what the other command does: `answer` says how a value
of the other command is returned. -/
def Simulates (related : σ → τ → Prop) (allowed : τ → κ → Prop) (answer : β → α)
    (concrete : κ → Command ω ε σ α) (abstract : κ → Command ω' ε' τ β) (k : κ) : Prop :=
  ∀ s t, related s t → allowed t k → ∃ value s' t',
    (abstract k).outcome t = .done value t' ∧
    (concrete k).outcome s = .done (answer value) s' ∧ related s' t'

section Runs

variable {related : σ → τ → Prop} {allowed : τ → κ → Prop} {answer : β → α}
variable {concrete : κ → Command ω ε σ α} {abstract : κ → Command ω' ε' τ β}

/-- Run for all, it does what the other command does for all. -/
theorem Simulates.each {ks : List κ}
    (h : ∀ k ∈ ks, Simulates related allowed answer concrete abstract k) {s : σ} {t : τ}
    (hrelated : related s t) (halong : Along allowed abstract t ks) : ∃ values s' t',
      (each abstract ks).outcome t = .done values t' ∧
      (each concrete ks).outcome s = .done (values.map answer) s' ∧ related s' t' ∧
      values.length = ks.length := by
  induction ks generalizing s t with
  | nil => exact ⟨[], s, t, rfl, rfl, hrelated, rfl⟩
  | cons k ks ih =>
      rw [List.forall_mem_cons] at h
      obtain ⟨hallowed, halong⟩ := halong
      obtain ⟨value, s', t', habstract, hconcrete, hrelated⟩ := h.1 s t hrelated hallowed
      rw [habstract] at halong
      obtain ⟨values, s'', t'', habstract', hconcrete', hrelated, hlength⟩ :=
        ih h.2 hrelated halong
      refine ⟨value :: values, s'', t'', ?_, ?_, hrelated, congrArg Nat.succ hlength⟩
      · rw [Command.each, outcome_bind_of_done habstract, outcome_bind_of_done habstract']
        rfl
      · rw [Command.each, outcome_bind_of_done hconcrete, outcome_bind_of_done hconcrete']
        rfl

/-- Simulations compose, where what is allowed above is allowed below. -/
theorem Simulates.comp {related' : τ → υ → Prop} {allowed' : υ → κ → Prop} {answer' : γ → β}
    {top : κ → Command ω'' ε'' υ γ} {k : κ}
    (h : Simulates related allowed answer concrete abstract k)
    (h' : Simulates related' allowed' answer' abstract top k)
    (hallowed : ∀ t u, related' t u → allowed' u k → allowed t k) :
    Simulates (fun s u => ∃ t, related s t ∧ related' t u) allowed' (answer ∘ answer') concrete
      top k := by
  rintro s u ⟨t, hrelated, hrelated'⟩ hu
  obtain ⟨value, t', u', htop, habstract, hnext'⟩ := h' t u hrelated' hu
  obtain ⟨value', s', t'', habstract', hconcrete, hnext⟩ :=
    h s t hrelated (hallowed t u hrelated' hu)
  obtain ⟨rfl, rfl⟩ := Outcome.done.inj (habstract'.symm.trans habstract)
  exact ⟨value, s', u', htop, hconcrete, t'', hnext, hnext'⟩

end Runs

end Command

/-- A machine that answers requests `ι` with `ο` over the states `σ`. -/
structure Mealy (σ ι ο : Type) where
  step : σ → ι → ο × σ

namespace Mealy

variable {ω ε σ ι κ ο : Type} (machine : Mealy σ ι ο)

/-- The answers to requests, one after the other, and the state that is left. -/
def run (s : σ) : List ι → List ο × σ
  | [] => ([], s)
  | request :: requests =>
      ((machine.step s request).1 :: (run (machine.step s request).2 requests).1,
        (run (machine.step s request).2 requests).2)

/-- Every request is allowed in the state that it meets. -/
def Along (allowed : σ → ι → Prop) : σ → List ι → Prop
  | _, [] => True
  | s, request :: requests => allowed s request ∧ Along allowed (machine.step s request).2 requests

instance instDecidableAlong {allowed : σ → ι → Prop} [∀ s request, Decidable (allowed s request)] :
    (s : σ) → (requests : List ι) → Decidable (machine.Along allowed s requests)
  | _, [] => isTrue trivial
  | s, request :: requests =>
      @instDecidableAnd _ _ _ (instDecidableAlong (machine.step s request).2 requests)

/-- Where it is allowed, the machine does the same whatever state it is in. -/
def Forgets (allowed : σ → ι → Prop) (request : ι) : Prop :=
  ∀ s t, allowed s request → allowed t request → machine.step s request = machine.step t request

/-- The machine, run for one request. -/
def command (request : ι) : Command ω ε σ ο :=
  ⟨fun s => (.done (machine.step s request).1 (machine.step s request).2, [])⟩

variable {machine} {allowed : σ → ι → Prop}

/-- After such a request nothing tells what was before. -/
theorem Forgets.run_eq {request : ι} (h : machine.Forgets allowed request) {s t : σ}
    (hs : allowed s request) (ht : allowed t request) (requests : List ι) :
    machine.run s (request :: requests) = machine.run t (request :: requests) := by
  rw [run, run, h s t hs ht]

theorem Forgets.along {request : ι} (h : machine.Forgets allowed request) {s t : σ}
    {requests : List ι} (hs : machine.Along allowed s (request :: requests))
    (ht : allowed t request) : machine.Along allowed t (request :: requests) := by
  refine ⟨ht, ?_⟩
  rw [h t s ht hs.1]
  exact hs.2

theorem outcome_command {request : ι} {s s' : σ} {answer : ο}
    (h : machine.step s request = (answer, s')) :
    (machine.command request : Command ω ε σ ο).outcome s = .done answer s' := by
  show Outcome.done (machine.step s request).1 (machine.step s request).2 = _
  rw [h]

/-- Run as commands, the requests get the answers of the machine. -/
theorem each_command (request : κ → ι) (s : σ) (ks : List κ) :
    (Command.each (fun k => (machine.command (request k) : Command ω ε σ ο)) ks).outcome s =
      .done (machine.run s (ks.map request)).1 (machine.run s (ks.map request)).2 := by
  induction ks generalizing s with
  | nil => rfl
  | cons k ks ih =>
      rw [Command.each, Command.outcome_bind_of_done rfl, Command.outcome_bind_of_done (ih _)]
      rfl

theorem along_command {request : κ → ι} {s : σ} {ks : List κ}
    (h : machine.Along allowed s (ks.map request)) :
    Command.Along (fun s k => allowed s (request k))
      (fun k => (machine.command (request k) : Command ω ε σ ο)) s ks := by
  induction ks generalizing s with
  | nil => trivial
  | cons k ks ih => exact ⟨h.1, ih h.2⟩

end Mealy

end Imperative
