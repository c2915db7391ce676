import Mathlib.Logic.Relation
import Mathlib.Data.List.Basic

/-! Runs of a partial step function. A system supplies the states, the actions
and the step; an invariant is kept by every step or only by the guarded ones. -/
namespace Qdrust.Library.Transition

variable {σ α : Type*} {step : σ → α → Option σ} {guard other : σ → α → Prop}

/-- The state a list of actions ends in, `none` once an action is refused. -/
def exec (step : σ → α → Option σ) : σ → List α → Option σ
  | s, [] => some s
  | s, a :: rest => (step s a).bind fun t => exec step t rest

/-- One step whose action meets the guard in the state it is taken from. -/
def Guarded (step : σ → α → Option σ) (guard : σ → α → Prop) (s t : σ) : Prop :=
  ∃ a, guard s a ∧ step s a = some t

/-- Runs of guarded steps. -/
def Reaches (step : σ → α → Option σ) (guard : σ → α → Prop) : σ → σ → Prop :=
  Relation.ReflTransGen (Guarded step guard)

/-- Runs of arbitrary steps. -/
abbrev Reachable (step : σ → α → Option σ) : σ → σ → Prop := Reaches step fun _ _ => True

theorem Reaches.refl (s : σ) : Reaches step guard s s := Relation.ReflTransGen.refl

theorem Reaches.trans {s t u : σ} (first : Reaches step guard s t) (rest : Reaches step guard t u) :
    Reaches step guard s u := Relation.ReflTransGen.trans first rest

theorem Reaches.snoc {s t u : σ} (first : Reaches step guard s t) (a : α) (allowed : guard t a)
    (taken : step t a = some u) : Reaches step guard s u :=
  Relation.ReflTransGen.tail first ⟨a,allowed,taken⟩

theorem Reaches.head {s t u : σ} (a : α) (allowed : guard s a) (taken : step s a = some t)
    (rest : Reaches step guard t u) : Reaches step guard s u :=
  Relation.ReflTransGen.head ⟨a,allowed,taken⟩ rest

theorem Reaches.weaken {s t : σ} (reach : Reaches step guard s t)
    (implied : ∀ s a, guard s a → other s a) : Reaches step other s t :=
  Relation.ReflTransGen.mono (fun _ _ ⟨a,allowed,taken⟩ => ⟨a,implied _ _ allowed,taken⟩) _ _ reach

theorem Reaches.reachable {s t : σ} (reach : Reaches step guard s t) : Reachable step s t :=
  reach.weaken fun _ _ _ => trivial

/-- What every guarded step keeps, every guarded run keeps. -/
theorem Reaches.invariant {inv : σ → Prop} {s t : σ} (reach : Reaches step guard s t)
    (keep : ∀ s a t, inv s → guard s a → step s a = some t → inv t) (initial : inv s) : inv t := by
  induction reach with
  | refl => exact initial
  | tail _ last ih =>
    obtain ⟨a,allowed,taken⟩ := last
    exact keep _ a _ ih allowed taken

/-- A reflexive and transitive relation that holds across every guarded step,
where an invariant may be assumed, holds across every guarded run. -/
theorem Reaches.relates {inv : σ → Prop} {R : σ → σ → Prop} {s t : σ}
    (reach : Reaches step guard s t) (initial : inv s) (reflexive : ∀ s, R s s)
    (transitive : ∀ s t u, R s t → R t u → R s u)
    (keep : ∀ s a t, inv s → guard s a → step s a = some t → inv t ∧ R s t) : R s t := by
  have both : inv t ∧ R s t := by
    induction reach with
    | refl => exact ⟨initial,reflexive s⟩
    | tail _ last ih =>
      obtain ⟨a,allowed,taken⟩ := last
      obtain ⟨kept,related⟩ := keep _ a _ ih.1 allowed taken
      exact ⟨kept,transitive _ _ _ ih.2 related⟩
  exact both.2

theorem exec_append (s : σ) (first rest : List α) :
    exec step s (first ++ rest) = (exec step s first).bind fun t => exec step t rest := by
  induction first generalizing s with
  | nil => rfl
  | cons a first ih =>
    simp only [List.cons_append,exec]
    cases step s a with
    | none => rfl
    | some t => exact ih t

/-- Every action meets the guard where it is taken. -/
def Allowed (step : σ → α → Option σ) (guard : σ → α → Prop) : σ → List α → Prop
  | _,[] => True
  | s,a :: rest => guard s a ∧ ∀ t, step s a = some t → Allowed step guard t rest

theorem reaches_of_exec {s t : σ} {actions : List α} (ran : exec step s actions = some t)
    (allowed : Allowed step guard s actions) : Reaches step guard s t := by
  induction actions generalizing s with
  | nil =>
    cases Option.some.inj ran
    exact Reaches.refl _
  | cons a rest ih =>
    obtain ⟨u,taken,ran⟩ := Option.bind_eq_some_iff.mp ran
    exact Reaches.head a allowed.1 taken (ih ran (allowed.2 u taken))

/-- `Allowed` for a guard that is checked. -/
def allowedBy (step : σ → α → Option σ) (check : σ → α → Bool) : σ → List α → Bool
  | _,[] => true
  | s,a :: rest => check s a && (step s a).all fun t => allowedBy step check t rest

theorem allowed_of_check {check : σ → α → Bool} (sound : ∀ s a, check s a = true → guard s a) {s : σ} {actions : List α}
    (checked : allowedBy step check s actions = true) : Allowed step guard s actions := by
  induction actions generalizing s with
  | nil => exact trivial
  | cons a rest ih =>
    obtain ⟨first,others⟩ := (Bool.and_eq_true _ _).mp checked
    refine ⟨sound s a first,fun t taken => ih ?_⟩
    rw [taken] at others
    exact others

/-- A list of actions that is not refused is a run. -/
theorem reachable_of_exec {s t : σ} {actions : List α} (ran : exec step s actions = some t) :
    Reachable step s t := by
  induction actions generalizing s with
  | nil =>
    cases Option.some.inj ran
    exact Reaches.refl _
  | cons a rest ih =>
    obtain ⟨u,taken,ran⟩ := Option.bind_eq_some_iff.mp ran
    exact Reaches.head a trivial taken (ih ran)

theorem reachable_get (s : σ) (actions : List α) (ran : (exec step s actions).isSome) :
    Reachable step s ((exec step s actions).get ran) := reachable_of_exec (Option.some_get ran).symm

end Qdrust.Library.Transition
