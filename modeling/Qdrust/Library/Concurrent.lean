import Qdrust.Library.Transition
import Mathlib.Logic.Function.Basic

/-! Routines of several processes over one shared state. A routine makes atomic
calls, one at a time; between two calls of one process the others make theirs.
A call may fail, and then changes nothing. -/
namespace Qdrust.Library

variable {κ ι σ ρ τ υ ε : Type} {α : κ → Type}

/-- What a process still has to do. -/
inductive Routine (κ : Type) (α : κ → Type) (ρ : Type) : Type where
  | done (result : ρ)
  | failed
  | call (request : κ) (next : Option (α request) → Routine κ α ρ)

namespace Routine

def bind : Routine κ α ρ → (ρ → Routine κ α τ) → Routine κ α τ
  | .done result,after => after result
  | .failed,_ => .failed
  | .call request next,after => .call request fun answer => (next answer).bind after

instance : Monad (Routine κ α) where
  pure := .done
  bind := bind

/-- A call whose failure ends the routine. -/
def ask (request : κ) : Routine κ α (α request) := .call request fun
  | some answer => .done answer
  | none => .failed

/-- A call whose failure is ignored. -/
def attempt (request : κ) : Routine κ α (Option (α request)) := .call request .done

def result : Routine κ α ρ → Option ρ
  | .done result => some result
  | _ => none

/-- No call is outstanding. -/
def ended : Routine κ α ρ → Bool
  | .call _ _ => false
  | _ => true

@[simp] theorem pure_eq (result : ρ) : (pure result : Routine κ α ρ) = .done result := rfl

@[simp] theorem done_bind (result : ρ) (after : ρ → Routine κ α τ) : (.done result : Routine κ α ρ) >>= after = after result :=
  rfl

@[simp] theorem failed_bind (after : ρ → Routine κ α τ) : (.failed : Routine κ α ρ) >>= after = .failed := rfl

@[simp] theorem call_bind (request : κ) (next : Option (α request) → Routine κ α ρ) (after : ρ → Routine κ α τ) :
    (.call request next : Routine κ α ρ) >>= after = .call request fun answer => next answer >>= after := rfl

/-- A call and what follows its answer. -/
def answered (after : τ → Routine κ α ρ) : Option τ → Routine κ α ρ
  | some answer => after answer
  | none => .failed

@[simp] theorem answered_some (after : τ → Routine κ α ρ) (answer : τ) : answered after (some answer) = after answer := rfl

@[simp] theorem answered_none (after : τ → Routine κ α ρ) : answered after none = .failed := rfl

@[simp] theorem answered_bind (after : τ → Routine κ α ρ) (rest : ρ → Routine κ α υ) (answer : Option τ) :
    answered after answer >>= rest = answered (fun a => after a >>= rest) answer := by
  cases answer <;> rfl

/-- Two routines are one where they make the same call and go on alike. -/
theorem call_congr {request : κ} {first second : α request → Routine κ α ρ} (same : ∀ answer, first answer = second answer) :
    Routine.call request (answered first) = .call request (answered second) :=
  congrArg (fun after => Routine.call request (answered after)) (funext same)

@[simp] theorem ask_bind (request : κ) (after : α request → Routine κ α ρ) :
    ask request >>= after = .call request (answered after) := by
  refine congrArg (Routine.call request) (funext fun answer => ?_)
  cases answer <;> rfl

instance : LawfulMonad (Routine κ α) := by
  refine LawfulMonad.mk' (Routine κ α) ?_ (fun _ _ => rfl) ?_
  · intro ρ routine
    induction routine with
    | done _ => rfl
    | failed => rfl
    | call request next ih => exact congrArg (Routine.call request) (funext ih)
  · intro ρ τ υ first after rest
    induction first with
    | done _ => rfl
    | failed => rfl
    | call request next ih => exact congrArg (Routine.call request) (funext ih)

@[simp] theorem attempt_bind (request : κ) (after : Option (α request) → Routine κ α ρ) :
    attempt request >>= after = .call request after := rfl

/-- A routine that never makes one of some calls. -/
inductive Avoids (avoided : κ → Prop) : Routine κ α ρ → Prop
  | done (result : ρ) : Avoids avoided (.done result)
  | failed : Avoids avoided .failed
  | call {request : κ} {next : Option (α request) → Routine κ α ρ} (other : ¬avoided request)
      (rest : ∀ answer, Avoids avoided (next answer)) : Avoids avoided (.call request next)

theorem avoids_answered {avoided : κ → Prop} {after : τ → Routine κ α ρ} (rest : ∀ answer, Avoids avoided (after answer))
    (answer : Option τ) : Avoids avoided (answered after answer) := by
  cases answer with
  | none => exact .failed
  | some answer => exact rest answer

theorem avoids_ask {avoided : κ → Prop} {request : κ} (other : ¬avoided request) :
    Avoids avoided (ask request : Routine κ α (α request)) := by
  refine .call other fun answer => ?_
  cases answer with
  | none => exact .failed
  | some answer => exact .done answer

theorem avoids_bind {avoided : κ → Prop} {first : Routine κ α ρ} {after : ρ → Routine κ α τ} (harmless : Avoids avoided first)
    (rest : ∀ result, Avoids avoided (after result)) : Avoids avoided (first >>= after) := by
  induction harmless with
  | done result => exact rest result
  | failed => exact .failed
  | call other _ ih => exact .call other ih

/-- A routine whose calls are some of those of a larger system. -/
def embed {κ' : Type} {α' : κ' → Type} (wrap : κ → κ') (unwrap : ∀ request, α' (wrap request) → α request) :
    Routine κ α ρ → Routine κ' α' ρ
  | .done result => .done result
  | .failed => .failed
  | .call request next => .call (wrap request) fun answer => embed wrap unwrap (next (answer.map (unwrap request)))

theorem avoids_embed {κ' : Type} {α' : κ' → Type} {wrap : κ → κ'} {unwrap : ∀ request, α' (wrap request) → α request}
    {avoided : κ' → Prop} {routine : Routine κ α ρ} (harmless : Avoids (fun request => avoided (wrap request)) routine) :
    Avoids avoided (routine.embed wrap unwrap) := by
  induction harmless with
  | done result => exact .done result
  | failed => exact .failed
  | call other _ ih => exact .call other fun answer => ih _

end Routine

namespace Concurrent

open Transition

/-- A call that was made, with its answer, `none` where it failed. -/
structure Event (ι κ : Type) (α : κ → Type) where
  process : ι
  request : κ
  answer : Option (α request)

/-- The shared state and the calls so far, the latest first. -/
structure World (ι κ : Type) (α : κ → Type) (σ : Type) where
  shared : σ
  past : List (Event ι κ α)

structure State (ι κ : Type) (α : κ → Type) (σ ρ : Type) extends World ι κ α σ where
  process : ι → Routine κ α ρ

/-- What the shared state answers to a call and becomes. -/
abbrev Handler (κ : Type) (α : κ → Type) (σ : Type) := (request : κ) → σ → α request × σ

def State.start (shared : σ) (process : ι → Routine κ α ρ) : State ι κ α σ ρ := ⟨⟨shared,[]⟩,process⟩

/-- A process makes its next call, which may fail, or something happens outside. -/
inductive Action (ι ε : Type) where
  | call (process : ι) (fails : Bool)
  | outside (event : ε)

/-- One call of one process. -/
def World.perform (handle : Handler κ α σ) (world : World ι κ α σ) (process : ι) (request : κ) (fails : Bool) :
    World ι κ α σ :=
  if fails then ⟨world.shared,⟨process,request,none⟩ :: world.past⟩
  else ⟨(handle request world.shared).2,⟨process,request,some (handle request world.shared).1⟩ :: world.past⟩

def answer (handle : Handler κ α σ) (shared : σ) (request : κ) (fails : Bool) : Option (α request) :=
  if fails then none else some (handle request shared).1

@[simp] theorem perform_fails {handle : Handler κ α σ} (world : World ι κ α σ) (i : ι) (request : κ) :
    (world.perform handle i request true).shared = world.shared := rfl

@[simp] theorem perform_made {handle : Handler κ α σ} (world : World ι κ α σ) (i : ι) (request : κ) :
    (world.perform handle i request false).shared = (handle request world.shared).2 := rfl

variable [DecidableEq ι]

def step (handle : Handler κ α σ) (occur : ε → σ → Option σ) (s : State ι κ α σ ρ) :
    Action ι ε → Option (State ι κ α σ ρ)
  | .call i fails =>
    match s.process i with
    | .call request next => some {
        s.toWorld.perform handle i request fails with
        process := Function.update s.process i (next (answer handle s.shared request fails)) }
    | _ => none
  | .outside event => (occur event s.shared).map fun shared => { s with shared }

/-- The last call of a process. -/
def World.last (world : World ι κ α σ) (i : ι) : Option (Event ι κ α) := world.past.find? fun event => event.process = i

/-- A step in a system whose calls do not fail. -/
def stepMade (handle : Handler κ α σ) (occur : ε → σ → Option σ) (s : State ι κ α σ ρ) :
    Action ι ε → Option (State ι κ α σ ρ)
  | .call _ true => none
  | action => step handle occur s action

section Rules

variable {handle : Handler κ α σ} {occur : ε → σ → Option σ}

omit [DecidableEq ι] in
theorem past_perform (world : World ι κ α σ) (i : ι) (request : κ) (fails : Bool) :
    (world.perform handle i request fails).past = ⟨i,request,answer handle world.shared request fails⟩ :: world.past := by
  cases fails <;> rfl

@[simp] theorem last_self (world : World ι κ α σ) (i : ι) (request : κ) (fails : Bool) :
    (world.perform handle i request fails).last i = some ⟨i,request,answer handle world.shared request fails⟩ := by
  cases fails <;> simp [World.perform,World.last,answer]

theorem last_other (world : World ι κ α σ) {i j : ι} (differs : j ≠ i) (request : κ) (fails : Bool) :
    (world.perform handle i request fails).last j = world.last j := by
  cases fails <;> simp [World.perform,World.last,Ne.symm differs]

/-- What a step of a process is. -/
theorem step_call {s t : State ι κ α σ ρ} {i : ι} {fails : Bool} (taken : step handle occur s (.call i fails) = some t) :
    ∃ request next, s.process i = .call request next ∧
      t.toWorld = s.toWorld.perform handle i request fails ∧
      t.process = Function.update s.process i (next (answer handle s.shared request fails)) := by
  cases outstanding : s.process i with
  | call request next =>
    simp only [step,outstanding] at taken
    cases taken
    exact ⟨request,next,rfl,rfl,rfl⟩
  | done result => simp [step,outstanding] at taken
  | failed => simp [step,outstanding] at taken

variable {guard : State ι κ α σ ρ → Action ι ε → Prop}

/-- What holds of the world, and of what each process still has to do in it. -/
structure Assertions (common : World ι κ α σ → Prop) (stage : ι → World ι κ α σ → Routine κ α ρ → Prop)
    (s : State ι κ α σ ρ) : Prop where
  common : common s.toWorld
  stage : ∀ i, stage i s.toWorld (s.process i)

/-- Assertions hold in every run where a call keeps those of its own process and
does not interfere with those of the others. -/
theorem assertions_kept (common : World ι κ α σ → Prop) (stage : ι → World ι κ α σ → Routine κ α ρ → Prop)
    (own : ∀ (s : State ι κ α σ ρ) i request next fails, Assertions common stage s → guard s (.call i fails) →
      s.process i = .call request next → common (s.toWorld.perform handle i request fails) ∧
        stage i (s.toWorld.perform handle i request fails) (next (answer handle s.shared request fails)))
    (others : ∀ (s : State ι κ α σ ρ) i request next fails j, Assertions common stage s → guard s (.call i fails) →
      s.process i = .call request next → j ≠ i → stage j (s.toWorld.perform handle i request fails) (s.process j))
    (outside : ∀ (s : State ι κ α σ ρ) event shared, Assertions common stage s → guard s (.outside event) →
      occur event s.shared = some shared →
      common ⟨shared,s.past⟩ ∧ ∀ j, stage j ⟨shared,s.past⟩ (s.process j))
    {s t : State ι κ α σ ρ} (reach : Reaches (step handle occur) guard s t) (initial : Assertions common stage s) :
    Assertions common stage t := by
  apply reach.invariant _ initial
  intro s action t holds allowed taken
  cases action with
  | call i fails =>
    obtain ⟨request,next,outstanding,world,process⟩ := step_call taken
    obtain ⟨kept,mine⟩ := own s i request next fails holds allowed outstanding
    constructor
    · rw [world]
      exact kept
    · intro j
      rw [world,process]
      by_cases same : j = i
      · subst same
        rw [Function.update_self]
        exact mine
      · rw [Function.update_of_ne same]
        exact others s i request next fails j holds allowed outstanding same
  | outside event =>
    obtain ⟨shared,occurred,rfl⟩ := Option.map_eq_some_iff.mp taken
    obtain ⟨kept,each⟩ := outside s event shared holds allowed occurred
    exact ⟨kept,each⟩

/-- What `assertions_kept` says where calls do not fail. -/
theorem made_assertions_kept (common : World ι κ α σ → Prop) (stage : ι → World ι κ α σ → Routine κ α ρ → Prop)
    (own : ∀ (s : State ι κ α σ ρ) i request next, Assertions common stage s → guard s (.call i false) →
      s.process i = .call request next → common (s.toWorld.perform handle i request false) ∧
        stage i (s.toWorld.perform handle i request false) (next (some (handle request s.shared).1)))
    (others : ∀ (s : State ι κ α σ ρ) i request next j, Assertions common stage s → guard s (.call i false) →
      s.process i = .call request next → j ≠ i → stage j (s.toWorld.perform handle i request false) (s.process j))
    (outside : ∀ (s : State ι κ α σ ρ) event shared, Assertions common stage s → guard s (.outside event) →
      occur event s.shared = some shared →
      common ⟨shared,s.past⟩ ∧ ∀ j, stage j ⟨shared,s.past⟩ (s.process j))
    {s t : State ι κ α σ ρ} (reach : Reaches (stepMade handle occur) guard s t) (initial : Assertions common stage s) :
    Assertions common stage t := by
  have made : Reaches (step handle occur) (fun s a => guard s a ∧ ∀ i, a ≠ .call i true) s t := by
    refine Relation.ReflTransGen.mono ?_ _ _ reach
    rintro s t ⟨action,allowed,taken⟩
    refine ⟨action,?_⟩
    cases action with
    | call i fails =>
      cases fails with
      | true => cases taken
      | false => exact ⟨⟨allowed,fun j same => by cases same⟩,taken⟩
    | outside event => exact ⟨⟨allowed,fun j same => by cases same⟩,taken⟩
  refine assertions_kept common stage ?_ ?_ ?_ made initial
  · intro s i request next fails holds allowed outstanding
    cases fails with
    | true => exact absurd rfl (allowed.2 i)
    | false => exact own s i request next holds allowed.1 outstanding
  · intro s i request next fails j holds allowed outstanding differs
    cases fails with
    | true => exact absurd rfl (allowed.2 i)
    | false => exact others s i request next j holds allowed.1 outstanding differs
  · intro s event shared holds allowed occurred
    exact outside s event shared holds allowed.1 occurred

end Rules

section Following

/-- The process has made no call before the event or with it. -/
def Follows (past : List (Event ι κ α)) (event : Event ι κ α) (i : ι) : Prop :=
  ∃ later earlier, past = later ++ event :: earlier ∧ ∀ e ∈ event :: earlier, e.process ≠ i

variable {past : List (Event ι κ α)} {event : Event ι κ α} {i : ι}

omit [DecidableEq ι] in
theorem Follows.mem (follows : Follows past event i) : event ∈ past := by
  obtain ⟨later,earlier,rfl,-⟩ := follows
  exact List.mem_append_right _ List.mem_cons_self

omit [DecidableEq ι] in
/-- What a process that has made a call follows does not change. -/
theorem Follows.earlier {latest : Event ι κ α} (follows : Follows (latest :: past) event i)
    (begun : ∃ e ∈ latest :: past, e.process = i) : Follows past event i := by
  obtain ⟨later,earlier,same,none⟩ := follows
  cases later with
  | nil =>
    cases same
    obtain ⟨e,there,mine⟩ := begun
    exact absurd mine (none e there)
  | cons first later =>
    cases same
    exact ⟨later,earlier,rfl,none⟩

end Following

section Evidence

variable {learns : (request : κ) → Option (α request) → List τ} {permits : List τ → κ → Prop}

/-- A routine whose calls are permitted by what the answers before them told. -/
inductive Grounded (learns : (request : κ) → Option (α request) → List τ) (permits : List τ → κ → Prop) :
    List τ → Routine κ α ρ → Prop
  | done {known : List τ} (result : ρ) : Grounded learns permits known (.done result)
  | failed {known : List τ} : Grounded learns permits known .failed
  | call {known : List τ} {request : κ} {next : Option (α request) → Routine κ α ρ} (permitted : permits known request)
      (rest : ∀ answer, Grounded learns permits (learns request answer ++ known) (next answer)) :
      Grounded learns permits known (.call request next)

theorem grounded_mono {known more : List τ} {routine : Routine κ α ρ} (grounded : Grounded learns permits known routine)
    (permits_mono : ∀ {known more request}, known ⊆ more → permits known request → permits more request)
    (within : known ⊆ more) : Grounded learns permits more routine := by
  induction grounded generalizing more with
  | done result => exact .done result
  | failed => exact .failed
  | call permitted _ ih =>
    refine .call (permits_mono within permitted) fun answer => ih answer ?_
    exact List.append_subset.mpr ⟨List.subset_append_left _ _,List.Subset.trans within (List.subset_append_right _ _)⟩

/-- A part all of whose calls are always permitted may stand before anything. -/
theorem grounded_bind {known : List τ} {first : Routine κ α ρ} {after : ρ → Routine κ α υ}
    (harmless : first.Avoids fun request => ¬∀ known, permits known request)
    (rest : ∀ more result, known ⊆ more → Grounded learns permits more (after result)) :
    Grounded learns permits known (first >>= after) := by
  induction harmless generalizing known with
  | done result => exact rest known result (List.Subset.refl _)
  | failed => exact .failed
  | call other _ ih =>
    refine .call (not_not.mp other known) fun answer => ih answer fun more result within => rest more result ?_
    exact List.Subset.trans (List.subset_append_right _ _) within

/-- What the answers to the calls of a process told it. -/
def gathered (learns : (request : κ) → Option (α request) → List τ) (past : List (Event ι κ α)) (i : ι) : List τ :=
  (past.filter fun event => event.process = i).flatMap fun event => learns event.request event.answer

theorem gathered_self (event : Event ι κ α) (past : List (Event ι κ α)) :
    gathered learns (event :: past) event.process = learns event.request event.answer ++ gathered learns past event.process := by
  simp [gathered]

theorem gathered_other {event : Event ι κ α} {i : ι} (differs : i ≠ event.process) (past : List (Event ι κ α)) :
    gathered learns (event :: past) i = gathered learns past i := by
  simp [gathered,Ne.symm differs]

/-- Every process stays grounded in what it has been told, whatever the others do. -/
theorem grounded_kept {handle : Handler κ α σ} {occur : ε → σ → Option σ} {guard : State ι κ α σ ρ → Action ι ε → Prop}
    {s t : State ι κ α σ ρ} (reach : Reaches (step handle occur) guard s t)
    (initial : ∀ i, Grounded learns permits (gathered learns s.past i) (s.process i)) (i : ι) :
    Grounded learns permits (gathered learns t.past i) (t.process i) := by
  have kept : Assertions (fun _ => True) (fun i world routine => Grounded learns permits (gathered learns world.past i) routine) t := by
    refine assertions_kept _ _ ?_ ?_ ?_ reach ⟨trivial,initial⟩
    · intro s i request next fails holds _ outstanding
      have grounded := holds.stage i
      rw [outstanding] at grounded
      cases grounded with
      | call _ rest =>
        rw [past_perform,gathered_self]
        exact ⟨trivial,rest _⟩
    · intro s i request next fails j holds _ _ differs
      rw [past_perform,gathered_other differs]
      exact holds.stage j
    · intro s event shared holds _ _
      exact ⟨trivial,holds.stage⟩
  exact kept.stage i

end Evidence

end Concurrent
end Qdrust.Library
