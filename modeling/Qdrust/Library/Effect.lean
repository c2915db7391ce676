import Mathlib.Logic.Basic

/-! Computations on a state that may fail and keep the state they failed in, and
relations between the state before and the state after. -/
namespace Qdrust.Library

def Effect (ε σ α : Type) : Type := σ → Except ε α × σ

namespace Effect

variable {ε σ α β : Type}

def bind (first : Effect ε σ α) (next : α → Effect ε σ β) : Effect ε σ β := fun state =>
  match first state with
  | (.ok value,after) => next value after
  | (.error failure,after) => (.error failure,after)

instance : Monad (Effect ε σ) where
  pure value := fun state => (.ok value,state)
  bind := bind

def fail (failure : ε) : Effect ε σ α := fun state => (.error failure,state)

def read (view : σ → α) : Effect ε σ α := fun state => (.ok (view state),state)

def modify (change : σ → σ) : Effect ε σ Unit := fun state => (.ok (),change state)

/-- A result that does not touch the state. -/
def lift : Except ε α → Effect ε σ α
  | .ok value => pure value
  | .error failure => fail failure

def ensure (holds : Bool) (failure : ε) : Effect ε σ Unit := if holds then pure () else fail failure

def mapError (change : ε → ε) (effect : Effect ε σ α) : Effect ε σ α := fun state =>
  ((effect state).1.mapError change,(effect state).2)

/-- One computation for each item, in order. -/
def each (body : α → Effect ε σ Unit) : List α → Effect ε σ Unit
  | [] => pure ()
  | item :: rest => do
    body item
    each body rest

/-- Every run, failed or not, leads to a related state. -/
def Moves (R : σ → σ → Prop) (effect : Effect ε σ α) : Prop := ∀ state, R state (effect state).2

section Rules

variable {R : σ → σ → Prop}

theorem moves_pure (refl : ∀ state, R state state) (value : α) : Moves R (pure value : Effect ε σ α) := refl

theorem moves_fail (refl : ∀ state, R state state) (failure : ε) : Moves R (fail failure : Effect ε σ α) := refl

theorem moves_read (refl : ∀ state, R state state) (view : σ → α) : Moves R (read view : Effect ε σ α) := refl

theorem moves_modify {change : σ → σ} (related : ∀ state, R state (change state)) :
    Moves R (modify change : Effect ε σ Unit) := related

theorem moves_lift (refl : ∀ state, R state state) (result : Except ε α) : Moves R (lift result : Effect ε σ α) := by
  cases result with
  | ok value => exact moves_pure refl value
  | error failure => exact moves_fail refl failure

theorem moves_ensure (refl : ∀ state, R state state) (holds : Bool) (failure : ε) :
    Moves R (ensure holds failure : Effect ε σ Unit) := by
  cases holds with
  | true => exact moves_pure refl ()
  | false => exact moves_fail refl failure

theorem moves_seq {S T : σ → σ → Prop} (stop : ∀ a b, R a b → T a b) (trans : ∀ a b c, R a b → S b c → T a c)
    {first : Effect ε σ α} {next : α → Effect ε σ β} (before : Moves R first) (after : ∀ value, Moves S (next value)) :
    Moves T (first >>= next) := by
  intro state
  have step := before state
  change T state (bind first next state).2
  unfold bind
  cases run : first state with
  | mk outcome middle =>
    rw [run] at step
    cases outcome with
    | ok value => exact trans _ _ _ step (after value middle)
    | error failure => exact stop _ _ step

theorem moves_bind (trans : ∀ a b c, R a b → R b c → R a c) {first : Effect ε σ α} {next : α → Effect ε σ β}
    (before : Moves R first) (after : ∀ value, Moves R (next value)) : Moves R (first >>= next) :=
  moves_seq (fun _ _ related => related) trans before after

theorem Moves.mono {S : σ → σ → Prop} {effect : Effect ε σ α} (moves : Moves R effect) (weaker : ∀ a b, R a b → S a b) :
    Moves S effect := fun state => weaker _ _ (moves state)

theorem moves_mapError {change : ε → ε} {effect : Effect ε σ α} (moves : Moves R effect) :
    Moves R (mapError change effect) := moves

theorem moves_each (refl : ∀ state, R state state) (trans : ∀ a b c, R a b → R b c → R a c)
    {body : α → Effect ε σ Unit} (items : List α) (moves : ∀ item ∈ items, Moves R (body item)) :
    Moves R (each body items) := by
  induction items with
  | nil => exact moves_pure refl ()
  | cons item rest ih =>
    rw [List.forall_mem_cons] at moves
    exact moves_bind trans moves.1 fun _ => ih moves.2

end Rules

theorem read_bind (view : σ → α) (next : α → Effect ε σ β) (state : σ) :
    (read view >>= next) state = next (view state) state := rfl

theorem modify_bind (change : σ → σ) (next : Unit → Effect ε σ β) (state : σ) :
    (modify change >>= next) state = next () (change state) := rfl

theorem lift_bind (result : Except ε α) (next : α → Effect ε σ β) (state : σ) :
    (lift result >>= next) state = match result with
      | .ok value => next value state
      | .error failure => (.error failure,state) := by
  cases result <;> rfl

theorem ensure_bind (holds : Bool) (failure : ε) (next : Unit → Effect ε σ β) (state : σ) :
    (ensure holds failure >>= next) state = if holds then next () state else (.error failure,state) := by
  cases holds <;> rfl

theorem bind_eq (first : Effect ε σ α) (next : α → Effect ε σ β) (state : σ) : (first >>= next) state =
    match first state with
      | (.ok value,after) => next value after
      | (.error failure,after) => (.error failure,after) := rfl

theorem bind_assoc {γ : Type} (first : Effect ε σ α) (next : α → Effect ε σ β) (last : β → Effect ε σ γ) :
    first >>= next >>= last = first >>= fun value => next value >>= last := by
  funext state
  simp only [bind_eq]
  cases first state with
  | mk outcome after => cases outcome <;> rfl

/-- What a run leads to when it succeeds, and when it fails. -/
def Ends (live dead : σ → σ → Prop) (effect : Effect ε σ α) : Prop := ∀ state,
  match effect state with
  | (.ok _,after) => live state after
  | (.error _,after) => dead state after

/-- Relations for runs one after the other, of which a failed one is the last. -/
structure Chained (live dead : σ → σ → Prop) : Prop where
  refl : ∀ state, live state state
  trans : ∀ a b c, live a b → live b c → live a c
  idle : ∀ state, dead state state
  stop : ∀ a b c, live a b → dead b c → dead a c

section Endings

variable {live dead : σ → σ → Prop}

theorem Ends.mapError {change : ε → ε} {effect : Effect ε σ α} (ends : Ends live dead effect) :
    Ends live dead (mapError change effect) := by
  intro state
  have run := ends state
  unfold Effect.mapError
  cases whole : effect state with
  | mk outcome after =>
    rw [whole] at run
    cases outcome with
    | ok value => exact run
    | error failure => exact run

theorem Ends.bind (chained : Chained live dead) {first : Effect ε σ α} {next : α → Effect ε σ β}
    (before : Ends live dead first) (after : ∀ value, Ends live dead (next value)) : Ends live dead (first >>= next) := by
  intro state
  have step := before state
  rw [bind_eq]
  cases run : first state with
  | mk outcome middle =>
    rw [run] at step
    cases outcome with
    | error failure => exact step
    | ok value =>
      have later := after value middle
      change match next value middle with | (.ok _,last) => live state last | (.error _,last) => dead state last
      cases rest : next value middle with
      | mk result last =>
        rw [rest] at later
        cases result with
        | ok value => exact chained.trans _ _ _ step later
        | error failure => exact chained.stop _ _ _ step later

/-- A part that cannot tell the two. -/
theorem ends_of_moves (chained : Chained live dead) {R : σ → σ → Prop} (leads : ∀ a b, R a b → live a b)
    {effect : Effect ε σ α} (moves : Moves R effect) : Ends live dead effect := by
  intro state
  have run := leads _ _ (moves state)
  cases whole : effect state with
  | mk outcome after =>
    rw [whole] at run
    cases outcome with
    | ok value => exact run
    | error failure => exact chained.stop _ _ _ run (chained.idle _)

end Endings

/-- Every result satisfies `P`. -/
def Returns (P : α → Prop) (effect : Effect ε σ α) : Prop := ∀ state value, (effect state).1 = .ok value → P value

theorem returns_pure {P : α → Prop} {value : α} (holds : P value) : Returns P (pure value : Effect ε σ α) := by
  intro state result run
  cases run
  exact holds

theorem returns_bind {P : β → Prop} {first : Effect ε σ α} {next : α → Effect ε σ β}
    (returns : ∀ value, Returns P (next value)) : Returns P (first >>= next) := by
  intro state result run
  change (bind first next state).1 = _ at run
  unfold bind at run
  split at run
  next value after _ => exact returns value after result run
  next => cases run

theorem returns_lift {P : β → Prop} {result : Except ε α} {next : α → Effect ε σ β}
    (returns : ∀ value, result = .ok value → Returns P (next value)) : Returns P (lift result >>= next) := by
  intro state value run
  rw [lift_bind] at run
  split at run
  next inner => exact returns inner rfl state value run
  next => cases run

/-- What holds after a sequence: the first part stops it, or the second ends it. -/
theorem after_bind {P : σ → Prop} {first : Effect ε σ α} {next : α → Effect ε σ β} {state : σ}
    (stop : ∀ failure after, first state = (.error failure,after) → P after)
    (go : ∀ value after, first state = (.ok value,after) → P (next value after).2) : P ((first >>= next) state).2 := by
  change P (bind first next state).2
  unfold bind
  split
  next value after run => exact go value after run
  next failure after run => exact stop failure after run

/-- Nothing changes after the first computation. -/
theorem bind_still {first : Effect ε σ α} {next : α → Effect ε σ β} (still : ∀ value state, (next value state).2 = state)
    (state : σ) : ((first >>= next) state).2 = (first state).2 := by
  change (bind first next state).2 = _
  unfold bind
  split
  next value after run =>
    rw [still,run]
  next failure after run => rw [run]

/-- A successful run of a sequence, step by step. -/
theorem bind_ok {first : Effect ε σ α} {next : α → Effect ε σ β} {state after : σ} {result : β} :
    (first >>= next) state = (.ok result,after) ↔
      ∃ value middle, first state = (.ok value,middle) ∧ next value middle = (.ok result,after) := by
  change bind first next state = _ ↔ _
  unfold bind
  cases run : first state with
  | mk outcome middle =>
    cases outcome with
    | ok value =>
      constructor
      · intro done
        exact ⟨value,middle,rfl,done⟩
      · rintro ⟨_,_,same,done⟩
        cases same
        exact done
    | error failure =>
      constructor
      · intro done
        cases done
      · rintro ⟨_,_,same,_⟩
        cases same

theorem lift_bind_ok {inner : Except ε α} {next : α → Effect ε σ β} {state after : σ} {result : β} :
    (lift inner >>= next) state = (.ok result,after) ↔ ∃ value, inner = .ok value ∧ next value state = (.ok result,after) := by
  rw [lift_bind]
  cases inner with
  | error failure => exact ⟨nofun,nofun⟩
  | ok value =>
    constructor
    · intro done
      exact ⟨value,rfl,done⟩
    · rintro ⟨_,same,done⟩
      cases same
      exact done

theorem ensure_bind_ok {holds : Bool} {failure : ε} {next : Unit → Effect ε σ β} {state after : σ} {result : β} :
    (ensure holds failure >>= next) state = (.ok result,after) ↔ holds = true ∧ next () state = (.ok result,after) := by
  rw [ensure_bind]
  cases holds with
  | true => exact ⟨fun done => ⟨rfl,done⟩,And.right⟩
  | false => exact ⟨nofun,nofun⟩

end Effect
end Qdrust.Library
