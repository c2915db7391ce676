import Qdrust.Library.Concurrent

/-! What a routine may come to when it runs alone: any of its calls may fail. -/
namespace Qdrust.Library.Routine
open Concurrent

variable {κ κ' σ σ' ρ τ : Type} {α : κ → Type} {α' : κ' → Type}

/-- The routine may end with this result, `none` where it failed, and this state. -/
def Runs (handle : Handler κ α σ) : Routine κ α ρ → σ → Option ρ → σ → Prop
  | .done answer,s,result,t => result = some answer ∧ t = s
  | .failed,s,result,t => result = none ∧ t = s
  | .call request next,s,result,t =>
    Runs handle (next (some (handle request s).1)) (handle request s).2 result t ∨ Runs handle (next none) s result t

section Runs

variable {handle : Handler κ α σ} {s t : σ} {result : Option τ}

/-- A routine runs to what follows it, or fails. -/
theorem runs_bind {first : Routine κ α ρ} {after : ρ → Routine κ α τ} :
    Runs handle (first >>= after) s result t ↔
      (∃ answer u, Runs handle first s (some answer) u ∧ Runs handle (after answer) u result t) ∨
        Runs handle first s none t ∧ result = none := by
  induction first generalizing s with
  | done answer =>
    constructor
    · intro run
      exact .inl ⟨answer,s,⟨rfl,rfl⟩,run⟩
    · rintro (⟨_,_,⟨⟨⟩,rfl⟩,run⟩ | ⟨⟨⟨⟩,-⟩,-⟩)
      exact run
  | failed =>
    constructor
    · rintro ⟨rfl,rfl⟩
      exact .inr ⟨⟨rfl,rfl⟩,rfl⟩
    · rintro (⟨_,_,⟨⟨⟩,-⟩,-⟩ | ⟨⟨-,rfl⟩,rfl⟩)
      exact ⟨rfl,rfl⟩
  | call request next ih =>
    rw [Routine.call_bind,Runs,ih,ih]
    constructor
    · rintro ((⟨answer,u,run,rest⟩ | ⟨run,rfl⟩) | (⟨answer,u,run,rest⟩ | ⟨run,rfl⟩))
      · exact .inl ⟨answer,u,.inl run,rest⟩
      · exact .inr ⟨.inl run,rfl⟩
      · exact .inl ⟨answer,u,.inr run,rest⟩
      · exact .inr ⟨.inr run,rfl⟩
    · rintro (⟨answer,u,run | run,rest⟩ | ⟨run | run,rfl⟩)
      · exact .inl (.inl ⟨answer,u,run,rest⟩)
      · exact .inr (.inl ⟨answer,u,run,rest⟩)
      · exact .inl (.inr ⟨run,rfl⟩)
      · exact .inr (.inr ⟨run,rfl⟩)

theorem runs_then {first : Routine κ α ρ} {after : ρ → Routine κ α τ} {answer : ρ} {u : σ}
    (run : Runs handle first s (some answer) u) (rest : Runs handle (after answer) u result t) :
    Runs handle (first >>= after) s result t := runs_bind.mpr (.inl ⟨answer,u,run,rest⟩)

/-- A call that must not fail fails the routine, or is made. -/
theorem runs_ask {request : κ} {after : α request → Routine κ α τ} :
    Runs handle (ask request >>= after) s result t ↔
      Runs handle (after (handle request s).1) (handle request s).2 result t ∨ result = none ∧ t = s := by
  rw [ask_bind]
  exact Iff.rfl

theorem runs_attempt {request : κ} {after : Option (α request) → Routine κ α τ} :
    Runs handle (attempt request >>= after) s result t ↔
      Runs handle (after (some (handle request s).1)) (handle request s).2 result t ∨
        Runs handle (after none) s result t := Iff.rfl

/-- A result is taken as it comes, failure and all. -/
def caught : Routine κ α ρ → Routine κ α (Option ρ)
  | .done answer => .done (some answer)
  | .failed => .done none
  | .call request next => .call request fun answer => caught (next answer)

theorem runs_caught {routine : Routine κ α ρ} {outcome : Option (Option ρ)} :
    Runs handle routine.caught s outcome t ↔ ∃ result, outcome = some result ∧ Runs handle routine s result t := by
  induction routine generalizing s with
  | done answer =>
    constructor
    · rintro ⟨rfl,rfl⟩
      exact ⟨_,rfl,rfl,rfl⟩
    · rintro ⟨_,rfl,rfl,rfl⟩
      exact ⟨rfl,rfl⟩
  | failed =>
    constructor
    · rintro ⟨rfl,rfl⟩
      exact ⟨_,rfl,rfl,rfl⟩
    · rintro ⟨_,rfl,rfl,rfl⟩
      exact ⟨rfl,rfl⟩
  | call request next ih =>
    rw [caught,Runs,ih,ih]
    constructor
    · rintro (⟨result,rfl,run⟩ | ⟨result,rfl,run⟩)
      · exact ⟨result,rfl,.inl run⟩
      · exact ⟨result,rfl,.inr run⟩
    · rintro ⟨result,rfl,run | run⟩
      · exact .inl ⟨result,rfl,run⟩
      · exact .inr ⟨result,rfl,run⟩

end Runs

/-- A part of a larger system runs as it does on its own share of the state, and leaves
the rest. -/
theorem runs_embed {handle : Handler κ α σ} {larger : Handler κ' α' σ'} {wrap : κ → κ'}
    {unwrap : ∀ request, α' (wrap request) → α request} (view : σ' → σ) (put : σ' → σ → σ')
    (made : ∀ request s, unwrap request (larger (wrap request) s).1 = (handle request (view s)).1 ∧
      (larger (wrap request) s).2 = put s (handle request (view s)).2)
    (view_put : ∀ s u, view (put s u) = u) (put_view : ∀ s, put s (view s) = s)
    (put_put : ∀ s u v, put (put s u) v = put s v) {routine : Routine κ α ρ} {s t : σ'} {result : Option ρ} :
    Runs larger (routine.embed wrap unwrap) s result t ↔ ∃ u, Runs handle routine (view s) result u ∧ t = put s u := by
  induction routine generalizing s with
  | done answer =>
    constructor
    · rintro ⟨rfl,rfl⟩
      exact ⟨_,⟨rfl,rfl⟩,(put_view t).symm⟩
    · rintro ⟨_,⟨rfl,rfl⟩,rfl⟩
      exact ⟨rfl,put_view s⟩
  | failed =>
    constructor
    · rintro ⟨rfl,rfl⟩
      exact ⟨_,⟨rfl,rfl⟩,(put_view t).symm⟩
    · rintro ⟨_,⟨rfl,rfl⟩,rfl⟩
      exact ⟨rfl,put_view s⟩
  | call request next ih =>
    obtain ⟨answered,became⟩ := made request s
    rw [embed,Runs,Option.map_some,answered,ih,Option.map_none,ih,became,view_put]
    simp only [put_put]
    rw [← exists_or]
    refine exists_congr fun u => ?_
    rw [← or_and_right]
    exact Iff.rfl

/-- A routine that ends where one of its calls fails. -/
inductive Strict : Routine κ α ρ → Prop
  | done (result : ρ) : Strict (.done result)
  | failed : Strict .failed
  | ask {request : κ} {next : α request → Routine κ α ρ} (rest : ∀ answer, Strict (next answer)) :
      Strict (.call request (answered next))

theorem strict_bind {first : Routine κ α ρ} {after : ρ → Routine κ α τ} (strict : Strict first)
    (rest : ∀ answer, Strict (after answer)) : Strict (first >>= after) := by
  induction strict with
  | done answer => exact rest answer
  | failed => exact .failed
  | ask _ ih =>
    rw [call_bind]
    simp only [answered_bind]
    exact .ask ih

theorem strict_ask (request : κ) : Strict (ask request : Routine κ α (α request)) := by
  have same : (ask request : Routine κ α (α request)) = .call request (answered .done) := by
    refine congrArg (Routine.call request) (funext fun answer => ?_)
    cases answer <;> rfl
  rw [same]
  exact .ask .done

/-- Such a routine comes to one result, or fails. -/
theorem Strict.unique {handle : Handler κ α σ} {routine : Routine κ α ρ} (strict : Strict routine) {s t u : σ} {a b : ρ}
    (first : Runs handle routine s (some a) t) (second : Runs handle routine s (some b) u) : a = b ∧ t = u := by
  induction strict generalizing s with
  | done answer =>
    obtain ⟨⟨⟩,rfl⟩ := first
    obtain ⟨⟨⟩,rfl⟩ := second
    exact ⟨rfl,rfl⟩
  | failed =>
    obtain ⟨⟨⟩,-⟩ := first
  | ask _ ih =>
    rcases first with first | ⟨⟨⟩,-⟩
    rcases second with second | ⟨⟨⟩,-⟩
    exact ih _ first second

end Qdrust.Library.Routine
