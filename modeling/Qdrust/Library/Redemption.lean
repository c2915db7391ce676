import Qdrust.Library.Concurrent

/-! Redemptions of one stored secret by several processes. Each selects it, does
what it is good for and deletes it, in separate calls. -/
namespace Qdrust.Library

open Concurrent

variable {ι κ σ τ υ ρ ε : Type} {α : κ → Type}

/-- What comes between the select and the delete. -/
inductive Deed (κ : Type) where
  | refused
  | nothing
  | request (request : κ)

/-- `τ` is what the select tells of the secret. -/
structure Redemption (κ : Type) (α : κ → Type) (τ ρ : Type) where
  select : κ
  found : α select → Option τ
  deed : τ → Deed κ
  delete : κ
  result : τ → Option ρ

namespace Redemption

def finish (r : Redemption κ α τ ρ) (t : τ) : Routine κ α (Option ρ) :=
  .call r.delete (Routine.answered fun _ => .done (r.result t))

def perform (r : Redemption κ α τ ρ) (t : τ) : Routine κ α (Option ρ) :=
  match r.deed t with
  | .refused => .failed
  | .nothing => r.finish t
  | .request request => .call request (Routine.answered fun _ => r.finish t)

def selected (r : Redemption κ α τ ρ) (answer : α r.select) : Routine κ α (Option ρ) :=
  match r.found answer with
  | none => .done none
  | some t => r.perform t

def routine (r : Redemption κ α τ ρ) : Routine κ α (Option ρ) := .call r.select (Routine.answered r.selected)

/-- What the calls of a redemption do to the secret, stored as a row that `view` is told of. -/
structure Stores (handle : Handler κ α σ) (stored : σ → Option υ) (view : υ → τ) (r : Redemption κ α τ ρ) : Prop where
  found : ∀ s t, r.found (handle r.select s).1 = some t → ∃ row, stored s = some row ∧ view row = t
  selects : ∀ s, stored (handle r.select s).2 = stored s
  keeps : ∀ s t request, r.deed t = .request request → stored (handle request s).2 = stored s
  deletes : ∀ s, stored (handle r.delete s).2 = none
  apart : r.select ≠ r.delete
  other : ∀ t request, r.deed t = .request request → request ≠ r.delete

/-- The secret was deleted by a process. -/
def Deleted (r : ι → Redemption κ α τ ρ) (past : List (Event ι κ α)) (i : ι) : Prop :=
  ∃ event ∈ past, event.process = i ∧ event.request = (r i).delete ∧ event.answer.isSome

/-- A process did what the secret is good for, with an effect. -/
def Performed (affects : (request : κ) → α request → Prop) (r : ι → Redemption κ α τ ρ) (past : List (Event ι κ α)) (i : ι)
    (t : τ) : Prop :=
  match (r i).deed t with
  | .refused => False
  | .nothing => True
  | .request request => ∃ answer, ⟨i,request,some answer⟩ ∈ past ∧ affects request answer

/-- No delete and no deed is without an effect. -/
def Effective (handle : Handler κ α σ) (stored : σ → Option υ) (affects : (request : κ) → α request → Prop)
    (r : ι → Redemption κ α τ ρ) (s : Concurrent.State ι κ α σ (Option ρ)) : Action ι ε → Prop
  | .call i false => ∀ request next, s.process i = .call request next →
    (request = (r i).delete → stored s.shared ≠ none) ∧
      ∀ t, (r i).deed t = .request request → affects request (handle request s.shared).1
  | _ => True

/-- The secret was redeemed by one process at most, and is there until then. -/
structure RedeemedOnce (stored : σ → Option υ) (view : υ → τ) (affects : (request : κ) → α request → Prop)
    (r : ι → Redemption κ α τ ρ) (before : σ) (s : Concurrent.State ι κ α σ (Option ρ)) : Prop where
  once : ∀ i j a b, (s.process i).result = some (some a) → (s.process j).result = some (some b) → i = j
  performed : ∀ i a, (s.process i).result = some (some a) →
    ∃ row, stored before = some row ∧ (r i).result (view row) = some a ∧ Performed affects r s.past i (view row)
  consumed : stored s.shared = stored before ∨
    ∃ i row, stored before = some row ∧ (s.process i).result = some ((r i).result (view row)) ∧
      Performed affects r s.past i (view row)

section Rules

variable {handle : Handler κ α σ} {occur : ε → σ → Option σ} {stored : σ → Option υ} {view : υ → τ}
  {affects : (request : κ) → α request → Prop} {r : ι → Redemption κ α τ ρ} {before : Option υ}

/-- What a redemption still has to do. -/
inductive Stage (view : υ → τ) (affects : (request : κ) → α request → Prop) (r : ι → Redemption κ α τ ρ)
    (before : Option υ) (i : ι) (past : List (Event ι κ α)) : Routine κ α (Option ρ) → Prop
  | selecting (first : ¬Deleted r past i) : Stage view affects r before i past (.call (r i).select (Routine.answered (r i).selected))
  | performing (row : υ) (request : κ) (found : before = some row) (deed : (r i).deed (view row) = .request request)
      (first : ¬Deleted r past i) :
      Stage view affects r before i past (.call request (Routine.answered fun _ => (r i).finish (view row)))
  | finishing (row : υ) (found : before = some row) (performed : Performed affects r past i (view row))
      (first : ¬Deleted r past i) :
      Stage view affects r before i past (.call (r i).delete (Routine.answered fun _ => .done ((r i).result (view row))))
  | refused (first : ¬Deleted r past i) : Stage view affects r before i past (.done none)
  | failed (first : ¬Deleted r past i) : Stage view affects r before i past .failed
  | redeemed (row : υ) (found : before = some row) (performed : Performed affects r past i (view row))
      (ceased : Deleted r past i) : Stage view affects r before i past (.done ((r i).result (view row)))

/-- The secret, and who deleted it. -/
def Held (stored : σ → Option υ) (r : ι → Redemption κ α τ ρ) (before : Option υ) (world : World ι κ α σ) : Prop :=
  (stored world.shared = before ∧ ∀ i, ¬Deleted r world.past i) ∨
    (stored world.shared = none ∧ ∃ i, Deleted r world.past i ∧ ∀ j, Deleted r world.past j → j = i)

theorem deleted_cons (event : Event ι κ α) (past : List (Event ι κ α)) (i : ι) :
    Deleted r (event :: past) i ↔
      (event.process = i ∧ event.request = (r i).delete ∧ event.answer.isSome) ∨ Deleted r past i := by
  simp [Deleted]

/-- Only the delete of a process makes it the one that deleted. -/
theorem deleted_perform (world : World ι κ α σ) {i : ι} {request : κ} {fails : Bool}
    (other : fails = false → request ≠ (r i).delete) (j : ι) :
    Deleted r (world.perform handle i request fails).past j ↔ Deleted r world.past j := by
  cases fails with
  | true =>
    refine (deleted_cons _ _ _).trans ⟨fun either => either.resolve_left ?_,.inr⟩
    rintro ⟨_,_,made⟩
    cases made
  | false =>
    refine (deleted_cons _ _ _).trans ⟨fun either => either.resolve_left ?_,.inr⟩
    rintro ⟨rfl,same,_⟩
    exact other rfl same

theorem deleted_other (world : World ι κ α σ) {i j : ι} (differs : j ≠ i) (request : κ) (fails : Bool) :
    Deleted r (world.perform handle i request fails).past j ↔ Deleted r world.past j := by
  cases fails <;>
  · refine (deleted_cons _ _ _).trans ⟨fun either => either.resolve_left ?_,.inr⟩
    rintro ⟨same,_⟩
    exact differs same.symm

theorem performed_cons {i : ι} {t : τ} {past : List (Event ι κ α)} (event : Event ι κ α)
    (performed : Performed affects r past i t) : Performed affects r (event :: past) i t := by
  unfold Performed at performed ⊢
  split at performed
  · exact performed
  · trivial
  · obtain ⟨answer,there,effect⟩ := performed
    exact ⟨answer,List.mem_cons_of_mem _ there,effect⟩

theorem performed_perform {i j : ι} {t : τ} {world : World ι κ α σ} {request : κ} {fails : Bool}
    (performed : Performed affects r world.past j t) :
    Performed affects r (world.perform handle i request fails).past j t := by
  cases fails <;> exact performed_cons _ performed

/-- A call that deletes nothing and keeps the secret. -/
theorem held_perform {world : World ι κ α σ} (held : Held stored r before world) {i : ι} {request : κ} {fails : Bool}
    (other : fails = false → request ≠ (r i).delete)
    (keeps : fails = false → stored (handle request world.shared).2 = stored world.shared) :
    Held stored r before (world.perform handle i request fails) := by
  have same : stored (world.perform handle i request fails).shared = stored world.shared := by
    cases fails with
    | true => rfl
    | false => exact keeps rfl
  unfold Held
  simp only [same,deleted_perform world other]
  exact held

theorem stage_perform {i : ι} {row : υ} {past : List (Event ι κ α)} (found : before = some row) (first : ¬Deleted r past i) :
    Stage view affects r before i past ((r i).perform (view row)) := by
  unfold perform
  cases deed : (r i).deed (view row) with
  | refused => exact .failed first
  | nothing =>
    apply Stage.finishing row found _ first
    simp only [Performed,deed]
  | request request => exact .performing row request found deed first

/-- The call of one process. -/
theorem stage_own (stores : ∀ i, (r i).Stores handle stored view) {s : Concurrent.State ι κ α σ (Option ρ)} {i : ι} {request : κ}
    {next : Option (α request) → Routine κ α (Option ρ)} {fails : Bool}
    (effective : Effective handle stored affects r s (.call i fails : Action ι ε)) (held : Held stored r before s.toWorld)
    (outstanding : s.process i = .call request next) (stage : Stage view affects r before i s.past (.call request next)) :
    Held stored r before (s.toWorld.perform handle i request fails) ∧
      Stage view affects r before i (s.toWorld.perform handle i request fails).past (next (answer handle s.shared request fails)) := by
  cases fails with
  | true =>
    have none : next (answer handle s.shared request true) = .failed := by cases stage <;> rfl
    have first : ¬Deleted r s.past i := by cases stage <;> assumption
    rw [none]
    refine ⟨held_perform held nofun nofun,.failed ?_⟩
    have made : true = false → request ≠ (r i).delete := nofun
    rwa [deleted_perform s.toWorld made]
  | false =>
    obtain ⟨present,affecting⟩ := effective request next outstanding
    cases stage with
    | selecting first =>
      have other : false = false → (r i).select ≠ (r i).delete := fun _ => (stores i).apart
      refine ⟨held_perform held other fun _ => (stores i).selects s.shared,?_⟩
      have still : ¬Deleted r (s.toWorld.perform handle i (r i).select false).past i := by
        rwa [deleted_perform s.toWorld other]
      change Stage _ _ _ _ _ _ ((r i).selected (handle (r i).select s.shared).1)
      unfold selected
      cases found : (r i).found (handle (r i).select s.shared).1 with
      | none => exact .refused still
      | some t =>
        obtain ⟨row,there,rfl⟩ := (stores i).found s.shared t found
        apply stage_perform _ still
        rcases held with ⟨same,_⟩ | ⟨gone,_⟩
        · rw [← same,there]
        · rw [there] at gone
          cases gone
    | performing row request found deed first =>
      have other : false = false → request ≠ (r i).delete := fun _ => (stores i).other (view row) request deed
      refine ⟨held_perform held other fun _ => (stores i).keeps s.shared (view row) request deed,.finishing row found ?_ ?_⟩
      · simp only [Performed,deed]
        exact ⟨_,List.mem_cons_self,affecting (view row) deed⟩
      · rwa [deleted_perform s.toWorld other]
    | finishing row found performed first =>
      have mine : Deleted r (s.toWorld.perform handle i (r i).delete false).past i :=
        (deleted_cons _ _ _).mpr (.inl ⟨rfl,rfl,rfl⟩)
      refine ⟨.inr ⟨(stores i).deletes s.shared,i,mine,fun j ceased => ?_⟩,.redeemed row found (performed_perform performed) mine⟩
      by_contra differs
      rcases held with ⟨_,nobody⟩ | ⟨gone,_⟩
      · exact nobody j ((deleted_other s.toWorld differs _ _).mp ceased)
      · exact present rfl gone

/-- The call of another process. -/
theorem stage_other {world : World ι κ α σ} {i j : ι} (differs : j ≠ i) {request : κ} {fails : Bool}
    {action : Routine κ α (Option ρ)} (stage : Stage view affects r before j world.past action) :
    Stage view affects r before j (world.perform handle i request fails).past action := by
  have same : Deleted r (world.perform handle i request fails).past j ↔ Deleted r world.past j :=
    deleted_other world differs request fails
  cases stage with
  | selecting first => exact .selecting (mt same.mp first)
  | performing row request found deed first => exact .performing row request found deed (mt same.mp first)
  | finishing row found performed first => exact .finishing row found (performed_perform performed) (mt same.mp first)
  | refused first => exact .refused (mt same.mp first)
  | failed first => exact .failed (mt same.mp first)
  | redeemed row found performed ceased => exact .redeemed row found (performed_perform performed) (same.mpr ceased)

theorem stage_success {i : ι} {past : List (Event ι κ α)} {action : Routine κ α (Option ρ)} {a : ρ}
    (stage : Stage view affects r before i past action) (success : action.result = some (some a)) :
    Deleted r past i ∧ ∃ row, before = some row ∧ (r i).result (view row) = some a ∧ Performed affects r past i (view row) := by
  cases stage with
  | redeemed row found performed ceased => exact ⟨ceased,row,found,Option.some.inj success,performed⟩
  | _ => cases success

variable [DecidableEq ι]

/-- A secret whose every delete and every deed has an effect is redeemed at most once,
and is not consumed before. -/
theorem redeemed_once (stores : ∀ i, (r i).Stores handle stored view)
    (quiet : ∀ event shared shared', occur event shared = some shared' → stored shared' = stored shared) {shared : σ}
    {s : Concurrent.State ι κ α σ (Option ρ)}
    (reach : Transition.Reaches (step handle occur) (Effective handle stored affects r)
      (State.start shared fun i => (r i).routine) s) : RedeemedOnce stored view affects r shared s := by
  have nobody : ∀ i, ¬Deleted r [] i := by
    rintro i ⟨event,there,_⟩
    cases there
  have kept : Assertions (Held stored r (stored shared)) (fun i world => Stage view affects r (stored shared) i world.past) s := by
    refine assertions_kept _ _ ?_ ?_ ?_ reach ⟨.inl ⟨rfl,nobody⟩,fun i => .selecting (nobody i)⟩
    · intro s i request next fails holds effective outstanding
      exact stage_own stores effective holds.common outstanding (outstanding ▸ holds.stage i)
    · intro s i request next fails j holds _ _ differs
      exact stage_other differs (holds.stage j)
    · intro s event shared' holds _ occurred
      refine ⟨?_,holds.stage⟩
      have same := quiet event _ _ occurred
      unfold Held
      simp only [same]
      exact holds.common
  constructor
  · intro i j a b first second
    rcases kept.common with ⟨_,nobody⟩ | ⟨_,k,_,only⟩
    · exact absurd (stage_success (kept.stage i) first).1 (nobody i)
    · rw [only i (stage_success (kept.stage i) first).1,only j (stage_success (kept.stage j) second).1]
  · intro i a success
    exact (stage_success (kept.stage i) success).2
  · rcases kept.common with ⟨same,_⟩ | ⟨_,k,ceased,_⟩
    · exact .inl same
    · right
      have stage := kept.stage k
      generalize action : s.process k = mine at stage
      cases stage with
      | redeemed row found performed => exact ⟨k,row,found,by rw [action]; rfl,performed⟩
      | _ => contradiction

end Rules

end Redemption
end Qdrust.Library
