import Mathlib.Data.List.Basic
import Mathlib.Data.List.Nodup
import Mathlib.Data.List.Pairwise
import Mathlib.Data.List.Induction

/-! The wanted items of a list, each once, in the order of their first appearance. -/
namespace Qdrust.Library

variable {α : Type} [DecidableEq α] {wanted : α → Bool} {kept whole items : List α}

/-- Behind what is kept, the wanted items that are not there yet. -/
def collect (wanted : α → Bool) (kept items : List α) : List α :=
  items.foldl (fun kept a => if wanted a && !kept.contains a then kept ++ [a] else kept) kept

@[simp] theorem collect_nil : collect wanted kept [] = kept := rfl

theorem collect_append (more : List α) : collect wanted kept (items ++ more) = collect wanted (collect wanted kept items) more :=
  List.foldl_append

theorem collect_new {a : α} (wants : wanted a = true) (new : a ∉ kept) :
    collect wanted kept (a :: items) = collect wanted (kept ++ [a]) items := by
  rw [collect,List.foldl_cons,if_pos (by simp [wants,new])]
  rfl

theorem collect_old {a : α} (old : wanted a = true → a ∈ kept) :
    collect wanted kept (a :: items) = collect wanted kept items := by
  rw [collect,List.foldl_cons,if_neg (by simpa using old)]
  rfl

theorem mem_collect {a : α} : a ∈ collect wanted kept items ↔ a ∈ kept ∨ a ∈ items ∧ wanted a = true := by
  induction items generalizing kept with
  | nil => simp
  | cons b items ih =>
    by_cases push : wanted b = true ∧ b ∉ kept
    · rw [collect_new push.1 push.2,ih,List.mem_append,List.mem_singleton,List.mem_cons]
      constructor
      · rintro ((there | rfl) | ⟨there,wants⟩)
        · exact .inl there
        · exact .inr ⟨.inl rfl,push.1⟩
        · exact .inr ⟨.inr there,wants⟩
      · rintro (there | ⟨rfl | there,wants⟩)
        · exact .inl (.inl there)
        · exact .inl (.inr rfl)
        · exact .inr ⟨there,wants⟩
    · have old : wanted b = true → b ∈ kept := fun wants => not_not.mp fun new => push ⟨wants,new⟩
      rw [collect_old old,ih,List.mem_cons]
      constructor
      · rintro (there | ⟨there,wants⟩)
        · exact .inl there
        · exact .inr ⟨.inr there,wants⟩
      · rintro (there | ⟨rfl | there,wants⟩)
        · exact .inl there
        · exact .inl (old wants)
        · exact .inr ⟨there,wants⟩

/-- Items that were collected before are collected as the list they are from. -/
theorem collect_collect (first : α → Bool) (kept : List α) (items : List α) :
    collect wanted kept (collect first [] items) = collect wanted kept (items.filter first) := by
  induction items using List.reverseRecOn with
  | nil => rfl
  | append_singleton items a ih =>
    rw [collect_append,List.filter_append,collect_append]
    by_cases wants : first a = true
    · rw [List.filter_cons_of_pos wants,List.filter_nil]
      by_cases new : a ∈ collect first [] items
      · rw [collect_old fun _ => new,collect_nil,← ih,collect_old,collect_nil]
        exact fun again => mem_collect.mpr (.inr ⟨new,again⟩)
      · rw [collect_new wants new,collect_nil,collect_append,ih]
    · rw [List.filter_cons_of_neg wants,List.filter_nil,collect_old fun again => absurd again wants]
      exact ih

/-- The items of a list stand in the order in which they first appear in another. -/
def InOrder (items whole : List α) : Prop := items.Pairwise fun a b => whole.idxOf a < whole.idxOf b

theorem InOrder.nodup (ordered : InOrder items whole) : items.Nodup :=
  ordered.imp fun less same => absurd (congrArg whole.idxOf same) (Nat.ne_of_lt less)

theorem InOrder.append (ordered : InOrder items whole) (there : ∀ a ∈ items, a ∈ whole) (more : List α) :
    InOrder items (whole ++ more) := by
  refine ordered.imp_of_mem fun first second less => ?_
  rw [List.idxOf_append_of_mem (there _ first),List.idxOf_append_of_mem (there _ second)]
  exact less

/-- What is collected stays in order while nothing that is wanted now was passed over before. -/
theorem inOrder_collect (ordered : InOrder kept whole) (there : ∀ a ∈ kept, a ∈ whole)
    (fresh : ∀ a ∈ items, wanted a = true → a ∉ kept → a ∉ whole) : InOrder (collect wanted kept items) (whole ++ items) := by
  induction items generalizing kept whole with
  | nil => simpa using ordered
  | cons a items ih =>
    have split : whole ++ a :: items = (whole ++ [a]) ++ items := by simp
    rw [split]
    by_cases push : wanted a = true ∧ a ∉ kept
    · rw [collect_new push.1 push.2]
      have absent := fresh a List.mem_cons_self push.1 push.2
      refine ih ?_ ?_ ?_
      · refine List.pairwise_append.mpr ⟨ordered.append there [a],List.pairwise_singleton _ _,?_⟩
        intro b old c new
        rw [List.mem_singleton.mp new,List.idxOf_append_of_mem (there b old),List.idxOf_append_of_notMem absent]
        exact Nat.lt_of_lt_of_le (List.idxOf_lt_length_of_mem (there b old)) (Nat.le_add_right _ _)
      · intro b member
        rcases List.mem_append.mp member with old | new
        · exact List.mem_append_left _ (there b old)
        · exact List.mem_append_right _ new
      · intro b later wants new
        rw [List.mem_append,not_or] at new ⊢
        exact ⟨fresh b (List.mem_cons_of_mem _ later) wants new.1,new.2⟩
    · have old : wanted a = true → a ∈ kept := fun wants => not_not.mp fun new => push ⟨wants,new⟩
      rw [collect_old old]
      refine ih (ordered.append there [a]) (fun b member => List.mem_append_left _ (there b member)) ?_
      intro b later wants new
      rw [List.mem_append,not_or,List.mem_singleton]
      refine ⟨fresh b (List.mem_cons_of_mem _ later) wants new,?_⟩
      rintro rfl
      exact new (old wants)

end Qdrust.Library
