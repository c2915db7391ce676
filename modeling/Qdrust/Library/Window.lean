import Mathlib.Data.List.Count
import Mathlib.Data.List.Pairwise
import Mathlib.Order.Lattice

/-! Half-open windows over a linear order that are opened one after another.
A point falls into exactly one of them when the first window that reaches it
begins before it and the next one does not reach back to it. -/
namespace Qdrust.Library

structure Window (α : Type) where
  lo : α
  hi : α

namespace Window

variable {α : Type} [LinearOrder α]

/-- `x` lies in `(lo, hi]`. -/
def covers (x : α) (w : Window α) : Bool := decide (w.lo < x) && decide (x ≤ w.hi)

theorem covers_iff {x : α} {w : Window α} : covers x w = true ↔ w.lo < x ∧ x ≤ w.hi := by
  simp [covers]

/-- Later windows end later and do not begin earlier. -/
def Advancing (windows : List (Window α)) : Prop :=
  windows.Pairwise fun v w => v.hi < w.hi ∧ v.lo ≤ w.lo

/-- `w` is the first window that reaches `x`; `past` ended before it. -/
structure Reaching (windows : List (Window α)) (x : α) (past : List (Window α)) (w : Window α)
    (future : List (Window α)) : Prop where
  split : windows = past ++ w :: future
  before : ∀ v ∈ past, v.hi < x
  reached : x ≤ w.hi

theorem exists_reaching (windows : List (Window α)) (x : α) (ends : ∃ w ∈ windows, x ≤ w.hi) :
    ∃ past w future, Reaching windows x past w future := by
  induction windows with
  | nil =>
    obtain ⟨_,member,_⟩ := ends
    cases member
  | cons head rest ih =>
    by_cases here : x ≤ head.hi
    · exact ⟨[],head,rest,rfl,by simp,here⟩
    · have later : ∃ w ∈ rest, x ≤ w.hi := by
        obtain ⟨w,member,reached⟩ := ends
        rcases List.mem_cons.mp member with rfl | inside
        · exact absurd reached here
        · exact ⟨w,inside,reached⟩
      obtain ⟨past,w,future,split,before,reached⟩ := ih later
      refine ⟨head::past,w,future,by rw [split]; rfl,?_,reached⟩
      intro v member
      rcases List.mem_cons.mp member with rfl | inside
      · exact lt_of_not_ge here
      · exact before v inside

theorem count_past {past : List (Window α)} {x : α} (before : ∀ v ∈ past, v.hi < x) :
    past.countP (covers x) = 0 := by
  rw [List.countP_eq_zero]
  intro v member
  simp [covers,not_le_of_gt (before v member)]

theorem count_future {future : List (Window α)} {x : α} (beyond : ∀ v ∈ future, x ≤ v.hi) :
    future.countP (covers x) = 0 ↔ ∀ v ∈ future, x ≤ v.lo := by
  rw [List.countP_eq_zero]
  refine forall₂_congr fun v member => ?_
  simp [covers,beyond v member]

/-- The windows a point falls into, counted from the first that reaches it. -/
theorem count_eq_one (windows : List (Window α)) (advancing : Advancing windows) (x : α)
    {past : List (Window α)} {w : Window α} {future : List (Window α)}
    (reaching : Reaching windows x past w future) :
    windows.countP (covers x) = 1 ↔ w.lo < x ∧ ∀ v ∈ future.head?, x ≤ v.lo := by
  obtain ⟨rfl,before,reached⟩ := reaching
  have ordered := (List.pairwise_append.mp advancing).2.1
  obtain ⟨first,rest⟩ := List.pairwise_cons.mp ordered
  have beyond : ∀ v ∈ future, x ≤ v.hi := fun v member => le_of_lt (lt_of_le_of_lt reached (first v member).1)
  have next : (∀ v ∈ future.head?, x ≤ v.lo) ↔ ∀ v ∈ future, x ≤ v.lo := by
    cases future with
    | nil => simp
    | cons v others =>
      simp only [List.head?_cons,Option.mem_def,Option.some.injEq,forall_eq',List.mem_cons,forall_eq_or_imp]
      refine ⟨fun low => ⟨low,fun u member => ?_⟩,fun all => all.1⟩
      exact le_trans low ((List.pairwise_cons.mp rest).1 u member).2
  rw [List.countP_append,count_past before,List.countP_cons,next,← count_future beyond]
  by_cases low : w.lo < x
  · simp [covers,low,reached]
  · -- a window that begins at `x` or later is followed by windows that do too
    have gone : future.countP (covers x) = 0 :=
      (count_future beyond).mpr fun v member => le_trans (le_of_not_gt low) (first v member).2
    simp [covers,low,gone]

end Window
end Qdrust.Library
