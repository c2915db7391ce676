import Mathlib.Data.List.Nodup

/-! How many of arbitrarily many processes have a property, and what becomes of the
number when one of them changes. -/
namespace Qdrust.Library

variable {ι : Type} {p q : ι → Prop} {i : ι} {m n : Nat}

def AtMost (n : Nat) (p : ι → Prop) : Prop := ∀ those : List ι, those.Nodup → (∀ i ∈ those, p i) → those.length ≤ n

def AtLeast (n : Nat) (p : ι → Prop) : Prop := ∃ those : List ι, those.Nodup ∧ (∀ i ∈ those, p i) ∧ n ≤ those.length

theorem AtMost.mono (few : AtMost n p) (implied : ∀ j, q j → p j) : AtMost n q :=
  fun those distinct all => few those distinct fun j there => implied j (all j there)

theorem AtLeast.mono (many : AtLeast n p) (implied : ∀ j, p j → q j) : AtLeast n q := by
  obtain ⟨those,distinct,all,enough⟩ := many
  exact ⟨those,distinct,fun j there => implied j (all j there),enough⟩

theorem AtLeast.zero (p : ι → Prop) : AtLeast 0 p := ⟨[],List.nodup_nil,by simp,Nat.zero_le _⟩

theorem AtMost.zero (none : ∀ j, ¬p j) : AtMost 0 p := by
  intro those _ all
  cases those with
  | nil => exact Nat.le_refl 0
  | cons j those => exact absurd (all j List.mem_cons_self) (none j)

/-- One more than those counted below are counted above. -/
theorem AtLeast.lt (many : AtLeast m p) (few : AtMost n q) (implied : ∀ j, p j → q j) (here : q i) (other : ¬p i) : m < n := by
  obtain ⟨those,distinct,all,enough⟩ := many
  have fresh : i ∉ those := fun there => other (all i there)
  have bound := few (i :: those) (List.nodup_cons.mpr ⟨fresh,distinct⟩) fun j there => by
    rcases List.mem_cons.mp there with rfl | old
    · exact here
    · exact implied j (all j old)
  rw [List.length_cons] at bound
  omega

theorem AtLeast.enter (many : AtLeast n p) (others : ∀ j, j ≠ i → p j → q j) (absent : ¬p i) (here : q i) :
    AtLeast (n + 1) q := by
  obtain ⟨those,distinct,all,enough⟩ := many
  have fresh : i ∉ those := fun there => absent (all i there)
  refine ⟨i :: those,List.nodup_cons.mpr ⟨fresh,distinct⟩,fun j there => ?_,Nat.succ_le_succ enough⟩
  rcases List.mem_cons.mp there with rfl | old
  · exact here
  · exact others j (fun same => fresh (same ▸ old)) (all j old)

theorem AtMost.leave (few : AtMost n p) (others : ∀ j, j ≠ i → q j → p j) (here : p i) (gone : ¬q i) : AtMost (n - 1) q := by
  intro those distinct all
  have fresh : i ∉ those := fun there => gone (all i there)
  have bound := few (i :: those) (List.nodup_cons.mpr ⟨fresh,distinct⟩) fun j there => by
    rcases List.mem_cons.mp there with rfl | old
    · exact here
    · exact others j (fun same => fresh (same ▸ old)) (all j old)
  rw [List.length_cons] at bound
  omega

section Changes

variable [DecidableEq ι]

theorem AtMost.enter (few : AtMost n p) (others : ∀ j, j ≠ i → q j → p j) : AtMost (n + 1) q := by
  intro those distinct all
  have bound := few (those.erase i) (distinct.erase i) fun j there => by
    obtain ⟨differs,old⟩ := (distinct.mem_erase_iff).mp there
    exact others j differs (all j old)
  have size := List.length_erase (a := i) (l := those)
  split at size <;> omega

theorem AtLeast.leave (many : AtLeast n p) (others : ∀ j, j ≠ i → p j → q j) : AtLeast (n - 1) q := by
  obtain ⟨those,distinct,all,enough⟩ := many
  refine ⟨those.erase i,distinct.erase i,fun j there => ?_,?_⟩
  · obtain ⟨differs,old⟩ := (distinct.mem_erase_iff).mp there
    exact others j differs (all j old)
  · have size := List.length_erase (a := i) (l := those)
    split at size <;> omega

end Changes

end Qdrust.Library
