import Mathlib.Data.List.Forall2

/-! Two readings of one list of items. Whether the lists they give agree, as a
whole or on the values a test selects, is decided item by item. -/
namespace Qdrust.Library

variable {ι α β : Type}

/-- Related lists have the same properties, told on either side. -/
theorem forall_mem_iff {related : ι → α → Prop} {left : ι → Prop} {right : α → Prop} {items : List ι}
    {values : List α} (pairs : List.Forall₂ related items values)
    (each : ∀ item value, related item value → (left item ↔ right value)) :
    (∀ item ∈ items, left item) ↔ ∀ value ∈ values, right value := by
  induction pairs with
  | nil => exact iff_of_true (List.forall_mem_nil _) (List.forall_mem_nil _)
  | cons head _ ih => rw [List.forall_mem_cons,List.forall_mem_cons,each _ _ head,ih]

/-- Readings agree under a view exactly when they agree on every item. -/
theorem map_eq_map_iff {first second : ι → α → Prop} {view : α → β} {agree : ι → Prop}
    {items : List ι} {lefts rights : List α} (left : List.Forall₂ first items lefts)
    (right : List.Forall₂ second items rights)
    (each : ∀ item a b, first item a → second item b → (view a = view b ↔ agree item)) :
    lefts.map view = rights.map view ↔ ∀ item ∈ items, agree item := by
  induction left generalizing rights with
  | nil =>
    cases right
    simp
  | cons here _ ih =>
    cases right with
    | cons there others =>
      rw [List.map_cons,List.map_cons,List.cons.injEq,List.forall_mem_cons,each _ _ _ here there,ih others]

/-- A first reading that may fail exists, and agrees with the second, exactly
when it does on every item. -/
theorem exists_map_eq_iff {first second : ι → α → Prop} {view : α → β} {agree : ι → Prop} {items : List ι}
    {rights : List α} (right : List.Forall₂ second items rights)
    (each : ∀ item b, second item b → ((∃ a, first item a ∧ view a = view b) ↔ agree item)) :
    (∃ lefts, List.Forall₂ first items lefts ∧ lefts.map view = rights.map view) ↔
      ∀ item ∈ items, agree item := by
  induction right with
  | nil =>
    refine iff_of_true ⟨[],.nil,rfl⟩ (List.forall_mem_nil _)
  | cons there _ ih =>
    rw [List.forall_mem_cons,← each _ _ there,← ih]
    constructor
    · rintro ⟨_,left,same⟩
      cases left with
      | cons here others =>
        rw [List.map_cons,List.map_cons,List.cons.injEq] at same
        exact ⟨⟨_,here,same.1⟩,_,others,same.2⟩
    · rintro ⟨⟨a,here,same⟩,lefts,others,rest⟩
      exact ⟨a :: lefts,.cons here others,by rw [List.map_cons,List.map_cons,same,rest]⟩

/-- Dropping values first leaves a selection alone exactly when none of the
selected values is dropped. -/
theorem filter_filter_eq_iff {keep select : α → Bool} {values : List α} :
    (values.filter keep).filter select = values.filter select ↔
      ∀ value ∈ values, select value = true → keep value = true := by
  have swap : (values.filter keep).filter select = (values.filter select).filter keep := by
    rw [List.filter_filter,List.filter_filter]
    exact List.filter_congr fun value _ => Bool.and_comm _ _
  rw [swap,List.filter_eq_self]
  simp only [List.mem_filter,and_imp]

/-- Where the first reading selects no more than the second, the selected values
agree exactly when every value the second selects is read alike by the first. -/
theorem filter_eq_filter_iff {first second : ι → α → Prop} {select : α → Bool} {agree : ι → Prop}
    {items : List ι} {lefts rights : List α} (left : List.Forall₂ first items lefts)
    (right : List.Forall₂ second items rights)
    (fewer : ∀ item a b, first item a → second item b → select a = true → select b = true)
    (each : ∀ item a b, first item a → second item b → ((select b = true → a = b) ↔ agree item)) :
    lefts.filter select = rights.filter select ↔ ∀ item ∈ items, agree item := by
  have shorter : ∀ {items lefts rights}, List.Forall₂ first items lefts → List.Forall₂ second items rights →
      (lefts.filter select).length ≤ (rights.filter select).length := by
    intro items lefts rights left
    induction left generalizing rights with
    | nil =>
      intro right
      cases right
      simp
    | cons here _ ih =>
      intro right
      cases right with
      | cons there others =>
        have rest := ih others
        have step := fewer _ _ _ here there
        simp only [List.filter_cons]
        split
        · rw [if_pos (step ‹_›)]
          simpa using rest
        · split
          · simpa using Nat.le_succ_of_le rest
          · exact rest
  induction left generalizing rights with
  | nil =>
    cases right
    simp
  | @cons item a items lefts here rest ih =>
    cases right with
    | @cons _ b _ rights there others =>
      have remaining : lefts.filter select = rights.filter select ↔ ∀ item ∈ items, agree item := ih others
      rw [List.forall_mem_cons,← each item a b here there,← remaining,List.filter_cons,List.filter_cons]
      by_cases chosen : select b = true
      · by_cases also : select a = true
        · simp [chosen,also]
        · have gap : (lefts.filter select) ≠ b :: rights.filter select := by
            intro same
            have bound := shorter rest others
            rw [same,List.length_cons] at bound
            omega
          have other : a ≠ b := fun same => also (same ▸ chosen)
          simp [chosen,also,gap,other]
      · have neither : ¬select a = true := fun also => chosen (fewer _ _ _ here there also)
        simp [chosen,neither]

end Qdrust.Library
