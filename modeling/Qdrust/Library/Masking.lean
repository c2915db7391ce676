import Mathlib.Data.List.Basic

/-! Texts in which stretches are masked, and marks dropped that nothing follows but what ends them. -/
namespace Qdrust.Library.Masking

variable {α : Type}

/-- What is masked, by what, and which mark may be dropped before what. -/
structure Rules (α : Type) where
  mask : List α
  hidden : α → Bool
  mark : α
  stop : α → Bool
  nonempty : mask ≠ []

/-- A text, and what a masking with the rules may make of it. -/
inductive Masked (rules : Rules α) : List α → List α → Prop
  | nil : Masked rules [] []
  | copy {text out : List α} (c : α) : Masked rules text out → Masked rules (c :: text) (c :: out)
  | hide {text out : List α} (stretch : List α) (hidden : ∀ c ∈ stretch, rules.hidden c = true) :
      Masked rules text out → Masked rules (stretch ++ text) (rules.mask ++ out)
  | drop {text out : List α} (stop : ∀ c ∈ out.head?, rules.stop c = true) :
      Masked rules text out → Masked rules (rules.mark :: text) out

variable {rules : Rules α} {text out : List α}

theorem Masked.copies (masked : Masked rules text out) (front : List α) : Masked rules (front ++ text) (front ++ out) := by
  induction front with
  | nil => exact masked
  | cons c front ih => exact ih.copy c

/-- Every element of the outcome is one of the text or of the mask. -/
theorem Masked.mem_out (masked : Masked rules text out) {c : α} (inside : c ∈ out) : c ∈ text ∨ c ∈ rules.mask := by
  induction masked with
  | nil => exact Or.inl inside
  | copy d _ ih =>
    rcases List.mem_cons.mp inside with rfl | inside
    · exact Or.inl List.mem_cons_self
    · exact (ih inside).imp_left (List.mem_cons_of_mem d)
  | hide stretch _ _ ih =>
    rcases List.mem_append.mp inside with inside | inside
    · exact Or.inr inside
    · exact (ih inside).imp_left (List.mem_append_right stretch)
  | drop _ _ ih => exact (ih inside).imp_left (List.mem_cons_of_mem _)

end Qdrust.Library.Masking
