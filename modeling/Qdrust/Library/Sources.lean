import Mathlib.Data.Option.Basic

/-! A setting with two sources and a default: the first source, else the second one, else the
default. Programs that merge the sources another way do so where the sources allow it. -/
namespace Qdrust.Library

structure Sources (α : Type*) where
  first : Option α
  second : Option α
  unset : α

namespace Sources

variable {α : Type*} {first second : Option α} {unset : α}

def chosen (sources : Sources α) : α := (sources.first.or sources.second).getD sources.unset

/-- The sources do not contradict each other. -/
def Agree (first second : Option α) : Prop := ∀ x ∈ first, ∀ y ∈ second, x = y

/-- Where the second source comes first. -/
theorem reversed_iff : second.getD (first.getD unset) = chosen ⟨first,second,unset⟩ ↔ Agree first second := by
  cases first with
  | none => simp [chosen,Agree]
  | some x => cases second <;> simp [chosen,Agree,eq_comm]

/-- Where the second source is not read. -/
theorem unread_iff : first.getD unset = chosen ⟨first,second,unset⟩ ↔ first = none → ∀ y ∈ second, y = unset := by
  cases first with
  | none => cases second <;> simp [chosen,eq_comm]
  | some x => simp [chosen]

theorem unread_none : first.getD unset = chosen ⟨first,none,unset⟩ := by
  rw [chosen,Option.or_none]

end Sources

end Qdrust.Library
