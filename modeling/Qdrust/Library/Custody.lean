import Mathlib.Logic.Function.Basic
import Mathlib.Data.List.Nodup
import Mathlib.Data.List.Perm.Basic

/-! Tokens that are issued one after the other, and the places that hold them. A token is held
at one place, once, from its issue on. -/
namespace Qdrust.Library

variable {P : Type} {next : Nat} {held after : P → List Nat}

/-- The tokens below `next` are held, each at one place and once. -/
structure Kept (next : Nat) (held : P → List Nat) : Prop where
  once : ∀ p, (held p).Nodup
  apart : ∀ p q token, token ∈ held p → token ∈ held q → p = q
  issued : ∀ p, ∀ token ∈ held p, token < next
  all : ∀ token < next, ∃ p, token ∈ held p

namespace Kept

theorem empty : Kept 0 fun _ : P => [] where
  once _ := List.nodup_nil
  apart _ _ _ there := absurd there List.not_mem_nil
  issued _ _ there := absurd there List.not_mem_nil
  all _ below := absurd below (Nat.not_lt_zero _)

/-- The next token is issued to a place. -/
theorem issue (kept : Kept next held) {p : P} (new : after p = next :: held p) (others : ∀ q, q ≠ p → after q = held q) :
    Kept (next + 1) after := by
  have old : ∀ q token, token ∈ after q → token ∈ held q ∨ token = next ∧ q = p := by
    intro q token there
    by_cases same : q = p
    · subst same
      rw [new] at there
      rcases List.mem_cons.mp there with rfl | there
      · exact .inr ⟨rfl,rfl⟩
      · exact .inl there
    · rw [others q same] at there
      exact .inl there
  constructor
  · intro q
    by_cases same : q = p
    · subst same
      rw [new]
      exact List.nodup_cons.mpr ⟨fun there => Nat.lt_irrefl _ (kept.issued q _ there),kept.once q⟩
    · rw [others q same]
      exact kept.once q
  · intro q r token first second
    rcases old q token first with first | ⟨rfl,rfl⟩
    · rcases old r token second with second | ⟨rfl,rfl⟩
      · exact kept.apart q r token first second
      · exact absurd (kept.issued q _ first) (Nat.lt_irrefl _)
    · rcases old r _ second with second | ⟨_,rfl⟩
      · exact absurd (kept.issued r _ second) (Nat.lt_irrefl _)
      · rfl
  · intro q token there
    rcases old q token there with there | ⟨rfl,_⟩
    · exact Nat.lt_succ_of_lt (kept.issued q token there)
    · exact Nat.lt_succ_self _
  · intro token below
    rcases Nat.lt_succ_iff_lt_or_eq.mp below with below | rfl
    · obtain ⟨q,there⟩ := kept.all token below
      by_cases same : q = p
      · subst same
        exact ⟨q,by rw [new]; exact List.mem_cons_of_mem _ there⟩
      · exact ⟨q,by rw [others q same]; exact there⟩
    · exact ⟨p,by rw [new]; exact List.mem_cons_self⟩

/-- Two places exchange tokens. -/
theorem exchange (kept : Kept next held) {p q : P} (differs : p ≠ q) (exchanged : (after p ++ after q).Perm (held p ++ held q))
    (others : ∀ r, r ≠ p → r ≠ q → after r = held r) : Kept next after := by
  have both : ∀ token, token ∈ after p ∨ token ∈ after q ↔ token ∈ held p ∨ token ∈ held q := by
    intro token
    rw [← List.mem_append,exchanged.mem_iff,List.mem_append]
  have distinct : (after p ++ after q).Nodup := by
    refine exchanged.nodup_iff.mpr (List.nodup_append'.mpr ⟨kept.once p,kept.once q,?_⟩)
    exact fun token first second => differs (kept.apart p q token first second)
  obtain ⟨first,second,disjoint⟩ := List.nodup_append'.mp distinct
  -- a place that is not one of the two holds what it held, and none of what they hold
  have source : ∀ r token, token ∈ after r → (r = p ∨ r = q) ∧ (token ∈ held p ∨ token ∈ held q) ∨
      r ≠ p ∧ r ≠ q ∧ token ∈ held r := by
    intro r token there
    by_cases isP : r = p
    · subst isP
      exact .inl ⟨.inl rfl,(both token).mp (.inl there)⟩
    · by_cases isQ : r = q
      · subst isQ
        exact .inl ⟨.inr rfl,(both token).mp (.inr there)⟩
      · rw [others r isP isQ] at there
        exact .inr ⟨isP,isQ,there⟩
  have outside : ∀ r token, r ≠ p → r ≠ q → token ∈ held r → ¬(token ∈ held p ∨ token ∈ held q) := by
    rintro r token isP isQ there (one | one)
    · exact isP (kept.apart r p token there one)
    · exact isQ (kept.apart r q token there one)
  constructor
  · intro r
    by_cases isP : r = p
    · rw [isP]
      exact first
    · by_cases isQ : r = q
      · rw [isQ]
        exact second
      · rw [others r isP isQ]
        exact kept.once r
  · intro r t token one two
    rcases source r token one with ⟨here,held⟩ | ⟨isP,isQ,there⟩
    · rcases source t token two with ⟨here',_⟩ | ⟨isP',isQ',there'⟩
      · rcases here with rfl | rfl <;> rcases here' with rfl | rfl
        · rfl
        · exact absurd two (disjoint one)
        · exact absurd one (disjoint two)
        · rfl
      · exact absurd held (outside t token isP' isQ' there')
    · rcases source t token two with ⟨_,held⟩ | ⟨_,_,there'⟩
      · exact absurd held (outside r token isP isQ there)
      · exact kept.apart r t token there there'
  · intro r token there
    rcases source r token there with ⟨_,held | held⟩ | ⟨_,_,held⟩
    · exact kept.issued p token held
    · exact kept.issued q token held
    · exact kept.issued r token held
  · intro token below
    obtain ⟨r,there⟩ := kept.all token below
    by_cases here : r = p ∨ r = q
    · have held : token ∈ held p ∨ token ∈ held q := by
        rcases here with rfl | rfl
        · exact .inl there
        · exact .inr there
      rcases (both token).mpr held with one | one
      · exact ⟨p,one⟩
      · exact ⟨q,one⟩
    · rw [not_or] at here
      exact ⟨r,by rw [others r here.1 here.2]; exact there⟩

/-- Nothing is moved. -/
theorem same (kept : Kept next held) (unchanged : ∀ p, after p = held p) : Kept next after := by
  have all : after = held := funext unchanged
  rw [all]
  exact kept

end Kept
end Qdrust.Library
