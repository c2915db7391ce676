import Qdrust.Library.Effect

/-! A body that is run again and again, each time after a check that lets it run. The check
knows the number of the iteration. -/
namespace Qdrust.Library.Effect

variable {ε σ : Type} {check : Nat → Effect ε σ Bool} {body : Effect ε σ Unit}

/-- `count` iterations from number `index` on that all succeed. -/
inductive Repeats (check : Nat → Effect ε σ Bool) (body : Effect ε σ Unit) : Nat → Nat → σ → σ → Prop where
  | none (index : Nat) (state : σ) : Repeats check body index 0 state state
  | more {index count : Nat} {state checked ran last : σ} (holds : check index state = (.ok true,checked))
      (runs : body checked = (.ok (),ran)) (rest : Repeats check body (index + 1) count ran last) :
      Repeats check body index (count + 1) state last

theorem Repeats.unique {index count : Nat} {state last other : σ} (left : Repeats check body index count state last)
    (right : Repeats check body index count state other) : last = other := by
  induction left with
  | none index state =>
    cases right
    rfl
  | more holds runs _ ih =>
    cases right with
    | more holds' runs' rest' =>
      cases holds.symm.trans holds'
      cases runs.symm.trans runs'
      exact ih rest'

/-- The iterations depend on the checks that are made. -/
theorem Repeats.congr {other : Nat → Effect ε σ Bool} {index count : Nat} {state last : σ}
    (same : ∀ i, index ≤ i → i < index + count → check i = other i) (repeats : Repeats check body index count state last) :
    Repeats other body index count state last := by
  induction repeats with
  | none index state => exact .none index state
  | more holds runs _ ih =>
    refine .more (by rw [← same _ (Nat.le_refl _) (by omega)]; exact holds) runs (ih fun i low high => same i (by omega) (by omega))

/-- What every iteration that succeeds keeps. -/
theorem Repeats.keeps {P : σ → Prop} {index count : Nat} {state last : σ} (repeats : Repeats check body index count state last)
    (checks : ∀ i state checked, P state → check i state = (.ok true,checked) → P checked)
    (runs : ∀ state ran, P state → body state = (.ok (),ran) → P ran) (initial : P state) : P last := by
  induction repeats with
  | none => exact initial
  | more holds done _ ih => exact ih (runs _ _ (checks _ _ _ initial holds) done)

/-- One iteration more. -/
theorem Repeats.snoc {index count : Nat} {state last checked ran : σ} (repeats : Repeats check body index count state last)
    (holds : check (index + count) last = (.ok true,checked)) (runs : body checked = (.ok (),ran)) :
    Repeats check body index (count + 1) state ran := by
  induction repeats with
  | none index state => exact .more holds runs (.none _ _)
  | @more index count state checked' ran' last holds' runs' rest ih =>
    exact .more holds' runs' (ih (by rwa [show index + 1 + count = index + (count + 1) from by omega]))

/-- A check that lets an iteration run has been answered so after the iterations before it. -/
theorem Repeats.answered {index count less : Nat} {state last middle : σ} (repeats : Repeats check body index count state last)
    (first : Repeats check body index less state middle) (within : less < count) :
    ∃ checked, check (index + less) middle = (.ok true,checked) := by
  induction first generalizing count with
  | none index state =>
    cases repeats with
    | none => omega
    | more holds _ _ => exact ⟨_,holds⟩
  | @more index less state checked ran middle holds runs _ ih =>
    cases repeats with
    | none => omega
    | more holds' runs' rest =>
      cases holds.symm.trans holds'
      cases runs.symm.trans runs'
      rw [show index + (less + 1) = index + 1 + less from by omega]
      exact ih rest (by omega)

/-- The first iterations of several. -/
theorem Repeats.before {index count : Nat} {state last : σ} (repeats : Repeats check body index (count + 1) state last) :
    ∃ middle checked, Repeats check body index count state middle ∧ check (index + count) middle = (.ok true,checked) ∧
      body checked = (.ok (),last) := by
  induction count generalizing index state with
  | zero =>
    cases repeats with
    | @more _ _ _ checked ran _ holds runs rest =>
      cases rest
      exact ⟨state,checked,.none index state,holds,runs⟩
  | succ count ih =>
    cases repeats with
    | @more _ _ _ checked ran _ holds runs rest =>
      obtain ⟨middle,later,first,last,done⟩ := ih rest
      exact ⟨middle,later,.more holds runs first,by rwa [show index + (count + 1) = index + 1 + count from by omega],done⟩

end Qdrust.Library.Effect
