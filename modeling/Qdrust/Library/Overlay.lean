import Qdrust.Library.Transition
import Mathlib.Logic.Function.Basic

/-! Partial changes of a record, and two writers of one cell that read it,
prepare what they write and write it back in separate steps. -/
namespace Qdrust.Library

/-- New values for some of the places of a record. -/
abbrev Change (ι ν : Type*) := ι → Option ν

namespace Change

variable {ι ν : Type*} {change first second : Change ι ν} {before after : ι → ν}

/-- The changed places hold their new values and the others keep theirs. -/
def Framed (change : Change ι ν) (before after : ι → ν) : Prop := ∀ i, after i = (change i).getD (before i)

/-- The changed places hold their new values. -/
def Present (change : Change ι ν) (values : ι → ν) : Prop := ∀ i value, change i = some value → values i = value

/-- No place is changed by both. -/
def Disjoint (first second : Change ι ν) : Prop := ∀ i, first i = none ∨ second i = none

theorem Disjoint.symm (disjoint : Disjoint first second) : Disjoint second first := fun i => (disjoint i).symm

theorem Framed.present (framed : change.Framed before after) : change.Present after := by
  intro i value changed
  rw [framed i,changed]
  rfl

theorem Framed.kept (framed : change.Framed before after) {i : ι} (unchanged : change i = none) :
    after i = before i := by
  rw [framed i,unchanged]
  rfl

/-- A framed change keeps a disjoint one, and does not bring it about. -/
theorem Framed.present_iff (framed : second.Framed before after) (disjoint : Disjoint first second) :
    first.Present after ↔ first.Present before := by
  refine forall_congr' fun i => forall_congr' fun value => imp_congr_right fun changed => ?_
  have unchanged : second i = none := (disjoint i).resolve_left (by simp [changed])
  rw [framed.kept unchanged]

end Change

namespace Writers

open Transition

/-- What a writer read and prepared, and whether a write came before. -/
structure Reading (σ κ : Type*) where
  seen : σ
  prepared : κ
  late : Bool

inductive Phase (σ κ : Type*) where
  | ready
  | holding (reading : Reading σ κ)
  | done (reading : Reading σ κ)

/-- The cell, the two writers and who has written, in order. -/
structure State (σ κ : Type*) where
  cell : σ
  phase : Bool → Phase σ κ
  wrote : List Bool

variable {σ κ : Type*} {prepare : Bool → σ → Option κ} {commit : Bool → σ → κ → σ}

def State.start (cell : σ) : State σ κ := ⟨cell,fun _ => .ready,[]⟩

/-- One writer goes on to its next phase. -/
def State.move (s : State σ κ) (writer : Bool) (phase : Phase σ κ) : State σ κ :=
  { s with phase := Function.update s.phase writer phase }

/-- The write of what a writer holds. -/
def State.write (s : State σ κ) (writer : Bool) (cell : σ) (reading : Reading σ κ) : State σ κ :=
  { s.move writer (.done reading) with
    cell
    wrote := s.wrote ++ [writer] }

@[simp] theorem move_self (s : State σ κ) (writer : Bool) (phase : Phase σ κ) :
    (s.move writer phase).phase writer = phase := Function.update_self _ _ _

theorem move_other (s : State σ κ) {writer other : Bool} (differs : other ≠ writer) (phase : Phase σ κ) :
    (s.move writer phase).phase other = s.phase other := Function.update_of_ne differs _ _

@[simp] theorem write_phase (s : State σ κ) (writer : Bool) (cell : σ) (reading : Reading σ κ) :
    (s.write writer cell reading).phase = (s.move writer (.done reading)).phase := rfl

@[simp] theorem write_wrote (s : State σ κ) (writer : Bool) (cell : σ) (reading : Reading σ κ) :
    (s.write writer cell reading).wrote = s.wrote ++ [writer] := rfl

/-- The next step of one writer: its read, refused where nothing can be
prepared, or its write. -/
def step (prepare : Bool → σ → Option κ) (commit : Bool → σ → κ → σ) (s : State σ κ) (writer : Bool) :
    Option (State σ κ) :=
  match s.phase writer with
  | .ready => (prepare writer s.cell).map fun prepared =>
    s.move writer (.holding ⟨s.cell,prepared,!s.wrote.isEmpty⟩)
  | .holding reading => some (s.write writer (commit writer s.cell reading.prepared) reading)
  | .done _ => none

/-- Both have written, `first` before the other. -/
structure Finished (s : State σ κ) (first : Bool) (one two : Reading σ κ) : Prop where
  order : s.wrote = [first,!first]
  early : s.phase first = .done one
  last : s.phase (!first) = .done two

/-- A reading of the initial cell. -/
structure Early (prepare : Bool → σ → Option κ) (start : σ) (writer : Bool) (reading : Reading σ κ) : Prop where
  seen : reading.seen = start
  late : reading.late = false
  prepared : prepare writer reading.seen = some reading.prepared

/-- A reading of the initial cell or of the cell after the one write. -/
structure Second (prepare : Bool → σ → Option κ) (start written : σ) (writer : Bool) (reading : Reading σ κ) :
    Prop where
  seen : reading.seen = if reading.late then written else start
  prepared : prepare writer reading.seen = some reading.prepared

/-- The states of a run, by the writes so far. -/
inductive Shape (prepare : Bool → σ → Option κ) (commit : Bool → σ → κ → σ) (start : σ) : State σ κ → Prop
  | unwritten (s) (cell : s.cell = start) (wrote : s.wrote = [])
      (each : ∀ writer, s.phase writer = .ready ∨
        ∃ reading, s.phase writer = .holding reading ∧ Early prepare start writer reading) :
      Shape prepare commit start s
  | once (s first one) (cell : s.cell = commit first start one.prepared) (wrote : s.wrote = [first])
      (early : s.phase first = .done one) (read : Early prepare start first one)
      (other : s.phase (!first) = .ready ∨ ∃ two, s.phase (!first) = .holding two ∧
        Second prepare start (commit first start one.prepared) (!first) two) :
      Shape prepare commit start s
  | twice (s first one two) (cell : s.cell = commit (!first) (commit first start one.prepared) two.prepared)
      (finished : Finished s first one two) (read : Early prepare start first one)
      (again : Second prepare start (commit first start one.prepared) (!first) two) :
      Shape prepare commit start s

theorem Early.second {start written : σ} {writer : Bool} {reading : Reading σ κ}
    (early : Early prepare start writer reading) : Second prepare start written writer reading :=
  ⟨by rw [early.late,early.seen]; rfl,early.prepared⟩

/-- Every step of a writer goes from one shape to the next. -/
theorem shape_step {start : σ} {s t : State σ κ} {writer : Bool} (shape : Shape prepare commit start s)
    (taken : step prepare commit s writer = some t) : Shape prepare commit start t := by
  unfold step at taken
  cases shape with
  | unwritten cell wrote each =>
    rcases each writer with ready | ⟨reading,holding,early⟩
    · rw [ready] at taken
      obtain ⟨prepared,ok,rfl⟩ := Option.map_eq_some_iff.mp taken
      refine .unwritten _ cell wrote fun other => ?_
      by_cases same : other = writer
      · subst other
        exact Or.inr ⟨_,move_self _ _ _,cell,by simp [wrote],ok⟩
      · rw [move_other s same]
        exact each other
    · rw [holding] at taken
      cases taken
      refine .once _ writer reading (congrArg (fun c => commit writer c _) cell) (by simp [wrote]) (move_self _ _ _)
        early ?_
      rw [write_phase,move_other s (by simp)]
      rcases each (!writer) with ready | ⟨two,held,early⟩
      · exact Or.inl ready
      · exact Or.inr ⟨two,held,early.second⟩
  | once first one cell wrote early read other =>
    obtain rfl | same : writer = first ∨ writer = !first := by cases writer <;> cases first <;> simp
    · simp [early] at taken
    subst writer
    have kept (phase) : (s.move (!first) phase).phase first = .done one := (move_other s (by simp) _).trans early
    rcases other with ready | ⟨two,holding,second⟩
    · rw [ready] at taken
      obtain ⟨prepared,ok,rfl⟩ := Option.map_eq_some_iff.mp taken
      refine .once _ first one cell wrote (kept _) read (Or.inr ⟨_,move_self _ _ _,?_,ok⟩)
      simp [wrote,cell]
    · rw [holding] at taken
      cases taken
      refine .twice _ first one two (congrArg (fun c => commit (!first) c _) cell) ⟨?_,kept _,move_self _ _ _⟩ read second
      simp [wrote]
  | twice first one two cell finished read again =>
    obtain rfl | same : writer = first ∨ writer = !first := by cases writer <;> cases first <;> simp
    · simp [finished.early] at taken
    · subst writer
      simp [finished.last] at taken

/-- What a finished run has done: the first write comes from the initial cell,
and so does the second unless its reading came after the first. -/
theorem finished_run {start : σ} {actions : List Bool} {s : State σ κ} {first : Bool} {one two : Reading σ κ}
    (ran : exec (step prepare commit) (State.start start) actions = some s) (finished : Finished s first one two) :
    Early prepare start first one ∧ Second prepare start (commit first start one.prepared) (!first) two ∧
      s.cell = commit (!first) (commit first start one.prepared) two.prepared := by
  have shape : Shape prepare commit start s := (reachable_of_exec ran).invariant
    (fun _ _ _ shape _ taken => shape_step shape taken) (.unwritten _ rfl rfl fun _ => Or.inl rfl)
  cases shape with
  | unwritten cell wrote each => exact absurd finished.order (by simp [wrote])
  | once first one cell wrote early read other => exact absurd finished.order (by simp [wrote])
  | twice begun early late cell found read again =>
    have same : begun = first := by
      have order := found.order.symm.trans finished.order
      exact (List.cons.inj order).1
    subst begun
    have sameOne : early = one := by simpa using found.early.symm.trans finished.early
    have sameTwo : late = two := by simpa using found.last.symm.trans finished.last
    subst early late
    exact ⟨read,again,cell⟩

end Writers
end Qdrust.Library
