import Qdrust.Scheduler.Steps

/-! What becomes of a run whose execution fails. The completion searches the
error text for a phrase; the store maps flag and error to a status. -/
namespace Qdrust.Scheduler
open Library Store

variable {Proc : Type}

/-- The flag of a row is set by the cancellations of the history, and these name
rows that exist. -/
structure Flagged (s : System Proc) : Prop where
  flag : ∀ r ∈ s.db.runs.rows, r.cancelRequested = true ↔ .cancelled r.id ∈ s.history
  bounded : ∀ run, .cancelled run ∈ s.history → run ≤ s.db.runs.last

theorem flagged_init (tasks : Table TaskRow TaskRow.id) (clock : Int) :
    Flagged (System.init tasks clock : System Proc) :=
  ⟨fun _ member => (nomatch member),fun _ member => (nomatch member)⟩

theorem WorkRow.flag {name : String} {now : Int} {db : Db} {phase : Phase} {r r' : Run}
    (row : WorkRow name now db phase r r') : r'.cancelRequested = r.cancelRequested := by
  cases row <;> rfl

variable [DecidableEq Proc] {d : Deployment Proc} {s t : System Proc} {a : Action Proc}

theorem flagged_step (flagged : Flagged s) (taken : step d s a = some t) : Flagged t := by
  have history := step_history taken
  have evolved := (step_lawful taken).evolves
  have bounded : ∀ run, .cancelled run ∈ logged d s a → run ≤ s.db.runs.last := by
    intro run member
    cases logged_cases member with
    | cancelled r there active => exact s.db.runs.bounded r there
  refine ⟨fun r' after => ?_,fun run member => ?_⟩
  · rw [history,List.mem_append]
    rcases step_origin taken after with ⟨r,before,same⟩ | new
    · have old := flagged.flag r before
      rw [same]
      constructor
      · intro asked
        cases step_row taken before after same with
        | kept => exact Or.inr (old.mp asked)
        | worked p _ _ row => exact Or.inr (old.mp (row.flag ▸ asked))
        | cancelled _ active =>
          have hit := (cancel_hit s.db r.id (timestamp s.clock)).mpr ⟨r,before,rfl,active⟩
          exact Or.inl (by simp [logged,hit])
        | renewed => exact Or.inr (old.mp asked)
      · rintro (recent | past)
        · generalize named : r.id = run at recent
          cases logged_cases recent with
          | cancelled r₀ there active =>
            cases s.db.runs.key_unique before there named
            cases taken
            simp only [System.cancel,cancelRun] at after
            rw [row_of_update before after same]
            simp [active,Run.cancelAsked]
        · exact (evolved.related before after same).flag (old.mpr past)
    · have fresh : ∀ run, run ≤ s.db.runs.last → run ≠ r'.id := by
        intro run low same
        rw [new.id] at same
        omega
      have unasked : r'.cancelRequested = false := by cases new <;> rfl
      rw [unasked]
      refine ⟨fun asked => absurd asked Bool.false_ne_true,?_⟩
      rintro (recent | past)
      · exact absurd rfl (fresh r'.id (bounded r'.id recent))
      · exact absurd rfl (fresh r'.id (flagged.bounded r'.id past))
  · rw [history,List.mem_append] at member
    rcases member with recent | past
    · exact Int.le_trans (bounded run recent) evolved.grows
    · exact Int.le_trans (flagged.bounded run past) evolved.grows

theorem flagged_reachable {tasks : Table TaskRow TaskRow.id} {clock : Int}
    (reach : Transition.Reachable (step d) (System.init tasks clock) s) : Flagged s :=
  reach.invariant (fun _ _ _ flagged _ taken => flagged_step flagged taken) (flagged_init tasks clock)

/-- What the status of a run says of a failed execution. -/
structure RecordedAs (requested : Prop) (status : RunStatus) : Prop where
  unsuccessful : status ≠ .succeeded
  cancelled : status = .cancelled ↔ requested
  failed : ¬requested → status = .failed

theorem recordedAs_iff {requested : Prop} {status : RunStatus} : RecordedAs requested status ↔
    status ≠ .succeeded ∧ (status = .cancelled ↔ requested) ∧ (¬requested → status = .failed) :=
  ⟨fun recorded => ⟨recorded.1,recorded.2,recorded.3⟩,fun parts => ⟨parts.1,parts.2.1,parts.2.2⟩⟩

theorem finished_status (r : Run) (text : String) (steps : List String) (now : Int) :
    (r.finished none (Outcome.err text steps).error now).status =
      if r.cancelRequested then .cancelled
      else if Text.contains (boundedError text) "execution cancelled" then .succeeded
      else .failed := by
  cases phrase : Text.contains (boundedError text) "execution cancelled" <;>
    simp [Run.finished,Outcome.error,Outcome.cancelled,phrase]

/-- The row a failed execution is recorded on faithfully: held, and the phrase is
in the text only of a run that is to be cancelled, or ended unsuccessfully. -/
def Settles (text : String) (r : Run) : Prop :=
  (r.status.held = true ∧
    (r.cancelRequested = true ∨ Text.contains (boundedError text) "execution cancelled" = false)) ∨
  r.status = .failed ∨ r.status = .cancelled

def plainFailure : List (Action Bool) :=
  [.enqueue 1,.proceed true,.proceed true,.proceed true,.proceed true,
    .complete true (.err "connection refused" []),.proceed true,.proceed true]

instance (text : String) (r : Run) : Decidable (Settles text r) := inferInstanceAs (Decidable (_ ∨ _))

/-- A run whose error text comes from the remote side. -/
def quoted : Outcome := .err "HTTP 500: \"execution cancelled\"" []

def misread : List (Action Bool) :=
  [.enqueue 1,.proceed true,.proceed true,.proceed true,.proceed true,.complete true quoted]

end Qdrust.Scheduler
