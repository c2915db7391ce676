import Qdrust.Executor.Program

/-! Which variables a request assigns: the header it keeps its cookies in, and what its
extractions name. -/
namespace Qdrust.Executor
open Library Effect Har

theorem get_insertVar (vars : Fields) (name key : String) (value : Json) :
    (insertVar vars name value).get key = if key = name then some value else vars.get key := by
  unfold insertVar
  rw [Fields.containsKey_eq]
  cases present : vars.get name with
  | none =>
    rw [Option.isSome_none,if_neg (by decide),Fields.get_append,Fields.get_single]
    by_cases same : key = name
    · subst same
      simp [present]
    · simp [same,Ne.symm same]
  | some old =>
    rw [Option.isSome_some,if_pos rfl,Fields.get_modify]
    by_cases same : key = name
    · rw [if_pos same,if_pos same,present]
      rfl
    · rw [if_neg same,if_neg same]

/-- The variables that are `watched` stay as they are. -/
def Untouched (watched : String → Prop) (before after : Execution) : Prop :=
  ∀ name, watched name → after.context.vars.get name = before.context.vars.get name

section

variable {watched : String → Prop}

theorem untouched_refl (state : Execution) : Untouched watched state state := fun _ _ => rfl

theorem untouched_trans (a b c : Execution) (first : Untouched watched a b) (second : Untouched watched b c) :
    Untouched watched a c := fun name kept => (second name kept).trans (first name kept)

theorem untouched_same {before after : Execution} (same : after.context.vars = before.context.vars) :
    Untouched watched before after := fun name _ => by rw [same]

theorem untouched_setVar {name : String} (other : ¬watched name) (value : Json) :
    Moves (Untouched watched) (setVar name value) := by
  intro state key kept
  change (insertVar state.context.vars name value).get key = _
  rw [get_insertVar,if_neg]
  rintro rfl
  exact other kept

theorem untouched_emit (event : Event) : Moves (Untouched watched) (emit event) := fun _ => untouched_same rfl

variable (executor : QdExecutor) (entry : QdHarEntry)

theorem untouched_rememberCookie (other : ¬watched cookieVar) (cookie : Option String) :
    Moves (Untouched watched) (rememberCookie cookie) := by
  cases cookie with
  | none => exact moves_pure untouched_refl ()
  | some cookie => exact untouched_setVar other _

theorem untouched_buildRequest (other : ¬watched cookieVar) (method url : String) :
    Moves (Untouched watched) (buildRequest executor entry method url) := by
  refine moves_bind untouched_trans (moves_read untouched_refl _) fun context => ?_
  refine moves_bind untouched_trans (moves_lift untouched_refl _) fun connection => ?_
  refine moves_bind untouched_trans (moves_lift untouched_refl _) fun _ => ?_
  refine moves_bind untouched_trans (moves_lift untouched_refl _) fun rendered => ?_
  refine moves_bind untouched_trans (untouched_rememberCookie other _) fun _ => ?_
  refine moves_bind untouched_trans (moves_read untouched_refl _) fun context => ?_
  refine moves_bind untouched_trans (moves_lift untouched_refl _) fun cookies => ?_
  refine moves_bind untouched_trans (untouched_rememberCookie other _) fun _ => ?_
  refine moves_bind untouched_trans (moves_lift untouched_refl _) fun _ => ?_
  refine moves_bind untouched_trans (moves_read untouched_refl _) fun context => ?_
  refine moves_bind untouched_trans (moves_read untouched_refl _) fun history => ?_
  refine moves_bind untouched_trans (moves_lift untouched_refl _) fun stored => ?_
  refine moves_bind untouched_trans (moves_lift untouched_refl _) fun body => ?_
  exact moves_pure untouched_refl _

theorem untouched_extractRule (services : Services) (status : Nat) (headers : Headers) (content : String)
    {rule : QdExtractRule} (other : ¬watched rule.name) :
    Moves (Untouched watched) (extractRule services status headers content rule) := by
  unfold extractRule
  split
  · exact moves_pure untouched_refl ()
  · refine moves_bind untouched_trans (moves_read untouched_refl _) fun context => ?_
    refine moves_bind untouched_trans (moves_lift untouched_refl _) fun pattern => ?_
    split
    · exact untouched_setVar other _
    · exact moves_pure untouched_refl ()
    · exact untouched_setVar other _

variable {entry}

theorem untouched_finishResponse (rules : ∀ rule ∈ entry.extractVariables, ¬watched rule.name) (url digest : String)
    (response : Response) (stored : Bool) :
    Moves (Untouched watched) (finishResponse executor entry url digest response stored) := by
  refine moves_bind untouched_trans (moves_ensure untouched_refl _ _) fun _ => ?_
  refine moves_bind untouched_trans (fun _ => untouched_same rfl) fun _ => ?_
  refine moves_bind untouched_trans (moves_read untouched_refl _) fun context => ?_
  refine moves_bind untouched_trans (moves_lift untouched_refl _) fun _ => ?_
  refine moves_bind untouched_trans (moves_lift untouched_refl _) fun _ => ?_
  refine moves_bind untouched_trans ?_ fun _ => ?_
  · exact moves_each untouched_refl untouched_trans _ fun rule listed => untouched_extractRule _ _ _ _ (rules rule listed)
  · refine moves_bind untouched_trans (moves_ensure untouched_refl _ _) fun _ => ?_
    exact moves_pure untouched_refl _

theorem untouched_callPlugin (rules : ∀ rule ∈ entry.extractVariables, ¬watched rule.name) (method url : String) :
    Moves (Untouched watched) (callPlugin executor entry method url) := by
  refine moves_bind untouched_trans (moves_read untouched_refl _) fun context => ?_
  refine moves_bind untouched_trans (moves_lift untouched_refl _) fun callUrl => ?_
  refine moves_bind untouched_trans (moves_read untouched_refl _) fun history => ?_
  refine moves_bind untouched_trans (untouched_emit _) fun _ => ?_
  refine moves_bind untouched_trans (moves_lift untouched_refl _) fun response => ?_
  exact untouched_finishResponse executor rules _ _ _ _

theorem untouched_sendRequest (other : ¬watched cookieVar) (rules : ∀ rule ∈ entry.extractVariables, ¬watched rule.name)
    (method url : String) : Moves (Untouched watched) (sendRequest executor entry method url) := by
  refine moves_bind untouched_trans (untouched_buildRequest executor entry other method url) fun request => ?_
  refine moves_bind untouched_trans (moves_read untouched_refl _) fun history => ?_
  refine moves_bind untouched_trans (untouched_emit _) fun _ => ?_
  refine moves_bind untouched_trans (moves_lift untouched_refl _) fun response => ?_
  exact untouched_finishResponse executor rules _ _ _ _

theorem untouched_executeRequestInner (other : ¬watched cookieVar)
    (rules : ∀ rule ∈ entry.extractVariables, ¬watched rule.name) :
    Moves (Untouched watched) (executeRequestInner executor entry) := by
  refine moves_bind untouched_trans (moves_read untouched_refl _) fun context => ?_
  refine moves_bind untouched_trans (moves_ensure untouched_refl _ _) fun _ => ?_
  refine moves_bind untouched_trans (fun _ => untouched_same rfl) fun _ => ?_
  refine moves_bind untouched_trans (moves_read untouched_refl _) fun context => ?_
  refine moves_bind untouched_trans (moves_lift untouched_refl _) fun method => ?_
  refine moves_bind untouched_trans (moves_lift untouched_refl _) fun url => ?_
  split
  · exact untouched_callPlugin executor rules method url
  · exact untouched_sendRequest executor other rules method url

theorem untouched_reportFailure (step : Nat) (method url : String) {α : Type} {effect : Exec α}
    (moves : Moves (Untouched watched) effect) : Moves (Untouched watched) (reportFailure step method url effect) := by
  intro state
  have start := moves state
  unfold reportFailure
  split
  next failure after run =>
    rw [run] at start
    exact untouched_trans _ _ _ start (untouched_same rfl)
  next => exact start

/-- A request leaves alone what neither its cookies nor its extractions are kept in. -/
theorem untouched_executeRequest (other : ¬watched cookieVar)
    (rules : ∀ rule ∈ entry.extractVariables, ¬watched rule.name) :
    Moves (Untouched watched) (executeRequest executor entry) := by
  refine moves_bind untouched_trans (moves_read untouched_refl _) fun step => ?_
  refine moves_bind untouched_trans (fun _ => untouched_same rfl) fun _ => ?_
  refine moves_bind untouched_trans (moves_read untouched_refl _) fun context => ?_
  refine moves_bind untouched_trans (untouched_emit _) fun _ => ?_
  refine moves_bind untouched_trans ?_ fun result => ?_
  · exact untouched_reportFailure _ _ _ (untouched_executeRequestInner executor other rules)
  · refine moves_bind untouched_trans (untouched_emit _) fun _ => ?_
    exact moves_pure untouched_refl _

end

end Qdrust.Executor
