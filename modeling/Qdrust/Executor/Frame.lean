import Qdrust.Executor.Program

/-! What leaves all of an execution but its variables and its last response as it was. -/
namespace Qdrust.Executor
open Library Effect Har Template

structure Framed (before after : Execution) : Prop where
  remaining : after.context.remainingRequests = before.context.remainingRequests
  loopLimit : after.context.loopLimit = before.context.loopLimit
  results : after.results = before.results
  events : after.events = before.events
  nextStepIndex : after.nextStepIndex = before.nextStepIndex
  loops : after.loops = before.loops

theorem framed_refl (state : Execution) : Framed state state := ⟨rfl,rfl,rfl,rfl,rfl,rfl⟩

theorem framed_trans (a b c : Execution) (left : Framed a b) (right : Framed b c) : Framed a c :=
  ⟨right.remaining.trans left.remaining,right.loopLimit.trans left.loopLimit,right.results.trans left.results,
    right.events.trans left.events,right.nextStepIndex.trans left.nextStepIndex,right.loops.trans left.loops⟩

theorem moves_setVars (change : Fields → Fields) : Moves Framed (setVars change) :=
  fun _ => ⟨rfl,rfl,rfl,rfl,rfl,rfl⟩

theorem moves_setVar (name : String) (value : Json) : Moves Framed (setVar name value) :=
  fun _ => ⟨rfl,rfl,rfl,rfl,rfl,rfl⟩

theorem moves_extractRule (services : Services) (status : Nat) (headers : Headers) (content : String)
    (rule : QdExtractRule) : Moves Framed (extractRule services status headers content rule) := by
  unfold extractRule
  split
  · exact moves_pure framed_refl ()
  · refine moves_bind framed_trans (moves_read framed_refl _) fun context => ?_
    refine moves_bind framed_trans (moves_lift framed_refl _) fun pattern => ?_
    split
    · exact moves_setVar _ _
    · exact moves_pure framed_refl ()
    · exact moves_setVar _ _

variable (executor : QdExecutor)

theorem moves_finishResponse (entry : QdHarEntry) (url digest : String) (response : Response) (stored : Bool) :
    Moves Framed (finishResponse executor entry url digest response stored) := by
  refine moves_bind framed_trans (moves_ensure framed_refl _ _) fun _ => ?_
  refine moves_bind framed_trans (fun _ => ⟨rfl,rfl,rfl,rfl,rfl,rfl⟩) fun _ => ?_
  refine moves_bind framed_trans (moves_read framed_refl _) fun context => ?_
  refine moves_bind framed_trans (moves_lift framed_refl _) fun _ => ?_
  refine moves_bind framed_trans (moves_lift framed_refl _) fun _ => ?_
  refine moves_bind framed_trans (moves_each framed_refl framed_trans _ fun rule _ => moves_extractRule _ _ _ _ rule) ?_
  intro _
  refine moves_bind framed_trans (moves_ensure framed_refl _ _) fun _ => ?_
  exact moves_pure framed_refl _

theorem moves_rememberCookie (cookie : Option String) : Moves Framed (rememberCookie cookie) := by
  cases cookie with
  | none => exact moves_pure framed_refl ()
  | some cookie => exact moves_setVar _ _

theorem moves_buildRequest (entry : QdHarEntry) (method url : String) :
    Moves Framed (buildRequest executor entry method url) := by
  refine moves_bind framed_trans (moves_read framed_refl _) fun context => ?_
  refine moves_bind framed_trans (moves_lift framed_refl _) fun connection => ?_
  refine moves_bind framed_trans (moves_lift framed_refl _) fun _ => ?_
  refine moves_bind framed_trans (moves_lift framed_refl _) fun rendered => ?_
  refine moves_bind framed_trans (moves_rememberCookie _) fun _ => ?_
  refine moves_bind framed_trans (moves_read framed_refl _) fun context => ?_
  refine moves_bind framed_trans (moves_lift framed_refl _) fun cookies => ?_
  refine moves_bind framed_trans (moves_rememberCookie _) fun _ => ?_
  refine moves_bind framed_trans (moves_lift framed_refl _) fun _ => ?_
  refine moves_bind framed_trans (moves_read framed_refl _) fun context => ?_
  refine moves_bind framed_trans (moves_read framed_refl _) fun history => ?_
  refine moves_bind framed_trans (moves_lift framed_refl _) fun stored => ?_
  refine moves_bind framed_trans (moves_lift framed_refl _) fun body => ?_
  exact moves_pure framed_refl _

theorem moves_evaluateBool (condition : String) : Moves Framed (evaluateBool executor.services condition) := by
  refine moves_bind framed_trans (moves_read framed_refl _) fun context => ?_
  exact moves_lift framed_refl _

theorem moves_executeExtract (extract : ExtractStep) : Moves Framed (executeExtract executor.services extract) := by
  refine moves_bind framed_trans (moves_read framed_refl _) fun context => ?_
  refine moves_bind framed_trans (moves_lift framed_refl _) fun value => ?_
  split
  · exact moves_setVar _ _
  · exact moves_ensure framed_refl _ _

end Qdrust.Executor
