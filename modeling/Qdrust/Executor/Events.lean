import Qdrust.Executor.Endings

/-! What an execution reports of its requests: one after the other, each under its own number, and the
results are what was finished without an error. -/
namespace Qdrust.Executor
open Library Effect Har Template

/-- A request as its two events report it. -/
structure Report where
  method : String
  startUrl : String
  url : String
  status : Option Nat
  bodySize : Nat
  error : Option String

def Report.outcome (report : Report) : Option StepResult :=
  match report.error,report.status with
  | none,some status => some ⟨report.url,status,report.bodySize⟩
  | _,_ => none

def Report.events (step : Nat) (report : Report) : List Event :=
  [.started step report.method report.startUrl,
    .finished step report.method report.url report.status report.bodySize report.error]

/-- The events of reports one after the other, the first of which has the number `step`. -/
def reported : Nat → List Report → List Event
  | _,[] => []
  | step,report :: rest => report.events step ++ reported (step + 1) rest

def Event.isStep : Event → Bool
  | .started _ _ _ => true
  | .finished _ _ _ _ _ _ => true
  | _ => false

def stepEvents (events : List Event) : List Event := events.filter Event.isStep

theorem stepEvents_append (first second : List Event) :
    stepEvents (first ++ second) = stepEvents first ++ stepEvents second := List.filter_append _ _

theorem reported_append (step : Nat) (first second : List Report) :
    reported step (first ++ second) = reported step first ++ reported (step + first.length) second := by
  induction first generalizing step with
  | nil => rfl
  | cons report rest ih =>
    rw [List.cons_append,reported,reported,ih,List.append_assoc,List.length_cons,Nat.add_right_comm,Nat.add_assoc]

/-- The reports that are made from one state to a later one, and the results. -/
structure Adds (reports : List Report) (results : List StepResult) (before after : Execution) : Prop where
  events : stepEvents after.events = stepEvents before.events ++ reported before.nextStepIndex reports
  next : after.nextStepIndex = before.nextStepIndex + reports.length
  results : after.results = before.results ++ results

abbrev Unreported : Execution → Execution → Prop := Adds [] []

/-- Each report is of a request that succeeded, with its result. -/
def Succeeds (reports : List Report) (results : List StepResult) : Prop := reports.map Report.outcome = results.map some

/-- What is reported while all goes well. -/
def Reports (before after : Execution) : Prop := ∃ reports results, Adds reports results before after ∧ Succeeds reports results

/-- What is reported until a failure: the last request may be the one that failed. -/
def Stops (before after : Execution) : Prop := ∃ reports results failed, Adds (reports ++ failed) results before after ∧
  Succeeds reports results ∧ failed.length ≤ 1 ∧ ∀ report ∈ failed, report.error.isSome = true

section Relations

variable {reports later : List Report} {results more : List StepResult} {a b c : Execution}

theorem Adds.trans (first : Adds reports results a b) (second : Adds later more b c) :
    Adds (reports ++ later) (results ++ more) a c where
  events := by rw [second.events,first.events,first.next,reported_append,List.append_assoc]
  next := by rw [second.next,first.next,List.length_append,Nat.add_assoc]
  results := by rw [second.results,first.results,List.append_assoc]

theorem unreported_of_events (events : stepEvents b.events = stepEvents a.events) (next : b.nextStepIndex = a.nextStepIndex)
    (results : b.results = a.results) : Unreported a b :=
  ⟨by rw [events,reported,List.append_nil],next,by rw [results,List.append_nil]⟩

theorem unreported_refl (state : Execution) : Unreported state state := unreported_of_events rfl rfl rfl

theorem unreported_trans (a b c : Execution) (first : Unreported a b) (second : Unreported b c) : Unreported a c := first.trans second

theorem Framed.unreported (framed : Framed a b) : Unreported a b :=
  unreported_of_events (congrArg stepEvents framed.events) framed.nextStepIndex framed.results

theorem unreported_framed {α : Type} {effect : Exec α} (moves : Moves Framed effect) : Moves Unreported effect :=
  moves.mono fun _ _ framed => framed.unreported

theorem unreported_emit {event : Event} (other : event.isStep = false) : Moves Unreported (emit event) := by
  intro state
  refine unreported_of_events ?_ rfl rfl
  change stepEvents (state.events ++ [event]) = _
  simp [stepEvents,other]

theorem reports_of_unreported (quiet : Unreported a b) : Reports a b := ⟨[],[],quiet,rfl⟩

theorem chained_reports : Chained Reports Stops where
  refl state := reports_of_unreported (unreported_refl state)
  trans a b c := by
    rintro ⟨reports,results,first,succeeds⟩ ⟨later,more,second,succeed⟩
    refine ⟨reports ++ later,results ++ more,first.trans second,?_⟩
    rw [Succeeds,List.map_append,List.map_append,succeeds,succeed]
  idle state := ⟨[],[],[],unreported_refl state,rfl,Nat.zero_le _,nofun⟩
  stop a b c := by
    rintro ⟨reports,results,first,succeeds⟩ ⟨later,more,failed,second,succeed,last⟩
    refine ⟨reports ++ later,results ++ more,failed,?_,?_,last⟩
    · rw [List.append_assoc]
      exact first.trans second
    · rw [Succeeds,List.map_append,List.map_append,succeeds,succeed]

end Relations

section Requests

variable (executor : QdExecutor) (entry : QdHarEntry)

theorem unreported_callPlugin (method url : String) : Moves Unreported (callPlugin executor entry method url) := by
  refine moves_bind unreported_trans (moves_read unreported_refl _) fun context => ?_
  refine moves_bind unreported_trans (moves_lift unreported_refl _) fun callUrl => ?_
  refine moves_bind unreported_trans (moves_read unreported_refl _) fun history => ?_
  refine moves_bind unreported_trans (unreported_emit rfl) fun _ => ?_
  refine moves_bind unreported_trans (moves_lift unreported_refl _) fun response => ?_
  exact unreported_framed (moves_finishResponse executor entry _ _ _ _)

theorem unreported_sendRequest (method url : String) : Moves Unreported (sendRequest executor entry method url) := by
  refine moves_bind unreported_trans (unreported_framed (moves_buildRequest executor entry method url)) fun request => ?_
  refine moves_bind unreported_trans (moves_read unreported_refl _) fun history => ?_
  refine moves_bind unreported_trans (unreported_emit rfl) fun _ => ?_
  refine moves_bind unreported_trans (moves_lift unreported_refl _) fun response => ?_
  exact unreported_framed (moves_finishResponse executor entry _ _ _ _)

theorem unreported_executeRequestInner : Moves Unreported (executeRequestInner executor entry) := by
  refine moves_bind unreported_trans (moves_read unreported_refl _) fun context => ?_
  refine moves_bind unreported_trans (moves_ensure unreported_refl _ _) fun _ => ?_
  refine moves_bind unreported_trans (fun _ => unreported_of_events rfl rfl rfl) fun _ => ?_
  refine moves_bind unreported_trans (moves_read unreported_refl _) fun context => ?_
  refine moves_bind unreported_trans (moves_lift unreported_refl _) fun method => ?_
  refine moves_bind unreported_trans (moves_lift unreported_refl _) fun url => ?_
  split
  · exact unreported_callPlugin executor entry method url
  · exact unreported_sendRequest executor entry method url

/-- A request is reported twice, whether it fails or not. -/
theorem ends_executeRequest : Ends Reports Stops (executeRequest executor entry >>= pushResult) := by
  intro state
  let method := entry.request.method
  let startUrl := ((executor.services.render entry.request.url state.context).toOption).getD entry.request.url
  let begun : Execution := { state with
    nextStepIndex := state.nextStepIndex + 1
    events := state.events ++ [.started state.nextStepIndex method startUrl] }
  have quiet := unreported_executeRequestInner executor entry begun
  have run : (executeRequest executor entry >>= pushResult) state =
      ((reportFailure state.nextStepIndex method startUrl (executeRequestInner executor entry) >>= fun result =>
        emit (.finished state.nextStepIndex method result.url (some result.status) result.bodySize none) >>= fun _ =>
          pure result) >>= pushResult) begun := rfl
  -- What is behind the inner run has the two events of the request.
  have adds : ∀ (after last : Execution) report results, Unreported begun after → report.method = method →
      report.startUrl = startUrl → last.events = after.events ++ [.finished state.nextStepIndex report.method report.url
        report.status report.bodySize report.error] → last.nextStepIndex = after.nextStepIndex →
      last.results = after.results ++ results → Adds [report] results state last := by
    intro after last report results quiet sameMethod sameUrl events next added
    refine ⟨?_,?_,?_⟩
    · have before := quiet.events
      rw [reported,List.append_nil] at before
      rw [events,stepEvents_append,before]
      change stepEvents (state.events ++ [_]) ++ _ = _
      rw [stepEvents_append,List.append_assoc,reported,reported,Report.events,sameMethod,sameUrl]
      rfl
    · rw [next,quiet.next]
      rfl
    · rw [added,quiet.results,List.append_nil]
  rw [run,bind_eq,bind_eq,reportFailure]
  cases inner : executeRequestInner executor entry begun with
  | mk outcome after =>
    rw [inner] at quiet
    cases outcome with
    | ok result =>
      let report : Report := ⟨method,startUrl,result.url,some result.status,result.bodySize,none⟩
      exact ⟨[report],[result],adds after _ report [result] quiet rfl rfl rfl rfl rfl,rfl⟩
    | error failure =>
      let report : Report := ⟨method,startUrl,startUrl,after.context.lastStatus,0,some (Failure.chain failure)⟩
      refine ⟨[],[],[report],adds after _ report [] quiet rfl rfl rfl rfl (List.append_nil _).symm,rfl,Nat.le_refl _,?_⟩
      intro other there
      rw [List.mem_singleton.mp there]
      rfl

end Requests

theorem parts_reports (executor : QdExecutor) : Parts executor Reports Stops where
  toChained := chained_reports
  framed _ _ framed := reports_of_unreported framed.unreported
  context _ _ := reports_of_unreported (unreported_of_events rfl rfl rfl)
  iteration _ := ends_of_moves chained_reports (fun _ _ => reports_of_unreported) (unreported_emit rfl)
  enter := ends_of_moves chained_reports (fun _ _ => reports_of_unreported) fun _ => unreported_of_events rfl rfl rfl
  request := ends_executeRequest executor

/-- What was reported of a run from the start: all of its results, and behind them at most the one request
that failed. -/
def Reported (run : Except Failure (List StepResult) × Execution) : Prop :=
  ∃ done failed, stepEvents run.2.events = reported 0 (done ++ failed) ∧ Succeeds done run.2.results ∧
    match run.1 with
    | .ok results => results = run.2.results ∧ failed = []
    | .error _ => failed.length ≤ 1 ∧ ∀ report ∈ failed, report.error.isSome = true

theorem reported_run {effect : Exec Unit} (ends : Ends Reports Stops effect) (context : ExecutionContext) :
    Reported ((effect >>= fun _ => Effect.read Execution.results) (Execution.initial context)) := by
  have run := ends (Execution.initial context)
  rw [bind_eq]
  cases whole : effect (Execution.initial context) with
  | mk outcome after =>
    rw [whole] at run
    cases outcome with
    | ok value =>
      obtain ⟨reports,results,adds,succeeds⟩ := run
      refine ⟨reports,[],?_,?_,rfl,rfl⟩
      · rw [List.append_nil]
        exact adds.events
      · have same : after.results = results := adds.results
        rwa [← same] at succeeds
    | error failure =>
      obtain ⟨reports,results,failed,adds,succeeds,last⟩ := run
      have same : after.results = results := adds.results
      rw [← same] at succeeds
      exact ⟨reports,failed,adds.events,succeeds,last⟩

theorem reported_execute (executor : QdExecutor) (context : ExecutionContext) (program : QdProgram) :
    Reported (execute executor program (Execution.initial context)) := by
  have parts := parts_reports executor
  have whole : execute executor program = (setContext (fun context => { context with
      remainingRequests := min context.remainingRequests executor.requestLimit
      loopLimit := min context.loopLimit executor.loopLimit }) >>= fun _ => executeBlocks executor 0 program.blocks) >>=
        fun _ => Effect.read Execution.results := (bind_assoc _ _ _).symm
  rw [whole]
  exact reported_run ((parts.setContext _).bind parts.toChained fun _ => parts.executeBlocks program.blocks 0) context

theorem reported_executeTemplate (executor : QdExecutor) (context : ExecutionContext) (definition : TemplateDefinition) :
    Reported (executeTemplate executor definition (Execution.initial context)) := by
  have parts := parts_reports executor
  have whole : executeTemplate executor definition = (((Effect.lift (definition.validate.mapError fun text => [text]) >>=
      fun _ => setVars fun vars => definition.vars.foldl (fun vars entry => vars.insertNew entry.1 entry.2) vars) >>=
      fun _ => setContext fun context => { context with
        remainingRequests := min context.remainingRequests executor.requestLimit }) >>=
      fun _ => executeSteps executor 0 definition.steps) >>= fun _ => Effect.read Execution.results := by
    rw [bind_assoc,bind_assoc,bind_assoc]
    rfl
  rw [whole]
  refine reported_run (Ends.bind parts.toChained ?_ fun _ => parts.executeSteps definition.steps 0) context
  refine Ends.bind parts.toChained (Ends.bind parts.toChained (parts.lift _) fun _ => parts.still (moves_setVars _)) fun _ => ?_
  exact parts.setContext _

/-- Whatever is executed: its requests are reported one after the other, each as started and then as finished, under the
numbers 0, 1 and so on. The results are those of the requests reported without an error, which none of them follows. -/
theorem execute_reported (executor : QdExecutor) (context : ExecutionContext) :
    (∀ program, Reported (execute executor program (Execution.initial context))) ∧
      ∀ definition, Reported (executeTemplate executor definition (Execution.initial context)) :=
  ⟨reported_execute executor context,reported_executeTemplate executor context⟩

end Qdrust.Executor
