import Qdrust.Executor.Frame

/-! The limits of an execution: how many requests it makes, and how often each
loop that it enters runs its body. -/
namespace Qdrust.Executor
open Library Effect Har Template

def Event.isRequest : Event → Bool
  | .sent _ => true
  | .called _ => true
  | _ => false

def Event.isIteration (loop : Nat) : Event → Bool
  | .iteration other => other = loop
  | _ => false

def requestCount (events : List Event) : Nat := events.countP Event.isRequest

def iterations (loop : Nat) (events : List Event) : Nat := events.countP (Event.isIteration loop)

/-- No more requests, and no more iterations of one loop, than the executor allows. -/
def WithinLimits (executor : QdExecutor) (events : List Event) : Prop :=
  requestCount events ≤ executor.requestLimit ∧ ∀ loop, iterations loop events ≤ executor.loopLimit

/-- Iterations of the loops entered in between, and of the loop `own`. -/
def allowance (own count : Nat) (before after : Execution) (loop : Nat) : Nat :=
  if before.loops ≤ loop then if loop < after.loops then before.context.loopLimit else 0
  else if loop = own then count else 0

structure Spends (requests own count : Nat) (before after : Execution) : Prop where
  limit : after.context.loopLimit = before.context.loopLimit
  loops : before.loops ≤ after.loops
  history : ∃ new, after.events = before.events ++ new ∧
    requestCount new + after.context.remainingRequests ≤ before.context.remainingRequests + requests ∧
    ∀ loop, iterations loop new ≤ allowance own count before after loop

/-- `requests` requests beyond those taken from the rest, and new loops only. -/
def Costs (requests : Nat) (before after : Execution) : Prop := ∀ own, Spends requests own 0 before after

/-- `count` iterations of a loop that has been entered. -/
def Running (loop count : Nat) (before after : Execution) : Prop :=
  loop < before.loops → Spends 0 loop count before after

theorem Spends.trans {m n own first second : Nat} {a b c : Execution} (left : Spends m own first a b)
    (right : Spends n own second b c) (old : own < a.loops ∨ second = 0) : Spends (m + n) own (first + second) a c := by
  obtain ⟨new,written,spent,allowed⟩ := left.history
  obtain ⟨later,writtenLater,spentLater,allowedLater⟩ := right.history
  refine ⟨right.limit.trans left.limit,left.loops.trans right.loops,new ++ later,?_,?_,?_⟩
  · rw [writtenLater,written,List.append_assoc]
  · have count : requestCount (new ++ later) = requestCount new + requestCount later := List.countP_append
    omega
  · intro loop
    have count : iterations loop (new ++ later) = iterations loop new + iterations loop later := List.countP_append
    have start := allowed loop
    have rest := allowedLater loop
    have order := left.loops
    have orderLater := right.loops
    have same := left.limit
    unfold allowance at *
    grind

theorem costs_refl (state : Execution) : Costs 0 state state := by
  intro own
  refine ⟨rfl,Nat.le_refl _,[],by simp,by simp [requestCount],?_⟩
  intro loop
  simp [iterations]

theorem Costs.trans {m n : Nat} {a b c : Execution} (left : Costs m a b) (right : Costs n b c) : Costs (m + n) a c :=
  fun own => (left own).trans (right own) (.inr rfl)

theorem Costs.more {m n : Nat} {a b : Execution} (costs : Costs m a b) (le : m ≤ n) : Costs n a b := by
  intro own
  obtain ⟨new,written,spent,allowed⟩ := (costs own).history
  exact ⟨(costs own).limit,(costs own).loops,new,written,by omega,allowed⟩

theorem costs_trans (a b c : Execution) (left : Costs 0 a b) (right : Costs 0 b c) : Costs 0 a c := left.trans right

/-- One piece after the other. -/
theorem costs_seq (m n : Nat) {α β : Type} {first : Exec α} {next : α → Exec β} (before : Moves (Costs m) first)
    (after : ∀ value, Moves (Costs n) (next value)) : Moves (Costs (m + n)) (first >>= next) :=
  moves_seq (R := Costs m) (S := Costs n) (T := Costs (m + n)) (fun _ _ costs => costs.more (Nat.le_add_right m n))
    (fun _ _ _ left right => left.trans right) before after

theorem Spends.mono {m own less more : Nat} {a b : Execution} (spends : Spends m own less a b) (le : less ≤ more) :
    Spends m own more a b := by
  obtain ⟨new,written,spent,allowed⟩ := spends.history
  refine ⟨spends.limit,spends.loops,new,written,spent,?_⟩
  intro loop
  have bound := allowed loop
  unfold allowance at *
  grind

theorem Costs.running {loop count : Nat} {a b : Execution} (costs : Costs 0 a b) : Running loop count a b := by
  intro _
  exact (costs loop).mono (Nat.zero_le count)

theorem Running.mono {loop less more : Nat} {a b : Execution} (running : Running loop less a b) (le : less ≤ more) :
    Running loop more a b := fun old => (running old).mono le

theorem Running.trans {loop first second : Nat} {a b c : Execution} (left : Running loop first a b)
    (right : Running loop second b c) : Running loop (first + second) a c := by
  intro old
  have start := left old
  have rest := right (Nat.lt_of_lt_of_le old start.loops)
  exact start.trans rest (.inl old)

theorem Costs.then_running {loop count : Nat} {a b c : Execution} (left : Costs 0 a b)
    (right : Running loop count b c) : Running loop count a c := by
  have joined : Running loop (0 + count) a c := left.running.trans right
  rwa [Nat.zero_add] at joined

section Primitives

theorem Framed.costs {before after : Execution} (framed : Framed before after) : Costs 0 before after := by
  intro own
  refine ⟨framed.loopLimit,Nat.le_of_eq framed.loops.symm,[],?_,?_,fun _ => Nat.zero_le _⟩
  · rw [framed.events,List.append_nil]
  · rw [framed.remaining]
    exact Nat.le_of_eq (Nat.zero_add _)

theorem costs_of_framed {α : Type} {effect : Exec α} (moves : Moves Framed effect) : Moves (Costs 0) effect :=
  moves.mono fun _ _ framed => framed.costs

theorem moves_pushResult (result : StepResult) : Moves (Costs 0) (pushResult result) := by
  intro state own
  refine ⟨rfl,Nat.le_refl _,[],(List.append_nil _).symm,?_,fun loop => Nat.zero_le _⟩
  exact Nat.le_of_eq (Nat.zero_add _)

theorem moves_emit (event : Event) (plain : ∀ loop, event.isIteration loop = false) :
    Moves (Costs (requestCount [event])) (emit event) := by
  intro state own
  refine ⟨rfl,Nat.le_refl _,[event],rfl,Nat.le_of_eq (Nat.add_comm _ _),?_⟩
  intro loop
  rw [iterations,List.countP_singleton,plain loop]
  exact Nat.zero_le _

theorem moves_iteration (loop : Nat) : Moves (Running loop 1) (emit (.iteration loop)) := by
  intro state old
  refine ⟨rfl,Nat.le_refl _,[.iteration loop],rfl,Nat.le_of_eq (Nat.zero_add _),?_⟩
  intro other
  have older : ¬state.loops ≤ loop := Nat.not_le_of_lt old
  simp only [iterations,List.countP_singleton,Event.isIteration,allowance,emit,Effect.modify,decide_eq_true_eq]
  grind

end Primitives

section Requests

variable (executor : QdExecutor) (entry : QdHarEntry)

theorem moves_callPlugin (method url : String) : Moves (Costs 1) (callPlugin executor entry method url) := by
  refine costs_seq 0 1 (moves_read costs_refl _) fun context => ?_
  refine costs_seq 0 1 (moves_lift costs_refl _) fun callUrl => ?_
  refine costs_seq 0 1 (moves_read costs_refl _) fun history => ?_
  refine costs_seq 1 0 (moves_emit (.called callUrl) fun _ => rfl) fun _ => ?_
  refine costs_seq 0 0 (moves_lift costs_refl _) fun response => ?_
  exact costs_of_framed (moves_finishResponse executor entry _ _ _ _)

theorem moves_sendRequest (method url : String) : Moves (Costs 1) (sendRequest executor entry method url) := by
  refine costs_seq 0 1 (costs_of_framed (moves_buildRequest executor entry method url)) fun request => ?_
  refine costs_seq 0 1 (moves_read costs_refl _) fun history => ?_
  refine costs_seq 1 0 (moves_emit (.sent request) fun _ => rfl) fun _ => ?_
  refine costs_seq 0 0 (moves_lift costs_refl _) fun response => ?_
  exact costs_of_framed (moves_finishResponse executor entry _ _ _ _)

theorem moves_performRequest : Moves (Costs 1) (performRequest executor entry) := by
  refine costs_seq 0 1 (moves_read costs_refl _) fun context => ?_
  refine costs_seq 0 1 (moves_lift costs_refl _) fun method => ?_
  refine costs_seq 0 1 (moves_lift costs_refl _) fun url => ?_
  split
  · exact moves_callPlugin executor entry method url
  · exact moves_sendRequest executor entry method url

/-- What is taken from the rest first pays for one request. -/
theorem Costs.paid {before taken after : Execution} (costs : Costs 1 taken after)
    (limit : taken.context.loopLimit = before.context.loopLimit) (loops : taken.loops = before.loops)
    (events : taken.events = before.events)
    (remaining : taken.context.remainingRequests + 1 = before.context.remainingRequests) : Costs 0 before after := by
  intro own
  obtain ⟨new,written,spent,allowed⟩ := (costs own).history
  refine ⟨(costs own).limit.trans limit,loops ▸ (costs own).loops,new,events ▸ written,by omega,?_⟩
  intro loop
  have bound := allowed loop
  unfold allowance at *
  rwa [loops,limit] at bound

theorem moves_executeRequestInner : Moves (Costs 0) (executeRequestInner executor entry) := by
  intro state
  unfold executeRequestInner
  rw [read_bind,ensure_bind]
  split
  next some =>
    have positive : state.context.remainingRequests > 0 := of_decide_eq_true some
    refine Costs.paid (moves_performRequest executor entry _) rfl rfl rfl ?_
    change state.context.remainingRequests - 1 + 1 = _
    omega
  next => exact costs_refl state

theorem moves_reportFailure (step : Nat) (method url : String) {α : Type} {effect : Exec α}
    (moves : Moves (Costs 0) effect) : Moves (Costs 0) (reportFailure step method url effect) := by
  intro state
  have start := moves state
  unfold reportFailure
  split
  next failure after run =>
    rw [run] at start
    exact start.trans (moves_emit (.finished step method url after.context.lastStatus 0 _) (fun _ => rfl) after)
  next => exact start

theorem moves_executeRequest : Moves (Costs 0) (executeRequest executor entry) := by
  refine moves_bind costs_trans (moves_read costs_refl _) fun step => ?_
  have numbered : Moves (Costs 0)
      (Effect.modify fun state => { state with nextStepIndex := state.nextStepIndex + 1 } : Exec Unit) := by
    intro state own
    exact ⟨rfl,Nat.le_refl _,[],(List.append_nil _).symm,Nat.le_of_eq (Nat.zero_add _),fun _ => Nat.zero_le _⟩
  refine moves_bind costs_trans numbered fun _ => ?_
  refine moves_bind costs_trans (moves_read costs_refl _) fun context => ?_
  refine moves_bind costs_trans (moves_emit (.started step _ _) fun _ => rfl) fun _ => ?_
  refine moves_bind costs_trans (moves_reportFailure step _ _ (moves_executeRequestInner executor entry)) fun result => ?_
  refine moves_bind costs_trans (moves_emit (.finished step _ _ _ _ _) fun _ => rfl) fun _ => ?_
  exact moves_pure costs_refl result

end Requests

section Loops

/-- A piece of a running loop that runs none of its iterations. -/
theorem running_after {loop count : Nat} {α β : Type} {first : Exec α} {next : α → Exec β}
    (before : Moves (Costs 0) first) (after : ∀ value, Moves (Running loop count) (next value)) :
    Moves (Running loop count) (first >>= next) :=
  moves_seq (R := Costs 0) (S := Running loop count) (T := Running loop count) (fun _ _ costs => costs.running)
    (fun _ _ _ left right => left.then_running right) before after

theorem running_iteration {loop count : Nat} {β : Type} {next : Unit → Exec β}
    (after : ∀ value, Moves (Running loop count) (next value)) :
    Moves (Running loop (count + 1)) (emit (.iteration loop) >>= next) :=
  moves_seq (R := Running loop 1) (S := Running loop count) (T := Running loop (count + 1))
    (fun _ _ running => running.mono (Nat.le_add_left 1 count))
    (fun _ _ _ left right => Nat.add_comm 1 count ▸ left.trans right) (moves_iteration loop) after

theorem running_before {loop count : Nat} {α β : Type} {first : Exec α} {next : α → Exec β}
    (before : Moves (Running loop count) first) (after : ∀ value, Moves (Costs 0) (next value)) :
    Moves (Running loop count) (first >>= next) :=
  moves_seq (R := Running loop count) (S := Costs 0) (T := Running loop count) (fun _ _ running => running)
    (fun _ b c left right => left.trans (right.running : Running loop 0 b c)) before after

theorem moves_forEachValue {loop : Nat} {bind : Nat → Json → Exec Unit} {body : Exec Unit}
    (binds : ∀ index value, Moves (Costs 0) (bind index value)) (runs : Moves (Costs 0) body) (values : List Json)
    (index : Nat) : Moves (Running loop values.length) (forEachValue loop bind body index values) := by
  induction values generalizing index with
  | nil =>
    intro state
    exact (costs_refl state).running
  | cons value rest ih =>
    refine running_after (binds index value) fun _ => ?_
    refine running_iteration fun _ => ?_
    refine running_after runs fun _ => ?_
    exact ih (index + 1)

theorem moves_whileTrue {loop : Nat} {condition : Exec Bool} {body : Exec Unit} (decides : Moves (Costs 0) condition)
    (runs : Moves (Costs 0) body) (left index : Nat) :
    Moves (Running loop left) (whileTrue loop condition body index left) := by
  induction left generalizing index with
  | zero =>
    intro state
    exact (costs_refl state).running
  | succ left ih =>
    refine running_after (moves_read costs_refl _) fun context => ?_
    refine running_after (costs_of_framed (moves_setVars _)) fun _ => ?_
    refine running_after decides fun holds => ?_
    split
    · refine running_iteration fun _ => ?_
      refine running_after runs fun _ => ?_
      refine running_after (moves_read costs_refl _) fun after => ?_
      refine running_after (moves_ensure costs_refl _ _) fun _ => ?_
      exact ih (index + 1)
    · intro state
      exact (costs_refl state).running

/-- A loop that is entered runs within the limit when its count is. -/
theorem moves_enter {α : Type} {effect : Nat → Exec α} {count : Nat} (runs : ∀ loop, Moves (Running loop count) (effect loop))
    (state : Execution) (room : count ≤ state.context.loopLimit) : Costs 0 state ((enter >>= effect) state).2 := by
  have spends := runs state.loops { state with loops := state.loops + 1 } (Nat.lt_succ_self _)
  obtain ⟨new,written,spent,allowed⟩ := spends.history
  have entered : state.loops < ((enter >>= effect) state).2.loops := spends.loops
  intro own
  refine ⟨spends.limit,Nat.le_of_lt entered,new,written,spent,?_⟩
  intro loop
  have bound := allowed loop
  have inside : ((enter >>= effect) state).2.loops = (effect state.loops { state with loops := state.loops + 1 }).2.loops :=
    rfl
  unfold allowance at *
  grind

variable (executor : QdExecutor)

theorem moves_executeNativeRequest (request : RequestStep) :
    Moves (Costs 0) (executeNativeRequest executor request) := by
  refine moves_bind costs_trans (moves_read costs_refl _) fun context => ?_
  refine moves_bind costs_trans (moves_lift costs_refl _) fun entry => ?_
  refine moves_bind costs_trans (moves_executeRequest executor entry) fun result => ?_
  exact moves_pushResult result

mutual
/-- By induction on the tree of steps: a loop pays for its own iterations when it is entered. -/
theorem moves_executeStep : (step : Step) → Moves (Costs 0) (executeStep executor step)
  | .request request => moves_executeNativeRequest executor request
  | .extract extract => costs_of_framed (moves_executeExtract executor extract)
  | .ifElse condition thenSteps otherwise => by
    refine moves_bind costs_trans (costs_of_framed (moves_evaluateBool executor condition)) fun holds => ?_
    split
    · exact moves_executeSteps thenSteps 0
    · exact moves_executeSteps otherwise 0
  | .forEach item items steps => by
    intro state
    unfold executeStep
    rw [read_bind,lift_bind]
    split
    next values _ =>
      rw [ensure_bind]
      split
      next room =>
        refine moves_enter (fun loop => ?_) state (of_decide_eq_true room)
        exact moves_forEachValue (fun _ value => costs_of_framed (moves_setVar item value)) (moves_executeSteps steps 0) values 0
      next => exact costs_refl state
    next => exact costs_refl state
  | .delay _ => moves_pure costs_refl ()
theorem moves_executeSteps : (steps : List Step) → (index : Nat) → Moves (Costs 0) (executeSteps executor index steps)
  | [],_ => moves_pure costs_refl ()
  | step :: rest,index => by
    refine moves_bind costs_trans (moves_mapError (moves_executeStep step)) fun _ => ?_
    exact moves_executeSteps rest (index + 1)
end

mutual
theorem moves_executeBlock : (block : QdBlock) → Moves (Costs 0) (executeBlock executor block)
  | .request entry => by
    refine moves_bind costs_trans (moves_executeRequest executor entry) fun result => ?_
    exact moves_pushResult result
  | .ifElse condition thenBlocks elseBlocks => by
    refine moves_bind costs_trans (costs_of_framed (moves_evaluateBool executor condition)) fun holds => ?_
    split
    · exact moves_executeBlocks thenBlocks 0
    · exact moves_executeBlocks elseBlocks 0
  | .forLoop target source body => by
    intro state
    unfold executeBlock
    rw [read_bind,lift_bind]
    split
    next values _ =>
      rw [ensure_bind]
      split
      next room =>
        refine moves_enter (fun loop => ?_) state (of_decide_eq_true room)
        refine running_after (costs_of_framed (moves_setVars _)) fun _ => ?_
        refine running_before ?_ fun _ => costs_of_framed (moves_setVars _)
        refine moves_forEachValue (fun index value => ?_) (moves_executeBlocks body 0) values 0
        exact moves_bind costs_trans (costs_of_framed (moves_setVar target value)) fun _ => costs_of_framed (moves_setVars _)
      next => exact costs_refl state
    next => exact costs_refl state
  | .whileLoop condition body => by
    intro state
    unfold executeBlock
    rw [read_bind]
    refine moves_enter (fun loop => ?_) state (Nat.le_refl _)
    refine running_after (costs_of_framed (moves_setVars _)) fun _ => ?_
    refine running_before ?_ fun _ => costs_of_framed (moves_setVars _)
    exact moves_whileTrue (costs_of_framed (moves_evaluateBool executor condition)) (moves_executeBlocks body 0) _ 0
theorem moves_executeBlocks : (blocks : List QdBlock) → (index : Nat) →
    Moves (Costs 0) (executeBlocks executor index blocks)
  | [],_ => moves_pure costs_refl ()
  | block :: rest,index => by
    refine moves_bind costs_trans (moves_mapError (moves_executeBlock block)) fun _ => ?_
    exact moves_executeBlocks rest (index + 1)
end

end Loops

/-- A run from the start, in terms of the limits it starts with. -/
theorem Costs.within {before after : Execution} (costs : Costs 0 before after) (fresh : before.events = [])
    (unentered : before.loops = 0) :
    requestCount after.events ≤ before.context.remainingRequests ∧
      ∀ loop, iterations loop after.events ≤ before.context.loopLimit := by
  obtain ⟨new,written,spent,allowed⟩ := (costs 0).history
  rw [fresh,List.nil_append] at written
  subst written
  refine ⟨by omega,?_⟩
  intro loop
  have bound := allowed loop
  rw [allowance,unentered,if_pos (Nat.zero_le loop)] at bound
  split at bound
  · exact bound
  · omega

/-- `execute` keeps the limits of the executor, whatever the caller's are. -/
theorem execute_within (executor : QdExecutor) (program : QdProgram) (context : ExecutionContext) :
    WithinLimits executor (execute executor program (Execution.initial context)).2.events := by
  have runs : Moves (Costs 0) (executeBlocks executor 0 program.blocks >>= fun _ => Effect.read Execution.results) :=
    moves_bind costs_trans (moves_executeBlocks executor program.blocks 0) fun _ => moves_read costs_refl _
  obtain ⟨requests,loops⟩ := (runs (Execution.initial { context with
    remainingRequests := min context.remainingRequests executor.requestLimit
    loopLimit := min context.loopLimit executor.loopLimit })).within rfl rfl
  refine ⟨requests.trans (Nat.min_le_right _ _),?_⟩
  intro loop
  exact (loops loop).trans (Nat.min_le_right _ _)

theorem executeTemplate_within (executor : QdExecutor) (definition : TemplateDefinition) (context : ExecutionContext) :
    requestCount (executeTemplate executor definition (Execution.initial context)).2.events ≤ executor.requestLimit ∧
      ∀ loop, iterations loop (executeTemplate executor definition (Execution.initial context)).2.events ≤
        context.loopLimit := by
  unfold executeTemplate
  rw [lift_bind]
  split
  next =>
    have runs : Moves (Costs 0) (executeSteps executor 0 definition.steps >>= fun _ => Effect.read Execution.results) :=
      moves_bind costs_trans (moves_executeSteps executor definition.steps 0) fun _ => moves_read costs_refl _
    obtain ⟨requests,loops⟩ := (runs (Execution.initial { context with
      vars := definition.vars.foldl (fun vars entry => vars.insertNew entry.1 entry.2) context.vars
      remainingRequests := min context.remainingRequests executor.requestLimit })).within rfl rfl
    exact ⟨requests.trans (Nat.min_le_right _ _),loops⟩
  next => exact ⟨Nat.zero_le _,fun _ => Nat.zero_le _⟩

section LongLoop

theorem exists_unset (vars : Fields) : ∃ count, vars.get (String.ofList (List.replicate (count + 1) 'x')) = none := by
  have bounded : ∃ bound, ∀ field ∈ vars, field.1.length ≤ bound := by
    induction vars with
    | nil => exact ⟨0,by simp⟩
    | cons field rest ih =>
      obtain ⟨bound,all⟩ := ih
      refine ⟨max field.1.length bound,?_⟩
      intro other member
      rcases List.mem_cons.mp member with rfl | later
      · exact Nat.le_max_left _ _
      · exact (all other later).trans (Nat.le_max_right _ _)
  obtain ⟨bound,all⟩ := bounded
  refine ⟨bound,?_⟩
  rw [Fields.get,Option.map_eq_none_iff,List.find?_eq_none]
  intro field member same
  have size := congrArg String.length (of_decide_eq_true same)
  have le := all field member
  simp only [String.length_ofList,List.length_replicate] at size
  omega

/-- A template that runs an empty wait for each of `count` values. -/
def waitLoop (name : String) (count : Nat) : TemplateDefinition :=
  ⟨templateSchemaVersion,"wait",[(name,.arr (List.replicate count .null))],[.forEach "item" name [.delay 0]]⟩

theorem waitLoop_valid (name : String) (count : Nat) (named : blank name = false) :
    (waitLoop name count).validate = .ok () := by
  simp only [TemplateDefinition.validate,waitLoop,validateSteps,validateEach,validateStep,named]
  rfl

theorem waits_events (executor : QdExecutor) (loop : Nat) (values : List Json) (index : Nat) (state : Execution) :
    (forEachValue loop (fun _ value => setVar "item" value) (executeSteps executor 0 [.delay 0]) index values
      state).2.events = state.events ++ List.replicate values.length (.iteration loop) := by
  induction values generalizing index state with
  | nil => exact (List.append_nil _).symm
  | cons value rest ih =>
    have later := ih (index + 1) { state with
      context := { state.context with vars := insertVar state.context.vars "item" value }
      events := state.events ++ [.iteration loop] }
    rw [List.length_cons,List.replicate_succ,List.append_cons]
    exact later

theorem waits_run (executor : QdExecutor) (name : String) (values : List Json) (state : Execution)
    (found : loopValues executor.services name state.context.vars = .ok values)
    (room : values.length ≤ state.context.loopLimit) :
    (executeStep executor (.forEach "item" name [.delay 0]) state).2.events =
      state.events ++ List.replicate values.length (.iteration state.loops) := by
  unfold executeStep
  rw [read_bind,found,lift_bind]
  simp only [ensure_bind,room,decide_true,if_true]
  exact waits_events executor state.loops values 0 { state with loops := state.loops + 1 }

/-- The loop of the template runs as often as the caller allows. -/
theorem waitLoop_iterations (executor : QdExecutor) (context : ExecutionContext) (name : String)
    (named : blank name = false) (unset : context.vars.get name = none) :
    iterations 0 (executeTemplate executor (waitLoop name context.loopLimit) (Execution.initial context)).2.events =
      context.loopLimit := by
  have still : ∀ (value : Unit) (state : Execution), (Effect.read Execution.results state : Except Failure _ × _).2 = state :=
    fun _ _ => rfl
  have steps : ∀ step state, (executeSteps executor 0 [step] state).2 = (executeStep executor step state).2 :=
    fun step state => bind_still (fun _ _ => rfl) state
  unfold executeTemplate
  rw [lift_bind,waitLoop_valid name _ named]
  simp only [Except.mapError,setVars,setContext,modify_bind,bind_still still,waitLoop,steps]
  rw [waits_run executor name (List.replicate context.loopLimit .null)]
  · simp [iterations,Execution.initial,List.countP_replicate,Event.isIteration]
  · have set : (context.vars.insertNew name (.arr (List.replicate context.loopLimit .null))).get name =
        some (.arr (List.replicate context.loopLimit .null)) := by
      rw [Fields.get_insertNew,if_pos rfl,unset]
      rfl
    simp only [loopValues,Execution.initial,List.foldl_cons,List.foldl_nil,set]
    rfl
  · exact Nat.le_of_eq (List.length_replicate)

end LongLoop

/-- `execute` keeps the limits of the executor. `execute_template` keeps them for
every template exactly when the caller's loop limit is no larger. -/
theorem limits_kept_iff (executor : QdExecutor) (context : ExecutionContext) :
    (∀ program, WithinLimits executor (execute executor program (Execution.initial context)).2.events) ∧
      ((∀ definition, WithinLimits executor (executeTemplate executor definition (Execution.initial context)).2.events) ↔
        context.loopLimit ≤ executor.loopLimit) := by
  refine ⟨fun program => execute_within executor program context,?_,?_⟩
  · intro within
    obtain ⟨count,unset⟩ := exists_unset context.vars
    have named : blank (String.ofList (List.replicate (count + 1) 'x')) = false := by
      simp [blank,Text.blankBy,List.replicate_succ,Text.whiteSpace]
    rw [← waitLoop_iterations executor context _ named unset]
    exact (within _).2 0
  · intro le definition
    obtain ⟨requests,loops⟩ := executeTemplate_within executor definition context
    exact ⟨requests,fun loop => (loops loop).trans le⟩

/-- A caller that allows two iterations gets both from an executor that allows one. -/
theorem caller_limit_wins :
    ¬WithinLimits ⟨.offline,⟨false,none⟩,0,1,1⟩ (executeTemplate ⟨.offline,⟨false,none⟩,0,1,1⟩ (waitLoop "items" 2)
      (Execution.initial (ExecutionContext.withLimits [] 1 2))).2.events := by
  intro within
  have run := waitLoop_iterations ⟨.offline,⟨false,none⟩,0,1,1⟩ (ExecutionContext.withLimits [] 1 2) "items" (by decide) rfl
  exact absurd (run.symm.trans_le (within.2 0)) (by decide)

end Qdrust.Executor
