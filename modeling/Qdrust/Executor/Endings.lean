import Qdrust.Executor.Rendering

/-! What a run of a program is made of: its requests, of which a failed one is the last, and what
sends nothing. -/
namespace Qdrust.Executor
open Library Effect Har Template

/-- Nothing goes out in between. -/
abbrev Silent : Execution → Execution → Prop := Sends fun _ => False

/-- Relations for the runs of a program that hold of its requests and of all that sends nothing. -/
structure Covers (executor : QdExecutor) (live dead : Execution → Execution → Prop) : Prop extends Chained live dead where
  silent : ∀ before after, Silent before after → live before after
  request : ∀ entry, Ends live dead (executeRequest executor entry)

/-- Relations for the runs of a program that hold of the parts it is put together from. -/
structure Parts (executor : QdExecutor) (live dead : Execution → Execution → Prop) : Prop extends Chained live dead where
  framed : ∀ before after, Framed before after → live before after
  context : ∀ before context, live before { before with context }
  iteration : ∀ loop, Ends live dead (emit (.iteration loop))
  enter : Ends live dead Executor.enter
  request : ∀ entry, Ends live dead (executeRequest executor entry >>= pushResult)

section Rules

variable {executor : QdExecutor} {live dead : Execution → Execution → Prop}

theorem Parts.still (parts : Parts executor live dead) {α : Type} {effect : Exec α} (moves : Moves Framed effect) :
    Ends live dead effect := ends_of_moves parts.toChained parts.framed moves

theorem Parts.read (parts : Parts executor live dead) {α : Type} (view : Execution → α) :
    Ends live dead (Effect.read view : Exec α) := parts.still (moves_read framed_refl view)

theorem Parts.lift (parts : Parts executor live dead) {α : Type} (result : Except Failure α) :
    Ends live dead (Effect.lift result : Exec α) := parts.still (moves_lift framed_refl result)

theorem Parts.ensure (parts : Parts executor live dead) (holds : Bool) (failure : Failure) :
    Ends live dead (Effect.ensure holds failure : Exec Unit) := parts.still (moves_ensure framed_refl holds failure)

theorem Parts.skip (parts : Parts executor live dead) {α : Type} (value : α) :
    Ends live dead (pure value : Exec α) := parts.still (moves_pure framed_refl value)

theorem Parts.setContext (parts : Parts executor live dead) (change : ExecutionContext → ExecutionContext) :
    Ends live dead (setContext change) := fun state => parts.context state (change state.context)

theorem Parts.forEachValue (parts : Parts executor live dead) {loop : Nat} {bind : Nat → Json → Exec Unit}
    {body : Exec Unit} (binds : ∀ index value, Ends live dead (bind index value)) (runs : Ends live dead body)
    (values : List Json) (index : Nat) : Ends live dead (forEachValue loop bind body index values) := by
  induction values generalizing index with
  | nil => exact parts.skip ()
  | cons value rest ih =>
    refine (binds index value).bind parts.toChained fun _ => ?_
    refine (parts.iteration loop).bind parts.toChained fun _ => ?_
    exact runs.bind parts.toChained fun _ => ih (index + 1)

theorem Parts.whileTrue (parts : Parts executor live dead) {loop : Nat} {condition : Exec Bool} {body : Exec Unit}
    (decides : Ends live dead condition) (runs : Ends live dead body) (left index : Nat) :
    Ends live dead (whileTrue loop condition body index left) := by
  induction left generalizing index with
  | zero => exact parts.skip ()
  | succ left ih =>
    refine (parts.read _).bind parts.toChained fun context => ?_
    refine (parts.still (moves_setVars _)).bind parts.toChained fun _ => ?_
    refine decides.bind parts.toChained fun holds => ?_
    split
    · refine (parts.iteration loop).bind parts.toChained fun _ => ?_
      refine runs.bind parts.toChained fun _ => ?_
      refine (parts.read _).bind parts.toChained fun after => ?_
      exact (parts.ensure _ _).bind parts.toChained fun _ => ih (index + 1)
    · exact parts.skip ()

mutual
/-- By induction on the tree of blocks. -/
theorem Parts.executeBlock (parts : Parts executor live dead) : (block : QdBlock) →
    Ends live dead (executeBlock executor block)
  | .request entry => parts.request entry
  | .ifElse condition thenBlocks elseBlocks => by
    refine (parts.still (moves_evaluateBool executor condition)).bind parts.toChained fun holds => ?_
    split
    · exact Parts.executeBlocks parts thenBlocks 0
    · exact Parts.executeBlocks parts elseBlocks 0
  | .forLoop target source body => by
    refine (parts.read _).bind parts.toChained fun context => ?_
    refine (parts.lift _).bind parts.toChained fun values => ?_
    refine (parts.ensure _ _).bind parts.toChained fun _ => ?_
    refine parts.enter.bind parts.toChained fun loop => ?_
    refine (parts.still (moves_setVars _)).bind parts.toChained fun _ => ?_
    refine (parts.forEachValue (fun index value => ?_) (Parts.executeBlocks parts body 0) values 0).bind
      parts.toChained fun _ => parts.still (moves_setVars _)
    exact (parts.still (moves_setVar target value)).bind parts.toChained fun _ => parts.still (moves_setVars _)
  | .whileLoop condition body => by
    refine (parts.read _).bind parts.toChained fun context => ?_
    refine parts.enter.bind parts.toChained fun loop => ?_
    refine (parts.still (moves_setVars _)).bind parts.toChained fun _ => ?_
    refine (parts.whileTrue ?_ (Parts.executeBlocks parts body 0) context.loopLimit 0).bind parts.toChained
      fun _ => parts.still (moves_setVars _)
    exact parts.still (moves_evaluateBool executor condition)
theorem Parts.executeBlocks (parts : Parts executor live dead) : (blocks : List QdBlock) → (index : Nat) →
    Ends live dead (executeBlocks executor index blocks)
  | [],_ => parts.skip ()
  | block :: rest,index =>
    (Parts.executeBlock parts block).mapError.bind parts.toChained fun _ => Parts.executeBlocks parts rest (index + 1)
end

mutual
theorem Parts.executeStep (parts : Parts executor live dead) : (step : Step) → Ends live dead (executeStep executor step)
  | .request request => by
    refine (parts.read _).bind parts.toChained fun context => ?_
    exact (parts.lift _).bind parts.toChained fun entry => parts.request entry
  | .extract extract => parts.still (moves_executeExtract executor extract)
  | .ifElse condition thenSteps otherwise => by
    refine (parts.still (moves_evaluateBool executor condition)).bind parts.toChained fun holds => ?_
    split
    · exact Parts.executeSteps parts thenSteps 0
    · exact Parts.executeSteps parts otherwise 0
  | .forEach item items steps => by
    refine (parts.read _).bind parts.toChained fun context => ?_
    refine (parts.lift _).bind parts.toChained fun values => ?_
    refine (parts.ensure _ _).bind parts.toChained fun _ => ?_
    refine parts.enter.bind parts.toChained fun loop => ?_
    exact parts.forEachValue (fun _ value => parts.still (moves_setVar item value))
      (Parts.executeSteps parts steps 0) values 0
  | .delay _ => parts.skip ()
theorem Parts.executeSteps (parts : Parts executor live dead) : (steps : List Step) → (index : Nat) →
    Ends live dead (executeSteps executor index steps)
  | [],_ => parts.skip ()
  | step :: rest,index =>
    (Parts.executeStep parts step).mapError.bind parts.toChained fun _ => Parts.executeSteps parts rest (index + 1)
end

theorem Parts.execute (parts : Parts executor live dead) (program : QdProgram) :
    Ends live dead (execute executor program) := by
  refine (parts.setContext _).bind parts.toChained fun _ => ?_
  exact (parts.executeBlocks program.blocks 0).bind parts.toChained fun _ => parts.read _

theorem Parts.executeTemplate (parts : Parts executor live dead) (definition : TemplateDefinition) :
    Ends live dead (executeTemplate executor definition) := by
  refine (parts.lift _).bind parts.toChained fun _ => ?_
  refine (parts.still (moves_setVars _)).bind parts.toChained fun _ => ?_
  refine (parts.setContext _).bind parts.toChained fun _ => ?_
  exact (parts.executeSteps definition.steps 0).bind parts.toChained fun _ => parts.read _

theorem Covers.parts (covers : Covers executor live dead) : Parts executor live dead where
  toChained := covers.toChained
  framed before after framed := covers.silent before after (sends_of_events framed.events)
  context _ _ := covers.silent _ _ (sends_of_events rfl)
  iteration loop := ends_of_moves covers.toChained covers.silent (sends_emit (.iteration loop) fun request => Bool.noConfusion request)
  enter := ends_of_moves covers.toChained covers.silent fun _ => sends_of_events rfl
  request entry := (covers.request entry).bind covers.toChained fun _ =>
    ends_of_moves covers.toChained covers.silent fun _ => sends_of_events rfl

theorem Covers.execute (covers : Covers executor live dead) (program : QdProgram) :
    Ends live dead (execute executor program) := covers.parts.execute program

theorem Covers.executeTemplate (covers : Covers executor live dead) (definition : TemplateDefinition) :
    Ends live dead (executeTemplate executor definition) := covers.parts.executeTemplate definition

end Rules

end Qdrust.Executor
