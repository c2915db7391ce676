import Qdrust.Executor.Request
import Qdrust.Har.Program

/-! Programs of blocks and native steps, run with the limits of the context. Each
loop that is entered gets a number, and each run of its body is an event. -/
namespace Qdrust.Executor
open Library Har Template

def stepLabelChars : Nat := 120

def boundedLabel (value : String) : String :=
  String.ofList ((trimmed value).toList.take stepLabelChars) ++
    if (trimmed value).length > stepLabelChars then "…" else ""

def requestLabel (name method url : String) : String :=
  if trimmed name = "" then method ++ " " ++ boundedLabel url
  else trimmed name ++ " " ++ method ++ " " ++ boundedLabel url

def labelled (index : Nat) (detail : String) : String := "step " ++ toString (index + 1) ++ " (" ++ detail ++ ")"

def stepLabel (index : Nat) : Step → String
  | .request request => labelled index (requestLabel request.name request.method request.url)
  | .extract extract => labelled index ("extract " ++ boundedLabel extract.name)
  | .ifElse condition _ _ => labelled index ("if " ++ boundedLabel condition)
  | .forEach item items _ => labelled index ("for " ++ item ++ " in " ++ boundedLabel items)
  | .delay milliseconds => labelled index ("delay " ++ toString milliseconds ++ "ms")

def blockLabel (index : Nat) : QdBlock → String
  | .request entry => labelled index (requestLabel "" entry.request.method entry.request.url)
  | .forLoop target source _ => labelled index ("for " ++ target ++ " in " ++ boundedLabel source)
  | .whileLoop condition _ => labelled index ("while " ++ boundedLabel condition)
  | .ifElse condition _ _ => labelled index ("if " ++ boundedLabel condition)

/-- `str::parse::<usize>`. -/
def parseUsize (text : String) : Option Nat :=
  let digits := (Text.stripPrefix text "+").getD text
  if digits ≠ "" && digits.toList.all Char.isDigit then
    let value := digits.toList.foldl (fun value c => value * 10 + (c.toNat - 48)) 0
    if value < 2 ^ 64 then some value else none
  else none

def loopDepth (vars : Fields) (unset : Nat) : Nat := ((vars.text "loop_depth").bind parseUsize).getD unset

def enterLoop (vars : Fields) : Fields :=
  let depth := loopDepth vars 0 + 1
  insertVar (insertVar vars "loop_depth" (.str (toString depth))) "loop_depth0" (.str (toString (depth - 1)))

def leaveLoop (vars : Fields) : Fields :=
  let depth := loopDepth vars 1 - 1
  insertVar (insertVar vars "loop_depth" (.str (toString depth))) "loop_depth0"
    (.str (if depth = 0 then "-1" else toString (depth - 1)))

def setLoopVariables (index length : Nat) (vars : Fields) : Fields :=
  [("loop_index0",toString index),("loop_index",toString (index + 1)),
    ("loop_first",if index = 0 then "True" else "False"),
    ("loop_last",if index + 1 = length then "True" else "False"),("loop_length",toString length),
    ("loop_revindex0",toString (length - index - 1)),("loop_revindex",toString (length - index))].foldl
      (fun vars entry => insertVar vars entry.1 (.str entry.2)) vars

def setVars (change : Fields → Fields) : Exec Unit := setContext fun context => { context with vars := change context.vars }

def iterableValues : Json → Except Failure (List Json)
  | .arr values => .ok values
  | .obj fields => .ok (fields.map fun field => .str field.1)
  | .str value => .ok (value.toList.map fun c => .str (String.singleton c))
  | _ => .error ["for expression is not iterable"]

/-- The values a loop runs over: a variable of that name, or the expression. -/
def loopValues (services : Services) (source : String) (vars : Fields) : Except Failure (List Json) := do
  let value ← (vars.get source).elim (services.evaluate source vars) .ok
  iterableValues value

def evaluateBool (services : Services) (condition : String) : Exec Bool := do
  let context ← Effect.read Execution.context
  Effect.lift (services.evaluateBool condition context.vars)

/-- The number of a loop that is entered. -/
def enter : Exec Nat := do
  let loop ← Effect.read Execution.loops
  Effect.modify fun state => { state with loops := state.loops + 1 }
  return loop

/-- Run the body for each value, as long as it succeeds. -/
def forEachValue (loop : Nat) (bind : Nat → Json → Exec Unit) (body : Exec Unit) : Nat → List Json → Exec Unit
  | _,[] => pure ()
  | index,value :: rest => do
    bind index value
    emit (.iteration loop)
    body
    forEachValue loop bind body (index + 1) rest

/-- Run the body while the condition holds, `left` times at most. -/
def whileTrue (loop : Nat) (condition : Exec Bool) (body : Exec Unit) : Nat → Nat → Exec Unit
  | _,0 => pure ()
  | index,left + 1 => do
    let context ← Effect.read Execution.context
    setVars (setLoopVariables index context.loopLimit)
    if ← condition then do
      emit (.iteration loop)
      body
      let context ← Effect.read Execution.context
      Effect.ensure (index + 1 ≠ context.loopLimit) ["while loop iteration limit exceeded"]
      whileTrue loop condition body (index + 1) left
    else pure ()

def pushResult (result : StepResult) : Exec Unit :=
  Effect.modify fun state => { state with results := state.results ++ [result] }

/-- `execute_step` for the steps that run no others. -/
def executeExtract (services : Services) (extract : ExtractStep) : Exec Unit := do
  let context ← Effect.read Execution.context
  let value ← Effect.lift (match extract.source with
    | .status => .ok (context.lastStatus.map fun status => .num ⟨status,0⟩)
    | .header => .ok ((headerValue context.lastHeaders extract.selector).map Json.str)
    | .text => services.extract extract.selector context.lastBody
    | .json => (withContext "last response is not valid JSON" (services.parseJson context.lastBody)).map fun json =>
        services.pointer json extract.selector)
  match value with
  | some value => setVar extract.target value
  | none => Effect.ensure (!extract.required) ["required extraction did not match: " ++ extract.name]

def executeNativeRequest (executor : QdExecutor) (request : RequestStep) : Exec Unit := do
  let context ← Effect.read Execution.context
  let entry ← Effect.lift (nativeRequestEntry executor.services request context.vars)
  let result ← executeRequest executor entry
  pushResult result

mutual
def executeStep (executor : QdExecutor) : Step → Exec Unit
  | .request request => executeNativeRequest executor request
  | .extract extract => executeExtract executor.services extract
  | .ifElse condition thenSteps otherwise => do
    if ← evaluateBool executor.services condition then executeSteps executor 0 thenSteps
    else executeSteps executor 0 otherwise
  | .forEach item items steps => do
    let context ← Effect.read Execution.context
    let values ← Effect.lift (loopValues executor.services items context.vars)
    Effect.ensure (values.length ≤ context.loopLimit) ["for_each iteration limit exceeded"]
    let loop ← enter
    forEachValue loop (fun _ value => setVar item value) (executeSteps executor 0 steps) 0 values
  | .delay _ => pure ()
def executeSteps (executor : QdExecutor) (index : Nat) : List Step → Exec Unit
  | [] => pure ()
  | step :: rest => do
    Effect.mapError (stepLabel index step :: ·) (executeStep executor step)
    executeSteps executor (index + 1) rest
end

mutual
def executeBlock (executor : QdExecutor) : QdBlock → Exec Unit
  | .request entry => do
    let result ← executeRequest executor entry
    pushResult result
  | .ifElse condition thenBlocks elseBlocks => do
    if ← evaluateBool executor.services condition then executeBlocks executor 0 thenBlocks
    else executeBlocks executor 0 elseBlocks
  | .forLoop target source body => do
    let context ← Effect.read Execution.context
    let values ← Effect.lift (loopValues executor.services source context.vars)
    Effect.ensure (values.length ≤ context.loopLimit) ["for loop iteration limit exceeded"]
    let loop ← enter
    setVars enterLoop
    forEachValue loop (fun index value => do
      setVar target value
      setVars (setLoopVariables index values.length)) (executeBlocks executor 0 body) 0 values
    setVars leaveLoop
  | .whileLoop condition body => do
    let context ← Effect.read Execution.context
    let loop ← enter
    setVars enterLoop
    whileTrue loop (evaluateBool executor.services condition) (executeBlocks executor 0 body) 0 context.loopLimit
    setVars leaveLoop
def executeBlocks (executor : QdExecutor) (index : Nat) : List QdBlock → Exec Unit
  | [] => pure ()
  | block :: rest => do
    Effect.mapError (blockLabel index block :: ·) (executeBlock executor block)
    executeBlocks executor (index + 1) rest
end

/-- Nothing has happened yet. -/
def Execution.initial (context : ExecutionContext) : Execution := ⟨context,[],[],0,0⟩

/-- `execute`: both limits of the caller are cut to those of the executor. -/
def execute (executor : QdExecutor) (program : QdProgram) : Exec (List StepResult) := do
  setContext fun context => { context with
    remainingRequests := min context.remainingRequests executor.requestLimit
    loopLimit := min context.loopLimit executor.loopLimit }
  executeBlocks executor 0 program.blocks
  Effect.read Execution.results

/-- `execute_template`: only the number of requests is cut. -/
def executeTemplate (executor : QdExecutor) (definition : TemplateDefinition) : Exec (List StepResult) := do
  Effect.lift (definition.validate.mapError fun text => [text])
  setVars fun vars => definition.vars.foldl (fun vars entry => vars.insertNew entry.1 entry.2) vars
  setContext fun context => { context with
    remainingRequests := min context.remainingRequests executor.requestLimit }
  executeSteps executor 0 definition.steps
  Effect.read Execution.results

end Qdrust.Executor
