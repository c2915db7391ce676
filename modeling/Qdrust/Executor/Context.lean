import Qdrust.Executor.Address
import Qdrust.Expression.Template
import Qdrust.Har.Model
import Qdrust.Library.Effect

/-! The state of an execution and what it gets from outside: the template engine
behind the rewriting, the regular expressions, URLs, plugins and the network. -/
namespace Qdrust.Executor
open Library Expression

/-- An error with its causes, outermost first. -/
abbrev Failure := List String

/-- `{err}`. -/
def Failure.display (failure : Failure) : String := failure.headD ""

/-- `{err:#}`. -/
def Failure.chain (failure : Failure) : String := ": ".intercalate failure

abbrev Headers := List (String × String)

/-- A part of a multipart body. -/
structure Part where
  name : String
  content : String
  fileName : Option String
  contentType : Option String

inductive OutboundBody where
  | text (body : String)
  | multipart (parts : List Part)

/-- What is handed to the HTTP client. -/
structure OutboundRequest where
  connection : Connection
  method : String
  url : String
  headers : Headers
  body : Option OutboundBody

structure Response where
  status : Nat
  headers : Headers
  body : List UInt8

/-- What has happened in an execution. A loop that is entered has a number, and
each of its iterations refers to it. -/
inductive Event where
  | started (step : Nat) (method url : String)
  | finished (step : Nat) (method url : String) (status : Option Nat) (bodySize : Nat) (error : Option String)
  | sent (request : OutboundRequest)
  | called (url : String)
  | iteration (loop : Nat)

/-- The parts outside of the repository. Responses depend on what has happened. -/
structure Services where
  tables : CharTables
  renderStr : String → Fields → Except Failure String
  evaluate : String → Fields → Except Failure Json
  evaluateBool : String → Fields → Except Failure Bool
  jsonText : Json → String
  parseJson : String → Except Failure Json
  pointer : Json → String → Option Json
  /-- Parse a URL and write it again. -/
  parseUrl : String → Except Failure String
  /-- Append pairs to the query of a parsed URL. -/
  appendQuery : String → List (String × String) → String
  pluginAction : String → Option String
  method : String → Except Failure Unit
  validMime : String → Bool
  network : NetworkEnv
  /-- The cookies for a URL, with those that have just been added for it. -/
  jar : List Event → List String → String → Option String
  plugin : List Event → String → Except Failure Response
  send : List Event → OutboundRequest → Except Failure Response
  decodeBody : List UInt8 → Headers → String
  base64 : List UInt8 → String
  extract : String → String → Except Failure (Option Json)
  isMatch : String → String → Except Failure Bool

structure ExecutionContext where
  vars : Fields
  remainingRequests : Nat
  loopLimit : Nat
  lastStatus : Option Nat
  lastHeaders : Headers
  lastBody : String

def ExecutionContext.withLimits (vars : Fields) (requestLimit loopLimit : Nat) : ExecutionContext :=
  ⟨vars,requestLimit,loopLimit,none,[],""⟩

structure StepResult where
  url : String
  status : Nat
  bodySize : Nat

/-- `loops` is the number of loops that have been entered. -/
structure Execution where
  context : ExecutionContext
  results : List StepResult
  events : List Event
  nextStepIndex : Nat
  loops : Nat

abbrev Exec := Effect Failure Execution

structure QdExecutor where
  services : Services
  policy : OutboundPolicy
  responseLimit : Nat
  requestLimit : Nat
  loopLimit : Nat

def withContext (text : String) {α : Type} : Except Failure α → Except Failure α := Except.mapError (text :: ·)

/-- `BTreeMap::insert`. -/
def insertVar (vars : Fields) (name : String) (value : Json) : Fields :=
  if vars.containsKey name then vars.modify name fun _ => value else vars ++ [(name,value)]

def emit (event : Event) : Exec Unit := Effect.modify fun state => { state with events := state.events ++ [event] }

def setContext (change : ExecutionContext → ExecutionContext) : Exec Unit :=
  Effect.modify fun state => { state with context := change state.context }

def setVar (name : String) (value : Json) : Exec Unit :=
  setContext fun context => { context with vars := insertVar context.vars name value }

/-- `QdExpressionEngine::render`. -/
def Services.renderTemplate (services : Services) (template : String) (vars : Fields) : Except Failure String :=
  withContext "cannot render QD template value"
    (services.renderStr (String.ofList (compatPythonTemplate services.tables template.toList)) vars)

/-- `QdExecutor::render`. -/
def Services.render (services : Services) (value : String) (context : ExecutionContext) : Except Failure String :=
  withContext "cannot render QD template value" (services.renderTemplate value context.vars)

/-- No network, and an engine for templates that have no markup. -/
def Services.offline : Services where
  tables := ⟨fun _ => false,fun _ => false⟩
  renderStr := fun text _ => .ok text
  evaluate := fun _ _ => .error ["offline"]
  evaluateBool := fun _ _ => .error ["offline"]
  jsonText := fun _ => ""
  parseJson := fun _ => .error ["offline"]
  pointer := fun _ _ => none
  parseUrl := .ok
  appendQuery := fun url _ => url
  pluginAction := fun _ => none
  method := fun _ => .ok ()
  validMime := fun _ => false
  network := ⟨fun _ => none,fun _ _ => none⟩
  jar := fun _ _ _ => none
  plugin := fun _ _ => .error ["offline"]
  send := fun _ _ => .error ["offline"]
  decodeBody := fun _ _ => ""
  base64 := fun _ => ""
  extract := fun _ _ => .error ["offline"]
  isMatch := fun _ _ => .error ["offline"]

end Qdrust.Executor
