import Qdrust.Library.Text
import Qdrust.Library.Checked
import Qdrust.Library.Json

/-! Native template definitions and their validation. The running count of
steps is passed through the tree and returned. -/
namespace Qdrust.Template
open Library

def templateSchemaVersion : Nat := 1
def maxNestingDepth : Nat := 16
def maxSteps : Nat := 1000

inductive RequestBody where
  | json (value : Json)
  | text (value : String)
  | form (values : List (String × String))

/-- Headers, query and form fields in the order of their names. -/
structure RequestStep where
  name : String
  method : String
  url : String
  headers : List (String × String)
  query : List (String × String)
  body : Option RequestBody

inductive ExtractSource where
  | json
  | text
  | header
  | status
  deriving DecidableEq

structure ExtractStep where
  name : String
  source : ExtractSource
  selector : String
  target : String
  required : Bool

inductive Step where
  | request (request : RequestStep)
  | extract (extract : ExtractStep)
  | ifElse (condition : String) (thenSteps otherwise : List Step)
  | forEach (item items : String) (steps : List Step)
  | delay (milliseconds : Nat)

structure TemplateDefinition where
  version : Nat
  name : String
  vars : Fields
  steps : List Step

def blank (text : String) : Bool := Text.blankBy Text.whiteSpace text

def httpMethods : List String := ["GET","POST","PUT","PATCH","DELETE","HEAD","OPTIONS"]

/-- The checks on entering a list of steps, and the count with them. -/
def enterSteps (depth : Nat) (steps : List Step) (count : Nat) : Except String Nat := do
  ensure (depth ≤ maxNestingDepth) "template nesting is too deep"
  ensure (count + steps.length ≤ maxSteps) "template has too many steps"
  return count + steps.length

mutual
def validateStep (depth count : Nat) : Step → Except String Nat
  | .request request => do
    ensure (!blank request.name) "request name cannot be empty"
    ensure (!blank request.url) "request URL cannot be empty"
    ensure (request.method.toUpper ∈ httpMethods) ("unsupported HTTP method: " ++ request.method)
    return count
  | .extract extract => do
    ensure (!blank extract.name) "extract name cannot be empty"
    ensure (!blank extract.target) "extract target cannot be empty"
    ensure (extract.source = .status || extract.selector ≠ "") "extract selector cannot be empty"
    return count
  | .ifElse condition thenSteps otherwise => do
    ensure (!blank condition) "if condition cannot be empty"
    let count ← enterSteps (depth + 1) thenSteps count
    let count ← validateEach (depth + 1) count thenSteps
    let count ← enterSteps (depth + 1) otherwise count
    validateEach (depth + 1) count otherwise
  | .forEach item items steps => do
    ensure (!blank item) "for_each item cannot be empty"
    ensure (!blank items) "for_each items cannot be empty"
    let count ← enterSteps (depth + 1) steps count
    validateEach (depth + 1) count steps
  | .delay milliseconds => do
    ensure (milliseconds ≤ 300000) "delay exceeds five minutes"
    return count
def validateEach (depth count : Nat) : List Step → Except String Nat
  | [] => .ok count
  | step :: rest => do
    let count ← validateStep depth count step
    validateEach depth count rest
end

def validateSteps (depth : Nat) (steps : List Step) (count : Nat) : Except String Nat := do
  let count ← enterSteps depth steps count
  validateEach depth count steps

def TemplateDefinition.validate (definition : TemplateDefinition) : Except String Unit := do
  ensure (definition.version = templateSchemaVersion) "unsupported template version"
  ensure (!blank definition.name) "template name cannot be empty"
  ensure (!definition.steps.isEmpty) "template must contain at least one step"
  let _ ← validateSteps 0 definition.steps 0
  return ()

end Qdrust.Template
