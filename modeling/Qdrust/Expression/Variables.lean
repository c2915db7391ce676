import Mathlib.Data.Finset.Sort
import Mathlib.Data.String.Basic
import Qdrust.Library.Collect
import Qdrust.Library.Text

/-! The variables a template reads, and the defaults it declares for them. -/
namespace Qdrust.Expression
open Library

/-- The names the engine resolves on its own, and the undeclared variables of one
template in an environment without them. -/
structure Analysis where
  knownNames : List String
  undeclaredNames : String → Finset String

def wordStart (c : Char) : Bool := c.isAlpha || c == '_'

def wordChar (c : Char) : Bool := c.isAlphanum || c == '_'

/-- The matches of `[A-Za-z_][A-Za-z0-9_]*`. -/
def identifiersFrom : Nat → List Char → List String
  | 0,_ => []
  | _,[] => []
  | fuel + 1,c :: text =>
    if wordStart c then
      String.ofList ((c :: text).takeWhile wordChar) :: identifiersFrom fuel ((c :: text).dropWhile wordChar)
    else identifiersFrom fuel text

def identifiers (source : String) : List String := identifiersFrom source.length source.toList

namespace Analysis

variable (analysis : Analysis)

def undeclared (source : String) : Finset String :=
  (analysis.undeclaredNames source).filter fun name => name ∉ analysis.knownNames

/-- The undeclared names the scan of the source has missed. -/
def leftovers (source : String) : List String :=
  ((analysis.undeclared source).filter fun name => name ∉ identifiers source).sort (· ≤ ·)

def undeclaredVariables (source : String) : List String :=
  collect (fun name => decide (name ∈ analysis.undeclared source)) [] (identifiers source) ++ analysis.leftovers source

/-- Every place of the source where an undeclared name stands. -/
def appearances (source : String) : List String :=
  (identifiers source).filter (fun name => decide (name ∈ analysis.undeclared source)) ++ analysis.leftovers source

variable {analysis} {source name : String}

theorem mem_undeclared : name ∈ analysis.undeclared source ↔ name ∈ analysis.undeclaredNames source ∧ name ∉ analysis.knownNames := by
  simp [undeclared]

theorem mem_leftovers : name ∈ analysis.leftovers source ↔ name ∈ analysis.undeclared source ∧ name ∉ identifiers source := by
  simp [leftovers]

theorem mem_appearances : name ∈ analysis.appearances source ↔ name ∈ analysis.undeclared source := by
  simp only [appearances,List.mem_append,List.mem_filter,mem_leftovers,decide_eq_true_eq]
  constructor
  · rintro (there | there)
    · exact there.2
    · exact there.1
  · intro there
    by_cases scanned : name ∈ identifiers source
    · exact .inl ⟨scanned,there⟩
    · exact .inr ⟨there,scanned⟩

theorem mem_undeclaredVariables : name ∈ analysis.undeclaredVariables source ↔ name ∈ analysis.undeclared source := by
  refine Iff.trans ?_ mem_appearances
  rw [undeclaredVariables,appearances,List.mem_append,List.mem_append,mem_collect,List.mem_filter]
  simp only [List.not_mem_nil,false_or]

theorem collect_undeclaredVariables (wanted : String → Bool) (kept : List String) (source : String) :
    collect wanted kept (analysis.undeclaredVariables source) = collect wanted kept (analysis.appearances source) := by
  rw [undeclaredVariables,appearances,collect_append,collect_append,collect_collect]

end Analysis

/-- What follows `|`, blanks allowed on both sides. -/
def afterPipe (text : List Char) : Option (List Char) :=
  (['|'].isPrefixOf? (text.dropWhile Text.whiteSpace)).map fun rest => rest.dropWhile Text.whiteSpace

/-- `[A-Za-z_][A-Za-z0-9_]*\s*\|\s*default\s*\(` at the front of a text. -/
def defaultAt (text : List Char) : Option (List Char × List Char) := do
  let first ← text.head?
  if wordStart first then
    let rest ← afterPipe (text.dropWhile wordChar)
    let rest ← "default".toList.isPrefixOf? rest
    let rest ← ['('].isPrefixOf? (rest.dropWhile Text.whiteSpace)
    return (text.takeWhile wordChar,rest)
  else none

/-- What is behind the rest of a text, the last character first. -/
def passed (behind text rest : List Char) : List Char := (text.take (text.length - rest.length)).reverse ++ behind

/-- The matches of the default filter: what stands before the name, the name, and what
follows the match. `behind` is what has been passed over, the last character first. -/
def defaultFilter : Nat → List Char → List Char → List (List Char × List Char × List Char)
  | 0,_,_ => []
  | _,_,[] => []
  | fuel + 1,behind,c :: text =>
    let here := if behind.isEmpty then defaultAt (c :: text) else none
    let next := if wordChar c || c == '.' then none else defaultAt text
    match here with
    | some (name,rest) => (behind,name,rest) :: defaultFilter fuel (passed behind (c :: text) rest) rest
    | none => match next with
      | some (name,rest) => (c :: behind,name,rest) :: defaultFilter fuel (passed behind (c :: text) rest) rest
      | none => defaultFilter fuel (c :: behind) text

def unescape (c : Char) : Char :=
  if c == 'n' then '\n' else if c == 't' then '\t' else if c == 'r' then '\r' else c

/-- A string up to its closing quote. -/
def quoted (quote : Char) : Bool → List Char → Option (List Char)
  | _,[] => none
  | true,c :: text => (quoted quote false text).map fun value => unescape c :: value
  | false,c :: text =>
    if c == '\\' then quoted quote true text
    else if c == quote then some []
    else (quoted quote false text).map fun value => c :: value

def digits (text : List Char) : List Char × List Char := text.span Char.isDigit

/-- `[eE][+-]?[0-9]+` or nothing. -/
def exponentEnds : List Char → Bool
  | [] => true
  | c :: text =>
    if c == 'e' || c == 'E' then
      let rest := match text with
        | sign :: rest => if sign == '+' || sign == '-' then rest else text
        | [] => text
      !rest.isEmpty && rest.all Char.isDigit
    else false

/-- A text that `str::parse::<f64>` takes. -/
def parsesF64 (text : List Char) : Bool :=
  let unsigned := match text with
    | sign :: rest => if sign == '+' || sign == '-' then rest else text
    | [] => text
  let lower := unsigned.map Char.toLower
  if lower == "inf".toList || lower == "infinity".toList || lower == "nan".toList then true
  else
    let (whole,rest) := digits unsigned
    match rest with
    | '.' :: rest =>
      let (fraction,rest) := digits rest
      !(whole.isEmpty && fraction.isEmpty) && exponentEnds rest
    | rest => !whole.isEmpty && exponentEnds rest

def argumentChar (c : Char) : Bool := !Text.whiteSpace c && c != ',' && c != ')'

def firstLiteralArgument (rest : List Char) : Option String :=
  match rest.dropWhile Text.whiteSpace with
  | [] => none
  | quote :: text =>
    if quote == '\'' || quote == '"' then (quoted quote false text).map String.ofList
    else
      let token := (quote :: text).takeWhile argumentChar
      if token == "true".toList || token == "false".toList || parsesF64 token then some (String.ofList token) else none

/-- The default of one match. Behind a pipe the name is itself a filter. -/
def declaredDefault (found : List Char × List Char × List Char) : Option (String × String) :=
  if (found.1.dropWhile Text.whiteSpace).head? == some '|' then none
  else (firstLiteralArgument found.2.2).map fun value => (String.ofList found.2.1,value)

def declaredDefaults (source : String) : List (String × String) :=
  (defaultFilter (source.length + 1) [] source.toList).filterMap declaredDefault

example : declaredDefaults "a|default('x') b | default(other) c.d|default('y')" = [("a","x")] := by decide +kernel

example : declaredDefaults "e|urlencode|default('y') a|default(2.5, true)" = [("a","2.5")] := by decide +kernel

end Qdrust.Expression
