import Qdrust.Pattern.Translate

/-! Python's own reading of a pattern, a character at a time. What is in a comment or in
the condition of a group opens no class and no group there. -/
namespace Qdrust.Pattern
open Expression

/-- What a character is part of. An aside ends with a parenthesis, a remark with its line. -/
inductive PythonMode where
  | body
  | classStart
  | classNegated
  | classRest
  | aside
  | remark
deriving DecidableEq

def PythonMode.inside : PythonMode → Bool
  | .classStart | .classNegated | .classRest => true
  | .body | .aside | .remark => false

/-- An escape leaves the head of a class behind. -/
def PythonMode.afterEscape (mode : PythonMode) : PythonMode := if mode.inside then .classRest else mode

/-- `verbose` of the group that is open, and of those around it. -/
structure PythonScan where
  mode : PythonMode
  escaped : Bool
  verbose : Bool
  outer : List Bool

def PythonScan.start : PythonScan := ⟨.body,false,false,[]⟩

/-- Whether the parenthesis before the text opens a group that captures. -/
def capturing (rest : List Char) : Bool :=
  rest.head? ≠ some '?' || (rest[1]? = some 'P' && rest[2]? = some '<')

/-- The parenthesis before the text opens a group, a comment or a condition, or sets flags. -/
def pythonOpen (scan : PythonScan) (rest : List Char) : PythonScan :=
  let flags := (rest.drop 1).takeWhile flagChar
  let next := (rest.drop (1 + flags.length)).head?
  let on := (flags.takeWhile (· != '-')).contains 'x'
  let off := (flags.dropWhile (· != '-')).contains 'x'
  if rest.head? ≠ some '?' then { scan with outer := scan.verbose :: scan.outer }
  else if rest[1]? = some '#' then { scan with mode := .aside }
  else if rest[1]? = some '(' then { scan with mode := .aside, outer := scan.verbose :: scan.outer }
  else if flags ≠ [] ∧ next = some ':' then
    { scan with verbose := (scan.verbose || on) && !off, outer := scan.verbose :: scan.outer }
  else if flags ≠ [] ∧ next = some ')' then
    { scan with verbose := scan.verbose || on, outer := (scan.verbose || on) :: scan.outer }
  else { scan with outer := scan.verbose :: scan.outer }

def pythonStep (scan : PythonScan) (c : Char) (rest : List Char) : PythonScan :=
  if scan.escaped then { scan with escaped := false }
  else if c = '\\' then { scan with escaped := true, mode := scan.mode.afterEscape }
  else match scan.mode with
    | .classStart => { scan with mode := if c = '^' then .classNegated else .classRest }
    | .classNegated => { scan with mode := .classRest }
    | .classRest => { scan with mode := if c = ']' then .body else .classRest }
    | .aside => { scan with mode := if c = ')' then .body else .aside }
    | .remark => { scan with mode := if c = '\n' then .body else .remark }
    | .body =>
      if c = '[' then { scan with mode := .classStart }
      else if c = '(' then pythonOpen scan rest
      else if c = ')' then { scan with verbose := scan.outer.headD scan.verbose, outer := scan.outer.tail }
      else if c = '#' ∧ scan.verbose then { scan with mode := .remark }
      else scan

/-- What is noted at a character: whether it is in a class, whether it opens a capturing group. -/
structure Mark where
  inside : Bool
  group : Bool
deriving DecidableEq

def PythonScan.mark (scan : PythonScan) (c : Char) (rest : List Char) : Mark :=
  ⟨scan.mode.inside,!scan.escaped && scan.mode = .body && c = '(' && capturing rest⟩

/-- A mark for every character, and one for the end. -/
def pythonMarks : PythonScan → List Char → List Mark
  | scan,[] => [⟨scan.mode.inside,false⟩]
  | scan,c :: rest => scan.mark c rest :: pythonMarks (pythonStep scan c rest) rest

variable (tables : CharTables)

/-- Whether the translation counts the parenthesis the text starts with. -/
def countsGroup (text : List Char) : Bool :=
  match pythonGroup tables text with
  | .ok (.capturing _) => true
  | _ => false

/-- The characters after a parenthesis that are read with it: of a condition that is a name. -/
def readWith (text : List Char) : Nat :=
  match pythonGroup tables text with
  | .ok (.conditional (.name name)) => 3 + name.length
  | _ => 0

/-- Nothing but `^` before a bracket. -/
def caretsClosed (text : List Char) : Bool := (text.dropWhile (· == '^')).head? = some ']'

/-- The text after the bracket of a class that negates nothing but `^`. -/
def negatesCarets (text : List Char) : Bool := text.take 2 = ['^','^'] && caretsClosed text

/-- Whether both readings can agree at a character. -/
def plainHere (scan : PythonScan) (c : Char) (rest : List Char) : Bool :=
  if scan.escaped then true
  else match scan.mode with
    | .body =>
      if c = '[' then !negatesCarets rest
      else if c = '(' then countsGroup tables (c :: rest) == capturing rest
      else true
    | .aside | .remark => c ≠ '[' && !(c = '(' && countsGroup tables (c :: rest))
    | _ => true

def readWithHere (scan : PythonScan) (c : Char) (rest : List Char) : Nat :=
  if !scan.escaped && !scan.mode.inside && c = '(' then readWith tables (c :: rest) else 0

/-- No place at which the two readings part; `skip` characters are not looked at. -/
def plainFrom : Nat → PythonScan → List Char → Bool
  | _,_,[] => true
  | skip + 1,scan,c :: rest => plainFrom skip (pythonStep scan c rest) rest
  | 0,scan,c :: rest =>
    plainHere tables scan c rest && plainFrom (readWithHere tables scan c rest) (pythonStep scan c rest) rest

end Qdrust.Pattern
