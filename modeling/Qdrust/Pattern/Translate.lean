import Qdrust.Expression.Rewrite

/-! Regular expressions from Python's dialect. What is read at each step, and what
is written for it, is a piece of the pattern. -/
namespace Qdrust.Pattern
open Expression

def asciiPunctuation (c : Char) : Bool :=
  (33 ≤ c.toNat && c.toNat ≤ 47) || (58 ≤ c.toNat && c.toNat ≤ 64) || (91 ≤ c.toNat && c.toNat ≤ 96) ||
    (123 ≤ c.toNat && c.toNat ≤ 126)

def rustMetacharacters : List Char := "\\.+*?()|[]\x7b\x7d^$#&-~".toList

/-- Whether a backslash before the character means the character itself. -/
def meansItself (c : Char) : Bool := asciiPunctuation c && !(rustMetacharacters.contains c)

def knowsEscape (c : Char) : Bool := !c.isAlpha || "abfnrtvdDsSwWABZNxuU".toList.contains c

inductive NumberedEscape where
  | octal (text : List Char) (span : Nat)
  | backReference

def octalDigit (c : Char) : Bool := '0' ≤ c && c ≤ '7'

def octalValue (digits : List Char) : Nat := digits.foldl (fun value digit => value * 8 + (digit.toNat - 48)) 0

def hexDigit (n : Nat) : Char := Char.ofNat (if n < 10 then 48 + n else 87 + n)

/-- How many digits are one character, where they are one. -/
def octalSpan (digits : List Char) (inClass : Bool) : Option Nat :=
  let octal := (digits.takeWhile octalDigit).length
  match digits with
  | [] => none
  | first :: _ =>
    if first = '0' then some (1 + min (octal - 1) 2)
    else if inClass then if octal = 0 then none else some (min octal 3)
    else if octal ≥ 3 then some 3 else none

def pythonNumberedEscape (digits : List Char) (inClass : Bool) : Except String NumberedEscape :=
  match octalSpan digits inClass with
  | none => .ok .backReference
  | some span =>
    let value := octalValue (digits.take span)
    if value > 255 then .error "an octal escape above `\\377`, which Python refuses"
    else .ok (.octal ['\\','x',hexDigit (value / 16),hexDigit (value % 16)] span)

structure PythonRepetition where
  length : Nat
  omittedMinimum : Bool
  minimumExceedsMaximum : Bool

/-- Compared as digits, without the zeros in front. -/
def exceeds (minimum maximum : List Char) : Bool :=
  let low := minimum.dropWhile (· == '0')
  let high := maximum.dropWhile (· == '0')
  low.length > high.length || (low.length == high.length && decide (high < low))

/-- The repetition a text begins with, whose first character is the brace. -/
def pythonRepetition (text : List Char) : Option PythonRepetition :=
  let minimum := text.tail.takeWhile Char.isDigit
  let after := text.tail.drop minimum.length
  let comma := after.head? = some ','
  let maximum := if comma then after.tail.takeWhile Char.isDigit else []
  let closing := if comma then after.tail.drop maximum.length else after
  if closing.head? ≠ some '\x7d' ∨ (minimum = [] ∧ ¬comma) then none
  else some {
    length := 1 + minimum.length + (if comma then 1 else 0) + maximum.length + 1
    omittedMinimum := minimum.isEmpty
    minimumExceedsMaximum := minimum ≠ [] && maximum ≠ [] && exceeds minimum maximum }

/-- What a conditional group branches on. -/
inductive Condition where
  | number (group : Nat)
  | name (name : List Char)
  | other

inductive Group where
  | capturing (name : Option (List Char))
  | plain
  | conditional (condition : Condition)

def flagChar (c : Char) : Bool := "-aiLmsux".toList.contains c

def inlineFlagGroup (text : List Char) : Option String :=
  let flags := (text.drop 2).takeWhile flagChar
  let next := (text.drop (2 + flags.length)).head?
  let limited := next = some ':'
  if flags = [] ∨ (¬limited ∧ next ≠ some ')') then none
  else if flags.contains 'a' then some "the ASCII flag, `(?a)`, which neither engine here can express"
  else if flags.contains '-' ∧ ¬limited then
    some "an inline flag turned off outside a group, which Python spells `(?-i:...)`"
  else none

def refuseUnknownGroup (text : List Char) : Option String :=
  if text[2]? = some '<' ∧ text[3]? ≠ some '=' ∧ text[3]? ≠ some '!' then
    some "a group named `(?<name>...)`, which Python spells `(?P<name>...)`"
  else inlineFlagGroup text

variable (tables : CharTables)

def nameChar (c : Char) : Bool := tables.isAlphanumeric c || c == '_'

def pythonNamedGroup (text : List Char) : Group :=
  let name := (text.drop 4).takeWhile (nameChar tables)
  if name = [] ∨ text[4 + name.length]? ≠ some '>' then .plain else .capturing (some name)

/-- The largest number there is stands for every larger one. -/
def groupNumber (digits : List Char) : Nat :=
  min (digits.foldl (fun value digit => value * 10 + (digit.toNat - 48)) 0) 18446744073709551615

def pythonCondition (text : List Char) : Condition :=
  let number := text.takeWhile Char.isDigit
  if number ≠ [] then if text[number.length]? = some ')' then .number (groupNumber number) else .other
  else
    let name := text.takeWhile (nameChar tables)
    if text[name.length]? = some ')' ∧ name ≠ [] then .name name else .other

/-- What the parenthesis at the start of the text opens. -/
def pythonGroup (text : List Char) : Except String Group :=
  if text[1]? = some '*' then
    .error "a backtracking verb, `(*FAIL)` and friends, which Python has no syntax for"
  else if text[1]? ≠ some '?' then .ok (.capturing none)
  else match refuseUnknownGroup text with
    | some reason => .error reason
    | none =>
      if text[2]? = some '(' then .ok (.conditional (pythonCondition tables (text.drop 3)))
      else if text[2]? = some 'P' ∧ text[3]? = some '<' then .ok (pythonNamedGroup tables text)
      else .ok .plain

/-- The groups in the order that numbers them, and the groups conditions name. -/
structure Scan where
  inClass : Bool
  classHead : Bool
  groups : List (Option (List Char))
  conditions : List (Nat × Option (List Char))

def Scan.start : Scan := ⟨false,false,[],[]⟩

/-- A step: the characters it reads and what it writes for them. -/
structure Step where
  length : Nat
  output : List Char
  counted : Bool
  scan : Scan

/-- The text after a backslash. -/
def translateEscape (scan : Scan) (text : List Char) : Except String Step :=
  let after := { scan with classHead := false }
  match text.head? with
  | none => .ok ⟨1,['\\'],false,after⟩
  | some escaped =>
    if !scan.inClass && escaped = 'Z' then .ok ⟨2,['\\','z'],false,after⟩
    else if escaped = 'N' then .error "`\\N`, Python's named-character escape"
    else do
      let numbered ← pythonNumberedEscape (text.takeWhile Char.isDigit) scan.inClass
      match numbered with
      | .octal written span => return ⟨1 + span,written,false,after⟩
      | .backReference =>
        if meansItself escaped then return ⟨2,[escaped],false,after⟩
        else if !knowsEscape escaped then .error "an escape Python does not know"
        else return ⟨2,['\\',escaped],false,after⟩

/-- A character of a class. -/
def translateMember (scan : Scan) (c : Char) : Step :=
  if c = '[' then ⟨1,['\\','['],false,{ scan with classHead := false }⟩
  else ⟨1,[c],false,{ scan with
    inClass := !(c = ']' && !scan.classHead)
    classHead := scan.classHead && c = '^' }⟩

def translateGroup (scan : Scan) (text : List Char) : Except String Step := do
  let group ← pythonGroup tables text
  match group with
  | .capturing name => return ⟨1,['('],true,{ scan with groups := scan.groups ++ [name] }⟩
  | .plain => return ⟨1,['('],false,scan⟩
  | .conditional .other => return ⟨1,['('],false,scan⟩
  | .conditional (.number number) =>
    if number = 0 then .error "a conditional group branching on group 0"
    else return ⟨1,['('],false,{ scan with conditions := scan.conditions ++ [(number,none)] }⟩
  | .conditional (.name name) =>
    if scan.groups.contains (some name) then
      let number := scan.groups.idxOf (some name) + 1
      return ⟨4 + name.length,['(','?','('] ++ (toString number).toList ++ [')'],false,
        { scan with classHead := false, conditions := scan.conditions ++ [(number,some name)] }⟩
    else .error "a conditional group naming a group not read before it"

def translateBrace (scan : Scan) (text : List Char) : Except String Step :=
  match pythonRepetition text with
  | none => .ok ⟨1,['\\','\x7b'],false,scan⟩
  | some repetition =>
    if repetition.minimumExceedsMaximum then .error "a repetition whose minimum is greater than its maximum"
    else if repetition.omittedMinimum then
      .ok ⟨repetition.length,['\x7b','0'] ++ (text.take repetition.length).tail,false,scan⟩
    else .ok ⟨repetition.length,text.take repetition.length,false,scan⟩

/-- One step of the translation, on a text with the character `c` in front. -/
def translateStep (scan : Scan) (c : Char) (rest : List Char) : Except String Step :=
  if c = '\\' then translateEscape scan rest
  else if scan.inClass then .ok (translateMember scan c)
  else if c = '[' then .ok ⟨1,['['],false,{ scan with inClass := true, classHead := true }⟩
  else if c = '(' then translateGroup tables scan (c :: rest)
  else if c = '\x7b' then translateBrace scan (c :: rest)
  else .ok ⟨1,[c],false,scan⟩

/-- A step and the text it was made on. -/
structure Piece where
  text : List Char
  inClass : Bool
  step : Step

/-- `fuel` steps at most; every step reads a character. -/
def translateFrom : Nat → Scan → List Char → Except String (List Piece × Scan)
  | _,scan,[] => .ok ([],scan)
  | 0,scan,_ => .ok ([],scan)
  | fuel + 1,scan,c :: rest => do
    let step ← translateStep tables scan c rest
    let (pieces,final) ← translateFrom fuel step.scan ((c :: rest).drop step.length)
    return (⟨c :: rest,scan.inClass,step⟩ :: pieces,final)

structure Translated where
  body : String
  conditions : List (Nat × Option (List Char))

def readFromPython (body : String) : Except String (List Piece × Scan) :=
  translateFrom tables body.toList.length Scan.start body.toList

def translateFromPython (body : String) : Except String Translated := do
  let (pieces,final) ← readFromPython tables body
  return ⟨String.ofList (pieces.flatMap fun piece => piece.step.output),final.conditions⟩

end Qdrust.Pattern
