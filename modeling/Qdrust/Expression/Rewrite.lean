import Qdrust.Library.Quoted
import Qdrust.Library.Text

/-! The rewriting of Python spellings before a template or an expression is
parsed. The rest of the text stands for an index into the source. -/
namespace Qdrust.Expression
open Library

/-- The Unicode tables beyond ASCII: `char::is_alphanumeric` and `\w`. -/
structure CharTables where
  alphanumeric : Char → Bool
  word : Char → Bool

/-- ASCII texts do not depend on the tables. -/
def asciiTables : CharTables := ⟨fun _ => false,fun _ => false⟩

def CharTables.isAlphanumeric (tables : CharTables) (c : Char) : Bool :=
  if c.toNat < 128 then c.isAlphanum else tables.alphanumeric c

def CharTables.isWord (tables : CharTables) (c : Char) : Bool :=
  if c.toNat < 128 then c.isAlphanum || c == '_' else tables.word c

def identifierChar (tables : CharTables) (c : Char) : Bool := tables.isAlphanumeric c || c == '_'

def identifierEnd (tables : CharTables) (text : List Char) : Nat := (text.takeWhile (identifierChar tables)).length

def skipSpaces (text : List Char) : Nat := (text.takeWhile Text.whiteSpace).length

def stringEnd (text : List Char) : Option Nat := Quote.stringEnd .outside text

def groupEnd : List Char → Option Nat
  | '(' :: rest => Quote.groupEnd '(' ')' 0 .outside ('(' :: rest)
  | '[' :: rest => Quote.groupEnd '[' ']' 0 .outside ('[' :: rest)
  | '{' :: rest => Quote.groupEnd '{' '}' 0 .outside ('{' :: rest)
  | _ => none

/-- The calls, indexes and attributes after a primary that ends at `stop`. -/
def postfixEnd (tables : CharTables) : Nat → Nat → List Char → Option Nat
  | 0,stop,_ => some stop
  | fuel + 1,stop,text =>
    let spaces := skipSpaces text
    match text.drop spaces with
    | '(' :: rest => do
      let size ← groupEnd ('(' :: rest)
      postfixEnd tables fuel (stop + spaces + size) (('(' :: rest).drop size)
    | '[' :: rest => do
      let size ← groupEnd ('[' :: rest)
      postfixEnd tables fuel (stop + spaces + size) (('[' :: rest).drop size)
    | '.' :: rest =>
      let size := identifierEnd tables rest
      if size = 0 then some stop
      else postfixEnd tables fuel (stop + spaces + 1 + size) (rest.drop size)
    | _ => some stop

def primaryEnd (tables : CharTables) (text : List Char) : Option Nat := do
  let spaces := skipSpaces text
  let primary := text.drop spaces
  let first ← primary.head?
  let size ←
    if (Quote.kind first).isSome then stringEnd primary
    else if first = '(' ∨ first = '[' ∨ first = '{' then groupEnd primary
    else if identifierChar tables first then some (identifierEnd tables primary)
    else none
  postfixEnd tables text.length (spaces + size) (primary.drop size)

def trim (text : List Char) : List Char := Text.trimList Text.whiteSpace text

/-- `rewrite_percent`: the text that is out, whether it changed, the text that is left. -/
def rewritePercentFrom (tables : CharTables) : Nat → List Char → Bool → List Char → Option (List Char)
  | 0,out,changed,_ => if changed then some out else none
  | _,out,changed,[] => if changed then some out else none
  | fuel + 1,out,changed,c :: rest =>
    if (Quote.kind c).isNone then rewritePercentFrom tables fuel (out ++ [c]) changed rest
    else match stringEnd (c :: rest) with
      | none => if changed then some (out ++ c :: rest) else none
      | some size =>
        let literal := (c :: rest).take size
        let after := (c :: rest).drop size
        let remainder := after.drop (skipSpaces after)
        match remainder with
        | '%' :: values =>
          if values.head? = some '%' ∨ values.head? = some '=' then
            rewritePercentFrom tables fuel (out ++ literal) changed after
          else match primaryEnd tables values with
            | none => rewritePercentFrom tables fuel (out ++ literal) changed after
            | some stop =>
              rewritePercentFrom tables fuel
                (out ++ "__qdm_percent(".toList ++ literal ++ ", ".toList ++ trim (values.take stop) ++ [')'])
                true (values.drop stop)
        | _ => rewritePercentFrom tables fuel (out ++ literal) changed after

def rewritePercent (tables : CharTables) (text : List Char) : Option (List Char) :=
  rewritePercentFrom tables text.length [] false text

def pythonMethods : List String :=
  ["capitalize","casefold","center","count","endswith","expandtabs","find","format","index","isalnum","isalpha",
    "isdecimal","isdigit","islower","isnumeric","isspace","istitle","isupper","join","ljust","lower","lstrip",
    "partition","removeprefix","removesuffix","replace","rfind","rindex","rjust","rpartition","rsplit","rstrip",
    "split","splitlines","startswith","strip","swapcase","title","upper","zfill","copy","get","items","keys",
    "setdefault","values","index","count"]

def methodCall (receiver name args : List Char) : List Char :=
  "__qdm_call(".toList ++ receiver ++ ", \x22".toList ++ name ++ ['\x22'] ++
    (if (trim args).isEmpty then [] else ", ".toList ++ args) ++ [')']

/-- `rewrite_methods`: `primary` is the primary that has just ended, if one has,
and `out` the text before it. -/
def rewriteMethodsFrom (tables : CharTables) :
    Nat → List Char → Option (List Char) → Bool → List Char → Option (List Char)
  | 0,out,primary,changed,text => if changed then some (out ++ primary.getD [] ++ text) else none
  | _,out,primary,changed,[] => if changed then some (out ++ primary.getD []) else none
  | fuel + 1,out,primary,changed,c :: rest =>
    let written := out ++ primary.getD []
    if (Quote.kind c).isSome then
      match stringEnd (c :: rest) with
      | none => if changed then some (written ++ c :: rest) else none
      | some size =>
        rewriteMethodsFrom tables fuel written (some ((c :: rest).take size)) changed ((c :: rest).drop size)
    else if c = '(' ∨ c = '[' ∨ c = '{' then
      match groupEnd (c :: rest) with
      | none => if changed then some (written ++ c :: rest) else none
      | some size =>
        let interior := rest.take (size - 2)
        let inner := rewriteMethodsFrom tables fuel [] none false interior
        let group := c :: (inner.getD interior ++ (rest.drop (size - 2)).take 1)
        let after := (c :: rest).drop size
        match primary with
        | some receiver => rewriteMethodsFrom tables fuel out (some (receiver ++ group)) (changed || inner.isSome) after
        | none => rewriteMethodsFrom tables fuel out (some group) (changed || inner.isSome) after
    else match primary,c with
      | some receiver,'.' =>
        let size := identifierEnd tables rest
        let name := rest.take size
        let after := rest.drop size
        let opened := after.drop (skipSpaces after)
        let called : Option Nat :=
          if size > 0 ∧ pythonMethods.contains (String.ofList name) ∧ opened.head? = some '(' then groupEnd opened
          else none
        match called with
        | some close =>
          let interior := (opened.take (close - 1)).drop 1
          let args := (rewriteMethodsFrom tables fuel [] none false interior).getD interior
          rewriteMethodsFrom tables fuel out (some (methodCall receiver name args)) true (opened.drop close)
        | none =>
          if size > 0 then rewriteMethodsFrom tables fuel out (some (receiver ++ '.' :: name)) changed after
          else rewriteMethodsFrom tables fuel (written ++ ['.']) none changed rest
      | _,_ =>
        if identifierChar tables c then
          let size := identifierEnd tables (c :: rest)
          rewriteMethodsFrom tables fuel written (some ((c :: rest).take size)) changed ((c :: rest).drop size)
        else rewriteMethodsFrom tables fuel (written ++ [c]) none changed rest

def rewriteMethods (tables : CharTables) (text : List Char) : Option (List Char) :=
  rewriteMethodsFrom tables text.length [] none false text

def rewriteExpression (tables : CharTables) (source : List Char) : Option (List Char) :=
  let percent := rewritePercent tables source
  let methods := rewriteMethods tables (percent.getD source)
  methods.or percent

end Qdrust.Expression
