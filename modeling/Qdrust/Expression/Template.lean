import Qdrust.Expression.Rewrite

/-! The rewriting of whole templates: list declarations first, over the text of
the template, then every tag on its own. -/
namespace Qdrust.Expression
open Library

/-- A declaration `{% set name = [items] %}`, with the space it is written with. -/
structure ListDeclaration where
  opening : List Char
  lead : List Char
  gap : List Char
  name : List Char
  beforeEquals : List Char
  afterEquals : List Char
  items : List Char
  trail : List Char
  closing : List Char

namespace ListDeclaration

/-- What stands between the opening delimiter and the items. -/
def before (d : ListDeclaration) : List Char :=
  d.opening ++ (d.lead ++ ("set".toList ++ (d.gap ++ (d.name ++ (d.beforeEquals ++ ('=' :: (d.afterEquals ++ ['['])))))))

/-- What stands between the items and the closing delimiter. -/
def after (d : ListDeclaration) : List Char := ']' :: (d.trail ++ d.closing)

def rewrittenBefore (d : ListDeclaration) : List Char :=
  d.opening ++ (" set ".toList ++ (d.name ++ " = __qd_list([".toList))

def rewrittenAfter (d : ListDeclaration) : List Char := "]) ".toList ++ d.closing

def text (d : ListDeclaration) : List Char := '{' :: '%' :: (d.before ++ (d.items ++ d.after) ++ ['%','}'])

def rewritten (d : ListDeclaration) : List Char :=
  '{' :: '%' :: (d.rewrittenBefore ++ (d.items ++ d.rewrittenAfter) ++ ['%','}'])

end ListDeclaration

/-- `-?`. -/
def dash (text : List Char) : List Char × List Char :=
  if text.head? = some '-' then (['-'],text.tail) else ([],text)

def itemChar (c : Char) : Bool := c != '[' && c != ']' && c != '{' && c != '}'

def nameStart (c : Char) : Bool := c.isAlpha || c == '_'

/-- The declaration a text begins with, and what follows it. -/
def listDeclaration (tables : CharTables) (text : List Char) : Option (ListDeclaration × List Char) := do
  let text ← ['{','%'].isPrefixOf? text
  let (opening,text) := dash text
  let (lead,text) := text.span Text.whiteSpace
  let text ← "set".toList.isPrefixOf? text
  let (gap,text) := text.span Text.whiteSpace
  let (name,text) := text.span tables.isWord
  if gap.isEmpty || !(name.head?.any nameStart) then none
  let (beforeEquals,text) := text.span Text.whiteSpace
  let text ← ['='].isPrefixOf? text
  let (afterEquals,text) := text.span Text.whiteSpace
  let text ← ['['].isPrefixOf? text
  let (items,text) := text.span itemChar
  let text ← [']'].isPrefixOf? text
  let (trail,text) := text.span Text.whiteSpace
  let (closing,text) := dash text
  let text ← ['%','}'].isPrefixOf? text
  return (⟨opening,lead,gap,name,beforeEquals,afterEquals,items,trail,closing⟩,text)

/-- `replace_all`, and whether there was a match. -/
def replaceDeclarations (tables : CharTables) : Nat → List Char → List Char × Bool
  | 0,text => (text,false)
  | _,[] => ([],false)
  | fuel + 1,c :: rest =>
    match listDeclaration tables (c :: rest) with
    | some (found,after) => (found.rewritten ++ (replaceDeclarations tables fuel after).1,true)
    | none =>
      let replaced := replaceDeclarations tables fuel rest
      (c :: replaced.1,replaced.2)

def mutatorCalls : List String := ["append(","extend(","insert(","pop(","remove(","clear("]

def looksMutating (source : List Char) : Bool :=
  source.contains '.' && mutatorCalls.any fun call => decide (call.toList <:+: source)

/-- The source with its declarations replaced, where there is one to replace. -/
def rewriteLiteralLists (tables : CharTables) (source : List Char) : Option (List Char) :=
  let replaced := replaceDeclarations tables source.length source
  if looksMutating source && replaced.2 then some replaced.1 else none

/-- The delimiter that closes a tag, and whether an expression is in it. -/
def opened : Option Char → Option (Char × Bool)
  | some '{' => some ('}',true)
  | some '%' => some ('%',true)
  | some '#' => some ('#',false)
  | _ => none

/-- The text with its tags rewritten, and whether one has changed. -/
def rewriteTags (tables : CharTables) : Nat → List Char → List Char × Bool
  | 0,text => (text,false)
  | _,[] => ([],false)
  | fuel + 1,c :: rest =>
    match if c = '{' then opened rest.head? else none with
    | none =>
      let next := rewriteTags tables fuel rest
      (c :: next.1,next.2)
    | some (first,expression) =>
      match Quote.find first '}' .outside rest.tail with
      -- a tag without an end: the rest of the template is left as it is
      | none => (c :: rest,false)
      | some (inside,after) =>
        let next := rewriteTags tables fuel after
        match if expression then rewriteExpression tables inside else none with
        | some rewritten => (c :: (rest.take 1 ++ (rewritten ++ first :: '}' :: next.1)),true)
        | none => (c :: (rest.take 1 ++ (inside ++ first :: '}' :: next.1)),next.2)

def rewriteTemplate (tables : CharTables) (source : List Char) : Option (List Char) :=
  let declared := rewriteLiteralLists tables source
  let text := declared.getD source
  let out := rewriteTags tables text.length text
  if declared.isSome || out.2 then some out.1 else none

def compatPythonTemplate (tables : CharTables) (source : List Char) : List Char :=
  (rewriteTemplate tables source).getD source

end Qdrust.Expression
