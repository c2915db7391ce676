import Qdrust.Har.Model

/-! Compilation of the enabled entries into blocks. The position in the source
is the list of entries that are left, each with its control statement; their
number and the total give the position an error names. -/
namespace Qdrust.Har
open Library

inductive QdBlock where
  | request (entry : QdHarEntry)
  | forLoop (target source : String) (body : List QdBlock)
  | whileLoop (condition : String) (body : List QdBlock)
  | ifElse (condition : String) (thenBlocks elseBlocks : List QdBlock)

structure QdProgram where
  blocks : List QdBlock

def controlStatement (value : String) : Option String := do
  let opened ← Text.stripPrefix (trim value) "\x7b%"
  let statement ← Text.stripSuffix opened "%\x7d"
  return trim statement

/-- An entry and its control statement. -/
structure Line where
  entry : QdHarEntry
  statement : Option String

def QdHarEntry.line (entry : QdHarEntry) : Line := ⟨entry,controlStatement entry.request.url⟩

def currentStatement (lines : List Line) : Option String := lines.head?.bind Line.statement

/-- Blocks, and the entries that are left after them. -/
structure Parsed (lines : List Line) where
  blocks : List QdBlock
  rest : List Line
  shorter : rest.length ≤ lines.length

def Parsed.ofTail (lines : List Line) (parsed : Parsed lines.tail) : Parsed lines :=
  ⟨parsed.blocks,parsed.rest,parsed.shorter.trans (by simp)⟩

/-- The entries after the statement that closes a block. -/
def consumeEnd (lines : List Line) (expected : String) : Except String (Parsed lines) :=
  let actual := (currentStatement lines).getD "end of HAR"
  if actual = expected then .ok ⟨[],lines.tail,by simp⟩
  else .error ("expected " ++ expected ++ ", found " ++ actual)

/-- The end of a block: `else` also ends the first part of an `if`. -/
def checkEnd (closing : Option String) (lines : List Line) : Except String Unit :=
  match closing with
  | none => .ok ()
  | some expected =>
    let actual := currentStatement lines
    if actual = some expected ∨ (expected = "endif" ∧ actual = some "else") then .ok ()
    else .error ("expected " ++ expected ++ ", found " ++ actual.getD "end of HAR")

/-- What a control statement opens; any other statement is a request. -/
inductive Opening where
  | ifElse (condition : String)
  | forLoop (expression : String)
  | whileLoop (condition : String)
  | request

def opening (statement : String) : Opening :=
  match Text.stripPrefix statement "if " with
  | some condition => .ifElse condition
  | none => match Text.stripPrefix statement "for " with
    | some expression => .forLoop expression
    | none => match Text.stripPrefix statement "while " with
      | some condition => .whileLoop condition
      | none => .request

def parseBlocks (total : Nat) (closing : Option String) (lines : List Line) :
    Except String (Parsed lines) :=
  match lines with
  | [] => do
    checkEnd closing []
    return ⟨[],[],Nat.le_refl _⟩
  | line :: rest =>
    match line.statement with
    | none => do
      let after ← parseBlocks total closing rest
      return ⟨.request line.entry :: after.blocks,after.rest,Nat.le_succ_of_le after.shorter⟩
    | some statement =>
      if statement = "else" ∨ (Text.stripPrefix statement "end").isSome then
        if closing.isSome then do
          checkEnd closing (line :: rest)
          return ⟨[],line :: rest,Nat.le_refl _⟩
        else
          .error ("unexpected control tag at entry " ++ toString (total - rest.length) ++ ": " ++ statement)
      else match opening statement with
      | .ifElse condition => do
        ensure (trim condition ≠ "") "if condition is empty"
        let first ← parseBlocks total (some "endif") rest
        let second ←
          (if currentStatement first.rest = some "else" then
            (parseBlocks total (some "endif") first.rest.tail).map (Parsed.ofTail first.rest)
          else .ok ⟨[],first.rest,Nat.le_refl _⟩)
        let closed ← consumeEnd second.rest "endif"
        let after ← parseBlocks total closing closed.rest
        return ⟨.ifElse (trim condition) first.blocks second.blocks :: after.blocks,after.rest,
          Nat.le_succ_of_le (after.shorter.trans (closed.shorter.trans (second.shorter.trans first.shorter)))⟩
      | .forLoop expression =>
        match Text.splitOnce expression " in " with
        | none => .error "for control must use `for <name> in <expression>`"
        | some (target,source) => do
          ensure (trim target ≠ "") "for target is empty"
          ensure (trim source ≠ "") "for source is empty"
          let body ← parseBlocks total (some "endfor") rest
          let closed ← consumeEnd body.rest "endfor"
          let after ← parseBlocks total closing closed.rest
          return ⟨.forLoop (trim target) (trim source) body.blocks :: after.blocks,after.rest,
            Nat.le_succ_of_le (after.shorter.trans (closed.shorter.trans body.shorter))⟩
      | .whileLoop condition => do
        ensure (trim condition ≠ "") "while condition is empty"
        let body ← parseBlocks total (some "endwhile") rest
        let closed ← consumeEnd body.rest "endwhile"
        let after ← parseBlocks total closing closed.rest
        return ⟨.whileLoop (trim condition) body.blocks :: after.blocks,after.rest,
          Nat.le_succ_of_le (after.shorter.trans (closed.shorter.trans body.shorter))⟩
      | .request => do
        let after ← parseBlocks total closing rest
        return ⟨.request line.entry :: after.blocks,after.rest,Nat.le_succ_of_le after.shorter⟩
termination_by lines.length
decreasing_by
  all_goals simp only [List.length_cons,List.length_tail]
  · omega
  · omega
  · have := first.shorter
    omega
  · have := closed.shorter.trans (second.shorter.trans first.shorter)
    omega
  · omega
  · have := closed.shorter.trans body.shorter
    omega
  · omega
  · have := closed.shorter.trans body.shorter
    omega
  · omega

def QdProgram.compile (har : QdHar) : Except String QdProgram := do
  let lines := har.enabledEntries.map QdHarEntry.line
  let parsed ← parseBlocks lines.length none lines
  ensure parsed.rest.isEmpty "unexpected trailing control entry"
  return ⟨parsed.blocks⟩

end Qdrust.Har
