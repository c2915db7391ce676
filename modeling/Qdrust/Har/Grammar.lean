import Qdrust.Har.Program

/-! The enabled entries as a word of control tokens. Compilation accepts the
balanced words, and its blocks give the word back. -/
namespace Qdrust.Har
open Library

/-- A `for`, `while` or `if` whose parts are missing or blank is malformed. -/
inductive Token where
  | request (entry : QdHarEntry)
  | forLoop (target source : String)
  | whileLoop (condition : String)
  | ifElse (condition : String)
  | otherwise
  | close (statement : String)
  | malformed (entry : QdHarEntry)

def Line.token (line : Line) : Token :=
  match line.statement with
  | none => .request line.entry
  | some statement =>
    if statement = "else" then .otherwise
    else if (Text.stripPrefix statement "end").isSome then .close statement
    else match opening statement with
      | .ifElse condition => if trim condition ≠ "" then .ifElse (trim condition) else .malformed line.entry
      | .forLoop expression => match Text.splitOnce expression " in " with
        | some (target,source) =>
          if trim target ≠ "" ∧ trim source ≠ "" then .forLoop (trim target) (trim source) else .malformed line.entry
        | none => .malformed line.entry
      | .whileLoop condition => if trim condition ≠ "" then .whileLoop (trim condition) else .malformed line.entry
      | .request => .request line.entry

def QdHar.tokens (har : QdHar) : List Token := (har.enabledEntries.map QdHarEntry.line).map Line.token

inductive Balanced : List Token → Prop where
  | nil : Balanced []
  | request (entry : QdHarEntry) {rest : List Token} (after : Balanced rest) : Balanced (.request entry :: rest)
  | forLoop (target source : String) {body rest : List Token} (inside : Balanced body) (after : Balanced rest) :
    Balanced (.forLoop target source :: (body ++ .close "endfor" :: rest))
  | whileLoop (condition : String) {body rest : List Token} (inside : Balanced body) (after : Balanced rest) :
    Balanced (.whileLoop condition :: (body ++ .close "endwhile" :: rest))
  | ifThen (condition : String) {first rest : List Token} (inside : Balanced first) (after : Balanced rest) :
    Balanced (.ifElse condition :: (first ++ .close "endif" :: rest))
  | ifElse (condition : String) {first second rest : List Token} (inside : Balanced first) (other : Balanced second)
    (after : Balanced rest) :
    Balanced (.ifElse condition :: (first ++ .otherwise :: (second ++ .close "endif" :: rest)))

mutual
def flattenBlock : QdBlock → List Token
  | .request entry => [.request entry]
  | .forLoop target source body => .forLoop target source :: (flatten body ++ [.close "endfor"])
  | .whileLoop condition body => .whileLoop condition :: (flatten body ++ [.close "endwhile"])
  | .ifElse condition thenBlocks elseBlocks =>
    .ifElse condition :: (flatten thenBlocks ++
      ((if elseBlocks.isEmpty then [] else .otherwise :: flatten elseBlocks) ++ [.close "endif"]))
/-- The tokens of a tree. An `else` is written where it has blocks. -/
def flatten : List QdBlock → List Token
  | [] => []
  | block :: rest => flattenBlock block ++ flatten rest
end

/-- The word without the `else` of an empty part. -/
def dropEmptyElse : List Token → List Token
  | [] => []
  | .otherwise :: .close statement :: rest => .close statement :: dropEmptyElse rest
  | token :: rest => token :: dropEmptyElse rest

section Kinds

/-- A statement that ends a list of blocks. -/
abbrev Ending (statement : String) : Prop := statement = "else" ∨ (Text.stripPrefix statement "end").isSome

/-- What the parser finds in a line with a given token. -/
inductive Line.Kind (line : Line) : Token → Prop where
  | entry (plain : line.statement = none) : line.Kind (.request line.entry)
  | other (statement : String) (read : line.statement = some statement) (inner : ¬Ending statement)
    (opens : opening statement = .request) : line.Kind (.request line.entry)
  | forLoop (statement expression target source : String) (read : line.statement = some statement)
    (inner : ¬Ending statement) (opens : opening statement = .forLoop expression)
    (sides : Text.splitOnce expression " in " = some (target,source)) (named : trim target ≠ "") (given : trim source ≠ "") :
    line.Kind (.forLoop (trim target) (trim source))
  | whileLoop (statement condition : String) (read : line.statement = some statement) (inner : ¬Ending statement)
    (opens : opening statement = .whileLoop condition) (given : trim condition ≠ "") : line.Kind (.whileLoop (trim condition))
  | ifElse (statement condition : String) (read : line.statement = some statement) (inner : ¬Ending statement)
    (opens : opening statement = .ifElse condition) (given : trim condition ≠ "") : line.Kind (.ifElse (trim condition))
  | otherwise (read : line.statement = some "else") : line.Kind .otherwise
  | close (statement : String) (read : line.statement = some statement) (inner : statement ≠ "else")
    (ends : (Text.stripPrefix statement "end").isSome) : line.Kind (.close statement)
  | badIf (statement condition : String) (read : line.statement = some statement) (inner : ¬Ending statement)
    (opens : opening statement = .ifElse condition) (blank : trim condition = "") : line.Kind (.malformed line.entry)
  | badWhile (statement condition : String) (read : line.statement = some statement) (inner : ¬Ending statement)
    (opens : opening statement = .whileLoop condition) (blank : trim condition = "") : line.Kind (.malformed line.entry)
  | badFor (statement expression : String) (read : line.statement = some statement) (inner : ¬Ending statement)
    (opens : opening statement = .forLoop expression)
    (bad : ∀ target source, Text.splitOnce expression " in " = some (target,source) → trim target = "" ∨ trim source = "") :
    line.Kind (.malformed line.entry)

theorem Line.kind (line : Line) : line.Kind line.token := by
  unfold Line.token
  split
  next plain => exact .entry plain
  next statement read =>
    split
    next same => exact .otherwise (same ▸ read)
    next notElse =>
      split
      next ends => exact .close statement read notElse ends
      next notEnd =>
        have inner : ¬Ending statement := not_or.mpr ⟨notElse,notEnd⟩
        split
        next condition opens =>
          split
          next given => exact .ifElse statement condition read inner opens given
          next blank => exact .badIf statement condition read inner opens (not_not.mp blank)
        next expression opens =>
          split
          next target source sides =>
            split
            next given => exact .forLoop statement expression target source read inner opens sides given.1 given.2
            next blank =>
              refine .badFor statement expression read inner opens ?_
              intro other given same
              rw [sides] at same
              cases same
              exact (not_and_or.mp blank).imp not_not.mp not_not.mp
          next unsplit =>
            refine .badFor statement expression read inner opens ?_
            intro target source same
            rw [unsplit] at same
            cases same
        next condition opens =>
          split
          next given => exact .whileLoop statement condition read inner opens given
          next blank => exact .badWhile statement condition read inner opens (not_not.mp blank)
        next opens => exact .other statement read inner opens

end Kinds

section Parses

/-- The blocks that are parsed, and the lines that are left. -/
def Parses (total : Nat) (closing : Option String) (lines : List Line) (blocks : List QdBlock) (left : List Line) : Prop :=
  ∃ parsed, parseBlocks total closing lines = .ok parsed ∧ parsed.blocks = blocks ∧ parsed.rest = left

variable {total : Nat} {closing : Option String} {line : Line} {rest left : List Line} {blocks : List QdBlock}

theorem parses_nil : Parses total closing [] blocks left ↔ checkEnd closing [] = .ok () ∧ blocks = [] ∧ left = [] := by
  unfold Parses
  rw [parseBlocks]
  constructor
  · rintro ⟨parsed,run,rfl,rfl⟩
    obtain ⟨_,checked,done⟩ := bind_ok.mp run
    cases done
    exact ⟨checked,rfl,rfl⟩
  · rintro ⟨checked,rfl,rfl⟩
    rw [checked]
    exact ⟨_,rfl,rfl,rfl⟩

theorem parses_request {entry : QdHarEntry} (token : line.token = .request entry) :
    Parses total closing (line :: rest) blocks left ↔
      ∃ after, Parses total closing rest after left ∧ blocks = .request entry :: after := by
  have step : parseBlocks total closing (line :: rest) = (do
      let after ← parseBlocks total closing rest
      return ⟨.request entry :: after.blocks,after.rest,Nat.le_succ_of_le after.shorter⟩) := by
    have kind := line.kind
    rw [token] at kind
    rw [parseBlocks]
    cases kind with
    | entry plain =>
      rw [plain]
    | other statement read inner opens =>
      rw [read]
      dsimp only
      rw [if_neg inner,opens]
  unfold Parses
  rw [step]
  constructor
  · rintro ⟨parsed,run,rfl,rfl⟩
    obtain ⟨after,inner,done⟩ := bind_ok.mp run
    cases done
    exact ⟨after.blocks,⟨after,inner,rfl,rfl⟩,rfl⟩
  · rintro ⟨_,⟨after,inner,rfl,rfl⟩,rfl⟩
    rw [inner]
    exact ⟨_,rfl,rfl,rfl⟩

theorem consumeEnd_ok {lines : List Line} {expected : String} {closed : Parsed lines} (apart : expected ≠ "end of HAR") :
    consumeEnd lines expected = .ok closed ↔
      currentStatement lines = some expected ∧ closed = ⟨[],lines.tail,(List.tail_sublist lines).length_le⟩ := by
  unfold consumeEnd
  dsimp only
  cases current : currentStatement lines with
  | none =>
    rw [Option.getD_none,if_neg (Ne.symm apart)]
    constructor
    · intro failed
      cases failed
    · rintro ⟨missing,_⟩
      cases missing
  | some statement =>
    rw [Option.getD_some,Option.some.injEq]
    split
    next same =>
      constructor
      · intro done
        cases done
        exact ⟨same,rfl⟩
      · rintro ⟨_,rfl⟩
        rfl
    next other =>
      constructor
      · intro failed
        cases failed
      · rintro ⟨same,_⟩
        exact absurd same other

/-- A loop: its body up to its own closing statement, and the rest. -/
theorem parses_forLoop {target source : String} (token : line.token = .forLoop target source) :
    Parses total closing (line :: rest) blocks left ↔
      ∃ body middle after, Parses total (some "endfor") rest body middle ∧ currentStatement middle = some "endfor" ∧
        Parses total closing middle.tail after left ∧ blocks = .forLoop target source body :: after := by
  have step : parseBlocks total closing (line :: rest) = (do
      let body ← parseBlocks total (some "endfor") rest
      let closed ← consumeEnd body.rest "endfor"
      let after ← parseBlocks total closing closed.rest
      return ⟨.forLoop target source body.blocks :: after.blocks,after.rest,
        Nat.le_succ_of_le (after.shorter.trans (closed.shorter.trans body.shorter))⟩) := by
    have kind := line.kind
    rw [token] at kind
    rw [parseBlocks]
    cases kind with
    | forLoop statement expression target source read inner opens sides named given =>
      rw [read]
      dsimp only
      rw [if_neg inner,opens]
      dsimp only
      rw [sides]
      dsimp only
      rw [decide_eq_true named,decide_eq_true given]
      rfl
  unfold Parses
  rw [step]
  constructor
  · rintro ⟨parsed,run,rfl,rfl⟩
    obtain ⟨body,inside,run⟩ := bind_ok.mp run
    obtain ⟨closed,closes,run⟩ := bind_ok.mp run
    obtain ⟨after,follows,done⟩ := bind_ok.mp run
    obtain ⟨current,rfl⟩ := (consumeEnd_ok (by decide)).mp closes
    cases done
    exact ⟨body.blocks,body.rest,after.blocks,⟨body,inside,rfl,rfl⟩,current,⟨after,follows,rfl,rfl⟩,rfl⟩
  · rintro ⟨_,_,_,⟨body,inside,rfl,rfl⟩,current,⟨after,follows,rfl,rfl⟩,rfl⟩
    refine ⟨_,bind_ok.mpr ⟨body,inside,bind_ok.mpr ⟨_,(consumeEnd_ok (by decide)).mpr ⟨current,rfl⟩,
      bind_ok.mpr ⟨after,follows,rfl⟩⟩⟩,rfl,rfl⟩

theorem parses_whileLoop {condition : String} (token : line.token = .whileLoop condition) :
    Parses total closing (line :: rest) blocks left ↔
      ∃ body middle after, Parses total (some "endwhile") rest body middle ∧ currentStatement middle = some "endwhile" ∧
        Parses total closing middle.tail after left ∧ blocks = .whileLoop condition body :: after := by
  have step : parseBlocks total closing (line :: rest) = (do
      let body ← parseBlocks total (some "endwhile") rest
      let closed ← consumeEnd body.rest "endwhile"
      let after ← parseBlocks total closing closed.rest
      return ⟨.whileLoop condition body.blocks :: after.blocks,after.rest,
        Nat.le_succ_of_le (after.shorter.trans (closed.shorter.trans body.shorter))⟩) := by
    have kind := line.kind
    rw [token] at kind
    rw [parseBlocks]
    cases kind with
    | whileLoop statement condition read inner opens given =>
      rw [read]
      dsimp only
      rw [if_neg inner,opens]
      dsimp only
      rw [decide_eq_true given]
      rfl
  unfold Parses
  rw [step]
  constructor
  · rintro ⟨parsed,run,rfl,rfl⟩
    obtain ⟨body,inside,run⟩ := bind_ok.mp run
    obtain ⟨closed,closes,run⟩ := bind_ok.mp run
    obtain ⟨after,follows,done⟩ := bind_ok.mp run
    obtain ⟨current,rfl⟩ := (consumeEnd_ok (by decide)).mp closes
    cases done
    exact ⟨body.blocks,body.rest,after.blocks,⟨body,inside,rfl,rfl⟩,current,⟨after,follows,rfl,rfl⟩,rfl⟩
  · rintro ⟨_,_,_,⟨body,inside,rfl,rfl⟩,current,⟨after,follows,rfl,rfl⟩,rfl⟩
    refine ⟨_,bind_ok.mpr ⟨body,inside,bind_ok.mpr ⟨_,(consumeEnd_ok (by decide)).mpr ⟨current,rfl⟩,
      bind_ok.mpr ⟨after,follows,rfl⟩⟩⟩,rfl,rfl⟩

/-- The second part of an `if`, from the statement that ends the first. -/
def ParsesElse (total : Nat) (lines : List Line) (blocks : List QdBlock) (left : List Line) : Prop :=
  if currentStatement lines = some "else" then Parses total (some "endif") lines.tail blocks left
  else blocks = [] ∧ left = lines

theorem parses_ifElse {condition : String} (token : line.token = .ifElse condition) :
    Parses total closing (line :: rest) blocks left ↔
      ∃ first middle second last after, Parses total (some "endif") rest first middle ∧ ParsesElse total middle second last ∧
        currentStatement last = some "endif" ∧ Parses total closing last.tail after left ∧
        blocks = .ifElse condition first second :: after := by
  have step : parseBlocks total closing (line :: rest) = (do
      let first ← parseBlocks total (some "endif") rest
      let second ←
        (if currentStatement first.rest = some "else" then
          (parseBlocks total (some "endif") first.rest.tail).map (Parsed.ofTail first.rest)
        else .ok ⟨[],first.rest,Nat.le_refl _⟩)
      let closed ← consumeEnd second.rest "endif"
      let after ← parseBlocks total closing closed.rest
      return ⟨.ifElse condition first.blocks second.blocks :: after.blocks,after.rest,
        Nat.le_succ_of_le (after.shorter.trans (closed.shorter.trans (second.shorter.trans first.shorter)))⟩) := by
    have kind := line.kind
    rw [token] at kind
    rw [parseBlocks]
    cases kind with
    | ifElse statement condition read inner opens given =>
      rw [read]
      dsimp only
      rw [if_neg inner,opens]
      dsimp only
      rw [decide_eq_true given]
      rfl
  unfold Parses
  rw [step]
  constructor
  · rintro ⟨parsed,run,rfl,rfl⟩
    obtain ⟨first,inside,run⟩ := bind_ok.mp run
    obtain ⟨second,other,run⟩ := bind_ok.mp run
    obtain ⟨closed,closes,run⟩ := bind_ok.mp run
    obtain ⟨after,follows,done⟩ := bind_ok.mp run
    obtain ⟨current,rfl⟩ := (consumeEnd_ok (by decide)).mp closes
    cases done
    refine ⟨first.blocks,first.rest,second.blocks,second.rest,after.blocks,⟨first,inside,rfl,rfl⟩,?_,current,
      ⟨after,follows,rfl,rfl⟩,rfl⟩
    unfold ParsesElse
    split at other
    next isElse =>
      rw [if_pos isElse]
      cases elseRun : parseBlocks total (some "endif") first.rest.tail with
      | error failure =>
        rw [elseRun] at other
        cases other
      | ok parsed =>
        rw [elseRun] at other
        cases other
        exact ⟨parsed,elseRun,rfl,rfl⟩
    next noElse =>
      rw [if_neg noElse]
      cases other
      exact ⟨rfl,rfl⟩
  · rintro ⟨_,_,_,_,_,⟨first,inside,rfl,rfl⟩,other,current,⟨after,follows,rfl,rfl⟩,rfl⟩
    unfold ParsesElse at other
    split at other
    next isElse =>
      obtain ⟨parsed,run,rfl,rfl⟩ := other
      refine ⟨_,bind_ok.mpr ⟨first,inside,bind_ok.mpr ⟨Parsed.ofTail first.rest parsed,?_,
        bind_ok.mpr ⟨_,(consumeEnd_ok (by decide)).mpr ⟨current,rfl⟩,bind_ok.mpr ⟨after,follows,rfl⟩⟩⟩⟩,rfl,rfl⟩
      rw [if_pos isElse,run]
      rfl
    next noElse =>
      obtain ⟨rfl,rfl⟩ := other
      exact ⟨_,bind_ok.mpr ⟨first,inside,bind_ok.mpr ⟨⟨[],first.rest,Nat.le_refl _⟩,if_neg noElse,
        bind_ok.mpr ⟨_,(consumeEnd_ok (by decide)).mpr ⟨current,rfl⟩,bind_ok.mpr ⟨after,follows,rfl⟩⟩⟩⟩,rfl,rfl⟩

/-- A list ends before a statement that its own block accepts. -/
theorem parses_ending {statement : String} (read : line.statement = some statement) (ends : Ending statement) :
    Parses total closing (line :: rest) blocks left ↔
      closing.isSome ∧ checkEnd closing (line :: rest) = .ok () ∧ blocks = [] ∧ left = line :: rest := by
  unfold Parses
  rw [parseBlocks,read]
  dsimp only
  rw [if_pos ends]
  split
  next some =>
    constructor
    · rintro ⟨parsed,run,rfl,rfl⟩
      obtain ⟨_,checked,done⟩ := bind_ok.mp run
      cases done
      exact ⟨some,checked,rfl,rfl⟩
    · rintro ⟨_,checked,rfl,rfl⟩
      rw [checked]
      exact ⟨_,rfl,rfl,rfl⟩
  next none =>
    constructor
    · rintro ⟨_,run,_⟩
      cases run
    · rintro ⟨some,_⟩
      exact absurd some none

theorem parses_malformed {entry : QdHarEntry} (token : line.token = .malformed entry) :
    ¬Parses total closing (line :: rest) blocks left := by
  rintro ⟨parsed,run,_⟩
  have kind := line.kind
  rw [token] at kind
  rw [parseBlocks] at run
  have refused : ∀ {text message : String}, text = "" → ensure (decide (text ≠ "")) message ≠ .ok () := by
    rintro text message rfl passed
    cases passed
  cases kind with
  | badIf statement condition read inner opens blank =>
    rw [read] at run
    dsimp only at run
    rw [if_neg inner,opens] at run
    exact refused blank (check_ok.mp run).1
  | badWhile statement condition read inner opens blank =>
    rw [read] at run
    dsimp only at run
    rw [if_neg inner,opens] at run
    exact refused blank (check_ok.mp run).1
  | badFor statement expression read inner opens bad =>
    rw [read] at run
    dsimp only at run
    rw [if_neg inner,opens] at run
    dsimp only at run
    split at run
    next => cases run
    next target source sides =>
      obtain ⟨named,given⟩ := check_ok.mp run
      rcases bad target source sides with blank | blank
      · exact refused blank named
      · exact refused blank (check_ok.mp given).1

end Parses

section Words

/-- Where a list of blocks may end: at the end of the entries, or before a
statement that its own block accepts. -/
def Ends (closing : Option String) (left : List Line) : Prop :=
  match closing with
  | none => left = []
  | some expected => currentStatement left = some expected ∨ (expected = "endif" ∧ currentStatement left = some "else")

theorem checkEnd_ok {closing : Option String} {left : List Line} (some : closing.isSome) :
    checkEnd closing left = .ok () ↔ Ends closing left := by
  cases closing with
  | none => cases some
  | some expected =>
    unfold checkEnd Ends
    dsimp only
    split
    next holds => exact ⟨fun _ => holds,fun _ => rfl⟩
    next fails =>
      constructor
      · intro failed
        cases failed
      · intro holds
        exact absurd holds fails

/-- The statements that close blocks. -/
def Closing (closing : Option String) : Prop := ∀ expected ∈ closing, (Text.stripPrefix expected "end").isSome

theorem tokens_of_current {lines : List Line} {statement : String} (current : currentStatement lines = some statement) :
    ∃ line rest, lines = line :: rest ∧ line.statement = some statement := by
  cases lines with
  | nil => cases current
  | cons line rest => exact ⟨line,rest,rfl,current⟩

theorem token_of_closer {line : Line} {statement : String} (read : line.statement = some statement)
    (notElse : statement ≠ "else") (ends : (Text.stripPrefix statement "end").isSome = true) :
    line.token = .close statement := by
  unfold Line.token
  rw [read]
  dsimp only
  rw [if_neg notElse,if_pos ends]

theorem token_of_else {line : Line} (read : line.statement = some "else") : line.token = .otherwise := by
  unfold Line.token
  rw [read]
  rfl

theorem Balanced.append {left right : List Token} (first : Balanced left) (second : Balanced right) :
    Balanced (left ++ right) := by
  induction first with
  | nil => exact second
  | request entry _ ih => exact .request entry ih
  | forLoop target source inside _ _ ih =>
    rw [List.cons_append,List.append_assoc]
    exact .forLoop target source inside ih
  | whileLoop condition inside _ _ ih =>
    rw [List.cons_append,List.append_assoc]
    exact .whileLoop condition inside ih
  | ifThen condition inside _ _ ih =>
    rw [List.cons_append,List.append_assoc]
    exact .ifThen condition inside ih
  | ifElse condition inside other _ _ _ ih =>
    rw [List.cons_append,List.append_assoc,List.cons_append,List.append_assoc]
    exact .ifElse condition inside other ih

theorem balanced_head {word : List Token} (balanced : Balanced word) (statement : String) (rest : List Token) :
    word ≠ .close statement :: rest := by
  rintro rfl
  cases balanced

/-- The rest of a word after an `else`, with its part and its closing statement. -/
theorem drop_else {second : List Token} (balanced : Balanced second) (rest : List Token)
    (append : ∀ after, dropEmptyElse (second ++ after) = dropEmptyElse second ++ dropEmptyElse after) :
    dropEmptyElse (.otherwise :: (second ++ .close "endif" :: rest)) =
      (if second.isEmpty then [] else .otherwise :: dropEmptyElse second) ++ .close "endif" :: dropEmptyElse rest := by
  cases second with
  | nil => rfl
  | cons token second =>
    have kept : dropEmptyElse (.otherwise :: (token :: second ++ .close "endif" :: rest)) =
        .otherwise :: dropEmptyElse (token :: second ++ .close "endif" :: rest) := by
      rw [dropEmptyElse]
      intro statement after _ same
      obtain ⟨rfl,_⟩ := List.cons.inj same
      exact balanced_head balanced statement second rfl
    rw [kept,append]
    rfl

theorem drop_block {body rest : List Token} (opener : Token) (statement : String)
    (kept : ∀ after, dropEmptyElse (opener :: after) = opener :: dropEmptyElse after)
    (inside : ∀ after, dropEmptyElse (body ++ after) = dropEmptyElse body ++ dropEmptyElse after)
    (follows : ∀ after, dropEmptyElse (rest ++ after) = dropEmptyElse rest ++ dropEmptyElse after) (after : List Token) :
    dropEmptyElse (opener :: (body ++ .close statement :: rest) ++ after) =
      dropEmptyElse (opener :: (body ++ .close statement :: rest)) ++ dropEmptyElse after := by
  have close : ∀ after, dropEmptyElse (Token.close statement :: after) = .close statement :: dropEmptyElse after :=
    fun _ => rfl
  rw [List.cons_append,List.append_assoc,List.cons_append,kept,kept,inside,inside,close,close,follows,List.cons_append,
    List.append_assoc,List.cons_append]

theorem dropEmptyElse_append {word : List Token} (balanced : Balanced word) (after : List Token) :
    dropEmptyElse (word ++ after) = dropEmptyElse word ++ dropEmptyElse after := by
  induction balanced generalizing after with
  | nil => rfl
  | request entry _ ih => exact congrArg (Token.request entry :: ·) (ih after)
  | forLoop target source _ _ body rest => exact drop_block (.forLoop target source) "endfor" (fun _ => rfl) body rest after
  | whileLoop condition _ _ body rest => exact drop_block (.whileLoop condition) "endwhile" (fun _ => rfl) body rest after
  | ifThen condition _ _ first rest => exact drop_block (.ifElse condition) "endif" (fun _ => rfl) first rest after
  | ifElse condition _ other _ first second rest =>
    have kept : ∀ after, dropEmptyElse (Token.ifElse condition :: after) = .ifElse condition :: dropEmptyElse after :=
      fun _ => rfl
    rw [List.cons_append,List.append_assoc,List.cons_append,List.append_assoc,List.cons_append,kept,kept,first,first,
      drop_else other _ second,drop_else other _ second,rest]
    simp only [List.cons_append,List.append_assoc]

theorem dropEmptyElse_eq_nil {word : List Token} (none : dropEmptyElse word = []) : word = [] := by
  unfold dropEmptyElse at none
  split at none
  · rfl
  · cases none
  · cases none

theorem flatten_eq_nil {blocks : List QdBlock} (none : flatten blocks = []) : blocks = [] := by
  cases blocks with
  | nil => rfl
  | cons block rest =>
    rw [flatten] at none
    cases block <;> cases none

/-- What the blocks are parsed from: a balanced word that they give back. -/
structure ReadsBlocks (closing : Option String) (lines : List Line) (blocks : List QdBlock) (left : List Line) : Prop where
  word : ∃ consumed, lines = consumed ++ left ∧ Balanced (consumed.map Line.token) ∧
    flatten blocks = dropEmptyElse (consumed.map Line.token)
  ends : Ends closing left

theorem closer_line {lines : List Line} {expected : String} (current : currentStatement lines = some expected)
    (notElse : expected ≠ "else") (ends : (Text.stripPrefix expected "end").isSome = true) :
    ∃ line rest, lines = line :: rest ∧ line.token = .close expected := by
  obtain ⟨line,rest,rfl,read⟩ := tokens_of_current current
  exact ⟨line,rest,rfl,token_of_closer read notElse ends⟩

/-- The parts of a loop put together. -/
theorem reads_block {closing : Option String} {line : Line} {rest middle left : List Line} {opener : Token}
    {expected : String} {body after : List QdBlock} {block : QdBlock} (token : line.token = opener)
    (kept : ∀ word, dropEmptyElse (opener :: word) = opener :: dropEmptyElse word)
    (wrap : ∀ {inside follows}, Balanced inside → Balanced follows → Balanced (opener :: (inside ++ .close expected :: follows)))
    (flat : flattenBlock block = opener :: (flatten body ++ [.close expected]))
    (inner : ReadsBlocks (some expected) rest body middle) (current : currentStatement middle = some expected)
    (notElse : expected ≠ "else") (ends : (Text.stripPrefix expected "end").isSome = true)
    (outer : ReadsBlocks closing middle.tail after left) : ReadsBlocks closing (line :: rest) (block :: after) left := by
  obtain ⟨consumed,rfl,inside,bodyFlat⟩ := inner.word
  obtain ⟨closer,tail,rfl,closes⟩ := closer_line current notElse ends
  obtain ⟨follows,same,follow,afterFlat⟩ := outer.word
  refine ⟨⟨line :: (consumed ++ closer :: follows),?_,?_,?_⟩,outer.ends⟩
  · rw [List.tail_cons] at same
    rw [same]
    simp
  · rw [List.map_cons,List.map_append,List.map_cons,token,closes]
    exact wrap inside follow
  · have shape : dropEmptyElse (Token.close expected :: follows.map Line.token) =
        .close expected :: dropEmptyElse (follows.map Line.token) := rfl
    rw [List.map_cons,List.map_append,List.map_cons,token,closes,kept,dropEmptyElse_append inside,shape,flatten,flat,
      bodyFlat,afterFlat]
    simp

/-- Both parts of an `if` put together. The `else` is written where its part has blocks. -/
theorem reads_ifElse {closing : Option String} {line : Line} {rest middle last left : List Line} {condition : String}
    {first second after : List QdBlock} (token : line.token = .ifElse condition)
    (inner : ReadsBlocks (some "endif") rest first middle) (isElse : currentStatement middle = some "else")
    (other : ReadsBlocks (some "endif") middle.tail second last) (current : currentStatement last = some "endif")
    (outer : ReadsBlocks closing last.tail after left) :
    ReadsBlocks closing (line :: rest) (.ifElse condition first second :: after) left := by
  obtain ⟨consumed,rfl,inside,firstFlat⟩ := inner.word
  obtain ⟨elseLine,tail,rfl,read⟩ := tokens_of_current isElse
  obtain ⟨part,same,partWord,secondFlat⟩ := other.word
  obtain ⟨closer,tail,rfl,closes⟩ := closer_line current (by decide) (by decide)
  obtain ⟨follows,sameTail,follow,afterFlat⟩ := outer.word
  rw [List.tail_cons] at same sameTail
  have empty : second.isEmpty = (part.map Line.token).isEmpty := by
    rw [Bool.eq_iff_iff,List.isEmpty_iff,List.isEmpty_iff]
    constructor
    · rintro rfl
      exact dropEmptyElse_eq_nil secondFlat.symm
    · intro none
      rw [none] at secondFlat
      exact flatten_eq_nil secondFlat
  refine ⟨⟨line :: (consumed ++ elseLine :: (part ++ closer :: follows)),?_,?_,?_⟩,outer.ends⟩
  · rw [same,sameTail]
    simp
  · rw [List.map_cons,List.map_append,List.map_cons,List.map_append,List.map_cons,token,closes,token_of_else read]
    exact .ifElse condition inside partWord follow
  · have kept : ∀ word, dropEmptyElse (Token.ifElse condition :: word) = .ifElse condition :: dropEmptyElse word :=
      fun _ => rfl
    rw [List.map_cons,List.map_append,List.map_cons,List.map_append,List.map_cons,token,closes,token_of_else read,kept,
      dropEmptyElse_append inside,drop_else partWord _ (dropEmptyElse_append partWord),flatten,flattenBlock,empty,firstFlat,
      secondFlat,afterFlat]
    simp

/-- What is parsed is a balanced word. By induction on the lines: each list of
blocks in a block is parsed from fewer of them. -/
theorem reads_of_parses {total : Nat} {closing : Option String} {lines left : List Line} {blocks : List QdBlock}
    (parses : Parses total closing lines blocks left) : ReadsBlocks closing lines blocks left := by
  induction size : lines.length using Nat.strongRecOn generalizing closing lines left blocks with
  | ind n ih =>
    cases lines with
    | nil =>
      obtain ⟨checked,rfl,rfl⟩ := parses_nil.mp parses
      refine ⟨⟨[],rfl,.nil,rfl⟩,?_⟩
      cases closing with
      | none => rfl
      | some expected => exact (checkEnd_ok rfl).mp checked
    | cons line rest =>
      rw [List.length_cons] at size
      have inner : ∀ {closing blocks left}, Parses total closing rest blocks left → ReadsBlocks closing rest blocks left :=
        fun found => ih rest.length (by omega) found rfl
      have later : ∀ {middle : List Line} {closing first blocks left}, ReadsBlocks closing rest first middle →
          ∀ {other}, Parses total other middle.tail blocks left → ReadsBlocks other middle.tail blocks left := by
        intro middle closing first blocks left before other found
        obtain ⟨consumed,same,_,_⟩ := before.word
        refine ih middle.tail.length ?_ found rfl
        rw [← size,same,List.length_tail,List.length_append]
        omega
      have ending : ∀ statement, line.statement = some statement → Ending statement →
          ReadsBlocks closing (line :: rest) blocks left := by
        intro statement read ends
        obtain ⟨some,checked,rfl,rfl⟩ := (parses_ending read ends).mp parses
        exact ⟨⟨[],rfl,.nil,rfl⟩,(checkEnd_ok some).mp checked⟩
      cases token : line.token with
      | request entry =>
        obtain ⟨after,found,rfl⟩ := (parses_request token).mp parses
        obtain ⟨⟨consumed,rfl,word,flat⟩,ends⟩ := inner found
        refine ⟨⟨line :: consumed,rfl,?_,?_⟩,ends⟩
        · rw [List.map_cons,token]
          exact .request entry word
        · rw [List.map_cons,token,flatten,flat]
          rfl
      | forLoop target source =>
        obtain ⟨body,middle,after,inside,current,follows,rfl⟩ := (parses_forLoop token).mp parses
        exact reads_block token (fun _ => rfl) (fun word next => .forLoop target source word next) rfl (inner inside) current
          (by decide) (by decide) (later (inner inside) follows)
      | whileLoop condition =>
        obtain ⟨body,middle,after,inside,current,follows,rfl⟩ := (parses_whileLoop token).mp parses
        exact reads_block token (fun _ => rfl) (fun word next => .whileLoop condition word next) rfl (inner inside) current
          (by decide) (by decide) (later (inner inside) follows)
      | ifElse condition =>
        obtain ⟨first,middle,second,last,after,inside,other,current,follows,rfl⟩ := (parses_ifElse token).mp parses
        unfold ParsesElse at other
        split at other
        next isElse =>
          have part := later (inner inside) other
          obtain ⟨consumed,same,_,_⟩ := (inner inside).word
          obtain ⟨partLines,sameTail,_,_⟩ := part.word
          refine reads_ifElse token (inner inside) isElse part current (ih last.tail.length ?_ follows rfl)
          have sizes := congrArg List.length same
          have tailSizes := congrArg List.length sameTail
          rw [List.length_append] at sizes tailSizes
          rw [List.length_tail] at tailSizes ⊢
          omega
        next noElse =>
          obtain ⟨rfl,rfl⟩ := other
          exact reads_block token (fun _ => rfl) (fun word next => .ifThen condition word next) rfl (inner inside) current
            (by decide) (by decide) (later (inner inside) follows)
      | otherwise =>
        have kind := line.kind
        rw [token] at kind
        cases kind with
        | otherwise read => exact ending "else" read (.inl rfl)
      | close statement =>
        have kind := line.kind
        rw [token] at kind
        cases kind with
        | close _ read _ ends => exact ending statement read (.inr ends)
      | malformed entry => exact absurd parses (parses_malformed token)

theorem statement_of_close {line : Line} {statement : String} (token : line.token = .close statement) :
    line.statement = some statement := by
  have kind := line.kind
  rw [token] at kind
  cases kind with
  | close _ read _ _ => exact read

theorem statement_of_else {line : Line} (token : line.token = .otherwise) : line.statement = some "else" := by
  have kind := line.kind
  rw [token] at kind
  cases kind with
  | otherwise read => exact read

theorem parses_end {total : Nat} {closing : Option String} {left : List Line} (closes : Closing closing)
    (ends : Ends closing left) : Parses total closing left [] left := by
  cases closing with
  | none =>
    rw [show left = [] from ends]
    exact parses_nil.mpr ⟨rfl,rfl,rfl⟩
  | some expected =>
    have checked : checkEnd (some expected) left = .ok () := (checkEnd_ok rfl).mpr ends
    rcases ends with current | ⟨_,current⟩
    · obtain ⟨line,rest,rfl,read⟩ := tokens_of_current current
      exact (parses_ending read (.inr (closes expected rfl))).mpr ⟨rfl,checked,rfl,rfl⟩
    · obtain ⟨line,rest,rfl,read⟩ := tokens_of_current current
      exact (parses_ending read (.inl rfl)).mpr ⟨rfl,checked,rfl,rfl⟩

theorem closing_of {expected : String} (ends : (Text.stripPrefix expected "end").isSome = true) : Closing (some expected) := by
  intro other member
  cases member
  exact ends

/-- Every balanced word is parsed, up to a place where its blocks may end. -/
theorem parses_of_balanced {total : Nat} {word : List Token} (balanced : Balanced word) :
    ∀ {closing : Option String} {consumed left : List Line}, Closing closing → consumed.map Line.token = word →
      Ends closing left → ∃ blocks, Parses total closing (consumed ++ left) blocks left := by
  induction balanced with
  | nil =>
    intro closing consumed left closes same ends
    obtain rfl := List.map_eq_nil_iff.mp same
    exact ⟨[],parses_end closes ends⟩
  | request entry _ ih =>
    intro closing consumed left closes same ends
    obtain ⟨line,rest,rfl,token,same⟩ := List.map_eq_cons_iff.mp same
    obtain ⟨after,parses⟩ := ih closes same ends
    exact ⟨_,(parses_request token).mpr ⟨after,parses,rfl⟩⟩
  | forLoop target source _ _ inside follows =>
    intro closing consumed left closes same ends
    obtain ⟨line,rest,rfl,token,same⟩ := List.map_eq_cons_iff.mp same
    obtain ⟨body,tail,rfl,bodySame,same⟩ := List.map_eq_append_iff.mp same
    obtain ⟨closer,rest,rfl,closerToken,same⟩ := List.map_eq_cons_iff.mp same
    obtain ⟨after,parses⟩ := follows closes same ends
    obtain ⟨blocks,parsesBody⟩ : ∃ blocks, Parses total (some "endfor") (body ++ closer :: (rest ++ left)) blocks _ :=
      inside (closing_of (by decide)) bodySame (.inl (statement_of_close closerToken))
    rw [List.cons_append,List.append_assoc]
    exact ⟨_,(parses_forLoop token).mpr ⟨blocks,_,after,parsesBody,statement_of_close closerToken,parses,rfl⟩⟩
  | whileLoop condition _ _ inside follows =>
    intro closing consumed left closes same ends
    obtain ⟨line,rest,rfl,token,same⟩ := List.map_eq_cons_iff.mp same
    obtain ⟨body,tail,rfl,bodySame,same⟩ := List.map_eq_append_iff.mp same
    obtain ⟨closer,rest,rfl,closerToken,same⟩ := List.map_eq_cons_iff.mp same
    obtain ⟨after,parses⟩ := follows closes same ends
    obtain ⟨blocks,parsesBody⟩ : ∃ blocks, Parses total (some "endwhile") (body ++ closer :: (rest ++ left)) blocks _ :=
      inside (closing_of (by decide)) bodySame (.inl (statement_of_close closerToken))
    rw [List.cons_append,List.append_assoc]
    exact ⟨_,(parses_whileLoop token).mpr ⟨blocks,_,after,parsesBody,statement_of_close closerToken,parses,rfl⟩⟩
  | ifThen condition _ _ inside follows =>
    intro closing consumed left closes same ends
    obtain ⟨line,rest,rfl,token,same⟩ := List.map_eq_cons_iff.mp same
    obtain ⟨body,tail,rfl,bodySame,same⟩ := List.map_eq_append_iff.mp same
    obtain ⟨closer,rest,rfl,closerToken,same⟩ := List.map_eq_cons_iff.mp same
    have current := statement_of_close closerToken
    obtain ⟨after,parses⟩ := follows closes same ends
    obtain ⟨blocks,parsesBody⟩ : ∃ blocks, Parses total (some "endif") (body ++ closer :: (rest ++ left)) blocks _ :=
      inside (closing_of (by decide)) bodySame (.inl current)
    have noElse : ParsesElse total (closer :: (rest ++ left)) [] (closer :: (rest ++ left)) := by
      unfold ParsesElse
      rw [if_neg]
      · exact ⟨rfl,rfl⟩
      · intro isElse
        exact absurd (Option.some.inj (current.symm.trans isElse)) (by decide)
    rw [List.cons_append,List.append_assoc]
    exact ⟨_,(parses_ifElse token).mpr ⟨blocks,_,[],_,after,parsesBody,noElse,current,parses,rfl⟩⟩
  | ifElse condition _ _ _ inside other follows =>
    intro closing consumed left closes same ends
    obtain ⟨line,rest,rfl,token,same⟩ := List.map_eq_cons_iff.mp same
    obtain ⟨body,tail,rfl,bodySame,same⟩ := List.map_eq_append_iff.mp same
    obtain ⟨elseLine,rest,rfl,elseToken,same⟩ := List.map_eq_cons_iff.mp same
    obtain ⟨part,tail,rfl,partSame,same⟩ := List.map_eq_append_iff.mp same
    obtain ⟨closer,rest,rfl,closerToken,same⟩ := List.map_eq_cons_iff.mp same
    have current := statement_of_close closerToken
    have isElse := statement_of_else elseToken
    obtain ⟨after,parses⟩ := follows closes same ends
    obtain ⟨second,parsesPart⟩ : ∃ blocks, Parses total (some "endif") (part ++ closer :: (rest ++ left)) blocks _ :=
      other (closing_of (by decide)) partSame (.inl current)
    obtain ⟨first,parsesBody⟩ : ∃ blocks, Parses total (some "endif")
        (body ++ elseLine :: (part ++ closer :: (rest ++ left))) blocks _ :=
      inside (closing_of (by decide)) bodySame (.inr ⟨rfl,isElse⟩)
    have partElse : ParsesElse total (elseLine :: (part ++ closer :: (rest ++ left))) second (closer :: (rest ++ left)) := by
      unfold ParsesElse
      rw [if_pos (by exact isElse)]
      exact parsesPart
    rw [List.cons_append,List.append_assoc,List.cons_append,List.append_assoc]
    exact ⟨_,(parses_ifElse token).mpr ⟨first,_,second,_,after,parsesBody,partElse,current,parses,rfl⟩⟩

end Words

theorem compile_reads {har : QdHar} {program : QdProgram} (compiled : QdProgram.compile har = .ok program) :
    Balanced har.tokens ∧ flatten program.blocks = dropEmptyElse har.tokens := by
  obtain ⟨parsed,run,compiled⟩ := bind_ok.mp compiled
  obtain ⟨_,built⟩ := check_ok.mp compiled
  cases built
  obtain ⟨⟨consumed,same,word,flat⟩,ends⟩ := reads_of_parses ⟨parsed,run,rfl,rfl⟩
  rw [show parsed.rest = [] from ends,List.append_nil] at same
  have tokens : har.tokens = consumed.map Line.token := congrArg (List.map Line.token) same
  rw [tokens]
  exact ⟨word,flat⟩

theorem compile_balanced {har : QdHar} (balanced : Balanced har.tokens) : ∃ program, QdProgram.compile har = .ok program := by
  have whole : ∃ blocks, Parses (har.enabledEntries.map QdHarEntry.line).length none
      (har.enabledEntries.map QdHarEntry.line ++ []) blocks [] :=
    parses_of_balanced balanced (fun _ member => absurd member (by simp)) rfl rfl
  rw [List.append_nil] at whole
  obtain ⟨_,parsed,run,_,rest⟩ := whole
  refine ⟨⟨parsed.blocks⟩,bind_ok.mpr ⟨parsed,run,check_ok.mpr ⟨?_,rfl⟩⟩⟩
  rw [rest]
  rfl

/-- Compilation accepts exactly the balanced words, and its blocks give the word
back, without the `else` of a part that has no blocks. -/
theorem compile_iff (har : QdHar) :
    ((∃ program, QdProgram.compile har = .ok program) ↔ Balanced har.tokens) ∧
      ∀ program, QdProgram.compile har = .ok program → flatten program.blocks = dropEmptyElse har.tokens := by
  refine ⟨⟨?_,compile_balanced⟩,fun program compiled => (compile_reads compiled).2⟩
  rintro ⟨program,compiled⟩
  exact (compile_reads compiled).1

/-- Enabled entries with these URLs. -/
def harOf (urls : List String) : QdHar :=
  ⟨.null,⟨⟨"1.2",urls.map fun url => ⟨true,none,⟨"GET",url,[],[],none⟩,[],[],[]⟩⟩⟩⟩

/-- Every statement that opens and closes nothing read as a request. -/
def Token.orRequest : Token → Token
  | .malformed entry => .request entry
  | token => token

/-- A `for` without `in` fails where a request would not, and an `else` without
blocks is not in the tree. -/
theorem malformed_for_fails :
    (Balanced ((harOf ["\x7b% for x %\x7d"]).tokens.map Token.orRequest) ∧
        ∀ program, QdProgram.compile (harOf ["\x7b% for x %\x7d"]) ≠ .ok program) ∧
      ∃ program, QdProgram.compile (harOf ["\x7b% if x %\x7d","\x7b% else %\x7d","\x7b% endif %\x7d"]) = .ok program ∧
        flatten program.blocks ≠ (harOf ["\x7b% if x %\x7d","\x7b% else %\x7d","\x7b% endif %\x7d"]).tokens := by
  refine ⟨⟨.request _ .nil,?_⟩,?_⟩
  · intro program compiled
    cases (compile_reads compiled).1
  · have balanced : Balanced (harOf ["\x7b% if x %\x7d","\x7b% else %\x7d","\x7b% endif %\x7d"]).tokens :=
      .ifElse "x" .nil .nil .nil
    obtain ⟨program,compiled⟩ := compile_balanced balanced
    refine ⟨program,compiled,?_⟩
    rw [(compile_reads compiled).2]
    intro same
    exact absurd (congrArg List.length same) (by decide)

end Qdrust.Har
