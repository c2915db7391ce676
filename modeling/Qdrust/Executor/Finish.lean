import Qdrust.Executor.Request
import Qdrust.Library.Checked
import Qdrust.Pattern.Delimited

/-! What a response is put through: the two lists of assertions and the extractions,
over the regular expressions of two engines, one of which can give up. -/
namespace Qdrust.Executor.Finish
open Library Har Pattern

/-- The groups of a match. The whole match is group 0 and always there. -/
structure Captures where
  whole : String
  groups : List (Option String)

def Captures.groupCount (captures : Captures) : Nat := captures.groups.length + 1

def Captures.group (captures : Captures) : Nat → Option String
  | 0 => some captures.whole
  | index + 1 => (captures.groups[index]?).join

inductive CompiledRegex (Regex FancyRegex : Type) where
  | linear (regex : Regex)
  | backtracking (regex : FancyRegex) (pattern : String)

/-- What the two engines answer. `debug` is `{pattern:?}`. -/
structure Engine (Regex FancyRegex : Type) where
  build : QdFlags → String → String → Except String (CompiledRegex Regex FancyRegex)
  debug : String → String
  isMatch : Regex → String → Bool
  captures : Regex → String → Option Captures
  capturesIter : Regex → String → List Captures
  fancyIsMatch : FancyRegex → String → Except Failure Bool
  fancyCaptures : FancyRegex → String → Except Failure (Option Captures)
  fancyCapturesIter : FancyRegex → String → List (Except Failure Captures)

section Regexes

variable {Regex FancyRegex : Type} (engine : Engine Regex FancyRegex)

/-- Giving up is an error that names the pattern. -/
def backtracked (pattern : String) {α : Type} : Except Failure α → Except Failure α :=
  withContext ("QD regular expression " ++ engine.debug pattern ++
    " gave up: it needed more backtracking than the fallback engine allows (1000000 steps)")

def qdFindallEntry (capture : Captures) : Json :=
  let group := fun index => Json.str ((capture.group index).getD "")
  match capture.groupCount with
  | 1 => group 0
  | 2 => group 1
  | groups => .arr ((List.range' 1 (groups - 1)).map group)

def qdFirstValue (capture : Captures) : Option Json :=
  let matched := if capture.groupCount > 1 then capture.group 1 else capture.group 0
  (matched.or (capture.group 0)).map .str

def CompiledRegex.isMatch (source : String) : CompiledRegex Regex FancyRegex → Except Failure Bool
  | .linear regex => .ok (engine.isMatch regex source)
  | .backtracking regex pattern => backtracked engine pattern (engine.fancyIsMatch regex source)

def CompiledRegex.captured (source : String) : CompiledRegex Regex FancyRegex → Except Failure (Option Captures)
  | .linear regex => .ok (engine.captures regex source)
  | .backtracking regex pattern => backtracked engine pattern (engine.fancyCaptures regex source)

def CompiledRegex.findAll (source : String) : CompiledRegex Regex FancyRegex → Except Failure (List Json)
  | .linear regex => .ok ((engine.capturesIter regex source).map qdFindallEntry)
  | .backtracking regex pattern => (engine.fancyCapturesIter regex source).mapM fun capture => do
    let capture ← backtracked engine pattern capture
    return qdFindallEntry capture

def CompiledRegex.first (source : String) (regex : CompiledRegex Regex FancyRegex) : Except Failure (Option Json) := do
  let capture ← regex.captured engine source
  return capture.bind qdFirstValue

def compileRegex (pattern : String) : Except Failure (CompiledRegex Regex FancyRegex) :=
  let (body,flags) := qdPattern pattern.toList
  (engine.build flags pattern (String.ofList body)).mapError fun reason =>
    ["invalid QD regular expression " ++ engine.debug pattern ++ ": " ++ reason]

def isGlobal (pattern : String) : Bool := (qdPattern pattern.toList).2.global

def extract (pattern source : String) : Except Failure (Option Json) := do
  let regex ← compileRegex engine pattern
  if isGlobal pattern then
    let values ← regex.findAll engine source
    return some (.arr values)
  else regex.first engine source

def decided (pattern source : String) : Except Failure Bool := do
  let regex ← compileRegex engine pattern
  regex.isMatch engine source

theorem qdFirstValue_some (capture : Captures) : ∃ value, qdFirstValue capture = some value := by
  have whole : ∃ text, ((if capture.groupCount > 1 then capture.group 1 else capture.group 0).or
      (capture.group 0)) = some text := by
    cases if capture.groupCount > 1 then capture.group 1 else capture.group 0 with
    | none => exact ⟨capture.whole,rfl⟩
    | some text => exact ⟨text,rfl⟩
  obtain ⟨text,same⟩ := whole
  exact ⟨.str text,congrArg (Option.map Json.str) same⟩

end Regexes

/-- The regular expressions of a run are those of the engine. -/
def withEngine {Regex FancyRegex : Type} (engine : Engine Regex FancyRegex) (executor : QdExecutor) : QdExecutor :=
  { executor with services := { executor.services with
    extract := extract engine
    isMatch := decided engine } }

/-- What the rules look at. -/
structure Answer where
  status : Nat
  headers : Headers
  content : String

def answerOf (services : Services) (response : Response) : Answer :=
  ⟨response.status,response.headers,if isImageResponse response.headers then services.base64 response.body
    else services.decodeBody response.body response.headers⟩

def Answer.source (answer : Answer) (rule : QdRule) : String :=
  ruleSource rule.source answer.status answer.headers answer.content

/-- The rejection of an empty answer of the login service. -/
def appConf (url : String) (answer : Answer) : Bool :=
  Text.contains url "/oauth2/appConf.do" && Text.contains answer.content "\x22data\x22:\x7b\x7d"

section Rules

variable {Regex FancyRegex : Type} (engine : Engine Regex FancyRegex) (executor : QdExecutor) (answer : Answer)

/-- A pattern with the variables filled in. -/
def rendered (vars : Fields) (text : String) : Except Failure String :=
  withContext "cannot render QD template value" (executor.services.renderTemplate text vars)

/-- The pattern of an assertion renders, compiles, and is decided. -/
def Decides (vars : Fields) (rule : QdRule) (verdict : Bool) : Prop := ∃ pattern regex,
  rendered executor vars rule.re = .ok pattern ∧ compileRegex engine pattern = .ok regex ∧
    regex.isMatch engine (answer.source rule) = .ok verdict

/-- No rules, or one that matches behind rules that are decided and do not. -/
def Succeeds (vars : Fields) (rules : List QdRule) : Prop :=
  rules = [] ∨ ∃ before rule behind, rules = before ++ rule :: behind ∧
    (∀ other ∈ before, Decides engine executor answer vars other false) ∧ Decides engine executor answer vars rule true

def Passes (vars : Fields) (rules : List QdRule) : Prop := ∀ rule ∈ rules, Decides engine executor answer vars rule false

/-- One extraction, by what its pattern leads to. -/
inductive Extracted (vars : Fields) (rule : QdExtractRule) : Fields → Prop where
  | placeholder (idle : rule.rule.re = "" ∨ trimmed rule.name = "") : Extracted vars rule vars
  | refused {pattern : String} {failure : Failure} (active : ¬(rule.rule.re = "" ∨ trimmed rule.name = ""))
      (renders : rendered executor vars rule.rule.re = .ok pattern)
      (refuses : compileRegex engine pattern = .error failure) :
      Extracted vars rule (insertVar vars rule.name (.str failure.display))
  | gaveUp {pattern : String} {regex : CompiledRegex Regex FancyRegex} {failure : Failure}
      (active : ¬(rule.rule.re = "" ∨ trimmed rule.name = "")) (renders : rendered executor vars rule.rule.re = .ok pattern)
      (compiles : compileRegex engine pattern = .ok regex)
      (stops : if isGlobal pattern then regex.findAll engine (answer.source rule.rule) = .error failure
        else regex.captured engine (answer.source rule.rule) = .error failure) :
      Extracted vars rule (insertVar vars rule.name (.str failure.display))
  | all {pattern : String} {regex : CompiledRegex Regex FancyRegex} {values : List Json}
      (active : ¬(rule.rule.re = "" ∨ trimmed rule.name = "")) (renders : rendered executor vars rule.rule.re = .ok pattern)
      (compiles : compileRegex engine pattern = .ok regex) (global : isGlobal pattern = true)
      (finds : regex.findAll engine (answer.source rule.rule) = .ok values) :
      Extracted vars rule (insertVar vars rule.name (.arr values))
  | first {pattern : String} {regex : CompiledRegex Regex FancyRegex} {capture : Captures} {value : Json}
      (active : ¬(rule.rule.re = "" ∨ trimmed rule.name = "")) (renders : rendered executor vars rule.rule.re = .ok pattern)
      (compiles : compileRegex engine pattern = .ok regex) (single : isGlobal pattern = false)
      (finds : regex.captured engine (answer.source rule.rule) = .ok (some capture))
      (reads : qdFirstValue capture = some value) : Extracted vars rule (insertVar vars rule.name value)
  | unmatched {pattern : String} {regex : CompiledRegex Regex FancyRegex}
      (active : ¬(rule.rule.re = "" ∨ trimmed rule.name = "")) (renders : rendered executor vars rule.rule.re = .ok pattern)
      (compiles : compileRegex engine pattern = .ok regex) (single : isGlobal pattern = false)
      (finds : regex.captured engine (answer.source rule.rule) = .ok none) : Extracted vars rule vars

/-- Extractions in order, each with what the earlier ones have bound. -/
inductive Extracts : Fields → List QdExtractRule → Fields → Prop where
  | nil (vars : Fields) : Extracts vars [] vars
  | cons {vars middle after : Fields} {rule : QdExtractRule} {rest : List QdExtractRule}
      (one : Extracted engine executor answer vars rule middle) (others : Extracts middle rest after) :
      Extracts vars (rule :: rest) after

/-- Every pattern renders, with what the extractions before it have bound. -/
def Renders (vars : Fields) (rules : List QdExtractRule) : Prop := ∀ before rule behind middle,
  rules = before ++ rule :: behind → Extracts engine executor answer vars before middle →
    ¬(rule.rule.re = "" ∨ trimmed rule.name = "") → ∃ pattern, rendered executor middle rule.rule.re = .ok pattern

end Rules

section Rules

variable {Regex FancyRegex : Type} (engine : Engine Regex FancyRegex) (executor : QdExecutor) (answer : Answer)
  (context : ExecutionContext)

theorem decided_ok {pattern source : String} {verdict : Bool} : decided engine pattern source = .ok verdict ↔
    ∃ regex, compileRegex engine pattern = .ok regex ∧ regex.isMatch engine source = .ok verdict := bind_ok

theorem extract_error {pattern source : String} {failure : Failure} (refuses : compileRegex engine pattern = .error failure) :
    extract engine pattern source = .error failure := by
  unfold extract
  rw [refuses]
  rfl

/-- One rule of a list: it decides the list, or the rest does. -/
theorem matchedRule_cons (rule : QdRule) (rest : List QdRule) (outcome : Option String) :
    matchedRule (withEngine engine executor).services (rule :: rest) answer.status answer.headers answer.content
        context = .ok outcome ↔
      (∃ pattern, rendered executor context.vars rule.re = .ok pattern ∧
        decided engine pattern (answer.source rule) = .ok true ∧ outcome = some pattern) ∨
      Decides engine executor answer context.vars rule false ∧
        matchedRule (withEngine engine executor).services rest answer.status answer.headers answer.content context =
          .ok outcome := by
  change (rendered executor context.vars rule.re >>= fun pattern =>
    decided engine pattern (answer.source rule) >>= fun found =>
      if found then pure (some pattern) else matchedRule (withEngine engine executor).services rest answer.status
        answer.headers answer.content context) = .ok outcome ↔ _
  rw [bind_ok]
  constructor
  · rintro ⟨pattern,renders,later⟩
    rw [bind_ok] at later
    obtain ⟨found,decides,outcomes⟩ := later
    cases found with
    | true =>
      cases outcomes
      exact .inl ⟨pattern,renders,decides,rfl⟩
    | false =>
      obtain ⟨regex,compiles,verdict⟩ := (decided_ok engine).mp decides
      exact .inr ⟨⟨pattern,regex,renders,compiles,verdict⟩,outcomes⟩
  · rintro (⟨pattern,renders,decides,rfl⟩ | ⟨⟨pattern,regex,renders,compiles,verdict⟩,later⟩)
    · exact ⟨pattern,renders,bind_ok.mpr ⟨true,decides,rfl⟩⟩
    · exact ⟨pattern,renders,bind_ok.mpr ⟨false,(decided_ok engine).mpr ⟨regex,compiles,verdict⟩,later⟩⟩

/-- No rule matches: every one was consulted. -/
theorem matchedRule_none (rules : List QdRule) :
    matchedRule (withEngine engine executor).services rules answer.status answer.headers answer.content context =
      .ok none ↔ Passes engine executor answer context.vars rules := by
  induction rules with
  | nil => exact ⟨fun _ => List.forall_mem_nil _,fun _ => rfl⟩
  | cons rule rest ih =>
    rw [matchedRule_cons,ih]
    constructor
    · rintro (⟨_,_,_,absurd⟩ | ⟨first,others⟩)
      · cases absurd
      · exact List.forall_mem_cons.mpr ⟨first,others⟩
    · intro all
      exact .inr (List.forall_mem_cons.mp all)

/-- A rule matches, behind rules that do not. -/
theorem matchedRule_some (rules : List QdRule) :
    (∃ pattern, matchedRule (withEngine engine executor).services rules answer.status answer.headers answer.content
      context = .ok (some pattern)) ↔ ∃ before rule behind, rules = before ++ rule :: behind ∧
      (∀ other ∈ before, Decides engine executor answer context.vars other false) ∧
        Decides engine executor answer context.vars rule true := by
  induction rules with
  | nil =>
    constructor
    · rintro ⟨_,absurd⟩
      cases absurd
    · rintro ⟨before,_,_,absurd,_⟩
      cases before <;> cases absurd
  | cons rule rest ih =>
    simp only [matchedRule_cons]
    constructor
    · rintro ⟨_,⟨pattern,renders,decides,_⟩ | ⟨first,later⟩⟩
      · obtain ⟨regex,compiles,verdict⟩ := (decided_ok engine).mp decides
        exact ⟨[],rule,rest,rfl,List.forall_mem_nil _,pattern,regex,renders,compiles,verdict⟩
      · obtain ⟨before,found,behind,rfl,others,decides⟩ := ih.mp ⟨_,later⟩
        exact ⟨rule :: before,found,behind,rfl,List.forall_mem_cons.mpr ⟨first,others⟩,decides⟩
    · rintro ⟨before,found,behind,split,others,decides⟩
      cases before with
      | nil =>
        cases split
        obtain ⟨pattern,regex,renders,compiles,verdict⟩ := decides
        exact ⟨pattern,.inl ⟨pattern,renders,(decided_ok engine).mpr ⟨regex,compiles,verdict⟩,rfl⟩⟩
      | cons first before =>
        cases split
        obtain ⟨undecided,others⟩ := List.forall_mem_cons.mp others
        obtain ⟨pattern,later⟩ := ih.mpr ⟨before,found,behind,rfl,others,decides⟩
        exact ⟨pattern,.inr ⟨undecided,later⟩⟩

/-- Without rules there is nothing to check; otherwise the outcome of the list decides. -/
theorem checkRules_ok {rules : List QdRule} {successRules : Bool} :
    checkRules (withEngine engine executor).services rules successRules answer.status answer.headers answer.content
        context = .ok () ↔ rules = [] ∨ ∃ outcome, matchedRule (withEngine engine executor).services rules answer.status
          answer.headers answer.content context = .ok outcome ∧ outcome.isSome = successRules := by
  unfold checkRules
  cases rules with
  | nil => exact ⟨fun _ => .inl rfl,fun _ => rfl⟩
  | cons rule rest =>
    rw [if_neg (show ¬(rule :: rest).isEmpty = true from nofun),bind_ok]
    constructor
    · rintro ⟨outcome,found,passes⟩
      refine .inr ⟨outcome,found,?_⟩
      cases outcome with
      | none => exact ((Bool.not_eq_true' _).mp ((ensure_ok _ _).mp passes)).symm
      | some pattern => exact ((ensure_ok _ _).mp passes).symm
    · rintro (absurd | ⟨outcome,found,same⟩)
      · cases absurd
      · refine ⟨outcome,found,?_⟩
        cases outcome with
        | none => exact (ensure_ok _ _).mpr ((Bool.not_eq_true' _).mpr same.symm)
        | some pattern => exact (ensure_ok _ _).mpr same.symm

theorem successRules_ok (rules : List QdRule) :
    checkRules (withEngine engine executor).services rules true answer.status answer.headers answer.content context =
      .ok () ↔ Succeeds engine executor answer context.vars rules := by
  rw [checkRules_ok,Succeeds,← matchedRule_some]
  refine or_congr Iff.rfl ?_
  constructor
  · rintro ⟨outcome,found,some⟩
    obtain ⟨pattern,rfl⟩ := Option.isSome_iff_exists.mp some
    exact ⟨pattern,found⟩
  · rintro ⟨pattern,found⟩
    exact ⟨_,found,rfl⟩

theorem failedRules_ok (rules : List QdRule) :
    checkRules (withEngine engine executor).services rules false answer.status answer.headers answer.content context =
      .ok () ↔ Passes engine executor answer context.vars rules := by
  rw [checkRules_ok,← matchedRule_none]
  constructor
  · rintro (rfl | ⟨outcome,found,none⟩)
    · rfl
    · rw [Option.isSome_eq_false_iff,Option.isNone_iff_eq_none] at none
      rw [found,none]
  · intro found
    exact .inr ⟨_,found,rfl⟩

end Rules

section Extractions

variable {Regex FancyRegex : Type} (engine : Engine Regex FancyRegex) (executor : QdExecutor) (answer : Answer)

/-- A state with other variables. -/
def bound (state : Execution) (vars : Fields) : Execution := { state with context := { state.context with vars := vars } }

variable {engine executor answer}

theorem extract_failed {vars : Fields} {rule : QdExtractRule} {pattern : String} {failure : Failure}
    (active : ¬(rule.rule.re = "" ∨ trimmed rule.name = "")) (renders : rendered executor vars rule.rule.re = .ok pattern)
    (fails : extract engine pattern (answer.source rule.rule) = .error failure) :
    Extracted engine executor answer vars rule (insertVar vars rule.name (.str failure.display)) := by
  unfold extract at fails
  cases compiles : compileRegex engine pattern with
  | error refusal =>
    rw [compiles] at fails
    cases fails
    exact .refused active renders compiles
  | ok regex =>
    rw [compiles] at fails
    refine .gaveUp active renders compiles ?_
    cases global : isGlobal pattern with
    | true =>
      cases finds : regex.findAll engine (answer.source rule.rule) with
      | error stopped =>
        change (if isGlobal pattern then _ else _) = _ at fails
        rw [global,if_pos rfl,finds] at fails
        cases fails
        rfl
      | ok values =>
        change (if isGlobal pattern then _ else _) = _ at fails
        rw [global,if_pos rfl,finds] at fails
        cases fails
    | false =>
      change (if isGlobal pattern then _ else regex.first engine _) = _ at fails
      rw [global,if_neg Bool.false_ne_true] at fails
      unfold CompiledRegex.first at fails
      cases finds : regex.captured engine (answer.source rule.rule) with
      | error stopped =>
        rw [finds] at fails
        cases fails
        rfl
      | ok capture =>
        rw [finds] at fails
        cases fails

theorem extract_done {vars : Fields} {rule : QdExtractRule} {pattern : String} {outcome : Option Json}
    (active : ¬(rule.rule.re = "" ∨ trimmed rule.name = "")) (renders : rendered executor vars rule.rule.re = .ok pattern)
    (done : extract engine pattern (answer.source rule.rule) = .ok outcome) :
    Extracted engine executor answer vars rule ((outcome.map (insertVar vars rule.name)).getD vars) := by
  obtain ⟨regex,compiles,later⟩ := bind_ok.mp done
  cases global : isGlobal pattern with
  | true =>
    rw [global,if_pos rfl] at later
    obtain ⟨values,finds,same⟩ := bind_ok.mp later
    cases same
    exact .all active renders compiles global finds
  | false =>
    rw [global,if_neg Bool.false_ne_true] at later
    obtain ⟨capture,finds,same⟩ := bind_ok.mp later
    cases capture with
    | none =>
      cases same
      exact .unmatched active renders compiles global finds
    | some capture =>
      obtain ⟨value,reads⟩ := qdFirstValue_some capture
      have outcomes : outcome = some value := (Except.ok.inj same).symm.trans reads
      rw [outcomes]
      exact .first active renders compiles global finds reads

/-- What the outcome of an extraction makes of the variables. -/
def stored (vars : Fields) (name : String) : Except Failure (Option Json) → Fields
  | .ok (some value) => insertVar vars name value
  | .ok none => vars
  | .error failure => insertVar vars name (.str failure.display)

theorem extract_ok {pattern source : String} {regex : CompiledRegex Regex FancyRegex}
    (compiles : compileRegex engine pattern = .ok regex) :
    extract engine pattern source = if isGlobal pattern then (regex.findAll engine source).map fun values => some (.arr values)
      else (regex.captured engine source).map fun capture => capture.bind qdFirstValue := by
  unfold extract
  rw [compiles]
  change (if isGlobal pattern then _ else regex.first engine source) = _
  cases isGlobal pattern with
  | true =>
    cases finds : regex.findAll engine source <;> rfl
  | false =>
    unfold CompiledRegex.first
    cases regex.captured engine source <;> rfl

/-- The cases of an extraction are those the code distinguishes. -/
theorem extracted_iff {vars after : Fields} {rule : QdExtractRule}
    (active : ¬(rule.rule.re = "" ∨ trimmed rule.name = "")) : Extracted engine executor answer vars rule after ↔
    ∃ pattern, rendered executor vars rule.rule.re = .ok pattern ∧
      after = stored vars rule.name (extract engine pattern (answer.source rule.rule)) := by
  constructor
  · intro step
    cases step with
    | placeholder idle => exact absurd idle active
    | refused _ renders refuses => exact ⟨_,renders,by rw [extract_error engine refuses]; rfl⟩
    | gaveUp _ renders compiles stops =>
      refine ⟨_,renders,?_⟩
      rw [extract_ok compiles]
      split at stops
      next global =>
        rw [if_pos global,stops]
        rfl
      next single =>
        rw [if_neg single,stops]
        rfl
    | all _ renders compiles global finds =>
      refine ⟨_,renders,?_⟩
      rw [extract_ok compiles,if_pos global,finds]
      rfl
    | first _ renders compiles single finds reads =>
      refine ⟨_,renders,?_⟩
      rw [extract_ok compiles,if_neg (Bool.eq_false_iff.mp single),finds]
      exact congrArg (fun value => stored vars rule.name (.ok value)) reads.symm
    | unmatched _ renders compiles single finds =>
      refine ⟨_,renders,?_⟩
      rw [extract_ok compiles,if_neg (Bool.eq_false_iff.mp single),finds]
      rfl
  · rintro ⟨pattern,renders,rfl⟩
    cases run : extract engine pattern (answer.source rule.rule) with
    | error failure => exact extract_failed active renders run
    | ok outcome =>
      have done := extract_done active renders run
      cases outcome with
      | none => exact done
      | some value => exact done

theorem extractRule_run {state : Execution} {rule : QdExtractRule} {pattern : String}
    (active : ¬(rule.rule.re = "" ∨ trimmed rule.name = ""))
    (renders : rendered executor state.context.vars rule.rule.re = .ok pattern) :
    extractRule (withEngine engine executor).services answer.status answer.headers answer.content rule state =
      (.ok (),bound state (stored state.context.vars rule.name (extract engine pattern (answer.source rule.rule)))) := by
  unfold extractRule
  rw [if_neg (by simpa using active),Effect.read_bind,Effect.lift_bind]
  rw [show (withEngine engine executor).services.render rule.rule.re state.context = .ok pattern from renders]
  change (match extract engine pattern (answer.source rule.rule) with
    | .ok (some value) => setVar rule.name value
    | .ok none => pure ()
    | .error failure => setVar rule.name (.str (Failure.display failure))) state = _
  cases extract engine pattern (answer.source rule.rule) with
  | error failure => rfl
  | ok outcome => cases outcome <;> rfl

/-- One extraction of the loop: it ends with the variables of the rule, or its pattern does not render. -/
theorem extractRule_ok {state after : Execution} {rule : QdExtractRule} :
    extractRule (withEngine engine executor).services answer.status answer.headers answer.content rule state =
      (.ok (),after) ↔ ∃ vars, Extracted engine executor answer state.context.vars rule vars ∧ after = bound state vars := by
  by_cases idle : rule.rule.re = "" ∨ trimmed rule.name = ""
  · have skips : extractRule (withEngine engine executor).services answer.status answer.headers answer.content rule state =
        (.ok (),state) := by
      unfold extractRule
      rw [if_pos (by simpa using idle)]
      rfl
    rw [skips]
    constructor
    · intro same
      cases same
      exact ⟨_,.placeholder idle,rfl⟩
    · rintro ⟨vars,step,rfl⟩
      cases step with
      | placeholder => rfl
      | refused active => exact absurd idle active
      | gaveUp active => exact absurd idle active
      | all active => exact absurd idle active
      | first active => exact absurd idle active
      | unmatched active => exact absurd idle active
  · simp only [extracted_iff idle]
    constructor
    · intro done
      cases renders : rendered executor state.context.vars rule.rule.re with
      | error failure =>
        unfold extractRule at done
        rw [if_neg (by simpa using idle),Effect.read_bind,Effect.lift_bind_ok] at done
        obtain ⟨pattern,absurd,_⟩ := done
        cases renders.symm.trans absurd
      | ok pattern =>
        rw [extractRule_run idle renders] at done
        cases done
        exact ⟨_,⟨pattern,rfl,rfl⟩,rfl⟩
    · rintro ⟨_,⟨pattern,renders,rfl⟩,rfl⟩
      exact extractRule_run idle renders

theorem Extracted.unique {vars one other : Fields} {rule : QdExtractRule}
    (left : Extracted engine executor answer vars rule one) (right : Extracted engine executor answer vars rule other) :
    one = other := by
  have runs (after : Execution) := @extractRule_ok _ _ engine executor answer ⟨.withLimits vars 0 0,[],[],0,0⟩ after rule
  have outcomes := Prod.mk.inj (((runs _).mpr ⟨one,left,rfl⟩).symm.trans ((runs _).mpr ⟨other,right,rfl⟩))
  exact congrArg (fun state : Execution => state.context.vars) outcomes.2

theorem extracts_iff (rules : List QdExtractRule) {vars : Fields} :
    (∃ after, Extracts engine executor answer vars rules after) ↔ Renders engine executor answer vars rules := by
  induction rules generalizing vars with
  | nil =>
    refine ⟨fun _ before _ _ _ absurd => ?_,fun _ => ⟨vars,.nil vars⟩⟩
    cases before <;> cases absurd
  | cons rule rest ih =>
    constructor
    · rintro ⟨after,steps⟩ before found behind middle split earlier active
      cases steps with
      | cons one others =>
        cases before with
        | nil =>
          cases split
          cases earlier
          obtain ⟨pattern,renders,_⟩ := (extracted_iff active).mp one
          exact ⟨pattern,renders⟩
        | cons first before =>
          cases split
          cases earlier with
          | cons again earlier =>
            cases one.unique again
            exact ih.mp ⟨after,others⟩ before found behind middle rfl earlier active
    · intro renders
      have one : ∃ middle, Extracted engine executor answer vars rule middle := by
        by_cases idle : rule.rule.re = "" ∨ trimmed rule.name = ""
        · exact ⟨vars,.placeholder idle⟩
        · obtain ⟨pattern,same⟩ := renders [] rule rest vars rfl (.nil vars) idle
          exact ⟨_,(extracted_iff idle).mpr ⟨pattern,same,rfl⟩⟩
      obtain ⟨middle,one⟩ := one
      obtain ⟨after,others⟩ := ih.mpr fun before found behind last split earlier =>
        renders (rule :: before) found behind last (congrArg (rule :: ·) split) (.cons one earlier)
      exact ⟨after,.cons one others⟩

/-- The loop over the extractions. -/
theorem extractions_ok (rules : List QdExtractRule) {state after : Execution} :
    Effect.each (extractRule (withEngine engine executor).services answer.status answer.headers answer.content) rules
      state = (.ok (),after) ↔ ∃ vars, Extracts engine executor answer state.context.vars rules vars ∧
        after = bound state vars := by
  induction rules generalizing state with
  | nil =>
    constructor
    · intro same
      cases same
      exact ⟨_,.nil _,rfl⟩
    · rintro ⟨vars,step,rfl⟩
      cases step
      rfl
  | cons rule rest ih =>
    change (extractRule _ _ _ _ rule >>= fun _ => Effect.each _ rest) state = _ ↔ _
    rw [Effect.bind_ok]
    constructor
    · rintro ⟨_,middle,first,later⟩
      obtain ⟨vars,one,rfl⟩ := extractRule_ok.mp first
      obtain ⟨last,others,rfl⟩ := ih.mp later
      exact ⟨last,.cons one others,rfl⟩
    · rintro ⟨last,steps,rfl⟩
      cases steps with
      | cons one others => exact ⟨(),_,extractRule_ok.mpr ⟨_,one,rfl⟩,ih.mpr ⟨last,others,rfl⟩⟩

end Extractions

section Response

variable {Regex FancyRegex : Type} (engine : Engine Regex FancyRegex) (executor : QdExecutor) (entry : QdHarEntry)
  (url digest : String) (response : Response) (stored : Bool) (state : Execution)

/-- The response has become the last one. -/
def arrived : Execution :=
  { state with context := { state.context with
    lastStatus := some response.status
    lastHeaders := response.headers
    lastBody := (answerOf executor.services response).content } }

/-- What `finish_response` does, by the outcomes of its parts. -/
theorem finishResponse_ok {result : StepResult} {after : Execution} :
    finishResponse (withEngine engine executor) entry url digest response stored state = (.ok result,after) ↔
      response.body.length ≤ executor.responseLimit ∧
      Succeeds engine executor (answerOf executor.services response) state.context.vars entry.successAsserts ∧
      Passes engine executor (answerOf executor.services response) state.context.vars entry.failedAsserts ∧
      (∃ vars, Extracts engine executor (answerOf executor.services response) state.context.vars
        entry.extractVariables vars ∧ after = bound (arrived executor response state) vars) ∧
      appConf url (answerOf executor.services response) = false ∧
      result = ⟨url,response.status,response.body.length⟩ := by
  unfold finishResponse
  rw [Effect.ensure_bind_ok]
  refine and_congr decide_eq_true_iff ?_
  unfold setContext
  rw [Effect.modify_bind,Effect.read_bind,Effect.lift_bind_ok]
  have success := successRules_ok engine executor (answerOf executor.services response) (arrived executor response state).context
    entry.successAsserts
  have failed := failedRules_ok engine executor (answerOf executor.services response) (arrived executor response state).context
    entry.failedAsserts
  have extractions {last : Execution} := @extractions_ok _ _ engine executor (answerOf executor.services response)
    entry.extractVariables (arrived executor response state) last
  constructor
  · rintro ⟨_,checked,later⟩
    obtain ⟨_,unfailed,later⟩ := Effect.lift_bind_ok.mp later
    obtain ⟨_,middle,extracts,later⟩ := Effect.bind_ok.mp later
    obtain ⟨guard,later⟩ := Effect.ensure_bind_ok.mp later
    obtain ⟨vars,steps,rfl⟩ := extractions.mp extracts
    cases later
    exact ⟨success.mp (mapError_ok.mp checked),failed.mp (mapError_ok.mp unfailed),⟨vars,steps,rfl⟩,
      (Bool.not_eq_true' _).mp guard,rfl⟩
  · rintro ⟨succeeds,passes,⟨vars,steps,rfl⟩,guard,rfl⟩
    refine ⟨(),mapError_ok.mpr (success.mpr succeeds),?_⟩
    refine Effect.lift_bind_ok.mpr ⟨(),mapError_ok.mpr (failed.mpr passes),?_⟩
    refine Effect.bind_ok.mpr ⟨(),_,extractions.mpr ⟨vars,steps,rfl⟩,?_⟩
    exact Effect.ensure_bind_ok.mpr ⟨(Bool.not_eq_true' _).mpr guard,rfl⟩

/-- A response that fails its assertions leaves the variables alone. -/
theorem finishResponse_failed (fails : ¬(Succeeds engine executor (answerOf executor.services response) state.context.vars
      entry.successAsserts ∧
      Passes engine executor (answerOf executor.services response) state.context.vars entry.failedAsserts)) :
    (finishResponse (withEngine engine executor) entry url digest response stored state).2.context.vars =
      state.context.vars := by
  have success := successRules_ok engine executor (answerOf executor.services response) (arrived executor response state).context
    entry.successAsserts
  have failed := failedRules_ok engine executor (answerOf executor.services response) (arrived executor response state).context
    entry.failedAsserts
  unfold finishResponse
  rw [Effect.ensure_bind]
  split
  · unfold setContext
    rw [Effect.modify_bind,Effect.read_bind,Effect.lift_bind]
    split
    next _ checked =>
      rw [Effect.lift_bind]
      split
      next _ unfailed => exact absurd ⟨success.mp (mapError_ok.mp checked),failed.mp (mapError_ok.mp unfailed)⟩ fails
      next => rfl
    next => rfl
  · rfl

variable {engine executor entry url digest response stored state}

/-- A response that is not the empty answer of the login service is accepted exactly when it fits, the success rules
are empty or one matches behind decided ones, no failed rule matches, and the patterns of the extractions render, each
with the variables of those before it. Otherwise the assertions change no variable. -/
theorem finish_response_iff (guard : appConf url (answerOf executor.services response) = false) :
    ((∃ result, (finishResponse (withEngine engine executor) entry url digest response stored state).1 = .ok result) ↔
      response.body.length ≤ executor.responseLimit ∧
      Succeeds engine executor (answerOf executor.services response) state.context.vars entry.successAsserts ∧
      Passes engine executor (answerOf executor.services response) state.context.vars entry.failedAsserts ∧
      Renders engine executor (answerOf executor.services response) state.context.vars entry.extractVariables) ∧
    (∀ result, (finishResponse (withEngine engine executor) entry url digest response stored state).1 = .ok result →
      Extracts engine executor (answerOf executor.services response) state.context.vars entry.extractVariables
        (finishResponse (withEngine engine executor) entry url digest response stored state).2.context.vars) ∧
    (¬(Succeeds engine executor (answerOf executor.services response) state.context.vars entry.successAsserts ∧
        Passes engine executor (answerOf executor.services response) state.context.vars entry.failedAsserts) →
      (finishResponse (withEngine engine executor) entry url digest response stored state).2.context.vars =
        state.context.vars) := by
  refine ⟨⟨?_,?_⟩,?_,finishResponse_failed engine executor entry url digest response stored state⟩
  · rintro ⟨result,done⟩
    obtain ⟨fits,success,failed,⟨vars,steps,_⟩,_⟩ := (finishResponse_ok engine executor entry url digest response stored
      state).mp (Prod.ext done rfl)
    exact ⟨fits,success,failed,(extracts_iff _).mp ⟨vars,steps⟩⟩
  · rintro ⟨fits,success,failed,renders⟩
    obtain ⟨vars,steps⟩ := (extracts_iff _).mpr renders
    have run := (finishResponse_ok engine executor entry url digest response stored state).mpr
      ⟨fits,success,failed,⟨vars,steps,rfl⟩,guard,rfl⟩
    exact ⟨_,congrArg Prod.fst run⟩
  · intro result done
    cases run : finishResponse (withEngine engine executor) entry url digest response stored state with
    | mk outcome after =>
      rw [run] at done
      cases done
      obtain ⟨_,_,_,⟨vars,steps,rfl⟩,_⟩ := (finishResponse_ok engine executor entry url digest response stored state).mp run
      exact steps


/-- An engine for literal patterns. -/
def literal : Engine String Empty where
  build := fun _ _ body => if body = "[" then .error "unclosed character class" else .ok (.linear body)
  debug := fun pattern => "\x22" ++ pattern ++ "\x22"
  isMatch := fun pattern source => source = pattern
  captures := fun pattern source => if source = pattern then some ⟨source,[]⟩ else none
  capturesIter := fun pattern source => if source = pattern then [⟨source,[]⟩] else []
  fancyIsMatch := nofun
  fancyCaptures := nofun
  fancyCapturesIter := nofun

/-- A page with a refused extraction. -/
def page : QdHarEntry :=
  ⟨true,none,⟨"GET","http://host/",[],[],none⟩,[⟨"200","status"⟩],[⟨"500","status"⟩],[⟨"token",⟨"[","content"⟩⟩]⟩

def visitor : QdExecutor := ⟨Services.offline,⟨false,none⟩,10,1,1⟩

def opened : Execution := ⟨.withLimits [] 1 1,[],[],0,0⟩

theorem page_answered : Extracts literal visitor (answerOf visitor.services ⟨200,[],[]⟩) opened.context.vars
    page.extractVariables (finishResponse (withEngine literal visitor) page "http://host/" "GET" ⟨200,[],[]⟩ false
      opened).2.context.vars :=
  (@finish_response_iff _ _ literal visitor page "http://host/" "GET" ⟨200,[],[]⟩ false opened rfl).2.1 ⟨"http://host/",200,0⟩ rfl

end Response
end Qdrust.Executor.Finish
