import Qdrust.Executor.Assignments
import Qdrust.Executor.WhileLimit

/-! What the loop variables say where a block of a program is about to run. -/
namespace Qdrust.Executor
open Library Effect Har

/-- The names the loops keep their own state in. -/
def loopName (name : String) : Bool := hasPrefix name "loop_"

mutual
/-- No target and no extraction has the name of a loop variable. -/
def plainNames : QdBlock → Bool
  | .request entry => entry.extractVariables.all fun rule => !loopName rule.name
  | .ifElse _ thenBlocks elseBlocks => plainBlocks thenBlocks && plainBlocks elseBlocks
  | .forLoop target _ body => !loopName target && plainBlocks body
  | .whileLoop _ body => plainBlocks body
def plainBlocks : List QdBlock → Bool
  | [] => true
  | block :: rest => plainNames block && plainBlocks rest
end

mutual
/-- How many loops are within each other. -/
def nesting : QdBlock → Nat
  | .request _ => 0
  | .ifElse _ thenBlocks elseBlocks => max (nestings thenBlocks) (nestings elseBlocks)
  | .forLoop _ _ body | .whileLoop _ body => nestings body + 1
def nestings : List QdBlock → Nat
  | [] => 0
  | block :: rest => max (nesting block) (nestings rest)
end

mutual
/-- A block that begins no round of a loop when it runs. -/
def Roundless (executor : QdExecutor) : QdBlock → Execution → Prop
  | .request _,_ => True
  | .ifElse condition thenBlocks elseBlocks,state => match (evaluateBool executor.services condition state).1 with
    | .ok true => RoundlessBlocks executor thenBlocks state
    | .ok false => RoundlessBlocks executor elseBlocks state
    | .error _ => True
  | .forLoop _ source _,state => loopValues executor.services source state.context.vars = .ok []
  | .whileLoop _ _,state => state.context.loopLimit = 0
def RoundlessBlocks (executor : QdExecutor) : List QdBlock → Execution → Prop
  | [],_ => True
  | block :: rest,state => Roundless executor block state ∧ RoundlessBlocks executor rest (executeBlock executor block state).2
end

/-- The round a loop is in, `limit` being the rounds a `while` may have. -/
inductive Round where
  | listed (index length : Nat)
  | repeated (index limit : Nat)

def Round.within : Round → Prop
  | .listed index length | .repeated index length => index < length

/-- A run comes to a block: the rounds it is in, innermost first, whether no other loop has
begun a round since the innermost one began, and the state. -/
inductive Comes (executor : QdExecutor) :
    List Round → Prop → List QdBlock → Execution → List Round → Prop → QdBlock → Execution → Prop where
  | here {rounds : List Round} {calm : Prop} {block : QdBlock} {rest : List QdBlock} {state : Execution} :
    Comes executor rounds calm (block :: rest) state rounds calm block state
  | later {rounds rounds' : List Round} {calm calm' : Prop} {block site : QdBlock} {rest : List QdBlock}
    {state after last : Execution} (ran : executeBlock executor block state = (.ok (),after))
    (comes : Comes executor rounds (calm ∧ Roundless executor block state) rest after rounds' calm' site last) :
    Comes executor rounds calm (block :: rest) state rounds' calm' site last
  | branch {rounds rounds' : List Round} {calm calm' : Prop} {condition : String} {thenBlocks elseBlocks : List QdBlock}
    {site : QdBlock} {rest : List QdBlock} {state last : Execution} {holds : Bool}
    (decided : (evaluateBool executor.services condition state).1 = .ok holds)
    (comes : Comes executor rounds calm (if holds then thenBlocks else elseBlocks) state rounds' calm' site last) :
    Comes executor rounds calm (.ifElse condition thenBlocks elseBlocks :: rest) state rounds' calm' site last
  | listed {rounds rounds' : List Round} {calm calm' : Prop} {target source : String} {body : List QdBlock}
    {site : QdBlock} {rest : List QdBlock} {state before bound last : Execution} {values : List Json} {index : Nat}
    (found : loopValues executor.services source state.context.vars = .ok values)
    (room : values.length ≤ state.context.loopLimit)
    (past : Repeats (takes target values) (runBody executor body state.loops) 0 index (entered state) before)
    (next : takes target values index before = (.ok true,bound))
    (comes : Comes executor (.listed index values.length :: rounds) True body
      (emit (.iteration state.loops) bound).2 rounds' calm' site last) :
    Comes executor rounds calm (.forLoop target source body :: rest) state rounds' calm' site last
  | repeated {rounds rounds' : List Round} {calm calm' : Prop} {condition : String} {body : List QdBlock}
    {site : QdBlock} {rest : List QdBlock} {state before checked last : Execution} {index : Nat}
    (within : index < state.context.loopLimit)
    (past : Repeats (asks executor condition state.context.loopLimit) (runBody executor body state.loops) 0 index
      (entered state) before)
    (next : asks executor condition state.context.loopLimit index before = (.ok true,checked))
    (comes : Comes executor (.repeated index state.context.loopLimit :: rounds) True body
      (emit (.iteration state.loops) checked).2 rounds' calm' site last) :
    Comes executor rounds calm (.whileLoop condition body :: rest) state rounds' calm' site last

/-- The variables of round `i` of `n`. -/
structure Numbered (i n : Nat) (vars : Fields) : Prop where
  index0 : vars.text "loop_index0" = some (toString i)
  index : vars.text "loop_index" = some (toString (i + 1))
  first : vars.text "loop_first" = some (if i = 0 then "True" else "False")
  last : vars.text "loop_last" = some (if i + 1 = n then "True" else "False")
  length : vars.text "loop_length" = some (toString n)
  revindex0 : vars.text "loop_revindex0" = some (toString (n - i - 1))
  revindex : vars.text "loop_revindex" = some (toString (n - i))

/-- What the variables say of the rounds a block runs in. -/
structure Tells (rounds : List Round) (calm : Prop) (vars : Fields) : Prop where
  depth : loopDepth vars 0 = rounds.length
  text : rounds ≠ [] → vars.text "loop_depth" = some (toString rounds.length)
  listed : calm → ∀ index length outer, rounds = .listed index length :: outer → Numbered index length vars
  within : ∀ round ∈ rounds, round.within

section Rounds

variable {executor : QdExecutor} {condition target source : String} {body : List QdBlock} {values : List Json}

/-- What a sequence of values that is run through has done. -/
theorem forEachValue_repeats {loop index rest : Nat} {state last : Execution} (whole : index + rest = values.length)
    (done : forEachValue loop (fun index value => do
      setVar target value
      setVars (setLoopVariables index values.length)) (executeBlocks executor 0 body) index (values.drop index) state =
      (.ok (),last)) : Repeats (takes target values) (runBody executor body loop) index rest state last := by
  induction rest generalizing index state with
  | zero =>
    rw [List.drop_eq_nil_of_le (by omega)] at done
    cases done
    exact .none _ _
  | succ rest ih =>
    have there : index < values.length := by omega
    rw [List.drop_eq_getElem_cons there,forEachValue] at done
    obtain ⟨_,bound,binds,done⟩ := bind_ok.mp done
    obtain ⟨_,told,emitted,done⟩ := bind_ok.mp done
    obtain ⟨_,ran,runs,done⟩ := bind_ok.mp done
    have next : takes target values index state = (.ok true,bound) := by
      rw [takes,List.getElem?_eq_getElem there]
      obtain ⟨_,middle,named,numbered⟩ := bind_ok.mp binds
      exact bind_ok.mpr ⟨_,_,named,bind_ok.mpr ⟨_,_,numbered,rfl⟩⟩
    exact .more next (bind_ok.mpr ⟨_,_,emitted,runs⟩) (ih (by omega) done)

theorem for_ran {state after : Execution} (ran : executeBlock executor (.forLoop target source body) state = (.ok (),after)) :
    ∃ values last, loopValues executor.services source state.context.vars = .ok values ∧
      values.length ≤ state.context.loopLimit ∧
      Repeats (takes target values) (runBody executor body state.loops) 0 values.length (entered state) last ∧
      after = left last := by
  cases found : loopValues executor.services source state.context.vars with
  | error failure =>
    rw [executeBlock,read_bind,found] at ran
    cases ran
  | ok values =>
    by_cases room : values.length ≤ state.context.loopLimit
    · rw [executeBlock_for found room] at ran
      obtain ⟨_,last,runs,done⟩ := bind_ok.mp ran
      cases done
      exact ⟨values,last,rfl,room,forEachValue_repeats (Nat.zero_add _) runs,rfl⟩
    · rw [executeBlock,read_bind,found] at ran
      change (Effect.ensure (decide (values.length ≤ state.context.loopLimit)) _ >>= _) state = _ at ran
      rw [ensure_bind,if_neg (by simpa using room)] at ran
      cases ran

theorem whileTrue_ran {limit loop index rest : Nat} {state last : Execution} (same : state.context.loopLimit = limit)
    (whole : index + rest = limit)
    (ran : whileTrue loop (evaluateBool executor.services condition) (executeBlocks executor 0 body) index rest state =
      (.ok (),last)) :
    (rest = 0 ∧ last = state) ∨ ∃ count before,
      Repeats (asks executor condition limit) (runBody executor body loop) index count state before ∧
      index + count < limit ∧ asks executor condition limit (index + count) before = (.ok false,last) := by
  induction rest generalizing index state with
  | zero =>
    cases ran
    exact .inl ⟨rfl,rfl⟩
  | succ rest ih =>
    rw [whileTrue_round (by omega),same] at ran
    split at ran
    next => cases ran
    next checked asked =>
      cases ran
      exact .inr ⟨0,state,.none _ _,by omega,asked⟩
    next checked asked =>
      split at ran
      next => cases ran
      next after runs =>
        split at ran
        next => cases ran
        next more =>
          rcases ih (round_limit same asked runs) (by omega) ran with ⟨none,-⟩ | ⟨count,before,repeats,within,turned⟩
          · omega
          · refine .inr ⟨count + 1,before,.more asked runs repeats,by omega,?_⟩
            rwa [show index + (count + 1) = index + 1 + count from by omega]

theorem while_ran {state after : Execution} (ran : executeBlock executor (.whileLoop condition body) state = (.ok (),after)) :
    (state.context.loopLimit = 0 ∧ after = left (entered state)) ∨ ∃ count before checked,
      Repeats (asks executor condition state.context.loopLimit) (runBody executor body state.loops) 0 count (entered state)
        before ∧ count < state.context.loopLimit ∧
      asks executor condition state.context.loopLimit count before = (.ok false,checked) ∧ after = left checked := by
  rw [executeBlock_while] at ran
  obtain ⟨_,last,runs,done⟩ := bind_ok.mp ran
  cases done
  rcases whileTrue_ran (limit_entered state) (Nat.zero_add _) runs with ⟨none,rfl⟩ | ⟨count,before,repeats,within,turned⟩
  · exact .inl ⟨none,rfl⟩
  · rw [Nat.zero_add] at within turned
    exact .inr ⟨count,before,last,repeats,within,turned,rfl⟩

end Rounds

section Depth

variable {vars : Fields}

/-- A number is read as it was written. -/
theorem parseUsize_toString {n : Nat} (small : n < 2 ^ 64) : parseUsize (toString n) = some n := by
  have chars : (toString n).toList = Nat.toDigits 10 n := Nat.toList_repr
  have digits : ∀ c ∈ Nat.toDigits 10 n, c.isDigit = true := fun c there =>
    Nat.isDigit_of_mem_toDigits (by decide) (by decide) there
  have unsigned : Text.stripPrefix (toString n) "+" = none := by
    rw [Text.stripPrefix,chars]
    cases parts : Nat.toDigits 10 n with
    | nil => rfl
    | cons c rest =>
      have digit := digits c (by rw [parts]; exact List.mem_cons_self ..)
      have other : ('+' == c) = false := by
        rw [beq_eq_false_iff_ne]
        rintro rfl
        exact absurd digit (by decide)
      simp [List.isPrefixOf?,other]
  have some : toString n ≠ "" := by
    intro none
    have empty := congrArg String.toList none
    rw [chars] at empty
    exact Nat.toDigits_ne_nil empty
  have read : (toString n).toList.foldl (fun value c => value * 10 + (c.toNat - 48)) 0 = n := by
    have back := Nat.ofDigitChars_ten_toDigits (n := n)
    rw [Nat.ofDigitChars_eq_foldl] at back
    rw [chars]
    conv_rhs => rw [← back]
    congr 1
    funext value c
    rw [Nat.mul_comm]
    rfl
  simp only [parseUsize,unsigned,Option.getD_none,read]
  rw [if_pos (by simpa using digits),if_pos small]

theorem numbered_set (i n : Nat) (vars : Fields) : Numbered i n (setLoopVariables i n vars) := by
  constructor <;> simp [setLoopVariables,Fields.text_eq,get_insertVar,Json.asStr]

theorem depth_of_text {d unset : Nat} (small : d < 2 ^ 64) (text : vars.text "loop_depth" = some (toString d)) :
    loopDepth vars unset = d := by
  rw [loopDepth,text,Option.bind_some,parseUsize_toString small]
  rfl

theorem enterLoop_text (vars : Fields) :
    (enterLoop vars).text "loop_depth" = some (toString (loopDepth vars 0 + 1)) := by
  simp [enterLoop,Fields.text_eq,get_insertVar,Json.asStr]

theorem leaveLoop_text (vars : Fields) :
    (leaveLoop vars).text "loop_depth" = some (toString (loopDepth vars 1 - 1)) := by
  simp [leaveLoop,Fields.text_eq,get_insertVar,Json.asStr]

/-- The variables but for the depth. -/
def Counters (name : String) : Prop := loopName name = true ∧ name ≠ "loop_depth" ∧ name ≠ "loop_depth0"

theorem enterLoop_get {name : String} (counter : Counters name) (vars : Fields) :
    (enterLoop vars).get name = vars.get name := by
  simp [enterLoop,get_insertVar,counter.2.1,counter.2.2]

theorem leaveLoop_get {name : String} (counter : Counters name) (vars : Fields) :
    (leaveLoop vars).get name = vars.get name := by
  simp [leaveLoop,get_insertVar,counter.2.1,counter.2.2]

theorem setLoopVariables_depth (i n : Nat) (vars : Fields) :
    (setLoopVariables i n vars).text "loop_depth" = vars.text "loop_depth" := by
  simp [setLoopVariables,Fields.text_eq,get_insertVar]

end Depth

section Kept

variable (executor : QdExecutor)

/-- The depth is what it was, or is written out as the number it was. -/
def Restored (before after : Fields) : Prop :=
  after.text "loop_depth" = before.text "loop_depth" ∨ after.text "loop_depth" = some (toString (loopDepth before 0))

variable {executor} {before middle after : Fields}

theorem Restored.depth (restored : Restored before after) (small : loopDepth before 0 < 2 ^ 64) :
    loopDepth after 0 = loopDepth before 0 := by
  rcases restored with same | written
  · rw [loopDepth,same,loopDepth]
  · exact depth_of_text small written

theorem Restored.trans (first : Restored before middle) (second : Restored middle after)
    (small : loopDepth before 0 < 2 ^ 64) : Restored before after := by
  rcases second with same | written
  · rcases first with same' | written'
    · exact .inl (same.trans same')
    · exact .inr (same.trans written')
  · exact .inr (by rw [written,first.depth small])

theorem Restored.text (restored : Restored before after) {d : Nat} (small : d < 2 ^ 64)
    (written : before.text "loop_depth" = some (toString d)) : after.text "loop_depth" = some (toString d) := by
  rcases restored with same | again
  · exact same.trans written
  · rw [again,depth_of_text small written]

theorem restored_of_untouched {state last : Execution} (untouched : Untouched (fun name => loopName name = true) state last) :
    Restored state.context.vars last.context.vars := by
  left
  rw [Fields.text_eq,Fields.text_eq,untouched "loop_depth" rfl]

theorem request_untouched {entry : QdHarEntry} (plain : plainNames (.request entry) = true) {state after : Execution}
    (ran : executeBlock executor (.request entry) state = (.ok (),after)) :
    Untouched (fun name => loopName name = true) state after := by
  rw [plainNames,List.all_eq_true] at plain
  have rules : ∀ rule ∈ entry.extractVariables, ¬loopName rule.name = true := by
    intro rule listed named
    have other := plain rule listed
    rw [named] at other
    cases other
  have moves : Moves (Untouched fun name => loopName name = true) (executeBlock executor (.request entry)) := by
    rw [executeBlock]
    refine moves_bind untouched_trans (untouched_executeRequest executor (by decide) rules) fun result => ?_
    exact fun _ => untouched_same rfl
  have kept := moves state
  rwa [ran] at kept

/-- The state with other variables. -/
def withVars (state : Execution) (vars : Fields) : Execution := { state with context := { state.context with vars := vars } }

theorem withVars_vars (state : Execution) (vars : Fields) : (withVars state vars).context.vars = vars := rfl

/-- The variables at the start of a round. -/
theorem takes_eq (target : String) {values : List Json} {index : Nat} (there : index < values.length) (state : Execution) :
    takes target values index state = (.ok true,withVars state
      (setLoopVariables index values.length (insertVar state.context.vars target values[index]))) := by
  rw [takes,List.getElem?_eq_getElem there]
  rfl

theorem takes_vars {target : String} {values : List Json} {index : Nat} {state bound : Execution}
    (next : takes target values index state = (.ok true,bound)) : ∃ there : index < values.length,
      bound = withVars state (setLoopVariables index values.length (insertVar state.context.vars target values[index])) := by
  rcases Nat.lt_or_ge index values.length with there | past
  · rw [takes_eq target there] at next
    exact ⟨there,(Prod.mk.inj next).2.symm⟩
  · rw [takes,List.getElem?_eq_none past] at next
    cases next

theorem asks_vars {condition : String} {limit index : Nat} {holds : Bool} {state checked : Execution}
    (within : index < limit) (next : asks executor condition limit index state = (.ok holds,checked)) :
    checked = withVars state (setLoopVariables index limit state.context.vars) := by
  have same : asks executor condition limit index state =
      evaluateBool executor.services condition (withVars state (setLoopVariables index limit state.context.vars)) := by
    rw [asks_within within]
    rfl
  rw [same,evaluateBool_eq] at next
  exact (Prod.mk.inj next).2.symm

theorem target_ne {target name : String} (plain : loopName target = false) (named : loopName name = true) : name ≠ target := by
  rintro rfl
  rw [plain] at named
  cases named

theorem depth_takes {target : String} {values : List Json} (plain : loopName target = false) {index d : Nat}
    {state bound : Execution} (deep : state.context.vars.text "loop_depth" = some (toString d))
    (next : takes target values index state = (.ok true,bound)) :
    bound.context.vars.text "loop_depth" = some (toString d) := by
  obtain ⟨there,rfl⟩ := takes_vars next
  rw [withVars,setLoopVariables_depth,Fields.text_eq,get_insertVar,if_neg (target_ne plain (by decide))]
  exact deep

theorem depth_asks {condition : String} {limit index d : Nat} {holds : Bool} {state checked : Execution}
    (deep : state.context.vars.text "loop_depth" = some (toString d))
    (next : asks executor condition limit index state = (.ok holds,checked)) :
    checked.context.vars.text "loop_depth" = some (toString d) := by
  by_cases within : index < limit
  · rw [asks_vars within next,withVars,setLoopVariables_depth]
    exact deep
  · rw [asks_past (by omega),evaluateBool_eq] at next
    rw [← (Prod.mk.inj next).2]
    exact deep

theorem depth_body {body : List QdBlock} {loop d : Nat} (small : d + nestings body < 2 ^ 64)
    (restores : ∀ state after, loopDepth state.context.vars 0 + nestings body < 2 ^ 64 →
      executeBlocks executor 0 body state = (.ok (),after) → Restored state.context.vars after.context.vars)
    {state ran : Execution} (deep : state.context.vars.text "loop_depth" = some (toString d))
    (runs : runBody executor body loop state = (.ok (),ran)) :
    ran.context.vars.text "loop_depth" = some (toString d) := by
  obtain ⟨_,told,emitted,runs⟩ := bind_ok.mp runs
  cases emitted
  have depth : loopDepth state.context.vars 0 = d := depth_of_text (by omega) deep
  refine Restored.text (restores _ _ ?_ runs) (by omega) deep
  change loopDepth state.context.vars 0 + _ < _
  omega

/-- Around the rounds of a loop. -/
theorem restored_loop {state last : Execution} (small : loopDepth state.context.vars 0 + 1 < 2 ^ 64)
    (deep : last.context.vars.text "loop_depth" = some (toString (loopDepth state.context.vars 0 + 1))) :
    Restored state.context.vars (left last).context.vars := by
  right
  change (leaveLoop last.context.vars).text "loop_depth" = _
  rw [leaveLoop_text,depth_of_text small deep,Nat.add_sub_cancel]

theorem depth_entered (state : Execution) :
    (entered state).context.vars.text "loop_depth" = some (toString (loopDepth state.context.vars 0 + 1)) :=
  enterLoop_text state.context.vars

/-- A branch is run in the state its condition is evaluated in. -/
theorem branch_ran {condition : String} {thenBlocks elseBlocks : List QdBlock} {state after : Execution}
    (ran : executeBlock executor (.ifElse condition thenBlocks elseBlocks) state = (.ok (),after)) :
    ∃ holds, executor.services.evaluateBool condition state.context.vars = .ok holds ∧
      executeBlocks executor 0 (if holds then thenBlocks else elseBlocks) state = (.ok (),after) := by
  rw [executeBlock] at ran
  obtain ⟨holds,same,decided,ran⟩ := bind_ok.mp ran
  rw [evaluateBool_eq] at decided
  obtain ⟨answer,rfl⟩ := Prod.mk.inj decided
  refine ⟨holds,answer,?_⟩
  cases holds <;> exact ran

theorem blocks_ran {index : Nat} {block : QdBlock} {rest : List QdBlock} {state after : Execution}
    (ran : executeBlocks executor index (block :: rest) state = (.ok (),after)) :
    ∃ middle, executeBlock executor block state = (.ok (),middle) ∧
      executeBlocks executor (index + 1) rest middle = (.ok (),after) := by
  rw [executeBlocks] at ran
  obtain ⟨_,middle,first,ran⟩ := bind_ok.mp ran
  refine ⟨middle,?_,ran⟩
  unfold mapError at first
  obtain ⟨outcome,rfl⟩ := Prod.mk.inj first
  refine Prod.ext ?_ rfl
  cases done : (executeBlock executor block state).1 with
  | ok value => rfl
  | error failure =>
    rw [done] at outcome
    cases outcome

mutual
theorem restored_block (block : QdBlock) (plain : plainNames block = true) {state after : Execution}
    (small : loopDepth state.context.vars 0 + nesting block < 2 ^ 64)
    (ran : executeBlock executor block state = (.ok (),after)) : Restored state.context.vars after.context.vars := by
  cases block with
  | request entry => exact restored_of_untouched (request_untouched plain ran)
  | ifElse condition thenBlocks elseBlocks =>
    rw [plainNames,Bool.and_eq_true] at plain
    rw [nesting] at small
    obtain ⟨holds,-,ran⟩ := branch_ran ran
    cases holds with
    | true => exact restored_blocks thenBlocks plain.1 (by omega) ran
    | false => exact restored_blocks elseBlocks plain.2 (by omega) ran
  | forLoop target source body =>
    rw [plainNames,Bool.and_eq_true,Bool.not_eq_true'] at plain
    rw [nesting] at small
    obtain ⟨values,last,found,room,repeats,rfl⟩ := for_ran ran
    refine restored_loop (by omega) (repeats.keeps (P := fun state' => state'.context.vars.text "loop_depth" =
      some (toString (loopDepth state.context.vars 0 + 1))) ?_ ?_ (depth_entered state))
    · exact fun index before bound deep next => depth_takes plain.1 deep next
    · exact fun before ran deep runs =>
        depth_body (by omega) (fun _ _ small ran => restored_blocks body plain.2 small ran) deep runs
  | whileLoop condition body =>
    rw [plainNames] at plain
    rw [nesting] at small
    rcases while_ran ran with ⟨none,rfl⟩ | ⟨count,before,checked,repeats,within,turned,rfl⟩
    · exact restored_loop (by omega) (depth_entered state)
    · refine restored_loop (by omega) (depth_asks ?_ turned)
      refine repeats.keeps (P := fun state' => state'.context.vars.text "loop_depth" =
        some (toString (loopDepth state.context.vars 0 + 1))) ?_ ?_ (depth_entered state)
      · exact fun index before checked deep next => depth_asks deep next
      · exact fun before ran deep runs =>
          depth_body (by omega) (fun _ _ small ran => restored_blocks body plain small ran) deep runs
theorem restored_blocks (blocks : List QdBlock) (plain : plainBlocks blocks = true) {index : Nat} {state after : Execution}
    (small : loopDepth state.context.vars 0 + nestings blocks < 2 ^ 64)
    (ran : executeBlocks executor index blocks state = (.ok (),after)) : Restored state.context.vars after.context.vars := by
  cases blocks with
  | nil =>
    cases ran
    exact .inl rfl
  | cons block rest =>
    rw [plainBlocks,Bool.and_eq_true] at plain
    rw [nestings] at small
    obtain ⟨middle,first,ran⟩ := blocks_ran ran
    have here := restored_block block plain.1 (by omega) first
    have depth := here.depth (by omega)
    exact here.trans (restored_blocks rest plain.2 (by omega) ran) (by omega)
end

theorem counters_left {name : String} (counter : Counters name) (state : Execution) :
    (left (entered state)).context.vars.get name = state.context.vars.get name := by
  change (leaveLoop (enterLoop state.context.vars)).get name = _
  rw [leaveLoop_get counter,enterLoop_get counter]

mutual
theorem counters_block (block : QdBlock) (plain : plainNames block = true) {state after : Execution}
    (roundless : Roundless executor block state) (ran : executeBlock executor block state = (.ok (),after)) {name : String}
    (counter : Counters name) : after.context.vars.get name = state.context.vars.get name := by
  cases block with
  | request entry => exact request_untouched plain ran name counter.1
  | ifElse condition thenBlocks elseBlocks =>
    rw [plainNames,Bool.and_eq_true] at plain
    obtain ⟨holds,decided,ran⟩ := branch_ran ran
    rw [Roundless,evaluateBool_eq,decided] at roundless
    cases holds with
    | true => exact counters_blocks thenBlocks plain.1 roundless ran counter
    | false => exact counters_blocks elseBlocks plain.2 roundless ran counter
  | forLoop target source body =>
    rw [Roundless] at roundless
    obtain ⟨values,last,found,room,repeats,rfl⟩ := for_ran ran
    cases roundless.symm.trans found
    cases repeats
    exact counters_left counter state
  | whileLoop condition body =>
    rw [Roundless] at roundless
    rcases while_ran ran with ⟨none,rfl⟩ | ⟨count,before,checked,repeats,within,turned,rfl⟩
    · exact counters_left counter state
    · omega
theorem counters_blocks (blocks : List QdBlock) (plain : plainBlocks blocks = true) {index : Nat} {state after : Execution}
    (roundless : RoundlessBlocks executor blocks state) (ran : executeBlocks executor index blocks state = (.ok (),after))
    {name : String} (counter : Counters name) : after.context.vars.get name = state.context.vars.get name := by
  cases blocks with
  | nil =>
    cases ran
    rfl
  | cons block rest =>
    rw [plainBlocks,Bool.and_eq_true] at plain
    obtain ⟨middle,first,ran⟩ := blocks_ran ran
    rw [RoundlessBlocks,first] at roundless
    exact (counters_blocks rest plain.2 roundless.2 ran counter).trans (counters_block block plain.1 roundless.1 first counter)
end

theorem Numbered.congr {i n : Nat} {vars other : Fields} (numbered : Numbered i n vars)
    (same : ∀ name, Counters name → other.get name = vars.get name) : Numbered i n other := by
  have texts : ∀ name, Counters name → other.text name = vars.text name := fun name counter => by
    rw [Fields.text_eq,Fields.text_eq,same name counter]
  obtain ⟨index0,index,first,last,length,revindex0,revindex⟩ := numbered
  constructor
  · rw [texts "loop_index0" (by unfold Counters; decide),index0]
  · rw [texts "loop_index" (by unfold Counters; decide),index]
  · rw [texts "loop_first" (by unfold Counters; decide),first]
  · rw [texts "loop_last" (by unfold Counters; decide),last]
  · rw [texts "loop_length" (by unfold Counters; decide),length]
  · rw [texts "loop_revindex0" (by unfold Counters; decide),revindex0]
  · rw [texts "loop_revindex" (by unfold Counters; decide),revindex]

/-- The start of a round of a loop. -/
theorem tells_round {rounds : List Round} {calm : Prop} {vars inner : Fields} {round : Round} (tells : Tells rounds calm vars)
    (small : rounds.length + 1 < 2 ^ 64) (deep : inner.text "loop_depth" = some (toString (rounds.length + 1)))
    (within : round.within) (numbered : ∀ i n, round = .listed i n → Numbered i n inner) :
    Tells (round :: rounds) True inner where
  depth := depth_of_text small deep
  text _ := deep
  listed _ i n outer same := numbered i n (List.cons.inj same).1
  within other there := by
    rcases List.mem_cons.mp there with rfl | there
    · exact within
    · exact tells.within other there

theorem comes_tells {rounds rounds' : List Round} {calm calm' : Prop} {blocks : List QdBlock} {site : QdBlock}
    {state last : Execution} (comes : Comes executor rounds calm blocks state rounds' calm' site last)
    (tells : Tells rounds calm state.context.vars) (plain : plainBlocks blocks = true)
    (small : rounds.length + nestings blocks < 2 ^ 64) :
    Tells rounds' calm' last.context.vars ∧ plainNames site = true ∧ rounds'.length + nesting site < 2 ^ 64 := by
  induction comes with
  | here =>
    rw [plainBlocks,Bool.and_eq_true] at plain
    rw [nestings] at small
    exact ⟨tells,plain.1,by omega⟩
  | @later rounds rounds' calm calm' block site rest state after last ran comes ih =>
    rw [plainBlocks,Bool.and_eq_true] at plain
    rw [nestings] at small
    have depth := tells.depth
    have restored := restored_block block plain.1 (by omega) ran
    refine ih ⟨(restored.depth (by omega)).trans depth,fun some => restored.text (by omega) (tells.text some),?_,
      tells.within⟩ plain.2 (by omega)
    rintro ⟨quiet,roundless⟩ i n outer same
    exact (tells.listed quiet i n outer same).congr fun name counter => counters_block block plain.1 roundless ran counter
  | @branch rounds rounds' calm calm' condition thenBlocks elseBlocks site rest state last holds decided comes ih =>
    rw [plainBlocks,plainNames,Bool.and_eq_true,Bool.and_eq_true] at plain
    rw [nestings,nesting] at small
    cases holds with
    | true => exact ih tells plain.1.1 (by rw [if_pos rfl]; omega)
    | false => exact ih tells plain.1.2 (by rw [if_neg (by decide)]; omega)
  | @listed rounds rounds' calm calm' target source body site rest state before bound last values index found room past next
      comes ih =>
    rw [plainBlocks,plainNames,Bool.and_eq_true,Bool.and_eq_true,Bool.not_eq_true'] at plain
    rw [nestings,nesting] at small
    have depth := tells.depth
    have deep : before.context.vars.text "loop_depth" = some (toString (rounds.length + 1)) := by
      refine past.keeps (P := fun state' => state'.context.vars.text "loop_depth" = some (toString (rounds.length + 1)))
        ?_ ?_ (by rw [← depth]; exact depth_entered state)
      · exact fun index before bound deep next => depth_takes plain.1.1 deep next
      · exact fun before ran deep runs =>
          depth_body (by omega) (fun _ _ small ran => restored_blocks body plain.1.2 small ran) deep runs
    have deeper := depth_takes plain.1.1 deep next
    obtain ⟨there,same⟩ := takes_vars next
    have numbered : Numbered index values.length bound.context.vars := by
      rw [same,withVars_vars]
      exact numbered_set index values.length _
    have told : Tells (.listed index values.length :: rounds) True bound.context.vars := by
      refine tells_round tells (by omega) deeper there ?_
      rintro i n ⟨⟩
      exact numbered
    exact ih told plain.1.2 (by rw [List.length_cons]; omega)
  | @repeated rounds rounds' calm calm' condition body site rest state before checked last index within past next comes ih =>
    rw [plainBlocks,plainNames,Bool.and_eq_true] at plain
    rw [nestings,nesting] at small
    have depth := tells.depth
    have deep : before.context.vars.text "loop_depth" = some (toString (rounds.length + 1)) := by
      refine past.keeps (P := fun state' => state'.context.vars.text "loop_depth" = some (toString (rounds.length + 1)))
        ?_ ?_ (by rw [← depth]; exact depth_entered state)
      · exact fun index before checked deep next => depth_asks deep next
      · exact fun before ran deep runs =>
          depth_body (by omega) (fun _ _ small ran => restored_blocks body plain.1 small ran) deep runs
    have deeper := depth_asks deep next
    refine ih (tells_round tells (by omega) deeper within ?_) plain.1 (by rw [List.length_cons]; omega)
    rintro i n ⟨⟩

end Kept

/-- The state the blocks of a program start from. -/
def begun (executor : QdExecutor) (context : ExecutionContext) : Execution :=
  Execution.initial { context with
    remainingRequests := min context.remainingRequests executor.requestLimit
    loopLimit := min context.loopLimit executor.loopLimit }

/-- Wherever a run comes to a block, the depth is the number of loops around it, and after the
block it is the same; in a round of a `for` the other variables are those of the round, as long
as no other loop has begun a round in it. -/
theorem loop_variables_told (executor : QdExecutor) (program : QdProgram) (context : ExecutionContext)
    (plain : plainBlocks program.blocks = true) (unset : loopDepth context.vars 0 = 0)
    (small : nestings program.blocks < 2 ^ 64) {rounds : List Round} {calm : Prop} {site : QdBlock} {state : Execution}
    (comes : Comes executor [] True program.blocks (begun executor context) rounds calm site state) :
    Tells rounds calm state.context.vars ∧ ∀ after, executeBlock executor site state = (.ok (),after) →
      loopDepth after.context.vars 0 = rounds.length := by
  have start : Tells [] True (begun executor context).context.vars :=
    ⟨unset,fun some => absurd rfl some,by rintro _ _ _ _ ⟨⟩,by rintro _ ⟨⟩⟩
  obtain ⟨tells,plain,small⟩ := comes_tells comes start plain (by simpa using small)
  refine ⟨tells,fun after ran => ?_⟩
  have depth := tells.depth
  exact ((restored_block site plain (by omega) ran).depth (by omega)).trans depth

section Sample

/-- A loop over `items` with a loop over `inner` in it, and a block behind that. -/
def sampleProgram (inner : String) : QdProgram := ⟨[.forLoop "x" "items" [.forLoop "y" inner [],.ifElse "c" [] []]]⟩

def sampleContext : ExecutionContext :=
  ExecutionContext.withLimits [("items",.arr [.null,.null]),("none",.arr [])] 1 2

def sampleExecutor : QdExecutor := ⟨Services.offline,⟨false,none⟩,0,1,2⟩

/-- The state in which the first round begins, and the one behind its inner loop. -/
def firstRound : Execution :=
  let started := entered (begun sampleExecutor sampleContext)
  (emit (.iteration 0) (withVars started (setLoopVariables 0 2 (insertVar started.context.vars "x" .null)))).2

def behind (inner : String) : Execution := (executeBlock sampleExecutor (.forLoop "y" inner []) firstRound).2

theorem comes_behind {inner : String} (ran : (executeBlock sampleExecutor (.forLoop "y" inner []) firstRound).1 = .ok ()) :
    Comes sampleExecutor [] True (sampleProgram inner).blocks (begun sampleExecutor sampleContext) [.listed 0 2]
      (True ∧ Roundless sampleExecutor (.forLoop "y" inner []) firstRound) (.ifElse "c" [] []) (behind inner) := by
  have found : loopValues sampleExecutor.services "items" (begun sampleExecutor sampleContext).context.vars =
      .ok [.null,.null] := rfl
  refine .listed found (by decide) (.none 0 _) (takes_eq "x" (by decide) _) ?_
  change Comes sampleExecutor [.listed 0 2] True [.forLoop "y" inner [],.ifElse "c" [] []] firstRound _ _ _ _
  have whole : executeBlock sampleExecutor (.forLoop "y" inner []) firstRound = (.ok (),behind inner) := by
    rw [← ran]
    exact (Prod.eta _).symm
  exact .later whole .here

/-- Behind a loop over nothing, the variables are those of the round. -/
theorem told_behind_nothing : Numbered 0 2 (behind "none").context.vars := by
  have told := loop_variables_told sampleExecutor (sampleProgram "none") sampleContext rfl rfl
    (by decide +kernel) (comes_behind rfl)
  exact told.1.listed ⟨trivial,by rfl⟩ 0 2 [] rfl

/-- Behind a loop that has had rounds, they are those of its last round. -/
theorem told_behind_rounds : ¬∀ (executor : QdExecutor) (program : QdProgram) (context : ExecutionContext),
    plainBlocks program.blocks = true → loopDepth context.vars 0 = 0 → nestings program.blocks < 2 ^ 64 →
    ∀ rounds calm site state, Comes executor [] True program.blocks (begun executor context) rounds calm site state →
    ∀ i n outer, rounds = .listed i n :: outer → Numbered i n state.context.vars := by
  intro all
  have numbered := all sampleExecutor (sampleProgram "items") sampleContext rfl rfl
    (by decide +kernel) _ _ _ _ (comes_behind rfl) 0 2 [] rfl
  have index : (behind "items").context.vars.text "loop_index0" = some "1" := rfl
  rw [numbered.index0] at index
  exact absurd index (by decide)

end Sample

end Qdrust.Executor
