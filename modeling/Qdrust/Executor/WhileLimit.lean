import Qdrust.Executor.Limits
import Qdrust.Library.Iteration

/-! How many iterations the limit of the context lets a `while` and a `for` have. -/
namespace Qdrust.Executor
open Library Effect Har

def limitError : Failure := ["while loop iteration limit exceeded"]

/-- The state a loop starts its iterations from. -/
def entered (state : Execution) : Execution :=
  { state with loops := state.loops + 1, context := { state.context with vars := enterLoop state.context.vars } }

def left (state : Execution) : Execution :=
  { state with context := { state.context with vars := leaveLoop state.context.vars } }

section

variable (executor : QdExecutor) (condition target : String) (body : List QdBlock) (values : List Json)

/-- One iteration. -/
def runBody (loop : Nat) : Exec Unit := do
  emit (.iteration loop)
  executeBlocks executor 0 body

/-- The condition, before iteration `index` of the `limit` that may be. Past them it is the
condition alone. -/
def asks (limit index : Nat) : Exec Bool := do
  if index < limit then setVars (setLoopVariables index limit)
  evaluateBool executor.services condition

/-- The next of the values is bound, if there is one. -/
def takes (index : Nat) : Exec Bool :=
  match values[index]? with
  | none => pure false
  | some value => do
    setVar target value
    setVars (setLoopVariables index values.length)
    return true

/-- As long as it is within the limit, a condition that turns false ends the loop with
success, after any number of iterations; one that has run to its limit fails only where the
condition still holds. -/
structure WhileAdmits (state : Execution) : Prop where
  completes : ∀ k ≤ state.context.loopLimit, ∀ last checked,
    Repeats (asks executor condition state.context.loopLimit) (runBody executor body state.loops) 0 k (entered state) last →
    asks executor condition state.context.loopLimit k last = (.ok false,checked) →
    executeBlock executor (.whileLoop condition body) state = (.ok (),left checked)
  exceeds : ∀ after, executeBlock executor (.whileLoop condition body) state = (.error limitError,after) →
    (∃ last, Repeats (asks executor condition state.context.loopLimit) (runBody executor body state.loops) 0
      state.context.loopLimit (entered state) last ∧ (evaluateBool executor.services condition last).1 = .ok true) ∨
    -- the engine's own error has the same text
    ∃ k < state.context.loopLimit, ∃ last, Repeats (asks executor condition state.context.loopLimit)
      (runBody executor body state.loops) 0 k (entered state) last ∧
      (asks executor condition state.context.loopLimit k last).1 = .error limitError

/-- A list within the limit gets as many iterations as it has values. -/
def ForAdmits (source : String) (state : Execution) : Prop :=
  ∀ values, loopValues executor.services source state.context.vars = .ok values →
    values.length ≤ state.context.loopLimit → ∀ last,
    Repeats (takes target values) (runBody executor body state.loops) 0 values.length (entered state) last →
    executeBlock executor (.forLoop target source body) state = (.ok (),left last)

variable {executor condition target body values}

theorem evaluateBool_eq (condition : String) (state : Execution) : evaluateBool executor.services condition state =
    (executor.services.evaluateBool condition state.context.vars,state) := by
  unfold evaluateBool
  rw [read_bind]
  cases executor.services.evaluateBool condition state.context.vars <;> rfl

theorem evaluateBool_state (condition : String) (state : Execution) :
    (evaluateBool executor.services condition state).2 = state := by
  rw [evaluateBool_eq]

theorem asks_within {limit index : Nat} (within : index < limit) (state : Execution) :
    asks executor condition limit index state =
      (setVars (setLoopVariables index limit) >>= fun _ => evaluateBool executor.services condition) state := by
  rw [asks,if_pos within]

theorem asks_past {limit index : Nat} (past : limit ≤ index) (state : Execution) :
    asks executor condition limit index state = evaluateBool executor.services condition state := by
  rw [asks,if_neg (by omega)]

theorem executeBlock_while (state : Execution) : executeBlock executor (.whileLoop condition body) state =
    ((whileTrue state.loops (evaluateBool executor.services condition) (executeBlocks executor 0 body) 0
      state.context.loopLimit >>= fun _ => setVars leaveLoop) (entered state)) := by
  rw [executeBlock]
  rfl

theorem executeBlock_for {source : String} {state : Execution}
    (found : loopValues executor.services source state.context.vars = .ok values)
    (room : values.length ≤ state.context.loopLimit) : executeBlock executor (.forLoop target source body) state =
    ((forEachValue state.loops (fun index value => do
      setVar target value
      setVars (setLoopVariables index values.length)) (executeBlocks executor 0 body) 0 values >>=
        fun _ => setVars leaveLoop) (entered state)) := by
  rw [executeBlock,read_bind,found]
  change (Effect.ensure (decide (values.length ≤ state.context.loopLimit)) _ >>= _) state = _
  rw [ensure_bind,if_pos (decide_eq_true room)]
  rfl

/-- The limit of the context stays as it is. -/
def Limited (before after : Execution) : Prop := after.context.loopLimit = before.context.loopLimit

theorem limited_refl (state : Execution) : Limited state state := rfl

theorem limited_trans (a b c : Execution) (first : Limited a b) (second : Limited b c) : Limited a c := second.trans first

theorem limited_of_costs {α : Type} {effect : Exec α} (moves : Moves (Costs 0) effect) : Moves Limited effect :=
  moves.mono fun _ _ costs => (costs 0).limit

variable (executor body) in
theorem limited_runBody (loop : Nat) : Moves Limited (runBody executor body loop) := by
  refine moves_bind limited_trans (fun _ => rfl) fun _ => ?_
  exact limited_of_costs (moves_executeBlocks executor body 0)

variable (executor condition) in
theorem limited_asks (limit index : Nat) : Moves Limited (asks executor condition limit index) := by
  have evaluates : Moves Limited (evaluateBool executor.services condition) := fun state => by
    rw [evaluateBool_state]
    rfl
  intro state
  by_cases within : index < limit
  · rw [asks_within within]
    have sets : Moves Limited (setVars (setLoopVariables index limit)) := fun _ => rfl
    exact moves_bind limited_trans sets (fun _ => evaluates) state
  · rw [asks_past (by omega)]
    exact evaluates state

/-- One round of the loop. -/
theorem whileTrue_round {loop index rest : Nat} {state : Execution} (within : index + rest < state.context.loopLimit) :
    whileTrue loop (evaluateBool executor.services condition) (executeBlocks executor 0 body) index (rest + 1) state =
      match asks executor condition state.context.loopLimit index state with
      | (.error failure,checked) => (.error failure,checked)
      | (.ok false,checked) => (.ok (),checked)
      | (.ok true,checked) => match runBody executor body loop checked with
        | (.error failure,ran) => (.error failure,ran)
        | (.ok (),ran) => if index + 1 = state.context.loopLimit then (.error limitError,ran)
          else whileTrue loop (evaluateBool executor.services condition) (executeBlocks executor 0 body) (index + 1) rest
            ran := by
  have limited := limited_asks executor condition state.context.loopLimit index state
  have shape : whileTrue loop (evaluateBool executor.services condition) (executeBlocks executor 0 body) index (rest + 1)
      state = (asks executor condition state.context.loopLimit index >>= fun holds => if holds then
        (runBody executor body loop >>= fun _ => do
          let context ← Effect.read Execution.context
          Effect.ensure (index + 1 ≠ context.loopLimit) limitError
          whileTrue loop (evaluateBool executor.services condition) (executeBlocks executor 0 body) (index + 1) rest)
        else pure ()) state := by
    rw [bind_eq,asks_within (by omega),← bind_eq,bind_assoc,whileTrue,read_bind]
    simp only [runBody,bind_assoc]
    rfl
  rw [shape,bind_eq]
  generalize asks executor condition state.context.loopLimit index state = answer at limited
  obtain ⟨answer,checked⟩ := answer
  cases answer with
  | error failure => rfl
  | ok holds =>
    cases holds with
    | false => rfl
    | true =>
      have same := limited_runBody executor body loop checked
      dsimp only
      rw [if_pos rfl,bind_eq]
      generalize runBody executor body loop checked = outcome at same
      obtain ⟨outcome,ran⟩ := outcome
      cases outcome with
      | error failure => rfl
      | ok value =>
        dsimp only
        rw [read_bind,ensure_bind,same.trans limited]
        by_cases last : index + 1 = state.context.loopLimit
        · simp [last]
        · simp [last]

theorem limit_entered (state : Execution) : (entered state).context.loopLimit = state.context.loopLimit := rfl

/-- The state after a round that succeeds, under the same limit. -/
theorem round_limit {limit index loop : Nat} {state checked ran : Execution} (same : state.context.loopLimit = limit)
    (holds : asks executor condition limit index state = (.ok true,checked))
    (runs : runBody executor body loop checked = (.ok (),ran)) : ran.context.loopLimit = limit := by
  have first := limited_asks executor condition limit index state
  have second := limited_runBody executor body loop checked
  rw [holds] at first
  rw [runs] at second
  exact second.trans (first.trans same)

theorem whileTrue_stops {limit loop index count rest : Nat} {state last checked : Execution}
    (same : state.context.loopLimit = limit) (whole : index + rest = limit) (within : count < rest)
    (repeats : Repeats (asks executor condition limit) (runBody executor body loop) index count state last)
    (turned : asks executor condition limit (index + count) last = (.ok false,checked)) :
    whileTrue loop (evaluateBool executor.services condition) (executeBlocks executor 0 body) index rest state =
      (.ok (),checked) := by
  induction repeats generalizing rest with
  | none index state =>
    obtain ⟨rest,rfl⟩ := Nat.exists_eq_add_of_lt within
    rw [Nat.add_zero] at turned
    rw [Nat.zero_add,whileTrue_round (by omega),same,turned]
  | @more index count state before ran last holds runs _ ih =>
    obtain ⟨rest,rfl⟩ : ∃ less, rest = less + 1 := ⟨rest - 1,by omega⟩
    rw [whileTrue_round (by omega),same,holds]
    dsimp only
    rw [runs]
    dsimp only
    rw [if_neg (by omega)]
    refine ih (round_limit same holds runs) (by omega) (by omega) ?_
    rwa [show index + 1 + count = index + (count + 1) from by omega]

theorem whileTrue_exceeds {limit loop index rest : Nat} {state last : Execution}
    (same : state.context.loopLimit = limit) (whole : index + rest = limit) (some : 0 < rest)
    (repeats : Repeats (asks executor condition limit) (runBody executor body loop) index rest state last) :
    whileTrue loop (evaluateBool executor.services condition) (executeBlocks executor 0 body) index rest state =
      (.error limitError,last) := by
  induction repeats with
  | none index state => omega
  | @more index rest state before ran last holds runs more ih =>
    rw [whileTrue_round (by omega),same,holds]
    dsimp only
    rw [runs]
    dsimp only
    cases more with
    | none => rw [if_pos (by omega)]
    | more holds' runs' rest' =>
      rw [if_neg (by omega)]
      exact ih (round_limit same holds runs) (by omega) (by omega)

/-- A failing body names the block that failed. -/
theorem executeBlocks_labelled {index : Nat} {blocks : List QdBlock} {state after : Execution} {failure : Failure}
    (failed : executeBlocks executor index blocks state = (.error failure,after)) :
    ∃ i block rest, failure = blockLabel i block :: rest := by
  induction blocks generalizing index state with
  | nil => cases failed
  | cons block rest ih =>
    rw [executeBlocks,bind_eq,mapError] at failed
    generalize executeBlock executor block state = outcome at failed
    obtain ⟨outcome,middle⟩ := outcome
    cases outcome with
    | ok value => exact ih failed
    | error cause =>
      cases failed
      exact ⟨index,block,cause,rfl⟩

theorem label_ne (index : Nat) (block : QdBlock) (rest : Failure) : blockLabel index block :: rest ≠ limitError := by
  intro same
  obtain ⟨text,labelled⟩ : ∃ text, blockLabel index block = "step " ++ text := by
    cases block <;> exact ⟨_,by rw [blockLabel,labelled,String.append_assoc,String.append_assoc,String.append_assoc]⟩
  rw [labelled] at same
  have heads := congrArg String.toList (List.cons.inj same).1
  rw [String.toList_append] at heads
  exact absurd (List.cons.inj heads).1 (by decide)

/-- Where the text of the limit comes from. -/
theorem whileTrue_limit {limit loop index rest : Nat} {state after : Execution} (same : state.context.loopLimit = limit)
    (whole : index + rest = limit)
    (failed : whileTrue loop (evaluateBool executor.services condition) (executeBlocks executor 0 body) index rest state =
      (.error limitError,after)) :
    (0 < rest ∧ ∃ last, Repeats (asks executor condition limit) (runBody executor body loop) index rest state last) ∨
    ∃ count < rest, ∃ last, Repeats (asks executor condition limit) (runBody executor body loop) index count state last ∧
      (asks executor condition limit (index + count) last).1 = .error limitError := by
  induction rest generalizing index state with
  | zero => cases failed
  | succ rest ih =>
    rw [whileTrue_round (by omega),same] at failed
    cases asked : asks executor condition limit index state with
    | mk answer checked =>
      rw [asked] at failed
      cases answer with
      | error failure =>
        cases failed
        exact .inr ⟨0,by omega,state,.none _ _,by rw [Nat.add_zero,asked]⟩
      | ok holds =>
        cases holds with
        | false => cases failed
        | true =>
          cases runs : runBody executor body loop checked with
          | mk outcome ran =>
            dsimp only at failed
            rw [runs] at failed
            cases outcome with
            | error failure =>
              cases failed
              obtain ⟨i,block,rest,labelled⟩ := executeBlocks_labelled runs
              exact absurd labelled.symm (label_ne i block rest)
            | ok value =>
              dsimp only at failed
              split at failed
              next last =>
                refine .inl ⟨by omega,ran,?_⟩
                obtain rfl : rest = 0 := by omega
                exact .more asked runs (.none _ _)
              next more =>
                rcases ih (round_limit same asked runs) (by omega) failed with ⟨some,last,repeats⟩ | ⟨count,within,last,repeats,told⟩
                · exact .inl ⟨by omega,last,.more asked runs repeats⟩
                · refine .inr ⟨count + 1,by omega,last,.more asked runs repeats,?_⟩
                  rwa [show index + (count + 1) = index + 1 + count from by omega]

theorem forEachValue_completes {loop index count : Nat} {state last : Execution} (whole : index + count = values.length)
    (repeats : Repeats (takes target values) (runBody executor body loop) index count state last) :
    forEachValue loop (fun index value => do
      setVar target value
      setVars (setLoopVariables index values.length)) (executeBlocks executor 0 body) index (values.drop index) state =
      (.ok (),last) := by
  induction repeats with
  | none index state =>
    rw [List.drop_eq_nil_of_le (by omega)]
    rfl
  | @more index count state bound ran last holds runs _ ih =>
    have there : index < values.length := by omega
    rw [takes,List.getElem?_eq_getElem there] at holds
    obtain ⟨_,middle,named,holds⟩ := bind_ok.mp holds
    obtain ⟨_,set,numbered,holds⟩ := bind_ok.mp holds
    cases holds
    rw [List.drop_eq_getElem_cons there,forEachValue]
    refine bind_ok.mpr ⟨_,_,bind_ok.mpr ⟨_,_,named,numbered⟩,?_⟩
    obtain ⟨_,told,emitted,done⟩ := bind_ok.mp runs
    exact bind_ok.mpr ⟨_,_,emitted,bind_ok.mpr ⟨_,_,done,ih (by omega)⟩⟩

theorem for_admits (target : String) (body : List QdBlock) (source : String) (state : Execution) :
    ForAdmits executor target body source state := by
  intro values found room last repeats
  rw [executeBlock_for found room]
  refine bind_ok.mpr ⟨(),last,?_,rfl⟩
  exact forEachValue_completes (Nat.zero_add _) repeats

/-- The loop stops at its limit without another look at the condition. -/
theorem while_admits {state : Execution} (still : 0 < state.context.loopLimit → ∀ last,
    Repeats (asks executor condition state.context.loopLimit) (runBody executor body state.loops) 0
      state.context.loopLimit (entered state) last → (evaluateBool executor.services condition last).1 = .ok true) :
    WhileAdmits executor condition body state where
  completes k within last checked repeats turned := by
    rw [executeBlock_while]
    refine bind_ok.mpr ⟨(),checked,?_,rfl⟩
    rcases Nat.lt_or_eq_of_le within with less | rfl
    · exact whileTrue_stops (limit_entered state) (Nat.zero_add _) less repeats (by rwa [Nat.zero_add])
    · rw [asks_past (Nat.le_refl _)] at turned
      rcases Nat.eq_zero_or_pos state.context.loopLimit with zero | some
      · -- no iteration at all: the condition is not asked
        have same : (evaluateBool executor.services condition last).2 = last := evaluateBool_state condition last
        rw [turned] at same
        cases same
        rw [zero] at repeats ⊢
        cases repeats
        rfl
      · have holds := still some last repeats
        rw [turned] at holds
        cases holds
  exceeds after failed := by
    rw [executeBlock_while,bind_eq] at failed
    split at failed
    next => cases failed
    next failure ended run =>
      cases failed
      rcases whileTrue_limit (limit_entered state) (Nat.zero_add _) run with ⟨some,last,repeats⟩ | ⟨count,within,last,repeats,told⟩
      · exact .inl ⟨last,repeats,still some last repeats⟩
      · exact .inr ⟨count,within,last,repeats,by rwa [Nat.zero_add] at told⟩

theorem still_of_admits {state : Execution} (admits : WhileAdmits executor condition body state)
    (some : 0 < state.context.loopLimit) {last : Execution}
    (repeats : Repeats (asks executor condition state.context.loopLimit) (runBody executor body state.loops) 0
      state.context.loopLimit (entered state) last) : (evaluateBool executor.services condition last).1 = .ok true := by
  have failed : executeBlock executor (.whileLoop condition body) state = (.error limitError,last) := by
    rw [executeBlock_while,bind_eq,whileTrue_exceeds (limit_entered state) (Nat.zero_add _) some repeats]
  rcases admits.exceeds last failed with ⟨other,again,holds⟩ | ⟨k,within,other,first,told⟩
  · rwa [repeats.unique again]
  · -- the engine has answered every check up to the limit
    obtain ⟨checked,answer⟩ := repeats.answered first within
    rw [Nat.zero_add] at answer
    rw [answer] at told
    cases told

/-- A `for` admits every list within the limit. A `while` does the same exactly where its
condition still holds after as many iterations as the limit, if that is not zero. -/
theorem loops_admit_iff (executor : QdExecutor) (condition target source : String) (body : List QdBlock)
    (state : Execution) :
    ForAdmits executor target body source state ∧
      (WhileAdmits executor condition body state ↔ (0 < state.context.loopLimit → ∀ last,
        Repeats (asks executor condition state.context.loopLimit) (runBody executor body state.loops) 0
          state.context.loopLimit (entered state) last → (evaluateBool executor.services condition last).1 = .ok true)) := by
  refine ⟨for_admits target body source state,fun admits some last repeats => ?_,while_admits⟩
  exact still_of_admits admits some repeats

end

/-- An engine whose condition holds until `x` has a value. -/
def untilSet : QdExecutor :=
  ⟨{ Services.offline with evaluateBool := fun _ vars => .ok (vars.get "x").isNone },⟨false,none⟩,0,1,1⟩

def oneItem : Execution := Execution.initial (ExecutionContext.withLimits [("items",.arr [.null])] 1 1)

/-- One iteration, which is all the limit has room for, sets `x`. -/
theorem last_iteration_fails : ¬∀ executor condition body state, WhileAdmits executor condition body state := by
  intro all
  let check := asks untilSet "x is not defined" 1
  let run := runBody untilSet [.forLoop "x" "items" []] 0
  have asked : (check 0 (entered oneItem)).1 = .ok true := by decide +kernel
  have ran : (run (check 0 (entered oneItem)).2).1 = .ok () := by decide +kernel
  have turned : (evaluateBool untilSet.services "x is not defined" (run (check 0 (entered oneItem)).2).2).1 = .ok false := by
    decide +kernel
  have repeats : Repeats check run 0 1 (entered oneItem) (run (check 0 (entered oneItem)).2).2 :=
    .more (Prod.ext asked rfl) (Prod.ext ran rfl) (.none _ _)
  have holds := still_of_admits (all untilSet "x is not defined" [.forLoop "x" "items" []] oneItem) Nat.one_pos repeats
  rw [turned] at holds
  cases holds

end Qdrust.Executor
