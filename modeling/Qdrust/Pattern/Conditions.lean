import Qdrust.Pattern.Numbers

/-! The groups that conditional groups branch on: as Python counts them, as the translation
does, and as they are checked against the compiled pattern. -/
namespace Qdrust.Pattern
open Expression Library Digits

/-- A condition against the capture names of the compiled pattern, the whole match among them. -/
def checkCondition (names : List (Option (List Char))) : Nat × Option (List Char) → Except String Unit
  | (group,name) =>
    if names.length ≤ group then
      .error ("a conditional group branching on group " ++ toString group ++ ", which does not exist")
    else match name with
      | none => .ok ()
      | some name =>
        if names[group]? = some (some name) then .ok ()
        else .error ("a conditional group naming `" ++ String.ofList name ++ "`, which is not group " ++ toString group ++
          " of the pattern")

def checkConditions (names : List (Option (List Char))) : List (Nat × Option (List Char)) → Except String Unit
  | [] => .ok ()
  | condition :: rest => do
    checkCondition names condition
    checkConditions names rest

/-- The name of the group before the text that a parenthesis opens. -/
def groupName (rest : List Char) : Option (List Char) :=
  if rest.head? = some '?' then some ((rest.drop 3).takeWhile (· != '>')) else none

/-- The groups Python opens from a place on, in the order that numbers them. -/
def pythonGroups : PythonScan → List Char → List (Option (List Char))
  | _,[] => []
  | scan,c :: rest =>
    if (scan.mark c rest).group then groupName rest :: pythonGroups (pythonStep scan c rest) rest
    else pythonGroups (pythonStep scan c rest) rest

/-- The group a condition means to Python: a number of the pattern, or a name opened before. -/
def sreCondition (before all : List (Option (List Char))) (condition : List Char) : Option Nat :=
  if condition.all Char.isDigit then
    if natValue condition = 0 ∨ all.length < natValue condition then none else some (natValue condition)
  else if some condition ∈ before then some (before.idxOf (some condition) + 1) else none

/-- What stands behind the parenthesis of a conditional group. -/
def conditionText (condition last : List Char) : List Char := '?' :: '(' :: (condition ++ ')' :: last)

/-- The translation of a conditional group and the check of what it notes. -/
def conditionChecked (tables : CharTables) (names : List (Option (List Char))) (scan : Scan) (rest : List Char) :
    Except String Unit := do
  let step ← translateStep tables scan '(' rest
  checkConditions names (step.scan.conditions.drop scan.conditions.length)

/-- The group Python means is written, or the condition is refused where Python refuses it. -/
def ConditionRead (tables : CharTables) (names : List (Option (List Char))) (scan : Scan) (condition last : List Char) :
    Option Nat → Prop
  | none => ∃ failure, conditionChecked tables names scan (conditionText condition last) = .error failure
  | some number => conditionChecked tables names scan (conditionText condition last) = .ok () ∧
      ∃ digits, writtenFor tables (4 + condition.length) scan '(' (conditionText condition last) =
          .ok ('(' :: '?' :: '(' :: (digits ++ [')'])) ∧ (∀ c ∈ digits, c.isDigit = true) ∧ natValue digits = number

/-- When a condition is translated to the group Python means. -/
def ConditionAlike (tables : CharTables) (scan : Scan) (before all : List (Option (List Char)))
    (condition : List Char) : Prop :=
  if condition.all Char.isDigit then scan.inClass = false ∨ (sreCondition before all condition).isSome
  else scan.inClass = false ∧ (∀ c ∈ condition, nameChar tables c = true) ∧
    if some condition ∈ before then
      some condition ∈ scan.groups ∧ scan.groups.idxOf (some condition) = before.idxOf (some condition)
    else some condition ∈ scan.groups → all[scan.groups.idxOf (some condition)]? ≠ some (some condition)

/-- A number or an identifier, which has no punctuation but the underscore. -/
structure Named (condition : List Char) : Prop where
  nonempty : condition ≠ []
  plain : ∀ c ∈ condition, c = '_' ∨ asciiPunctuation c = false
  kind : condition.all Char.isDigit = true ∨ ∀ c ∈ condition.head?, c.isDigit = false

section Groups

variable {tables : CharTables} {body : List Char} {scan : Scan} {python : PythonScan} {text : List Char}

theorem pythonGroups_at (n : Nat) (scan : PythonScan) (text : List Char) :
    ∃ front, pythonGroups scan text = front ++ pythonGroups (pythonAt n scan text) (text.drop n) := by
  induction n generalizing scan text with
  | zero => exact ⟨[],rfl⟩
  | succ n ih =>
    cases text with
    | nil => exact ⟨[],rfl⟩
    | cons c rest =>
      obtain ⟨front,same⟩ := ih (pythonStep scan c rest) rest
      rw [pythonGroups]
      split
      · exact ⟨groupName rest :: front,by rw [same]; rfl⟩
      · exact ⟨front,same⟩

/-- The groups opened before a place. -/
theorem Reached.before (reached : Reached tables body scan python text) :
    ∃ before, pythonGroups PythonScan.start body = before ++ pythonGroups python text := by
  induction reached with
  | start => exact ⟨[],rfl⟩
  | step reached done ih =>
    obtain ⟨before,same⟩ := ih
    obtain ⟨front,further⟩ := pythonGroups_at _ _ _
    exact ⟨before ++ front,by rw [same,further,List.append_assoc]⟩

end Groups

section Steps

variable {tables : CharTables} {scan : Scan} {condition last : List Char}

theorem Named.copies (named : Named condition) : ∀ c ∈ condition, copies c = true := by
  intro c member
  have plain := named.plain c member
  have special : ("\\[](\x7b".toList.all fun c => !(c == '_' || !asciiPunctuation c)) = true := by decide
  apply copies_of special
  rcases plain with rfl | plain
  · rfl
  · rw [plain]
    simp

theorem Named.ne (named : Named condition) {stop : Char} (special : (stop == '_' || !asciiPunctuation stop) = false) :
    stop ∉ condition := by
  intro member
  rcases named.plain stop member with rfl | plain
  · cases special
  · rw [plain] at special
    simp at special

theorem pythonGroup_condition (more : List Char) :
    pythonGroup tables ('(' :: '?' :: '(' :: more) = .ok (.conditional (pythonCondition tables more)) := by
  have flag : flagChar '(' = false := by decide
  simp [pythonGroup,refuseUnknownGroup,inlineFlagGroup,flag]

theorem pythonCondition_number (nonempty : condition ≠ []) (all : ∀ c ∈ condition, c.isDigit = true) (last : List Char) :
    pythonCondition tables (condition ++ ')' :: last) = .number (groupNumber condition) := by
  have run := takeWhile_digits all (show (')').isDigit = false by decide) last
  simp [pythonCondition,run,nonempty]

theorem takeWhile_none {p : Char → Bool} {text : List Char} (first : ∀ c ∈ text.head?, p c = false) (stop : Char)
    (ends : p stop = false) (last : List Char) : (text ++ stop :: last).takeWhile p = [] := by
  cases text with
  | nil => simp [ends]
  | cons c rest => simp [first c rfl]

theorem stops_inside {p : Char → Bool} {text : List Char} (fails : text.all p = false) (more : List Char) :
    ∃ c, c ∈ text ∧ (text ++ more)[((text ++ more).takeWhile p).length]? = some c := by
  induction text with
  | nil => cases fails
  | cons c text ih =>
    rw [List.all_cons] at fails
    rw [List.cons_append,List.takeWhile_cons]
    cases holds : p c with
    | false => exact ⟨c,List.mem_cons_self,rfl⟩
    | true =>
      rw [holds,Bool.true_and] at fails
      obtain ⟨d,member,found⟩ := ih fails
      exact ⟨d,List.mem_cons_of_mem _ member,found⟩

theorem pythonCondition_called (named : Named condition) (other : ∀ c ∈ condition.head?, c.isDigit = false)
    (last : List Char) : pythonCondition tables (condition ++ ')' :: last) =
      if condition.all (nameChar tables) then .name condition else .other := by
  have none := takeWhile_none other ')' (by decide) last
  have closing : nameChar tables ')' = false := rfl
  unfold pythonCondition
  simp only [none,ne_eq,not_true_eq_false,if_false]
  cases every : condition.all (nameChar tables) with
  | true =>
    have run : (condition ++ ')' :: last).takeWhile (nameChar tables) = condition := by
      rw [List.takeWhile_append_of_pos (List.all_eq_true.mp every),List.takeWhile_cons_of_neg (by rw [closing]; decide),
        List.append_nil]
    simp [run,named.nonempty]
  | false =>
    have shorter := stops_inside every (')' :: last)
    obtain ⟨c,member,next⟩ := shorter
    rw [next,if_neg]
    · rfl
    · rintro ⟨same,_⟩
      rw [Option.some.inj same] at member
      exact named.ne (by decide) member

theorem head_of_named (named : Named condition) (last : List Char) :
    (condition ++ ')' :: last).head? ≠ some '*' ∧ (condition ++ ')' :: last).head? ≠ some '?' := by
  obtain ⟨first,others,rfl⟩ := List.exists_cons_of_ne_nil named.nonempty
  constructor
  · intro same
    exact named.ne (by decide) (List.mem_cons.mpr (.inl (Option.some.inj same).symm))
  · intro same
    exact named.ne (by decide) (List.mem_cons.mpr (.inl (Option.some.inj same).symm))

/-- The parenthesis of the condition itself, inside of a class or outside. -/
theorem translateStep_inner (named : Named condition) (scan : Scan) (last : List Char) :
    ∃ counted after, translateStep tables scan '(' (condition ++ ')' :: last) = .ok ⟨1,['('],counted,after⟩ := by
  cases inside : scan.inClass with
  | true => exact ⟨false,(translateMember scan '(').scan,by simp [translateStep,translateMember,inside]⟩
  | false =>
    obtain ⟨noStar,noQuestion⟩ := head_of_named named last
    have opens : pythonGroup tables ('(' :: (condition ++ ')' :: last)) = .ok (.capturing none) := by
      rw [List.head?_eq_getElem?] at noStar noQuestion
      unfold pythonGroup
      rw [List.getElem?_cons_succ,if_neg noStar,if_pos noQuestion]
    exact ⟨true,{ scan with groups := scan.groups ++ [none] },
      by simp [translateStep,inside,translateGroup,opens,bind,Except.bind,pure,Except.pure]⟩

theorem translateFrom_single {n : Nat} {scan after final : Scan} {c : Char} {counted : Bool} {rest : List Char}
    {pieces : List Piece} (done : translateStep tables scan c rest = .ok ⟨1,[c],counted,after⟩)
    (further : translateFrom tables n after rest = .ok (pieces,final)) :
    ∃ more, translateFrom tables (n + 1) scan (c :: rest) = .ok (more,final) ∧
      (more.flatMap fun piece => piece.step.output) = c :: pieces.flatMap fun piece => piece.step.output := by
  refine ⟨⟨c :: rest,scan.inClass,⟨1,[c],counted,after⟩⟩ :: pieces,?_,rfl⟩
  rw [translateFrom,done]
  change (translateFrom tables n after rest >>= _) = _
  rw [further]
  rfl

theorem writtenFor_whole {c : Char} {rest : List Char} {step : Step} (done : translateStep tables scan c rest = .ok step) :
    writtenFor tables step.length scan c rest = .ok step.output := by
  have stops : ∀ text, translateFrom tables 0 step.scan text = .ok ([],step.scan) := fun text => by
    cases text <;> rfl
  rw [writtenFor,done]
  change (translateFrom tables (step.length - step.length) step.scan ((c :: rest).drop step.length) >>= _) = _
  rw [Nat.sub_self,stops]
  change Except.ok (step.output ++ []) = _
  rw [List.append_nil]

/-- A condition whose parenthesis is a step of its own is written as it is. -/
theorem writtenFor_single (named : Named condition) {after : Scan}
    (done : translateStep tables scan '(' (conditionText condition last) = .ok ⟨1,['('],false,after⟩) :
    writtenFor tables (4 + condition.length) scan '(' (conditionText condition last) =
      .ok ('(' :: '?' :: '(' :: (condition ++ [')'])) := by
  have plain : ∀ c ∈ condition ++ [')'], copies c = true := by
    intro c member
    rcases List.mem_append.mp member with inside | closing
    · exact named.copies c inside
    · rw [List.mem_singleton.mp closing]
      decide
  obtain ⟨asked,question,_⟩ : ∃ asked, translateStep tables after '?' ('(' :: (condition ++ ')' :: last)) =
      .ok ⟨1,['?'],false,asked⟩ ∧ asked.inClass = after.inClass := translateStep_copies (by decide) after _
  obtain ⟨counted,opened,inner⟩ : ∃ counted opened, translateStep tables asked '(' (condition ++ ')' :: last) =
      .ok ⟨1,['('],counted,opened⟩ := translateStep_inner named asked last
  obtain ⟨pieces,final,copied,outputs⟩ : ∃ pieces final,
      translateFrom tables (condition ++ [')']).length opened ((condition ++ [')']) ++ last) = .ok (pieces,final) ∧
        (pieces.flatMap fun piece => piece.step.output) = condition ++ [')'] := translateFrom_copies plain opened last
  rw [List.append_assoc,List.singleton_append] at copied
  obtain ⟨more,further,innerOutputs⟩ := translateFrom_single inner copied
  obtain ⟨whole,all,allOutputs⟩ := translateFrom_single question further
  have steps : 4 + condition.length - 1 = (condition ++ [')']).length + 1 + 1 := by
    rw [List.length_append,List.length_singleton]
    omega
  rw [writtenFor,done]
  change (translateFrom tables (4 + condition.length - 1) after (conditionText condition last) >>= _) = _
  rw [steps,conditionText,all]
  change Except.ok (['('] ++ whole.flatMap fun piece => piece.step.output) = _
  rw [allOutputs,innerOutputs,outputs]
  rfl

theorem checkConditions_single (names : List (Option (List Char))) (condition : Nat × Option (List Char)) :
    checkConditions names [condition] = checkCondition names condition := by
  rw [checkConditions]
  cases checkCondition names condition <;> rfl

theorem conditionChecked_step {names : List (Option (List Char))} {rest : List Char} {step : Step}
    {added : List (Nat × Option (List Char))} (done : translateStep tables scan '(' rest = .ok step)
    (noted : step.scan.conditions = scan.conditions ++ added) :
    conditionChecked tables names scan rest = checkConditions names added := by
  rw [conditionChecked,done]
  change checkConditions names (step.scan.conditions.drop scan.conditions.length) = _
  rw [noted,List.drop_left]

theorem conditionChecked_error {names : List (Option (List Char))} {rest : List Char} {failure : String}
    (failed : translateStep tables scan '(' rest = .error failure) :
    conditionChecked tables names scan rest = .error failure := by
  rw [conditionChecked,failed]
  rfl

theorem groupNumber_eq (digits : List Char) : groupNumber digits = min (natValue digits) 18446744073709551615 := by
  have folds : (fun value digit => value * 10 + (digit.toNat - 48) : Nat → Char → Nat) =
      fun value digit => 10 * value + (digit.toNat - '0'.toNat) := by
    funext value digit
    rw [Nat.mul_comm]
    rfl
  rw [groupNumber,natValue,Nat.ofDigitChars_eq_foldl,folds]

end Steps

section Cases

variable {tables : CharTables} {scan : Scan} {condition last : List Char} {before all : List (Option (List Char))}

theorem translateStep_condition (outside : scan.inClass = false) (condition last : List Char) :
    translateStep tables scan '(' (conditionText condition last) =
      match pythonCondition tables (condition ++ ')' :: last) with
      | .other => .ok ⟨1,['('],false,scan⟩
      | .number number =>
        if number = 0 then .error "a conditional group branching on group 0"
        else .ok ⟨1,['('],false,{ scan with conditions := scan.conditions ++ [(number,none)] }⟩
      | .name name =>
        if scan.groups.contains (some name) then
          .ok ⟨4 + name.length,['(','?','('] ++ (toString (scan.groups.idxOf (some name) + 1)).toList ++ [')'],false,
            { scan with classHead := false, conditions := scan.conditions ++ [(scan.groups.idxOf (some name) + 1,some name)] }⟩
        else .error "a conditional group naming a group not read before it" := by
  have step : translateStep tables scan '(' (conditionText condition last) =
      translateGroup tables scan ('(' :: conditionText condition last) := by
    simp [translateStep,outside]
  rw [step,translateGroup,conditionText,pythonGroup_condition]
  cases pythonCondition tables (condition ++ ')' :: last) <;> rfl

theorem translateStep_classed (inside : scan.inClass = true) (rest : List Char) :
    ∃ after, translateStep tables scan '(' rest = .ok ⟨1,['('],false,after⟩ ∧ after.conditions = scan.conditions :=
  ⟨(translateMember scan '(').scan,by simp [translateStep,translateMember,inside],by simp [translateMember]⟩

/-- The written number is the condition itself. -/
theorem single_read {number : Nat} (named : Named condition) {after : Scan}
    (done : translateStep tables scan '(' (conditionText condition last) = .ok ⟨1,['('],false,after⟩) :
    (∃ digits, writtenFor tables (4 + condition.length) scan '(' (conditionText condition last) =
        .ok ('(' :: '?' :: '(' :: (digits ++ [')'])) ∧ (∀ c ∈ digits, c.isDigit = true) ∧ natValue digits = number) ↔
      condition.all Char.isDigit = true ∧ natValue condition = number := by
  rw [writtenFor_single named done]
  constructor
  · rintro ⟨digits,same,every,value⟩
    simp only [Except.ok.injEq,List.cons.injEq,true_and,List.append_cancel_right_eq] at same
    rw [same]
    exact ⟨List.all_eq_true.mpr every,value⟩
  · rintro ⟨every,value⟩
    exact ⟨condition,rfl,List.all_eq_true.mp every,value⟩

/-- In what the translation takes for a class nothing is checked. -/
theorem read_classed (named : Named condition) (inside : scan.inClass = true) (names : List (Option (List Char))) :
    ConditionRead tables names scan condition last (sreCondition before all condition) ↔
      condition.all Char.isDigit = true ∧ (sreCondition before all condition).isSome := by
  obtain ⟨after,done,kept⟩ : ∃ after, translateStep tables scan '(' (conditionText condition last) =
      .ok ⟨1,['('],false,after⟩ ∧ after.conditions = scan.conditions := translateStep_classed inside _
  have checked : conditionChecked tables names scan (conditionText condition last) = .ok () :=
    conditionChecked_step done (by rw [List.append_nil]; exact kept)
  cases meant : sreCondition before all condition with
  | none =>
    refine iff_of_false ?_ fun both => by cases both.2
    rintro ⟨failure,failed⟩
    rw [checked] at failed
    cases failed
  | some number =>
    refine (and_congr_right fun _ => single_read named done).trans ?_
    constructor
    · exact fun read => ⟨read.2.1,rfl⟩
    · rintro ⟨every,_⟩
      refine ⟨checked,every,?_⟩
      rw [sreCondition,if_pos every] at meant
      split at meant
      · cases meant
      · exact Option.some.inj meant

theorem checkCondition_missing {group : Nat} (name : Option (List Char)) (missing : all.length < group) :
    ∃ failure, checkCondition (none :: all) (group,name) = .error failure := by
  unfold checkCondition
  simp only [List.length_cons]
  rw [if_pos (by omega)]
  exact ⟨_,rfl⟩

theorem checkCondition_number {group : Nat} (present : group ≤ all.length) :
    checkCondition (none :: all) (group,none) = .ok () := by
  unfold checkCondition
  simp only [List.length_cons]
  rw [if_neg (by omega)]

theorem checkCondition_name (index : Nat) (name : List Char) :
    (checkCondition (none :: all) (index + 1,some name) = .ok () ↔ all[index]? = some (some name)) ∧
      ((∃ failure, checkCondition (none :: all) (index + 1,some name) = .error failure) ↔
        all[index]? ≠ some (some name)) := by
  unfold checkCondition
  simp only [List.length_cons,List.getElem?_cons_succ,Nat.add_le_add_iff_right]
  by_cases missing : all.length ≤ index
  · rw [if_pos missing,List.getElem?_eq_none missing]
    simp
  · rw [if_neg missing]
    split <;> simp [*]

/-- A number is checked against the groups of the pattern. -/
theorem read_number (named : Named condition) (outside : scan.inClass = false) (every : condition.all Char.isDigit = true)
    (few : all.length < 18446744073709551615) :
    ConditionRead tables (none :: all) scan condition last (sreCondition before all condition) := by
  have read : pythonCondition tables (condition ++ ')' :: last) = _ :=
    pythonCondition_number named.nonempty (List.all_eq_true.mp every) last
  have step : translateStep tables scan '(' (conditionText condition last) = _ :=
    translateStep_condition outside condition last
  rw [read] at step
  simp only [] at step
  rw [sreCondition,if_pos every]
  have saturated := groupNumber_eq condition
  by_cases zero : natValue condition = 0
  · rw [if_pos (.inl zero)]
    rw [if_pos (by omega)] at step
    exact ⟨_,conditionChecked_error step⟩
  · rw [if_neg (by omega)] at step
    have checked : conditionChecked tables (none :: all) scan (conditionText condition last) =
        checkCondition (none :: all) (groupNumber condition,none) := by
      rw [conditionChecked_step step rfl,checkConditions_single]
    by_cases missing : all.length < natValue condition
    · rw [if_pos (.inr missing)]
      obtain ⟨failure,failed⟩ := checkCondition_missing none (show all.length < groupNumber condition by omega)
      exact ⟨failure,checked.trans failed⟩
    · rw [if_neg (by omega)]
      have present : groupNumber condition ≤ all.length := by omega
      exact ⟨checked.trans (checkCondition_number present),(single_read named step).mpr ⟨every,rfl⟩⟩

/-- A name is the number of the first group the translation has counted under it. -/
theorem read_called (named : Named condition) (outside : scan.inClass = false) (other : condition.all Char.isDigit = false)
    (first : ∀ c ∈ condition.head?, c.isDigit = false) {later : List (Option (List Char))} (split : all = before ++ later) :
    ConditionRead tables (none :: all) scan condition last (sreCondition before all condition) ↔
      (∀ c ∈ condition, nameChar tables c = true) ∧
        if some condition ∈ before then
          some condition ∈ scan.groups ∧ scan.groups.idxOf (some condition) = before.idxOf (some condition)
        else some condition ∈ scan.groups → all[scan.groups.idxOf (some condition)]? ≠ some (some condition) := by
  have read : pythonCondition tables (condition ++ ')' :: last) = _ := pythonCondition_called named first last
  have step : translateStep tables scan '(' (conditionText condition last) = _ :=
    translateStep_condition outside condition last
  have apart : ¬condition.all Char.isDigit = true := by
    rw [other]
    decide
  rw [read] at step
  cases letters : condition.all (nameChar tables) with
  | false =>
    rw [letters,if_neg (by decide)] at step
    have checked : conditionChecked tables (none :: all) scan (conditionText condition last) = .ok () :=
      conditionChecked_step step (List.append_nil _).symm
    refine iff_of_false ?_ fun both => ?_
    · cases sreCondition before all condition with
      | none =>
        rintro ⟨failure,failed⟩
        rw [checked] at failed
        cases failed
      | some number => exact fun right => apart ((single_read named step).mp right.2).1
    · rw [List.all_eq_true.mpr both.1] at letters
      cases letters
  | true =>
    rw [letters,if_pos rfl] at step
    simp only [] at step
    rw [and_iff_right (List.all_eq_true.mp letters),sreCondition,if_neg apart]
    by_cases counted : some condition ∈ scan.groups
    · rw [if_pos (List.contains_iff_mem.mpr counted)] at step
      have checked : conditionChecked tables (none :: all) scan (conditionText condition last) =
          checkCondition (none :: all) (scan.groups.idxOf (some condition) + 1,some condition) := by
        rw [conditionChecked_step step rfl,checkConditions_single]
      have verdict : (checkCondition (none :: all) (scan.groups.idxOf (some condition) + 1,some condition) = .ok () ↔ _) ∧ _ :=
        checkCondition_name (scan.groups.idxOf (some condition)) condition
      split
      · rename_i opened
        have number : all[before.idxOf (some condition)]? = some (some condition) := by
          have bound := List.idxOf_lt_length_iff.mpr opened
          rw [split,List.getElem?_append_left bound,List.getElem?_eq_getElem bound,List.getElem_idxOf]
        have written : writtenFor tables (4 + condition.length) scan '(' (conditionText condition last) =
            .ok (['(','?','('] ++ (toString (scan.groups.idxOf (some condition) + 1)).toList ++ [')']) :=
          writtenFor_whole step
        constructor
        · rintro ⟨_,digits,same,_,value⟩
          rw [written] at same
          have texts : (toString (scan.groups.idxOf (some condition) + 1)).toList = digits := by
            simpa only [Except.ok.injEq,List.cons_append,List.nil_append,List.cons.injEq,true_and,
              List.append_cancel_right_eq] using same
          rw [← texts,natValue_toString] at value
          exact ⟨counted,Nat.succ.inj value⟩
        · rintro ⟨_,same⟩
          rw [same] at checked verdict written
          refine ⟨checked.trans (verdict.1.mpr number),(toString (before.idxOf (some condition) + 1)).toList,?_,
            toString_isDigit _,natValue_toString _⟩
          rw [written]
          rfl
      · refine Iff.trans ?_ (verdict.2.trans ⟨fun apart _ => apart,fun apart => apart counted⟩)
        change (∃ failure, conditionChecked _ _ _ _ = .error failure) ↔ _
        rw [checked]
    · rw [if_neg fun found => counted (List.contains_iff_mem.mp found)] at step
      have failed : conditionChecked tables (none :: all) scan (conditionText condition last) = .error _ :=
        conditionChecked_error step
      split
      · refine iff_of_false (fun right => ?_) fun both => counted both.1
        have accepted := right.1
        rw [failed] at accepted
        cases accepted
      · exact iff_of_true ⟨_,failed⟩ fun found => absurd found counted

end Cases

section Claims

variable {tables : CharTables} {body : List Char}

theorem pythonGroups_length (scan : PythonScan) (text : List Char) : (pythonGroups scan text).length ≤ text.length := by
  induction text generalizing scan with
  | nil => exact Nat.le_refl 0
  | cons c rest ih =>
    have further := ih (pythonStep scan c rest)
    rw [pythonGroups]
    split <;> simp only [List.length_cons] <;> omega

theorem condition_iff {scan : Scan} {python : PythonScan} {condition last : List Char}
    (reached : Reached tables body scan python ('(' :: conditionText condition last)) (named : Named condition)
    (fits : body.length < 18446744073709551615) :
    ∃ before, pythonGroups PythonScan.start body = before ++ pythonGroups python ('(' :: conditionText condition last) ∧
      (ConditionRead tables (none :: pythonGroups PythonScan.start body) scan condition last
          (sreCondition before (pythonGroups PythonScan.start body) condition) ↔
        ConditionAlike tables scan before (pythonGroups PythonScan.start body) condition) := by
  obtain ⟨before,split⟩ := reached.before
  refine ⟨before,split,?_⟩
  have few : (pythonGroups PythonScan.start body).length < 18446744073709551615 :=
    Nat.lt_of_le_of_lt (pythonGroups_length _ _) fits
  unfold ConditionAlike
  cases inside : scan.inClass with
  | true =>
    rw [read_classed named inside]
    split
    · rename_i every
      exact ⟨fun both => .inr both.2,fun meant => ⟨every,meant.resolve_left (by decide)⟩⟩
    · rename_i other
      exact iff_of_false (fun both => other both.1) fun both => absurd both.1 (by decide)
  | false =>
    split
    · rename_i every
      exact iff_of_true (read_number named inside every few) (.inl rfl)
    · rename_i other
      rw [read_called named inside (Bool.eq_false_iff.mpr other) (named.kind.resolve_left other) split,and_iff_right rfl]

variable (tables body)

end Claims

section Sample

theorem named_n : Named ['n'] :=
  ⟨List.cons_ne_nil _ _,List.forall_mem_singleton.mpr (.inr rfl),.inr fun _ head => Option.some.inj head ▸ rfl⟩

theorem n_read : ∀ c ∈ ['n'], nameChar asciiTables c = true := List.forall_mem_singleton.mpr rfl

end Sample

end Qdrust.Pattern
