import Qdrust.Template.Definition

/-! Which native templates the validation accepts. -/
namespace Qdrust.Template
open Library

section Steps

/-- The checks of a step on its own fields. -/
def Step.Valid : Step → Prop
  | .request fields => blank fields.name = false ∧ blank fields.url = false ∧ fields.method.toUpper ∈ httpMethods
  | .extract fields => blank fields.name = false ∧ blank fields.target = false ∧ (fields.source = .status ∨ fields.selector ≠ "")
  | .ifElse condition _ _ => blank condition = false
  | .forEach item items _ => blank item = false ∧ blank items = false
  | .delay milliseconds => milliseconds ≤ 300000

/-- How deep a step reaches: the bodies of a step are one deeper, with steps in them or without. -/
def Step.reach (depth : Nat) : Step → Nat
  | .ifElse _ _ _ => depth + 1
  | .forEach _ _ _ => depth + 1
  | _ => depth

mutual
/-- The steps in the bodies of a step, with their depths. -/
def nested (depth : Nat) : Step → List (Nat × Step)
  | .ifElse _ thenSteps otherwise => allSteps (depth + 1) thenSteps ++ allSteps (depth + 1) otherwise
  | .forEach _ _ steps => allSteps (depth + 1) steps
  | _ => []
/-- Every step of a list and of the bodies in it, with its depth. -/
def allSteps (depth : Nat) : List Step → List (Nat × Step)
  | [] => []
  | step :: rest => (depth,step) :: (nested depth step ++ allSteps depth rest)
end

/-- A step that is valid, and reaches no deeper than it may. -/
def Sound (entry : Nat × Step) : Prop := entry.2.Valid ∧ entry.2.reach entry.1 ≤ maxNestingDepth

end Steps

section Checks

attribute [local simp] validateStep nested

theorem length_le_allSteps (depth : Nat) (steps : List Step) : steps.length ≤ (allSteps depth steps).length := by
  induction steps with
  | nil => exact Nat.le_refl _
  | cons step rest ih =>
    rw [allSteps,List.length_cons,List.length_cons,List.length_append]
    omega

theorem enterSteps_ok {depth : Nat} {steps : List Step} {count result : Nat} :
    enterSteps depth steps count = .ok result ↔
      depth ≤ maxNestingDepth ∧ count + steps.length ≤ maxSteps ∧ result = count + steps.length := by
  rw [enterSteps,check_ok,check_ok,ensure_ok,ensure_ok,decide_eq_true_iff,decide_eq_true_iff]
  exact and_congr_right fun _ => and_congr_right fun _ => ⟨fun same => by cases same; rfl,fun same => by rw [same]; rfl⟩

/-- What the checks on a list of steps come to, from a count that is not too large. -/
def Checked (depth : Nat) (steps : List Step) : Prop :=
  ∀ count result, depth ≤ maxNestingDepth → count ≤ maxSteps →
    (validateEach depth count steps = .ok result ↔
      (∀ entry ∈ allSteps depth steps, Sound entry) ∧ result + steps.length = count + (allSteps depth steps).length ∧ result ≤ maxSteps)

/-- A body is entered, and then each of its steps is checked. -/
theorem body_ok {depth : Nat} {steps : List Step} (checked : Checked depth steps) {count result : Nat} :
    (enterSteps depth steps count >>= fun count => validateEach depth count steps) = .ok result ↔
      depth ≤ maxNestingDepth ∧ (∀ entry ∈ allSteps depth steps, Sound entry) ∧
        result = count + (allSteps depth steps).length ∧ result ≤ maxSteps := by
  rw [bind_ok]
  constructor
  · rintro ⟨entered,enter,each⟩
    obtain ⟨shallow,few,rfl⟩ := enterSteps_ok.mp enter
    obtain ⟨all,total,small⟩ := (checked _ _ shallow few).mp each
    exact ⟨shallow,all,by omega,small⟩
  · rintro ⟨shallow,all,rfl,small⟩
    have more := length_le_allSteps depth steps
    have few : count + steps.length ≤ maxSteps := by omega
    exact ⟨_,enterSteps_ok.mpr ⟨shallow,few,rfl⟩,(checked _ _ shallow few).mpr ⟨all,by omega,small⟩⟩

/-- What the checks on a step come to. -/
def StepChecked (depth : Nat) (step : Step) : Prop :=
  ∀ count result, depth ≤ maxNestingDepth → count ≤ maxSteps →
    (validateStep depth count step = .ok result ↔
      Sound (depth,step) ∧ (∀ entry ∈ nested depth step, Sound entry) ∧ result = count + (nested depth step).length ∧ result ≤ maxSteps)

/-- A step without bodies leaves the count as it is. -/
theorem plain_checked {depth : Nat} {step : Step} (none : nested depth step = []) (flat : step.reach depth = depth)
    (valid : ∀ count result, validateStep depth count step = .ok result ↔ step.Valid ∧ result = count) : StepChecked depth step := by
  intro count result shallow few
  rw [valid,none,List.length_nil,Nat.add_zero]
  constructor
  · rintro ⟨valid,rfl⟩
    exact ⟨⟨valid,Nat.le_trans (Nat.le_of_eq flat) shallow⟩,List.forall_mem_nil _,rfl,few⟩
  · rintro ⟨⟨valid,_⟩,_,same,_⟩
    exact ⟨valid,same⟩

theorem return_ok {count result : Nat} : (return count : Except String Nat) = .ok result ↔ result = count :=
  ⟨fun same => by cases same; rfl,fun same => by rw [same]; rfl⟩

theorem request_checked (depth : Nat) (fields : RequestStep) : StepChecked depth (.request fields) := by
  refine plain_checked rfl rfl fun count result => ?_
  simp only [validateStep,check_ok,ensure_ok,return_ok,Step.Valid,Bool.not_eq_true',decide_eq_true_iff,and_assoc]

theorem extract_checked (depth : Nat) (fields : ExtractStep) : StepChecked depth (.extract fields) := by
  refine plain_checked rfl rfl fun count result => ?_
  simp only [validateStep,check_ok,ensure_ok,return_ok,Step.Valid,Bool.not_eq_true',Bool.or_eq_true,decide_eq_true_iff,and_assoc]

theorem delay_checked (depth milliseconds : Nat) : StepChecked depth (.delay milliseconds) := by
  refine plain_checked rfl rfl fun count result => ?_
  simp only [validateStep,check_ok,ensure_ok,return_ok,Step.Valid,decide_eq_true_iff]

theorem ifElse_checked {depth : Nat} {condition : String} {thenSteps otherwise : List Step} (first : Checked (depth + 1) thenSteps)
    (second : Checked (depth + 1) otherwise) : StepChecked depth (.ifElse condition thenSteps otherwise) := by
  intro count result shallow few
  have step : validateStep depth count (.ifElse condition thenSteps otherwise) = .ok result ↔
      blank condition = false ∧ ∃ between,
        (enterSteps (depth + 1) thenSteps count >>= fun count => validateEach (depth + 1) count thenSteps) = .ok between ∧
        (enterSteps (depth + 1) otherwise between >>= fun count => validateEach (depth + 1) count otherwise) = .ok result := by
    rw [validateStep,check_ok,ensure_ok,Bool.not_eq_true',← bind_ok]
    exact and_congr_right fun _ => by rw [bind_assoc]
  rw [step,nested,List.length_append,List.forall_mem_append]
  constructor
  · rintro ⟨valid,between,body,other⟩
    obtain ⟨deep,all,rfl,_⟩ := (body_ok first).mp body
    obtain ⟨_,rest,rfl,small⟩ := (body_ok second).mp other
    exact ⟨⟨valid,deep⟩,⟨all,rest⟩,Nat.add_assoc _ _ _,small⟩
  · rintro ⟨⟨valid,deep⟩,⟨all,rest⟩,rfl,small⟩
    exact ⟨valid,_,(body_ok first).mpr ⟨deep,all,rfl,by omega⟩,(body_ok second).mpr ⟨deep,rest,(Nat.add_assoc _ _ _).symm,small⟩⟩

theorem forEach_checked {depth : Nat} {item items : String} {steps : List Step} (body : Checked (depth + 1) steps) :
    StepChecked depth (.forEach item items steps) := by
  intro count result shallow few
  simp only [validateStep,check_ok,ensure_ok,Bool.not_eq_true',nested]
  rw [body_ok body]
  constructor
  · rintro ⟨name,list,deep,all,total,small⟩
    exact ⟨⟨⟨name,list⟩,deep⟩,all,total,small⟩
  · rintro ⟨⟨⟨name,list⟩,deep⟩,all,total,small⟩
    exact ⟨name,list,deep,all,total,small⟩

theorem nil_checked (depth : Nat) : Checked depth [] := by
  intro count result _ few
  simp only [validateEach,allSteps,List.length_nil,Nat.add_zero]
  constructor
  · intro same
    cases same
    exact ⟨List.forall_mem_nil _,rfl,few⟩
  · rintro ⟨_,rfl,_⟩
    rfl

theorem cons_checked {depth : Nat} {step : Step} {rest : List Step} (first : StepChecked depth step) (later : Checked depth rest) :
    Checked depth (step :: rest) := by
  intro count result shallow few
  have more := length_le_allSteps depth rest
  rw [validateEach,bind_ok,allSteps,List.forall_mem_cons,List.forall_mem_append,List.length_cons,List.length_cons,List.length_append]
  constructor
  · rintro ⟨between,one,each⟩
    obtain ⟨sound,below,rfl,small⟩ := (first _ _ shallow few).mp one
    obtain ⟨all,total,least⟩ := (later _ _ shallow small).mp each
    exact ⟨⟨sound,below,all⟩,by omega,least⟩
  · rintro ⟨⟨sound,below,all⟩,total,least⟩
    have small : count + (nested depth step).length ≤ maxSteps := by omega
    exact ⟨_,(first _ _ shallow few).mpr ⟨sound,below,rfl,small⟩,(later _ _ shallow small).mpr ⟨all,by omega,least⟩⟩

mutual
theorem step_checked (depth : Nat) : ∀ step, StepChecked depth step
  | .request fields => request_checked depth fields
  | .extract fields => extract_checked depth fields
  | .ifElse _ thenSteps otherwise => ifElse_checked (steps_checked (depth + 1) thenSteps) (steps_checked (depth + 1) otherwise)
  | .forEach _ _ steps => forEach_checked (steps_checked (depth + 1) steps)
  | .delay milliseconds => delay_checked depth milliseconds
theorem steps_checked (depth : Nat) : ∀ steps, Checked depth steps
  | [] => nil_checked depth
  | step :: rest => cons_checked (step_checked depth step) (steps_checked depth rest)
end

end Checks

/-- A template is accepted exactly when its version is supported, it has a name and steps, all its steps with those of every body are no
more than the limit, and each of them is valid and has no body that is too deep. -/
theorem validate_iff (definition : TemplateDefinition) : definition.validate = .ok () ↔
    definition.version = templateSchemaVersion ∧ blank definition.name = false ∧ definition.steps ≠ [] ∧
      (allSteps 0 definition.steps).length ≤ maxSteps ∧ ∀ entry ∈ allSteps 0 definition.steps, Sound entry := by
  rw [TemplateDefinition.validate,check_ok,check_ok,check_ok,ensure_ok,ensure_ok,ensure_ok,bind_ok,decide_eq_true_iff,Bool.not_eq_true',
    Bool.not_eq_true',List.isEmpty_eq_false_iff]
  refine and_congr_right fun _ => and_congr_right fun _ => and_congr_right fun _ => ?_
  have steps (result : Nat) := @body_ok 0 definition.steps (steps_checked 0 definition.steps) 0 result
  constructor
  · rintro ⟨result,checked,_⟩
    obtain ⟨_,all,rfl,small⟩ := (steps result).mp checked
    exact ⟨by omega,all⟩
  · rintro ⟨small,all⟩
    exact ⟨_,(steps _).mpr ⟨Nat.zero_le _,all,rfl,by omega⟩,rfl⟩

theorem request_accepted :
    (⟨1,"check-in",[],[.request ⟨"sign","post","https://example.com",[],[],none⟩]⟩ : TemplateDefinition).validate = .ok () := by
  refine (validate_iff _).mpr ⟨rfl,by decide,by simp,by decide,?_⟩
  refine List.forall_mem_singleton.mpr ⟨⟨by decide,by decide,by decide +kernel⟩,by decide⟩

section Deep

/-- So many conditions in one another, the innermost with empty bodies. -/
def deepIf : Nat → Step
  | 0 => .ifElse "x" [] []
  | n + 1 => .ifElse "x" [deepIf n] []

theorem deepIf_steps (n depth : Nat) : (allSteps depth [deepIf n]).length = n + 1 ∧
    ∀ entry ∈ allSteps depth [deepIf n], entry.1 ≤ depth + n ∧ entry.2.Valid := by
  induction n generalizing depth with
  | zero => exact ⟨rfl,List.forall_mem_singleton.mpr ⟨Nat.le_refl _,(rfl : blank "x" = false)⟩⟩
  | succ n ih =>
    obtain ⟨count,all⟩ := ih (depth + 1)
    have unfolded : allSteps depth [deepIf (n + 1)] = (depth,deepIf (n + 1)) :: allSteps (depth + 1) [deepIf n] := by
      rw [allSteps,deepIf,nested]
      simp only [allSteps,List.append_nil]
    rw [unfolded,List.length_cons,count]
    refine ⟨rfl,List.forall_mem_cons.mpr ⟨⟨Nat.le_add_right _ _,(rfl : blank "x" = false)⟩,fun entry inside => ?_⟩⟩
    obtain ⟨shallow,valid⟩ := all entry inside
    exact ⟨by omega,valid⟩

/-- A condition at the deepest level is refused, though its bodies are empty. -/
theorem empty_body_too_deep :
    ¬ ∀ definition : TemplateDefinition, definition.version = 1 → definition.steps ≠ [] → blank definition.name = false →
      (definition.validate = .ok () ↔ (allSteps 0 definition.steps).length ≤ maxSteps ∧
        ∀ entry ∈ allSteps 0 definition.steps, entry.1 ≤ maxNestingDepth ∧ entry.2.Valid) := by
  intro all
  have refused : (⟨1,"deep",[],[deepIf 16]⟩ : TemplateDefinition).validate = .error "template nesting is too deep" := rfl
  obtain ⟨count,steps⟩ := deepIf_steps 16 0
  have accepted := (all ⟨1,"deep",[],[deepIf 16]⟩ rfl (List.cons_ne_nil _ _) (by decide)).mpr
    ⟨by rw [count]; decide,fun entry inside => ⟨Nat.le_trans (steps entry inside).1 (by decide),(steps entry inside).2⟩⟩
  rw [refused] at accepted
  cases accepted

end Deep

end Qdrust.Template
