import Mathlib.Data.List.Nodup
import Qdrust.Library.Substitution

/-! Notification templates and the values that are put into them. -/
namespace Qdrust.Delivery
open Library Substitution

/-- `TemplateVars`. -/
structure TemplateVars where
  event : List Char
  taskId : Int
  taskName : List Char
  runId : Int
  status : List Char
  error : List Char
  log : List Char
  time : List Char

def eventLabel (event : List Char) : List Char :=
  if event = "success".toList then "成功".toList
  else if event = "failure".toList then "失败".toList
  else if event = "test".toList then "测试".toList
  else "通知".toList

/-- The placeholders in the order in which they are replaced. -/
def TemplateVars.vars (values : TemplateVars) : List Var :=
  [("{event}".toList,values.event),
    ("{status_cn}".toList,eventLabel values.event),
    ("{task_id}".toList,(toString values.taskId).toList),
    ("{task}".toList,values.taskName),
    ("{run_id}".toList,(toString values.runId).toList),
    ("{status}".toList,values.status),
    ("{error}".toList,values.error),
    ("{log}".toList,values.log),
    ("{t}".toList,values.time)]

def TemplateVars.render (values : TemplateVars) (value : List Char) : List Char := sequential values.vars value

/-- The placeholders as they are written. -/
def placeholders : List (List Char) :=
  ["{event}".toList,"{status_cn}".toList,"{task_id}".toList,"{task}".toList,"{run_id}".toList,"{status}".toList,
    "{error}".toList,"{log}".toList,"{t}".toList]

theorem vars_placeholders (values : TemplateVars) : values.vars.map Prod.fst = placeholders := rfl

theorem placeholder_long (values : TemplateVars) : ∀ var ∈ values.vars, 3 ≤ var.1.length := by
  have all : ∀ placeholder ∈ placeholders, 3 ≤ placeholder.length := by decide
  exact fun var inside => all var.1 (vars_placeholders values ▸ List.mem_map_of_mem inside)

theorem placeholder_some (values : TemplateVars) : ∀ var ∈ values.vars, var.1 ≠ [] := by
  rintro var inside empty
  have long := placeholder_long values var inside
  rw [empty] at long
  exact absurd long (by decide)

theorem vars_prefixFree (values : TemplateVars) : PrefixFree values.vars := by
  have apart : placeholders.Pairwise fun first second => ¬ first <+: second ∧ ¬ second <+: first := by decide
  rw [← vars_placeholders values] at apart
  exact List.pairwise_map.mp apart

theorem vars_nodup (values : TemplateVars) : values.vars.Nodup := by
  have distinct : (values.vars.map Prod.fst).Nodup := by
    rw [vars_placeholders]
    decide
  exact List.Nodup.of_map _ distinct

/-- As long as no value is part of what is replaced after it, `render` is the substitution in one
pass, and so is what any other such order of the placeholders gives. -/
theorem render_simultaneous (values : TemplateVars) (template : List Char) (untouched : Untouched values.vars template) :
    values.render template = simultaneous values.vars template ∧
      ∀ order : List Var, order.Perm values.vars → Untouched order template →
        sequential order template = values.render template := by
  have once := sequential_simultaneous (placeholder_some values) (vars_nodup values) untouched
  refine ⟨once,fun order same other => ?_⟩
  calc
    sequential order template = simultaneous order template :=
      sequential_simultaneous (fun var inside => placeholder_some values var (same.mem_iff.mp inside))
        (same.nodup_iff.mpr (vars_nodup values)) other
    _ = simultaneous values.vars template := simultaneous_perm (vars_prefixFree values) same template
    _ = values.render template := once.symm

def reminder (taskName log : String) : TemplateVars :=
  ⟨"success".toList,1,taskName.toList,7,"200".toList,[],log.toList,"12".toList⟩

/-- In a template that is one placeholder no other one of that length or longer is found. -/
theorem genuine_alone {hole var : Var} (filled : List Var) (known : hole.2.length < var.1.length)
    (other : var ≠ hole → hole.1.length < var.1.length) : Genuine filled var [.hole hole] := by
  intro front back whole
  rw [List.flatMap_cons,List.flatMap_nil,List.append_nil,Token.shown] at whole
  have sizes := congrArg List.length whole
  rw [List.length_append,List.length_append] at sizes
  split at sizes
  · omega
  · by_cases same : var = hole
    · rw [same] at sizes ⊢
      exact ⟨[],[],rfl,List.eq_nil_of_length_eq_zero (by omega)⟩
    · have longer := other same
      omega

theorem time_rendered : (reminder "{log}" "x").render "{t}".toList = "12".toList := by
  have others : ∀ placeholder ∈ placeholders, placeholder ≠ "{t}".toList → 3 < placeholder.length := by decide
  have time : ∀ var ∈ (reminder "{log}" "x").vars, var.1 = "{t}".toList → var = ("{t}".toList,"12".toList) := by decide
  have untouched : Untouched (reminder "{log}" "x").vars "{t}".toList := by
    intro filled var rest order
    have inside : var ∈ (reminder "{log}" "x").vars := by
      rw [order]
      exact List.mem_append_right filled List.mem_cons_self
    refine @genuine_alone ("{t}".toList,"12".toList) var filled (placeholder_long _ var inside) fun differ => ?_
    have written : var.1 ∈ placeholders := vars_placeholders (reminder "{log}" "x") ▸ List.mem_map_of_mem inside
    exact others var.1 written fun same => differ (time var inside same)
  have once := (render_simultaneous (reminder "{log}" "x") "{t}".toList untouched).1
  rw [once]
  decide

/-- A name that reads like a placeholder is replaced in its turn. -/
theorem name_replaced : ¬ ∀ (values : TemplateVars) (template : List Char),
    values.render template = simultaneous values.vars template := by
  intro all
  have same := all (reminder "{log}" "x") "{task}".toList
  exact absurd same (by decide)

end Qdrust.Delivery
