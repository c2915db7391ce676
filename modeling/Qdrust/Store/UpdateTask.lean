import Qdrust.Store.Templates
import Qdrust.Store.Model

/-! The update of a task: the body as it is deserialised, the request it
resolves to, and the columns it writes. The whole row is read, merged and
written back in separate steps. -/
namespace Qdrust.Store
open Library Har Template

/-- Libraries the update consults. -/
structure UpdateEnv where
  toUppercase : String → String
  cronParses : String → Bool
  urlParses : String → Bool
  timezoneParses : String → Bool
  debug : String → String

structure UpdateTask where
  name : Option String
  cron : Option String
  method : Option String
  url : Option String
  headers : Option Fields
  body : Option String
  disabled : Option Bool
  templateId : Option Int
  grp : Option (Option String)
  timeoutSeconds : Option (Option Int)
  retryCount : Option (Option Int)
  retryIntervalSeconds : Option (Option Int)
  priority : Option (Option Int)
  timezone : Option (Option String)
  randomDelayMaxSeconds : Option (Option Int)
  vars : Option (Option Json)

/-- The columns an update writes. -/
structure TaskColumns where
  name : String
  cron : String
  method : String
  url : String
  headers : Json
  body : Option String
  disabled : Bool
  templateId : Option Int
  grp : Option String
  timeoutSeconds : Option Int
  retryCount : Option Int
  retryIntervalSeconds : Option Int
  priority : Int
  timezone : Option String
  randomDelayMaxSeconds : Int
  vars : Option Json

/-- The fields of the body, each a column. -/
inductive TaskField where
  | name | cron | method | url | headers | body | disabled | templateId | grp | timeoutSeconds | retryCount
  | retryIntervalSeconds | priority | timezone | randomDelayMaxSeconds | vars
  deriving DecidableEq

namespace TaskField

def all : List TaskField := [name,cron,method,url,headers,body,disabled,templateId,grp,timeoutSeconds,retryCount,
  retryIntervalSeconds,priority,timezone,randomDelayMaxSeconds,vars]

def key : TaskField → String
  | name => "name"
  | cron => "cron"
  | method => "method"
  | url => "url"
  | headers => "headers"
  | body => "body"
  | disabled => "disabled"
  | templateId => "template_id"
  | grp => "grp"
  | timeoutSeconds => "timeout_seconds"
  | retryCount => "retry_count"
  | retryIntervalSeconds => "retry_interval_seconds"
  | priority => "priority"
  | timezone => "timezone"
  | randomDelayMaxSeconds => "random_delay_max_seconds"
  | vars => "variables"

end TaskField

def asI64 : Json → Option Int := Json.asInt (-2 ^ 63) (2 ^ 63 - 1)

/-- The fields of a body: an object that names no field twice, or all sixteen
values in order. -/
def updateFields (body : Json) : Option Fields := do
  let fields ← body.record (TaskField.all.map TaskField.key)
  if TaskField.all.all fun field => (fields.filter fun given => given.1 == field.key).length ≤ 1 then some fields
  else none

/-- `null` reads as absent, also where the field could say that it is to be
cleared. -/
def UpdateTask.ofFields (fields : Fields) : Option UpdateTask := do
  let name ← Json.fieldD fields "name" none (Json.opt Json.asStr)
  let cron ← Json.fieldD fields "cron" none (Json.opt Json.asStr)
  let method ← Json.fieldD fields "method" none (Json.opt Json.asStr)
  let url ← Json.fieldD fields "url" none (Json.opt Json.asStr)
  let headers ← Json.fieldD fields "headers" none (Json.opt Json.asObj)
  let body ← Json.fieldD fields "body" none (Json.opt Json.asStr)
  let disabled ← Json.fieldD fields "disabled" none (Json.opt Json.asBool)
  let templateId ← Json.fieldD fields "template_id" none (Json.opt asI64)
  let grp ← Json.fieldD fields "grp" none (Json.opt (Json.opt Json.asStr))
  let timeoutSeconds ← Json.fieldD fields "timeout_seconds" none (Json.opt (Json.opt asI64))
  let retryCount ← Json.fieldD fields "retry_count" none (Json.opt (Json.opt asI64))
  let retryIntervalSeconds ← Json.fieldD fields "retry_interval_seconds" none (Json.opt (Json.opt asI64))
  let priority ← Json.fieldD fields "priority" none (Json.opt (Json.opt asI64))
  let timezone ← Json.fieldD fields "timezone" none (Json.opt (Json.opt Json.asStr))
  let randomDelayMaxSeconds ← Json.fieldD fields "random_delay_max_seconds" none (Json.opt (Json.opt asI64))
  let vars ← Json.fieldD fields "variables" none (Json.opt (Json.opt some))
  return {
    name, cron, method, url, headers, body, disabled, templateId, grp, timeoutSeconds, retryCount,
    retryIntervalSeconds, priority, timezone, randomDelayMaxSeconds, vars
  }

/-- The body of the endpoint. -/
def UpdateTask.fromJson (body : Json) : Option UpdateTask := (updateFields body).bind UpdateTask.ofFields

def requestOf : Step → Option (String × String)
  | .request request => some (request.method,request.url)
  | _ => none

/-- The request a bound task mirrors. -/
def templateMirrorRequest (template : TemplateRow) : Option (String × String) :=
  match template.source with
  | .qdHar source =>
    match QdHar.parseQd source with
    | .ok har => (har.enabledEntries.head?.or har.entries.head?).map fun entry =>
      (entry.request.method,entry.request.url)
    | .error _ => none
  | .nativeV1 definition => definition.steps.findSome? requestOf

/-- A request URL, unless it is blank. -/
def requestedUrl (url : Option String) : Option String := (url.map trim).filter fun url => url ≠ ""

/-- The template of a task, among those its owner may use. -/
def boundTemplate (templates : Templates) (ownerId templateId : Option Int) : Except String (Option TemplateRow) :=
  match templateId with
  | none => .ok none
  | some templateId => match templates.get templateId ownerId with
    | some template => .ok (some template)
    | none => .error ("template " ++ toString templateId ++ " not found")

def resolveTaskRequest (env : UpdateEnv) (templates : Templates) (ownerId templateId : Option Int)
    (method url : Option String) (current : Option (String × String)) : Except String (String × String) := do
  let template ← boundTemplate templates ownerId templateId
  match requestedUrl url with
  | some url => return (env.toUppercase (method.getD "GET"),url)
  | none =>
    match template.bind templateMirrorRequest with
    | some mirrored => return mirrored
    | none => match current with
      | some (storedMethod,storedUrl) => return (env.toUppercase (method.getD storedMethod),storedUrl)
      | none =>
        if template.isSome then
          throw "the bound template has no request to mirror, set the task URL explicitly"
        else throw "task URL is required when no template is bound"

def validate (env : UpdateEnv) (name schedule : String) (url timezone : Option String) : Except String Unit := do
  ensure (trim name ≠ "") "name cannot be empty"
  ensure (env.cronParses schedule) ("invalid cron expression " ++ env.debug schedule ++
    ": expected 6-7 fields (sec min hour day-of-month month day-of-week [year]) or a shorthand like @daily")
  ensure (url.all env.urlParses) "invalid task URL"
  ensure ((timezone.filter fun timezone => trim timezone ≠ "").all env.timezoneParses) "invalid timezone"

def mergeOptional {α : Type} (input : Option (Option α)) (current : Option α) : Option α := input.getD current

/-- What is written over the row that was read. -/
def mergeColumns (current : Task) (input : UpdateTask) (request : String × String) : TaskColumns where
  name := input.name.getD current.name
  cron := input.cron.getD current.cron
  method := request.1
  url := request.2
  headers := (input.headers.map Json.obj).getD current.headers
  body := input.body.or current.body
  disabled := input.disabled.getD current.disabled
  templateId := input.templateId.or current.templateId
  grp := match input.grp with
    | some grp => grp
    | none => current.grp
  timeoutSeconds := mergeOptional input.timeoutSeconds current.timeoutSeconds
  retryCount := mergeOptional input.retryCount current.retryCount
  retryIntervalSeconds := mergeOptional input.retryIntervalSeconds current.retryIntervalSeconds
  priority := (mergeOptional input.priority current.priority).getD 0
  timezone := mergeOptional input.timezone current.timezone
  randomDelayMaxSeconds := (mergeOptional input.randomDelayMaxSeconds current.randomDelayMaxSeconds).getD 0
  vars := mergeOptional input.vars current.vars

/-- Everything between the read of the row and the write. -/
def prepareUpdate (env : UpdateEnv) (templates : Templates) (ownerId : Option Int) (current : Task)
    (input : UpdateTask) : Except String TaskColumns := do
  let templateId := input.templateId.or current.templateId
  let request ← resolveTaskRequest env templates ownerId templateId input.method input.url
    (some (current.method,current.url))
  validate env (input.name.getD current.name) (input.cron.getD current.cron)
    (if templateId.isNone then some request.2 else none) (input.timezone.bind id)
  return mergeColumns current input request

def TaskRow.columns (row : TaskRow) : TaskColumns where
  name := row.name
  cron := row.cron
  method := row.method
  url := row.url
  headers := row.headers
  body := row.body
  disabled := row.disabled
  templateId := row.templateId
  grp := row.grp
  timeoutSeconds := row.timeoutSeconds
  retryCount := row.retryCount
  retryIntervalSeconds := row.retryIntervalSeconds
  priority := row.priority
  timezone := row.timezone
  randomDelayMaxSeconds := row.randomDelayMaxSeconds
  vars := row.vars

/-- `UPDATE tasks SET ..`; the other columns stay as they are. -/
def TaskRow.assign (row : TaskRow) (columns : TaskColumns) (now : Int) : TaskRow :=
  { row with
    name := columns.name
    cron := columns.cron
    method := columns.method
    url := columns.url
    headers := columns.headers
    body := columns.body
    disabled := columns.disabled
    templateId := columns.templateId
    grp := columns.grp
    timeoutSeconds := columns.timeoutSeconds
    retryCount := columns.retryCount
    retryIntervalSeconds := columns.retryIntervalSeconds
    priority := columns.priority
    timezone := columns.timezone
    randomDelayMaxSeconds := columns.randomDelayMaxSeconds
    vars := columns.vars
    updatedAt := now }

theorem TaskRow.assign_id (row : TaskRow) (columns : TaskColumns) (now : Int) : (row.assign columns now).id = row.id :=
  rfl

/-- One call with nothing in between; `none` is a task that is not there. -/
def updateForOptionalOwner (env : UpdateEnv) (templates : Templates) (tasks : Table TaskRow TaskRow.id) (id : Int)
    (ownerId : Option Int) (input : UpdateTask) (now : Int) : Except String (Option (Table TaskRow TaskRow.id)) :=
  match tasks.rows.find? fun row => row.id = id && (ownerId.isNone || row.ownerId = ownerId) with
  | none => .ok none
  | some row => do
    let columns ← prepareUpdate env templates ownerId (taskFromRow row) input
    return some (tasks.update (fun row => row.id = id) (fun row => row.assign columns now)
      fun row => row.assign_id columns now)

end Qdrust.Store
