import Qdrust.Tenancy.Statements

/-! What users do with the rows they own and what a run does with a task, statement by statement.
The errors of the statements and of the checks between them are returned. -/
namespace Qdrust.Tenancy
open Library Concurrent Har Store Template
open Subscriptions (Web catalogue byName)
open Subscriptions.Imports (TemplateSubscription TemplateImport ImportCall Persist ApplyLibraryTemplate LibraryImportResult
  LibraryImportOutcome prepareEntry prepareApply bounded validName validUrl)
open PushRequests (PushRequest)

/-- Checks of other modules. -/
structure Env extends UpdateEnv where
  validateNotification : String → String → Json → Except String Unit

abbrev Calls := Fallible Statement Statement.Answer String

abbrev ask (statement : Statement) : Calls statement.Answer := query "error returned from database" statement

/-- A row that has to be there. -/
def found {α : Type} (missing : String) (row : Option α) : Calls α := decided (row.elim (.error missing) .ok)

section Templates

def createTemplateForOwner (ownerId : Int) (name : String) (definition : TemplateDefinition) : Calls TemplateRow := do
  decided (validateTemplateName name)
  decided definition.validate
  let id ← ask (.insertTemplate ownerId name (.nativeV1 definition))
  let row ← ask (.getTemplate id none)
  found "created template disappeared" row

def importQdHarForOwner (ownerId : Int) (name : String) (har : Json) : Calls TemplateRow := do
  decided (validateTemplateName name)
  let _ ← decided (QdHar.parseQd har)
  let id ← ask (.insertTemplate ownerId name (.qdHar har))
  let row ← ask (.getTemplate id none)
  found "imported template disappeared" row

def updateQdHarForOwner (id ownerId : Int) (name : String) (har : Json) : Calls (Option TemplateRow) := do
  decided (validateTemplateName name)
  let _ ← decided (QdHar.parseQd har)
  let changed ← ask (.updateQdHar id ownerId name har)
  if changed = 0 then return none else ask (.getTemplate id (some ownerId))

/-- The definition to be stored, after the checks. -/
def checkTemplateUpdate (current : TemplateRow) (name : String) (definition : Option TemplateDefinition) :
    Except String TemplateDefinition := do
  validateTemplateName name
  match current.source with
  | .qdHar _ => .error "QD HAR templates must be edited through the HAR API"
  | .nativeV1 stored => do
    (definition.getD stored).validate
    return definition.getD stored

def updateTemplateForOwner (id ownerId : Int) (name : Option String) (definition : Option TemplateDefinition) :
    Calls (Option TemplateRow) := do
  match ← ask (.getTemplate id (some ownerId)) with
  | none => return none
  | some current => do
    let name := name.getD current.name
    let definition ← decided (checkTemplateUpdate current name definition)
    let changed ← ask (.updateTemplate id ownerId name definition)
    if changed = 0 then return none else ask (.getTemplate id (some ownerId))

def setTemplatePublished (id ownerId : Int) (published : Bool) : Calls Bool := do
  let changed ← ask (.setTemplatePublished id ownerId published)
  return 0 < changed

def copyPublicTemplate (id ownerId : Int) : Calls (Option TemplateRow) := do
  match ← ask (.getPublicTemplate id) with
  | none => return none
  | some row => do
    let copy ← ask (.insertTemplate ownerId (row.name ++ " (copy)") row.source)
    ask (.getTemplate copy (some ownerId))

end Templates

section Tasks

/-- What `resolve_task_request` makes of the template it found. -/
def mirroredRequest (env : UpdateEnv) (template : Option TemplateRow) (method url : Option String)
    (current : Option (String × String)) : Except String (String × String) :=
  match requestedUrl url with
  | some url => .ok (env.toUppercase (method.getD "GET"),url)
  | none =>
    match template.bind templateMirrorRequest with
    | some mirrored => .ok mirrored
    | none => match current with
      | some (storedMethod,storedUrl) => .ok (env.toUppercase (method.getD storedMethod),storedUrl)
      | none =>
        if template.isSome then
          .error "the bound template has no request to mirror, set the task URL explicitly"
        else .error "task URL is required when no template is bound"

/-- Where nothing comes between, the request is that of `Store.resolveTaskRequest`. -/
theorem resolveTaskRequest_eq (env : UpdateEnv) (templates : Templates) (ownerId templateId : Option Int)
    (method url : Option String) (current : Option (String × String)) :
    Store.resolveTaskRequest env templates ownerId templateId method url current =
      boundTemplate templates ownerId templateId >>= fun template => mirroredRequest env template method url current := rfl

/-- The template a task is to be bound to. -/
def ownedTemplate (ownerId : Int) (templateId : Option Int) : Calls (Option TemplateRow) :=
  match templateId with
  | none => return none
  | some templateId => do
    let row ← ask (.getTemplate templateId (some ownerId))
    let template ← found ("template " ++ toString templateId ++ " not found") row
    return some template

def resolveTaskRequest (env : UpdateEnv) (ownerId : Int) (templateId : Option Int) (method url : Option String)
    (current : Option (String × String)) : Calls (String × String) := do
  let template ← ownedTemplate ownerId templateId
  decided (mirroredRequest env template method url current)

structure CreateTask where
  name : String
  cron : String
  method : Option String
  url : String
  headers : Fields
  body : Option String
  disabled : Bool
  templateId : Option Int
  grp : Option String
  timeoutSeconds : Option Int
  retryCount : Option Int
  retryIntervalSeconds : Option Int
  priority : Option Int
  timezone : Option String
  randomDelayMaxSeconds : Option Int
  vars : Option Json

def CreateTask.columns (input : CreateTask) (request : String × String) : TaskColumns where
  name := input.name
  cron := input.cron
  method := request.1
  url := request.2
  headers := .obj input.headers
  body := input.body
  disabled := input.disabled
  templateId := input.templateId
  grp := input.grp
  timeoutSeconds := input.timeoutSeconds
  retryCount := input.retryCount
  retryIntervalSeconds := input.retryIntervalSeconds
  priority := input.priority.getD 0
  timezone := input.timezone
  randomDelayMaxSeconds := input.randomDelayMaxSeconds.getD 0
  vars := input.vars

def createForOwner (env : UpdateEnv) (ownerId : Int) (input : CreateTask) (now : Int) : Calls TaskRow := do
  let request ← resolveTaskRequest env ownerId input.templateId input.method (some input.url) none
  decided (validate env input.name input.cron (if input.templateId.isNone then some request.2 else none) input.timezone)
  let id ← ask (.insertTask ownerId (input.columns request) now)
  let row ← ask (.getTask id none)
  found "created task disappeared" row

def updateForOwner (env : UpdateEnv) (id ownerId : Int) (input : UpdateTask) (now : Int) : Calls (Option TaskRow) := do
  match ← ask (.getTask id (some ownerId)) with
  | none => return none
  | some row => do
    let current := taskFromRow row
    let templateId := input.templateId.or current.templateId
    let request ← resolveTaskRequest env ownerId templateId input.method input.url (some (current.method,current.url))
    decided (validate env (input.name.getD current.name) (input.cron.getD current.cron)
      (if templateId.isNone then some request.2 else none) input.timezone.join)
    let _ ← ask (.updateTask id (mergeColumns current input request) now)
    ask (.getTask id none)

end Tasks

section Notifications

structure CreateNotificationChannel where
  name : String
  kind : String
  config : Json
  enabled : Bool

structure UpdateNotificationChannel where
  name : Option String
  config : Option Json
  enabled : Option Bool

def createNotificationChannel (env : Env) (ownerId : Int) (input : CreateNotificationChannel) : Calls NotificationChannel := do
  decided (env.validateNotification input.name input.kind input.config)
  let id ← ask (.insertChannel ownerId (trim input.name) input.kind input.config input.enabled)
  let row ← ask (.getChannel id ownerId)
  found "created notification channel disappeared" row

def updateNotificationChannel (env : Env) (id ownerId : Int) (input : UpdateNotificationChannel) :
    Calls (Option NotificationChannel) := do
  match ← ask (.getChannel id ownerId) with
  | none => return none
  | some current => do
    let name := input.name.getD current.name
    let config := input.config.getD current.config
    decided (env.validateNotification name current.kind config)
    let _ ← ask (.updateChannel id ownerId (trim name) config (input.enabled.getD current.enabled))
    ask (.getChannel id ownerId)

def validEvent (event : String) : Except String Unit :=
  ensure (event ∈ ["success","failure","always"]) "invalid notification event"

def validThreshold (failureThreshold : Int) : Except String Unit :=
  ensure (0 < failureThreshold) "failure threshold must be positive"

/-- `CreateNotificationAction` has the columns of the binding. -/
def createNotificationAction (taskId ownerId : Int) (input : ActionColumns) : Calls (Option NotificationAction) := do
  decided (validEvent input.event)
  decided (validThreshold input.failureThreshold)
  let owns ← ask (.ownsTaskAndChannel taskId ownerId input.channelId)
  if !owns then return none
  else do
    let id ← ask (.insertAction taskId input)
    ask (.getAction id ownerId)

def createNotificationActionsForTasks (ownerId : Int) (input : ActionColumns) : List Int → Nat → Calls Nat
  | [],created => return created
  | taskId :: rest,created => do
    let action ← createNotificationAction taskId ownerId input
    createNotificationActionsForTasks ownerId input rest (if action.isSome then created + 1 else created)

structure UpdateNotificationAction where
  channelId : Option Int
  event : Option String
  failureThreshold : Option Int
  automaticOnly : Option Bool
  titleTemplate : Option String
  bodyTemplate : Option String

def blankToNone (value : String) : Option String := if trim value = "" then none else some value

def mergeAction (current : NotificationAction) (input : UpdateNotificationAction) : ActionColumns where
  channelId := input.channelId.getD current.channelId
  event := input.event.getD current.event
  failureThreshold := input.failureThreshold.getD current.failureThreshold
  automaticOnly := input.automaticOnly.getD current.automaticOnly
  titleTemplate := match input.titleTemplate with
    | some value => blankToNone value
    | none => current.titleTemplate
  bodyTemplate := match input.bodyTemplate with
    | some value => blankToNone value
    | none => current.bodyTemplate

def updateNotificationAction (id ownerId : Int) (input : UpdateNotificationAction) : Calls (Option NotificationAction) := do
  decided (input.event.elim (.ok ()) validEvent)
  decided (input.failureThreshold.elim (.ok ()) validThreshold)
  match ← ask (.getAction id ownerId) with
  | none => return none
  | some current => do
    let columns := mergeAction current input
    -- the channel that the binding already has is not looked up again
    let owned ← if columns.channelId ≠ current.channelId then ask (.ownsChannel columns.channelId ownerId) else pure true
    if !owned then return none
    else do
      let _ ← ask (.updateAction id ownerId columns)
      ask (.getAction id ownerId)

end Notifications

section Sources

def validSubscription (name url : String) : Except String Unit := do
  ensure (validName name) "invalid subscription name"
  ensure (validUrl url) "subscription URL must be http(s)"

def getSubscription (id ownerId : Int) : Calls TemplateSubscription := do
  let row ← ask (.getSubscription id ownerId)
  found "Subscription not found" row

def createSubscription (ownerId : Int) (name url : String) : Calls TemplateSubscription := do
  decided (validSubscription (trim name) (trim url))
  let id ← ask (.insertSubscription ownerId (trim name) (trim url))
  let row ← ask (.getSubscription id ownerId)
  found "created subscription disappeared" row

def updateSubscription (id ownerId : Int) (name url : Option String) : Calls (Option TemplateSubscription) := do
  match ← ask (.getSubscription id ownerId) with
  | none => return none
  | some current => do
    let name := name.getD current.name
    let url := url.getD current.url
    decided (validSubscription name url)
    let _ ← ask (.updateSubscription id ownerId name url)
    ask (.getSubscription id ownerId)

def recordTemplateImport (subscriptionId templateId : Int) (entry : Subscriptions.RawEntry) : Calls Unit := do
  let changed ← ask (.updateImport subscriptionId templateId entry)
  if changed = 0 then do
    let _ ← ask (.insertImport subscriptionId templateId entry)
    return ()
  else return ()

/-- The template of the entry: refreshed where there is one, and inserted where there is none. -/
def persistTemplate (p : Persist) : Calls (Int × Bool) := do
  let ownerId := p.subscription.ownerId
  let existing ← match p.linkedTemplateId with
    | some id => pure (some id)
    | none => ask (.findTemplateByName ownerId p.name)
  match existing with
  | some id => do
    let row ← updateQdHarForOwner id ownerId p.name p.har
    let template ← found ("template " ++ toString id ++ " disappeared while importing") row
    return (template.id,true)
  | none => do
    let template ← importQdHarForOwner ownerId p.name p.har
    return (template.id,false)

def persistEntry (p : Persist) : Calls (Int × Bool) := do
  let persisted ← persistTemplate p
  recordTemplateImport p.subscription.id persisted.1 p.entry
  return persisted

def importEntry (call : ImportCall) (entry : Subscriptions.RawEntry) : Calls (Int × Bool) := do
  let p ← decided (prepareEntry call entry)
  persistEntry p

/-- The loop of `import_selected`. An entry that fails is recorded, and the next one is taken. -/
def importEach : List String → ImportCall → Calls LibraryImportResult
  | [],call => return call.result
  | name :: rest,call =>
    if name ∈ call.seen then importEach rest call
    else match byName call.entries name with
      | none => importEach rest (call.advance name rest (call.result.fail name "this source does not offer that template"))
      | some entry => do
        let imported ← outcome (importEntry call entry)
        importEach rest (call.advance name rest (match imported with
          | .ok (templateId,updated) => call.result.add entry.name templateId updated
          | .error error => call.result.fail name (bounded error)))

def importSelected (id ownerId : Int) (names : List String) (web : Web) : Calls LibraryImportResult := do
  let subscription ← getSubscription id ownerId
  decided (ensure (!names.isEmpty) "no templates selected")
  let entries ← decided (catalogue web subscription.url)
  let linked ← ask (.listTemplateImports subscription.id)
  importEach names ⟨subscription,entries,linked,web,names,[],⟨0,0,[],[]⟩⟩

def apply (id ownerId : Int) (input : ApplyLibraryTemplate) (web : Web) : Calls LibraryImportOutcome := do
  let subscription ← getSubscription id ownerId
  let p ← decided (prepareApply subscription input web)
  let persisted ← persistEntry p
  return ⟨p.entry.name,persisted.1,persisted.2⟩

end Sources

def createPushRequest (ownerId templateId : Int) (note : Option String) (now : Int) : Calls (Option PushRequest) := do
  match ← ask (.getTemplate templateId (some ownerId)) with
  | none => return none
  | some _ => do
    let published ← ask (.templatePublished templateId ownerId)
    let alreadyPublic ← found "no rows returned by a query that expected to return at least one row" published
    if alreadyPublic then return none
    else do
      decided (ensure ((note.map trim).all fun note => note ≠ "") "push request note cannot be empty")
      let id ← ask (.insertPushRequest ownerId templateId (note.map trim) now)
      let row ← ask (.getPushRequest id)
      let request ← found "push request disappeared" row
      return some request

section Runs

/-- The execution of a task: its template, or its own request. -/
def executeTask (task : TaskRow) : Calls Unit :=
  match task.templateId with
  | none => ask (.execute task none)
  | some templateId => do
    let row ← ask (.getTemplate templateId none)
    let template ← found "task template not found" row
    ask (.execute task (some template))

/-- What the scheduler reads of the run besides. -/
structure RunFacts where
  automatic : Bool
  failureCount : Int
  cancelled : Bool

def notifies (facts : RunFacts) (event : String) (action : NotificationAction) : Bool :=
  (!action.automaticOnly || facts.automatic) && !(event == "failure" && facts.failureCount < action.failureThreshold)

/-- A delivery that fails is logged, and the next one is made. -/
def notifyEach (task : TaskRow) : List NotificationChannel → Calls Unit
  | [] => return ()
  | channel :: rest => do
    let _ ← outcome (ask (.notify task channel))
    notifyEach task rest

def sendNotifications (task : TaskRow) (facts : RunFacts) (event : String) : Calls Unit := do
  let deliveries ← ask (.channelsForEvent task.id event)
  notifyEach task ((deliveries.filter fun delivery => notifies facts event delivery.1).map Prod.snd)

def executeWithRun (task : TaskRow) (facts : RunFacts) : Calls Unit := do
  let executed ← outcome (executeTask task)
  match executed with
  | .ok () => sendNotifications task facts "success"
  | .error _ => if facts.cancelled then return () else sendNotifications task facts "failure"

def runTask (taskId : Int) (facts : RunFacts) : Calls Unit := do
  match ← ask (.getTask taskId none) with
  | none => return ()
  | some task => executeWithRun task facts

end Runs

/-- What a user asks for, and the runs of the scheduler. -/
inductive Job where
  | createTemplate (ownerId : Int) (name : String) (definition : TemplateDefinition)
  | importQdHar (ownerId : Int) (name : String) (har : Json)
  | updateTemplate (id ownerId : Int) (name : Option String) (definition : Option TemplateDefinition)
  | updateQdHar (id ownerId : Int) (name : String) (har : Json)
  | setTemplatePublished (id ownerId : Int) (published : Bool)
  | copyPublicTemplate (id ownerId : Int)
  | deleteTemplate (id ownerId : Int)
  | createTask (ownerId : Int) (input : CreateTask) (now : Int)
  | updateTask (id ownerId : Int) (input : UpdateTask) (now : Int)
  | deleteTask (id ownerId : Int)
  | createChannel (ownerId : Int) (input : CreateNotificationChannel)
  | updateChannel (id ownerId : Int) (input : UpdateNotificationChannel)
  | deleteChannel (id ownerId : Int)
  | createAction (taskId ownerId : Int) (input : ActionColumns)
  | createActions (ownerId : Int) (taskIds : List Int) (input : ActionColumns)
  | updateAction (id ownerId : Int) (input : UpdateNotificationAction)
  | deleteAction (id ownerId : Int)
  | createSubscription (ownerId : Int) (name url : String)
  | updateSubscription (id ownerId : Int) (name url : Option String)
  | deleteSubscription (id ownerId : Int)
  | importSelected (id ownerId : Int) (names : List String) (web : Web)
  | apply (id ownerId : Int) (input : ApplyLibraryTemplate) (web : Web)
  | createPushRequest (ownerId templateId : Int) (note : Option String) (now : Int)
  | run (taskId : Int) (facts : RunFacts)

/-- The statements of an operation, whatever it returns. -/
def perform {α : Type} (operation : Calls α) : Routine Statement Statement.Answer Unit := do
  let _ ← operation.run
  return ()

def routine (env : Env) : Job → Routine Statement Statement.Answer Unit
  | .createTemplate ownerId name definition => perform (createTemplateForOwner ownerId name definition)
  | .importQdHar ownerId name har => perform (importQdHarForOwner ownerId name har)
  | .updateTemplate id ownerId name definition => perform (updateTemplateForOwner id ownerId name definition)
  | .updateQdHar id ownerId name har => perform (updateQdHarForOwner id ownerId name har)
  | .setTemplatePublished id ownerId published => perform (setTemplatePublished id ownerId published)
  | .copyPublicTemplate id ownerId => perform (copyPublicTemplate id ownerId)
  | .deleteTemplate id ownerId => perform (ask (.deleteTemplateRows id ownerId))
  | .createTask ownerId input now => perform (createForOwner env.toUpdateEnv ownerId input now)
  | .updateTask id ownerId input now => perform (updateForOwner env.toUpdateEnv id ownerId input now)
  | .deleteTask id ownerId => perform (ask (.deleteTaskRows id ownerId))
  | .createChannel ownerId input => perform (createNotificationChannel env ownerId input)
  | .updateChannel id ownerId input => perform (updateNotificationChannel env id ownerId input)
  | .deleteChannel id ownerId => perform (ask (.deleteChannelRows id ownerId))
  | .createAction taskId ownerId input => perform (createNotificationAction taskId ownerId input)
  | .createActions ownerId taskIds input => perform (createNotificationActionsForTasks ownerId input taskIds 0)
  | .updateAction id ownerId input => perform (updateNotificationAction id ownerId input)
  | .deleteAction id ownerId => perform (ask (.deleteAction id ownerId))
  | .createSubscription ownerId name url => perform (createSubscription ownerId name url)
  | .updateSubscription id ownerId name url => perform (updateSubscription id ownerId name url)
  | .deleteSubscription id ownerId => perform (ask (.deleteSubscriptionRows id ownerId))
  | .importSelected id ownerId names web => perform (importSelected id ownerId names web)
  | .apply id ownerId input web => perform (apply id ownerId input web)
  | .createPushRequest ownerId templateId note now => perform (createPushRequest ownerId templateId note now)
  | .run taskId facts => perform (runTask taskId facts)

end Qdrust.Tenancy
