import Qdrust.Library.Warranted
import Qdrust.Store.PushRequests
import Qdrust.Store.UpdateTask
import Qdrust.Subscriptions.Imports

/-! The tables whose rows belong to accounts or join two of their rows, and the statements that
read and write them. A statement is atomic, a transaction is one statement, and any of them may
fail, as it does where a foreign key is violated. -/
namespace Qdrust.Tenancy
open Library Har Store Template
open Subscriptions.Imports (TemplateSubscription TemplateImport newLink isLink)
open PushRequests (PushRequest)

/-- The tables with an `owner_id` that others refer to. -/
inductive Kind where
  | template | task | channel | subscription
deriving DecidableEq

structure NotificationChannel where
  id : Int
  ownerId : Int
  name : String
  kind : String
  config : Json
  enabled : Bool

/-- What a binding says, but for its task. -/
structure ActionColumns where
  channelId : Int
  event : String
  failureThreshold : Int
  automaticOnly : Bool
  titleTemplate : Option String
  bodyTemplate : Option String

structure NotificationAction extends ActionColumns where
  id : Int
  taskId : Int

abbrev Row : Kind → Type
  | .template => TemplateRow
  | .task => TaskRow
  | .channel => NotificationChannel
  | .subscription => TemplateSubscription

abbrev rowId : (kind : Kind) → Row kind → Int
  | .template => TemplateRow.id
  | .task => TaskRow.id
  | .channel => NotificationChannel.id
  | .subscription => TemplateSubscription.id

/-- The `owner_id` column. -/
abbrev rowOwner : (kind : Kind) → Row kind → Option Int
  | .template => TemplateRow.ownerId
  | .task => TaskRow.ownerId
  | .channel => fun channel => some channel.ownerId
  | .subscription => fun subscription => some subscription.ownerId

structure Db where
  owned : (kind : Kind) → Table (Row kind) (rowId kind)
  actions : Table NotificationAction NotificationAction.id
  imports : Table TemplateImport TemplateImport.id
  requests : Table PushRequest PushRequest.id

def Db.empty : Db := ⟨fun _ => Table.empty,Table.empty,Table.empty,Table.empty⟩

namespace Db

/-- `WHERE id=?`, and `AND owner_id=?` for an owner. -/
def get (db : Db) (kind : Kind) (id : Int) (ownerId : Option Int) : Option (Row kind) :=
  ((db.owned kind).find id).filter fun row => ownerId.isNone || rowOwner kind row = ownerId

/-- The tables with another table of one kind. -/
def put (db : Db) (kind : Kind) (table : Table (Row kind) (rowId kind)) : Db :=
  { db with owned := Function.update db.owned kind table }

theorem put_self (db : Db) (kind : Kind) (table : Table (Row kind) (rowId kind)) : (db.put kind table).owned kind = table :=
  Function.update_self ..

theorem put_other (db : Db) {kind other : Kind} (differs : other ≠ kind) (table : Table (Row kind) (rowId kind)) :
    (db.put kind table).owned other = db.owned other := Function.update_of_ne differs ..

def insert (db : Db) (kind : Kind) (make : Int → Row kind) (keyed : ∀ id, rowId kind (make id) = id) : Db :=
  db.put kind ((db.owned kind).insert make keyed)

def update (db : Db) (kind : Kind) (chosen : Row kind → Bool) (set : Row kind → Row kind)
    (keeps : ∀ row, rowId kind (set row) = rowId kind row) : Db :=
  db.put kind ((db.owned kind).update chosen set keeps)

def delete (db : Db) (kind : Kind) (chosen : Row kind → Bool) : Db := db.put kind ((db.owned kind).delete chosen)

/-- `id=? AND owner_id=?`. -/
def mine (kind : Kind) (id ownerId : Int) (row : Row kind) : Bool :=
  rowId kind row == id && rowOwner kind row == some ownerId

def affected (db : Db) (kind : Kind) (chosen : Row kind → Bool) : Nat := (db.owned kind).affected chosen

end Db

inductive Statement where
  | getTemplate (id : Int) (ownerId : Option Int)
  | getPublicTemplate (id : Int)
  | findTemplateByName (ownerId : Int) (name : String)
  | templatePublished (id ownerId : Int)
  | insertTemplate (ownerId : Int) (name : String) (source : TemplateSource)
  | updateTemplate (id ownerId : Int) (name : String) (definition : TemplateDefinition)
  | updateQdHar (id ownerId : Int) (name : String) (har : Json)
  | setTemplatePublished (id ownerId : Int) (published : Bool)
  | deleteTemplateRows (id ownerId : Int)
  | getTask (id : Int) (ownerId : Option Int)
  | insertTask (ownerId : Int) (columns : TaskColumns) (now : Int)
  | updateTask (id : Int) (columns : TaskColumns) (now : Int)
  | deleteTaskRows (id ownerId : Int)
  | getChannel (id ownerId : Int)
  | insertChannel (ownerId : Int) (name kind : String) (config : Json) (enabled : Bool)
  | updateChannel (id ownerId : Int) (name : String) (config : Json) (enabled : Bool)
  | deleteChannelRows (id ownerId : Int)
  | ownsTaskAndChannel (taskId ownerId channelId : Int)
  | ownsChannel (channelId ownerId : Int)
  | getAction (id ownerId : Int)
  | insertAction (taskId : Int) (columns : ActionColumns)
  | updateAction (id ownerId : Int) (columns : ActionColumns)
  | deleteAction (id ownerId : Int)
  | getSubscription (id ownerId : Int)
  | insertSubscription (ownerId : Int) (name url : String)
  | updateSubscription (id ownerId : Int) (name url : String)
  | deleteSubscriptionRows (id ownerId : Int)
  | listTemplateImports (subscriptionId : Int)
  | updateImport (subscriptionId templateId : Int) (entry : Subscriptions.RawEntry)
  | insertImport (subscriptionId templateId : Int) (entry : Subscriptions.RawEntry)
  | getPushRequest (id : Int)
  | insertPushRequest (ownerId templateId : Int) (note : Option String) (now : Int)
  | channelsForEvent (taskId : Int) (event : String)
  | execute (task : TaskRow) (template : Option TemplateRow)
  | notify (task : TaskRow) (channel : NotificationChannel)

/-- An insert answers with the key, an update with the number of rows, a deletion with whether
there was one. -/
abbrev Statement.Answer : Statement → Type
  | .getTemplate _ _ | .getPublicTemplate _ => Option TemplateRow
  | .findTemplateByName _ _ => Option Int
  | .templatePublished _ _ => Option Bool
  | .insertTemplate _ _ _ | .insertTask _ _ _ | .insertChannel _ _ _ _ _ | .insertAction _ _ | .insertSubscription _ _ _
  | .insertImport _ _ _ | .insertPushRequest _ _ _ _ => Int
  | .updateTemplate _ _ _ _ | .updateQdHar _ _ _ _ | .setTemplatePublished _ _ _ | .updateTask _ _ _
  | .updateChannel _ _ _ _ _ | .updateAction _ _ _ | .updateSubscription _ _ _ _ | .updateImport _ _ _ => Nat
  | .deleteTemplateRows _ _ | .deleteTaskRows _ _ | .deleteChannelRows _ _ | .deleteAction _ _
  | .deleteSubscriptionRows _ _ => Bool
  | .getTask _ _ => Option TaskRow
  | .getChannel _ _ => Option NotificationChannel
  | .ownsTaskAndChannel _ _ _ | .ownsChannel _ _ => Bool
  | .getAction _ _ => Option NotificationAction
  | .getSubscription _ _ => Option TemplateSubscription
  | .listTemplateImports _ => List TemplateImport
  | .getPushRequest _ => Option PushRequest
  | .channelsForEvent _ _ => List (NotificationAction × NotificationChannel)
  | .execute _ _ | .notify _ _ => Unit

/-- A definition is written to the column that only a native template reads. -/
def setDefinition (definition : TemplateDefinition) : TemplateSource → TemplateSource
  | .nativeV1 _ => .nativeV1 definition
  | .qdHar source => .qdHar source

/-- A row of `tasks` as it is inserted. -/
def newTask (ownerId : Int) (columns : TaskColumns) (now id : Int) : TaskRow where
  id := id
  ownerId := some ownerId
  name := columns.name
  cron := columns.cron
  method := columns.method
  url := columns.url
  headers := columns.headers
  body := columns.body
  disabled := columns.disabled
  createdAt := now
  updatedAt := now
  lastRunAt := none
  lastStatus := none
  lastError := none
  templateId := columns.templateId
  grp := columns.grp
  timeoutSeconds := columns.timeoutSeconds
  retryCount := columns.retryCount
  retryIntervalSeconds := columns.retryIntervalSeconds
  priority := columns.priority
  timezone := columns.timezone
  randomDelayMaxSeconds := columns.randomDelayMaxSeconds
  vars := columns.vars

namespace Db

/-- `task_id IN (SELECT id FROM tasks WHERE owner_id=?)`. -/
def taskOf (db : Db) (ownerId : Int) (action : NotificationAction) : Bool :=
  (db.owned .task).rows.any fun task => task.id == action.taskId && task.ownerId == some ownerId

/-- `FROM notification_channels c JOIN notification_actions a ON a.channel_id=c.id` of a task. -/
def deliveries (db : Db) (taskId : Int) (event : String) : List (NotificationAction × NotificationChannel) :=
  db.actions.rows.flatMap fun action =>
    if action.taskId = taskId ∧ (action.event = event ∨ action.event = "always") then
      ((db.owned .channel).rows.filter fun channel => channel.id == action.channelId && channel.enabled).map fun channel =>
        (action,channel)
    else []

def setActions (db : Db) (actions : Table NotificationAction NotificationAction.id) : Db := { db with actions }

def setImports (db : Db) (imports : Table TemplateImport TemplateImport.id) : Db := { db with imports }

def setRequests (db : Db) (requests : Table PushRequest PushRequest.id) : Db := { db with requests }

end Db

/-- What a statement answers and makes of the tables. -/
def handle : Concurrent.Handler Statement Statement.Answer Db
  | .getTemplate id ownerId,db => (db.get .template id ownerId,db)
  | .getPublicTemplate id,db => (((db.owned .template).find id).filter TemplateRow.published,db)
  | .findTemplateByName ownerId name,db => (((db.owned .template).rows.find? fun row =>
      row.ownerId == some ownerId && row.name == name && !row.source.isNative).map TemplateRow.id,db)
  | .templatePublished id ownerId,db => ((db.get .template id (some ownerId)).map TemplateRow.published,db)
  | .insertTemplate ownerId name source,db =>
    ((db.owned .template).last + 1,db.insert .template (fun id => ⟨id,some ownerId,name,source,false⟩) fun _ => rfl)
  | .updateTemplate id ownerId name definition,db =>
    let chosen := Db.mine .template id ownerId
    (db.affected .template chosen,db.update .template chosen
      (fun row => { row with name, source := setDefinition definition row.source }) fun _ => rfl)
  | .updateQdHar id ownerId name har,db =>
    let chosen row := Db.mine .template id ownerId row && !row.source.isNative
    (db.affected .template chosen,db.update .template chosen (fun row => { row with name, source := .qdHar har }) fun _ => rfl)
  | .setTemplatePublished id ownerId published,db =>
    let chosen := Db.mine .template id ownerId
    (db.affected .template chosen,db.update .template chosen (fun row => { row with published }) fun _ => rfl)
  | .deleteTemplateRows id ownerId,db =>
    if db.affected .template (Db.mine .template id ownerId) = 0 then (false,db)
    else (true,(((db.setImports (db.imports.delete fun link => link.templateId == id)).setRequests
      (db.requests.delete fun request => request.templateId == id)).delete .template fun row => row.id == id))
  | .getTask id ownerId,db => (db.get .task id ownerId,db)
  | .insertTask ownerId columns now,db =>
    ((db.owned .task).last + 1,db.insert .task (newTask ownerId columns now) fun _ => rfl)
  | .updateTask id columns now,db =>
    (db.affected .task fun row => row.id == id,db.update .task (fun row => row.id == id)
      (fun row => row.assign columns now) fun row => row.assign_id columns now)
  | .deleteTaskRows id ownerId,db =>
    if db.affected .task (Db.mine .task id ownerId) = 0 then (false,db)
    else (true,(db.setActions (db.actions.delete fun action => action.taskId == id)).delete .task fun row => row.id == id)
  | .getChannel id ownerId,db => (db.get .channel id (some ownerId),db)
  | .insertChannel ownerId name kind config enabled,db =>
    ((db.owned .channel).last + 1,db.insert .channel (fun id => ⟨id,ownerId,name,kind,config,enabled⟩) fun _ => rfl)
  | .updateChannel id ownerId name config enabled,db =>
    let chosen := Db.mine .channel id ownerId
    (db.affected .channel chosen,db.update .channel chosen (fun row => { row with name, config, enabled }) fun _ => rfl)
  | .deleteChannelRows id ownerId,db =>
    if db.affected .channel (Db.mine .channel id ownerId) = 0 then (false,db)
    else (true,(db.setActions (db.actions.delete fun action => action.channelId == id)).delete .channel
      (Db.mine .channel id ownerId))
  | .ownsTaskAndChannel taskId ownerId channelId,db =>
    ((db.owned .task).rows.any fun task => (db.owned .channel).rows.any fun channel =>
      some channel.ownerId == task.ownerId && task.id == taskId && task.ownerId == some ownerId && channel.id == channelId,db)
  | .ownsChannel channelId ownerId,db => ((db.get .channel channelId (some ownerId)).isSome,db)
  | .getAction id ownerId,db => ((db.actions.find id).filter (db.taskOf ownerId),db)
  | .insertAction taskId columns,db =>
    (db.actions.last + 1,db.setActions (db.actions.insert (fun id => ⟨columns,id,taskId⟩) fun _ => rfl))
  | .updateAction id ownerId columns,db =>
    let chosen action := action.id == id && db.taskOf ownerId action
    (db.actions.affected chosen,db.setActions
      (db.actions.update chosen (fun action => ⟨columns,action.id,action.taskId⟩) fun _ => rfl))
  | .deleteAction id ownerId,db =>
    let chosen action := action.id == id && db.taskOf ownerId action
    (0 < db.actions.affected chosen,db.setActions (db.actions.delete chosen))
  | .getSubscription id ownerId,db => (db.get .subscription id (some ownerId),db)
  | .insertSubscription ownerId name url,db =>
    ((db.owned .subscription).last + 1,db.insert .subscription (fun id => ⟨id,ownerId,name,url⟩) fun _ => rfl)
  | .updateSubscription id ownerId name url,db =>
    let chosen := Db.mine .subscription id ownerId
    (db.affected .subscription chosen,db.update .subscription chosen (TemplateSubscription.rename name url)
      (TemplateSubscription.rename_id name url))
  | .deleteSubscriptionRows id ownerId,db =>
    if db.affected .subscription (Db.mine .subscription id ownerId) = 0 then (false,db)
    else (true,(db.setImports (db.imports.delete fun link => link.subscriptionId == id)).delete .subscription
      (Db.mine .subscription id ownerId))
  | .listTemplateImports subscriptionId,db => (db.imports.rows.filter fun link => link.subscriptionId == subscriptionId,db)
  | .updateImport subscriptionId templateId entry,db =>
    let chosen := isLink (subscriptionId,entry.name)
    (db.imports.affected chosen,db.setImports
      (db.imports.update chosen (TemplateImport.record templateId entry) (TemplateImport.record_id templateId entry)))
  | .insertImport subscriptionId templateId entry,db =>
    (db.imports.last + 1,db.setImports (db.imports.insert (newLink subscriptionId templateId entry)
      (Subscriptions.Imports.newLink_id subscriptionId templateId entry)))
  | .getPushRequest id,db => (db.requests.find id,db)
  | .insertPushRequest ownerId templateId note now,db =>
    (db.requests.last + 1,db.setRequests
      (db.requests.insert (fun id => ⟨id,ownerId,templateId,.pending,note,none,none,now⟩) fun _ => rfl))
  | .channelsForEvent taskId event,db => (db.deliveries taskId event,db)
  | .execute _ _,db => ((),db)
  | .notify _ _,db => ((),db)

end Qdrust.Tenancy
