import Qdrust.Library.Register
import Qdrust.Tenancy.Operations

/-! Rows are joined to rows of the same account. The owner under a key never changes, so what a
statement told of an owner still holds when the next statement writes. -/
namespace Qdrust.Tenancy
open Library Concurrent Har Store Template
open Subscriptions (Web catalogue byName)
open Subscriptions.Imports (TemplateSubscription TemplateImport ImportCall Persist ApplyLibraryTemplate LibraryImportResult
  LibraryImportOutcome prepareEntry prepareApply isLink newLink)
open PushRequests (PushRequest)

/-- The owner of a key. -/
structure Fact where
  kind : Kind
  id : Int
  ownerId : Option Int

/-- What an answer tells of owners. -/
def learns : (statement : Statement) → Option statement.Answer → List Fact
  | .getTemplate id ownerId,some (some row) =>
    [⟨.template,id,ownerId.or row.ownerId⟩,⟨.template,row.id,ownerId.or row.ownerId⟩]
  | .insertTemplate ownerId _ _,some id => [⟨.template,id,some ownerId⟩]
  | .getTask id ownerId,some (some row) =>
    [⟨.task,id,ownerId.or row.ownerId⟩,⟨.task,row.id,ownerId.or row.ownerId⟩] ++
      row.templateId.toList.map fun template => ⟨.template,template,ownerId.or row.ownerId⟩
  | .ownsTaskAndChannel taskId ownerId channelId,some true => [⟨.task,taskId,some ownerId⟩,⟨.channel,channelId,some ownerId⟩]
  | .ownsChannel channelId ownerId,some true => [⟨.channel,channelId,some ownerId⟩]
  | .getAction _ ownerId,some (some action) => [⟨.channel,action.channelId,some ownerId⟩]
  | .getSubscription _ _,some (some row) => [⟨.subscription,row.id,some row.ownerId⟩]
  | .channelsForEvent taskId _,some deliveries => deliveries.map fun delivery => ⟨.task,taskId,some delivery.2.ownerId⟩
  | _,_ => []

/-- What follows from what was told: a key has one owner. -/
inductive Known (known : List Fact) : Kind → Int → Option Int → Prop
  | told {kind : Kind} {id : Int} {o : Option Int} (told : ⟨kind,id,o⟩ ∈ known) : Known known kind id o
  | same {kind : Kind} {id other : Int} {o o' : Option Int} (first : Known known kind id o) (second : Known known kind id o')
    (third : Known known kind other o') : Known known kind other o

/-- What has to be known before a statement is made. -/
def permits (known : List Fact) : Statement → Prop
  | .insertTask ownerId columns _ => ∀ template, columns.templateId = some template → Known known .template template (some ownerId)
  | .updateTask id columns _ => ∃ o, Known known .task id o ∧
    ∀ template, columns.templateId = some template → Known known .template template o
  | .insertAction taskId columns => ∃ o, Known known .task taskId o ∧ Known known .channel columns.channelId o
  | .updateAction _ ownerId columns => Known known .channel columns.channelId (some ownerId)
  | .updateImport subscriptionId templateId _ | .insertImport subscriptionId templateId _ =>
    ∃ o, Known known .subscription subscriptionId o ∧ Known known .template templateId o
  | .insertPushRequest ownerId templateId _ _ => Known known .template templateId (some ownerId)
  | .execute task (some template) => ∃ id, Known known .template id task.ownerId ∧ Known known .template id template.ownerId
  | .notify task channel => Known known .task task.id task.ownerId ∧ Known known .task task.id (some channel.ownerId)
  | _ => True

theorem Known.mono {known more : List Fact} {kind : Kind} {id : Int} {o : Option Int} (entry : Known known kind id o)
    (within : known ⊆ more) : Known more kind id o := by
  induction entry with
  | told told => exact .told (within told)
  | same _ _ _ first second third => exact .same first second third

section Operations

variable {known : List Fact}

abbrev Assured {α : Type} (known : List Fact) (operation : Calls α) (post : List Fact → α → Prop) : Prop :=
  Concurrent.Assured learns permits known operation post

/-- Nothing is said of the result. -/
abbrev Harmless {α : Type} (known : List Fact) (operation : Calls α) : Prop := Assured known operation fun _ _ => True

theorem assured_found {α β : Type} {missing : String} {row : Option α} {after : α → Calls β} {post : List Fact → β → Prop}
    (rest : ∀ value, row = some value → Assured known (after value) post) :
    Assured known (found missing row >>= after) post := by
  refine assured_check fun value same => ?_
  cases row with
  | none => cases same
  | some row =>
    cases same
    exact rest value rfl

theorem harmless_found {α : Type} (missing : String) (row : Option α) : Harmless known (found missing row) :=
  assured_decided fun _ _ => trivial

theorem harmless_ask {statement : Statement} (permitted : permits known statement) : Harmless known (ask statement) :=
  assured_query permitted fun _ => trivial

section Templates

theorem harmless_createTemplate (ownerId : Int) (name : String) (definition : TemplateDefinition) :
    Harmless known (createTemplateForOwner ownerId name definition) :=
  assured_check fun _ _ => assured_check fun _ _ => assured_ask trivial fun _ => assured_ask trivial fun _ => harmless_found _ _

/-- The template that was imported is of the account. -/
theorem assured_importQdHar (ownerId : Int) (name : String) (har : Json) :
    Assured known (importQdHarForOwner ownerId name har) fun more row => Known more .template row.id (some ownerId) := by
  refine assured_check fun _ _ => assured_check fun _ _ => assured_ask trivial fun id => assured_ask trivial fun row => ?_
  cases row with
  | none => exact assured_decided nofun
  | some row =>
    refine assured_decided ?_
    rintro _ ⟨⟩
    refine @Known.same _ _ id row.id (some ownerId) row.ownerId ?_ ?_ ?_
    · exact .told (.tail _ (.tail _ (.head _)))
    · exact .told (.head _)
    · exact .told (.tail _ (.head _))

theorem assured_updateQdHar (id ownerId : Int) (name : String) (har : Json) :
    Assured known (updateQdHarForOwner id ownerId name har) fun more row =>
      ∀ template, row = some template → Known more .template template.id (some ownerId) := by
  refine assured_check fun _ _ => assured_check fun _ _ => assured_ask trivial fun changed => ?_
  split
  · exact assured_pure nofun
  · refine assured_query trivial fun row => ?_
    rintro template rfl
    exact .told (.tail _ (.head _))

theorem harmless_updateTemplate (id ownerId : Int) (name : Option String) (definition : Option TemplateDefinition) :
    Harmless known (updateTemplateForOwner id ownerId name definition) := by
  refine assured_ask trivial fun row => ?_
  cases row with
  | none => exact assured_pure trivial
  | some current =>
    refine assured_check fun _ _ => assured_ask trivial fun changed => ?_
    split
    · exact assured_pure trivial
    · exact harmless_ask trivial

theorem harmless_publish (id ownerId : Int) (published : Bool) : Harmless known (setTemplatePublished id ownerId published) :=
  assured_ask trivial fun _ => assured_pure trivial

theorem harmless_copy (id ownerId : Int) : Harmless known (copyPublicTemplate id ownerId) := by
  refine assured_ask trivial fun row => ?_
  cases row with
  | none => exact assured_pure trivial
  | some row => exact assured_ask trivial fun _ => harmless_ask trivial

end Templates

section Tasks

/-- The template that a task is bound to is the account's. -/
theorem assured_ownedTemplate (ownerId : Int) (templateId : Option Int) :
    Assured known (ownedTemplate ownerId templateId) fun more _ =>
      known ⊆ more ∧ ∀ template, templateId = some template → Known more .template template (some ownerId) := by
  cases templateId with
  | none => exact assured_pure ⟨List.Subset.refl _,nofun⟩
  | some templateId =>
    refine assured_ask trivial fun row => ?_
    cases row with
    | none => exact assured_decided nofun
    | some row =>
      refine assured_found fun template _ => assured_pure ⟨List.subset_append_right _ _,?_⟩
      rintro _ ⟨⟩
      exact .told (.head _)

theorem assured_resolve (env : UpdateEnv) (ownerId : Int) (templateId : Option Int) (method url : Option String)
    (current : Option (String × String)) :
    Assured known (resolveTaskRequest env ownerId templateId method url current) fun more _ =>
      known ⊆ more ∧ ∀ template, templateId = some template → Known more .template template (some ownerId) :=
  assured_bind (assured_mono (assured_ownedTemplate ownerId templateId) fun _ _ _ bound => assured_decided fun _ _ => bound)

theorem harmless_createTask (env : UpdateEnv) (ownerId : Int) (input : CreateTask) (now : Int) :
    Harmless known (createForOwner env ownerId input now) := by
  refine assured_bind (assured_mono (assured_resolve env ownerId input.templateId input.method (some input.url) none) ?_)
  rintro more request _ ⟨_,bound⟩
  exact assured_check fun _ _ => assured_ask bound fun _ => assured_ask trivial fun _ => harmless_found _ _

theorem harmless_updateTask (env : UpdateEnv) (id ownerId : Int) (input : UpdateTask) (now : Int) :
    Harmless known (updateForOwner env id ownerId input now) := by
  refine assured_ask trivial fun row => ?_
  cases row with
  | none => exact assured_pure trivial
  | some row =>
    refine assured_bind (assured_mono (assured_resolve env ownerId _ _ _ _) ?_)
    rintro more request _ ⟨within,bound⟩
    have task : Known more .task id (some ownerId) := .told (within (.head _))
    exact assured_check fun _ _ => assured_ask ⟨some ownerId,task,bound⟩ fun _ => harmless_ask trivial

end Tasks

section Notifications

theorem harmless_createChannel (env : Env) (ownerId : Int) (input : CreateNotificationChannel) :
    Harmless known (createNotificationChannel env ownerId input) :=
  assured_check fun _ _ => assured_ask trivial fun _ => assured_ask trivial fun _ => harmless_found _ _

theorem harmless_updateChannel (env : Env) (id ownerId : Int) (input : UpdateNotificationChannel) :
    Harmless known (updateNotificationChannel env id ownerId input) := by
  refine assured_ask trivial fun row => ?_
  cases row with
  | none => exact assured_pure trivial
  | some row => exact assured_check fun _ _ => assured_ask trivial fun _ => harmless_ask trivial

theorem harmless_createAction (taskId ownerId : Int) (input : ActionColumns) :
    Harmless known (createNotificationAction taskId ownerId input) := by
  refine assured_check fun _ _ => assured_check fun _ _ => assured_ask trivial fun owns => ?_
  cases owns with
  | false => exact assured_pure trivial
  | true =>
    refine assured_ask ⟨some ownerId,?_,?_⟩ fun _ => harmless_ask trivial
    · exact .told (.head _)
    · exact .told (.tail _ (.head _))

theorem harmless_createActions (ownerId : Int) (input : ActionColumns) (taskIds : List Int) (created : Nat) :
    Harmless known (createNotificationActionsForTasks ownerId input taskIds created) := by
  induction taskIds generalizing known created with
  | nil => exact assured_pure trivial
  | cons taskId rest ih =>
    exact assured_bind (assured_mono (harmless_createAction taskId ownerId input) fun _ _ _ _ => ih _)

/-- The channel of an updated binding is the one it had, or one that was looked up. -/
theorem harmless_updateAction (id ownerId : Int) (input : UpdateNotificationAction) :
    Harmless known (updateNotificationAction id ownerId input) := by
  refine assured_check fun _ _ => assured_check fun _ _ => assured_ask trivial fun row => ?_
  cases row with
  | none => exact assured_pure trivial
  | some current =>
    dsimp only
    split
    · refine assured_ask trivial fun owned => ?_
      cases owned with
      | false => exact assured_pure trivial
      | true => exact assured_ask (.told (.head _)) fun _ => harmless_ask trivial
    · next same =>
      have channel : Known (learns (.getAction id ownerId) (some (some current)) ++ known) .channel
          (mergeAction current input).channelId (some ownerId) := by
        rw [not_not.mp same]
        exact .told (.head _)
      exact assured_ask channel fun _ => harmless_ask trivial

end Notifications

section Sources

theorem assured_getSubscription (id ownerId : Int) :
    Assured known (getSubscription id ownerId) fun more subscription =>
      Known more .subscription subscription.id (some subscription.ownerId) := by
  refine assured_ask trivial fun row => ?_
  cases row with
  | none => exact assured_decided nofun
  | some row =>
    refine assured_decided ?_
    rintro _ ⟨⟩
    exact .told (.head _)

theorem harmless_createSubscription (ownerId : Int) (name url : String) :
    Harmless known (createSubscription ownerId name url) :=
  assured_check fun _ _ => assured_ask trivial fun _ => assured_ask trivial fun _ => harmless_found _ _

theorem harmless_updateSubscription (id ownerId : Int) (name url : Option String) :
    Harmless known (updateSubscription id ownerId name url) := by
  refine assured_ask trivial fun row => ?_
  cases row with
  | none => exact assured_pure trivial
  | some current => exact assured_check fun _ _ => assured_ask trivial fun _ => harmless_ask trivial

theorem harmless_recordImport {subscriptionId templateId ownerId : Int} (entry : Subscriptions.RawEntry)
    (subscribed : Known known .subscription subscriptionId (some ownerId))
    (template : Known known .template templateId (some ownerId)) :
    Harmless known (recordTemplateImport subscriptionId templateId entry) := by
  refine assured_ask ⟨some ownerId,subscribed,template⟩ fun changed => ?_
  split
  · refine assured_ask ⟨some ownerId,?_,?_⟩ fun _ => assured_pure trivial
    · exact subscribed.mono (List.subset_append_right _ _)
    · exact template.mono (List.subset_append_right _ _)
  · exact assured_pure trivial

theorem assured_persistTemplate (p : Persist) :
    Assured known (persistTemplate p) fun more persisted =>
      Known more .template persisted.1 (some p.subscription.ownerId) := by
  have refreshed (known : List Fact) (id : Int) : Assured known (do
        let row ← updateQdHarForOwner id p.subscription.ownerId p.name p.har
        let template ← found ("template " ++ toString id ++ " disappeared while importing") row
        return (template.id,true)) fun more persisted => Known more .template persisted.1 (some p.subscription.ownerId) := by
    refine assured_bind (assured_mono (assured_updateQdHar id _ p.name p.har) fun more row _ own => ?_)
    exact assured_found fun template same => assured_pure (own template same)
  have added (known : List Fact) : Assured known (do
        let template ← importQdHarForOwner p.subscription.ownerId p.name p.har
        return (template.id,false)) fun more persisted => Known more .template persisted.1 (some p.subscription.ownerId) :=
    assured_bind (assured_mono (assured_importQdHar _ p.name p.har) fun more row _ own => assured_pure own)
  unfold persistTemplate
  cases p.linkedTemplateId with
  | some id => exact refreshed known id
  | none =>
    refine assured_ask trivial fun existing => ?_
    cases existing with
    | some id => exact refreshed _ id
    | none => exact added _

theorem harmless_persistEntry (p : Persist)
    (subscribed : Known known .subscription p.subscription.id (some p.subscription.ownerId)) :
    Harmless known (persistEntry p) := by
  refine assured_bind (assured_mono (assured_persistTemplate p) fun more persisted within own => ?_)
  refine assured_bind (assured_mono (harmless_recordImport p.entry (subscribed.mono within) own) fun _ _ _ _ => ?_)
  exact assured_pure trivial

theorem harmless_importEach (names : List String) (call : ImportCall)
    (subscribed : Known known .subscription call.subscription.id (some call.subscription.ownerId)) :
    Harmless known (importEach names call) := by
  induction names generalizing known call with
  | nil => exact assured_pure trivial
  | cons name rest ih =>
    unfold importEach
    split
    · exact ih call subscribed
    · split
      · exact ih _ subscribed
      · next entry _ =>
        have imported : Harmless known (importEntry call entry) := by
          refine assured_check fun p prepared => harmless_persistEntry p ?_
          obtain ⟨_,_,rfl⟩ := Subscriptions.Imports.prepareEntry_ok prepared
          exact subscribed
        exact assured_bind (assured_outcome imported fun more _ within => ih _ (subscribed.mono within))

theorem harmless_importSelected (id ownerId : Int) (names : List String) (web : Web) :
    Harmless known (importSelected id ownerId names web) := by
  refine assured_bind (assured_mono (assured_getSubscription id ownerId) fun more subscription _ subscribed => ?_)
  refine assured_check fun _ _ => assured_check fun entries _ => assured_ask trivial fun linked => ?_
  exact harmless_importEach names _ (subscribed.mono (List.subset_append_right _ _))

theorem harmless_apply (id ownerId : Int) (input : ApplyLibraryTemplate) (web : Web) :
    Harmless known (apply id ownerId input web) := by
  refine assured_bind (assured_mono (assured_getSubscription id ownerId) fun more subscription _ subscribed => ?_)
  refine assured_check fun p prepared => assured_bind (assured_mono (harmless_persistEntry p ?_) fun _ _ _ _ => assured_pure trivial)
  rw [(Subscriptions.Imports.prepareApply_ok prepared).1]
  exact subscribed

end Sources

theorem harmless_createPushRequest (ownerId templateId : Int) (note : Option String) (now : Int) :
    Harmless known (createPushRequest ownerId templateId note now) := by
  refine assured_ask trivial fun row => ?_
  cases row with
  | none => exact assured_pure trivial
  | some row =>
    refine assured_ask trivial fun published => assured_found fun alreadyPublic _ => ?_
    split
    · exact assured_pure trivial
    · have own : Known (learns (.templatePublished templateId ownerId) (some published) ++
          (learns (.getTemplate templateId (some ownerId)) (some (some row)) ++ known)) .template templateId (some ownerId) :=
        .told (.head _)
      exact assured_check fun _ _ => assured_ask own fun _ => assured_ask trivial fun _ =>
        assured_found fun _ _ => assured_pure trivial

section Runs

theorem harmless_executeTask (task : TaskRow)
    (bound : ∀ template, task.templateId = some template → Known known .template template task.ownerId) :
    Harmless known (executeTask task) := by
  unfold executeTask
  cases same : task.templateId with
  | none => exact harmless_ask trivial
  | some templateId =>
    refine assured_ask trivial fun row => ?_
    cases row with
    | none => exact assured_decided nofun
    | some row =>
      refine assured_found ?_
      rintro _ ⟨⟩
      refine harmless_ask ⟨templateId,(bound templateId same).mono (List.subset_append_right _ _),?_⟩
      exact .told (.head _)

theorem harmless_notifyEach {task : TaskRow} (channels : List NotificationChannel)
    (own : Known known .task task.id task.ownerId)
    (each : ∀ channel ∈ channels, Known known .task task.id (some channel.ownerId)) :
    Harmless known (notifyEach task channels) := by
  induction channels generalizing known with
  | nil => exact assured_pure trivial
  | cons channel rest ih =>
    have sent : Harmless known (ask (.notify task channel)) := harmless_ask ⟨own,each channel List.mem_cons_self⟩
    refine assured_bind (assured_outcome sent fun more _ within => ?_)
    exact ih (own.mono within) fun other there => (each other (List.mem_cons_of_mem _ there)).mono within

theorem harmless_sendNotifications {task : TaskRow} (facts : RunFacts) (event : String)
    (own : Known known .task task.id task.ownerId) : Harmless known (sendNotifications task facts event) := by
  refine assured_ask trivial fun deliveries => harmless_notifyEach _ (own.mono (List.subset_append_right _ _)) ?_
  intro channel listed
  obtain ⟨delivery,there,rfl⟩ := List.mem_map.mp listed
  refine .told (List.mem_append_left _ ?_)
  exact List.mem_map.mpr ⟨delivery,List.mem_of_mem_filter there,rfl⟩

theorem harmless_runTask (taskId : Int) (facts : RunFacts) : Harmless known (runTask taskId facts) := by
  refine assured_ask trivial fun row => ?_
  cases row with
  | none => exact assured_pure trivial
  | some task =>
    have own : Known (learns (.getTask taskId none) (some (some task)) ++ known) .task task.id task.ownerId :=
      .told (.tail _ (.head _))
    have executed : Harmless (learns (.getTask taskId none) (some (some task)) ++ known) (executeTask task) := by
      refine harmless_executeTask task fun template bound => .told (.tail _ (.tail _ ?_))
      exact List.mem_append_left _ (List.mem_map.mpr ⟨template,Option.mem_toList.mpr bound,rfl⟩)
    refine assured_bind (assured_outcome executed fun more result within => ?_)
    cases result with
    | ok _ => exact harmless_sendNotifications facts "success" (own.mono within)
    | error _ =>
      dsimp only
      split
      · exact assured_pure trivial
      · exact harmless_sendNotifications facts "failure" (own.mono within)

end Runs

theorem grounded_perform {α : Type} {operation : Calls α} (harmless : Harmless known operation) :
    Grounded learns permits known (perform operation) := by
  have warranted : Warranted learns permits known (perform operation) fun _ _ => True :=
    warranted_bind (warranted_mono harmless.warranted fun _ _ _ _ => trivial)
  exact warranted_grounded warranted

/-- Every operation makes its writes on what it was told. -/
theorem grounded_routine (env : Env) (job : Job) : Grounded learns permits known (routine env job) := by
  cases job with
  | createTemplate ownerId name definition => exact grounded_perform (harmless_createTemplate ownerId name definition)
  | importQdHar ownerId name har =>
    exact grounded_perform (assured_mono (assured_importQdHar ownerId name har) fun _ _ _ _ => trivial)
  | updateTemplate id ownerId name definition => exact grounded_perform (harmless_updateTemplate id ownerId name definition)
  | updateQdHar id ownerId name har =>
    exact grounded_perform (assured_mono (assured_updateQdHar id ownerId name har) fun _ _ _ _ => trivial)
  | setTemplatePublished id ownerId published => exact grounded_perform (harmless_publish id ownerId published)
  | copyPublicTemplate id ownerId => exact grounded_perform (harmless_copy id ownerId)
  | deleteTemplate id ownerId => exact grounded_perform (harmless_ask trivial)
  | createTask ownerId input now => exact grounded_perform (harmless_createTask env.toUpdateEnv ownerId input now)
  | updateTask id ownerId input now => exact grounded_perform (harmless_updateTask env.toUpdateEnv id ownerId input now)
  | deleteTask id ownerId => exact grounded_perform (harmless_ask trivial)
  | createChannel ownerId input => exact grounded_perform (harmless_createChannel env ownerId input)
  | updateChannel id ownerId input => exact grounded_perform (harmless_updateChannel env id ownerId input)
  | deleteChannel id ownerId => exact grounded_perform (harmless_ask trivial)
  | createAction taskId ownerId input => exact grounded_perform (harmless_createAction taskId ownerId input)
  | createActions ownerId taskIds input => exact grounded_perform (harmless_createActions ownerId input taskIds 0)
  | updateAction id ownerId input => exact grounded_perform (harmless_updateAction id ownerId input)
  | deleteAction id ownerId => exact grounded_perform (harmless_ask trivial)
  | createSubscription ownerId name url => exact grounded_perform (harmless_createSubscription ownerId name url)
  | updateSubscription id ownerId name url => exact grounded_perform (harmless_updateSubscription id ownerId name url)
  | deleteSubscription id ownerId => exact grounded_perform (harmless_ask trivial)
  | importSelected id ownerId names web => exact grounded_perform (harmless_importSelected id ownerId names web)
  | apply id ownerId input web => exact grounded_perform (harmless_apply id ownerId input web)
  | createPushRequest ownerId templateId note now =>
    exact grounded_perform (harmless_createPushRequest ownerId templateId note now)
  | run taskId facts => exact grounded_perform (harmless_runTask taskId facts)

end Operations

end Qdrust.Tenancy
