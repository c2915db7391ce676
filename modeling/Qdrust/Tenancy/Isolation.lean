import Qdrust.Tenancy.Owners

/-! The tables under any interleaving of the statements: no row is joined to a row of another
account, and no run replays a template of another account or notifies through its channels. -/
namespace Qdrust.Tenancy
open Library Concurrent Store
open Subscriptions.Imports (TemplateSubscription TemplateImport isLink newLink)
open PushRequests (PushRequest)

/-- The owners under all keys handed out so far. -/
abbrev Owners := Kind → Int → Option (Option Int)

/-- Rows are joined under one owner, whether or not the rows are still there. -/
structure Linked (owners : Owners) (db : Db) : Prop where
  bound : ∀ task ∈ (db.owned .task).rows, ∀ template, task.templateId = some template →
    owners .template template = some task.ownerId
  notified : ∀ action ∈ db.actions.rows, ∃ o, owners .task action.taskId = some o ∧ owners .channel action.channelId = some o
  imported : ∀ link ∈ db.imports.rows, ∃ o, owners .subscription link.subscriptionId = some o ∧
    owners .template link.templateId = some o
  requested : ∀ request ∈ db.requests.rows, owners .template request.templateId = some (some request.ownerId)

structure Conforms (owners : Owners) (db : Db) : Prop where
  registered : ∀ kind, Registered (owners kind) (rowOwner kind) (db.owned kind)
  linked : Linked owners db

def Agrees (owners : Owners) (facts : List Fact) : Prop := ∀ fact ∈ facts, owners fact.kind fact.id = some fact.ownerId

def Grows (owners after : Owners) : Prop := ∀ kind, Extends (owners kind) (after kind)

section Registers

variable {owners after : Owners} {db : Db} {facts : List Fact} {kind : Kind}

theorem Grows.refl (owners : Owners) : Grows owners owners := fun _ => Extends.refl _

theorem Agrees.grow (agrees : Agrees owners facts) (grows : Grows owners after) : Agrees after facts :=
  fun fact told => grows _ _ _ (agrees fact told)

theorem Known.agrees {id : Int} {o : Option Int} (entry : Known facts kind id o) (agrees : Agrees owners facts) :
    owners kind id = some o := by
  induction entry with
  | told told => exact agrees _ told
  | same _ _ _ first second third => rw [third,← second,first]

theorem Linked.grow (linked : Linked owners db) (grows : Grows owners after) : Linked after db where
  bound task there template points := grows _ _ _ (linked.bound task there template points)
  notified action there := by
    obtain ⟨o,task,channel⟩ := linked.notified action there
    exact ⟨o,grows _ _ _ task,grows _ _ _ channel⟩
  imported link there := by
    obtain ⟨o,subscription,template⟩ := linked.imported link there
    exact ⟨o,grows _ _ _ subscription,grows _ _ _ template⟩
  requested request there := grows _ _ _ (linked.requested request there)

theorem conforms_empty : Conforms (fun _ _ => none) Db.empty where
  registered _ := Registered.empty
  linked := {
    bound := fun _ there => absurd there List.not_mem_nil
    notified := fun _ there => absurd there List.not_mem_nil
    imported := fun _ there => absurd there List.not_mem_nil
    requested := fun _ there => absurd there List.not_mem_nil }

/-- The owner of a row that is read. -/
theorem Conforms.owner {row : Row kind} (conforms : Conforms owners db) (there : row ∈ (db.owned kind).rows) :
    owners kind (rowId kind row) = some (rowOwner kind row) := (conforms.registered kind).rows row there

/-- The templates of all tasks are those of their owners. -/
def Bound (owners : Owners) (db : Db) : Prop := ∀ task ∈ (db.owned .task).rows, ∀ template, task.templateId = some template →
  owners .template template = some task.ownerId

/-- A table with an owner is changed. -/
theorem conforms_put (conforms : Conforms owners db) {table : Table (Row kind) (rowId kind)}
    (registered : Registered (owners kind) (rowOwner kind) table) (bound : Bound owners (db.put kind table)) :
    Conforms owners (db.put kind table) where
  registered other := by
    by_cases same : other = kind
    · subst same
      rw [Db.put_self]
      exact registered
    · rw [Db.put_other _ same]
      exact conforms.registered other
  linked := ⟨bound,conforms.linked.notified,conforms.linked.imported,conforms.linked.requested⟩

/-- The tasks are as they were where another table is changed. -/
theorem bound_other (linked : Linked owners db) (other : kind ≠ .task) (table : Table (Row kind) (rowId kind)) :
    Bound owners (db.put kind table) := by
  rw [Bound,Db.put_other _ (Ne.symm other)]
  exact linked.bound

theorem conforms_delete (conforms : Conforms owners db) (chosen : Row kind → Bool) : Conforms owners (db.delete kind chosen) := by
  refine conforms_put conforms ((conforms.registered kind).delete chosen) ?_
  by_cases same : kind = .task
  · subst same
    rw [Bound,Db.put_self]
    exact fun task there => conforms.linked.bound task ((db.owned .task).mem_delete.mp there).1
  · exact bound_other conforms.linked same _

theorem conforms_update (conforms : Conforms owners db) (other : kind ≠ .task) {chosen : Row kind → Bool}
    {set : Row kind → Row kind} {keeps : ∀ row, rowId kind (set row) = rowId kind row}
    (owned : ∀ row, rowOwner kind (set row) = rowOwner kind row) : Conforms owners (db.update kind chosen set keeps) :=
  conforms_put conforms ((conforms.registered kind).update keeps owned) (bound_other conforms.linked other _)

/-- The register of the owners with a row that is inserted. -/
def withNext (owners : Owners) (db : Db) (kind : Kind) (o : Option Int) : Owners :=
  Function.update owners kind (entered (owners kind) (db.owned kind) o)

theorem withNext_next (owners : Owners) (db : Db) (kind : Kind) (o : Option Int) :
    withNext owners db kind o kind ((db.owned kind).last + 1) = some o := by
  rw [withNext,Function.update_self]
  exact entered_next _ _ _

theorem grows_withNext (conforms : Conforms owners db) (kind : Kind) (o : Option Int) :
    Grows owners (withNext owners db kind o) := by
  intro other
  by_cases same : other = kind
  · subst same
    rw [withNext,Function.update_self]
    exact (conforms.registered other).extends_entered o
  · rw [withNext,Function.update_of_ne same]
    exact Extends.refl _

theorem conforms_insert (conforms : Conforms owners db) {make : Int → Row kind} {keyed : ∀ id, rowId kind (make id) = id}
    {o : Option Int} (owned : rowOwner kind (make ((db.owned kind).last + 1)) = o)
    (bound : Bound (withNext owners db kind o) (db.insert kind make keyed)) :
    Conforms (withNext owners db kind o) (db.insert kind make keyed) where
  registered other := by
    by_cases same : other = kind
    · subst same owned
      rw [Db.insert,Db.put_self,withNext,Function.update_self]
      exact (conforms.registered other).insert keyed
    · rw [Db.insert,Db.put_other _ same,withNext,Function.update_of_ne same]
      exact conforms.registered other
  linked := by
    have linked := conforms.linked.grow (grows_withNext conforms kind o)
    exact ⟨bound,linked.notified,linked.imported,linked.requested⟩

theorem conforms_insert_other (conforms : Conforms owners db) (other : kind ≠ .task) {make : Int → Row kind}
    {keyed : ∀ id, rowId kind (make id) = id} {o : Option Int} (owned : rowOwner kind (make ((db.owned kind).last + 1)) = o) :
    Conforms (withNext owners db kind o) (db.insert kind make keyed) :=
  conforms_insert conforms owned (bound_other (conforms.linked.grow (grows_withNext conforms kind o)) other _)

theorem conforms_actions (conforms : Conforms owners db) {actions : Table NotificationAction NotificationAction.id}
    (notified : ∀ action ∈ actions.rows, action ∈ db.actions.rows ∨
      ∃ o, owners .task action.taskId = some o ∧ owners .channel action.channelId = some o) :
    Conforms owners (db.setActions actions) where
  registered := conforms.registered
  linked := {
    bound := conforms.linked.bound
    notified := fun action there => (notified action there).elim (conforms.linked.notified action) id
    imported := conforms.linked.imported
    requested := conforms.linked.requested }

theorem conforms_imports (conforms : Conforms owners db) {imports : Table TemplateImport TemplateImport.id}
    (imported : ∀ link ∈ imports.rows, link ∈ db.imports.rows ∨
      ∃ o, owners .subscription link.subscriptionId = some o ∧ owners .template link.templateId = some o) :
    Conforms owners (db.setImports imports) where
  registered := conforms.registered
  linked := {
    bound := conforms.linked.bound
    notified := conforms.linked.notified
    imported := fun link there => (imported link there).elim (conforms.linked.imported link) id
    requested := conforms.linked.requested }

theorem conforms_requests (conforms : Conforms owners db) {requests : Table PushRequest PushRequest.id}
    (requested : ∀ request ∈ requests.rows, request ∈ db.requests.rows ∨
      owners .template request.templateId = some (some request.ownerId)) :
    Conforms owners (db.setRequests requests) where
  registered := conforms.registered
  linked := {
    bound := conforms.linked.bound
    notified := conforms.linked.notified
    imported := conforms.linked.imported
    requested := fun request there => (requested request there).elim (conforms.linked.requested request) id }

end Registers

section Answers

variable {owners : Owners} {db : Db} {kind : Kind}

theorem agrees_nil : Agrees owners [] := fun _ told => absurd told List.not_mem_nil

theorem agrees_cons {fact : Fact} {facts : List Fact} (first : owners fact.kind fact.id = some fact.ownerId)
    (rest : Agrees owners facts) : Agrees owners (fact :: facts) := List.forall_mem_cons.mpr ⟨first,rest⟩

theorem get_ok {id : Int} {ownerId : Option Int} {row : Row kind} (found : db.get kind id ownerId = some row) :
    row ∈ (db.owned kind).rows ∧ rowId kind row = id ∧ ownerId.or (rowOwner kind row) = rowOwner kind row := by
  obtain ⟨found,visible⟩ := Option.filter_eq_some_iff.mp found
  obtain ⟨there,keyed⟩ := ((db.owned kind).find_eq_some).mp found
  refine ⟨there,keyed,?_⟩
  cases ownerId with
  | none => rfl
  | some ownerId =>
    simp only [Option.isNone_some,Bool.false_or,decide_eq_true_eq] at visible
    rw [visible]
    rfl

theorem Conforms.get (conforms : Conforms owners db) {id : Int} {ownerId : Option Int} {row : Row kind}
    (found : db.get kind id ownerId = some row) :
    owners kind id = some (ownerId.or (rowOwner kind row)) ∧ rowId kind row = id := by
  obtain ⟨there,keyed,own⟩ := get_ok found
  rw [own,← keyed]
  exact ⟨conforms.owner there,rfl⟩

theorem Conforms.taskOf (conforms : Conforms owners db) {ownerId : Int} {action : NotificationAction}
    (owned : db.taskOf ownerId action = true) : owners .task action.taskId = some (some ownerId) := by
  obtain ⟨task,there,same⟩ := List.any_eq_true.mp owned
  rw [Bool.and_eq_true,beq_iff_eq,beq_iff_eq] at same
  rw [← same.1,← same.2]
  exact conforms.owner there

theorem agrees_getTemplate (conforms : Conforms owners db) (id : Int) (ownerId : Option Int) :
    Agrees owners (learns (.getTemplate id ownerId) (some (db.get .template id ownerId))) := by
  cases found : db.get .template id ownerId with
  | none => exact agrees_nil
  | some row =>
    obtain ⟨own,keyed⟩ := conforms.get found
    have same : row.id = id := keyed
    refine agrees_cons own (agrees_cons ?_ agrees_nil)
    rw [same]
    exact own

theorem agrees_getTask (conforms : Conforms owners db) (id : Int) (ownerId : Option Int) :
    Agrees owners (learns (.getTask id ownerId) (some (db.get .task id ownerId))) := by
  cases found : db.get .task id ownerId with
  | none => exact agrees_nil
  | some row =>
    obtain ⟨own,keyed⟩ := conforms.get found
    have same : row.id = id := keyed
    obtain ⟨there,_,whole⟩ := get_ok found
    have owner : ownerId.or row.ownerId = row.ownerId := whole
    refine agrees_cons own (agrees_cons (same ▸ own) fun fact told => ?_)
    obtain ⟨template,points,rfl⟩ := List.mem_map.mp told
    dsimp only
    rw [owner]
    exact conforms.linked.bound row there template (Option.mem_toList.mp points)

theorem agrees_getAction (conforms : Conforms owners db) (id ownerId : Int) :
    Agrees owners (learns (.getAction id ownerId) (some ((db.actions.find id).filter (db.taskOf ownerId)))) := by
  cases found : (db.actions.find id).filter (db.taskOf ownerId) with
  | none => exact agrees_nil
  | some action =>
    obtain ⟨found,owned⟩ := Option.filter_eq_some_iff.mp found
    obtain ⟨o,task,channel⟩ := conforms.linked.notified action ((db.actions.find_eq_some).mp found).1
    have same : o = some ownerId := Option.some.inj (task.symm.trans (conforms.taskOf owned))
    refine agrees_cons ?_ agrees_nil
    rw [← same]
    exact channel

theorem agrees_getSubscription (conforms : Conforms owners db) (id ownerId : Int) :
    Agrees owners (learns (.getSubscription id ownerId) (some (db.get .subscription id (some ownerId)))) := by
  cases found : db.get .subscription id (some ownerId) with
  | none => exact agrees_nil
  | some row =>
    exact agrees_cons (conforms.owner (get_ok found).1) agrees_nil

theorem agrees_ownsChannel (conforms : Conforms owners db) (channelId ownerId : Int) :
    Agrees owners (learns (.ownsChannel channelId ownerId) (some ((db.get .channel channelId (some ownerId)).isSome))) := by
  cases found : db.get .channel channelId (some ownerId) with
  | none => exact agrees_nil
  | some row =>
    exact agrees_cons (conforms.get found).1 agrees_nil

theorem agrees_ownsTaskAndChannel (conforms : Conforms owners db) (taskId ownerId channelId : Int) :
    Agrees owners (learns (.ownsTaskAndChannel taskId ownerId channelId)
      (some (handle (.ownsTaskAndChannel taskId ownerId channelId) db).1)) := by
  cases owns : (handle (.ownsTaskAndChannel taskId ownerId channelId) db).1 with
  | false => exact agrees_nil
  | true =>
    obtain ⟨task,there,owns⟩ := List.any_eq_true.mp owns
    obtain ⟨channel,present,owns⟩ := List.any_eq_true.mp owns
    simp only [Bool.and_eq_true,beq_iff_eq] at owns
    obtain ⟨⟨⟨joined,rfl⟩,owned⟩,rfl⟩ := owns
    have first : owners .task task.id = some task.ownerId := conforms.owner there
    have second : owners .channel channel.id = some (some channel.ownerId) := conforms.owner present
    rw [owned] at first
    rw [joined,owned] at second
    exact agrees_cons first (agrees_cons second agrees_nil)

theorem agrees_channelsForEvent (conforms : Conforms owners db) (taskId : Int) (event : String) :
    Agrees owners (learns (.channelsForEvent taskId event) (some (db.deliveries taskId event))) := by
  intro fact told
  obtain ⟨⟨action,channel⟩,delivery,rfl⟩ := List.mem_map.mp told
  obtain ⟨binding,there,delivery⟩ := List.mem_flatMap.mp delivery
  split at delivery
  · next chosen =>
    obtain ⟨other,present,same⟩ := List.mem_map.mp delivery
    cases same
    obtain ⟨present,joined⟩ := List.mem_filter.mp present
    rw [Bool.and_eq_true,beq_iff_eq] at joined
    obtain ⟨o,task,own⟩ := conforms.linked.notified action there
    have second := conforms.owner present
    rw [← joined.1] at own
    have same : o = some channel.ownerId := Option.some.inj (own.symm.trans second)
    dsimp only
    rw [← chosen.1,task,same]
  · exact absurd delivery List.not_mem_nil

end Answers

section Writes

variable {owners : Owners} {db : Db} {facts : List Fact}

theorem conforms_insertTask (conforms : Conforms owners db) (agrees : Agrees owners facts) {ownerId : Int}
    {columns : TaskColumns} {now : Int} (permitted : permits facts (.insertTask ownerId columns now)) :
    Conforms (withNext owners db .task (some ownerId)) (handle (.insertTask ownerId columns now) db).2 := by
  have grows := grows_withNext conforms .task (some ownerId)
  refine conforms_insert conforms rfl ?_
  change Bound _ (db.put .task _)
  rw [Bound,Db.put_self]
  intro task member template points
  rcases ((db.owned .task).mem_insert fun _ => rfl).mp member with old | rfl
  · exact grows _ _ _ (conforms.linked.bound task old template points)
  · exact grows _ _ _ ((permitted template points).agrees agrees)

theorem conforms_updateTask (conforms : Conforms owners db) (agrees : Agrees owners facts) {id : Int}
    {columns : TaskColumns} {now : Int} (permitted : permits facts (.updateTask id columns now)) :
    Conforms owners (handle (.updateTask id columns now) db).2 := by
  obtain ⟨o,task,bound⟩ := permitted
  refine conforms_put conforms ((conforms.registered .task).update _ fun _ => rfl) ?_
  rw [Bound,Db.put_self]
  intro row member template points
  obtain ⟨old,there,rfl⟩ := ((db.owned .task).mem_update _).mp member
  split at points
  · next chosen =>
    have keyed : old.id = id := eq_of_beq chosen
    have first : owners .task old.id = some old.ownerId := conforms.owner there
    have second := task.agrees agrees
    rw [← keyed,first] at second
    rw [if_pos chosen,(bound template points).agrees agrees]
    exact second.symm
  · next other =>
    rw [if_neg other]
    exact conforms.linked.bound old there template points

theorem conforms_insertAction (conforms : Conforms owners db) (agrees : Agrees owners facts) {taskId : Int}
    {columns : ActionColumns} (permitted : permits facts (.insertAction taskId columns)) :
    Conforms owners (handle (.insertAction taskId columns) db).2 := by
  obtain ⟨o,task,channel⟩ := permitted
  refine conforms_actions conforms fun action member => ?_
  rcases (db.actions.mem_insert fun _ => rfl).mp member with old | rfl
  · exact .inl old
  · exact .inr ⟨o,task.agrees agrees,channel.agrees agrees⟩

theorem conforms_updateAction (conforms : Conforms owners db) (agrees : Agrees owners facts) {id ownerId : Int}
    {columns : ActionColumns} (permitted : permits facts (.updateAction id ownerId columns)) :
    Conforms owners (handle (.updateAction id ownerId columns) db).2 := by
  refine conforms_actions conforms fun action member => ?_
  obtain ⟨old,there,rfl⟩ := (db.actions.mem_update _).mp member
  split
  · next chosen =>
    have owned := ((Bool.and_eq_true _ _).mp chosen).2
    exact .inr ⟨some ownerId,conforms.taskOf owned,Known.agrees permitted agrees⟩
  · exact .inl there

theorem conforms_updateImport (conforms : Conforms owners db) (agrees : Agrees owners facts) {subscriptionId templateId : Int}
    {entry : Subscriptions.RawEntry} (permitted : permits facts (.updateImport subscriptionId templateId entry)) :
    Conforms owners (handle (.updateImport subscriptionId templateId entry) db).2 := by
  obtain ⟨o,subscription,template⟩ := permitted
  refine conforms_imports conforms fun link member => ?_
  obtain ⟨old,there,rfl⟩ := (db.imports.mem_update _).mp member
  split
  · next chosen =>
    have subscribed : old.subscriptionId = subscriptionId := eq_of_beq ((Bool.and_eq_true _ _).mp chosen).1
    refine .inr ⟨o,?_,template.agrees agrees⟩
    rw [← subscribed] at subscription
    exact subscription.agrees agrees
  · exact .inl there

theorem conforms_insertImport (conforms : Conforms owners db) (agrees : Agrees owners facts) {subscriptionId templateId : Int}
    {entry : Subscriptions.RawEntry} (permitted : permits facts (.insertImport subscriptionId templateId entry)) :
    Conforms owners (handle (.insertImport subscriptionId templateId entry) db).2 := by
  obtain ⟨o,subscription,template⟩ := permitted
  refine conforms_imports conforms fun link member => ?_
  rcases (db.imports.mem_insert _).mp member with old | rfl
  · exact .inl old
  · exact .inr ⟨o,subscription.agrees agrees,template.agrees agrees⟩

theorem conforms_insertPushRequest (conforms : Conforms owners db) (agrees : Agrees owners facts) {ownerId templateId : Int}
    {note : Option String} {now : Int} (permitted : permits facts (.insertPushRequest ownerId templateId note now)) :
    Conforms owners (handle (.insertPushRequest ownerId templateId note now) db).2 := by
  refine conforms_requests conforms fun request member => ?_
  rcases (db.requests.mem_insert fun _ => rfl).mp member with old | rfl
  · exact .inl old
  · exact .inr (Known.agrees permitted agrees)

/-- A delete that is refused where it selects no row. -/
theorem conforms_either {condition : Prop} [Decidable condition] {after : Db} (conforms : Conforms owners db)
    (deleted : Conforms owners after) : Conforms owners (if condition then (false,db) else (true,after)).2 := by
  split
  · exact conforms
  · exact deleted

theorem conforms_deleteTemplate (conforms : Conforms owners db) (id ownerId : Int) :
    Conforms owners (handle (.deleteTemplateRows id ownerId) db).2 := by
  refine conforms_either conforms (conforms_delete (conforms_requests (conforms_imports conforms ?_) ?_) _)
  · exact fun link member => .inl (db.imports.mem_delete.mp member).1
  · exact fun request member => .inl (db.requests.mem_delete.mp member).1

theorem conforms_deleteTask (conforms : Conforms owners db) (id ownerId : Int) :
    Conforms owners (handle (.deleteTaskRows id ownerId) db).2 := by
  refine conforms_either conforms (conforms_delete (conforms_actions conforms ?_) _)
  exact fun action member => .inl (db.actions.mem_delete.mp member).1

theorem conforms_deleteChannel (conforms : Conforms owners db) (id ownerId : Int) :
    Conforms owners (handle (.deleteChannelRows id ownerId) db).2 := by
  refine conforms_either conforms (conforms_delete (conforms_actions conforms ?_) _)
  exact fun action member => .inl (db.actions.mem_delete.mp member).1

theorem conforms_deleteSubscription (conforms : Conforms owners db) (id ownerId : Int) :
    Conforms owners (handle (.deleteSubscriptionRows id ownerId) db).2 := by
  refine conforms_either conforms (conforms_delete (conforms_imports conforms ?_) _)
  exact fun link member => .inl (db.imports.mem_delete.mp member).1

theorem conforms_deleteAction (conforms : Conforms owners db) (id ownerId : Int) :
    Conforms owners (handle (.deleteAction id ownerId) db).2 :=
  conforms_actions conforms fun _ member => .inl (db.actions.mem_delete.mp member).1

/-- A permitted statement enters at most a new key, and what it tells is so. -/
theorem handle_conforms (conforms : Conforms owners db) (agrees : Agrees owners facts) (statement : Statement)
    (permitted : permits facts statement) : ∃ after, Grows owners after ∧ Conforms after (handle statement db).2 ∧
      Agrees after (learns statement (some (handle statement db).1)) := by
  have same (conforms : Conforms owners (handle statement db).2)
      (told : Agrees owners (learns statement (some (handle statement db).1))) :
      ∃ after, Grows owners after ∧ Conforms after (handle statement db).2 ∧
        Agrees after (learns statement (some (handle statement db).1)) := ⟨owners,Grows.refl _,conforms,told⟩
  cases statement with
  | getTemplate id ownerId => exact same conforms (agrees_getTemplate conforms id ownerId)
  | getPublicTemplate id => exact same conforms agrees_nil
  | findTemplateByName ownerId name => exact same conforms agrees_nil
  | templatePublished id ownerId => exact same conforms agrees_nil
  | insertTemplate ownerId name source =>
    refine ⟨withNext owners db .template (some ownerId),grows_withNext conforms _ _,
      conforms_insert_other conforms (by decide) rfl,?_⟩
    exact agrees_cons (withNext_next owners db .template (some ownerId)) agrees_nil
  | updateTemplate id ownerId name definition =>
    exact same (conforms_update conforms (by decide) fun _ => rfl) agrees_nil
  | updateQdHar id ownerId name har => exact same (conforms_update conforms (by decide) fun _ => rfl) agrees_nil
  | setTemplatePublished id ownerId published => exact same (conforms_update conforms (by decide) fun _ => rfl) agrees_nil
  | deleteTemplateRows id ownerId => exact same (conforms_deleteTemplate conforms id ownerId) agrees_nil
  | getTask id ownerId => exact same conforms (agrees_getTask conforms id ownerId)
  | insertTask ownerId columns now =>
    exact ⟨_,grows_withNext conforms _ _,conforms_insertTask conforms agrees permitted,agrees_nil⟩
  | updateTask id columns now => exact same (conforms_updateTask conforms agrees permitted) agrees_nil
  | deleteTaskRows id ownerId => exact same (conforms_deleteTask conforms id ownerId) agrees_nil
  | getChannel id ownerId => exact same conforms agrees_nil
  | insertChannel ownerId name kind config enabled =>
    exact ⟨_,grows_withNext conforms _ _,conforms_insert_other conforms (by decide) rfl,agrees_nil⟩
  | updateChannel id ownerId name config enabled => exact same (conforms_update conforms (by decide) fun _ => rfl) agrees_nil
  | deleteChannelRows id ownerId => exact same (conforms_deleteChannel conforms id ownerId) agrees_nil
  | ownsTaskAndChannel taskId ownerId channelId => exact same conforms (agrees_ownsTaskAndChannel conforms taskId ownerId channelId)
  | ownsChannel channelId ownerId => exact same conforms (agrees_ownsChannel conforms channelId ownerId)
  | getAction id ownerId => exact same conforms (agrees_getAction conforms id ownerId)
  | insertAction taskId columns => exact same (conforms_insertAction conforms agrees permitted) agrees_nil
  | updateAction id ownerId columns => exact same (conforms_updateAction conforms agrees permitted) agrees_nil
  | deleteAction id ownerId => exact same (conforms_deleteAction conforms id ownerId) agrees_nil
  | getSubscription id ownerId => exact same conforms (agrees_getSubscription conforms id ownerId)
  | insertSubscription ownerId name url =>
    exact ⟨_,grows_withNext conforms _ _,conforms_insert_other conforms (by decide) rfl,agrees_nil⟩
  | updateSubscription id ownerId name url => exact same (conforms_update conforms (by decide) fun _ => rfl) agrees_nil
  | deleteSubscriptionRows id ownerId => exact same (conforms_deleteSubscription conforms id ownerId) agrees_nil
  | listTemplateImports subscriptionId => exact same conforms agrees_nil
  | updateImport subscriptionId templateId entry => exact same (conforms_updateImport conforms agrees permitted) agrees_nil
  | insertImport subscriptionId templateId entry => exact same (conforms_insertImport conforms agrees permitted) agrees_nil
  | getPushRequest id => exact same conforms agrees_nil
  | insertPushRequest ownerId templateId note now =>
    exact same (conforms_insertPushRequest conforms agrees permitted) agrees_nil
  | channelsForEvent taskId event => exact same conforms (agrees_channelsForEvent conforms taskId event)
  | execute task template => exact same conforms agrees_nil
  | notify task channel => exact same conforms agrees_nil

end Writes

/-- Rows that are joined are of one account. -/
structure Isolated (db : Db) : Prop where
  tasks : ∀ task ∈ (db.owned .task).rows, ∀ template ∈ (db.owned .template).rows,
    task.templateId = some template.id → template.ownerId = task.ownerId
  actions : ∀ action ∈ db.actions.rows, ∀ task ∈ (db.owned .task).rows, ∀ channel ∈ (db.owned .channel).rows,
    action.taskId = task.id → action.channelId = channel.id → task.ownerId = some channel.ownerId
  imports : ∀ link ∈ db.imports.rows, ∀ subscription ∈ (db.owned .subscription).rows, ∀ template ∈ (db.owned .template).rows,
    link.subscriptionId = subscription.id → link.templateId = template.id → template.ownerId = some subscription.ownerId
  requests : ∀ request ∈ db.requests.rows, ∀ template ∈ (db.owned .template).rows,
    request.templateId = template.id → template.ownerId = some request.ownerId

/-- Runs replay templates of the task's account and notify through its channels. -/
structure OwnRuns {ι : Type} (past : List (Event ι Statement Statement.Answer)) : Prop where
  executed : ∀ event ∈ past, ∀ task template, event.request = .execute task (some template) → template.ownerId = task.ownerId
  notified : ∀ event ∈ past, ∀ task channel, event.request = .notify task channel → task.ownerId = some channel.ownerId

section Runs

variable {ι : Type}

abbrev State (ι : Type) := Concurrent.State ι Statement Statement.Answer Db Unit

/-- Every process has one operation to perform, on an empty store. -/
def start (env : Env) (jobs : ι → Job) : State ι := State.start Db.empty fun i => routine env (jobs i)

abbrev step [DecidableEq ι] (s : State ι) (action : Action ι Empty) : Option (State ι) :=
  Concurrent.step handle (fun _ _ => none) s action

theorem isolated_of_conforms {owners : Owners} {db : Db} (conforms : Conforms owners db) : Isolated db where
  tasks task there template present points := by
    have bound := conforms.linked.bound task there template.id points
    have owner : owners .template template.id = some template.ownerId := conforms.owner present
    exact Option.some.inj (owner.symm.trans bound)
  actions action there task present channel found first second := by
    obtain ⟨o,bound,joined⟩ := conforms.linked.notified action there
    have taskOwner : owners .task task.id = some task.ownerId := conforms.owner present
    have channelOwner : owners .channel channel.id = some (some channel.ownerId) := conforms.owner found
    rw [first,taskOwner] at bound
    rw [second,channelOwner] at joined
    exact (Option.some.inj bound).trans (Option.some.inj joined).symm
  imports link there subscription present template found first second := by
    obtain ⟨o,subscribed,joined⟩ := conforms.linked.imported link there
    have subscriptionOwner : owners .subscription subscription.id = some (some subscription.ownerId) := conforms.owner present
    have templateOwner : owners .template template.id = some template.ownerId := conforms.owner found
    rw [first,subscriptionOwner] at subscribed
    rw [second,templateOwner] at joined
    exact (Option.some.inj joined).trans (Option.some.inj subscribed).symm
  requests request there template present points := by
    have requested := conforms.linked.requested request there
    have owner : owners .template template.id = some template.ownerId := conforms.owner present
    rw [points,owner] at requested
    exact Option.some.inj requested

theorem learns_none (statement : Statement) : learns statement none = [] := by
  cases statement <;> rfl

/-- One register of owners covers the tables and everything that was told. -/
def Consistent (world : World ι Statement Statement.Answer Db) : Prop :=
  ∃ owners, Conforms owners world.shared ∧ (∀ event ∈ world.past, Agrees owners (learns event.request event.answer)) ∧
    OwnRuns world.past

theorem consistent_empty : Consistent (⟨Db.empty,[]⟩ : World ι Statement Statement.Answer Db) := by
  refine ⟨fun _ _ => none,conforms_empty,?_,?_,?_⟩
  · exact fun _ there => absurd there List.not_mem_nil
  · exact fun _ there => absurd there List.not_mem_nil
  · exact fun _ there => absurd there List.not_mem_nil

variable [DecidableEq ι]

theorem agrees_gathered {owners : Owners} {past : List (Event ι Statement Statement.Answer)}
    (told : ∀ event ∈ past, Agrees owners (learns event.request event.answer)) (i : ι) :
    Agrees owners (gathered learns past i) := by
  intro fact known
  obtain ⟨event,there,known⟩ := List.mem_flatMap.mp known
  exact told event (List.mem_of_mem_filter there) fact known

omit [DecidableEq ι] in
/-- A permitted execution or notification is one of the task's account. -/
theorem ownRuns_cons {owners : Owners} {facts : List Fact} {past : List (Event ι Statement Statement.Answer)}
    (own : OwnRuns past) (agrees : Agrees owners facts) (event : Event ι Statement Statement.Answer)
    (permitted : permits facts event.request) : OwnRuns (event :: past) where
  executed := by
    refine List.forall_mem_cons.mpr ⟨?_,own.executed⟩
    intro task template same
    rw [same] at permitted
    obtain ⟨id,first,second⟩ := permitted
    exact Option.some.inj ((second.agrees agrees).symm.trans (first.agrees agrees))
  notified := by
    refine List.forall_mem_cons.mpr ⟨?_,own.notified⟩
    intro task channel same
    rw [same] at permitted
    exact Option.some.inj ((permitted.1.agrees agrees).symm.trans (permitted.2.agrees agrees))

/-- One statement of one process. -/
theorem consistent_perform {world : World ι Statement Statement.Answer Db} (consistent : Consistent world) (i : ι)
    (statement : Statement) (fails : Bool) (permitted : permits (gathered learns world.past i) statement) :
    Consistent (world.perform handle i statement fails) := by
  obtain ⟨owners,conforms,told,own⟩ := consistent
  have agrees := agrees_gathered told i
  have runs := ownRuns_cons own agrees ⟨i,statement,answer handle world.shared statement fails⟩ permitted
  cases fails with
  | true =>
    refine ⟨owners,conforms,?_,runs⟩
    refine List.forall_mem_cons.mpr ⟨?_,told⟩
    dsimp only
    rw [learns_none]
    exact agrees_nil
  | false =>
    obtain ⟨after,grows,kept,learned⟩ := handle_conforms conforms agrees statement permitted
    refine ⟨after,kept,?_,runs⟩
    exact List.forall_mem_cons.mpr ⟨learned,fun event there => (told event there).grow grows⟩

end Runs

/-- Whatever users do in whatever order, from an empty store: a task has the owner of its template,
a binding joins a task and a channel of one owner, an import a template and a subscription, and a
push request is made by the owner of the template. No run replays another account's template or
notifies through another account's channel. -/
theorem accounts_isolated {ι : Type} [DecidableEq ι] (env : Env) (jobs : ι → Job) (s : State ι)
    (run : Transition.Reachable step (start env jobs) s) : Isolated s.shared ∧ OwnRuns s.past := by
  have kept : Assertions Consistent (fun i world rest => Grounded learns permits (gathered learns world.past i) rest) s := by
    refine assertions_kept _ _ ?_ ?_ ?_ run ⟨?_,fun i => grounded_routine env (jobs i)⟩
    · intro t i statement next fails holds _ outstanding
      have grounded := holds.stage i
      rw [outstanding] at grounded
      cases grounded with
      | call permitted rest =>
        refine ⟨consistent_perform holds.common i statement fails permitted,?_⟩
        rw [past_perform,gathered_self]
        exact rest _
    · intro t i statement next fails j holds _ _ differs
      rw [past_perform,gathered_other differs]
      exact holds.stage j
    · exact fun _ event => event.elim
    · exact consistent_empty
  obtain ⟨owners,conforms,_,own⟩ := kept.common
  exact ⟨isolated_of_conforms conforms,own⟩

section Runs

def plainEnv : Env := ⟨⟨id,fun _ => true,fun _ => true,fun _ => true,id⟩,fun _ _ _ => .ok ()⟩

def boundTask (template : Int) : CreateTask :=
  ⟨"sign in","@daily",none,"https://example.invalid/",[],none,false,some template,none,none,none,none,none,none,none,none⟩

/-- One account binds a task to its template, another tries to, and the task is run. -/
def sharedJobs : Nat → Job
  | 0 => .createTemplate 1 "wait" ⟨1,"wait",[],[.delay 1]⟩
  | 1 => .createTask 1 (boundTask 1) 0
  | 2 => .createTask 2 (boundTask 1) 0
  | _ => .run 1 ⟨true,0,false⟩

def sharedTurns : List (Action Nat Empty) := [0,0,1,2,1,1,3,3,3,3].map fun process => .call process false

def sharedRun : Option (State Nat) := Transition.exec step (start plainEnv sharedJobs) sharedTurns

/-- The owners of the tasks, and the number of executed templates. -/
def tally (s : State Nat) : List (Option Int) × Nat :=
  ((s.shared.owned .task).rows.map TaskRow.ownerId,s.past.countP fun event => match event.request with
    | .execute _ (some _) => true
    | _ => false)

theorem sharedRun_tally : sharedRun.map tally = some ([some 1],1) := by decide +kernel

theorem sharedRun_ran : sharedRun.isSome = true := by
  rw [← Option.isSome_map,sharedRun_tally]
  rfl

theorem accounts_isolated_shared : tally (sharedRun.get sharedRun_ran) = ([some 1],1) ∧
    Isolated (sharedRun.get sharedRun_ran).shared ∧ OwnRuns (sharedRun.get sharedRun_ran).past := by
  refine ⟨?_,accounts_isolated plainEnv sharedJobs _ (Transition.reachable_get _ _ sharedRun_ran)⟩
  refine Option.some.inj ?_
  rw [← sharedRun_tally,← Option.map_some,Option.some_get]

end Runs

end Qdrust.Tenancy
