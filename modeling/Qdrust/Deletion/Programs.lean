import Qdrust.Backup.Schema
import Qdrust.Library.Relational

/-! The deletions of the store, statement by statement. On MySQL no foreign key helps them:
what refers to a deleted row has to be named in the program. -/
namespace Qdrust.Deletion
open Library Relational Backup

/-- Columns that hold the id of another row. -/
inductive Link where
  | user | task | template | run | channel | subscription | reviewer | original
deriving DecidableEq

abbrev Db := Relational.Db TableName Link

/-- The column of a link. -/
def column (t : TableName) : Link → String
  | .user => if t ∈ [.sessions,.totpLoginChallenges,.apiTokens,.externalIdentities,.emailVerificationTokens,
      .passwordResetTokens] then "user_id" else "owner_id"
  | .task => "task_id"
  | .template => "template_id"
  | .run => "run_id"
  | .channel => "channel_id"
  | .subscription => "subscription_id"
  | .reviewer => "reviewed_by"
  | .original => "retry_of"

/-- What refers to what. The actor of the audit log is not among them, nor are the action and
the channel of the delivery ledger. -/
def references : List (TableName × Link × TableName) :=
  [(.sessions,.user,.users),(.totpLoginChallenges,.user,.users),(.plugins,.user,.users),(.apiTokens,.user,.users),
    (.externalIdentities,.user,.users),(.notepads,.user,.users),(.notificationDefaultTemplates,.user,.users),
    (.emailVerificationTokens,.user,.users),(.passwordResetTokens,.user,.users),(.templates,.user,.users),
    (.tasks,.user,.users),(.notificationChannels,.user,.users),(.templateSubscriptions,.user,.users),
    (.pushRequests,.user,.users),(.pushRequests,.reviewer,.users),
    (.tasks,.template,.templates),(.templateImports,.template,.templates),(.pushRequests,.template,.templates),
    (.runs,.task,.tasks),(.notificationActions,.task,.tasks),(.notificationDeliveries,.task,.tasks),
    (.runSteps,.run,.runs),(.notificationDeliveries,.run,.runs),(.runs,.original,.runs),
    (.notificationActions,.channel,.notificationChannels),(.templateImports,.subscription,.templateSubscriptions)]

/-- Every foreign key of the schema is a reference, but for the actor of the audit log. -/
theorem foreignKeys_referenced (t : TableName) (audited : t ≠ .auditLogs) :
    ∀ ref ∈ (sqliteTable t).references, ∃ l, (t,l,ref.parent) ∈ references ∧ column t l = ref.column := by
  intro ref listed
  have links : (sqliteTable t).references.all (fun ref => [Link.user,.task,.template,.run,.channel,.subscription,
      .reviewer,.original].any fun l => references.contains (t,l,ref.parent) && column t l == ref.column) = true := by
    cases t <;> first | exact absurd rfl audited | decide +kernel
  obtain ⟨l,-,found⟩ := List.any_eq_true.mp (List.all_eq_true.mp links ref listed)
  rw [Bool.and_eq_true,List.contains_iff_mem,beq_iff_eq] at found
  exact ⟨l,found⟩

abbrev Condition := Cond TableName Link

abbrev Program := List (Statement TableName Link)

/-- `delete_task_rows`. -/
def deleteTaskRows (id : Int) : Program :=
  [(.notificationDeliveries,.link .task id),(.runSteps,.within .run .runs (.link .task id)),(.runs,.link .task id),
    (.notificationActions,.link .task id),(.tasks,.id id)]

/-- The `delete` of `batch_operations_for_owner`. -/
def deleteBatch (owner : Int) (ids : List Int) : Program :=
  let chosen : Condition := .both (.link .user owner) (.among ids)
  [(.notificationDeliveries,.within .task .tasks chosen),(.runSteps,.within .run .runs (.within .task .tasks chosen)),
    (.runs,.within .task .tasks chosen),(.notificationActions,.within .task .tasks chosen),(.tasks,chosen)]

/-- `delete_template_rows`. -/
def deleteTemplateRows (id : Int) : Program :=
  [(.templateImports,.link .template id),(.pushRequests,.link .template id),(.templates,.id id)]

def deleteRun (id : Int) : Program :=
  [(.notificationDeliveries,.link .run id),(.runSteps,.link .run id),(.runs,.id id)]

/-- `delete_user`, but for the statement that forgets the actor in the audit log. -/
def deleteUser (id : Int) : Program :=
  let theirs : Condition := .link .user id
  [(.totpLoginChallenges,theirs),
    (.notificationActions,.either (.within .channel .notificationChannels theirs) (.within .task .tasks theirs)),
    (.notificationChannels,theirs),
    (.templateImports,.either (.within .subscription .templateSubscriptions theirs)
      (.within .template .templates theirs)),
    (.templateSubscriptions,theirs),
    (.pushRequests,.either (.either theirs (.link .reviewer id)) (.within .template .templates theirs)),
    (.notificationDeliveries,.within .run .runs (.within .task .tasks theirs)),
    (.runSteps,.within .run .runs (.within .task .tasks theirs)),
    (.runs,.within .task .tasks theirs),(.tasks,theirs),(.templates,theirs),(.plugins,theirs),(.notepads,theirs),
    (.apiTokens,theirs),(.externalIdentities,theirs),(.notificationDefaultTemplates,theirs),(.sessions,theirs),
    (.passwordResetTokens,theirs),(.emailVerificationTokens,theirs),(.users,.id id)]

/-- What is deleted, and for whom. -/
inductive Purpose where
  | task (id owner : Int)
  | batch (owner : Int) (ids : List Int)
  | template (id owner : Int)
  | run (id owner : Int)
  | user (id : Int)

def Purpose.program : Purpose → Program
  | .task id _ => deleteTaskRows id
  | .batch owner ids => deleteBatch owner ids
  | .template id _ => deleteTemplateRows id
  | .run id _ => deleteRun id
  | .user id => deleteUser id

/-- The account whose rows are deleted. -/
def Purpose.subject : Purpose → Int
  | .task _ owner | .batch owner _ | .template _ owner | .run _ owner => owner
  | .user id => id

theorem program_typed (purpose : Purpose) : TypedProgram references purpose.program := by
  have checked : (purpose.program.all fun st => st.2.typed references st.1) = true := by
    cases purpose <;> rfl
  exact List.all_eq_true.mp checked

/-- No condition reads the template of a task. -/
theorem program_avoids (purpose : Purpose) : ∀ st ∈ purpose.program, st.2.avoids .tasks .template st.1 = true := by
  have checked : (purpose.program.all fun st => st.2.avoids .tasks .template st.1) = true := by
    cases purpose <;> rfl
  exact List.all_eq_true.mp checked

/-- Children go before their parents. -/
theorem program_ordered (purpose : Purpose) : ordered [] purpose.program = true := by
  cases purpose <;> rfl

/-- The tables of rows that an account owns. -/
def ownedTables : List TableName :=
  [.sessions,.totpLoginChallenges,.plugins,.apiTokens,.externalIdentities,.notepads,.notificationDefaultTemplates,
    .emailVerificationTokens,.passwordResetTokens,.templates,.tasks,.notificationChannels,.templateSubscriptions,
    .pushRequests]

/-- The references, by what they are to their parent. -/
inductive Child : TableName → Link → TableName → Prop where
  | owned (t : TableName) (listed : t ∈ ownedTables) : Child t .user .users
  | reviewed : Child .pushRequests .reviewer .users
  | bound : Child .tasks .template .templates
  | imported : Child .templateImports .template .templates
  | requested : Child .pushRequests .template .templates
  | ran : Child .runs .task .tasks
  | acted : Child .notificationActions .task .tasks
  | delivered : Child .notificationDeliveries .task .tasks
  | stepped : Child .runSteps .run .runs
  | recorded : Child .notificationDeliveries .run .runs
  | retried : Child .runs .original .runs
  | notified : Child .notificationActions .channel .notificationChannels
  | subscribed : Child .templateImports .subscription .templateSubscriptions

theorem child_of_mem {child parent : TableName} {l : Link} (refers : (child,l,parent) ∈ references) :
    Child child l parent := by
  have all : ∀ r ∈ references, Child r.1 r.2.1 r.2.2 := by
    simp only [references,List.forall_mem_cons,List.not_mem_nil,false_implies,implies_true,and_true]
    refine ⟨?_,?_,?_,?_,?_,?_,?_,?_,?_,?_,?_,?_,?_,?_,.reviewed,.bound,.imported,.requested,.ran,.acted,.delivered,
      .stepped,.recorded,.retried,.notified,.subscribed⟩
    all_goals exact .owned _ (by decide)
  exact all _ refers

section Closed

variable {view : TableName → List (Row Link)} {row : Row Link}

theorem marked_task (id : Int) (t : TableName) : marked (deleteTaskRows id) view t row =
    match t with
    | .notificationDeliveries | .runs | .notificationActions => row.link .task == some id
    | .runSteps => (view .runs).any fun r => row.link .run == some r.id && r.link .task == some id
    | .tasks => row.id == id
    | _ => false := by
  cases t <;> simp [marked,deleteTaskRows,Cond.eval]

theorem marked_template (id : Int) (t : TableName) : marked (deleteTemplateRows id) view t row =
    match t with
    | .templateImports | .pushRequests => row.link .template == some id
    | .templates => row.id == id
    | _ => false := by
  cases t <;> simp [marked,deleteTemplateRows,Cond.eval]

theorem marked_run (id : Int) (t : TableName) : marked (deleteRun id) view t row =
    match t with
    | .notificationDeliveries | .runSteps => row.link .run == some id
    | .runs => row.id == id
    | _ => false := by
  cases t <;> simp [marked,deleteRun,Cond.eval]

theorem marked_batch (owner : Int) (ids : List Int) (t : TableName) : marked (deleteBatch owner ids) view t row =
    match t with
    | .notificationDeliveries | .runs | .notificationActions =>
      (view .tasks).any fun p => row.link .task == some p.id && (p.link .user == some owner && ids.contains p.id)
    | .runSteps => (view .runs).any fun r => row.link .run == some r.id &&
      (view .tasks).any fun p => r.link .task == some p.id && (p.link .user == some owner && ids.contains p.id)
    | .tasks => row.link .user == some owner && ids.contains row.id
    | _ => false := by
  cases t <;> simp [marked,deleteBatch,Cond.eval]

theorem marked_user (id : Int) (t : TableName) : marked (deleteUser id) view t row =
    match t with
    | .notificationActions =>
      (view .notificationChannels).any (fun p => row.link .channel == some p.id && p.link .user == some id) ||
        (view .tasks).any fun p => row.link .task == some p.id && p.link .user == some id
    | .templateImports =>
      (view .templateSubscriptions).any (fun p => row.link .subscription == some p.id && p.link .user == some id) ||
        (view .templates).any fun p => row.link .template == some p.id && p.link .user == some id
    | .pushRequests => (row.link .user == some id || row.link .reviewer == some id) ||
      (view .templates).any fun p => row.link .template == some p.id && p.link .user == some id
    | .notificationDeliveries | .runSteps => (view .runs).any fun r => row.link .run == some r.id &&
      (view .tasks).any fun p => r.link .task == some p.id && p.link .user == some id
    | .runs => (view .tasks).any fun p => row.link .task == some p.id && p.link .user == some id
    | .users => row.id == id
    | .auditLogs | .siteSettings | .oidcLoginStates => false
    | _ => row.link .user == some id := by
  cases t <;> simp [marked,deleteUser,Cond.eval]

/-- What the writers of the ledger and of the retries keep to: a delivery names the task of
its run, and a retry has the task of the run it repeats. -/
structure Consistent (view : TableName → List (Row Link)) : Prop where
  recorded : ∀ x ∈ view .notificationDeliveries, (x.link .run).isSome = true
  ledger : ∀ x ∈ view .notificationDeliveries, ∀ r ∈ view .runs, x.link .run = some r.id → r.link .task = x.link .task
  retries : ∀ x ∈ view .runs, ∀ r ∈ view .runs, x.link .original = some r.id → x.link .task = r.link .task

/-- What a deletion does not look at: that nothing else is bound to the template, that the
templates of the account are bound by the account only, that the run has no retries. -/
def Ready (view : TableName → List (Row Link)) : Purpose → Prop
  | .template id _ => ∀ x ∈ view .tasks, x.link .template ≠ some id
  | .run id _ => ∀ x ∈ view .runs, x.link .original ≠ some id
  | .user id => ∀ x ∈ view .tasks, ∀ y ∈ view .templates, x.link .template = some y.id →
    y.link .user = some id → x.link .user = some id
  | _ => True

instance : Decidable (Consistent view) := decidable_of_iff
  ((∀ x ∈ view .notificationDeliveries, (x.link .run).isSome = true) ∧
    (∀ x ∈ view .notificationDeliveries, ∀ r ∈ view .runs, x.link .run = some r.id → r.link .task = x.link .task) ∧
    ∀ x ∈ view .runs, ∀ r ∈ view .runs, x.link .original = some r.id → x.link .task = r.link .task)
  ⟨fun ⟨recorded,ledger,retries⟩ => ⟨recorded,ledger,retries⟩,fun ⟨recorded,ledger,retries⟩ => ⟨recorded,ledger,retries⟩⟩

instance : (purpose : Purpose) → Decidable (Ready view purpose)
  | .task .. | .batch .. => inferInstanceAs (Decidable True)
  | .template id _ => inferInstanceAs (Decidable (∀ x ∈ view .tasks, x.link .template ≠ some id))
  | .run id _ => inferInstanceAs (Decidable (∀ x ∈ view .runs, x.link .original ≠ some id))
  | .user id => inferInstanceAs (Decidable (∀ x ∈ view .tasks, ∀ y ∈ view .templates, x.link .template = some y.id →
    y.link .user = some id → x.link .user = some id))

variable {x y : Row Link} {child parent : TableName} {l : Link}

theorem closed_task {id : Int} (consistent : Consistent view) (refers : (child,l,parent) ∈ references)
    (there : x ∈ view child) (found : y ∈ view parent) (points : x.link l = some y.id)
    (marks : marked (deleteTaskRows id) view parent y = true) : marked (deleteTaskRows id) view child x = true := by
  rw [marked_task] at marks ⊢
  cases child_of_mem refers with
  | owned => cases marks
  | reviewed => cases marks
  | bound => cases marks
  | imported => cases marks
  | requested => cases marks
  | ran => simpa [points] using marks
  | acted => simpa [points] using marks
  | delivered => simpa [points] using marks
  | stepped =>
    rw [List.any_eq_true]
    exact ⟨y,found,by simpa [points] using marks⟩
  | recorded =>
    rw [beq_iff_eq] at marks ⊢
    rw [← consistent.ledger x there y found points,marks]
  | retried =>
    rw [beq_iff_eq] at marks ⊢
    rw [consistent.retries x there y found points,marks]
  | notified => cases marks
  | subscribed => cases marks

theorem closed_batch {owner : Int} {ids : List Int} (consistent : Consistent view) (refers : (child,l,parent) ∈ references)
    (there : x ∈ view child) (found : y ∈ view parent) (points : x.link l = some y.id)
    (marks : marked (deleteBatch owner ids) view parent y = true) : marked (deleteBatch owner ids) view child x = true := by
  rw [marked_batch] at marks ⊢
  have ofTask : ∀ r : Row Link, r.link .task = some y.id → y ∈ view .tasks →
      (y.link .user == some owner && ids.contains y.id) = true →
      ((view .tasks).any fun p => r.link .task == some p.id && (p.link .user == some owner && ids.contains p.id)) = true := by
    intro r names member chosen
    rw [List.any_eq_true]
    exact ⟨y,member,by rw [names,beq_self_eq_true,Bool.true_and]; exact chosen⟩
  cases child_of_mem refers with
  | owned => cases marks
  | reviewed => cases marks
  | bound => cases marks
  | imported => cases marks
  | requested => cases marks
  | ran => exact ofTask x points found marks
  | acted => exact ofTask x points found marks
  | delivered => exact ofTask x points found marks
  | stepped =>
    rw [List.any_eq_true]
    exact ⟨y,found,by rw [points,beq_self_eq_true,Bool.true_and]; exact marks⟩
  | recorded =>
    dsimp only at marks ⊢
    rwa [consistent.ledger x there y found points] at marks
  | retried =>
    dsimp only at marks ⊢
    rwa [← consistent.retries x there y found points] at marks
  | notified => cases marks
  | subscribed => cases marks

theorem closed_template {id owner : Int} (ready : Ready view (.template id owner)) (refers : (child,l,parent) ∈ references)
    (there : x ∈ view child) (points : x.link l = some y.id) (marks : marked (deleteTemplateRows id) view parent y = true) :
    marked (deleteTemplateRows id) view child x = true := by
  rw [marked_template] at marks ⊢
  cases child_of_mem refers with
  | owned => cases marks
  | reviewed => cases marks
  | bound =>
    rw [beq_iff_eq] at marks
    exact absurd (marks ▸ points) (ready x there)
  | imported => simpa [points] using marks
  | requested => simpa [points] using marks
  | ran => cases marks
  | acted => cases marks
  | delivered => cases marks
  | stepped => cases marks
  | recorded => cases marks
  | retried => cases marks
  | notified => cases marks
  | subscribed => cases marks

theorem closed_run {id owner : Int} (ready : Ready view (.run id owner)) (refers : (child,l,parent) ∈ references)
    (there : x ∈ view child) (points : x.link l = some y.id) (marks : marked (deleteRun id) view parent y = true) :
    marked (deleteRun id) view child x = true := by
  rw [marked_run] at marks ⊢
  cases child_of_mem refers with
  | owned => cases marks
  | reviewed => cases marks
  | bound => cases marks
  | imported => cases marks
  | requested => cases marks
  | ran => cases marks
  | acted => cases marks
  | delivered => cases marks
  | stepped => simpa [points] using marks
  | recorded => simpa [points] using marks
  | retried =>
    rw [beq_iff_eq] at marks
    exact absurd (marks ▸ points) (ready x there)
  | notified => cases marks
  | subscribed => cases marks

/-- A row owned by an account goes with it. -/
theorem marked_owned {id : Int} {t : TableName} (listed : t ∈ ownedTables) (owner : x.link .user = some id) :
    marked (deleteUser id) view t x = true := by
  rw [marked_user]
  have own : (x.link .user == some id) = true := beq_iff_eq.mpr owner
  cases t <;> first | exact own | exact absurd listed (by decide) | (dsimp only; rw [own]; rfl)

theorem closed_user {id : Int} (referential : Referential references view) (consistent : Consistent view)
    (ready : Ready view (.user id)) (refers : (child,l,parent) ∈ references) (there : x ∈ view child)
    (found : y ∈ view parent) (points : x.link l = some y.id) (marks : marked (deleteUser id) view parent y = true) :
    marked (deleteUser id) view child x = true := by
  have theirs : ∀ t, ∀ r : Row Link, r.link l = some y.id → y ∈ view t → (y.link .user == some id) = true →
      ((view t).any fun p => r.link l == some p.id && p.link .user == some id) = true := by
    intro t r names member own
    rw [List.any_eq_true]
    exact ⟨y,member,by rw [names,beq_self_eq_true,Bool.true_and]; exact own⟩
  rw [marked_user] at marks
  cases child_of_mem refers with
  | owned t listed =>
    rw [beq_iff_eq] at marks
    exact marked_owned listed (marks ▸ points)
  | reviewed =>
    rw [marked_user]
    rw [beq_iff_eq] at marks
    simp [points,marks]
  | bound => exact marked_owned (by decide) (ready x there y found points (beq_iff_eq.mp marks))
  | imported =>
    rw [marked_user]
    dsimp only
    rw [theirs .templates x points found marks,Bool.or_true]
  | requested =>
    rw [marked_user]
    dsimp only
    rw [theirs .templates x points found marks,Bool.or_true]
  | ran =>
    rw [marked_user]
    exact theirs .tasks x points found marks
  | acted =>
    rw [marked_user]
    dsimp only
    rw [theirs .tasks x points found marks,Bool.or_true]
  | delivered =>
    -- the ledger is swept by runs
    obtain ⟨run,names⟩ := Option.isSome_iff_exists.mp (consistent.recorded x there)
    obtain ⟨r,listed,rfl⟩ := referential .notificationDeliveries .run .runs (by decide) x there run names
    rw [marked_user]
    dsimp only
    rw [List.any_eq_true]
    refine ⟨r,listed,?_⟩
    rw [names,beq_self_eq_true,Bool.true_and]
    exact theirs .tasks r ((consistent.ledger x there r listed names).trans points) found marks
  | stepped =>
    rw [marked_user]
    dsimp only
    rw [List.any_eq_true]
    exact ⟨y,found,by rw [points,beq_self_eq_true,Bool.true_and]; exact marks⟩
  | recorded =>
    rw [marked_user]
    dsimp only
    rw [List.any_eq_true]
    exact ⟨y,found,by rw [points,beq_self_eq_true,Bool.true_and]; exact marks⟩
  | retried =>
    rw [marked_user]
    dsimp only at marks ⊢
    rwa [← consistent.retries x there y found points] at marks
  | notified =>
    rw [marked_user]
    dsimp only
    rw [theirs .notificationChannels x points found marks,Bool.true_or]
  | subscribed =>
    rw [marked_user]
    dsimp only
    rw [theirs .templateSubscriptions x points found marks,Bool.true_or]

/-- What refers to a row that a program deletes is deleted by it too. -/
theorem program_closed (purpose : Purpose) (referential : Referential references view) (consistent : Consistent view)
    (ready : Ready view purpose) (refers : (child,l,parent) ∈ references) (there : x ∈ view child)
    (found : y ∈ view parent) (points : x.link l = some y.id) (marks : marked purpose.program view parent y = true) :
    marked purpose.program view child x = true := by
  cases purpose with
  | task id owner => exact closed_task consistent refers there found points marks
  | batch owner ids => exact closed_batch consistent refers there found points marks
  | template id owner => exact closed_template ready refers there points marks
  | run id owner => exact closed_run ready refers there points marks
  | user id => exact closed_user referential consistent ready refers there found points marks

end Closed

end Qdrust.Deletion
