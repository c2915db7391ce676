import Qdrust.Deletion.Programs
import Qdrust.Library.Transition

/-! Deletions and task writes of several sessions, statement by statement. A deletion runs in
a transaction: what it has deleted is gone for others when it commits. -/
namespace Qdrust.Deletion
open Library Relational Backup

variable {Session : Type}

/-- The statement a session sends next, with what it has read before. -/
inductive Job where
  | idle
  | resolving (owner : Int) (target template : Option Int)
  | writing (owner : Int) (target template : Option Int)
  | counted (template owner : Int)
  | foundRun (run task owner : Int)
  | deleting (purpose : Purpose) (done rest : Program) (removed : TableName → List Int)

structure System (Session : Type) where
  db : Db
  job : Session → Job

def System.init (db : Db) : System Session := ⟨db,fun _ => .idle⟩

inductive Action (Session : Type) where
  | createTask (s : Session) (owner : Int) (template : Option Int)
  | updateTask (s : Session) (id owner : Int) (template : Option Int)
  | deleteTask (s : Session) (id owner : Int)
  | deleteBatch (s : Session) (owner : Int) (ids : List Int)
  | deleteTemplate (s : Session) (id owner : Int)
  | deleteRun (s : Session) (id owner : Int)
  | deleteUser (s : Session) (id : Int)
  | proceed (s : Session)
  | stop (s : Session)

/-- `SELECT .. WHERE id=? AND owner_id=?`. -/
def Db.forOwner (db : Db) (t : TableName) (id owner : Int) : Option (Row Link) :=
  (db t).rows.find? fun row => row.id == id && row.link .user == some owner

/-- `count_tasks_for_template`. -/
def countTasksForTemplate (db : Db) (id : Int) : Nat := (db .tasks).rows.countP fun row => row.link .template == some id

def newTask (owner : Int) (template : Option Int) (id : Int) : Row Link where
  id := id
  link
    | .user => some owner
    | .template => template
    | _ => none

def rebound (template : Option Int) (row : Row Link) : Row Link :=
  { row with link := Function.update row.link .template template }

/-- `INSERT INTO tasks`. -/
def insertTask (db : Db) (owner : Int) (template : Option Int) : Db :=
  Function.update db .tasks ((db .tasks).insert (newTask owner template) fun _ => rfl)

/-- `UPDATE tasks SET template_id=? WHERE id=?`. -/
def bindTask (db : Db) (id : Int) (template : Option Int) : Db :=
  Function.update db .tasks ((db .tasks).update (fun row => row.id == id) (rebound template) fun _ => rfl)

variable [DecidableEq Session]

namespace System

def set (sys : System Session) (s : Session) (job : Job) : System Session := { sys with job := Function.update sys.job s job }

/-- The first statement of a transaction comes next. -/
def beginTransaction (sys : System Session) (s : Session) (purpose : Purpose) : System Session :=
  sys.set s (.deleting purpose [] purpose.program fun _ => [])

/-- The job's next statement. -/
def proceed (sys : System Session) (s : Session) : Option (System Session) :=
  match sys.job s with
  | .idle => none
  | .resolving owner target none => some (sys.set s (.writing owner target none))
  | .resolving owner target (some template) =>
    some (sys.set s (if (sys.db.forOwner .templates template owner).isSome then .writing owner target (some template) else .idle))
  | .writing owner none template => some { sys.set s .idle with db := insertTask sys.db owner template }
  | .writing _ (some id) template => some { sys.set s .idle with db := bindTask sys.db id template }
  | .counted template owner =>
    some (if (sys.db.forOwner .templates template owner).isSome then sys.beginTransaction s (.template template owner)
      else sys.set s .idle)
  | .foundRun run task owner =>
    some (if (sys.db.forOwner .tasks task owner).isSome then sys.beginTransaction s (.run run owner) else sys.set s .idle)
  | .deleting purpose done (st :: rest) removed =>
    some (sys.set s (.deleting purpose (done ++ [st]) rest (execute sys.db removed st)))
  | .deleting _ _ [] removed => some { sys.set s .idle with db := commit sys.db removed }

end System

/-- A request comes in where a session is idle. What its first statement refuses goes no further. -/
def step (sys : System Session) : Action Session → Option (System Session)
  | .proceed s => sys.proceed s
  | .stop s => some (sys.set s .idle)
  | .createTask s owner template => match sys.job s with
    | .idle => ((sys.db .users).find owner).map fun _ => sys.set s (.resolving owner none template)
    | _ => none
  | .updateTask s id owner template => match sys.job s with
    | .idle => (sys.db.forOwner .tasks id owner).map fun row =>
      sys.set s (.resolving owner (some id) (template.or (row.link .template)))
    | _ => none
  | .deleteTask s id owner => match sys.job s with
    | .idle => (sys.db.forOwner .tasks id owner).map fun _ => sys.beginTransaction s (.task id owner)
    | _ => none
  | .deleteBatch s owner ids => match sys.job s with
    | .idle => if ids.isEmpty then none else some (sys.beginTransaction s (.batch owner ids))
    | _ => none
  | .deleteTemplate s id owner => match sys.job s with
    | .idle => if countTasksForTemplate sys.db id = 0 then some (sys.set s (.counted id owner)) else none
    | _ => none
  | .deleteRun s id owner => match sys.job s with
    | .idle => ((sys.db .runs).find id).bind fun row => (row.link .task).map fun task => sys.set s (.foundRun id task owner)
    | _ => none
  | .deleteUser s id => match sys.job s with
    | .idle => ((sys.db .users).find id).map fun _ => sys.beginTransaction s (.user id)
    | _ => none

section Statements

/-- The rows that lead to an account: its own, and those that hang off its tasks, templates,
channels and subscriptions. -/
def Owned (view : TableName → List (Row Link)) (u : Int) (t : TableName) (row : Row Link) : Prop :=
  let via (l : Link) (parent : TableName) (row : Row Link) : Prop :=
    ∃ p ∈ view parent, row.link l = some p.id ∧ p.link .user = some u
  match t with
  | .users => row.id = u
  | .runs => via .task .tasks row
  | .runSteps | .notificationDeliveries => ∃ r ∈ view .runs, row.link .run = some r.id ∧ via .task .tasks r
  | .notificationActions => via .task .tasks row ∨ via .channel .notificationChannels row
  | .templateImports => via .template .templates row ∨ via .subscription .templateSubscriptions row
  | .pushRequests => row.link .user = some u ∨ via .template .templates row
  | _ => row.link .user = some u

/-- A commit takes only rows that lead to the account the deletion is for. -/
def OwnRows (sys : System Session) : Prop :=
  ∀ s purpose done removed after, sys.job s = .deleting purpose done [] removed → step sys (.proceed s) = some after →
    ∀ t, ∀ row ∈ rows sys.db t, row ∉ rows after.db t → Owned (rows sys.db) purpose.subject t row

/-- The requests of others that the account reviewed are about its templates. -/
def Reviewed (view : TableName → List (Row Link)) (u : Int) : Prop :=
  ∀ x ∈ view .pushRequests, x.link .reviewer = some u → Owned view u .pushRequests x

/-- No session is about to delete the template. -/
def Unthreatened (sys : System Session) (template : Int) : Prop :=
  ∀ s, (∀ owner, sys.job s ≠ .counted template owner) ∧
    ∀ owner done rest removed, sys.job s ≠ .deleting (.template template owner) done rest removed

/-- The template to be bound is there to stay. -/
def Bindable (sys : System Session) (template : Option Int) : Prop :=
  ∀ id, template = some id → (∃ y ∈ rows sys.db .templates, y.id = id) ∧ Unthreatened sys id

/-- No task is written under a deletion of its template or its owner. An account is deleted
whose templates only its own tasks are bound to and that reviewed no request between others;
a run, that no other run repeats. -/
def Apart (sys : System Session) : Action Session → Prop
  | .proceed s => match sys.job s with
    | .writing owner none template => (∃ u ∈ rows sys.db .users, u.id = owner) ∧ Bindable sys template ∧
      ∀ s' done rest removed, sys.job s' ≠ .deleting (.user owner) done rest removed
    | .writing _ (some _) template => Bindable sys template
    | .foundRun run _ owner => Ready (rows sys.db) (.run run owner)
    | _ => True
  | .deleteUser _ id => Ready (rows sys.db) (.user id) ∧ Reviewed (rows sys.db) id
  | _ => True

end Statements

/-- What a deletion relies on to take only rows of its account. -/
def Rightful (db : Db) : Purpose → Prop
  | .task id owner => id ≤ (db .tasks).last ∧ ∀ y ∈ rows db .tasks, y.id = id → y.link .user = some owner
  | .template id owner => ∀ y ∈ rows db .templates, y.id = id → y.link .user = some owner
  | .run id owner => ∀ r ∈ rows db .runs, r.id = id → ∃ p ∈ rows db .tasks, r.link .task = some p.id ∧
    p.link .user = some owner
  | .user id => Reviewed (rows db) id
  | .batch _ _ => True

/-- What a session knows of the tables, whatever the others have done since. -/
def JobSound (db : Db) : Job → Prop
  | .idle => True
  | .resolving owner target _ => ∀ id, target = some id → Rightful db (.task id owner)
  | .writing owner target template => (∀ id, target = some id → Rightful db (.task id owner)) ∧
    ∀ id, template = some id → Rightful db (.template id owner)
  | .counted template owner => Ready (rows db) (.template template owner)
  | .foundRun run task _ => ∀ r ∈ rows db .runs, r.id = run → r.link .task = some task
  | .deleting purpose done rest removed => purpose.program = done ++ rest ∧ Progress db done removed ∧
    (∀ t, t ≠ .tasks ∨ (∃ id, purpose = .user id) → Covers db done removed t) ∧ Ready (rows db) purpose ∧
    Rightful db purpose

structure Sound (sys : System Session) : Prop where
  referential : Referential references (rows sys.db)
  consistent : Consistent (rows sys.db)
  jobs : ∀ s, JobSound sys.db (sys.job s)

section Commit

variable {db after : Db}

/-- The tables after some rows were deleted, such that no reference is left behind. -/
structure Shrunk (db after : Db) : Prop where
  part : ∀ t, ∀ row ∈ rows after t, row ∈ rows db t
  last : ∀ t, (after t).last = (db t).last
  referential : Referential references (rows after)

theorem consistent_shrunk (shrunk : Shrunk db after) (consistent : Consistent (rows db)) : Consistent (rows after) where
  recorded x there := consistent.recorded x (shrunk.part _ x there)
  ledger x there r found := consistent.ledger x (shrunk.part _ x there) r (shrunk.part _ r found)
  retries x there r found := consistent.retries x (shrunk.part _ x there) r (shrunk.part _ r found)

theorem ready_shrunk (shrunk : Shrunk db after) {purpose : Purpose} (ready : Ready (rows db) purpose) :
    Ready (rows after) purpose := by
  cases purpose with
  | task id owner => trivial
  | batch owner ids => trivial
  | template id owner => exact fun x there => ready x (shrunk.part _ x there)
  | run id owner => exact fun x there => ready x (shrunk.part _ x there)
  | user id => exact fun x there y found => ready x (shrunk.part _ x there) y (shrunk.part _ y found)

/-- A row that is left leads to the same account through rows that are left. -/
theorem via_shrunk (shrunk : Shrunk db after) {t parent : TableName} {l : Link} (refers : (t,l,parent) ∈ references)
    {row : Row Link} (left : row ∈ rows after t) {p : Row Link} (there : p ∈ rows db parent)
    (points : row.link l = some p.id) : p ∈ rows after parent := by
  obtain ⟨q,kept,same⟩ := shrunk.referential t l parent refers row left p.id points
  rwa [← unique_rows db parent q (shrunk.part parent q kept) p there same]

theorem rightful_shrunk (shrunk : Shrunk db after) {purpose : Purpose} (rightful : Rightful db purpose) :
    Rightful after purpose := by
  cases purpose with
  | task id owner =>
    exact ⟨by rw [shrunk.last]; exact rightful.1,fun y there => rightful.2 y (shrunk.part _ y there)⟩
  | batch owner ids => trivial
  | template id owner => exact fun y there => rightful y (shrunk.part _ y there)
  | run id owner =>
    intro r there named
    obtain ⟨p,found,points,own⟩ := rightful r (shrunk.part _ r there) named
    exact ⟨p,via_shrunk shrunk (by decide) there found points,points,own⟩
  | user id =>
    intro x there reviewed
    rcases rightful x (shrunk.part _ x there) reviewed with own | ⟨p,found,points,own⟩
    · exact .inl own
    · exact .inr ⟨p,via_shrunk shrunk (by decide) there found points,points,own⟩

theorem typed_part {purpose : Purpose} {done rest : Program} (split : purpose.program = done ++ rest) :
    TypedProgram references done := fun st member =>
  program_typed purpose st (by rw [split]; exact List.mem_append_left _ member)

theorem jobSound_shrunk (shrunk : Shrunk db after) {job : Job} (sound : JobSound db job) : JobSound after job := by
  cases job with
  | idle => trivial
  | resolving owner target template => exact fun id same => rightful_shrunk shrunk (sound id same)
  | writing owner target template =>
    exact ⟨fun id same => rightful_shrunk shrunk (sound.1 id same),fun id same => rightful_shrunk shrunk (sound.2 id same)⟩
  | counted template owner =>
    have ready : Ready (rows db) (.template template owner) := sound
    exact ready_shrunk shrunk ready
  | foundRun run task owner => exact fun r there => sound r (shrunk.part _ r there)
  | deleting purpose done rest removed =>
    obtain ⟨split,progress,covers,ready,rightful⟩ := sound
    exact ⟨split,progress_shrink (typed_part split) shrunk.referential shrunk.part shrunk.last progress,
      fun t kind => covers_shrink (typed_part split) shrunk.referential shrunk.part (covers t kind),
      ready_shrunk shrunk ready,rightful_shrunk shrunk rightful⟩

end Commit

section Insert

variable {db : Db} {owner : Int} {template : Option Int}

theorem mem_insertTask {t : TableName} {row : Row Link} : row ∈ rows (insertTask db owner template) t ↔
    row ∈ rows db t ∨ t = .tasks ∧ row = newTask owner template ((db .tasks).last + 1) := by
  by_cases same : t = .tasks
  · subst same
    simp only [rows,insertTask,Function.update_self,true_and]
    exact Table.mem_insert _ _
  · simp [rows,insertTask,same]

theorem insertTask_last (t : TableName) : (db t).last ≤ (insertTask db owner template t).last := by
  by_cases same : t = .tasks
  · subst same
    simp only [insertTask,Function.update_self,Table.insert]
    omega
  · simp [insertTask,same]

/-- What a new task is bound to is there. -/
structure Insertable (db : Db) (owner : Int) (template : Option Int) : Prop where
  account : ∃ u ∈ rows db .users, u.id = owner
  bound : ∀ id, template = some id → ∃ y ∈ rows db .templates, y.id = id
  own : ∀ id, template = some id → Rightful db (.template id owner)

theorem referential_insert (insertable : Insertable db owner template) (referential : Referential references (rows db)) :
    Referential references (rows (insertTask db owner template)) := by
  intro child l parent refers row member i points
  rcases mem_insertTask.mp member with old | ⟨rfl,rfl⟩
  · obtain ⟨p,there,same⟩ := referential child l parent refers row old i points
    exact ⟨p,mem_insertTask.mpr (.inl there),same⟩
  · cases child_of_mem refers with
    | owned =>
      cases points
      obtain ⟨u,there,same⟩ := insertable.account
      exact ⟨u,mem_insertTask.mpr (.inl there),same⟩
    | bound =>
      obtain ⟨y,there,same⟩ := insertable.bound i points
      exact ⟨y,mem_insertTask.mpr (.inl there),same⟩

/-- Only the tasks have changed. -/
theorem old_of_insert {t : TableName} (other : t ≠ .tasks) {row : Row Link}
    (member : row ∈ rows (insertTask db owner template) t) : row ∈ rows db t :=
  (mem_insertTask.mp member).resolve_right fun new => other new.1

theorem consistent_insert (consistent : Consistent (rows db)) : Consistent (rows (insertTask db owner template)) where
  recorded x there := consistent.recorded x (old_of_insert (by decide) there)
  ledger x there r found := consistent.ledger x (old_of_insert (by decide) there) r (old_of_insert (by decide) found)
  retries x there r found := consistent.retries x (old_of_insert (by decide) there) r (old_of_insert (by decide) found)

theorem ready_insert (insertable : Insertable db owner template) {purpose : Purpose}
    (apart : ∀ id other, purpose = .template id other → template ≠ some id) (ready : Ready (rows db) purpose) :
    Ready (rows (insertTask db owner template)) purpose := by
  cases purpose with
  | task id owner => trivial
  | batch owner ids => trivial
  | template id other =>
    intro x member
    rcases mem_insertTask.mp member with old | ⟨-,rfl⟩
    · exact ready x old
    · exact apart id other rfl
  | run id owner => exact fun x there => ready x (old_of_insert (by decide) there)
  | user id =>
    intro x member y found points own
    have there := old_of_insert (by decide) found
    rcases mem_insertTask.mp member with old | ⟨-,rfl⟩
    · exact ready x old y there points own
    · rw [← own]
      exact (insertable.own y.id points y there rfl).symm

theorem rightful_insert {purpose : Purpose} (rightful : Rightful db purpose) :
    Rightful (insertTask db owner template) purpose := by
  cases purpose with
  | task id other =>
    refine ⟨Int.le_trans rightful.1 (insertTask_last .tasks),fun y member named => ?_⟩
    rcases mem_insertTask.mp member with old | ⟨-,rfl⟩
    · exact rightful.2 y old named
    · have bound := rightful.1
      rw [← named] at bound
      have fresh : (newTask owner template ((db .tasks).last + 1)).id = (db .tasks).last + 1 := rfl
      omega
  | batch owner ids => trivial
  | template id owner => exact fun y there => rightful y (old_of_insert (by decide) there)
  | run id owner =>
    intro r there named
    obtain ⟨p,found,points,own⟩ := rightful r (old_of_insert (by decide) there) named
    exact ⟨p,mem_insertTask.mpr (.inl found),points,own⟩
  | user id =>
    intro x there reviewed
    rcases rightful x (old_of_insert (by decide) there) reviewed with own | ⟨p,found,points,own⟩
    · exact .inl own
    · exact .inr ⟨p,mem_insertTask.mpr (.inl found),points,own⟩

/-- A new task is none of the rows that a deletion of another account has picked. -/
theorem unmarked_insert {purpose : Purpose} {done rest : Program} (split : purpose.program = done ++ rest) {id : Int}
    (account : purpose = .user id) (other : owner ≠ id) (view : TableName → List (Row Link)) (fresh : Int) :
    marked done view .tasks (newTask owner template fresh) = false := by
  rw [Bool.eq_false_iff]
  intro marks
  have all : marked purpose.program view .tasks (newTask owner template fresh) = true := by
    obtain ⟨c,listed,holds⟩ := marked_iff.mp marks
    exact marked_iff.mpr ⟨c,by rw [split]; exact List.mem_append_left _ listed,holds⟩
  rw [account,Purpose.program,marked_user] at all
  exact other (Option.some.inj (beq_iff_eq.mp all))

theorem jobSound_insert (insertable : Insertable db owner template) (referential : Referential references (rows db))
    {job : Job} (sound : JobSound db job) (counted : ∀ other, ∀ id, template = some id → job ≠ .counted id other)
    (apart : ∀ id other done rest removed, template = some id → job ≠ .deleting (.template id other) done rest removed)
    (account : ∀ done rest removed, job ≠ .deleting (.user owner) done rest removed) :
    JobSound (insertTask db owner template) job := by
  cases job with
  | idle => trivial
  | resolving other target tid => exact fun id same => rightful_insert (sound id same)
  | writing other target tid =>
    exact ⟨fun id same => rightful_insert (sound.1 id same),fun id same => rightful_insert (sound.2 id same)⟩
  | counted id other =>
    have ready : Ready (rows db) (.template id other) := sound
    refine ready_insert insertable ?_ ready
    rintro _ _ ⟨⟩ same
    exact counted other id same rfl
  | foundRun run task other => exact fun r there => sound r (old_of_insert (by decide) there)
  | deleting purpose done rest removed =>
    obtain ⟨split,progress,covers,ready,rightful⟩ := sound
    refine ⟨split,?_,fun t kind => ?_,ready_insert insertable ?_ ready,rightful_insert rightful⟩
    · refine progress_grow (typed_part split) referential (fun t row there => mem_insertTask.mpr (.inl there))
        insertTask_last (fun t row member => ?_) progress
      rcases mem_insertTask.mp member with old | ⟨rfl,rfl⟩
      · exact .inl old
      · exact .inr (Int.lt_succ _)
    · refine covers_grow (typed_part split) referential (fun t row there => mem_insertTask.mpr (.inl there))
        (fun row member => ?_) (covers t kind)
      rcases mem_insertTask.mp member with old | ⟨rfl,rfl⟩
      · exact .inl old
      · rcases kind with other | ⟨id,user⟩
        · exact absurd rfl other
        · refine .inr (unmarked_insert split user ?_ _ _)
          rintro rfl
          exact account done rest removed (by rw [user])
    · rintro id other rfl same
      exact apart id other done rest removed same rfl

end Insert

section Bind

variable {db : Db} {task : Int} {template : Option Int}

theorem rebound_template (row : Row Link) : (rebound template row).link .template = template := by
  simp [rebound]

/-- What an update makes of each row. -/
def rewritten (task : Int) (template : Option Int) (t : TableName) (row : Row Link) : Row Link :=
  if t = .tasks ∧ row.id = task then rebound template row else row

theorem rows_bindTask (t : TableName) : rows (bindTask db task template) t = (rows db t).map (rewritten task template t) := by
  by_cases same : t = .tasks
  · subst same
    simp only [rows,bindTask,Function.update_self,Table.update]
    refine List.map_congr_left fun row _ => ?_
    simp [rewritten]
  · have unchanged : rewritten task template t = id := by
      funext row
      simp [rewritten,same]
    simp [rows,bindTask,same,unchanged]

theorem bindTask_last (t : TableName) : (bindTask db task template t).last = (db t).last := by
  by_cases same : t = .tasks
  · subst same
    simp [bindTask,Table.update]
  · simp [bindTask,same]

@[simp] theorem rewritten_id (t : TableName) (row : Row Link) : (rewritten task template t row).id = row.id := by
  unfold rewritten
  split <;> rfl

theorem rewritten_link {t : TableName} {l : Link} (row : Row Link) (apart : t ≠ .tasks ∨ l ≠ .template) :
    (rewritten task template t row).link l = row.link l := by
  unfold rewritten
  split
  next here => exact Function.update_of_ne (apart.resolve_left fun other => other here.1) _ _
  next => rfl

theorem rewritten_other {t : TableName} (other : t ≠ .tasks) (row : Row Link) : rewritten task template t row = row :=
  if_neg fun here => other here.1

theorem mem_bindTask {t : TableName} {row : Row Link} : row ∈ rows (bindTask db task template) t ↔
    ∃ old ∈ rows db t, rewritten task template t old = row := by
  rw [rows_bindTask,List.mem_map]

theorem old_of_bind {t : TableName} (other : t ≠ .tasks) {row : Row Link}
    (member : row ∈ rows (bindTask db task template) t) : row ∈ rows db t := by
  obtain ⟨old,there,rfl⟩ := mem_bindTask.mp member
  rwa [rewritten_other other]

theorem referential_bind (bound : ∀ id, template = some id → ∃ y ∈ rows db .templates, y.id = id)
    (referential : Referential references (rows db)) : Referential references (rows (bindTask db task template)) := by
  intro child l parent refers row member i points
  obtain ⟨old,there,rfl⟩ := mem_bindTask.mp member
  have kept : ∀ p ∈ rows db parent, p.id = i → ∃ p ∈ rows (bindTask db task template) parent, p.id = i := by
    intro p found same
    exact ⟨_,mem_bindTask.mpr ⟨p,found,rfl⟩,by simpa using same⟩
  by_cases apart : child ≠ .tasks ∨ l ≠ .template
  · rw [rewritten_link old apart] at points
    obtain ⟨p,found,same⟩ := referential child l parent refers old there i points
    exact kept p found same
  · push Not at apart
    obtain ⟨rfl,rfl⟩ := apart
    cases child_of_mem refers with
    | bound =>
      unfold rewritten at points
      split at points
      · obtain ⟨y,found,same⟩ := bound i ((rebound_template old).symm.trans points)
        exact kept y found same
      · obtain ⟨p,found,same⟩ := referential .tasks .template .templates refers old there i points
        exact kept p found same

theorem consistent_bind (consistent : Consistent (rows db)) : Consistent (rows (bindTask db task template)) where
  recorded x there := consistent.recorded x (old_of_bind (by decide) there)
  ledger x there r found := consistent.ledger x (old_of_bind (by decide) there) r (old_of_bind (by decide) found)
  retries x there r found := consistent.retries x (old_of_bind (by decide) there) r (old_of_bind (by decide) found)

theorem ready_bind {owner : Int} (writer : Rightful db (.task task owner))
    (own : ∀ id, template = some id → Rightful db (.template id owner)) {purpose : Purpose}
    (apart : ∀ id other, purpose = .template id other → template ≠ some id) (ready : Ready (rows db) purpose) :
    Ready (rows (bindTask db task template)) purpose := by
  cases purpose with
  | task id owner => trivial
  | batch owner ids => trivial
  | template id other =>
    intro x member
    obtain ⟨old,there,rfl⟩ := mem_bindTask.mp member
    unfold rewritten
    split
    · exact fun same => apart id other rfl ((rebound_template old).symm.trans same)
    · exact ready old there
  | run id owner => exact fun x there => ready x (old_of_bind (by decide) there)
  | user id =>
    intro x member y found points theirs
    have listed := old_of_bind (by decide) found
    obtain ⟨old,there,rfl⟩ := mem_bindTask.mp member
    rw [rewritten_link old (.inr (by decide))]
    unfold rewritten at points
    split at points
    next here =>
      -- the writer binds its own task to its own template
      have names := (rebound_template old).symm.trans points
      rw [writer.2 old there here.2,← theirs]
      exact (own y.id names y listed rfl).symm
    next => exact ready old there y listed points theirs

theorem rightful_bind {purpose : Purpose} (rightful : Rightful db purpose) : Rightful (bindTask db task template) purpose := by
  cases purpose with
  | task id owner =>
    refine ⟨by rw [bindTask_last]; exact rightful.1,fun y member named => ?_⟩
    obtain ⟨old,there,rfl⟩ := mem_bindTask.mp member
    rw [rewritten_link old (.inr (by decide))]
    exact rightful.2 old there (by simpa using named)
  | batch owner ids => trivial
  | template id owner => exact fun y there => rightful y (old_of_bind (by decide) there)
  | run id owner =>
    intro r there named
    obtain ⟨p,found,points,own⟩ := rightful r (old_of_bind (by decide) there) named
    refine ⟨_,mem_bindTask.mpr ⟨p,found,rfl⟩,by rw [rewritten_id]; exact points,?_⟩
    rw [rewritten_link p (.inr (by decide))]
    exact own
  | user id =>
    intro x there reviewed
    rcases rightful x (old_of_bind (by decide) there) reviewed with own | ⟨p,found,points,own⟩
    · exact .inl own
    · exact .inr ⟨p,mem_bindTask.mpr ⟨p,found,rewritten_other (by decide) p⟩,points,own⟩

theorem jobSound_bind {owner : Int} (writer : Rightful db (.task task owner))
    (own : ∀ id, template = some id → Rightful db (.template id owner)) {job : Job} (sound : JobSound db job)
    (counted : ∀ other, ∀ id, template = some id → job ≠ .counted id other)
    (apart : ∀ id other done rest removed, template = some id → job ≠ .deleting (.template id other) done rest removed) :
    JobSound (bindTask db task template) job := by
  cases job with
  | idle => trivial
  | resolving other target tid => exact fun id same => rightful_bind (sound id same)
  | writing other target tid =>
    exact ⟨fun id same => rightful_bind (sound.1 id same),fun id same => rightful_bind (sound.2 id same)⟩
  | counted id other =>
    have ready : Ready (rows db) (.template id other) := sound
    refine ready_bind writer own ?_ ready
    rintro _ _ ⟨⟩ same
    exact counted other id same rfl
  | foundRun run task other => exact fun r there => sound r (old_of_bind (by decide) there)
  | deleting purpose done rest removed =>
    obtain ⟨split,progress,covers,ready,rightful⟩ := sound
    have avoids : ∀ st ∈ done, st.2.avoids .tasks .template st.1 = true := fun st member =>
      program_avoids purpose st (by rw [split]; exact List.mem_append_left _ member)
    refine ⟨split,?_,fun t kind => ?_,ready_bind writer own ?_ ready,rightful_bind rightful⟩
    · exact progress_rewrite rows_bindTask rewritten_id (fun t l row => rewritten_link row) bindTask_last avoids progress
    · exact covers_rewrite rows_bindTask rewritten_id (fun t l row => rewritten_link row) avoids (covers t kind)
    · rintro id other rfl same
      exact apart id other done rest removed same rfl

end Bind

variable {sys after : System Session} {s : Session}

theorem sound_set (sound : Sound sys) {job : Job} (known : JobSound sys.db job) : Sound (sys.set s job) where
  referential := sound.referential
  consistent := sound.consistent
  jobs s' := by
    by_cases same : s' = s
    · subst same
      simpa [System.set] using known
    · simpa [System.set,same] using sound.jobs s'

/-- A write that the other jobs survive. -/
theorem sound_write {db : Db} (referential : Referential references (rows db))
    (consistent : Consistent (rows db)) (others : ∀ s, JobSound db (sys.job s)) : Sound { sys.set s .idle with db := db } where
  referential := referential
  consistent := consistent
  jobs s' := by
    by_cases same : s' = s
    · subst same
      simp [System.set,JobSound]
    · simpa [System.set,same] using others s'

omit [DecidableEq Session] in
theorem forOwner_spec {db : Db} {t : TableName} {id owner : Int} {row : Row Link} (found : db.forOwner t id owner = some row) :
    row ∈ rows db t ∧ row.id = id ∧ row.link .user = some owner := by
  have holds := List.find?_some found
  rw [Bool.and_eq_true,beq_iff_eq,beq_iff_eq] at holds
  exact ⟨List.mem_of_find?_eq_some found,holds⟩

theorem forOwner_all {db : Db} {t : TableName} {id owner : Int} {row : Row Link} (found : db.forOwner t id owner = some row) :
    ∀ y ∈ rows db t, y.id = id → y.link .user = some owner := by
  obtain ⟨member,named,own⟩ := forOwner_spec found
  intro y there same
  rw [unique_rows db t y there row member (same.trans named.symm)]
  exact own

theorem rightful_task {db : Db} {id owner : Int} {row : Row Link} (found : db.forOwner .tasks id owner = some row) :
    Rightful db (.task id owner) := by
  obtain ⟨member,named,-⟩ := forOwner_spec found
  exact ⟨named ▸ (db .tasks).bounded row member,forOwner_all found⟩

theorem jobSound_begin {db : Db} {purpose : Purpose} (ready : Ready (rows db) purpose) (rightful : Rightful db purpose) :
    JobSound db (.deleting purpose [] purpose.program fun _ => []) :=
  ⟨rfl,progress_begin db,fun t _ => covers_begin db t,ready,rightful⟩

/-- The subselects of the next statement read tables that are still whole. -/
theorem next_apart {purpose : Purpose} {done rest : Program} {st : Statement TableName Link}
    (split : purpose.program = done ++ st :: rest) : ∀ t ∈ st.2.reads, t ∉ done.map Prod.fst := by
  have general : ∀ (done : Program) (earlier : List TableName), ordered earlier (done ++ st :: rest) = true →
      ∀ t ∈ st.2.reads, t ∉ earlier ++ done.map Prod.fst := by
    intro done
    induction done with
    | nil =>
      intro earlier holds t reads
      rw [List.nil_append,ordered,Bool.and_eq_true,List.all_eq_true] at holds
      simpa using holds.1 t reads
    | cons first done ih =>
      intro earlier holds t reads
      rw [List.cons_append,ordered,Bool.and_eq_true] at holds
      simpa using ih _ holds.2 t reads
  have holds := program_ordered purpose
  rw [split] at holds
  exact fun t reads => by simpa using general done [] holds t reads

theorem sound_execute {purpose : Purpose} {done rest : Program} {st : Statement TableName Link}
    {removed : TableName → List Int} (sound : Sound sys) (job : sys.job s = .deleting purpose done (st :: rest) removed) :
    Sound (sys.set s (.deleting purpose (done ++ [st]) rest (execute sys.db removed st))) := by
  have known := sound.jobs s
  rw [job] at known
  obtain ⟨split,progress,covers,ready,rightful⟩ := known
  have apart := next_apart split
  refine sound_set sound ⟨by simp [split],progress_execute progress apart,fun t kind => ?_,ready,rightful⟩
  exact covers_execute progress apart (covers t kind)

omit [DecidableEq Session] in
/-- A deletion that is through leaves no reference behind. -/
theorem commit_shrunk {purpose : Purpose} {done : Program} {removed : TableName → List Int} (sound : Sound sys)
    (job : sys.job s = .deleting purpose done [] removed) : Shrunk sys.db (commit sys.db removed) where
  part t row member := (mem_commit.mp member).1
  last t := rfl
  referential := by
    have known := sound.jobs s
    rw [job] at known
    obtain ⟨split,progress,covers,ready,-⟩ := known
    rw [List.append_nil] at split
    subst split
    refine commit_referential sound.referential progress fun child l parent refers x there y found points marks => ?_
    have picked := program_closed purpose sound.referential sound.consistent ready refers there found points marks
    refine covers child ?_ x there picked
    by_cases tasks : child = .tasks
    · -- a task refers to accounts and templates only, and only an account takes its tasks along
      subst tasks
      right
      cases purpose with
      | user id => exact ⟨id,rfl⟩
      | task id owner =>
        rw [Purpose.program,marked_task] at marks
        cases child_of_mem refers with
        | owned => cases marks
        | bound => cases marks
      | batch owner ids =>
        rw [Purpose.program,marked_batch] at marks
        cases child_of_mem refers with
        | owned => cases marks
        | bound => cases marks
      | template id owner =>
        rw [Purpose.program,marked_template] at picked
        cases picked
      | run id owner =>
        rw [Purpose.program,marked_run] at picked
        cases picked
    · exact .inl tasks

theorem sound_proceed (sound : Sound sys) (apart : Apart sys (.proceed s)) (taken : sys.proceed s = some after) :
    Sound after := by
  have known := sound.jobs s
  unfold System.proceed at taken
  simp only [Apart] at apart
  split at taken
  next => cases taken
  next owner target job =>
    cases taken
    rw [job] at known
    refine sound_set sound ⟨known,?_⟩
    rintro _ ⟨⟩
  next owner target template job =>
    cases taken
    rw [job] at known
    cases found : sys.db.forOwner .templates template owner with
    | none => exact sound_set sound trivial
    | some row =>
      refine sound_set sound ⟨known,?_⟩
      rintro _ ⟨⟩
      exact forOwner_all found
  next owner template job =>
    cases taken
    rw [job] at known apart
    obtain ⟨account,bindable,calm⟩ := apart
    have insertable : Insertable sys.db owner template := ⟨account,fun id same => (bindable id same).1,known.2⟩
    refine sound_write (referential_insert insertable sound.referential) (consistent_insert sound.consistent) ?_
    intro s'
    refine jobSound_insert insertable sound.referential (sound.jobs s') ?_ ?_ fun done rest removed => calm s' done rest removed
    · exact fun other id same => ((bindable id same).2 s').1 other
    · exact fun id other done rest removed same => ((bindable id same).2 s').2 other done rest removed
  next owner id template job =>
    cases taken
    rw [job] at known apart
    refine sound_write (referential_bind (fun id same => (apart id same).1) sound.referential)
      (consistent_bind sound.consistent) fun s' => ?_
    refine jobSound_bind (known.1 id rfl) known.2 (sound.jobs s') ?_ ?_
    · exact fun other id same => ((apart id same).2 s').1 other
    · exact fun id other done rest removed same => ((apart id same).2 s').2 other done rest removed
  next template owner job =>
    cases taken
    rw [job] at known
    cases found : sys.db.forOwner .templates template owner with
    | none => exact sound_set sound trivial
    | some row => exact sound_set sound (@jobSound_begin _ (.template template owner) known (forOwner_all found))
  next run task owner job =>
    cases taken
    rw [job] at known apart
    cases found : sys.db.forOwner .tasks task owner with
    | none => exact sound_set sound trivial
    | some row =>
      refine sound_set sound (jobSound_begin apart ?_)
      obtain ⟨member,named,own⟩ := forOwner_spec found
      intro r there same
      exact ⟨row,member,by rw [named]; exact known r there same,own⟩
  next purpose done st rest removed job =>
    cases taken
    exact sound_execute sound job
  next purpose done removed job =>
    cases taken
    have shrunk := commit_shrunk sound job
    exact sound_write shrunk.referential (consistent_shrunk shrunk sound.consistent) fun s' =>
      jobSound_shrunk shrunk (sound.jobs s')

theorem sound_step {action : Action Session} (sound : Sound sys) (apart : Apart sys action)
    (taken : step sys action = some after) : Sound after := by
  unfold step at taken
  split at taken
  next s => exact sound_proceed sound apart taken
  next s =>
    cases taken
    exact sound_set sound trivial
  next s owner template =>
    split at taken
    next =>
      obtain ⟨row,-,rfl⟩ := Option.map_eq_some_iff.mp taken
      refine sound_set sound ?_
      rintro _ ⟨⟩
    next => cases taken
  next s id owner template =>
    split at taken
    next =>
      obtain ⟨row,found,rfl⟩ := Option.map_eq_some_iff.mp taken
      refine sound_set sound ?_
      rintro _ ⟨⟩
      exact rightful_task found
    next => cases taken
  next s id owner =>
    split at taken
    next =>
      obtain ⟨row,found,rfl⟩ := Option.map_eq_some_iff.mp taken
      exact sound_set sound (jobSound_begin trivial (rightful_task found))
    next => cases taken
  next s owner ids =>
    split at taken
    next =>
      split at taken
      next => cases taken
      next =>
        cases taken
        exact sound_set sound (jobSound_begin trivial trivial)
    next => cases taken
  next s id owner =>
    split at taken
    next =>
      split at taken
      next none =>
        cases taken
        refine sound_set sound fun x there names => ?_
        exact List.countP_eq_zero.mp none x there (beq_iff_eq.mpr names)
      next => cases taken
    next => cases taken
  next s id owner =>
    split at taken
    next =>
      obtain ⟨row,found,rest⟩ := Option.bind_eq_some_iff.mp taken
      obtain ⟨task,names,rfl⟩ := Option.map_eq_some_iff.mp rest
      obtain ⟨member,same⟩ := (Table.find_eq_some _).mp found
      refine sound_set sound fun r there named => ?_
      rwa [unique_rows sys.db .runs r there row member (named.trans same.symm)]
    next => cases taken
  next s id =>
    split at taken
    next =>
      obtain ⟨row,-,rfl⟩ := Option.map_eq_some_iff.mp taken
      exact sound_set sound (@jobSound_begin _ (.user id) apart.1 apart.2)
    next => cases taken

section Owners

variable {db : Db} {purpose : Purpose} {t : TableName} {row : Row Link}

/-- The run of a delivery belongs to the task of the delivery. -/
theorem delivered_via (referential : Referential references (rows db)) (consistent : Consistent (rows db))
    (there : row ∈ rows db .notificationDeliveries) {p : Row Link} (task : p ∈ rows db .tasks)
    (points : row.link .task = some p.id) {u : Int} (own : p.link .user = some u) :
    Owned (rows db) u .notificationDeliveries row := by
  obtain ⟨run,names⟩ := Option.isSome_iff_exists.mp (consistent.recorded row there)
  obtain ⟨r,found,rfl⟩ := referential .notificationDeliveries .run .runs (by decide) row there run names
  exact ⟨r,found,names,p,task,(consistent.ledger row there r found names).trans points,own⟩

theorem owned_task {id owner : Int} (referential : Referential references (rows db)) (consistent : Consistent (rows db))
    (rightful : Rightful db (.task id owner)) (there : row ∈ rows db t)
    (marks : marked (deleteTaskRows id) (rows db) t row = true) : Owned (rows db) owner t row := by
  have task : ∀ t, (t,.task,.tasks) ∈ references → ∀ r ∈ rows db t, r.link .task = some id →
      ∃ p ∈ rows db .tasks, r.link .task = some p.id ∧ p.link .user = some owner := by
    intro t refers r member names
    obtain ⟨p,found,rfl⟩ := referential t .task .tasks refers r member id names
    exact ⟨p,found,names,rightful.2 p found rfl⟩
  rw [marked_task] at marks
  cases t
  case notificationDeliveries =>
    obtain ⟨p,found,points,own⟩ := task .notificationDeliveries (by decide) row there (beq_iff_eq.mp marks)
    exact delivered_via referential consistent there found points own
  case runs => exact task .runs (by decide) row there (beq_iff_eq.mp marks)
  case notificationActions => exact .inl (task .notificationActions (by decide) row there (beq_iff_eq.mp marks))
  case runSteps =>
    obtain ⟨r,found,holds⟩ := List.any_eq_true.mp marks
    rw [Bool.and_eq_true,beq_iff_eq,beq_iff_eq] at holds
    exact ⟨r,found,holds.1,task .runs (by decide) r found holds.2⟩
  case tasks => exact rightful.2 row there (beq_iff_eq.mp marks)
  all_goals cases marks

theorem owned_batch {owner : Int} {ids : List Int} (referential : Referential references (rows db))
    (consistent : Consistent (rows db)) (there : row ∈ rows db t)
    (marks : marked (deleteBatch owner ids) (rows db) t row = true) : Owned (rows db) owner t row := by
  have task : ∀ r : Row Link, ((rows db .tasks).any fun p => r.link .task == some p.id &&
      (p.link .user == some owner && ids.contains p.id)) = true →
      ∃ p ∈ rows db .tasks, r.link .task = some p.id ∧ p.link .user = some owner := by
    intro r holds
    obtain ⟨p,found,chosen⟩ := List.any_eq_true.mp holds
    rw [Bool.and_eq_true,Bool.and_eq_true,beq_iff_eq,beq_iff_eq] at chosen
    exact ⟨p,found,chosen.1,chosen.2.1⟩
  rw [marked_batch] at marks
  cases t
  case notificationDeliveries =>
    obtain ⟨p,found,points,own⟩ := task row marks
    exact delivered_via referential consistent there found points own
  case runs => exact task row marks
  case notificationActions => exact .inl (task row marks)
  case runSteps =>
    obtain ⟨r,found,holds⟩ := List.any_eq_true.mp marks
    rw [Bool.and_eq_true,beq_iff_eq] at holds
    exact ⟨r,found,holds.1,task r holds.2⟩
  case tasks =>
    rw [Bool.and_eq_true,beq_iff_eq] at marks
    exact marks.1
  all_goals cases marks

theorem owned_template {id owner : Int} (referential : Referential references (rows db))
    (rightful : Rightful db (.template id owner)) (there : row ∈ rows db t)
    (marks : marked (deleteTemplateRows id) (rows db) t row = true) : Owned (rows db) owner t row := by
  have template : ∀ t, (t,.template,.templates) ∈ references → ∀ r ∈ rows db t, r.link .template = some id →
      ∃ p ∈ rows db .templates, r.link .template = some p.id ∧ p.link .user = some owner := by
    intro t refers r member names
    obtain ⟨p,found,rfl⟩ := referential t .template .templates refers r member id names
    exact ⟨p,found,names,rightful p found rfl⟩
  rw [marked_template] at marks
  cases t
  case templateImports => exact .inl (template .templateImports (by decide) row there (beq_iff_eq.mp marks))
  case pushRequests => exact .inr (template .pushRequests (by decide) row there (beq_iff_eq.mp marks))
  case templates => exact rightful row there (beq_iff_eq.mp marks)
  all_goals cases marks

theorem owned_run {id owner : Int} (referential : Referential references (rows db)) (rightful : Rightful db (.run id owner))
    (there : row ∈ rows db t) (marks : marked (deleteRun id) (rows db) t row = true) : Owned (rows db) owner t row := by
  have run : ∀ t, (t,.run,.runs) ∈ references → ∀ r ∈ rows db t, r.link .run = some id →
      ∃ q ∈ rows db .runs, r.link .run = some q.id ∧
        ∃ p ∈ rows db .tasks, q.link .task = some p.id ∧ p.link .user = some owner := by
    intro t refers r member names
    obtain ⟨q,found,rfl⟩ := referential t .run .runs refers r member id names
    exact ⟨q,found,names,rightful q found rfl⟩
  rw [marked_run] at marks
  cases t
  case notificationDeliveries => exact run .notificationDeliveries (by decide) row there (beq_iff_eq.mp marks)
  case runSteps => exact run .runSteps (by decide) row there (beq_iff_eq.mp marks)
  case runs => exact rightful row there (beq_iff_eq.mp marks)
  all_goals cases marks

theorem owned_user {id : Int} (reviewed : Reviewed (rows db) id) (there : row ∈ rows db t)
    (marks : marked (deleteUser id) (rows db) t row = true) : Owned (rows db) id t row := by
  have via : ∀ t l, ∀ r : Row Link, ((rows db t).any fun p => r.link l == some p.id && p.link .user == some id) = true →
      ∃ p ∈ rows db t, r.link l = some p.id ∧ p.link .user = some id := by
    intro t l r holds
    obtain ⟨p,found,chosen⟩ := List.any_eq_true.mp holds
    rw [Bool.and_eq_true,beq_iff_eq,beq_iff_eq] at chosen
    exact ⟨p,found,chosen⟩
  have viaRun : ((rows db .runs).any fun r => row.link .run == some r.id &&
      (rows db .tasks).any fun p => r.link .task == some p.id && p.link .user == some id) = true →
      ∃ r ∈ rows db .runs, row.link .run = some r.id ∧
        ∃ p ∈ rows db .tasks, r.link .task = some p.id ∧ p.link .user = some id := by
    intro holds
    obtain ⟨r,found,chosen⟩ := List.any_eq_true.mp holds
    rw [Bool.and_eq_true,beq_iff_eq] at chosen
    exact ⟨r,found,chosen.1,via .tasks .task r chosen.2⟩
  rw [marked_user] at marks
  cases t
  case notificationActions =>
    rcases (Bool.or_eq_true _ _).mp marks with channel | task
    · exact .inr (via _ _ row channel)
    · exact .inl (via _ _ row task)
  case templateImports =>
    rcases (Bool.or_eq_true _ _).mp marks with subscription | template
    · exact .inr (via _ _ row subscription)
    · exact .inl (via _ _ row template)
  case pushRequests =>
    rcases (Bool.or_eq_true _ _).mp marks with party | template
    · rcases (Bool.or_eq_true _ _).mp party with own | reviewer
      · exact .inl (beq_iff_eq.mp own)
      · exact reviewed row there (beq_iff_eq.mp reviewer)
    · exact .inr (via _ _ row template)
  case notificationDeliveries => exact viaRun marks
  case runSteps => exact viaRun marks
  case runs => exact via _ _ row marks
  case auditLogs => cases marks
  case siteSettings => cases marks
  case oidcLoginStates => cases marks
  all_goals exact beq_iff_eq.mp marks

theorem owned_of_marked (referential : Referential references (rows db)) (consistent : Consistent (rows db))
    (rightful : Rightful db purpose) (there : row ∈ rows db t) (marks : marked purpose.program (rows db) t row = true) :
    Owned (rows db) purpose.subject t row := by
  cases purpose with
  | task id owner => exact owned_task referential consistent rightful there marks
  | batch owner ids => exact owned_batch referential consistent there marks
  | template id owner => exact owned_template referential rightful there marks
  | run id owner => exact owned_run referential rightful there marks
  | user id => exact owned_user rightful there marks

end Owners

theorem ownRows (sound : Sound sys) : OwnRows sys := by
  intro s purpose done removed after job taken t row there gone
  have known := sound.jobs s
  rw [job] at known
  obtain ⟨split,progress,-,-,rightful⟩ := known
  rw [List.append_nil] at split
  subst split
  simp only [step,System.proceed,job,Option.some.injEq] at taken
  subst taken
  have removal : row.id ∈ removed t := by
    by_contra kept
    exact gone (mem_commit.mpr ⟨there,kept⟩)
  exact owned_of_marked sound.referential sound.consistent rightful there (progress.sound t row there removal)

/-- Where no session writes a task under a deletion, no row is ever left with a reference to
nothing, and each deletion takes rows of its own account only. -/
theorem references_kept (db : Db) (referential : Referential references (rows db)) (consistent : Consistent (rows db))
    (reach : Transition.Reaches step Apart (System.init db) sys) : Referential references (rows sys.db) ∧ OwnRows sys := by
  have sound : Sound sys := reach.invariant (fun _ _ _ sound apart taken => sound_step sound apart taken)
    ⟨referential,consistent,fun _ => trivial⟩
  exact ⟨sound.referential,ownRows sound⟩

section Sample

def sampleRow (id : Int) (links : List (Link × Int)) : Row Link := ⟨id,fun l => links.lookup l⟩

/-- Two accounts with a template each. The first has a task with a run. -/
def sampleDb : Db
  | .users => ⟨[sampleRow 1 [],sampleRow 2 []],2,by decide,by decide⟩
  | .templates => ⟨[sampleRow 1 [(.user,1)],sampleRow 2 [(.user,2)]],2,by decide,by decide⟩
  | .tasks => ⟨[sampleRow 1 [(.user,1),(.template,1)]],1,by decide,by decide⟩
  | .runs => ⟨[sampleRow 1 [(.task,1)]],1,by decide,by decide⟩
  | .runSteps => ⟨[sampleRow 1 [(.run,1)]],1,by decide,by decide⟩
  | .notificationDeliveries => ⟨[sampleRow 1 [(.run,1),(.task,1)]],1,by decide,by decide⟩
  | _ => Table.empty

theorem sample_referential : Referential references (rows sampleDb) := by decide +kernel

theorem sample_consistent : Consistent (rows sampleDb) := by decide +kernel

/-- The job leaves an account and a template alone. -/
def Job.spares (account template : Int) : Job → Bool
  | .counted t _ | .deleting (.template t _) _ _ _ => t != template
  | .deleting (.user u) _ _ _ => u != account
  | _ => true

/-- `Apart` for two sessions, checked. -/
def apartCheck (sys : System Bool) : Action Bool → Bool
  | .proceed s => match sys.job s with
    | .writing owner none (some template) => ((rows sys.db .users).any fun u => u.id == owner) &&
      ((rows sys.db .templates).any fun y => y.id == template) && (sys.job false).spares owner template &&
      (sys.job true).spares owner template
    | .writing _ _ _ => false
    | .foundRun run _ owner => decide (Ready (rows sys.db) (.run run owner))
    | _ => true
  | .deleteUser _ id => decide (Ready (rows sys.db) (.user id)) &&
    (rows sys.db .pushRequests).all fun x => x.link .reviewer != some id
  | _ => true

theorem apart_of_check (sys : System Bool) (action : Action Bool) (checked : apartCheck sys action = true) :
    Apart sys action := by
  cases action with
  | proceed s =>
    unfold apartCheck at checked
    unfold Apart
    dsimp only at checked ⊢
    cases job : sys.job s with
    | writing owner target template =>
      rw [job] at checked
      cases target with
      | some id => cases template <;> cases checked
      | none =>
        cases template with
        | none => cases checked
        | some template =>
          simp only [Bool.and_eq_true,List.any_eq_true,beq_iff_eq] at checked
          obtain ⟨⟨⟨account,bound⟩,spared⟩,spared'⟩ := checked
          have spares : ∀ s', (sys.job s').spares owner template = true := fun s' => by cases s' <;> assumption
          refine ⟨account,?_,fun s' done rest removed deletes => ?_⟩
          · rintro _ ⟨⟩
            refine ⟨bound,fun s' => ⟨fun other counts => ?_,fun other done rest removed deletes => ?_⟩⟩
            · simpa [counts,Job.spares] using spares s'
            · simpa [deletes,Job.spares] using spares s'
          · simpa [deletes,Job.spares] using spares s'
    | foundRun run task owner =>
      rw [job] at checked
      exact of_decide_eq_true checked
    | idle => trivial
    | resolving => trivial
    | counted => trivial
    | deleting => trivial
  | deleteUser s id =>
    rw [apartCheck,Bool.and_eq_true,List.all_eq_true] at checked
    refine ⟨of_decide_eq_true checked.1,fun x there reviewer => ?_⟩
    have other := checked.2 x there
    rw [reviewer] at other
    simp at other
  | createTask => trivial
  | updateTask => trivial
  | deleteTask => trivial
  | deleteBatch => trivial
  | deleteTemplate => trivial
  | deleteRun => trivial
  | stop => trivial

/-- The first account is deleted while the second writes a task. -/
def departure : List (Action Bool) :=
  [.deleteUser false 1,.createTask true 2 (some 2),.proceed true] ++ List.replicate 9 (.proceed false) ++ [.proceed true] ++
    List.replicate 12 (.proceed false)

theorem departure_leaves : ∃ sys, Transition.exec step (System.init sampleDb) departure = some sys ∧
    (rows sys.db .users).map Row.id = [2] ∧ (rows sys.db .tasks).map Row.id = [2] ∧
    Referential references (rows sys.db) ∧ OwnRows sys := by
  have shape : (Transition.exec step (System.init sampleDb) departure).map
      (fun sys => ((rows sys.db .users).map Row.id,(rows sys.db .tasks).map Row.id)) = some ([2],[2]) := by decide +kernel
  obtain ⟨sys,ran,left⟩ := Option.map_eq_some_iff.mp shape
  obtain ⟨users,tasks⟩ := Prod.mk.injEq .. ▸ left
  have checked : Transition.allowedBy step apartCheck (System.init sampleDb) departure = true := by decide +kernel
  exact ⟨sys,ran,users,tasks,references_kept sampleDb sample_referential sample_consistent
    (Transition.reaches_of_exec ran (Transition.allowed_of_check apart_of_check checked))⟩

/-- A task is bound to a template after the tasks bound to it were counted. -/
def lateBinding : List (Action Bool) :=
  [.createTask true 2 (some 2),.proceed true,.deleteTemplate false 2 2,.proceed true] ++ List.replicate 5 (.proceed false)

/-- No foreign key refuses the deletion then. -/
theorem late_binding_dangles : ¬∀ (db : Db) (sys : System Bool), Referential references (rows db) → Consistent (rows db) →
    Transition.Reachable step (System.init db) sys → Referential references (rows sys.db) ∧ OwnRows sys := by
  intro all
  have shape : (Transition.exec step (System.init sampleDb) lateBinding).map
      (fun sys => decide (Referential references (rows sys.db))) = some false := by decide +kernel
  obtain ⟨sys,ran,dangles⟩ := Option.map_eq_some_iff.mp shape
  exact of_decide_eq_false dangles
    (all sampleDb sys sample_referential sample_consistent (Transition.reachable_of_exec ran)).1

end Sample

end Qdrust.Deletion
