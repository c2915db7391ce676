import Qdrust.Account.Model
import Qdrust.Store.Templates

/-! Requests to publish a template, decided by several reviewers at once. The decision
reads the request, updates it whatever it has become, and publishes in a third statement. -/
namespace Qdrust.Store.PushRequests
open Library Concurrent Account

inductive Status where
  | pending
  | approved
  | rejected
deriving DecidableEq

structure PushRequest where
  id : Int
  ownerId : Int
  templateId : Int
  status : Status
  note : Option String
  reviewedBy : Option Int
  reviewedAt : Option Int
  createdAt : Int
deriving DecidableEq

structure DecidePushRequest where
  approve : Bool
  note : Option String

structure Publication where
  clock : Int
  requests : Table PushRequest PushRequest.id
  templates : Templates

inductive Statement where
  | clock
  | getPushRequest (id : Int)
  | updatePushRequest (id : Int) (status : Status) (note : Option String) (reviewerId now : Int)
  | setTemplatePublished (id ownerId : Int) (published : Bool)
  | recordAudit (action : String)
deriving DecidableEq

abbrev Statement.Answer : Statement → Type
  | .clock => Int
  | .getPushRequest _ => Option PushRequest
  | .updatePushRequest _ _ _ _ _ => Nat
  | .setTemplatePublished _ _ _ => Bool
  | .recordAudit _ => Unit

/-- `SET status=?,note=COALESCE(?,note),reviewed_by=?,reviewed_at=?`. -/
def PushRequest.decided (request : PushRequest) (status : Status) (note : Option String) (reviewerId now : Int) : PushRequest :=
  { request with status, note := note <|> request.note, reviewedBy := some reviewerId, reviewedAt := some now }

theorem PushRequest.decided_id (request : PushRequest) (status : Status) (note : Option String) (reviewerId now : Int) :
    (request.decided status note reviewerId now).id = request.id := rfl

def publication : Concurrent.Handler Statement Statement.Answer Publication
  | .clock,db => (db.clock,db)
  | .getPushRequest id,db => (db.requests.find id,db)
  | .updatePushRequest id status note reviewerId now,db =>
    let requests := db.requests.update (fun row => row.id = id) (fun row => row.decided status note reviewerId now)
      fun row => row.decided_id status note reviewerId now
    (db.requests.affected fun row => row.id = id,{ db with requests })
  | .setTemplatePublished id ownerId published,db =>
    (db.templates.rows.any fun row => row.id = id && row.ownerId = some ownerId,
      { db with templates := setTemplatePublished db.templates id ownerId published })
  | .recordAudit _,db => ((),db)

abbrev Calls := Routine Statement Statement.Answer

abbrev ask (statement : Statement) : Calls statement.Answer := Routine.ask statement

abbrev Reply := Except ApiError PushRequest

structure Review where
  reviewerId : Int
  input : DecidePushRequest

/-- The audited action. -/
def Review.action (review : Review) : String :=
  if review.input.approve then "template.push_approved" else "template.push_rejected"

def Review.status (review : Review) : Status := if review.input.approve then .approved else .rejected

/-- The decision in the store. An error of the publishing statement is dropped. -/
def decidePushRequest (id : Int) (review : Review) : Calls (Option PushRequest) := do
  match ← ask (.getPushRequest id) with
  | none => return none
  | some request =>
    if request.status ≠ .pending then return none
    else
      let now ← ask .clock
      let _ ← ask (.updatePushRequest id review.status review.input.note review.reviewerId now)
      if review.input.approve then
        let _ ← Routine.attempt (.setTemplatePublished request.templateId request.ownerId true)
        ask (.getPushRequest id)
      else ask (.getPushRequest id)

def pushRequestNotFound : ApiError := .notFound "push_request_not_found" "Push request not found"

/-- The request of an administrator. -/
def decidePushRequestReply (id : Int) (review : Review) : Calls Reply := do
  match ← decidePushRequest id review with
  | none => return .error pushRequestNotFound
  | some request =>
    let _ ← ask (.recordAudit review.action)
    return .ok request

variable {ι : Type} [DecidableEq ι]

abbrev World (ι : Type) := Concurrent.World ι Statement Statement.Answer Publication

abbrev State (ι : Type) := Concurrent.State ι Statement Statement.Answer Publication Reply

def start (id : Int) (reviews : ι → Review) (db : Publication) : State ι :=
  State.start db fun i => decidePushRequestReply id (reviews i)

def timePasses (now : Int) (db : Publication) : Option Publication := some { db with clock := now }

abbrev step (s : State ι) (action : Action ι Int) : Option (State ι) := Concurrent.step publication timePasses s action

/-- A decision that was recorded. -/
structure Decision (ι : Type) where
  process : ι
  status : Status
  reviewerId : Int

def decisionOf : Event ι Statement Statement.Answer → Option (Decision ι)
  | ⟨i,.updatePushRequest _ status _ reviewerId _,some _⟩ => some ⟨i,status,reviewerId⟩
  | _ => none

def decisions (past : List (Event ι Statement Statement.Answer)) : List (Decision ι) := past.filterMap decisionOf

/-- A template is published exactly where a request for it was approved. -/
def PublishedByApproval (templateId : Int) (db : Publication) : Prop :=
  ∀ row ∈ db.templates.rows, row.id = templateId →
    (row.published = true ↔ ∃ request ∈ db.requests.rows, request.templateId = templateId ∧ request.status = .approved)

/-- No request is being decided. -/
def Quiescent (s : State ι) : Prop := ∀ i, s.last i = none ∨ (s.process i).ended = true

structure DecidedOnce (id : Int) (db : Publication) (s : State ι) : Prop where
  once : (decisions s.past).length ≤ 1
  undecided : decisions s.past = [] → s.shared.requests.find id = db.requests.find id
  recorded : ∀ decision ∈ decisions s.past, ∃ request, s.shared.requests.find id = some request ∧
    request.status = decision.status ∧ request.reviewedBy = some decision.reviewerId
  accepted : ∀ i request, (s.process i).result = some (.ok request) → ∃ decision ∈ decisions s.past, decision.process = i
  published : Quiescent s → ∀ templateId, PublishedByApproval templateId db → PublishedByApproval templateId s.shared

/-- The request is still pending when its decision is recorded, and the statement that publishes
neither fails nor misses the template. -/
def StillPending (s : State ι) : Action ι Int → Prop
  | .call i fails => ∀ request next, s.process i = .call request next →
    match request with
    | .updatePushRequest id _ _ _ _ => fails = false → ∃ row, s.shared.requests.find id = some row ∧ row.status = .pending
    | .setTemplatePublished id ownerId _ => fails = false ∧ ∀ row ∈ s.shared.templates.rows, row.id = id → row.ownerId = some ownerId
    | _ => True
  | .outside _ => True

section Stages

variable {id : Int} {review : Review} {db : Publication}

def afterReread (review : Review) : Option PushRequest → Calls Reply
  | none => .done (.error pushRequestNotFound)
  | some request => .call (.recordAudit review.action) (Routine.answered fun _ => .done (.ok request))

def afterPublish (id : Int) (review : Review) : Calls Reply :=
  .call (.getPushRequest id) (Routine.answered (afterReread review))

def publish (id : Int) (review : Review) (request : PushRequest) : Calls Reply :=
  .call (.setTemplatePublished request.templateId request.ownerId true) fun _ => afterPublish id review

def update (id : Int) (review : Review) (request : PushRequest) (now : Int) : Calls Reply :=
  .call (.updatePushRequest id review.status review.input.note review.reviewerId now) (Routine.answered fun _ =>
    if review.input.approve then publish id review request else afterPublish id review)

/-- What follows the first reading. -/
def afterRead (id : Int) (review : Review) : Option PushRequest → Calls Reply
  | none => .done (.error pushRequestNotFound)
  | some request =>
    if request.status ≠ .pending then .done (.error pushRequestNotFound)
    else .call .clock (Routine.answered (update id review request))

/-- What is made of the request once it is decided. -/
theorem reread_eq (after : Option PushRequest → Calls Reply) (same : ∀ request, after request = afterReread review request) :
    ask (.getPushRequest id) >>= after = afterPublish id review := by
  rw [ask,Routine.ask_bind]
  exact Routine.call_congr same

theorem decidePushRequestReply_eq :
    decidePushRequestReply id review = .call (.getPushRequest id) (Routine.answered (afterRead id review)) := by
  simp only [decidePushRequestReply,decidePushRequest,Routine.ask_bind,Routine.call_bind,Routine.answered_bind]
  refine Routine.call_congr fun request => ?_
  cases request with
  | none => rfl
  | some request =>
    simp only [afterRead]
    split
    · rfl
    · simp only [Routine.call_bind,Routine.answered_bind]
      refine Routine.call_congr fun now => Routine.call_congr fun _ => ?_
      cases review.input.approve with
      | false => exact reread_eq _ (by rintro (_ | _) <;> rfl)
      | true =>
        simp only [if_true,Routine.attempt_bind,Routine.call_bind,publish]
        congr 1
        funext _
        exact reread_eq _ (by rintro (_ | _) <;> rfl)

/-- A statement that writes a request or a template. -/
def Writes : Statement → Prop
  | .updatePushRequest _ _ _ _ _ | .setTemplatePublished _ _ _ => True
  | _ => False

theorem afterPublish_avoids : Routine.Avoids Writes (afterPublish id review) := by
  refine .call not_false (Routine.avoids_answered fun request => ?_)
  cases request with
  | none => exact .done _
  | some request => exact .call not_false (Routine.avoids_answered fun _ => .done _)

/-- The last call of a process recorded an approval. -/
def Approving (id : Int) (world : World ι) (i : ι) : Prop :=
  ∃ note reviewerId now affected, world.last i = some ⟨i,.updatePushRequest id .approved note reviewerId now,some affected⟩

/-- The request is stored, for the template that was read. -/
def Known (id : Int) (request : PushRequest) (db : Publication) : Prop :=
  ∃ row, db.requests.find id = some row ∧ row.templateId = request.templateId

def Approved (id : Int) (request : PushRequest) (db : Publication) : Prop :=
  ∃ row, db.requests.find id = some row ∧ row.templateId = request.templateId ∧ row.status = .approved

def Decided (world : World ι) (i : ι) : Prop := ∃ decision ∈ decisions world.past, decision.process = i

/-- How far a decision has come. -/
inductive Stage (id : Int) (review : Review) (i : ι) (world : World ι) : Calls Reply → Prop
  | reading (unmade : world.last i = none) :
      Stage id review i world (.call (.getPushRequest id) (Routine.answered (afterRead id review)))
  | timing (request : PushRequest) (known : Known id request world.shared) (idle : ¬Approving id world i) :
      Stage id review i world (.call .clock (Routine.answered (update id review request)))
  | updating (request : PushRequest) (now : Int) (known : Known id request world.shared) (idle : ¬Approving id world i) :
      Stage id review i world (update id review request now)
  | publishing (request : PushRequest) (approved : Approved id request world.shared) (decided : Decided world i) :
      Stage id review i world (publish id review request)
  | finishing (rest : Calls Reply) (harmless : Routine.Avoids Writes rest) (decided : Decided world i)
      (idle : ¬Approving id world i) : Stage id review i world rest
  | refused (error : ApiError) (idle : ¬Approving id world i) : Stage id review i world (.done (.error error))
  | failed (idle : ¬Approving id world i) : Stage id review i world .failed

/-- What the decisions have made of the tables: a template that is not published as its
requests say is about to be. -/
structure Ordered (id : Int) (db : Publication) (world : World ι) : Prop where
  once : (decisions world.past).length ≤ 1
  undecided : decisions world.past = [] → world.shared.requests.find id = db.requests.find id
  recorded : ∀ decision ∈ decisions world.past, ∃ request, world.shared.requests.find id = some request ∧
    request.status = decision.status ∧ request.reviewedBy = some decision.reviewerId ∧ request.status ≠ .pending
  published : ∀ templateId, PublishedByApproval templateId db → PublishedByApproval templateId world.shared ∨
    ∃ i request, Approving id world i ∧ world.shared.requests.find id = some request ∧ request.templateId = templateId

omit [DecidableEq ι] in
theorem decisions_cons (event : Event ι Statement Statement.Answer) (past : List (Event ι Statement Statement.Answer)) :
    decisions (event :: past) = (decisionOf event).toList ++ decisions past := by
  rw [decisions,List.filterMap_cons]
  cases decisionOf event <;> rfl

omit [DecidableEq ι] in
theorem Decided.perform {world : World ι} {j : ι} (decided : Decided world j) (i : ι) (request : Statement) (fails : Bool) :
    Decided (world.perform publication i request fails) j := by
  obtain ⟨decision,there,mine⟩ := decided
  refine ⟨decision,?_,mine⟩
  rw [past_perform,decisions_cons]
  exact List.mem_append_right _ there

theorem approving_self {world : World ι} {i : ι} {request : Statement} {fails : Bool}
    (approving : Approving id (world.perform publication i request fails) i) :
    fails = false ∧ ∃ note reviewerId now, request = .updatePushRequest id .approved note reviewerId now := by
  obtain ⟨note,reviewerId,now,affected,last⟩ := approving
  rw [last_self] at last
  cases fails with
  | true => cases last
  | false =>
    cases last
    exact ⟨rfl,note,reviewerId,now,rfl⟩

theorem approving_other (world : World ι) {i j : ι} (differs : j ≠ i) (request : Statement) (fails : Bool) :
    Approving id (world.perform publication i request fails) j ↔ Approving id world j := by
  rw [Approving,Approving,last_other world differs]

theorem published_congr {templateId : Int} {db db' : Publication} (requests : db'.requests = db.requests)
    (templates : db'.templates = db.templates) (published : PublishedByApproval templateId db) :
    PublishedByApproval templateId db' := by
  rw [PublishedByApproval,requests,templates]
  exact published

omit [DecidableEq ι] in
/-- A statement that is no write, or that fails, leaves the tables and the decisions. -/
theorem unwritten (world : World ι) (i : ι) {request : Statement} {fails : Bool} (other : fails = false → ¬Writes request) :
    (world.perform publication i request fails).shared.requests = world.shared.requests ∧
      (world.perform publication i request fails).shared.templates = world.shared.templates ∧
      decisions (world.perform publication i request fails).past = decisions world.past := by
  rw [past_perform,decisions_cons]
  cases fails with
  | true => cases request <;> exact ⟨rfl,rfl,rfl⟩
  | false =>
    cases request with
    | clock | getPushRequest _ | recordAudit _ => exact ⟨rfl,rfl,rfl⟩
    | updatePushRequest _ _ _ _ _ | setTemplatePublished _ _ _ => exact absurd trivial (other rfl)

/-- Such a statement of a process that publishes nothing. -/
theorem Ordered.quiet {world : World ι} (ordered : Ordered id db world) {i : ι} (request : Statement) (fails : Bool)
    (idle : ¬Approving id world i) (other : fails = false → ¬Writes request) :
    Ordered id db (world.perform publication i request fails) ∧ ¬Approving id (world.perform publication i request fails) i := by
  obtain ⟨requests,templates,same⟩ := unwritten world i other
  refine ⟨⟨?_,?_,?_,?_⟩,?_⟩
  · rw [same]
    exact ordered.once
  · rw [same,requests]
    exact ordered.undecided
  · rw [same,requests]
    exact ordered.recorded
  · intro templateId before
    rw [requests]
    rcases ordered.published templateId before with published | ⟨j,row,approving,found⟩
    · exact .inl (published_congr requests templates published)
    · have differs : j ≠ i := fun same => idle (same ▸ approving)
      exact .inr ⟨j,row,(approving_other world differs request fails).mpr approving,found⟩
  · intro approving
    obtain ⟨made,_,_,_,rfl⟩ := approving_self approving
    exact other made trivial

/-- What an update makes of a row. -/
theorem find_updated (db : Publication) (id' : Int) (status : Status) (note : Option String) (reviewerId now : Int) :
    (publication (.updatePushRequest id' status note reviewerId now) db).2.requests.find id =
      (db.requests.find id).map fun row => if row.id = id' then row.decided status note reviewerId now else row := by
  simp only [publication]
  rw [Table.find_update]
  simp

theorem find_decided {db : Publication} {row : PushRequest} (found : db.requests.find id = some row) (status : Status)
    (note : Option String) (reviewerId now : Int) :
    (publication (.updatePushRequest id status note reviewerId now) db).2.requests.find id =
      some (row.decided status note reviewerId now) := by
  rw [find_updated,found,Option.map_some,if_pos ((Table.find_eq_some _).mp found).2]

theorem mem_updated {db : Publication} {status : Status} {note : Option String} {reviewerId now : Int} {r : PushRequest} :
    r ∈ (publication (.updatePushRequest id status note reviewerId now) db).2.requests.rows ↔
      ∃ old ∈ db.requests.rows, r = if old.id = id then old.decided status note reviewerId now else old := by
  refine (db.requests.mem_update fun row => row.decided_id status note reviewerId now).trans ?_
  simp only [decide_eq_true_eq]

theorem Known.kept {request : PushRequest} {db : Publication} (known : Known id request db) (statement : Statement) :
    Known id request (publication statement db).2 := by
  obtain ⟨row,found,same⟩ := known
  cases statement with
  | updatePushRequest id' status note reviewerId now =>
    refine ⟨_,(find_updated db id' status note reviewerId now).trans (congrArg _ found),?_⟩
    dsimp only
    split <;> exact same
  | _ => exact ⟨row,found,same⟩

/-- An approved request is not decided again. -/
theorem Approved.kept {request : PushRequest} {db : Publication} (approved : Approved id request db) {statement : Statement}
    (pending : ∀ id' status note reviewerId now, statement = .updatePushRequest id' status note reviewerId now →
      ∃ row, db.requests.find id' = some row ∧ row.status = .pending) :
    Approved id request (publication statement db).2 := by
  obtain ⟨row,found,same,status⟩ := approved
  cases statement with
  | updatePushRequest id' status' note reviewerId now =>
    refine ⟨row,(find_updated db id' status' note reviewerId now).trans ?_,same,status⟩
    obtain ⟨other,there,undecided⟩ := pending _ _ _ _ _ rfl
    have differs : row.id ≠ id' := by
      intro equal
      have mine : row.id = id := ((Table.find_eq_some _).mp found).2
      rw [← equal,mine,found] at there
      cases there
      rw [status] at undecided
      cases undecided
    rw [found,Option.map_some,if_neg differs]
  | _ => exact ⟨row,found,same,status⟩

/-- What a decision leaves published as approved: every template but the one it approves. -/
theorem published_decided {templateId : Int} {db : Publication} {row : PushRequest} (found : db.requests.find id = some row)
    (pending : row.status = .pending) (status : Status) (note : Option String) (reviewerId now : Int)
    (elsewhere : status = .approved → row.templateId ≠ templateId) (published : PublishedByApproval templateId db) :
    PublishedByApproval templateId (publication (.updatePushRequest id status note reviewerId now) db).2 := by
  intro template there same
  rw [published template there same]
  obtain ⟨present,mine⟩ := (Table.find_eq_some _).mp found
  constructor
  · rintro ⟨request,member,target,approved⟩
    refine ⟨request,mem_updated.mpr ⟨request,member,(if_neg fun equal => ?_).symm⟩,target,approved⟩
    rw [db.requests.key_unique member present (equal.trans mine.symm),pending] at approved
    cases approved
  · rintro ⟨_,member,target,approved⟩
    obtain ⟨request,old,rfl⟩ := mem_updated.mp member
    split at target
    · next decided =>
      rw [if_pos decided] at approved
      rw [db.requests.key_unique old present (decided.trans mine.symm)] at target
      exact absurd target (elsewhere approved)
    · next other =>
      rw [if_neg other] at approved
      exact ⟨request,old,target,approved⟩

/-- The statement that publishes an approved template. -/
theorem published_approved {templateId ownerId : Int} {db : Publication} {request : PushRequest}
    (approved : Approved id request db) (owned : ∀ row ∈ db.templates.rows, row.id = request.templateId → row.ownerId = some ownerId)
    (published : PublishedByApproval templateId db ∨ request.templateId = templateId) :
    PublishedByApproval templateId (publication (.setTemplatePublished request.templateId ownerId true) db).2 := by
  intro template there same
  obtain ⟨old,before,rfl⟩ := List.mem_map.mp there
  obtain ⟨row,found,target,status⟩ := approved
  by_cases chosen : old.id = request.templateId
  · have mine : (decide (old.id = request.templateId) && decide (old.ownerId = some ownerId)) = true := by
      simp [chosen,owned old before chosen]
    rw [if_pos mine] at same ⊢
    refine ⟨fun _ => ⟨row,((Table.find_eq_some _).mp found).1,?_,status⟩,fun _ => rfl⟩
    rw [target,← chosen]
    exact same
  · have other : ¬(decide (old.id = request.templateId) && decide (old.ownerId = some ownerId)) = true := by simp [chosen]
    rw [if_neg other] at same ⊢
    rcases published with published | rfl
    · exact published old before same
    · exact absurd same chosen

/-- A decision of a pending request is the first one. -/
theorem undecided_of_pending {world : World ι} (ordered : Ordered id db world) {row : PushRequest}
    (found : world.shared.requests.find id = some row) (pending : row.status = .pending) : decisions world.past = [] := by
  apply List.eq_nil_iff_forall_not_mem.mpr
  intro decision there
  obtain ⟨request,same,_,_,decided⟩ := ordered.recorded decision there
  rw [found] at same
  cases same
  exact decided pending

theorem Review.status_ne (review : Review) : review.status ≠ .pending := by
  rw [Review.status]
  split <;> decide

/-- A decision is recorded. -/
theorem Ordered.decide {world : World ι} (ordered : Ordered id db world) (i : ι) (review : Review) (now : Int)
    {row : PushRequest} (found : world.shared.requests.find id = some row) (pending : row.status = .pending)
    (idle : ¬Approving id world i) :
    Ordered id db (world.perform publication i
      (.updatePushRequest id review.status review.input.note review.reviewerId now) false) := by
  have after := find_decided found review.status review.input.note review.reviewerId now
  have single : decisions (world.perform publication i
      (.updatePushRequest id review.status review.input.note review.reviewerId now) false).past =
        [⟨i,review.status,review.reviewerId⟩] := by
    rw [past_perform,decisions_cons,undecided_of_pending ordered found pending]
    rfl
  constructor
  · rw [single]
    exact Nat.le_refl 1
  · rw [single]
    intro none
    cases none
  · rw [single]
    intro decision there
    cases List.mem_singleton.mp there
    exact ⟨_,after,rfl,rfl,review.status_ne⟩
  · intro templateId before
    rcases ordered.published templateId before with published | ⟨j,request,approving,same,target⟩
    · by_cases approves : review.status = .approved ∧ row.templateId = templateId
      · refine .inr ⟨i,_,⟨review.input.note,review.reviewerId,now,world.shared.requests.affected fun row => row.id = id,?_⟩,
          after,approves.2⟩
        rw [last_self,approves.1]
        rfl
      · exact .inl (published_decided found pending _ _ _ _ (fun status target => approves ⟨status,target⟩) published)
    · rw [found] at same
      cases same
      have differs : j ≠ i := fun same => idle (same ▸ approving)
      exact .inr ⟨j,_,(approving_other world differs _ _).mpr approving,after,target⟩

/-- A template is published as its request says. -/
theorem Ordered.publish {world : World ι} (ordered : Ordered id db world) (i : ι) {request : PushRequest} {ownerId : Int}
    (approved : Approved id request world.shared)
    (owned : ∀ row ∈ world.shared.templates.rows, row.id = request.templateId → row.ownerId = some ownerId) :
    Ordered id db (world.perform publication i (.setTemplatePublished request.templateId ownerId true) false) := by
  constructor
  · exact ordered.once
  · exact ordered.undecided
  · exact ordered.recorded
  · intro templateId before
    left
    apply published_approved approved owned
    rcases ordered.published templateId before with published | ⟨j,row,_,found,target⟩
    · exact .inl published
    · obtain ⟨_,there,same,_⟩ := approved
      rw [found] at there
      cases there
      exact .inr (same.symm.trans target)

/-- The call of one review. -/
theorem stage_own {s : State ι} {i : ι} {request : Statement} {next : Option request.Answer → Calls Reply} {fails : Bool}
    (guard : StillPending s (.call i fails)) (ordered : Ordered id db s.toWorld) (outstanding : s.process i = .call request next)
    (stage : Stage id review i s.toWorld (.call request next)) :
    Ordered id db (s.toWorld.perform publication i request fails) ∧
      Stage id review i (s.toWorld.perform publication i request fails) (next (answer publication s.shared request fails)) := by
  have allowed := guard request next outstanding
  cases stage with
  | reading unmade =>
    have idle : ¬Approving id s.toWorld i := by
      rintro ⟨_,_,_,_,last⟩
      rw [unmade] at last
      cases last
    obtain ⟨kept,quiet⟩ := ordered.quiet (.getPushRequest id) fails idle fun _ => not_false
    refine ⟨kept,?_⟩
    cases fails with
    | true => exact .failed quiet
    | false =>
      change Stage _ _ _ _ (afterRead id review (s.shared.requests.find id))
      cases found : s.shared.requests.find id with
      | none => exact .refused _ quiet
      | some row =>
        simp only [afterRead]
        split
        · exact .refused _ quiet
        · exact .timing row ⟨row,found,rfl⟩ quiet
  | timing read known idle =>
    obtain ⟨kept,quiet⟩ := ordered.quiet .clock fails idle fun _ => not_false
    refine ⟨kept,?_⟩
    cases fails with
    | true => exact .failed quiet
    | false => exact .updating read _ known quiet
  | updating read now known idle =>
    cases fails with
    | true =>
      obtain ⟨kept,quiet⟩ := ordered.quiet _ true idle (absurd · (by decide))
      exact ⟨kept,.failed quiet⟩
    | false =>
      obtain ⟨row,found,pending⟩ := allowed rfl
      have kept := ordered.decide i review now found pending idle
      refine ⟨kept,?_⟩
      have after := find_decided found review.status review.input.note review.reviewerId now
      have decided : Decided (s.toWorld.perform publication i
          (.updatePushRequest id review.status review.input.note review.reviewerId now) false) i := by
        refine ⟨⟨i,review.status,review.reviewerId⟩,?_,rfl⟩
        rw [past_perform,decisions_cons]
        exact List.mem_cons_self
      simp only [answer,Bool.false_eq_true,if_false,Routine.answered_some]
      split
      · next approves =>
        obtain ⟨_,same,target⟩ := known
        rw [found] at same
        cases same
        exact .publishing read ⟨_,after,target,if_pos approves⟩ decided
      · next rejects =>
        refine .finishing _ afterPublish_avoids decided fun approving => ?_
        obtain ⟨_,_,_,_,same⟩ := approving_self approving
        injection same with _ status
        rw [Review.status,if_neg rejects] at status
        cases status
  | publishing read approved decided =>
    obtain ⟨rfl,owned⟩ := allowed
    refine ⟨ordered.publish i approved owned,.finishing _ afterPublish_avoids (decided.perform _ _ _) ?_⟩
    intro approving
    obtain ⟨_,_,_,_,same⟩ := approving_self approving
    cases same
  | finishing _ harmless decided idle =>
    cases harmless with
    | call other rest =>
      obtain ⟨kept,quiet⟩ := ordered.quiet _ fails idle fun _ => other
      exact ⟨kept,.finishing _ (rest _) (decided.perform _ _ _) quiet⟩

/-- The call of another review. -/
theorem stage_other {s : State ι} {i j : ι} {request : Statement} {next : Option request.Answer → Calls Reply} {fails : Bool}
    {rest : Calls Reply} (guard : StillPending s (.call i fails)) (outstanding : s.process i = .call request next) (differs : j ≠ i)
    (stage : Stage id review j s.toWorld rest) : Stage id review j (s.toWorld.perform publication i request fails) rest := by
  have idle : ¬Approving id s.toWorld j → ¬Approving id (s.toWorld.perform publication i request fails) j :=
    mt (approving_other s.toWorld differs request fails).mp
  have shared (claim : Publication → Prop) (before : claim s.shared)
      (kept : fails = false → claim (publication request s.shared).2) :
      claim (s.toWorld.perform publication i request fails).shared := by
    cases fails with
    | true => exact before
    | false => exact kept rfl
  cases stage with
  | reading unmade => exact .reading ((last_other s.toWorld differs request fails).trans unmade)
  | timing read known quiet => exact .timing read (shared _ known fun _ => known.kept request) (idle quiet)
  | updating read now known quiet => exact .updating read now (shared _ known fun _ => known.kept request) (idle quiet)
  | publishing read approved decided =>
    refine .publishing read (shared _ approved fun made => approved.kept ?_) (decided.perform _ _ _)
    rintro id' status note reviewerId now rfl
    exact guard _ next outstanding made
  | finishing _ harmless decided quiet => exact .finishing _ harmless (decided.perform _ _ _) (idle quiet)
  | refused error quiet => exact .refused error (idle quiet)
  | failed quiet => exact .failed (idle quiet)

theorem stage_elsewhere {world : World ι} {i : ι} {rest : Calls Reply} (now : Int) (stage : Stage id review i world rest) :
    Stage id review i ⟨{ world.shared with clock := now },world.past⟩ rest := by
  cases stage with
  | reading unmade => exact .reading unmade
  | timing read known idle => exact .timing read known idle
  | updating read now known idle => exact .updating read now known idle
  | publishing read approved decided => exact .publishing read approved decided
  | finishing _ harmless decided idle => exact .finishing _ harmless decided idle
  | refused error idle => exact .refused error idle
  | failed idle => exact .failed idle

/-- What a run keeps. -/
theorem ordered_kept {reviews : ι → Review} {s : State ι}
    (reach : Transition.Reaches step StillPending (start id reviews db) s) :
    Assertions (Ordered id db) (fun i => Stage id (reviews i) i) s := by
  refine assertions_kept _ _ ?_ ?_ ?_ reach ⟨?_,fun i => ?_⟩
  · intro s i request next fails holds guard outstanding
    exact stage_own guard holds.common outstanding (outstanding ▸ holds.stage i)
  · intro s i request next fails j holds guard outstanding differs
    exact stage_other guard outstanding differs (holds.stage j)
  · rintro s now _ holds _ ⟨⟩
    obtain ⟨once,undecided,recorded,published⟩ := holds.common
    exact ⟨⟨once,undecided,recorded,published⟩,fun j => stage_elsewhere now (holds.stage j)⟩
  · exact ⟨Nat.zero_le 1,fun _ => rfl,by rintro _ ⟨⟩,fun _ before => .inl before⟩
  · change Stage id (reviews i) i _ (decidePushRequestReply id (reviews i))
    rw [decidePushRequestReply_eq]
    exact .reading rfl

/-- A request that is pending whenever its decision is recorded is decided once, and no failed
publication is forgotten. -/
theorem decided_once (id : Int) (reviews : ι → Review) (db : Publication) {s : State ι}
    (reach : Transition.Reaches step StillPending (start id reviews db) s) : DecidedOnce id db s := by
  obtain ⟨ordered,stages⟩ := ordered_kept reach
  constructor
  · exact ordered.once
  · exact ordered.undecided
  · intro decision there
    obtain ⟨request,found,status,reviewer,_⟩ := ordered.recorded decision there
    exact ⟨request,found,status,reviewer⟩
  · intro i request success
    have stage := stages i
    generalize s.process i = rest at stage success
    cases stage with
    | finishing _ _ decided => exact decided
    | _ => cases success
  · intro quiescent templateId before
    rcases ordered.published templateId before with published | ⟨i,_,approving,_⟩
    · exact published
    · have stage := stages i
      rcases quiescent i with unmade | ended
      · obtain ⟨_,_,_,_,last⟩ := approving
        rw [unmade] at last
        cases last
      · generalize s.process i = rest at stage ended
        cases stage with
        | finishing _ _ _ idle => exact absurd approving idle
        | refused _ idle => exact absurd approving idle
        | failed idle => exact absurd approving idle
        | _ => cases ended

end Stages

def onePublication : Publication where
  clock := 0
  requests := Table.empty.insert (fun id => ⟨id,1,1,.pending,none,none,none,0⟩) fun _ => rfl
  templates := ⟨[⟨1,some 1,"template",.qdHar .null,false⟩],2⟩

/-- One reviewer approves and another one rejects. -/
def twoReviews (i : Bool) : Review := ⟨if i then 2 else 3,⟨i,none⟩⟩

/-- The second review begins after the first one has ended. -/
theorem decided_in_turn : ∃ s : State Bool,
    Transition.exec step (start 1 twoReviews onePublication)
      [.call true false,.call true false,.call true false,.call true false,.call true false,.call true false,
        .call false false] = some s ∧
    s.shared.templates.rows.map TemplateRow.published = [true] ∧ DecidedOnce 1 onePublication s := by
  obtain ⟨s,ran⟩ : ∃ s, Transition.exec step (start 1 twoReviews onePublication)
      [.call true false,.call true false,.call true false,.call true false,.call true false,.call true false,
        .call false false] = some s := ⟨_,rfl⟩
  have published := congrArg (Option.map fun s => s.shared.templates.rows.map TemplateRow.published) ran
  refine ⟨s,ran,(Option.some.inj published).symm,decided_once 1 twoReviews onePublication (Transition.reaches_of_exec ran ?_)⟩
  iterate 2
    refine ⟨?_,?_⟩
    · rintro _ _ ⟨⟩
      trivial
    rintro _ ⟨⟩
  refine ⟨?_,?_⟩
  · rintro _ _ ⟨⟩ _
    exact ⟨_,rfl,rfl⟩
  rintro _ ⟨⟩
  refine ⟨?_,?_⟩
  · rintro _ _ ⟨⟩
    refine ⟨rfl,fun row there _ => ?_⟩
    cases List.mem_singleton.mp there
    rfl
  rintro _ ⟨⟩
  iterate 2
    refine ⟨?_,?_⟩
    · rintro _ _ ⟨⟩
      trivial
    rintro _ ⟨⟩
  refine ⟨?_,fun _ _ => trivial⟩
  rintro _ _ ⟨⟩
  trivial

/-- What the tables say of a request and of its template. -/
def shown (s : State Bool) : List Status × List Bool :=
  (s.shared.requests.rows.map PushRequest.status,s.shared.templates.rows.map TemplateRow.published)

/-- A reviewer rejects what another one has approved meanwhile; a template is not published when its
request is approved. -/
theorem decided_twice :
    (∃ s : State Bool, Transition.exec step (start 1 twoReviews onePublication)
        [.call true false,.call true false,.call false false,.call false false,.call true false,.call true false,
          .call false false] = some s ∧ shown s = ([.rejected],[true]) ∧ ¬DecidedOnce 1 onePublication s) ∧
    ∃ s : State Bool, Transition.exec step (start 1 twoReviews onePublication)
        [.call true false,.call true false,.call true false,.call true true,.call true false,.call true false] = some s ∧
      shown s = ([.approved],[false]) ∧ ¬DecidedOnce 1 onePublication s := by
  constructor
  · refine ⟨_,rfl,rfl,fun single => ?_⟩
    exact absurd single.once (by decide)
  · refine ⟨_,rfl,rfl,fun single => ?_⟩
    have before : PublishedByApproval 1 onePublication := by
      intro row there _
      cases List.mem_singleton.mp there
      refine ⟨nofun,?_⟩
      rintro ⟨request,there,_,approved⟩
      cases List.mem_singleton.mp there
      cases approved
    have published := single.published (fun i => ?_) 1 before _ (List.mem_singleton_self _) rfl
    · exact absurd (published.mpr ⟨_,List.mem_singleton_self _,rfl,rfl⟩) (by decide)
    · cases i with
      | false => exact .inl rfl
      | true => exact .inr rfl

end Qdrust.Store.PushRequests
