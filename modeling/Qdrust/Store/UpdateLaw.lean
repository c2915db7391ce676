import Qdrust.Store.UpdateTask
import Qdrust.Library.Overlay

/-! What an update does to a task: the fields it gives are set or cleared and
the others are kept. The law is stated field by field over the stored columns,
for one update and for two that interleave. -/
namespace Qdrust.Store
open Library Har Template

namespace TaskField

/-- The fields for which `null` is a value: it clears the column. -/
def nullable : TaskField → Bool
  | grp | timezone | timeoutSeconds | retryCount | retryIntervalSeconds | vars => true
  | _ => false

/-- What a body gives for a field, with `none` for a cleared column. Any other
`null` is read as an absent field. -/
def change (field : TaskField) (fields : Fields) : Option (Option Json) :=
  match fields.get field.key with
  | none => none
  | some .null => if field.nullable then some none else none
  | some json => some (some json)

end TaskField

def jsonInt (value : Int) : Json := .num ⟨value,0⟩

/-- A column as the JSON value of its field, `none` for `NULL`. -/
def TaskColumns.value (columns : TaskColumns) : TaskField → Option Json
  | .name => some (.str columns.name)
  | .cron => some (.str columns.cron)
  | .method => some (.str columns.method)
  | .url => some (.str columns.url)
  | .headers => some columns.headers
  | .body => columns.body.map Json.str
  | .disabled => some (.bool columns.disabled)
  | .templateId => columns.templateId.map jsonInt
  | .grp => columns.grp.map Json.str
  | .timeoutSeconds => columns.timeoutSeconds.map jsonInt
  | .retryCount => columns.retryCount.map jsonInt
  | .retryIntervalSeconds => columns.retryIntervalSeconds.map jsonInt
  | .priority => some (jsonInt columns.priority)
  | .timezone => columns.timezone.map Json.str
  | .randomDelayMaxSeconds => some (jsonInt columns.randomDelayMaxSeconds)
  | .vars => columns.vars

/-- A body the endpoint accepts, with its fields and what they are read as. -/
structure AcceptedBody where
  json : Json
  fields : Fields
  input : UpdateTask
  named : updateFields json = some fields
  decoded : UpdateTask.ofFields fields = some input

def AcceptedBody.change (body : AcceptedBody) : Change TaskField (Option Json) := fun field => field.change body.fields

/-- The request a task mirrors once it is updated, if its template has one. -/
def mirroredRequest (templates : Templates) (ownerId : Option Int) (current : TaskRow) (input : UpdateTask) :
    Option (String × String) :=
  ((input.templateId.or current.templateId).bind fun id => templates.get id ownerId).bind templateMirrorRequest

/-- Where a request comes from the body it is the URL without surrounding blanks
and the method in upper case, `GET` when there is none; a mirrored request and
the stored one stand whatever the body says, the stored method in upper case. -/
def RequestKept (env : UpdateEnv) (mirrored : Option (String × String)) (current : TaskRow)
    (method url : Option String) : Prop :=
  match requestedUrl url,mirrored with
  | some trimmed, _ => url = some trimmed ∧ env.toUppercase (method.getD "GET") = method.getD current.method
  | none, some request => request = (method.getD current.method,url.getD current.url)
  | none, none => env.toUppercase (method.getD current.method) = method.getD current.method ∧
    url.getD current.url = current.url

/-- When an update does to a stored task what its body says: no `null` stands for
a column that has a value, and the request is kept. -/
structure MeetsLaw (env : UpdateEnv) (templates : Templates) (ownerId : Option Int) (current : TaskRow)
    (body : AcceptedBody) : Prop where
  cleared : ∀ field : TaskField, field.nullable = true → body.fields.get field.key = some .null →
    current.columns.value field = none
  request : RequestKept env (mirroredRequest templates ownerId current body.input) current body.input.method
    body.input.url

section Fields

variable {α : Type} {decode : Json → Option α} {encode : α → Json} {fields : Fields} {field : TaskField}

theorem asI64_eq_some {json : Json} {value : Int} (decoded : asI64 json = some value) : json = jsonInt value := by
  unfold asI64 at decoded
  cases json with
  | num number =>
    obtain ⟨mantissa,exponent⟩ := number
    simp only [Json.asInt] at decoded
    split at decoded
    · rename_i plain
      cases decoded
      rw [jsonInt,plain.1]
    · cases decoded
  | _ => cases decoded

theorem change_of_get {json : Json} (given : fields.get field.key = some json) (value : json ≠ .null) :
    field.change fields = some (some json) := by
  unfold TaskField.change
  rw [given]
  cases json <;> first | rfl | exact absurd rfl value

/-- A field with one level of absence changes its column to what it decodes to,
unless a `null` clears it. -/
theorem change_of_opt (exact : ∀ json value, decode json = some value → json = encode value) {input : Option α}
    (decoded : Json.fieldD fields field.key none (Json.opt decode) = some input) :
    field.change fields = (input.map fun value => some (encode value)) ∨
      input = none ∧ field.nullable = true ∧ fields.get field.key = some .null ∧ field.change fields = some none := by
  unfold Json.fieldD at decoded
  cases given : fields.get field.key with
  | none =>
    rw [given] at decoded
    cases Option.some.inj decoded
    rw [TaskField.change,given]
    exact Or.inl rfl
  | some json =>
    rw [given] at decoded
    by_cases absent : json = .null
    · subst json
      cases Option.some.inj decoded
      rw [TaskField.change,given]
      cases clears : field.nullable <;> simp
    · rw [change_of_get given absent]
      obtain ⟨value,ok,rfl⟩ := Option.map_eq_some_iff.mp ((Json.opt_of_ne_null absent).symm.trans decoded)
      rw [exact json value ok]
      exact Or.inl rfl

theorem change_of_plain (plain : field.nullable = false)
    (exact : ∀ json value, decode json = some value → json = encode value) {input : Option α}
    (decoded : Json.fieldD fields field.key none (Json.opt decode) = some input) :
    field.change fields = input.map fun value => some (encode value) := by
  refine (change_of_opt exact decoded).resolve_right ?_
  rintro ⟨_,clears,_⟩
  exact absurd clears (by simp [plain])

/-- A field with two levels of absence never decodes to the inner one. -/
theorem nested_of_opt {name : String} {input : Option (Option α)}
    (decoded : Json.fieldD fields name none (Json.opt (Json.opt decode)) = some input) :
    ∃ value, input = value.map some ∧ Json.fieldD fields name none (Json.opt decode) = some value := by
  unfold Json.fieldD at decoded ⊢
  cases given : fields.get name with
  | none =>
    rw [given] at decoded
    cases Option.some.inj decoded
    exact ⟨none,rfl,rfl⟩
  | some json =>
    rw [given] at decoded
    by_cases absent : json = .null
    · subst json
      cases Option.some.inj decoded
      exact ⟨none,rfl,rfl⟩
    · obtain ⟨inner,outer,rfl⟩ := Option.map_eq_some_iff.mp ((Json.opt_of_ne_null absent).symm.trans decoded)
      obtain ⟨value,ok,rfl⟩ := Option.map_eq_some_iff.mp ((Json.opt_of_ne_null absent).symm.trans outer)
      exact ⟨some value,rfl,(Json.opt_of_ne_null absent).trans (congrArg (Option.map some) ok)⟩

/-- The law of a field over its column: the change is made, unless a `null`
stands for a column that has a value. -/
def ClearedOnly (fields : Fields) (field : TaskField) (before : Option Json) : Prop :=
  field.nullable = true → fields.get field.key = some .null → before = none

/-- A column that takes the value given or keeps its own obeys the law but for a
`null`. -/
theorem field_law (exact : ∀ json value, decode json = some value → json = encode value) {input : Option α}
    (decoded : Json.fieldD fields field.key none (Json.opt decode) = some input) {before after : Option Json}
    (merged : after = (input.map fun value => some (encode value)).getD before) :
    after = (field.change fields).getD before ↔ ClearedOnly fields field before := by
  rw [merged]
  rcases change_of_opt exact decoded with changed | ⟨rfl,nullable,given,changed⟩
  · rw [changed]
    refine iff_of_true rfl ?_
    intro nullable given
    rw [TaskField.change,given] at changed
    cases input <;> simp [nullable] at changed
  · rw [changed]
    exact ⟨fun cleared _ _ => cleared,fun cleared => cleared nullable given⟩

/-- A column that is `NULL` where it has no value. -/
theorem nullable_law (exact : ∀ json value, decode json = some value → json = encode value)
    {input : Option (Option α)}
    (decoded : Json.fieldD fields field.key none (Json.opt (Json.opt decode)) = some input) (current : Option α) :
    (mergeOptional input current).map encode = (field.change fields).getD (current.map encode) ↔
      ClearedOnly fields field (current.map encode) := by
  obtain ⟨value,rfl,read⟩ := nested_of_opt decoded
  refine field_law exact read ?_
  cases value <;> rfl

end Fields

/-- The fields that end in the request. -/
def TaskField.ofRequest : TaskField → Bool
  | .method | .url => true
  | _ => false

/-- What each field of an accepted body is read as. -/
structure FieldsRead (fields : Fields) (input : UpdateTask) : Prop where
  name : Json.fieldD fields "name" none (Json.opt Json.asStr) = some input.name
  cron : Json.fieldD fields "cron" none (Json.opt Json.asStr) = some input.cron
  method : Json.fieldD fields "method" none (Json.opt Json.asStr) = some input.method
  url : Json.fieldD fields "url" none (Json.opt Json.asStr) = some input.url
  headers : Json.fieldD fields "headers" none (Json.opt Json.asObj) = some input.headers
  body : Json.fieldD fields "body" none (Json.opt Json.asStr) = some input.body
  disabled : Json.fieldD fields "disabled" none (Json.opt Json.asBool) = some input.disabled
  templateId : Json.fieldD fields "template_id" none (Json.opt asI64) = some input.templateId
  grp : Json.fieldD fields "grp" none (Json.opt (Json.opt Json.asStr)) = some input.grp
  timeoutSeconds : Json.fieldD fields "timeout_seconds" none (Json.opt (Json.opt asI64)) = some input.timeoutSeconds
  retryCount : Json.fieldD fields "retry_count" none (Json.opt (Json.opt asI64)) = some input.retryCount
  retryIntervalSeconds : Json.fieldD fields "retry_interval_seconds" none (Json.opt (Json.opt asI64)) =
    some input.retryIntervalSeconds
  priority : Json.fieldD fields "priority" none (Json.opt (Json.opt asI64)) = some input.priority
  timezone : Json.fieldD fields "timezone" none (Json.opt (Json.opt Json.asStr)) = some input.timezone
  randomDelayMaxSeconds : Json.fieldD fields "random_delay_max_seconds" none (Json.opt (Json.opt asI64)) =
    some input.randomDelayMaxSeconds
  vars : Json.fieldD fields "variables" none (Json.opt (Json.opt some)) = some input.vars

theorem AcceptedBody.read (body : AcceptedBody) : FieldsRead body.fields body.input := by
  have decoded := body.decoded
  unfold UpdateTask.ofFields at decoded
  obtain ⟨name,nameRead,decoded⟩ := Option.bind_eq_some_iff.mp decoded
  obtain ⟨cron,cronRead,decoded⟩ := Option.bind_eq_some_iff.mp decoded
  obtain ⟨method,methodRead,decoded⟩ := Option.bind_eq_some_iff.mp decoded
  obtain ⟨url,urlRead,decoded⟩ := Option.bind_eq_some_iff.mp decoded
  obtain ⟨headers,headersRead,decoded⟩ := Option.bind_eq_some_iff.mp decoded
  obtain ⟨text,textRead,decoded⟩ := Option.bind_eq_some_iff.mp decoded
  obtain ⟨disabled,disabledRead,decoded⟩ := Option.bind_eq_some_iff.mp decoded
  obtain ⟨templateId,templateIdRead,decoded⟩ := Option.bind_eq_some_iff.mp decoded
  obtain ⟨grp,grpRead,decoded⟩ := Option.bind_eq_some_iff.mp decoded
  obtain ⟨timeout,timeoutRead,decoded⟩ := Option.bind_eq_some_iff.mp decoded
  obtain ⟨retries,retriesRead,decoded⟩ := Option.bind_eq_some_iff.mp decoded
  obtain ⟨interval,intervalRead,decoded⟩ := Option.bind_eq_some_iff.mp decoded
  obtain ⟨priority,priorityRead,decoded⟩ := Option.bind_eq_some_iff.mp decoded
  obtain ⟨timezone,timezoneRead,decoded⟩ := Option.bind_eq_some_iff.mp decoded
  obtain ⟨delay,delayRead,decoded⟩ := Option.bind_eq_some_iff.mp decoded
  obtain ⟨vars,varsRead,decoded⟩ := Option.bind_eq_some_iff.mp decoded
  rw [← Option.some.inj decoded]
  exact ⟨nameRead,cronRead,methodRead,urlRead,headersRead,textRead,disabledRead,templateIdRead,grpRead,timeoutRead,
    retriesRead,intervalRead,priorityRead,timezoneRead,delayRead,varsRead⟩

/-- Every field but the two of the request obeys the law but for a `null`. -/
theorem column_law (current : TaskRow) (body : AcceptedBody) (request : String × String) {field : TaskField}
    (other : field.ofRequest = false) :
    (mergeColumns (taskFromRow current) body.input request).value field =
        (body.change field).getD (current.columns.value field) ↔
      ClearedOnly body.fields field (current.columns.value field) := by
  have read := body.read
  have str : ∀ json value, Json.asStr json = some value → json = .str value := fun _ _ => Json.asStr_eq_some.mp
  have int : ∀ json value, asI64 json = some value → json = jsonInt value := fun _ _ => asI64_eq_some
  have json : ∀ json value : Json, some json = some value → json = id value := fun _ _ => Option.some.inj
  cases field with
  | method => cases other
  | url => cases other
  | name =>
    refine field_law str read.name ?_
    unfold TaskColumns.value mergeColumns
    cases body.input.name <;> rfl
  | cron =>
    refine field_law str read.cron ?_
    unfold TaskColumns.value mergeColumns
    cases body.input.cron <;> rfl
  | headers =>
    refine field_law (fun _ _ => Json.asObj_eq_some.mp) read.headers ?_
    unfold TaskColumns.value mergeColumns
    cases body.input.headers <;> rfl
  | body =>
    refine field_law str read.body ?_
    unfold TaskColumns.value mergeColumns
    cases body.input.body <;> rfl
  | disabled =>
    refine field_law (fun _ _ => Json.asBool_eq_some.mp) read.disabled ?_
    unfold TaskColumns.value mergeColumns
    cases body.input.disabled <;> rfl
  | templateId =>
    refine field_law int read.templateId ?_
    unfold TaskColumns.value mergeColumns
    cases body.input.templateId <;> rfl
  | grp =>
    have merged : (mergeColumns (taskFromRow current) body.input request).grp =
        mergeOptional body.input.grp current.grp := by
      unfold mergeColumns
      cases body.input.grp <;> rfl
    unfold TaskColumns.value
    rw [merged]
    exact nullable_law str read.grp current.grp
  | timeoutSeconds => exact nullable_law int read.timeoutSeconds _
  | retryCount => exact nullable_law int read.retryCount _
  | retryIntervalSeconds => exact nullable_law int read.retryIntervalSeconds _
  | priority =>
    obtain ⟨value,outer,inner⟩ := nested_of_opt read.priority
    refine field_law int inner ?_
    unfold TaskColumns.value mergeColumns
    rw [outer]
    cases value <;> rfl
  | timezone => exact nullable_law str read.timezone _
  | randomDelayMaxSeconds =>
    obtain ⟨value,outer,inner⟩ := nested_of_opt read.randomDelayMaxSeconds
    refine field_law int inner ?_
    unfold TaskColumns.value mergeColumns
    rw [outer]
    cases value <;> rfl
  | vars =>
    obtain ⟨value,outer,inner⟩ := nested_of_opt read.vars
    refine field_law json inner ?_
    unfold TaskColumns.value mergeColumns
    rw [outer]
    cases value <;> rfl

/-- The two fields of the request are given as texts or not at all. -/
theorem request_change (body : AcceptedBody) :
    body.change .method = (body.input.method.map fun text => some (.str text)) ∧
      body.change .url = (body.input.url.map fun text => some (.str text)) := by
  have str : ∀ json value, Json.asStr json = some value → json = .str value := fun _ _ => Json.asStr_eq_some.mp
  exact ⟨change_of_plain rfl str body.read.method,change_of_plain rfl str body.read.url⟩

/-- The request an update resolves to, by where it comes from. -/
theorem resolved_request {env : UpdateEnv} {templates : Templates} {ownerId : Option Int} {current : TaskRow}
    {input : UpdateTask} {request : String × String}
    (resolved : resolveTaskRequest env templates ownerId (input.templateId.or current.templateId) input.method input.url
      (some (current.method,current.url)) = .ok request) :
    request = match requestedUrl input.url,mirroredRequest templates ownerId current input with
      | some url, _ => (env.toUppercase (input.method.getD "GET"),url)
      | none, some mirrored => mirrored
      | none, none => (env.toUppercase (input.method.getD current.method),current.url) := by
  unfold resolveTaskRequest at resolved
  obtain ⟨template,bound,resolved⟩ := bind_ok.mp resolved
  have lookup : ((input.templateId.or current.templateId).bind fun id => templates.get id ownerId) = template := by
    unfold boundTemplate at bound
    cases chosen : input.templateId.or current.templateId with
    | none =>
      rw [chosen] at bound
      exact Except.ok.inj bound
    | some id =>
      rw [chosen] at bound
      cases found : templates.get id ownerId with
      | none => simp [found] at bound
      | some row =>
        simp only [found,Except.ok.injEq] at bound
        exact found.trans bound
  rw [mirroredRequest,lookup]
  cases asked : requestedUrl input.url with
  | some url =>
    rw [asked] at resolved
    exact (Except.ok.inj resolved).symm
  | none =>
    rw [asked] at resolved
    cases mirrored : template.bind templateMirrorRequest with
    | some request =>
      rw [mirrored] at resolved
      exact (Except.ok.inj resolved).symm
    | none =>
      rw [mirrored] at resolved
      exact (Except.ok.inj resolved).symm

/-- A requested URL is the text sent, up to the blanks around it. -/
theorem requestedUrl_eq_some {url : Option String} {trimmed : String} (asked : requestedUrl url = some trimmed) :
    ∃ text, url = some text ∧ trim text = trimmed := by
  obtain ⟨given,_⟩ := Option.filter_eq_some_iff.mp asked
  exact Option.map_eq_some_iff.mp given

/-- The two fields of the request obey the law when the request is kept. -/
theorem request_law {env : UpdateEnv} {templates : Templates} {ownerId : Option Int} {current : TaskRow}
    {body : AcceptedBody} {request : String × String}
    (resolved : resolveTaskRequest env templates ownerId (body.input.templateId.or current.templateId)
      body.input.method body.input.url (some (current.method,current.url)) = .ok request) :
    request = (body.input.method.getD current.method,body.input.url.getD current.url) ↔
      RequestKept env (mirroredRequest templates ownerId current body.input) current body.input.method
        body.input.url := by
  rw [resolved_request resolved]
  unfold RequestKept
  cases asked : requestedUrl body.input.url with
  | some trimmed =>
    obtain ⟨text,given,same⟩ := requestedUrl_eq_some asked
    simp only [given,Option.getD_some,Prod.mk.injEq,Option.some.injEq]
    exact ⟨fun ⟨method,url⟩ => ⟨url.symm,method⟩,fun ⟨url,method⟩ => ⟨method,url.symm⟩⟩
  | none =>
    cases mirroredRequest templates ownerId current body.input with
    | some mirrored => rfl
    | none =>
      simp only [Prod.mk.injEq]
      exact and_congr_right fun _ => eq_comm

/-- An update obeys the law for every field exactly when it meets the condition. -/
theorem prepareUpdate_framed_iff {env : UpdateEnv} {templates : Templates} {ownerId : Option Int} {current : TaskRow}
    {body : AcceptedBody} {columns : TaskColumns}
    (prepared : prepareUpdate env templates ownerId (taskFromRow current) body.input = .ok columns) :
    body.change.Framed current.columns.value columns.value ↔ MeetsLaw env templates ownerId current body := by
  unfold prepareUpdate at prepared
  obtain ⟨request,resolved,prepared⟩ := bind_ok.mp prepared
  obtain ⟨_,_,prepared⟩ := bind_ok.mp prepared
  cases Except.ok.inj prepared
  obtain ⟨method,url⟩ := request_change body
  have methodValue : (body.change .method).getD (current.columns.value .method) =
      some (.str (body.input.method.getD current.method)) := by
    rw [method]
    cases body.input.method <;> rfl
  have urlValue : (body.change .url).getD (current.columns.value .url) =
      some (.str (body.input.url.getD current.url)) := by
    rw [url]
    cases body.input.url <;> rfl
  have ofRequest : request = (body.input.method.getD current.method,body.input.url.getD current.url) ↔
      (mergeColumns (taskFromRow current) body.input request).value .method =
          (body.change .method).getD (current.columns.value .method) ∧
        (mergeColumns (taskFromRow current) body.input request).value .url =
          (body.change .url).getD (current.columns.value .url) := by
    rw [methodValue,urlValue]
    obtain ⟨sent,address⟩ := request
    simp [TaskColumns.value,mergeColumns]
  constructor
  · intro framed
    refine ⟨fun field nullable given => ?_,(request_law resolved).mp (ofRequest.mpr ⟨framed _,framed _⟩)⟩
    have other : field.ofRequest = false := by cases field <;> first | rfl | cases nullable
    exact (column_law current body request other).mp (framed field) nullable given
  · intro meets field
    cases other : field.ofRequest with
    | false => exact (column_law current body request other).mpr (meets.cleared field)
    | true =>
      have both := ofRequest.mp ((request_law resolved).mpr meets.request)
      cases field with
      | method => exact both.1
      | url => exact both.2
      | _ => cases other

/-- A call that finds the task and is accepted writes what it prepared over that
task and leaves the others. -/
theorem updateForOptionalOwner_ok {env : UpdateEnv} {templates : Templates} {tasks updated : Table TaskRow TaskRow.id}
    {id now : Int} {ownerId : Option Int} {input : UpdateTask}
    (called : updateForOptionalOwner env templates tasks id ownerId input now = .ok (some updated)) :
    ∃ row columns, tasks.find id = some row ∧
      prepareUpdate env templates ownerId (taskFromRow row) input = .ok columns ∧
      updated.find id = some (row.assign columns now) ∧
      ∀ other, other ≠ id → updated.find other = tasks.find other := by
  unfold updateForOptionalOwner at called
  cases found : tasks.rows.find? fun row => row.id = id && (ownerId.isNone || row.ownerId = ownerId) with
  | none =>
    rw [found] at called
    cases called
  | some row =>
    rw [found] at called
    obtain ⟨columns,prepared,done⟩ := bind_ok.mp called
    cases done
    have keyed : row.id = id := by
      have matched := List.find?_some found
      simp only [Bool.and_eq_true,decide_eq_true_eq] at matched
      exact matched.1
    have stored : tasks.find id = some row := (tasks.find_eq_some).mpr ⟨List.mem_of_find?_eq_some found,keyed⟩
    refine ⟨row,columns,stored,prepared,?_,fun other differs => ?_⟩
    · rw [Table.find_update,stored]
      simp [keyed]
    · rw [Table.find_update]
      cases there : tasks.find other with
      | none => rfl
      | some kept =>
        have otherwise : kept.id ≠ id := fun same => differs ((tasks.find_eq_some.mp there).2.symm.trans same)
        simp [otherwise]

/-- A call of the endpoint by one of two clients. -/
structure UpdateCall where
  ownerId : Option Int
  body : AcceptedBody
  now : Int

/-- Two calls for one task, each as a read of the row and a later write. -/
def updateStep (env : UpdateEnv) (templates : Templates) (calls : Bool → UpdateCall) :
    Writers.State TaskRow TaskColumns → Bool → Option (Writers.State TaskRow TaskColumns) :=
  Writers.step
    (fun writer row =>
      (prepareUpdate env templates (calls writer).ownerId (taskFromRow row) (calls writer).body.input).toOption)
    fun writer row columns => row.assign columns (calls writer).now

/-- Without a step in between, the two steps of a call are the call. -/
theorem updateForOptionalOwner_steps {env : UpdateEnv} {templates : Templates} {calls : Bool → UpdateCall}
    {writer : Bool} {tasks updated : Table TaskRow TaskRow.id} {id : Int} {row : TaskRow}
    (stored : tasks.find id = some row)
    (called : updateForOptionalOwner env templates tasks id (calls writer).ownerId (calls writer).body.input
      (calls writer).now = .ok (some updated)) :
    ∃ final, Transition.exec (updateStep env templates calls) (.start row) [writer,writer] = some final ∧
      updated.find id = some final.cell := by
  obtain ⟨found,columns,there,prepared,after,_⟩ := updateForOptionalOwner_ok called
  cases Option.some.inj (there.symm.trans stored)
  have ready := toOption_ok.mpr prepared
  let reading : Writers.Reading TaskRow TaskColumns := ⟨row,columns,false⟩
  let begun := (Writers.State.start row).move writer (.holding reading)
  have read : updateStep env templates calls (.start row) writer = some begun := by
    unfold updateStep Writers.step
    simp only [Writers.State.start,ready,Option.map_some]
    rfl
  have written : updateStep env templates calls begun writer =
      some (begun.write writer (row.assign columns (calls writer).now) reading) := by
    unfold updateStep Writers.step
    rw [Writers.move_self]
    rfl
  refine ⟨begun.write writer (row.assign columns (calls writer).now) reading,?_,after⟩
  simp only [Transition.exec,read,written,Option.bind_some]

/-- What an update left in the row it read is there as it wrote it. -/
theorem interleaved_updates_iff {env : UpdateEnv} {templates : Templates} {calls : Bool → UpdateCall}
    (disjoint : Change.Disjoint (calls false).body.change (calls true).body.change) {row : TaskRow}
    {actions : List Bool} {final : Writers.State TaskRow TaskColumns} {first : Bool}
    {one two : Writers.Reading TaskRow TaskColumns}
    (ran : Transition.exec (updateStep env templates calls) (.start row) actions = some final)
    (finished : Writers.Finished final first one two) :
    (((calls first).body.change.Framed one.seen.columns.value one.prepared.value ∧
        (calls !first).body.change.Framed two.seen.columns.value two.prepared.value) ∧
      ∀ writer, (calls writer).body.change.Present final.cell.columns.value) ↔
    (MeetsLaw env templates (calls first).ownerId one.seen (calls first).body ∧
      MeetsLaw env templates (calls !first).ownerId two.seen (calls !first).body) ∧
      (two.late = true ∨ (calls first).body.change.Present two.seen.columns.value) := by
  obtain ⟨early,second,cell⟩ := Writers.finished_run ran finished
  have apart : Change.Disjoint (calls first).body.change (calls !first).body.change := by
    cases first
    · exact disjoint
    · exact disjoint.symm
  rw [← prepareUpdate_framed_iff (toOption_ok.mp early.prepared),
    ← prepareUpdate_framed_iff (toOption_ok.mp second.prepared)]
  refine and_congr_right fun ⟨framedFirst,framedSecond⟩ => ?_
  have stored : final.cell.columns = two.prepared := by rw [cell]; rfl
  have kept := framedSecond.present_iff apart
  rw [stored]
  constructor
  · intro both
    exact Or.inr (kept.mp (both first))
  · intro reached
    have seen : (calls first).body.change.Present two.seen.columns.value := by
      rcases reached with late | there
      · rw [second.seen,if_pos late]
        exact framedFirst.present
      · exact there
    intro writer
    obtain rfl | same : writer = first ∨ writer = !first := by cases writer <;> cases first <;> simp
    · exact kept.mpr seen
    · subst writer
      exact framedSecond.present

/-- A call does what its body says exactly when no `null` stands for a column that
has a value and the request is kept, and two calls that change disjoint fields
are both there in the end exactly when, in addition, the one that writes second
has read what the other wrote. -/
theorem update_law_iff (env : UpdateEnv) (templates : Templates) :
    (∀ (tasks updated : Table TaskRow TaskRow.id) (id now : Int) (ownerId : Option Int) (body : AcceptedBody)
        (row after : TaskRow),
      updateForOptionalOwner env templates tasks id ownerId body.input now = .ok (some updated) →
      tasks.find id = some row → updated.find id = some after →
      (body.change.Framed row.columns.value after.columns.value ↔ MeetsLaw env templates ownerId row body)) ∧
    ∀ (calls : Bool → UpdateCall) (row : TaskRow) (actions : List Bool) (final : Writers.State TaskRow TaskColumns)
        (first : Bool) (one two : Writers.Reading TaskRow TaskColumns),
      Change.Disjoint (calls false).body.change (calls true).body.change →
      Transition.exec (updateStep env templates calls) (.start row) actions = some final →
      Writers.Finished final first one two →
      ((((calls first).body.change.Framed one.seen.columns.value one.prepared.value ∧
          (calls !first).body.change.Framed two.seen.columns.value two.prepared.value) ∧
        ∀ writer, (calls writer).body.change.Present final.cell.columns.value) ↔
      (MeetsLaw env templates (calls first).ownerId one.seen (calls first).body ∧
        MeetsLaw env templates (calls !first).ownerId two.seen (calls !first).body) ∧
        (two.late = true ∨ (calls first).body.change.Present two.seen.columns.value)) := by
  refine ⟨?_,fun calls row actions final first one two disjoint ran finished =>
    interleaved_updates_iff disjoint ran finished⟩
  intro tasks updated id now ownerId body row after called stored found
  obtain ⟨read,columns,there,prepared,wrote,_⟩ := updateForOptionalOwner_ok called
  cases Option.some.inj (there.symm.trans stored)
  cases Option.some.inj (wrote.symm.trans found)
  exact prepareUpdate_framed_iff prepared

/-- Libraries that accept what the samples below contain. -/
def sampleEnv : UpdateEnv where
  toUppercase := fun text => String.ofList (text.toList.map Char.toUpper)
  cronParses := fun schedule => schedule == "0 * * * * *"
  urlParses := fun url => (Text.stripPrefix url "https://").isSome
  timezoneParses := fun timezone => timezone == "UTC"
  debug := String.quote

def sampleTask (method : String) (grp : Option String) (id : Int) : TaskRow where
  id := id
  ownerId := some 1
  name := "sign in"
  cron := "0 * * * * *"
  method := method
  url := "https://example.invalid/"
  headers := .obj []
  body := none
  disabled := false
  createdAt := 0
  updatedAt := 0
  lastRunAt := none
  lastStatus := none
  lastError := none
  templateId := none
  grp := grp
  timeoutSeconds := none
  retryCount := none
  retryIntervalSeconds := none
  priority := 0
  timezone := none
  randomDelayMaxSeconds := 0
  vars := none

def sampleTasks (method : String) (grp : Option String) : Table TaskRow TaskRow.id :=
  Table.empty.insert (sampleTask method grp) fun _ => rfl

def noUpdate : UpdateTask where
  name := none
  cron := none
  method := none
  url := none
  headers := none
  body := none
  disabled := none
  templateId := none
  grp := none
  timeoutSeconds := none
  retryCount := none
  retryIntervalSeconds := none
  priority := none
  timezone := none
  randomDelayMaxSeconds := none
  vars := none

def clearGroup : AcceptedBody where
  json := .obj [("grp",.null)]
  fields := [("grp",.null)]
  input := noUpdate
  named := rfl
  decoded := rfl

def moveTo (url : String) : AcceptedBody where
  json := .obj [("url",.str url)]
  fields := [("url",.str url)]
  input := { noUpdate with url := some url }
  named := rfl
  decoded := rfl

def rename (name : String) : AcceptedBody where
  json := .obj [("name",.str name)]
  fields := [("name",.str name)]
  input := { noUpdate with name := some name }
  named := rfl
  decoded := rfl

def disable : AcceptedBody where
  json := .obj [("disabled",.bool true)]
  fields := [("disabled",.bool true)]
  input := { noUpdate with disabled := some true }
  named := rfl
  decoded := rfl

/-- One call renames the task and another disables it. -/
def sampleCalls (writer : Bool) : UpdateCall :=
  ⟨some 1,if writer then disable else rename "sign out",60⟩

theorem sampleCalls_disjoint : Change.Disjoint (sampleCalls false).body.change (sampleCalls true).body.change := by
  intro field
  cases field <;> first | exact Or.inl rfl | exact Or.inr rfl

/-- A group is not cleared, a method is reset by a URL, and one of two interleaved
calls is undone by the other. -/
theorem update_loses_changes :
    (∃ updated after, updateForOptionalOwner sampleEnv ⟨[],1⟩ (sampleTasks "GET" (some "work")) 1 (some 1)
        clearGroup.input 60 = .ok (some updated) ∧ updated.find 1 = some after ∧ after.grp = some "work") ∧
    (∃ updated after, updateForOptionalOwner sampleEnv ⟨[],1⟩ (sampleTasks "POST" none) 1 (some 1)
        (moveTo "https://example.invalid/b").input 60 = .ok (some updated) ∧ updated.find 1 = some after ∧
        after.method = "GET") ∧
    ∃ final, Transition.exec (updateStep sampleEnv ⟨[],1⟩ sampleCalls) (.start (sampleTask "GET" none 1))
        [false,true,false,true] = some final ∧ (∃ one two, Writers.Finished final false one two) ∧
      final.cell.disabled = true ∧ final.cell.name = "sign in" := by
  refine ⟨⟨_,_,rfl,rfl,rfl⟩,⟨_,_,rfl,rfl,rfl⟩,_,rfl,?_,?_⟩
  · exact ⟨_,_,rfl,rfl,rfl⟩
  · exact ⟨rfl,rfl⟩

/-- A body without a `null` that leaves the request alone. -/
theorem sample_meets {row : TaskRow} {body : AcceptedBody} (plain : ∀ field : TaskField,
      body.fields.get field.key ≠ some .null) (method : body.input.method = none) (url : body.input.url = none)
    (free : body.input.templateId = none) (unbound : row.templateId = none)
    (upper : sampleEnv.toUppercase row.method = row.method) (ownerId : Option Int) :
    MeetsLaw sampleEnv ⟨[],1⟩ ownerId row body := by
  refine ⟨fun field _ given => absurd given (plain field),?_⟩
  unfold RequestKept
  rw [mirroredRequest,free,unbound,method,url]
  exact ⟨upper,rfl⟩

theorem update_law_in_turn :
    (∃ updated after, updateForOptionalOwner sampleEnv ⟨[],1⟩ (sampleTasks "GET" none) 1 (some 1)
        (rename "sign out").input 60 = .ok (some updated) ∧ updated.find 1 = some after ∧
        (rename "sign out").change.Framed (sampleTask "GET" none 1).columns.value after.columns.value) ∧
    ∃ final, Transition.exec (updateStep sampleEnv ⟨[],1⟩ sampleCalls) (.start (sampleTask "GET" none 1))
        [false,false,true,true] = some final ∧
      ∀ writer, (sampleCalls writer).body.change.Present final.cell.columns.value := by
  have renamed (row : TaskRow) (unbound : row.templateId = none)
      (upper : sampleEnv.toUppercase row.method = row.method) :
      MeetsLaw sampleEnv ⟨[],1⟩ (some 1) row (rename "sign out") :=
    sample_meets (by intro field; cases field <;> exact nofun) rfl rfl rfl unbound upper _
  have disabled (row : TaskRow) (unbound : row.templateId = none)
      (upper : sampleEnv.toUppercase row.method = row.method) :
      MeetsLaw sampleEnv ⟨[],1⟩ (some 1) row disable :=
    sample_meets (by intro field; cases field <;> exact nofun) rfl rfl rfl unbound upper _
  constructor
  · obtain ⟨updated,called⟩ : ∃ updated, updateForOptionalOwner sampleEnv ⟨[],1⟩ (sampleTasks "GET" none) 1 (some 1)
      (rename "sign out").input 60 = .ok (some updated) := ⟨_,rfl⟩
    obtain ⟨row,columns,stored,_,after,_⟩ := updateForOptionalOwner_ok called
    obtain rfl : sampleTask "GET" none 1 = row := Option.some.inj stored
    refine ⟨updated,_,called,after,?_⟩
    exact ((update_law_iff sampleEnv ⟨[],1⟩).1 _ _ 1 60 (some 1) (rename "sign out") _ _ called stored after).mpr
      (renamed _ rfl rfl)
  · refine ⟨_,rfl,?_⟩
    have both := (update_law_iff sampleEnv ⟨[],1⟩).2 sampleCalls _ _ _ false _ _ sampleCalls_disjoint
      (show Transition.exec (updateStep sampleEnv ⟨[],1⟩ sampleCalls) (.start (sampleTask "GET" none 1))
        [false,false,true,true] = some _ from rfl) ⟨rfl,rfl,rfl⟩
    exact (both.mpr ⟨⟨renamed _ rfl rfl,disabled _ rfl rfl⟩,Or.inl rfl⟩).2

end Qdrust.Store
