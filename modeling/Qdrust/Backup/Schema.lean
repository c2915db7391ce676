import Mathlib.Data.List.Nodup
import Qdrust.Library.Utf8

/-! The tables of a backup and what the migrations say of them. A schema keeps of a bound
value what the affinity of the column makes of it. -/
namespace Qdrust.Backup

/-- The names in `BACKUP_TABLES`. -/
inductive TableName where
  | users | sessions | totpLoginChallenges | plugins | apiTokens | externalIdentities | notepads
  | notificationDefaultTemplates | emailVerificationTokens | passwordResetTokens | siteSettings | oidcLoginStates
  | templates | tasks | runs | runSteps | notificationDeliveries | notificationChannels | notificationActions
  | templateSubscriptions | templateImports | pushRequests | auditLogs
deriving DecidableEq

def TableName.name : TableName → String
  | .users => "users"
  | .sessions => "sessions"
  | .totpLoginChallenges => "totp_login_challenges"
  | .plugins => "plugins"
  | .apiTokens => "api_tokens"
  | .externalIdentities => "external_identities"
  | .notepads => "notepads"
  | .notificationDefaultTemplates => "notification_default_templates"
  | .emailVerificationTokens => "email_verification_tokens"
  | .passwordResetTokens => "password_reset_tokens"
  | .siteSettings => "site_settings"
  | .oidcLoginStates => "oidc_login_states"
  | .templates => "templates"
  | .tasks => "tasks"
  | .runs => "runs"
  | .runSteps => "run_steps"
  | .notificationDeliveries => "notification_deliveries"
  | .notificationChannels => "notification_channels"
  | .notificationActions => "notification_actions"
  | .templateSubscriptions => "template_subscriptions"
  | .templateImports => "template_imports"
  | .pushRequests => "push_requests"
  | .auditLogs => "audit_logs"

/-- Every table a backup carries, parents before children. -/
def backupTables : List TableName :=
  [.users,.sessions,.totpLoginChallenges,.plugins,.apiTokens,.externalIdentities,.notepads,
    .notificationDefaultTemplates,.emailVerificationTokens,.passwordResetTokens,.siteSettings,.oidcLoginStates,
    .templates,.tasks,.runs,.runSteps,.notificationDeliveries,.notificationChannels,.notificationActions,
    .templateSubscriptions,.templateImports,.pushRequests,.auditLogs]

theorem mem_backupTables (table : TableName) : table ∈ backupTables := by
  cases table <;> decide

theorem backupTables_nodup : backupTables.Nodup := by decide

theorem names_nodup : (backupTables.map TableName.name).Nodup := by decide +kernel

theorem name_injective {a b : TableName} (same : a.name = b.name) : a = b :=
  List.inj_on_of_nodup_map names_nodup (mem_backupTables a) (mem_backupTables b) same

/-- A cell, by its storage class. -/
inductive Cell where
  | null
  | integer (value : Int64)
  | real (value : Float)
  | text (value : String)
  | blob (bytes : List UInt8)

namespace Cell

def isNull : Cell → Bool
  | .null => true
  | _ => false

/-- Equality in a key, where nothing equals `NULL`. -/
def same : Cell → Cell → Bool
  | .integer a,.integer b => a == b
  | .real a,.real b => a == b
  | .text a,.text b => a == b
  | .blob a,.blob b => a == b
  | _,_ => false

def lower : Cell → Cell
  | .text value => .text value.toLower
  | cell => cell

end Cell

/-- A row as `SELECT *` reads it, with the names of its columns. -/
abbrev Row := List (String × Cell)

def Row.cell (row : Row) (column : String) : Cell := ((row.find? fun entry => entry.1 == column).map Prod.snd).getD .null

abbrev Db := TableName → List Row

def Db.empty : Db := fun _ => []

inductive Affinity where
  | integer
  | text

/-- Cells a column of the affinity keeps without a conversion. -/
def Affinity.holds : Affinity → Cell → Bool
  | _,.null | _,.blob _ => true
  | .integer,.integer _ => true
  | .text,.text _ => true
  | _,_ => false

structure Column where
  name : String
  affinity : Affinity
  required : Bool
  generated : Bool
  fallback : Cell

/-- A unique index. It may fold the case, and it may cover some rows only. -/
structure Key where
  columns : List String
  nocase : Bool
  covered : Row → Bool

/-- A foreign key, to the `id` of its parent. -/
structure Reference where
  column : String
  parent : TableName

structure TableSchema where
  columns : List Column
  allowed : List (String × List Cell)
  keys : List Key
  references : List Reference

def TableSchema.names (table : TableSchema) : List String := table.columns.map Column.name

/-- What the database is told of the tables, and what it does beyond: conversions, fresh
ids, and the rows it deletes or changes with those they refer to. A foreign key points to a
table that is loaded before. -/
structure Schema where
  table : TableName → TableSchema
  convert : Affinity → Cell → Cell
  fresh : TableName → Db → Cell
  sweep : TableName → Db → Option Db
  distinct : ∀ t, (table t).names.Nodup
  inhabited : ∀ t, (table t).columns ≠ []
  ordered : ∀ t, ∀ ref ∈ (table t).references, backupTables.idxOf ref.parent < backupTables.idxOf t

def Schema.keep (schema : Schema) (affinity : Affinity) (cell : Cell) : Cell :=
  if affinity.holds cell then cell else schema.convert affinity cell

/-- `NOT NULL` and `CHECK (column IN (..))`. -/
def TableSchema.sound (table : TableSchema) (row : Row) : Bool :=
  (table.columns.all fun column => !column.required || !(row.cell column.name).isNull) &&
    table.allowed.all fun check => (row.cell check.1).isNull || check.2.any fun cell => (row.cell check.1).same cell

def Key.clash (key : Key) (row other : Row) : Bool :=
  key.covered row && key.covered other && key.columns.all fun column =>
    if key.nocase then (row.cell column).lower.same (other.cell column).lower else (row.cell column).same (other.cell column)

/-- A row stands beside another under all unique keys. -/
def TableSchema.apart (table : TableSchema) (row other : Row) : Bool := table.keys.all fun key => !key.clash row other

def Db.has (db : Db) (row : Row) (ref : Reference) : Bool :=
  (row.cell ref.column).isNull || (db ref.parent).any fun parent => (row.cell ref.column).same (parent.cell "id")

/-- The tables hold what they would keep, and every constraint is met. -/
structure Schema.Satisfied (schema : Schema) (db : Db) : Prop where
  shape : ∀ t, ∀ row ∈ db t, row.map Prod.fst = (schema.table t).names
  kept : ∀ t, ∀ row ∈ db t, ∀ column ∈ (schema.table t).columns,
    schema.keep column.affinity (row.cell column.name) = row.cell column.name
  generated : ∀ t, ∀ row ∈ db t, ∀ column ∈ (schema.table t).columns, column.generated = true →
    (row.cell column.name).isNull = false
  sound : ∀ t, ∀ row ∈ db t, (schema.table t).sound row = true
  unique : ∀ t, (db t).Pairwise fun earlier row => (schema.table t).apart row earlier = true
  references : ∀ t, ∀ row ∈ db t, ∀ ref ∈ (schema.table t).references, db.has row ref = true

section Sqlite

def key : Column := ⟨"id",.integer,true,true,.null⟩
def integer (name : String) : Column := ⟨name,.integer,true,false,.null⟩
def integerOr (name : String) (value : Int64) : Column := ⟨name,.integer,true,false,.integer value⟩
def integer? (name : String) : Column := ⟨name,.integer,false,false,.null⟩
def text (name : String) : Column := ⟨name,.text,true,false,.null⟩
def textOr (name value : String) : Column := ⟨name,.text,true,false,.text value⟩
def text? (name : String) : Column := ⟨name,.text,false,false,.null⟩
def unique (columns : List String) : Key := ⟨columns,false,fun _ => true⟩
def oneOf (name : String) (values : List String) : String × List Cell := (name,values.map Cell.text)
def flag (name : String) : String × List Cell := (name,[.integer 0,.integer 1])

def byId : Key := unique ["id"]

/-- A table of hashed tokens. -/
def tokens : TableSchema where
  columns := [text? "token_hash",integer "user_id",integer "created_at",integer "expires_at"]
  allowed := []
  keys := [unique ["token_hash"]]
  references := [⟨"user_id",.users⟩]

def activeRun (row : Row) : Bool :=
  ["pending","leased","running"].any fun status => (row.cell "status").same (.text status)

/-- The tables after the SQLite migrations. -/
def sqliteTable : TableName → TableSchema
  | .users => {
    columns := [key,text "username",text "password_hash",textOr "role" "user",integerOr "disabled" 0,
      integerOr "session_version" 1,integer "created_at",integer "updated_at",text? "email",
      integerOr "email_verified" 0,textOr "avatar_id" "avatar-01",text? "totp_secret",integerOr "totp_enabled" 0,
      integer? "totp_confirmed_at"]
    allowed := [oneOf "role" ["admin","user"],flag "disabled"]
    keys := [byId,⟨["username"],true,fun _ => true⟩]
    references := [] }
  | .sessions => {
    columns := [text? "token_hash",integer "user_id",text "csrf_token_hash",integer "session_version",
      integer "created_at",integer "last_seen_at",integer "expires_at"]
    allowed := []
    keys := [unique ["token_hash"]]
    references := [⟨"user_id",.users⟩] }
  | .totpLoginChallenges => {
    columns := [key,integer "user_id",text "token_hash",integerOr "attempts" 0,integer "created_at",
      integer "expires_at"]
    allowed := []
    keys := [byId,unique ["token_hash"]]
    references := [⟨"user_id",.users⟩] }
  | .plugins => {
    columns := [key,integer "owner_id",text "name",text "command",textOr "config" "\x7b\x7d",integerOr "enabled" 1,
      integer "created_at",integer "updated_at"]
    allowed := [flag "enabled"]
    keys := [byId,unique ["owner_id","name"]]
    references := [⟨"owner_id",.users⟩] }
  | .apiTokens => {
    columns := [key,integer "user_id",text "name",text "token_hash",integer "created_at",integer? "last_used_at",
      integer? "expires_at"]
    allowed := []
    keys := [byId,unique ["token_hash"]]
    references := [⟨"user_id",.users⟩] }
  | .externalIdentities => {
    columns := [key,integer "user_id",text "provider",textOr "issuer" "",text "subject",text? "email",
      integer "created_at",integer "last_login_at"]
    allowed := []
    keys := [byId,unique ["provider","issuer","subject"]]
    references := [⟨"user_id",.users⟩] }
  | .notepads => {
    columns := [key,integer "owner_id",integer "notepad_id",text? "content",integer "updated_at"]
    allowed := []
    keys := [byId,unique ["owner_id","notepad_id"]]
    references := [⟨"owner_id",.users⟩] }
  | .notificationDefaultTemplates => {
    columns := [integer "owner_id",text "event",text? "title_template",text? "body_template",integer "updated_at"]
    allowed := [oneOf "event" ["success","failure"]]
    keys := [unique ["owner_id","event"]]
    references := [⟨"owner_id",.users⟩] }
  | .emailVerificationTokens => tokens
  | .passwordResetTokens => tokens
  | .siteSettings => {
    columns := [text? "key",text "value",integer "updated_at"]
    allowed := []
    keys := [unique ["key"]]
    references := [] }
  | .oidcLoginStates => {
    columns := [text? "state_hash",text "nonce_hash",text "pkce_verifier_encrypted",text "redirect_uri",
      integer "created_at",integer "expires_at"]
    allowed := []
    keys := [unique ["state_hash"]]
    references := [] }
  | .templates => {
    columns := [key,text "name",text? "description",integerOr "schema_version" 1,text "definition",
      integer "created_at",integer "updated_at",textOr "source_format" "native_v1",text? "source",integer? "owner_id",
      integerOr "published" 0,text? "grp"]
    allowed := [flag "published"]
    keys := [byId]
    references := [⟨"owner_id",.users⟩] }
  | .tasks => {
    columns := [key,integer? "template_id",text "name",text "cron",text "method",text "url",
      textOr "headers" "\x7b\x7d",text? "body",integerOr "disabled" 0,integer "created_at",integer "updated_at",
      integer? "last_run_at",integer? "last_status",text? "last_error",integer? "owner_id",text? "grp",
      integer? "timeout_seconds",integer? "retry_count",integer? "retry_interval_seconds",integerOr "priority" 0,
      text? "timezone",text? "variables",integerOr "random_delay_max_seconds" 0]
    allowed := [flag "disabled"]
    keys := [byId]
    references := [⟨"template_id",.templates⟩,⟨"owner_id",.users⟩] }
  | .runs => {
    columns := [key,integer "task_id",text "status",integer? "http_status",text? "error",integer? "started_at",
      integer? "finished_at",integer "created_at",text? "lease_owner",integer? "lease_expires_at",
      integerOr "attempt" 0,integerOr "cancel_requested" 0,integer? "run_after",integer? "retry_of",text? "log",
      textOr "trigger" "scheduled",text? "failure_trace"]
    allowed := [oneOf "status" ["pending","leased","running","succeeded","failed","cancelled"],
      flag "cancel_requested"]
    keys := [byId,⟨["task_id"],false,activeRun⟩]
    references := [⟨"task_id",.tasks⟩] }
  | .runSteps => {
    columns := [key,integer "run_id",integer "step_index",text "name",text "status",integer? "http_status",
      integerOr "body_size" 0,text? "error",integer "started_at",integer "finished_at"]
    allowed := [oneOf "status" ["succeeded","failed"]]
    keys := [byId,unique ["run_id","step_index"]]
    references := [⟨"run_id",.runs⟩] }
  | .notificationDeliveries => {
    columns := [key,integer "run_id",integer "task_id",integer? "action_id",integer? "channel_id",text "channel_kind",
      text "event",integerOr "attempt" 1,text "status",integer? "http_status",text? "error",integer "created_at"]
    allowed := [oneOf "status" ["succeeded","failed"]]
    keys := [byId]
    references := [⟨"run_id",.runs⟩] }
  | .notificationChannels => {
    columns := [key,integer "owner_id",text "name",text "kind",text "config",integerOr "enabled" 1,
      integer "created_at",integer "updated_at"]
    allowed := [oneOf "kind" ["webhook","email","bark","serverchan","telegram","dingtalk","wxpusher","wxpusher_spt",
      "wecom_app","wecom_webhook","custom_http"],flag "enabled"]
    keys := [byId]
    references := [⟨"owner_id",.users⟩] }
  | .notificationActions => {
    columns := [key,integer "task_id",integer "channel_id",text "event",integer "created_at",
      integerOr "failure_threshold" 1,integerOr "automatic_only" 0,text? "title_template",text? "body_template"]
    allowed := [oneOf "event" ["success","failure","always"]]
    keys := [byId,unique ["task_id","channel_id","event"]]
    references := [⟨"task_id",.tasks⟩,⟨"channel_id",.notificationChannels⟩] }
  | .templateSubscriptions => {
    columns := [key,integer "owner_id",text "name",text "url",integerOr "enabled" 1,integer "created_at",
      integer "updated_at"]
    allowed := [flag "enabled"]
    keys := [byId]
    references := [⟨"owner_id",.users⟩] }
  | .templateImports => {
    columns := [key,integer "subscription_id",integer "template_id",text "entry_name",text? "entry_version",
      text? "source_url",integer "imported_at",integer "updated_at"]
    allowed := []
    keys := [byId,unique ["subscription_id","entry_name"]]
    references := [⟨"subscription_id",.templateSubscriptions⟩,⟨"template_id",.templates⟩] }
  | .pushRequests => {
    columns := [key,integer "owner_id",integer "template_id",textOr "status" "pending",text? "note",
      integer? "reviewed_by",integer? "reviewed_at",integer "created_at"]
    allowed := [oneOf "status" ["pending","approved","rejected"]]
    keys := [byId]
    references := [⟨"owner_id",.users⟩,⟨"template_id",.templates⟩,⟨"reviewed_by",.users⟩] }
  | .auditLogs => {
    columns := [key,integer? "actor_user_id",text "action",text? "resource_type",integer? "resource_id",
      text? "request_id",textOr "details" "\x7b\x7d",integer "created_at"]
    allowed := []
    keys := [byId]
    references := [⟨"actor_user_id",.users⟩] }

/-- SQLite, given its conversions, its ids and what its foreign keys do. -/
def sqlite (convert : Affinity → Cell → Cell) (fresh : TableName → Db → Cell) (sweep : TableName → Db → Option Db) :
    Schema where
  table := sqliteTable
  convert := convert
  fresh := fresh
  sweep := sweep
  distinct t := by cases t <;> decide +kernel
  inhabited t := by cases t <;> simp [sqliteTable,tokens]
  ordered t := by
    cases t <;> simp only [sqliteTable,tokens,List.forall_mem_cons,List.not_mem_nil,false_implies,implies_true,and_true] <;>
      decide +kernel

end Sqlite

end Qdrust.Backup
