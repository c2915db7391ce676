import Mathlib.Logic.Function.Basic
import Qdrust.Backup.Schema
import Qdrust.Library.Effect

/-! Export of all tables to one JSON document, and the import that replaces all tables by
those of a document, in one transaction. -/
namespace Qdrust.Backup
open Library

inductive JsonValue where
  | null
  | bool (value : Bool)
  | integer (value : Int)
  | float (value : Float)
  | string (value : String)
  | array (items : List JsonValue)
  | object (fields : List (String × JsonValue))

namespace JsonValue

def asI64 : JsonValue → Option Int64
  | .integer value =>
    if Int64.minValue.toInt ≤ value ∧ value ≤ Int64.maxValue.toInt then some (Int64.ofInt value) else none
  | _ => none

def asF64 : JsonValue → Option Float
  | .integer value => some (Float.ofInt value)
  | .float value => some value
  | _ => none

def asObject : JsonValue → Option (List (String × JsonValue))
  | .object fields => some fields
  | _ => none

def asArray : JsonValue → Option (List JsonValue)
  | .array items => some items
  | _ => none

/-- A float that is not finite is no JSON number. -/
def ofF64 (value : Float) : JsonValue := if value.isFinite then .float value else .null

end JsonValue

def field (fields : List (String × JsonValue)) (name : String) : Option JsonValue :=
  (fields.find? fun entry => entry.1 == name).map Prod.snd

namespace Cell

/-- `try_get` with the type of the name: a cell of another class is an error. -/
def tryI64 : Cell → Option (Option Int64)
  | .null => some none
  | .integer value => some (some value)
  | _ => none

def tryF64 : Cell → Option (Option Float)
  | .null => some none
  | .real value => some (some value)
  | _ => none

def tryString : Cell → Option (Option String)
  | .null => some none
  | .text value => some (some value)
  | _ => none

def tryBytes : Cell → Option (Option (List UInt8))
  | .null => some none
  | .blob bytes => some (some bytes)
  | _ => none

def exported (cell : Cell) : JsonValue :=
  match cell.tryI64 with
  | some value => (value.map fun number => .integer number.toInt).getD .null
  | none =>
    match cell.tryF64 with
    | some value => (value.map JsonValue.ofF64).getD .null
    | none =>
      match cell.tryString with
      | some value => (value.map JsonValue.string).getD .null
      | none =>
        match cell.tryBytes with
        | some value => (value.map fun bytes => .string (String.ofList (Utf8.lossy bytes))).getD .null
        | none => .null

/-- Cells that a JSON document carries as they are. -/
def portable : Cell → Bool
  | .real value => value.isFinite
  | .blob _ => false
  | _ => true

end Cell

def exportRow (row : Row) : JsonValue := .object (row.map fun entry => (entry.1,entry.2.exported))

def exportData (db : Db) (now : Int64) : JsonValue :=
  .object (("schema_version",.integer 1) :: ("exported_at",.integer now.toInt) ::
    backupTables.map fun table => (table.name,.array ((db table).map exportRow)))

/-- The value bound for a JSON value. `print` writes nested ones. -/
def bound (print : JsonValue → String) : JsonValue → Cell
  | .null => .null
  | .integer value =>
    match (JsonValue.integer value).asI64 with
    | some number => .integer number
    | none => ((JsonValue.integer value).asF64.map Cell.real).getD .null
  | .float value => .real value
  | .string value => .text value
  | .bool value => .integer (if value then 1 else 0)
  | other => .text (print other)

namespace Schema

variable (schema : Schema)

/-- What a column of a new row holds, for the value bound to it if there is one. -/
def stored (t : TableName) (db : Db) (column : Column) (value : Option Cell) : Cell :=
  let kept := schema.keep column.affinity (value.getD column.fallback)
  if column.generated && kept.isNull then schema.fresh t db else kept

/-- `INSERT INTO table(columns) VALUES(..)`. -/
def insert (t : TableName) (bindings : List (String × Cell)) (db : Db) : Option Db :=
  if bindings.all fun binding => (schema.table t).names.contains binding.1 then
    let row : Row := (schema.table t).columns.map fun column =>
      (column.name,schema.stored t db column ((bindings.find? fun binding => binding.1 == column.name).map Prod.snd))
    if (schema.table t).sound row && (db t).all ((schema.table t).apart row) &&
        (schema.table t).references.all (db.has row) then
      some (Function.update db t (db t ++ [row]))
    else none
  else none

/-- Some row of a table that refers to this one is there. -/
def referred (db : Db) (t : TableName) : Bool :=
  backupTables.any fun child => !(db child).isEmpty && (schema.table child).references.any fun ref => ref.parent == t

/-- `DELETE FROM table`. -/
def clear (t : TableName) (db : Db) : Option Db :=
  let rest := Function.update db t []
  if schema.referred db t then schema.sweep t rest else some rest

end Schema

inductive ImportError where
  | message (text : String)
  | database
deriving DecidableEq

/-- What others see, what the transaction sees, and how many statements were sent. -/
structure Session where
  committed : Db
  working : Db
  sent : Nat

section Import

variable (schema : Schema) (print : JsonValue → String) (broken : Nat → Bool)

/-- A statement of the transaction. It may fail for reasons of its own, where `broken` says so. -/
def statement (run : Db → Option Db) : Effect ImportError Session Unit := fun session =>
  match if broken session.sent then none else run session.working with
  | some db => (.ok (),{ session with working := db, sent := session.sent + 1 })
  | none => (.error .database,{ session with sent := session.sent + 1 })

def openTransaction : Effect ImportError Session Unit := fun session =>
  if broken session.sent then (.error .database,{ session with sent := session.sent + 1 })
  else (.ok (),{ session with working := session.committed, sent := session.sent + 1 })

def commit : Effect ImportError Session Unit := fun session =>
  if broken session.sent then (.error .database,{ session with sent := session.sent + 1 })
  else (.ok (),{ session with committed := session.working, sent := session.sent + 1 })

/-- The values of a row for the columns of the first one. -/
def bindings (columns : List String) (row : List (String × JsonValue)) : List (String × Cell) :=
  columns.map fun column => (column,bound print ((field row column).getD .null))

def importRow (t : TableName) (columns : List String) (row : JsonValue) : Effect ImportError Session Unit :=
  match row.asObject with
  | some fields => statement broken (schema.insert t (bindings print columns fields))
  | none => pure ()

def importTable (object : List (String × JsonValue)) (t : TableName) : Effect ImportError Session Unit :=
  match (field object t.name).bind JsonValue.asArray with
  | some (first :: rest) =>
    let columns := (first.asObject.map fun fields => fields.map Prod.fst).getD []
    if columns.isEmpty then pure () else Effect.each (importRow schema print broken t columns) (first :: rest)
  | _ => pure ()

def validate (backup : JsonValue) : Except ImportError (List (String × JsonValue)) :=
  match backup.asObject with
  | none => .error (.message "backup must be a JSON object of tables")
  | some object =>
    let version := ((field object "schema_version").bind JsonValue.asI64).getD 0
    if version == 1 then .ok object
    else .error (.message ("unsupported backup schema_version " ++ toString version ++ " (expected 1)"))

def load (backup : JsonValue) : Effect ImportError Session Unit := do
  let object ← Effect.lift (validate backup)
  openTransaction broken
  Effect.each (fun t => statement broken (schema.clear t)) backupTables.reverse
  Effect.each (importTable schema print broken object) backupTables

def importData (backup : JsonValue) : Effect ImportError Session Unit := do
  load schema print broken backup
  commit broken

/-- The result of an import and what it leaves. What is not committed is rolled back. -/
def restore (backup : JsonValue) (dest : Db) : Except ImportError Unit × Db :=
  let after := importData schema print broken backup ⟨dest,dest,0⟩
  (after.1,after.2.committed)

end Import

section Cells

theorem asI64_integer (value : Int64) : (JsonValue.integer value.toInt).asI64 = some value := by
  have low := Int64.minValue_le_toInt value
  have high := Int64.toInt_le value
  simp only [JsonValue.asI64]
  rw [if_pos ⟨low,high⟩,Int64.ofInt_toInt]

/-- What is exported is bound as it was. -/
theorem bound_exported (print : JsonValue → String) {cell : Cell} (carried : cell.portable = true) :
    bound print cell.exported = cell := by
  cases cell with
  | null => rfl
  | integer value =>
    change bound print (.integer value.toInt) = _
    rw [bound,asI64_integer]
  | real value =>
    change bound print (JsonValue.ofF64 value) = _
    rw [JsonValue.ofF64,if_pos (show value.isFinite = true from carried)]
    rfl
  | text value => rfl
  | blob bytes => cases carried

theorem cell_of_mem {row : Row} (distinct : (row.map Prod.fst).Nodup) {entry : String × Cell} (member : entry ∈ row) :
    row.cell entry.1 = entry.2 := by
  induction row with
  | nil => cases member
  | cons head rest ih =>
    obtain ⟨fresh,distinct⟩ := List.nodup_cons.mp distinct
    rcases List.mem_cons.mp member with rfl | member
    · simp [Row.cell]
    · have other : (head.1 == entry.1) = false := by
        rw [beq_eq_false_iff_ne]
        rintro same
        exact fresh (same ▸ List.mem_map_of_mem member)
      rw [← ih distinct member]
      simp [Row.cell,other]

/-- A row is the list of its cells. -/
theorem row_eq {row : Row} (distinct : (row.map Prod.fst).Nodup) :
    row = (row.map Prod.fst).map fun column => (column,row.cell column) := by
  rw [List.map_map]
  conv_lhs => rw [← List.map_id row]
  refine List.map_congr_left fun entry member => ?_
  simp [cell_of_mem distinct member]

theorem field_exported (row : Row) (column : String) :
    field (row.map fun entry => (entry.1,entry.2.exported)) column =
      (row.find? fun entry => entry.1 == column).map fun entry => entry.2.exported := by
  simp [field,List.find?_map,Function.comp_def]

theorem find_cell {row : Row} {column : String} (listed : column ∈ row.map Prod.fst) :
    ∃ entry ∈ row, row.find? (fun entry => entry.1 == column) = some entry ∧ row.cell column = entry.2 := by
  obtain ⟨entry,found⟩ : ∃ entry, row.find? (fun entry => entry.1 == column) = some entry := by
    rw [← Option.isSome_iff_exists,List.find?_isSome]
    obtain ⟨entry,inside,same⟩ := List.mem_map.mp listed
    exact ⟨entry,inside,beq_iff_eq.mpr same⟩
  exact ⟨entry,List.mem_of_find?_eq_some found,found,by simp [Row.cell,found]⟩

theorem find_bindings (print : JsonValue → String) (fields : List (String × JsonValue)) {columns : List String}
    {column : String} (listed : column ∈ columns) :
    ((bindings print columns fields).find? fun binding => binding.1 == column).map Prod.snd =
      some (bound print ((field fields column).getD .null)) := by
  induction columns with
  | nil => cases listed
  | cons head rest ih =>
    by_cases same : head = column
    · simp [bindings,same]
    · have other : (head == column) = false := beq_eq_false_iff_ne.mpr same
      have later := ih ((List.mem_cons.mp listed).resolve_left (Ne.symm same))
      simpa [bindings,other] using later

end Cells

/-- The statements go through and take the transaction from one state to the next. -/
def Runs (effect : Effect ImportError Session Unit) (before after : Db) : Prop :=
  ∀ committed sent, ∃ sent', effect ⟨committed,before,sent⟩ = (.ok (),⟨committed,after,sent'⟩)

section Runs

variable {α : Type} {a b c : Db}

theorem runs_pure : Runs (pure ()) a a := fun _ sent => ⟨sent,rfl⟩

theorem runs_bind {first : Effect ImportError Session Unit} {next : Unit → Effect ImportError Session Unit}
    (before : Runs first a b) (after : ∀ value, Runs (next value) b c) : Runs (first >>= next) a c := by
  intro committed sent
  obtain ⟨sent₁,ran₁⟩ := before committed sent
  obtain ⟨sent₂,ran₂⟩ := after () committed sent₁
  exact ⟨sent₂,Effect.bind_ok.mpr ⟨(),_,ran₁,ran₂⟩⟩

theorem runs_statement {run : Db → Option Db} (ran : run a = some b) : Runs (statement (fun _ => false) run) a b := by
  intro committed sent
  refine ⟨sent + 1,?_⟩
  simp [statement,ran]

/-- A loop, where each round takes the state of the items before it to that of one more. -/
theorem runs_each {body : α → Effect ImportError Session Unit} (state : List α → Db) (items : List α)
    (step : ∀ earlier item rest, items = earlier ++ item :: rest →
      Runs (body item) (state earlier) (state (earlier ++ [item]))) :
    Runs (Effect.each body items) (state []) (state items) := by
  have from' : ∀ rest earlier, items = earlier ++ rest → Runs (Effect.each body rest) (state earlier) (state items) := by
    intro rest
    induction rest with
    | nil =>
      rintro earlier rfl
      rw [List.append_nil]
      exact runs_pure
    | cons item rest ih =>
      intro earlier split
      exact runs_bind (step earlier item rest split) fun _ => ih (earlier ++ [item]) (by simp [split])
  exact from' items [] rfl

end Runs

section RoundTrip

variable {schema : Schema} {print : JsonValue → String} {db : Db}

/-- Where a table of the list stands, as seen from another. -/
theorem mem_later {α : Type} [DecidableEq α] {front back : List α} {x y : α} (fresh : x ∉ front)
    (member : y ∈ front ++ x :: back) (later : (front ++ x :: back).idxOf x < (front ++ x :: back).idxOf y) : y ∈ back := by
  rw [List.idxOf_append_of_notMem fresh,List.idxOf_cons_self] at later
  rcases List.mem_append.mp member with inside | after
  · rw [List.idxOf_append_of_mem inside] at later
    have bound := List.idxOf_lt_length_of_mem inside
    omega
  · rcases List.mem_cons.mp after with rfl | after
    · rw [List.idxOf_append_of_notMem fresh,List.idxOf_cons_self] at later
      omega
    · exact after

theorem mem_earlier {α : Type} [DecidableEq α] {front back : List α} {x y : α} (fresh : x ∉ front)
    (earlier : (front ++ x :: back).idxOf y < (front ++ x :: back).idxOf x) : y ∈ front := by
  by_contra outside
  rw [List.idxOf_append_of_notMem fresh,List.idxOf_append_of_notMem outside,List.idxOf_cons_self] at earlier
  omega

/-- The transaction after some tables were cleared. -/
def cleared (dest : Db) (done : List TableName) : Db := fun t => if t ∈ done then [] else dest t

/-- The transaction after some tables were loaded. -/
def loaded (db : Db) (done : List TableName) : Db := fun t => if t ∈ done then db t else []

theorem runs_clear (schema : Schema) (dest : Db) :
    Runs (Effect.each (fun t => statement (fun _ => false) (schema.clear t)) backupTables.reverse) dest Db.empty := by
  have whole : cleared dest backupTables.reverse = Db.empty := by
    funext t
    exact if_pos (List.mem_reverse.mpr (mem_backupTables t))
  have start : cleared dest [] = dest := by
    funext t
    exact if_neg (List.not_mem_nil)
  rw [← whole]
  conv => enter [2]; rw [← start]
  refine runs_each (cleared dest) _ fun earlier t rest split => runs_statement ?_
  -- what refers to the table comes after it in the list, and was cleared before
  have order : backupTables = rest.reverse ++ t :: earlier.reverse := by
    have reversed := congrArg List.reverse split
    simpa using reversed
  have fresh : t ∉ rest.reverse := by
    have distinct := backupTables_nodup
    rw [order] at distinct
    exact fun inside => List.disjoint_of_nodup_append distinct inside (List.mem_cons_self ..)
  have alone : schema.referred (cleared dest earlier) t = false := by
    rw [Schema.referred,List.any_eq_false]
    intro child listed
    rw [Bool.and_eq_true,not_and,List.any_eq_true]
    rintro filled ⟨ref,refers,same⟩
    have later := schema.ordered child ref refers
    rw [eq_of_beq same] at later
    have gone : child ∈ earlier := by
      rw [order] at later listed
      exact List.mem_reverse.mp (mem_later fresh listed later)
    simp [cleared,gone] at filled
  simp only [Schema.clear,alone,Bool.false_eq_true,if_false,Option.some.injEq]
  funext other
  by_cases same : other = t
  · subst same
    simp [cleared]
  · simp [cleared,same]

/-- A row that satisfies the schema is stored as it was exported. -/
theorem stored_row (satisfied : schema.Satisfied db) {t : TableName} {row : Row} (member : row ∈ db t)
    (carried : ∀ entry ∈ row, entry.2.portable = true) (now : Db) :
    (schema.table t).columns.map (fun column => (column.name,schema.stored t now column
      (((bindings print (schema.table t).names (row.map fun entry => (entry.1,entry.2.exported))).find?
        fun binding => binding.1 == column.name).map Prod.snd))) = row := by
  have shape := satisfied.shape t row member
  have distinct : (row.map Prod.fst).Nodup := shape ▸ schema.distinct t
  conv_rhs => rw [row_eq distinct,shape,TableSchema.names,List.map_map]
  refine List.map_congr_left fun column listed => ?_
  have named : column.name ∈ (schema.table t).names := List.mem_map_of_mem listed
  have there : column.name ∈ row.map Prod.fst := shape ▸ named
  obtain ⟨entry,inside,found,cell⟩ := find_cell there
  rw [find_bindings print _ named,field_exported,found,Option.map_some,Option.getD_some,
    bound_exported print (carried entry inside),← cell]
  simp only [Schema.stored,Option.getD_some,satisfied.kept t row member column listed,Function.comp_apply,Prod.mk.injEq,
    true_and]
  refine if_neg fun missing => ?_
  rw [Bool.and_eq_true] at missing
  rw [satisfied.generated t row member column listed missing.1] at missing
  cases missing.2

/-- A row goes in after those before it, once the tables it refers to are there. -/
theorem insert_row (satisfied : schema.Satisfied db) {t : TableName} {earlier rest : List Row} {row : Row}
    (split : db t = earlier ++ row :: rest) (carried : ∀ entry ∈ row, entry.2.portable = true) {now : Db}
    (here : now t = earlier) (parents : ∀ ref ∈ (schema.table t).references, now ref.parent = db ref.parent) :
    schema.insert t (bindings print (schema.table t).names (row.map fun entry => (entry.1,entry.2.exported))) now =
      some (Function.update now t (earlier ++ [row])) := by
  have member : row ∈ db t := by simp [split]
  have known : (bindings print (schema.table t).names (row.map fun entry => (entry.1,entry.2.exported))).all
      (fun binding => (schema.table t).names.contains binding.1) = true := by
    rw [List.all_eq_true]
    intro binding bound
    obtain ⟨column,listed,rfl⟩ := List.mem_map.mp bound
    exact List.contains_iff_mem.mpr listed
  have apart : (now t).all ((schema.table t).apart row) = true := by
    rw [here,List.all_eq_true]
    intro other before
    have pairs := satisfied.unique t
    rw [split,List.pairwise_append] at pairs
    exact pairs.2.2 other before row (List.mem_cons_self ..)
  have references : (schema.table t).references.all (now.has row) = true := by
    rw [List.all_eq_true]
    intro ref refers
    have there := satisfied.references t row member ref refers
    rw [Db.has,← parents ref refers] at there
    exact there
  unfold Schema.insert
  rw [if_pos known]
  dsimp only
  rw [stored_row satisfied member carried now,satisfied.sound t row member,apart,references,here]
  rfl

theorem each_map {α β : Type} (body : β → Effect ImportError Session Unit) (f : α → β) (items : List α) :
    Effect.each body (items.map f) = Effect.each (fun item => body (f item)) items := by
  induction items with
  | nil => rfl
  | cons item rest ih => rw [List.map_cons,Effect.each,Effect.each,ih]

/-- No field beside the tables is named as one. -/
theorem name_apart (t : TableName) : ("schema_version" == t.name) = false ∧ ("exported_at" == t.name) = false := by
  cases t <;> decide

/-- Among the fields of tables each is found by its name. -/
theorem field_named (f : TableName → JsonValue) {t : TableName} {tables : List TableName} (there : t ∈ tables) :
    field (tables.map fun table => (table.name,f table)) t.name = some (f t) := by
  induction tables with
  | nil => cases there
  | cons table rest ih =>
    by_cases same : table = t
    · rw [same]
      simp only [field,List.map_cons,List.find?_cons,beq_self_eq_true,Option.map_some]
    · have apart : (table.name == t.name) = false := beq_false_of_ne fun equal => same (name_injective equal)
      simp only [field,List.map_cons,List.find?_cons,apart]
      exact ih ((List.mem_cons.mp there).resolve_left (Ne.symm same))

theorem field_table (db : Db) (now : Int64) (t : TableName) :
    field (("schema_version",.integer 1) :: ("exported_at",.integer now.toInt) ::
      backupTables.map fun table => (table.name,.array ((db table).map exportRow))) t.name =
      some (.array ((db t).map exportRow)) := by
  obtain ⟨version,exported⟩ := name_apart t
  simp only [field,List.find?_cons,version,exported]
  exact field_named (fun table => .array ((db table).map exportRow)) (mem_backupTables t)

/-- A table is loaded once its parents are. -/
theorem runs_importTable (satisfied : schema.Satisfied db)
    (carried : ∀ t, ∀ row ∈ db t, ∀ entry ∈ row, entry.2.portable = true) {object : List (String × JsonValue)}
    {earlier later : List TableName} {t : TableName} (split : backupTables = earlier ++ t :: later)
    (there : field object t.name = some (.array ((db t).map exportRow))) :
    Runs (importTable schema print (fun _ => false) object t) (loaded db earlier) (loaded db (earlier ++ [t])) := by
  have fresh : t ∉ earlier := by
    have distinct := backupTables_nodup
    rw [split] at distinct
    exact fun inside => List.disjoint_of_nodup_append distinct inside (List.mem_cons_self ..)
  have whole : loaded db (earlier ++ [t]) = Function.update (loaded db earlier) t (db t) := by
    funext other
    by_cases same : other = t
    · subst same
      simp [loaded]
    · simp [loaded,same]
  rw [whole,importTable,there]
  cases rows : db t with
  | nil =>
    have nothing : Function.update (loaded db earlier) t [] = loaded db earlier := by
      rw [Function.update_eq_self_iff]
      exact (if_neg fresh).symm
    rw [nothing]
    exact runs_pure
  | cons first rest =>
    have columns : ((exportRow first).asObject.map fun fields => fields.map Prod.fst).getD [] = (schema.table t).names := by
      rw [← satisfied.shape t first (by simp [rows])]
      simp [exportRow,JsonValue.asObject]
    have some' : (schema.table t).names.isEmpty = false := by
      simpa [TableSchema.names] using schema.inhabited t
    simp only [List.map_cons,Option.bind_some,JsonValue.asArray,columns,some',Bool.false_eq_true,if_false]
    rw [← List.map_cons,← rows,each_map]
    have start : Function.update (loaded db earlier) t [] = loaded db earlier := by
      rw [Function.update_eq_self_iff]
      exact (if_neg fresh).symm
    conv => enter [2]; rw [← start]
    refine runs_each (fun done => Function.update (loaded db earlier) t done) _ fun before row after cut => ?_
    refine runs_statement ?_
    rw [insert_row satisfied cut (carried t row (by simp [cut])) (Function.update_self ..)]
    · rw [Function.update_idem]
    · intro ref refers
      have order := schema.ordered t ref refers
      rw [split] at order
      have loadedBefore := mem_earlier fresh order
      have other : ref.parent ≠ t := by
        rintro rfl
        exact fresh loadedBefore
      rw [Function.update_of_ne other]
      exact if_pos loadedBefore

theorem validate_exported (db : Db) (now : Int64) : validate (exportData db now) =
    .ok (("schema_version",.integer 1) :: ("exported_at",.integer now.toInt) ::
      backupTables.map fun table => (table.name,.array ((db table).map exportRow))) := rfl

theorem importData_exported (satisfied : schema.Satisfied db)
    (carried : ∀ t, ∀ row ∈ db t, ∀ entry ∈ row, entry.2.portable = true) (now : Int64) (dest : Db) :
    restore schema print (fun _ => false) (exportData db now) dest = (.ok (),db) := by
  have whole : loaded db backupTables = db := by
    funext t
    exact if_pos (mem_backupTables t)
  have start : loaded db [] = Db.empty := by
    funext t
    exact if_neg List.not_mem_nil
  have loads := runs_each (loaded db) backupTables fun earlier t later split =>
    (runs_importTable satisfied carried split (field_table db now t) : Runs (importTable schema print _ _ t) _ _)
  rw [whole,start] at loads
  obtain ⟨sent,ran⟩ := runs_bind (runs_clear schema dest) (fun _ => loads) dest 1
  have imported : importData schema print (fun _ => false) (exportData db now) ⟨dest,dest,0⟩ =
      (.ok (),⟨db,db,sent + 1⟩) := by
    refine Effect.bind_ok.mpr ⟨(),⟨dest,db,sent⟩,?_,rfl⟩
    rw [load,validate_exported]
    exact ran
  rw [restore,imported]

end RoundTrip

section Atomic

variable {schema : Schema} {print : JsonValue → String} {broken : Nat → Bool}

/-- Before the commit nothing is seen by others. -/
def Unseen (before after : Session) : Prop := after.committed = before.committed

theorem unseen_refl (session : Session) : Unseen session session := rfl

theorem unseen_trans (a b c : Session) (first : Unseen a b) (second : Unseen b c) : Unseen a c := second.trans first

theorem unseen_statement (run : Db → Option Db) : Effect.Moves Unseen (statement broken run) := by
  intro session
  unfold statement
  split <;> rfl

theorem unseen_open : Effect.Moves Unseen (openTransaction broken) := by
  intro session
  unfold openTransaction
  split <;> rfl

theorem unseen_importRow (t : TableName) (columns : List String) (row : JsonValue) :
    Effect.Moves Unseen (importRow schema print broken t columns row) := by
  unfold importRow
  split
  · exact unseen_statement _
  · exact Effect.moves_pure unseen_refl ()

theorem unseen_importTable (object : List (String × JsonValue)) (t : TableName) :
    Effect.Moves Unseen (importTable schema print broken object t) := by
  unfold importTable
  split
  · dsimp only
    split
    · exact Effect.moves_pure unseen_refl ()
    · exact Effect.moves_each unseen_refl unseen_trans _ fun row _ => unseen_importRow t _ row
  · exact Effect.moves_pure unseen_refl ()

theorem unseen_load (backup : JsonValue) : Effect.Moves Unseen (load schema print broken backup) := by
  refine Effect.moves_bind unseen_trans (Effect.moves_lift unseen_refl _) fun object => ?_
  refine Effect.moves_bind unseen_trans unseen_open fun _ => ?_
  refine Effect.moves_bind unseen_trans ?_ fun _ => ?_
  · exact Effect.moves_each unseen_refl unseen_trans _ fun t _ => unseen_statement _
  · exact Effect.moves_each unseen_refl unseen_trans _ fun t _ => unseen_importTable object t

theorem commit_failed {session : Session} {error : ImportError} (failed : (commit broken session).1 = .error error) :
    (commit broken session).2.committed = session.committed := by
  unfold commit at failed ⊢
  split at failed
  next stops => rw [if_pos stops]
  next => cases failed

/-- A transaction that fails, wherever it does, is rolled back. -/
theorem restore_failed {backup : JsonValue} {dest : Db} {error : ImportError}
    (failed : (restore schema print broken backup dest).1 = .error error) :
    (restore schema print broken backup dest).2 = dest := by
  have moves : Effect.Moves Unseen (load schema print broken backup) := unseen_load backup
  have unseen := moves ⟨dest,dest,0⟩
  simp only [restore] at failed ⊢
  change (Effect.bind (load schema print broken backup) (fun _ => commit broken) ⟨dest,dest,0⟩).1 = _ at failed
  change (Effect.bind (load schema print broken backup) (fun _ => commit broken) ⟨dest,dest,0⟩).2.committed = dest
  unfold Effect.bind at failed ⊢
  split at failed
  next value after ran =>
    rw [ran] at unseen
    exact (commit_failed failed).trans unseen
  next failure after ran =>
    rw [ran] at unseen
    exact unseen

end Atomic

/-- An import of an export puts every row and column back, whatever was there before, where
the cells are such as JSON carries. An import that fails changes nothing. -/
theorem restore_sound (schema : Schema) (print : JsonValue → String) :
    (∀ db now dest, schema.Satisfied db → (∀ t, ∀ row ∈ db t, ∀ entry ∈ row, entry.2.portable = true) →
      restore schema print (fun _ => false) (exportData db now) dest = (.ok (),db)) ∧
    ∀ broken backup dest error, (restore schema print broken backup dest).1 = .error error →
      (restore schema print broken backup dest).2 = dest :=
  ⟨fun _ now dest satisfied carried => importData_exported satisfied carried now dest,
    fun _ _ _ _ failed => restore_failed failed⟩

/-- SQLite without conversions, for cells of the declared types. -/
def plainSqlite : Schema := sqlite (fun _ cell => cell) (fun _ _ => .null) fun _ db => some db

def owner : Row :=
  [("id",.integer 1),("username",.text "alice"),("password_hash",.text "$argon2id$"),("role",.text "user"),
    ("disabled",.integer 0),("session_version",.integer 1),("created_at",.integer 0),("updated_at",.integer 0),
    ("email",.null),("email_verified",.integer 0),("avatar_id",.text "avatar-01"),("totp_secret",.null),
    ("totp_enabled",.integer 0),("totp_confirmed_at",.null)]

def page (id : Int64) (content : Cell) : Row :=
  [("id",.integer id),("owner_id",.integer 1),("notepad_id",.integer id),("content",content),("updated_at",.integer 0)]

/-- One account with two notepad pages, the first one empty. -/
def notepadDb (content : Cell) : Db
  | .users => [owner]
  | .notepads => [page 1 .null,page 2 content]
  | _ => []

theorem mem_notepadDb {content : Cell} {t : TableName} {row : Row} (member : row ∈ notepadDb content t) :
    t = .users ∧ row = owner ∨ t = .notepads ∧ (row = page 1 .null ∨ row = page 2 content) := by
  cases t with
  | users => exact .inl ⟨rfl,List.mem_singleton.mp member⟩
  | notepads => exact .inr ⟨rfl,by simpa [notepadDb] using member⟩
  | _ => cases member

theorem notepad_satisfied (content : Cell) : plainSqlite.Satisfied (notepadDb content) := by
  constructor
  · intro t row member
    rcases mem_notepadDb member with ⟨rfl,rfl⟩ | ⟨rfl,rfl | rfl⟩ <;> rfl
  · intro t row member column listed
    exact ite_self _
  · intro t row member column listed generated
    rcases mem_notepadDb member with ⟨rfl,rfl⟩ | ⟨rfl,rfl | rfl⟩
    · have keyed : ∀ column ∈ (plainSqlite.table .users).columns, column.generated = true →
          (owner.cell column.name).isNull = false := by decide
      exact keyed column listed generated
    · have keyed : ∀ column ∈ (plainSqlite.table .notepads).columns, column.generated = true →
          ((page 1 .null).cell column.name).isNull = false := by decide
      exact keyed column listed generated
    · simp only [plainSqlite,sqlite,sqliteTable,List.mem_cons,List.not_mem_nil,or_false] at listed
      rcases listed with rfl | rfl | rfl | rfl | rfl <;> first | rfl | cases generated
  · intro t row member
    rcases mem_notepadDb member with ⟨rfl,rfl⟩ | ⟨rfl,rfl | rfl⟩ <;> rfl
  · intro t
    cases t with
    | users => exact List.pairwise_singleton ..
    | notepads => exact List.pairwise_pair.mpr rfl
    | _ => exact List.Pairwise.nil
  · intro t row member ref refers
    rcases mem_notepadDb member with ⟨rfl,rfl⟩ | ⟨rfl,rfl | rfl⟩
    · cases refers
    · cases List.mem_singleton.mp refers
      rfl
    · cases List.mem_singleton.mp refers
      rfl

/-- An empty page and one with a text come back. -/
theorem notepads_restored (print : JsonValue → String) :
    restore plainSqlite print (fun _ => false) (exportData (notepadDb (.text "token=1")) 0) Db.empty =
      (.ok (),notepadDb (.text "token=1")) := by
  refine (restore_sound plainSqlite print).1 _ 0 Db.empty (notepad_satisfied _) ?_
  intro t row member entry inside
  rcases mem_notepadDb member with ⟨rfl,rfl⟩ | ⟨rfl,rfl | rfl⟩ <;> revert entry <;> decide

/-- The content of the pages, where it is text. -/
def contents (db : Db) : List (Option String) := (db .notepads).map fun row =>
  match row.cell "content" with
  | .text value => some value
  | _ => none

/-- A column of SQLite may hold bytes that are no text. They come back as text, and as
another text than theirs. -/
theorem bytes_replaced : plainSqlite.Satisfied (notepadDb (.blob [0xFF])) ∧
    (restore plainSqlite (fun _ => "") (fun _ => false) (exportData (notepadDb (.blob [0xFF])) 0) Db.empty).1 = .ok () ∧
    (restore plainSqlite (fun _ => "") (fun _ => false) (exportData (notepadDb (.blob [0xFF])) 0) Db.empty).2 ≠
      notepadDb (.blob [0xFF]) := by
  refine ⟨notepad_satisfied _,by decide +kernel,fun same => ?_⟩
  have read : contents (restore plainSqlite (fun _ => "") (fun _ => false)
      (exportData (notepadDb (.blob [0xFF])) 0) Db.empty).2 = [none,some "\uFFFD"] := by decide +kernel
  rw [same] at read
  cases read

end Qdrust.Backup
