import Qdrust.Library.Table
import Qdrust.Store.Templates

/-! The columns of `templates` as they are stored. A definition and a HAR are texts there,
and every read parses them again. -/
namespace Qdrust.Store.Columns
open Library Har Qdrust.Template

/-- How values of a type are written as a document, and read. -/
structure Codec (α : Type) where
  read : String → Except String α
  write : α → String

/-- What is written of a value that was read is read as that value. -/
def Codec.Faithful {α : Type} (codec : Codec α) : Prop :=
  ∀ document value, codec.read document = .ok value → codec.read (codec.write value) = .ok value

/-- A value with a document it was read from. -/
structure Parsed {α : Type} (codec : Codec α) where
  value : α
  document : String
  reads : codec.read document = .ok value

/-- `serde_json`, for the two types the table holds. -/
structure Serde where
  json : Codec Json
  definition : Codec TemplateDefinition

structure Serde.Faithful (serde : Serde) : Prop where
  json : serde.json.Faithful
  definition : serde.definition.Faithful

structure TemplateColumns where
  ownerId : Option Int
  name : String
  sourceFormat : String
  definition : String
  source : Option String
  published : Bool

structure StoredTemplate extends TemplateColumns where
  id : Int

abbrev TemplateTable := Table StoredTemplate StoredTemplate.id

/-- A row as it is read. -/
structure Template where
  id : Int
  name : String
  sourceFormat : String
  definition : Option TemplateDefinition
  qdHar : Option Json

/-- The definition or the HAR of a row, by its format. -/
def contentFromRow (serde : Serde) (row : StoredTemplate) : Except String (Option TemplateDefinition × Option Json) :=
  if row.sourceFormat = "qd_har" then
    match row.source with
    | none => .error "QD HAR source is missing"
    | some source => (serde.json.read source).map fun har => (none,some har)
  else if row.sourceFormat = "native_v1" then
    ((serde.definition.read row.definition).mapError fun _ => "invalid template definition in database").map
      fun definition => (some definition,none)
  else .error ("unsupported template source format: " ++ row.sourceFormat)

def templateFromRow (serde : Serde) (row : StoredTemplate) : Except String Template := do
  let content ← contentFromRow serde row
  return ⟨row.id,row.name,row.sourceFormat,content.1,content.2⟩

section Calls

variable (serde : Serde) (table : TemplateTable)

/-- `WHERE id=?`, and `AND owner_id=?` for an owner. -/
def visible (id : Int) (ownerId : Option Int) (row : StoredTemplate) : Bool :=
  row.id = id && (ownerId.isNone || row.ownerId = ownerId)

/-- `get_template` and, for an owner, `get_template_for_owner`. -/
def getTemplate (id : Int) (ownerId : Option Int) : Except String (Option Template) :=
  match table.rows.find? (visible id ownerId) with
  | none => .ok none
  | some row => (templateFromRow serde row).map some

def insertRow (columns : TemplateColumns) : TemplateTable := table.insert (fun id => ⟨columns,id⟩) fun _ => rfl

def setRow (columns : TemplateColumns → TemplateColumns) (row : StoredTemplate) : StoredTemplate :=
  ⟨columns row.toTemplateColumns,row.id⟩

def updateRows (chosen : StoredTemplate → Bool) (columns : TemplateColumns → TemplateColumns) : TemplateTable :=
  table.update chosen (setRow columns) fun _ => rfl

/-- The row just inserted, read back. -/
def readInserted (id : Int) (missing : String) : Except String Template := do
  match ← getTemplate serde table id none with
  | some template => return template
  | none => .error missing

def createTemplate (ownerId : Option Int) (name : String) (definition : TemplateDefinition) :
    TemplateTable × Except String Template :=
  match (do validateTemplateName name; definition.validate) with
  | .error refusal => (table,.error refusal)
  | .ok () =>
    let after := insertRow table ⟨ownerId,name,"native_v1",serde.definition.write definition,none,false⟩
    (after,readInserted serde after after.last "created template disappeared")

def importQdHar (ownerId : Option Int) (name : String) (har : Json) : TemplateTable × Except String Template :=
  match (do validateTemplateName name; QdHar.parseQd har) with
  | .error refusal => (table,.error refusal)
  | .ok _ =>
    let after := insertRow table ⟨ownerId,name,"qd_har","\x7b\x7d",some (serde.json.write har),false⟩
    (after,readInserted serde after after.last "imported template disappeared")

def updateQdHarForOwner (id ownerId : Int) (name : String) (har : Json) :
    TemplateTable × Except String (Option Template) :=
  match (do validateTemplateName name; QdHar.parseQd har) with
  | .error refusal => (table,.error refusal)
  | .ok _ =>
    let chosen row := visible id (some ownerId) row && row.sourceFormat == "qd_har"
    let after := updateRows table chosen fun row => { row with name, source := some (serde.json.write har) }
    if table.affected chosen = 0 then (after,.ok none) else (after,getTemplate serde after id (some ownerId))

/-- The definition to store, after the checks. -/
def checkUpdate (current : Template) (name : String) (definition : Option TemplateDefinition) :
    Except String TemplateDefinition := do
  validateTemplateName name
  ensure (current.sourceFormat == "native_v1") "QD HAR templates must be edited through the HAR API"
  match definition.or current.definition with
  | none => .error "native template definition is missing"
  | some definition => do
    definition.validate
    return definition

def updateTemplate (id : Int) (ownerId : Option Int) (name : Option String) (definition : Option TemplateDefinition) :
    TemplateTable × Except String (Option Template) :=
  match getTemplate serde table id ownerId with
  | .error failure => (table,.error failure)
  | .ok none => (table,.ok none)
  | .ok (some current) =>
    let name := name.getD current.name
    match checkUpdate current name definition with
    | .error refusal => (table,.error refusal)
    | .ok definition =>
      let chosen := visible id ownerId
      let after := updateRows table chosen fun row => { row with name, definition := serde.definition.write definition }
      if table.affected chosen = 0 then (after,.ok none) else (after,getTemplate serde after id ownerId)

def copied (row : StoredTemplate) (ownerId : Int) : TemplateColumns :=
  ⟨some ownerId,row.name ++ " (copy)",row.sourceFormat,row.definition,row.source,false⟩

def publicRow (id : Int) (row : StoredTemplate) : Bool := row.id = id && row.published

def copyPublicTemplate (id ownerId : Int) : TemplateTable × Except String (Option Template) :=
  match table.rows.find? (publicRow id) with
  | none => (table,.ok none)
  | some row =>
    let after := insertRow table (copied row ownerId)
    (after,getTemplate serde after after.last (some ownerId))

def setTemplatePublished (id ownerId : Int) (published : Bool) : TemplateTable × Bool :=
  let chosen := visible id (some ownerId)
  (updateRows table chosen fun row => { row with published },0 < table.affected chosen)

def findTemplateByName (ownerId : Int) (name : String) : Option Int :=
  (table.rows.find? fun row => row.ownerId = some ownerId && row.name == name && row.sourceFormat == "qd_har").map
    StoredTemplate.id

/-- The part of `persist_entry` that writes the template. -/
def persistEntry (ownerId : Int) (name : String) (har : Json) (linkedTemplateId : Option Int) :
    TemplateTable × Except String (Int × Bool) :=
  match linkedTemplateId.or (findTemplateByName table ownerId name) with
  | some id =>
    let (after,outcome) := updateQdHarForOwner serde table id ownerId name har
    (after,do match ← outcome with
      | some template => return (template.id,true)
      | none => .error ("template " ++ toString id ++ " disappeared while importing"))
  | none =>
    let (after,outcome) := importQdHar serde table (some ownerId) name har
    (after,outcome.map fun template => (template.id,false))

def deleteTemplate (id : Int) (ownerId : Option Int) : TemplateTable :=
  match table.rows.find? (visible id ownerId) with
  | none => table
  | some found => table.delete fun row => row.id == found.id

end Calls

/-- A call on templates. Documents come from a parser. -/
inductive Call (serde : Serde) where
  | createTemplate (ownerId : Option Int) (name : String) (definition : Parsed serde.definition)
  | importQdHar (ownerId : Option Int) (name : String) (har : Parsed serde.json)
  | updateTemplate (id : Int) (ownerId : Option Int) (name : Option String) (definition : Option (Parsed serde.definition))
  | updateQdHar (id ownerId : Int) (name : String) (har : Parsed serde.json)
  | copyPublicTemplate (id ownerId : Int)
  | persistEntry (ownerId : Int) (name : String) (har : Parsed serde.json) (linkedTemplateId : Option Int)
  | setTemplatePublished (id ownerId : Int) (published : Bool)
  | deleteTemplate (id : Int) (ownerId : Option Int)

/-- The table after a call, whatever it returns. -/
def perform (serde : Serde) (table : TemplateTable) : Call serde → TemplateTable
  | .createTemplate ownerId name definition => (createTemplate serde table ownerId name definition.value).1
  | .importQdHar ownerId name har => (importQdHar serde table ownerId name har.value).1
  | .updateTemplate id ownerId name definition =>
    (updateTemplate serde table id ownerId name (definition.map Parsed.value)).1
  | .updateQdHar id ownerId name har => (updateQdHarForOwner serde table id ownerId name har.value).1
  | .copyPublicTemplate id ownerId => (copyPublicTemplate serde table id ownerId).1
  | .persistEntry ownerId name har linkedTemplateId => (persistEntry serde table ownerId name har.value linkedTemplateId).1
  | .setTemplatePublished id ownerId published => (setTemplatePublished table id ownerId published).1
  | .deleteTemplate id ownerId => deleteTemplate table id ownerId

def step (serde : Serde) (table : TemplateTable) (call : Call serde) : Option TemplateTable := some (perform serde table call)

/-- What is read of a row, when its own update path accepts it. -/
inductive Sound : Template → Prop
  | native {id : Int} {name : String} {definition : TemplateDefinition} (valid : definition.validate = .ok ()) :
    Sound ⟨id,name,"native_v1",some definition,none⟩
  | har {id : Int} {name : String} {har : Json} {read : QdHar} (accepted : QdHar.parseQd har = .ok read) :
    Sound ⟨id,name,"qd_har",none,some har⟩

/-- A row that is read, with a name and a content that can be saved. -/
structure Savable (serde : Serde) (row : StoredTemplate) : Prop where
  name : validateTemplateName row.name = .ok ()
  content : ∃ template, templateFromRow serde row = .ok template ∧ Sound template

/-- Saving what is read of a row, through the path of its format, answers with the same template. -/
def SavedBack (serde : Serde) (table : TemplateTable) (row : StoredTemplate) : Prop :=
  ∃ template, templateFromRow serde row = .ok template ∧
    (∀ definition, template.definition = some definition →
      (updateTemplate serde table row.id row.ownerId (some template.name) (some definition)).2 = .ok (some template)) ∧
    ∀ har ownerId, template.qdHar = some har → row.ownerId = some ownerId →
      (updateQdHarForOwner serde table row.id ownerId template.name har).2 = .ok (some template)

/-- The name of a copy is within the limit. -/
def CopyFits (serde : Serde) (table : TemplateTable) : Call serde → Prop
  | .copyPublicTemplate id _ => ∀ row ∈ table.rows, publicRow id row = true → row.name.length ≤ 93
  | _ => True

section Names

theorem validateTemplateName_ok {name : String} :
    validateTemplateName name = .ok () ↔ Text.blankBy Text.whiteSpace name = false ∧ name.length ≤ 100 := by
  rw [validateTemplateName,check_ok,ensure_ok,ensure_ok,decide_eq_true_eq,decide_eq_true_eq,Har.trim,ne_eq,
    Text.trimBy_eq_empty,Bool.not_eq_true]

/-- The seven characters of the suffix are what a copy adds. -/
theorem validateTemplateName_copy {name : String} (valid : validateTemplateName name = .ok ()) :
    validateTemplateName (name ++ " (copy)") = .ok () ↔ name.length ≤ 93 := by
  obtain ⟨solid,_⟩ := validateTemplateName_ok.mp valid
  have suffix : " (copy)".length = 7 := rfl
  have nonblank : Text.blankBy Text.whiteSpace (name ++ " (copy)") = false := by
    rw [Text.blankBy] at solid ⊢
    rw [String.toList_append,List.all_append,solid,Bool.false_and]
  rw [validateTemplateName_ok,String.length_append,suffix]
  constructor
  · rintro ⟨_,fits⟩
    omega
  · intro fits
    exact ⟨nonblank,by omega⟩

end Names

/-- The columns of a row that is read and can be saved, its name apart. -/
inductive Content (serde : Serde) (columns : TemplateColumns) : Prop
  | native (definition : TemplateDefinition) (format : columns.sourceFormat = "native_v1")
    (reads : serde.definition.read columns.definition = .ok definition) (valid : definition.validate = .ok ())
  | har (source : String) (har : Json) (read : QdHar) (format : columns.sourceFormat = "qd_har")
    (stored : columns.source = some source) (reads : serde.json.read source = .ok har)
    (accepted : QdHar.parseQd har = .ok read)

section Rows

variable {serde : Serde} {row : StoredTemplate}

theorem templateFromRow_native {definition : TemplateDefinition} (format : row.sourceFormat = "native_v1")
    (reads : serde.definition.read row.definition = .ok definition) :
    templateFromRow serde row = .ok ⟨row.id,row.name,"native_v1",some definition,none⟩ := by
  have other : row.sourceFormat ≠ "qd_har" := by
    rw [format]
    decide
  rw [templateFromRow,contentFromRow,if_neg other,if_pos format,reads,format]
  rfl

theorem templateFromRow_har {source : String} {har : Json} (format : row.sourceFormat = "qd_har")
    (stored : row.source = some source) (reads : serde.json.read source = .ok har) :
    templateFromRow serde row = .ok ⟨row.id,row.name,"qd_har",none,some har⟩ := by
  rw [templateFromRow,contentFromRow,if_pos format,stored,format]
  simp only [reads]
  rfl

theorem templateFromRow_ok {template : Template} (read : templateFromRow serde row = .ok template) :
    template.name = row.name ∧ template.sourceFormat = row.sourceFormat := by
  obtain ⟨_,_,done⟩ := bind_ok.mp read
  cases done
  exact ⟨rfl,rfl⟩

theorem Content.savable (content : Content serde row.toTemplateColumns)
    (name : validateTemplateName row.name = .ok ()) : Savable serde row := by
  refine ⟨name,?_⟩
  cases content with
  | native definition format reads valid => exact ⟨_,templateFromRow_native format reads,.native valid⟩
  | har source har read format stored reads accepted => exact ⟨_,templateFromRow_har format stored reads,.har accepted⟩

theorem Savable.content_of (savable : Savable serde row) : Content serde row.toTemplateColumns := by
  obtain ⟨template,read,sound⟩ := savable.content
  obtain ⟨⟨definition,qdHar⟩,parsed,done⟩ := bind_ok.mp read
  rw [contentFromRow] at parsed
  by_cases har : row.sourceFormat = "qd_har"
  · rw [if_pos har] at parsed
    cases stored : row.source with
    | none =>
      rw [stored] at parsed
      cases parsed
    | some source =>
      rw [stored] at parsed
      cases reads : serde.json.read source with
      | error failure =>
        simp only [reads] at parsed
        cases parsed
      | ok document =>
        simp only [reads] at parsed
        cases parsed
        cases done
        generalize row.sourceFormat = format at sound
        cases sound with
        | har accepted => exact .har source document _ har stored reads accepted
  · rw [if_neg har] at parsed
    by_cases native : row.sourceFormat = "native_v1"
    · rw [if_pos native] at parsed
      cases reads : serde.definition.read row.definition with
      | error failure =>
        rw [reads] at parsed
        cases parsed
      | ok document =>
        rw [reads] at parsed
        cases parsed
        cases done
        generalize row.sourceFormat = format at sound
        cases sound with
        | native valid => exact .native document native reads valid
    · rw [if_neg native] at parsed
      cases parsed

/-- A copy of a savable row is savable exactly when its name fits. -/
theorem copied_savable_iff (savable : Savable serde row) (ownerId id : Int) :
    Savable serde ⟨copied row ownerId,id⟩ ↔ row.name.length ≤ 93 := by
  constructor
  · intro copy
    exact (validateTemplateName_copy savable.name).mp copy.name
  · intro fits
    refine Content.savable ?_ ((validateTemplateName_copy savable.name).mpr fits)
    cases savable.content_of with
    | native definition format reads valid => exact .native definition format reads valid
    | har source har read format stored reads accepted => exact .har source har read format stored reads accepted

end Rows

section Saving

variable {serde : Serde} {table : TemplateTable}

theorem visible_iff {id : Int} {ownerId : Option Int} {row : StoredTemplate} :
    visible id ownerId row = true ↔ row.id = id ∧ (ownerId = none ∨ row.ownerId = ownerId) := by
  rw [visible,Bool.and_eq_true,Bool.or_eq_true,decide_eq_true_eq,decide_eq_true_eq,Option.isNone_iff_eq_none]

theorem visible_own (row : StoredTemplate) : visible row.id row.ownerId row = true :=
  visible_iff.mpr ⟨rfl,Or.inr rfl⟩

/-- Keys are unique, so the row a condition on the key finds is the one it holds of. -/
theorem find_visible {id : Int} {ownerId : Option Int} {row : StoredTemplate} (there : row ∈ table.rows)
    (seen : visible id ownerId row = true) : table.rows.find? (visible id ownerId) = some row := by
  cases found : table.rows.find? (visible id ownerId) with
  | none => exact absurd seen (List.find?_eq_none.mp found row there)
  | some other =>
    have keyed := (visible_iff.mp (List.find?_some found)).1
    rw [table.key_unique (List.mem_of_find?_eq_some found) there (keyed.trans (visible_iff.mp seen).1.symm)]

theorem getTemplate_visible {id : Int} {ownerId : Option Int} {row : StoredTemplate} (there : row ∈ table.rows)
    (seen : visible id ownerId row = true) : getTemplate serde table id ownerId = (templateFromRow serde row).map some := by
  rw [getTemplate,find_visible there seen]

theorem mem_insertRow {columns : TemplateColumns} {row : StoredTemplate} :
    row ∈ (insertRow table columns).rows ↔ row ∈ table.rows ∨ row = ⟨columns,table.last + 1⟩ :=
  table.mem_insert _

theorem mem_updateRows {chosen : StoredTemplate → Bool} {columns : TemplateColumns → TemplateColumns} {row : StoredTemplate} :
    row ∈ (updateRows table chosen columns).rows ↔ ∃ old ∈ table.rows, row = if chosen old then setRow columns old else old :=
  table.mem_update _

theorem affected_ne_zero {chosen : StoredTemplate → Bool} {row : StoredTemplate} (there : row ∈ table.rows)
    (picked : chosen row = true) : table.affected chosen ≠ 0 :=
  fun zero => List.countP_eq_zero.mp zero row there picked

/-- A template that is written to its row is what the row reads as. -/
theorem getTemplate_updateRows {id : Int} {ownerId : Option Int} {chosen : StoredTemplate → Bool}
    {columns : TemplateColumns → TemplateColumns} {row : StoredTemplate} (there : row ∈ table.rows)
    (picked : chosen row = true) (seen : visible id ownerId (setRow columns row) = true) :
    getTemplate serde (updateRows table chosen columns) id ownerId =
      (templateFromRow serde (setRow columns row)).map some := by
  refine getTemplate_visible (mem_updateRows.mpr ⟨row,there,?_⟩) seen
  rw [if_pos picked]

theorem saved_native (faithful : serde.Faithful) {row : StoredTemplate} (there : row ∈ table.rows)
    (name : validateTemplateName row.name = .ok ()) {definition : TemplateDefinition}
    (format : row.sourceFormat = "native_v1") (reads : serde.definition.read row.definition = .ok definition)
    (valid : definition.validate = .ok ()) :
    (updateTemplate serde table row.id row.ownerId (some row.name) (some definition)).2 =
      .ok (some ⟨row.id,row.name,"native_v1",some definition,none⟩) := by
  have current : getTemplate serde table row.id row.ownerId = .ok (some ⟨row.id,row.name,"native_v1",some definition,none⟩) := by
    rw [getTemplate_visible there (visible_own row),templateFromRow_native format reads]
    rfl
  have checked : checkUpdate ⟨row.id,row.name,"native_v1",some definition,none⟩ row.name (some definition) =
      .ok definition := by
    rw [checkUpdate,name]
    simp only [Option.or,valid]
    rfl
  have written : serde.definition.read (serde.definition.write definition) = .ok definition :=
    faithful.definition _ _ reads
  rw [updateTemplate,current]
  simp only [Option.getD_some,checked]
  rw [if_neg (affected_ne_zero there (visible_own row)),getTemplate_updateRows there (visible_own row)]
  · exact congrArg (Except.map some) (@templateFromRow_native serde
      ⟨{ row with name := row.name, definition := serde.definition.write definition },row.id⟩ definition format written)
  · exact visible_own row

theorem saved_har (faithful : serde.Faithful) {row : StoredTemplate} (there : row ∈ table.rows)
    (name : validateTemplateName row.name = .ok ()) {source : String} {har : Json} {read : QdHar} {ownerId : Int}
    (format : row.sourceFormat = "qd_har") (reads : serde.json.read source = .ok har)
    (accepted : QdHar.parseQd har = .ok read) (owned : row.ownerId = some ownerId) :
    (updateQdHarForOwner serde table row.id ownerId row.name har).2 =
      .ok (some ⟨row.id,row.name,"qd_har",none,some har⟩) := by
  have seen : visible row.id (some ownerId) row = true := visible_iff.mpr ⟨rfl,Or.inr owned⟩
  have picked : (visible row.id (some ownerId) row && row.sourceFormat == "qd_har") = true := by
    rw [seen,format]
    rfl
  have written : serde.json.read (serde.json.write har) = .ok har := faithful.json _ _ reads
  have checked : (do validateTemplateName row.name; QdHar.parseQd har) = .ok read := by
    rw [name,accepted]
    rfl
  rw [updateQdHarForOwner,checked]
  simp only
  rw [if_neg (affected_ne_zero there picked),getTemplate_updateRows there picked]
  · exact congrArg (Except.map some) (@templateFromRow_har serde
      ⟨{ row with name := row.name, source := some (serde.json.write har) },row.id⟩ _ har format rfl written)
  · exact seen

/-- What can be saved can be saved back. -/
theorem Savable.savedBack (faithful : serde.Faithful) {row : StoredTemplate} (there : row ∈ table.rows)
    (savable : Savable serde row) : SavedBack serde table row := by
  cases savable.content_of with
  | native definition format reads valid =>
    refine ⟨_,templateFromRow_native format reads,?_,nofun⟩
    rintro _ ⟨⟩
    exact saved_native faithful there savable.name format reads valid
  | har source har read format stored reads accepted =>
    refine ⟨_,templateFromRow_har format stored reads,nofun,?_⟩
    rintro _ ownerId ⟨⟩ owned
    exact saved_har faithful there savable.name format reads accepted owned

end Saving

section Steps

variable {serde : Serde} {table : TemplateTable}

def AllSavable (serde : Serde) (table : TemplateTable) : Prop := ∀ row ∈ table.rows, Savable serde row

theorem savable_insert (all : AllSavable serde table) {columns : TemplateColumns}
    (new : Savable serde ⟨columns,table.last + 1⟩) : AllSavable serde (insertRow table columns) := by
  intro row member
  rcases mem_insertRow.mp member with old | rfl
  · exact all row old
  · exact new

theorem savable_update (all : AllSavable serde table) {chosen : StoredTemplate → Bool}
    {columns : TemplateColumns → TemplateColumns}
    (kept : ∀ row ∈ table.rows, chosen row = true → Savable serde (setRow columns row)) :
    AllSavable serde (updateRows table chosen columns) := by
  intro row member
  obtain ⟨old,there,rfl⟩ := mem_updateRows.mp member
  split
  · next picked => exact kept old there picked
  · exact all old there

theorem createTemplate_savable (faithful : serde.Faithful) (all : AllSavable serde table) (ownerId : Option Int)
    (name : String) (definition : Parsed serde.definition) :
    AllSavable serde (createTemplate serde table ownerId name definition.value).1 := by
  unfold createTemplate
  split
  · exact all
  · next checked =>
    obtain ⟨named,valid⟩ := check_ok.mp checked
    have written := faithful.definition _ _ definition.reads
    exact savable_insert all (Content.savable (.native _ rfl written valid) named)

theorem importQdHar_savable (faithful : serde.Faithful) (all : AllSavable serde table) (ownerId : Option Int)
    (name : String) (har : Parsed serde.json) : AllSavable serde (importQdHar serde table ownerId name har.value).1 := by
  unfold importQdHar
  split
  · exact all
  · next read checked =>
    obtain ⟨named,accepted⟩ := check_ok.mp checked
    have written := faithful.json _ _ har.reads
    exact savable_insert all (Content.savable (.har _ _ read rfl rfl written accepted) named)

theorem updateQdHar_savable (faithful : serde.Faithful) (all : AllSavable serde table) (id ownerId : Int)
    (name : String) (har : Parsed serde.json) :
    AllSavable serde (updateQdHarForOwner serde table id ownerId name har.value).1 := by
  unfold updateQdHarForOwner
  split
  · exact all
  · next read checked =>
    obtain ⟨named,accepted⟩ := check_ok.mp checked
    have written := faithful.json _ _ har.reads
    have saved : AllSavable serde (updateRows table
        (fun row => visible id (some ownerId) row && row.sourceFormat == "qd_har")
        fun row => { row with name, source := some (serde.json.write har.value) }) := by
      refine savable_update all fun row _ picked => ?_
      have format := eq_of_beq ((Bool.and_eq_true _ _).mp picked).2
      exact Content.savable (.har _ _ read format rfl written accepted) named
    dsimp only
    split
    · exact saved
    · exact saved

/-- The definition that is stored was read from a document, by the caller or from the row. -/
theorem checkUpdate_stored {current : Template} {name : String} {given : Option (Parsed serde.definition)}
    {definition : TemplateDefinition} {row : StoredTemplate} (read : templateFromRow serde row = .ok current)
    (checked : checkUpdate current name (given.map Parsed.value) = .ok definition) :
    validateTemplateName name = .ok () ∧ row.sourceFormat = "native_v1" ∧ definition.validate = .ok () ∧
      ∃ document, serde.definition.read document = .ok definition := by
  obtain ⟨named,checked⟩ := check_ok.mp checked
  obtain ⟨format,checked⟩ := check_ok.mp checked
  have native : row.sourceFormat = "native_v1" := by
    rw [← (templateFromRow_ok read).2]
    exact eq_of_beq (ensure_ok _ _ |>.mp format)
  cases chosen : (given.map Parsed.value).or current.definition with
  | none =>
    rw [chosen] at checked
    cases checked
  | some stored =>
    rw [chosen] at checked
    obtain ⟨valid,done⟩ := check_ok.mp checked
    cases done
    refine ⟨named,native,valid,?_⟩
    cases given with
    | some input =>
      cases chosen
      exact ⟨input.document,input.reads⟩
    | none =>
      obtain ⟨content,parsed,done⟩ := bind_ok.mp read
      cases done
      have other : row.sourceFormat ≠ "qd_har" := by
        rw [native]
        decide
      rw [contentFromRow,if_neg other,if_pos native] at parsed
      cases reads : serde.definition.read row.definition with
      | error failure =>
        rw [reads] at parsed
        cases parsed
      | ok document =>
        rw [reads] at parsed
        cases parsed
        cases chosen
        exact ⟨row.definition,reads⟩

theorem updateTemplate_savable (faithful : serde.Faithful) (all : AllSavable serde table) (id : Int)
    (ownerId : Option Int) (name : Option String) (given : Option (Parsed serde.definition)) :
    AllSavable serde (updateTemplate serde table id ownerId name (given.map Parsed.value)).1 := by
  unfold updateTemplate
  split
  · exact all
  · exact all
  · next current found =>
    dsimp only
    split
    · exact all
    · next definition checked =>
      have saved : AllSavable serde (updateRows table (visible id ownerId) fun row =>
          { row with name := name.getD current.name, definition := serde.definition.write definition }) := by
        refine savable_update all fun row there picked => ?_
        rw [getTemplate_visible there picked] at found
        have read : templateFromRow serde row = .ok current := by
          cases outcome : templateFromRow serde row with
          | error failure =>
            rw [outcome] at found
            cases found
          | ok template =>
            rw [outcome] at found
            cases found
            rfl
        obtain ⟨named,native,valid,document,reads⟩ := checkUpdate_stored read checked
        exact Content.savable (.native _ native (faithful.definition _ _ reads) valid) named
      split
      · exact saved
      · exact saved

theorem copyPublicTemplate_savable (all : AllSavable serde table) (id ownerId : Int)
    (fits : ∀ row ∈ table.rows, publicRow id row = true → row.name.length ≤ 93) :
    AllSavable serde (copyPublicTemplate serde table id ownerId).1 := by
  unfold copyPublicTemplate
  split
  · exact all
  · next row found =>
    have there := List.mem_of_find?_eq_some found
    exact savable_insert all ((copied_savable_iff (all row there) ownerId _).mpr (fits row there (List.find?_some found)))

theorem persistEntry_savable (faithful : serde.Faithful) (all : AllSavable serde table) (ownerId : Int)
    (name : String) (har : Parsed serde.json) (linkedTemplateId : Option Int) :
    AllSavable serde (persistEntry serde table ownerId name har.value linkedTemplateId).1 := by
  unfold persistEntry
  split
  · next id _ => exact updateQdHar_savable faithful all id ownerId name har
  · exact importQdHar_savable faithful all (some ownerId) name har

/-- What a call leaves can be saved, if the name of a copy fits. -/
theorem perform_savable (faithful : serde.Faithful) (all : AllSavable serde table) (call : Call serde)
    (fits : CopyFits serde table call) : AllSavable serde (perform serde table call) := by
  cases call with
  | createTemplate ownerId name definition => exact createTemplate_savable faithful all ownerId name definition
  | importQdHar ownerId name har => exact importQdHar_savable faithful all ownerId name har
  | updateTemplate id ownerId name definition => exact updateTemplate_savable faithful all id ownerId name definition
  | updateQdHar id ownerId name har => exact updateQdHar_savable faithful all id ownerId name har
  | copyPublicTemplate id ownerId => exact copyPublicTemplate_savable all id ownerId fits
  | persistEntry ownerId name har linkedTemplateId => exact persistEntry_savable faithful all ownerId name har linkedTemplateId
  | setTemplatePublished id ownerId published =>
    refine savable_update all fun row there _ => ?_
    cases (all row there).content_of with
    | native definition format reads valid => exact Content.savable (.native definition format reads valid) (all row there).name
    | har source har read format stored reads accepted =>
      exact Content.savable (.har source har read format stored reads accepted) (all row there).name
  | deleteTemplate id ownerId =>
    simp only [perform,deleteTemplate]
    split
    · exact all
    · intro row member
      exact all row (table.mem_delete.mp member).1

end Steps

section Runs

/-- A codec of one document. -/
def oneDocument {α : Type} (document : String) (value : α) : Codec α where
  read text := if text = document then .ok value else .error "another document"
  write _ := document

theorem oneDocument_reads {α : Type} (document : String) (value : α) :
    (oneDocument document value).read document = .ok value := if_pos rfl

theorem oneDocument_faithful {α : Type} (document : String) (value : α) : (oneDocument document value).Faithful := by
  intro text found reads
  by_cases same : text = document
  · have only : (oneDocument document value).read text = .ok value := if_pos same
    rw [reads] at only
    cases only
    exact oneDocument_reads document value
  · have refused : (oneDocument document value).read text = .error "another document" := if_neg same
    rw [reads] at refused
    cases refused

def waits : TemplateDefinition := ⟨1,"wait",[],[.delay 1]⟩

def waitsDocument : String :=
  "\x7b\"version\":1,\"name\":\"wait\",\"variables\":\x7b\x7d,\"steps\":[\x7b\"type\":\"delay\",\"milliseconds\":1\x7d]\x7d"

def waitsSerde : Serde := ⟨oneDocument "null" .null,oneDocument waitsDocument waits⟩

theorem waitsSerde_faithful : waitsSerde.Faithful := ⟨oneDocument_faithful _ _,oneDocument_faithful _ _⟩

def waitsParsed : Parsed waitsSerde.definition := ⟨waits,waitsDocument,oneDocument_reads _ _⟩

/-- One account publishes a template of a given name, and another copies it. -/
def copying (name : String) : List (Call waitsSerde) :=
  [.createTemplate (some 1) name waitsParsed,.setTemplatePublished 1 1 true,.copyPublicTemplate 1 2]

def copyFits (table : TemplateTable) : Call waitsSerde → Bool
  | .copyPublicTemplate id _ => table.rows.all fun row => !publicRow id row || decide (row.name.length ≤ 93)
  | _ => true

theorem copyFits_sound (table : TemplateTable) (call : Call waitsSerde) (checked : copyFits table call = true) :
    CopyFits waitsSerde table call := by
  cases call with
  | copyPublicTemplate id ownerId =>
    intro row there shared
    have fits := List.all_eq_true.mp checked row there
    rw [shared] at fits
    exact of_decide_eq_true fits
  | _ => exact trivial

def copyTable (name : String) : TemplateTable := (copying name).foldl (perform waitsSerde) Table.empty

theorem copyTable_ran (name : String) : Transition.exec (step waitsSerde) Table.empty (copying name) = some (copyTable name) :=
  rfl

/-- The copy of a published template has its name with the suffix. -/
theorem copyTable_copied {name : String} (valid : validateTemplateName name = .ok ()) :
    ∃ row ∈ (copyTable name).rows, row.name = name ++ " (copy)" := by
  have sound : waits.validate = .ok () := rfl
  have checked : (do validateTemplateName name; waits.validate) = Except.ok () := check_ok.mpr ⟨valid,sound⟩
  rw [copyTable,copying,List.foldl_cons,perform,waitsParsed,createTemplate,checked]
  exact ⟨_,List.mem_cons_of_mem _ List.mem_cons_self,rfl⟩

/-- A name of one letter, any number of times up to the limit. -/
theorem letters_valid {n : Nat} (pos : 0 < n) (fits : n ≤ 100) :
    validateTemplateName (String.ofList (List.replicate n 'n')) = .ok () := by
  have letter : Text.whiteSpace 'n' = false := by decide
  refine validateTemplateName_ok.mpr ⟨?_,?_⟩
  · rw [Text.blankBy,String.toList_ofList,← Nat.succ_pred_eq_of_pos pos,List.replicate_succ,List.all_cons,letter,
      Bool.false_and]
  · rwa [String.length_ofList,List.length_replicate]

theorem letters_copy {n : Nat} (fits : n ≤ 100) (long : 93 < n) :
    validateTemplateName (String.ofList (List.replicate n 'n') ++ " (copy)") ≠ .ok () := by
  have valid := letters_valid (Nat.zero_lt_of_lt long) fits
  rw [ne_eq,validateTemplateName_copy valid,String.length_ofList,List.length_replicate]
  exact Nat.not_le_of_lt long

def longName : String := String.ofList (List.replicate 100 'n')

end Runs

end Qdrust.Store.Columns
