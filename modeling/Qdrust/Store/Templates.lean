import Qdrust.Har.Program
import Qdrust.Har.Reading
import Qdrust.Template.Definition
import Qdrust.Library.Transition

/-! The `templates` table, the calls that write it and the program a run loads
from it. -/
namespace Qdrust.Store
open Library Har Template

/-- `source_format` with the column it reads. -/
inductive TemplateSource where
  | nativeV1 (definition : TemplateDefinition)
  | qdHar (source : Json)

def TemplateSource.isNative : TemplateSource → Bool
  | .nativeV1 _ => true
  | .qdHar _ => false

structure TemplateRow where
  id : Int
  ownerId : Option Int
  name : String
  source : TemplateSource
  published : Bool

structure Templates where
  rows : List TemplateRow
  next : Int

def TemplateRow.visibleTo (row : TemplateRow) (id : Int) (ownerId : Option Int) : Bool :=
  row.id = id && (ownerId.isNone || row.ownerId = ownerId)

/-- `get_template` and, for an owner, `get_template_for_owner`. -/
def Templates.get (templates : Templates) (id : Int) (ownerId : Option Int) : Option TemplateRow :=
  templates.rows.find? fun row => row.visibleTo id ownerId

def validateTemplateName (name : String) : Except String Unit := do
  ensure (trim name ≠ "") "template name cannot be empty"
  ensure (name.length ≤ 100) "template name is too long"

def Templates.insert (templates : Templates) (ownerId : Option Int) (name : String) (source : TemplateSource) :
    Templates :=
  ⟨templates.rows ++ [⟨templates.next,ownerId,name,source,false⟩],templates.next + 1⟩

/-- Write the rows `select` picks. -/
def Templates.write (templates : Templates) (select : TemplateRow → Bool) (change : TemplateRow → TemplateRow) :
    Templates :=
  { templates with rows := templates.rows.map fun row => if select row then change row else row }

def createTemplate (templates : Templates) (ownerId : Option Int) (name : String)
    (definition : TemplateDefinition) : Except String Templates := do
  validateTemplateName name
  definition.validate
  return templates.insert ownerId name (.nativeV1 definition)

def importQdHar (templates : Templates) (ownerId : Option Int) (name : String) (har : Json) :
    Except String Templates := do
  validateTemplateName name
  let _ ← QdHar.parseQd har
  return templates.insert ownerId name (.qdHar har)

def updateQdHarForOwner (templates : Templates) (id ownerId : Int) (name : String) (har : Json) :
    Except String Templates := do
  validateTemplateName name
  let _ ← QdHar.parseQd har
  return templates.write (fun row => row.id = id && row.ownerId = some ownerId && !row.source.isNative)
    fun row => { row with name := name, source := .qdHar har }

/-- Only a native template can be edited here. -/
def updateTemplate (templates : Templates) (id : Int) (ownerId : Option Int) (name : Option String)
    (definition : Option TemplateDefinition) : Except String Templates :=
  match templates.get id ownerId with
  | none => .ok templates
  | some current => do
    let name := name.getD current.name
    validateTemplateName name
    match current.source with
    | .qdHar _ => .error "QD HAR templates must be edited through the HAR API"
    | .nativeV1 stored => do
      let definition := definition.getD stored
      definition.validate
      return templates.write (fun row => row.visibleTo id ownerId) fun row =>
        { row with name := name, source := .nativeV1 definition }

def setTemplatePublished (templates : Templates) (id ownerId : Int) (published : Bool) : Templates :=
  templates.write (fun row => row.id = id && row.ownerId = some ownerId) fun row =>
    { row with published := published }

def copyPublicTemplate (templates : Templates) (id ownerId : Int) : Templates :=
  match templates.rows.find? fun row => row.id = id && row.published with
  | none => templates
  | some row => templates.insert (some ownerId) (row.name ++ " (copy)") row.source

def deleteTemplate (templates : Templates) (id : Int) (ownerId : Option Int) : Templates :=
  match templates.get id ownerId with
  | none => templates
  | some found => { templates with rows := templates.rows.filter fun row => row.id != found.id }

inductive TemplateCall where
  | create (ownerId : Option Int) (name : String) (definition : TemplateDefinition)
  | importHar (ownerId : Option Int) (name : String) (har : Json)
  | updateHar (id ownerId : Int) (name : String) (har : Json)
  | update (id : Int) (ownerId : Option Int) (name : Option String) (definition : Option TemplateDefinition)
  | publish (id ownerId : Int) (published : Bool)
  | copy (id ownerId : Int)
  | delete (id : Int) (ownerId : Option Int)

/-- One call; a refused one leaves no next state. -/
def templateStep (templates : Templates) : TemplateCall → Option Templates
  | .create ownerId name definition => (createTemplate templates ownerId name definition).toOption
  | .importHar ownerId name har => (importQdHar templates ownerId name har).toOption
  | .updateHar id ownerId name har => (updateQdHarForOwner templates id ownerId name har).toOption
  | .update id ownerId name definition => (updateTemplate templates id ownerId name definition).toOption
  | .publish id ownerId published => some (setTemplatePublished templates id ownerId published)
  | .copy id ownerId => some (copyPublicTemplate templates id ownerId)
  | .delete id ownerId => some (deleteTemplate templates id ownerId)

/-- The program the scheduler runs for a QD template. -/
def loadProgram (source : Json) : Except String QdProgram := do
  let har ← QdHar.parse source
  QdProgram.compile har

/-- Every stored HAR source is one that `parse_qd` accepts. -/
def Accepted (templates : Templates) : Prop :=
  ∀ row ∈ templates.rows, ∀ source, row.source = .qdHar source → ∃ har, QdHar.parseQd source = .ok har

theorem accepted_insert {templates : Templates} (accepted : Accepted templates) {ownerId : Option Int}
    {name : String} {source : TemplateSource}
    (new : ∀ har, source = .qdHar har → ∃ read, QdHar.parseQd har = .ok read) :
    Accepted (templates.insert ownerId name source) := by
  intro row member har stored
  rcases List.mem_append.mp member with old | added
  · exact accepted row old har stored
  · cases List.mem_singleton.mp added
    exact new har stored

theorem accepted_write {templates : Templates} (accepted : Accepted templates) {select : TemplateRow → Bool}
    {change : TemplateRow → TemplateRow}
    (kept : ∀ row ∈ templates.rows, select row = true → ∀ har, (change row).source = .qdHar har →
      ∃ read, QdHar.parseQd har = .ok read) :
    Accepted (templates.write select change) := by
  intro row member har stored
  obtain ⟨before,present,rfl⟩ := List.mem_map.mp member
  by_cases chosen : select before = true
  · rw [if_pos chosen] at stored
    exact kept before present chosen har stored
  · rw [if_neg chosen] at stored
    exact accepted before present har stored

theorem accepted_step {templates after : Templates} (call : TemplateCall) (accepted : Accepted templates)
    (taken : templateStep templates call = some after) : Accepted after := by
  cases call with
  | create ownerId name definition =>
    obtain ⟨_,done⟩ := check_ok.mp (toOption_ok.mp taken)
    obtain ⟨_,done⟩ := check_ok.mp done
    cases done
    exact accepted_insert accepted nofun
  | importHar ownerId name har =>
    obtain ⟨_,done⟩ := check_ok.mp (toOption_ok.mp taken)
    obtain ⟨read,parsed,done⟩ := bind_ok.mp done
    cases done
    refine accepted_insert accepted fun source same => ?_
    cases same
    exact ⟨read,parsed⟩
  | updateHar id ownerId name har =>
    obtain ⟨_,done⟩ := check_ok.mp (toOption_ok.mp taken)
    obtain ⟨read,parsed,done⟩ := bind_ok.mp done
    cases done
    refine accepted_write accepted fun row _ _ source same => ?_
    cases same
    exact ⟨read,parsed⟩
  | update id ownerId name definition =>
    have done := toOption_ok.mp taken
    unfold updateTemplate at done
    cases found : templates.get id ownerId with
    | none =>
      rw [found] at done
      cases done
      exact accepted
    | some current =>
      rw [found] at done
      obtain ⟨_,done⟩ := check_ok.mp done
      cases kind : current.source with
      | qdHar source =>
        rw [kind] at done
        cases done
      | nativeV1 stored =>
        rw [kind] at done
        obtain ⟨_,done⟩ := check_ok.mp done
        cases done
        exact accepted_write accepted fun row _ _ source => nofun
  | publish id ownerId published =>
    cases taken
    exact accepted_write accepted fun row present _ source same => accepted row present source same
  | copy id ownerId =>
    cases taken
    unfold copyPublicTemplate
    split
    · exact accepted
    · rename_i row found
      exact accepted_insert accepted fun har same => accepted row (List.mem_of_find?_eq_some found) har same
  | delete id ownerId =>
    cases taken
    unfold deleteTemplate
    split
    · exact accepted
    · intro row member
      exact accepted row (List.mem_of_mem_filter member)

/-- Whatever the calls, only accepted sources are stored. -/
theorem reachable_accepted {templates : Templates}
    (reach : Transition.Reachable templateStep ⟨[],1⟩ templates) : Accepted templates :=
  reach.invariant (fun _ call _ accepted _ taken => accepted_step call accepted taken) nofun

end Qdrust.Store
