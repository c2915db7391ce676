import Qdrust.Library.Table
import Qdrust.Store.Templates
import Qdrust.Subscriptions.Source

/-! Templates imported from subscribed sources. An entry is written where its link says,
and without a link where the owner has a template of its name. -/
namespace Qdrust.Subscriptions.Imports
open Library Har Store

structure TemplateSubscription where
  id : Int
  ownerId : Int
  name : String
  url : String

structure TemplateImport where
  id : Int
  subscriptionId : Int
  templateId : Int
  entryName : String
  entryVersion : Option String
  sourceUrl : Option String

/-- The entry a link stands for. -/
def TemplateImport.pair (link : TemplateImport) : Int × String := (link.subscriptionId,link.entryName)

abbrev Links := Table TemplateImport TemplateImport.id

structure LibraryImportOutcome where
  name : String
  templateId : Int
  updated : Bool

structure LibraryImportResult where
  imported : Nat
  updated : Nat
  failed : List (String × String)
  templates : List LibraryImportOutcome

/-- A call of `import_selected` between two entries. -/
structure ImportCall where
  subscription : TemplateSubscription
  entries : List RawEntry
  linked : List TemplateImport
  web : Web
  names : List String
  seen : List String
  result : LibraryImportResult

structure State where
  templates : Templates
  subscriptions : Table TemplateSubscription TemplateSubscription.id
  imports : Links
  call : Option ImportCall

/-- The arguments of `persist_entry`. -/
structure Persist where
  subscription : TemplateSubscription
  entry : RawEntry
  name : String
  har : Json
  linkedTemplateId : Option Int

structure ApplyLibraryTemplate where
  entry : String
  templateId : Option Int
  name : String
  har : Json

def Persist.pair (p : Persist) : Int × String := (p.subscription.id,p.entry.name)

/-- `owner_id=? AND name=? AND source_format='qd_har' ORDER BY id LIMIT 1`. -/
def findTemplateByName (templates : Templates) (ownerId : Int) (name : String) : Option Int :=
  (templates.rows.find? fun row => decide (row.ownerId = some ownerId) && row.name == name && !row.source.isNative).map
    TemplateRow.id

def listTemplateImports (imports : Links) (subscriptionId : Int) : List TemplateImport :=
  imports.rows.filter fun link => link.subscriptionId == subscriptionId

def installed (imports : List TemplateImport) (name : String) : Option TemplateImport :=
  (imports.filter fun link => link.entryName == name).getLast?

/-- The link of an entry, with the template, version and URL recorded for it. -/
def TemplateImport.record (templateId : Int) (entry : RawEntry) (link : TemplateImport) : TemplateImport :=
  { link with templateId, entryVersion := entry.version, sourceUrl := entry.url }

theorem TemplateImport.record_id (templateId : Int) (entry : RawEntry) (link : TemplateImport) :
    (link.record templateId entry).id = link.id := rfl

def isLink (pair : Int × String) (link : TemplateImport) : Bool := link.subscriptionId == pair.1 && link.entryName == pair.2

def newLink (subscriptionId templateId : Int) (entry : RawEntry) (id : Int) : TemplateImport :=
  ⟨id,subscriptionId,templateId,entry.name,entry.version,entry.url⟩

theorem newLink_id (subscriptionId templateId : Int) (entry : RawEntry) (id : Int) :
    (newLink subscriptionId templateId entry id).id = id := rfl

def recordTemplateImport (imports : Links) (subscriptionId templateId : Int) (entry : RawEntry) : Links :=
  let chosen := isLink (subscriptionId,entry.name)
  if imports.affected chosen = 0 then
    imports.insert (newLink subscriptionId templateId entry) (newLink_id subscriptionId templateId entry)
  else imports.update chosen (TemplateImport.record templateId entry) (TemplateImport.record_id templateId entry)

/-- The template, whether it was there before, and the state after the link is recorded. -/
def persistEntry (s : State) (p : Persist) : Except String (Int × Bool × State) :=
  let ownerId := p.subscription.ownerId
  match p.linkedTemplateId <|> findTemplateByName s.templates ownerId p.name with
  | some id => do
    let templates ← updateQdHarForOwner s.templates id ownerId p.name p.har
    ensure (s.templates.rows.any fun row => decide (row.id = id) && decide (row.ownerId = some ownerId) && !row.source.isNative)
      ("template " ++ toString id ++ " disappeared while importing")
    return (id,true,{ s with templates, imports := recordTemplateImport s.imports p.subscription.id id p.entry })
  | none => do
    let templates ← importQdHar s.templates (some ownerId) p.name p.har
    let id := s.templates.next
    return (id,false,{ s with templates, imports := recordTemplateImport s.imports p.subscription.id id p.entry })

/-- A document that `parse_qd` accepts. -/
def checkHar (name : String) (har : Json) : Except String Unit :=
  match QdHar.parseQd har with
  | .ok _ => .ok ()
  | .error _ => .error (name ++ " is not a valid QD HAR template")

/-- The first half of `import_entry`. -/
def prepareEntry (call : ImportCall) (entry : RawEntry) : Except String Persist := do
  let har ← resolveHar call.web (parseGithubUrl call.subscription.url) entry
  checkHar entry.name har
  return ⟨call.subscription,entry,entry.name,har,(installed call.linked entry.name).map TemplateImport.templateId⟩

def importEntry (s : State) (call : ImportCall) (entry : RawEntry) : Except String (Int × Bool × State) :=
  prepareEntry call entry >>= persistEntry s

def bounded (message : String) : String :=
  let cut := String.ofList (message.toList.take 4096)
  if 4096 < message.length then cut ++ "..." else cut

def LibraryImportResult.fail (result : LibraryImportResult) (name error : String) : LibraryImportResult :=
  { result with failed := result.failed ++ [(name,error)] }

def LibraryImportResult.add (result : LibraryImportResult) (name : String) (templateId : Int) (updated : Bool) :
    LibraryImportResult where
  imported := if updated then result.imported else result.imported + 1
  updated := if updated then result.updated + 1 else result.updated
  failed := result.failed
  templates := result.templates ++ [⟨name,templateId,updated⟩]

/-- One round of the loop over the selected names. -/
def importNext (s : State) (call : ImportCall) (name : String) : LibraryImportResult × State :=
  if name ∈ call.seen then (call.result,s)
  else match byName call.entries name with
    | none => (call.result.fail name "this source does not offer that template",s)
    | some entry => match importEntry s call entry with
      | .error error => (call.result.fail name (bounded error),s)
      | .ok (templateId,updated,t) => (call.result.add entry.name templateId updated,t)

def getSubscription (s : State) (id ownerId : Int) : Option TemplateSubscription :=
  (s.subscriptions.find id).filter fun subscription => subscription.ownerId = ownerId

/-- Up to the loop of `import_selected`. -/
def beginImport (s : State) (id ownerId : Int) (names : List String) (web : Web) : Option State := do
  let subscription ← getSubscription s id ownerId
  if names.isEmpty then none
  else
    let entries ← (catalogue web subscription.url).toOption
    return { s with call := some ⟨subscription,entries,listTemplateImports s.imports id,web,names,[],⟨0,0,[],[]⟩⟩ }

/-- `apply` up to `persist_entry`. The catalogue may be a copy. -/
def prepareApply (subscription : TemplateSubscription) (input : ApplyLibraryTemplate) (web : Web) : Except String Persist := do
  ensure (!Text.blankBy Text.whiteSpace input.name) "the template needs a name"
  let entries ← catalogue web subscription.url
  match byName entries input.entry with
  | none => .error ("this source does not offer " ++ input.entry)
  | some entry => do
    checkHar input.name input.har
    return ⟨subscription,entry,input.name,input.har,input.templateId⟩

def validUrl (url : String) : Bool := startsWith url "https://" || startsWith url "http://"

def validName (name : String) : Bool := trim name ≠ "" && name.utf8ByteSize ≤ 255

def createSubscription (s : State) (ownerId : Int) (name url : String) : Option State :=
  if validName (trim name) && validUrl (trim url) then
    some { s with subscriptions := s.subscriptions.insert (fun id => ⟨id,ownerId,trim name,trim url⟩) fun _ => rfl }
  else none

def TemplateSubscription.rename (name url : String) (subscription : TemplateSubscription) : TemplateSubscription :=
  { subscription with name := trim name, url := trim url }

theorem TemplateSubscription.rename_id (name url : String) (subscription : TemplateSubscription) :
    (subscription.rename name url).id = subscription.id := rfl

def updateSubscription (s : State) (id ownerId : Int) (name url : Option String) : Option State := do
  let current ← getSubscription s id ownerId
  let name := name.getD current.name
  let url := url.getD current.url
  if validName name && validUrl url then
    let subscriptions := s.subscriptions.update (fun row => decide (row.id = id) && decide (row.ownerId = ownerId))
      (TemplateSubscription.rename name url) (TemplateSubscription.rename_id name url)
    return { s with subscriptions }
  else none

def deleteSubscription (s : State) (id ownerId : Int) : Option State := do
  let _ ← getSubscription s id ownerId
  let imports := s.imports.delete fun link => link.subscriptionId == id
  let subscriptions := s.subscriptions.delete fun row => decide (row.id = id) && decide (row.ownerId = ownerId)
  return { s with imports, subscriptions }

/-- The links a call on templates leaves: those of a deleted template are deleted. -/
def linksAfter (s : State) : TemplateCall → Links
  | .delete id ownerId => match s.templates.get id ownerId with
    | some found => s.imports.delete fun link => link.templateId == found.id
    | none => s.imports
  | _ => s.imports

/-- What users do. `next` is one more entry of the import that is running. -/
inductive Action where
  | importSelected (id ownerId : Int) (names : List String) (web : Web)
  | next
  | apply (id ownerId : Int) (input : ApplyLibraryTemplate) (web : Web)
  | template (call : TemplateCall)
  | createSubscription (ownerId : Int) (name url : String)
  | updateSubscription (id ownerId : Int) (name url : Option String)
  | deleteSubscription (id ownerId : Int)

def ImportCall.advance (call : ImportCall) (name : String) (rest : List String) (result : LibraryImportResult) : ImportCall :=
  { call with names := rest, seen := name :: call.seen, result }

def stepNext (s : State) (call : ImportCall) : State :=
  match call.names with
  | [] => { s with call := none }
  | name :: rest =>
    let (result,t) := importNext s call name
    { t with call := some (call.advance name rest result) }

def stepIdle (s : State) : Action → Option State
  | .importSelected id ownerId names web => beginImport s id ownerId names web
  | .next => none
  | .apply id ownerId input web => do
    let subscription ← getSubscription s id ownerId
    let persist ← (prepareApply subscription input web).toOption
    let (_,_,t) ← (persistEntry s persist).toOption
    return t
  | .template call => (templateStep s.templates call).map fun templates =>
    { s with templates, imports := linksAfter s call }
  | .createSubscription ownerId name url => createSubscription s ownerId name url
  | .updateSubscription id ownerId name url => updateSubscription s id ownerId name url
  | .deleteSubscription id ownerId => deleteSubscription s id ownerId

/-- Calls follow one another: nothing else is done while an import is running. -/
def step (s : State) (a : Action) : Option State :=
  match s.call with
  | none => stepIdle s a
  | some call => match a with
    | .next => some (stepNext s call)
    | _ => none

def init : State := ⟨⟨[],1⟩,Table.empty,Table.empty,none⟩

/-- A document that is stored under a name. -/
structure Acceptable (name : String) (har : Json) : Prop where
  name : validateTemplateName name = .ok ()
  har : ∃ read, QdHar.parseQd har = .ok read

/-- The file of an offered entry can be had and is a template. -/
def Importable (call : ImportCall) (entry : RawEntry) (har : Json) : Prop :=
  resolveHar call.web (parseGithubUrl call.subscription.url) entry = .ok har ∧ Acceptable entry.name har

/-- The entry whose turn it is. -/
def ImportCall.Next (call : ImportCall) (name : String) : Prop :=
  name ∉ call.seen ∧ ∃ rest, call.names = name :: rest

/-- What a step is about to persist. -/
def persisting (s : State) : Action → Option Persist
  | .next => do
    let call ← s.call
    let name ← call.names.head?
    if name ∈ call.seen then none
    else
      let entry ← byName call.entries name
      (prepareEntry call entry).toOption
  | .apply id ownerId input web => do
    let subscription ← getSubscription s id ownerId
    (prepareApply subscription input web).toOption
  | _ => none

/-- The link table is a function, and no two entries share a template. -/
structure LinksSound (s : State) : Prop where
  unique : ∀ a ∈ s.imports.rows, ∀ b ∈ s.imports.rows, a.pair = b.pair → a = b
  injective : ∀ a ∈ s.imports.rows, ∀ b ∈ s.imports.rows, a.templateId = b.templateId → a = b

/-- What a step leaves to the entries: the templates of the others are as they were, and
the file whose turn it was has a template with its content. -/
structure EntriesKept (s : State) (a : Action) (t : State) : Prop where
  others : ∀ p, persisting s a = some p → ∀ link ∈ s.imports.rows, link.pair ≠ p.pair →
    link ∈ t.imports.rows ∧ (t.templates.rows.filter fun row => row.id == link.templateId) =
      s.templates.rows.filter fun row => row.id == link.templateId
  own : ∀ call name entry har, s.call = some call → a = .next → call.Next name → entry ∈ call.entries →
    entry.name = name → Importable call entry har →
    ∃ link ∈ t.imports.rows, link.pair = (call.subscription.id,name) ∧
      ∃ row ∈ t.templates.rows, row.id = link.templateId ∧ row.name = name ∧ row.source = .qdHar har

/-- An entry without a link finds no template of another entry under its name, and no other
file of the source stands for it. -/
structure Apart (s : State) (a : Action) : Prop where
  applied : ∀ id ownerId input web, a = .apply id ownerId input web → input.templateId = none
  target : ∀ p id, persisting s a = some p → Acceptable p.name p.har → p.linkedTemplateId = none →
    findTemplateByName s.templates p.subscription.ownerId p.name = some id →
    ∀ link ∈ s.imports.rows, link.templateId = id → link.pair = p.pair
  offered : ∀ call name entry har, s.call = some call → a = .next → call.Next name → entry ∈ call.entries →
    entry.name = name → Importable call entry har → byName call.entries name = some entry

/-- Templates have their own ids, below the next one. -/
structure Keyed (templates : Templates) : Prop where
  bounded : ∀ row ∈ templates.rows, row.id < templates.next
  unique : ∀ a ∈ templates.rows, ∀ b ∈ templates.rows, a.id = b.id → a = b

/-- An owner has a HAR template with an id. -/
def Holds (templates : Templates) (id ownerId : Int) : Prop :=
  ∃ row ∈ templates.rows, row.id = id ∧ row.ownerId = some ownerId ∧ row.source.isNative = false

section Templates

variable {templates after : Templates} {id ownerId : Int}

theorem mem_write {select : TemplateRow → Bool} {change : TemplateRow → TemplateRow} {row : TemplateRow} :
    row ∈ (templates.write select change).rows ↔ ∃ old ∈ templates.rows, row = if select old then change old else old := by
  simp only [Templates.write,List.mem_map]
  exact exists_congr fun old => and_congr_right fun _ => eq_comm

theorem keyed_insert (keyed : Keyed templates) (owner : Option Int) (name : String) (source : TemplateSource) :
    Keyed (templates.insert owner name source) := by
  constructor
  · intro row there
    rcases List.mem_append.mp there with old | new
    · exact Int.lt_trans (keyed.bounded row old) (Int.lt_succ _)
    · cases List.mem_singleton.mp new
      exact Int.lt_succ _
  · intro a first b second same
    rcases List.mem_append.mp first with old | new
    · rcases List.mem_append.mp second with old' | new'
      · exact keyed.unique a old b old' same
      · cases List.mem_singleton.mp new'
        exact absurd same (Int.ne_of_lt (keyed.bounded a old))
    · cases List.mem_singleton.mp new
      rcases List.mem_append.mp second with old' | new'
      · exact absurd same.symm (Int.ne_of_lt (keyed.bounded b old'))
      · exact (List.mem_singleton.mp new').symm

theorem keyed_write (keyed : Keyed templates) {select : TemplateRow → Bool} {change : TemplateRow → TemplateRow}
    (keeps : ∀ row, (change row).id = row.id) : Keyed (templates.write select change) := by
  have id_eq : ∀ row, (if select row then change row else row).id = row.id := by
    intro row
    split
    · exact keeps row
    · rfl
  constructor
  · intro row there
    obtain ⟨old,before,rfl⟩ := mem_write.mp there
    rw [id_eq]
    exact keyed.bounded old before
  · intro a first b second same
    obtain ⟨old,before,rfl⟩ := mem_write.mp first
    obtain ⟨old',before',rfl⟩ := mem_write.mp second
    rw [id_eq,id_eq] at same
    rw [keyed.unique old before old' before' same]

theorem keyed_filter (keyed : Keyed templates) (keep : TemplateRow → Bool) :
    Keyed { templates with rows := templates.rows.filter keep } where
  bounded := fun row there => keyed.bounded row (List.mem_of_mem_filter there)
  unique := fun a first b second => keyed.unique a (List.mem_of_mem_filter first) b (List.mem_of_mem_filter second)

theorem holds_insert (holds : Holds templates id ownerId) (owner : Option Int) (name : String) (source : TemplateSource) :
    Holds (templates.insert owner name source) id ownerId := by
  obtain ⟨row,there,same⟩ := holds
  exact ⟨row,List.mem_append_left _ there,same⟩

/-- A write that leaves owners and makes nothing native leaves HAR templates. -/
theorem holds_write (holds : Holds templates id ownerId) {select : TemplateRow → Bool} {change : TemplateRow → TemplateRow}
    (keeps : ∀ row ∈ templates.rows, select row = true → (change row).id = row.id ∧ (change row).ownerId = row.ownerId ∧
      (row.source.isNative = false → (change row).source.isNative = false)) :
    Holds (templates.write select change) id ownerId := by
  obtain ⟨row,there,keyed,owned,har⟩ := holds
  refine ⟨_,mem_write.mpr ⟨row,there,rfl⟩,?_⟩
  split
  · next chosen =>
    obtain ⟨key,owner,native⟩ := keeps row there chosen
    exact ⟨key.trans keyed,owner.trans owned,native har⟩
  · exact ⟨keyed,owned,har⟩

theorem get_mem {owner : Option Int} {row : TemplateRow} (found : templates.get id owner = some row) :
    row ∈ templates.rows ∧ row.id = id := by
  have visible := List.find?_some found
  simp only [TemplateRow.visibleTo,Bool.and_eq_true,decide_eq_true_eq] at visible
  exact ⟨List.mem_of_find?_eq_some found,visible.1⟩

/-- A call on templates. -/
theorem template_step (keyed : Keyed templates) {call : TemplateCall} (taken : templateStep templates call = some after) :
    Keyed after ∧ ∀ id ownerId, Holds templates id ownerId →
      (∀ i owner found, call = .delete i owner → templates.get i owner = some found → found.id ≠ id) →
      Holds after id ownerId := by
  cases call with
  | create owner name definition =>
    obtain ⟨_,done⟩ := check_ok.mp (toOption_ok.mp taken)
    obtain ⟨_,done⟩ := check_ok.mp done
    cases done
    exact ⟨keyed_insert keyed _ _ _,fun _ _ holds _ => holds_insert holds _ _ _⟩
  | importHar owner name har =>
    obtain ⟨_,done⟩ := check_ok.mp (toOption_ok.mp taken)
    obtain ⟨_,_,done⟩ := bind_ok.mp done
    cases done
    exact ⟨keyed_insert keyed _ _ _,fun _ _ holds _ => holds_insert holds _ _ _⟩
  | updateHar i owner name har =>
    obtain ⟨_,done⟩ := check_ok.mp (toOption_ok.mp taken)
    obtain ⟨_,_,done⟩ := bind_ok.mp done
    cases done
    refine ⟨keyed_write keyed fun _ => rfl,fun _ _ holds _ => holds_write holds fun row _ _ => ⟨rfl,rfl,fun _ => rfl⟩⟩
  | update i owner name definition =>
    have done := toOption_ok.mp taken
    unfold updateTemplate at done
    cases found : templates.get i owner with
    | none =>
      rw [found] at done
      cases done
      exact ⟨keyed,fun _ _ holds _ => holds⟩
    | some current =>
      rw [found] at done
      obtain ⟨_,done⟩ := check_ok.mp done
      cases kind : current.source with
      | qdHar source =>
        rw [kind] at done
        cases done
      | nativeV1 stored =>
        rw [kind] at done
        obtain ⟨_,done⟩ := check_ok.mp done
        cases done
        refine ⟨keyed_write keyed fun _ => rfl,fun _ _ holds _ => holds_write holds fun row there chosen => ⟨rfl,rfl,?_⟩⟩
        simp only [TemplateRow.visibleTo,Bool.and_eq_true,decide_eq_true_eq] at chosen
        -- the only row with this id is the native one
        rw [keyed.unique row there current (get_mem found).1 (chosen.1.trans (get_mem found).2.symm),kind]
        rintro ⟨⟩
  | publish i owner published =>
    cases taken
    exact ⟨keyed_write keyed fun _ => rfl,fun _ _ holds _ => holds_write holds fun row _ _ => ⟨rfl,rfl,fun har => har⟩⟩
  | copy i owner =>
    cases taken
    unfold copyPublicTemplate
    split
    · exact ⟨keyed,fun _ _ holds _ => holds⟩
    · exact ⟨keyed_insert keyed _ _ _,fun _ _ holds _ => holds_insert holds _ _ _⟩
  | delete i owner =>
    cases taken
    unfold deleteTemplate
    cases found : templates.get i owner with
    | none => exact ⟨keyed,fun _ _ holds _ => holds⟩
    | some row =>
      refine ⟨keyed_filter keyed _,fun id ownerId holds other => ?_⟩
      obtain ⟨kept,there,same,rest⟩ := holds
      refine ⟨kept,List.mem_filter.mpr ⟨there,?_⟩,same,rest⟩
      have differs := other i owner row rfl found
      rw [bne_iff_ne,same]
      exact Ne.symm differs

end Templates

section Record

variable {imports : Links} {subscriptionId templateId : Int} {entry : RawEntry}

theorem isLink_iff {pair : Int × String} {link : TemplateImport} : isLink pair link = true ↔ link.pair = pair := by
  simp only [isLink,TemplateImport.pair,Bool.and_eq_true,beq_iff_eq,Prod.ext_iff]

theorem unlinked_of_affected {pair : Int × String} (none : imports.affected (isLink pair) = 0) :
    ∀ link ∈ imports.rows, link.pair ≠ pair :=
  fun link there same => List.countP_eq_zero.mp none link there (isLink_iff.mpr same)

theorem record_pair (link : TemplateImport) : (link.record templateId entry).pair = link.pair := rfl

/-- The links after one is recorded. -/
theorem record_cases {link : TemplateImport} (there : link ∈ (recordTemplateImport imports subscriptionId templateId entry).rows) :
    (link ∈ imports.rows ∧ link.pair ≠ (subscriptionId,entry.name)) ∨
      (link.pair = (subscriptionId,entry.name) ∧ link.templateId = templateId) := by
  simp only [recordTemplateImport] at there
  split at there
  · next none =>
    rcases (imports.mem_insert (newLink_id _ _ _)).mp there with old | rfl
    · exact .inl ⟨old,unlinked_of_affected none link old⟩
    · exact .inr ⟨rfl,rfl⟩
  · obtain ⟨old,before,rfl⟩ := (imports.mem_update (TemplateImport.record_id _ _)).mp there
    split
    · next chosen => exact .inr ⟨isLink_iff.mp chosen,rfl⟩
    · next other => exact .inl ⟨before,fun same => other (isLink_iff.mpr same)⟩

theorem record_other {link : TemplateImport} (there : link ∈ imports.rows) (other : link.pair ≠ (subscriptionId,entry.name)) :
    link ∈ (recordTemplateImport imports subscriptionId templateId entry).rows := by
  simp only [recordTemplateImport]
  split
  · exact (imports.mem_insert (newLink_id _ _ _)).mpr (.inl there)
  · refine (imports.mem_update (TemplateImport.record_id _ _)).mpr ⟨link,there,(if_neg ?_).symm⟩
    exact fun chosen => other (isLink_iff.mp chosen)

theorem record_there : ∃ link ∈ (recordTemplateImport imports subscriptionId templateId entry).rows,
    link.pair = (subscriptionId,entry.name) ∧ link.templateId = templateId := by
  simp only [recordTemplateImport]
  split
  · exact ⟨_,(imports.mem_insert (newLink_id _ _ _)).mpr (.inr rfl),rfl,rfl⟩
  · next some =>
    obtain ⟨link,there,chosen⟩ := List.countP_pos_iff.mp (Nat.pos_of_ne_zero some)
    refine ⟨_,(imports.mem_update (TemplateImport.record_id _ _)).mpr ⟨link,there,rfl⟩,?_⟩
    rw [if_pos chosen]
    exact ⟨isLink_iff.mp chosen,rfl⟩

theorem record_unique (unique : ∀ a ∈ imports.rows, ∀ b ∈ imports.rows, a.pair = b.pair → a = b) :
    ∀ a ∈ (recordTemplateImport imports subscriptionId templateId entry).rows,
      ∀ b ∈ (recordTemplateImport imports subscriptionId templateId entry).rows, a.pair = b.pair → a = b := by
  intro a first b second same
  simp only [recordTemplateImport] at first second
  split at first
  · next none =>
    rw [if_pos none] at second
    have absent := unlinked_of_affected none
    rcases (imports.mem_insert (newLink_id _ _ _)).mp first with old | rfl
    · rcases (imports.mem_insert (newLink_id _ _ _)).mp second with old' | rfl
      · exact unique a old b old' same
      · exact absurd same (absent a old)
    · rcases (imports.mem_insert (newLink_id _ _ _)).mp second with old' | rfl
      · exact absurd same.symm (absent b old')
      · rfl
  · next some =>
    rw [if_neg some] at second
    obtain ⟨old,before,rfl⟩ := (imports.mem_update (TemplateImport.record_id _ _)).mp first
    obtain ⟨old',before',rfl⟩ := (imports.mem_update (TemplateImport.record_id _ _)).mp second
    have pair_eq : ∀ link : TemplateImport,
        (if isLink (subscriptionId,entry.name) link then link.record templateId entry else link).pair = link.pair := by
      intro link
      split <;> rfl
    rw [pair_eq,pair_eq] at same
    rw [unique old before old' before' same]

end Record

section Persist

variable {s t : State} {p : Persist} {id : Int} {updated : Bool}

/-- The template an entry is written to, if there is one. -/
def Persist.existing (p : Persist) (s : State) : Option Int :=
  p.linkedTemplateId <|> findTemplateByName s.templates p.subscription.ownerId p.name

/-- What `persist_entry` has done. -/
structure Persisted (s : State) (p : Persist) (id : Int) (t : State) : Prop where
  imports : t.imports = recordTemplateImport s.imports p.subscription.id id p.entry
  subscriptions : t.subscriptions = s.subscriptions
  call : t.call = s.call
  keyed : Keyed s.templates → Keyed t.templates
  holds : ∀ i ownerId, Holds s.templates i ownerId → Holds t.templates i ownerId
  written : ∃ row ∈ t.templates.rows, row.id = id ∧ row.ownerId = some p.subscription.ownerId ∧ row.name = p.name ∧
    row.source = .qdHar p.har
  others : ∀ other, other ≠ id → (t.templates.rows.filter fun row => row.id == other) =
    s.templates.rows.filter fun row => row.id == other

theorem acceptable_of_update {templates after : Templates} {ownerId : Int} {name : String} {har : Json}
    (done : updateQdHarForOwner templates id ownerId name har = .ok after) : Acceptable name har ∧
      after = templates.write (fun row => row.id = id && row.ownerId = some ownerId && !row.source.isNative)
        fun row => { row with name := name, source := .qdHar har } := by
  obtain ⟨valid,done⟩ := check_ok.mp done
  obtain ⟨read,parsed,done⟩ := bind_ok.mp done
  cases done
  exact ⟨⟨valid,read,parsed⟩,rfl⟩

theorem acceptable_of_import {templates after : Templates} {owner : Option Int} {name : String} {har : Json}
    (done : importQdHar templates owner name har = .ok after) : Acceptable name har ∧
      after = templates.insert owner name (.qdHar har) := by
  obtain ⟨valid,done⟩ := check_ok.mp done
  obtain ⟨read,parsed,done⟩ := bind_ok.mp done
  cases done
  exact ⟨⟨valid,read,parsed⟩,rfl⟩

theorem persisted_refresh {ownerId : Int} (owner : p.subscription.ownerId = ownerId)
    (there : s.templates.rows.any (fun row => decide (row.id = id) && decide (row.ownerId = some ownerId) && !row.source.isNative) = true) :
    Persisted s p id { s with
      templates := s.templates.write (fun row => row.id = id && row.ownerId = some ownerId && !row.source.isNative)
        fun row => { row with name := p.name, source := .qdHar p.har }
      imports := recordTemplateImport s.imports p.subscription.id id p.entry } where
  imports := rfl
  subscriptions := rfl
  call := rfl
  keyed := fun keyed => keyed_write keyed fun _ => rfl
  holds := fun _ _ holds => holds_write holds fun _ _ _ => ⟨rfl,rfl,fun _ => rfl⟩
  written := by
    obtain ⟨row,present,chosen⟩ := List.any_eq_true.mp there
    refine ⟨_,mem_write.mpr ⟨row,present,rfl⟩,?_⟩
    rw [if_pos chosen,owner]
    simp only [Bool.and_eq_true,decide_eq_true_eq] at chosen
    exact ⟨chosen.1.1,chosen.1.2,rfl,rfl⟩
  others := by
    intro other differs
    rw [Templates.write,List.filter_map]
    have same : ∀ row ∈ s.templates.rows.filter ((fun row : TemplateRow => row.id == other) ∘ fun row =>
        if (decide (row.id = id) && decide (row.ownerId = some ownerId) && !row.source.isNative) = true then
          { row with name := p.name, source := .qdHar p.har } else row),
        (if (decide (row.id = id) && decide (row.ownerId = some ownerId) && !row.source.isNative) = true then
          { row with name := p.name, source := .qdHar p.har } else row) = row := by
      intro row chosen
      have keyed := (List.mem_filter.mp chosen).2
      simp only [Function.comp] at keyed
      rw [if_neg]
      intro picked
      rw [if_pos picked] at keyed
      simp only [Bool.and_eq_true,decide_eq_true_eq] at picked
      exact differs ((beq_iff_eq.mp keyed).symm.trans picked.1.1)
    rw [List.map_congr_left same,List.map_id'']
    · refine List.filter_congr fun row _ => ?_
      simp only [Function.comp]
      split <;> rfl
    · exact fun _ => rfl

theorem persisted_insert : Persisted s p s.templates.next { s with
    templates := s.templates.insert (some p.subscription.ownerId) p.name (.qdHar p.har)
    imports := recordTemplateImport s.imports p.subscription.id s.templates.next p.entry } where
  imports := rfl
  subscriptions := rfl
  call := rfl
  keyed := fun keyed => keyed_insert keyed _ _ _
  holds := fun _ _ holds => holds_insert holds _ _ _
  written := ⟨_,List.mem_append_right _ (List.mem_singleton_self _),rfl,rfl,rfl,rfl⟩
  others := by
    intro other differs
    rw [Templates.insert,List.filter_append,List.filter_cons_of_neg,List.filter_nil,List.append_nil]
    intro same
    exact differs (beq_iff_eq.mp same).symm

/-- A persisted entry: where it went, and what that did. -/
theorem persist_cases (done : persistEntry s p = .ok (id,updated,t)) :
    Acceptable p.name p.har ∧ Persisted s p id t ∧
      (p.existing s = some id ∨ p.existing s = none ∧ id = s.templates.next) := by
  simp only [persistEntry] at done
  split at done
  · next i found =>
    obtain ⟨templates,wrote,done⟩ := bind_ok.mp done
    obtain ⟨there,done⟩ := check_ok.mp done
    obtain ⟨fine,rfl⟩ := acceptable_of_update wrote
    cases done
    exact ⟨fine,persisted_refresh rfl ((ensure_ok _ _).mp there),.inl found⟩
  · next absent =>
    obtain ⟨templates,wrote,done⟩ := bind_ok.mp done
    obtain ⟨fine,rfl⟩ := acceptable_of_import wrote
    cases done
    exact ⟨fine,persisted_insert,.inr ⟨absent,rfl⟩⟩

theorem update_ok {templates : Templates} {ownerId : Int} {name : String} {har : Json} (fine : Acceptable name har) :
    updateQdHarForOwner templates id ownerId name har =
      .ok (templates.write (fun row => row.id = id && row.ownerId = some ownerId && !row.source.isNative)
        fun row => { row with name := name, source := .qdHar har }) := by
  obtain ⟨named,read,parsed⟩ := fine
  exact check_ok.mpr ⟨named,bind_ok.mpr ⟨read,parsed,rfl⟩⟩

theorem import_ok {templates : Templates} {owner : Option Int} {name : String} {har : Json} (fine : Acceptable name har) :
    importQdHar templates owner name har = .ok (templates.insert owner name (.qdHar har)) := by
  obtain ⟨named,read,parsed⟩ := fine
  exact check_ok.mpr ⟨named,bind_ok.mpr ⟨read,parsed,rfl⟩⟩

/-- Nothing is refused but a bad name, a bad document or a template that is not there. -/
theorem persist_ok (fine : Acceptable p.name p.har)
    (held : ∀ id, p.existing s = some id → Holds s.templates id p.subscription.ownerId) :
    ∃ id updated t, persistEntry s p = .ok (id,updated,t) := by
  cases found : p.existing s with
  | none =>
    have same : (p.linkedTemplateId <|> findTemplateByName s.templates p.subscription.ownerId p.name) = none := found
    simp only [persistEntry,same,import_ok fine]
    exact ⟨_,_,_,rfl⟩
  | some id =>
    have same : (p.linkedTemplateId <|> findTemplateByName s.templates p.subscription.ownerId p.name) = some id := found
    obtain ⟨row,there,keyed,owned,har⟩ := held id found
    have present : (s.templates.rows.any fun row =>
        decide (row.id = id) && decide (row.ownerId = some p.subscription.ownerId) && !row.source.isNative) = true := by
      refine List.any_eq_true.mpr ⟨row,there,?_⟩
      rw [har,keyed,owned]
      simp
    simp only [persistEntry,same,update_ok fine,present]
    exact ⟨_,_,_,rfl⟩

end Persist

/-- A link leads from a subscription to a HAR template of its owner. -/
def LinkHeld (s : State) (link : TemplateImport) : Prop :=
  ∃ subscription ∈ s.subscriptions.rows, subscription.id = link.subscriptionId ∧
    Holds s.templates link.templateId subscription.ownerId

/-- The links that an import read at its start are those of the entries to come. -/
structure CallSound (s : State) (call : ImportCall) : Prop where
  subscription : call.subscription ∈ s.subscriptions.rows
  linked : ∀ link ∈ call.linked, link.subscriptionId = call.subscription.id ∧
    (link.entryName ∉ call.seen → link ∈ s.imports.rows)

structure Inv (s : State) : Prop where
  keyed : Keyed s.templates
  links : LinksSound s
  held : ∀ link ∈ s.imports.rows, LinkHeld s link
  call : ∀ call, s.call = some call → CallSound s call

/-- A template id that is passed on is that of the entry's own link. -/
structure Aimed (s : State) (p : Persist) : Prop where
  subscription : p.subscription ∈ s.subscriptions.rows
  linked : ∀ id, p.linkedTemplateId = some id → ∃ link ∈ s.imports.rows, link.pair = p.pair ∧ link.templateId = id

section Step

variable {s t : State} {a : Action} {p : Persist} {id ownerId : Int}

theorem inv_init : Inv init where
  keyed := ⟨List.forall_mem_nil _,List.forall_mem_nil _⟩
  links := ⟨List.forall_mem_nil _,List.forall_mem_nil _⟩
  held := List.forall_mem_nil _
  call := by
    rintro _ ⟨⟩

theorem getSubscription_mem {subscription : TemplateSubscription} (found : getSubscription s id ownerId = some subscription) :
    subscription ∈ s.subscriptions.rows ∧ subscription.id = id ∧ subscription.ownerId = ownerId := by
  obtain ⟨found,owned⟩ := Option.filter_eq_some_iff.mp found
  obtain ⟨there,keyed⟩ := (s.subscriptions.find_eq_some).mp found
  exact ⟨there,keyed,by simpa using owned⟩

theorem installed_mem {linked : List TemplateImport} {name : String} {link : TemplateImport}
    (found : installed linked name = some link) : link ∈ linked ∧ link.entryName = name := by
  have there := List.mem_filter.mp (List.mem_of_getLast? found)
  exact ⟨there.1,by simpa using there.2⟩

theorem prepareEntry_ok {call : ImportCall} {entry : RawEntry} (done : prepareEntry call entry = .ok p) :
    ∃ har, resolveHar call.web (parseGithubUrl call.subscription.url) entry = .ok har ∧
      p = ⟨call.subscription,entry,entry.name,har,(installed call.linked entry.name).map TemplateImport.templateId⟩ := by
  obtain ⟨har,resolved,done⟩ := bind_ok.mp done
  obtain ⟨_,done⟩ := check_ok.mp done
  cases done
  exact ⟨har,resolved,rfl⟩

theorem prepareApply_ok {subscription : TemplateSubscription} {input : ApplyLibraryTemplate} {web : Web}
    (done : prepareApply subscription input web = .ok p) :
    p.subscription = subscription ∧ p.linkedTemplateId = input.templateId := by
  obtain ⟨_,done⟩ := check_ok.mp done
  obtain ⟨entries,_,done⟩ := bind_ok.mp done
  split at done
  · cases done
  · obtain ⟨_,done⟩ := check_ok.mp done
    cases done
    exact ⟨rfl,rfl⟩

/-- The entry whose turn it is, as the loop finds it. -/
theorem persisting_next (holds : persisting s .next = some p) : ∃ call name rest entry, s.call = some call ∧
    call.names = name :: rest ∧ name ∉ call.seen ∧ byName call.entries name = some entry ∧ prepareEntry call entry = .ok p := by
  obtain ⟨call,running,holds⟩ := Option.bind_eq_some_iff.mp holds
  obtain ⟨name,first,holds⟩ := Option.bind_eq_some_iff.mp holds
  split at holds
  · cases holds
  · next fresh =>
    obtain ⟨entry,offered,holds⟩ := Option.bind_eq_some_iff.mp holds
    obtain ⟨rest,names⟩ := List.head?_eq_some_iff.mp first
    exact ⟨call,name,rest,entry,running,names,fresh,offered,toOption_ok.mp holds⟩

theorem aimed_of_persisting (inv : Inv s) (apart : Apart s a) (holds : persisting s a = some p) : Aimed s p := by
  cases a with
  | next =>
    obtain ⟨call,name,rest,entry,running,-,fresh,offered,prepared⟩ := persisting_next holds
    have sound := inv.call call running
    obtain ⟨har,-,rfl⟩ := prepareEntry_ok prepared
    refine ⟨sound.subscription,fun id known => ?_⟩
    obtain ⟨link,found,rfl⟩ := Option.map_eq_some_iff.mp known
    obtain ⟨there,named⟩ := installed_mem found
    obtain ⟨mine,kept⟩ := sound.linked link there
    have turn := named.trans (byName_name offered).2
    exact ⟨link,kept (turn ▸ fresh),Prod.ext mine named,rfl⟩
  | apply id ownerId input web =>
    obtain ⟨subscription,found,holds⟩ := Option.bind_eq_some_iff.mp holds
    obtain ⟨same,linked⟩ := prepareApply_ok (toOption_ok.mp holds)
    refine ⟨same ▸ (getSubscription_mem found).1,fun id known => ?_⟩
    rw [linked,apart.applied _ _ _ _ rfl] at known
    cases known
  | importSelected id ownerId names web => cases holds
  | template call => cases holds
  | createSubscription ownerId name url => cases holds
  | updateSubscription id ownerId name url => cases holds
  | deleteSubscription id ownerId => cases holds

theorem found_holds {templates : Templates} {name : String} (found : findTemplateByName templates ownerId name = some id) :
    Holds templates id ownerId := by
  obtain ⟨row,first,rfl⟩ := Option.map_eq_some_iff.mp found
  have chosen := List.find?_some first
  simp only [Bool.and_eq_true,decide_eq_true_eq,Bool.not_eq_true'] at chosen
  exact ⟨row,List.mem_of_find?_eq_some first,rfl,chosen.1.1,chosen.2⟩

/-- The template an entry is written to is there and is its owner's. -/
theorem existing_holds (inv : Inv s) (aimed : Aimed s p) (found : p.existing s = some id) :
    Holds s.templates id p.subscription.ownerId := by
  cases linked : p.linkedTemplateId with
  | none =>
    rw [Persist.existing,linked] at found
    exact found_holds found
  | some known =>
    rw [Persist.existing,linked] at found
    cases found
    obtain ⟨link,there,pair,rfl⟩ := aimed.linked _ linked
    obtain ⟨subscription,present,same,holds⟩ := inv.held link there
    have mine := same.trans (Prod.ext_iff.mp pair).1
    rwa [s.subscriptions.key_unique present aimed.subscription mine] at holds

/-- The template an entry is written to is not that of another entry. -/
theorem written_own (inv : Inv s) (aimed : Aimed s p)
    (apart : p.linkedTemplateId = none → ∀ id, findTemplateByName s.templates p.subscription.ownerId p.name = some id →
      ∀ link ∈ s.imports.rows, link.templateId = id → link.pair = p.pair)
    (went : p.existing s = some id ∨ p.existing s = none ∧ id = s.templates.next) :
    ∀ link ∈ s.imports.rows, link.templateId = id → link.pair = p.pair := by
  intro link there same
  rcases went with found | ⟨-,rfl⟩
  · cases linked : p.linkedTemplateId with
    | none =>
      rw [Persist.existing,linked] at found
      exact apart linked id found link there same
    | some known =>
      rw [Persist.existing,linked] at found
      cases found
      obtain ⟨own,present,pair,id_eq⟩ := aimed.linked _ linked
      rw [inv.links.injective link there own present (same.trans id_eq.symm)]
      exact pair
  · obtain ⟨_,_,_,row,present,id_eq,_⟩ := inv.held link there
    have below := inv.keyed.bounded row present
    omega

/-- One entry is persisted: its link and its template are its own. -/
theorem inv_persist (inv : Inv s) (aimed : Aimed s p) (persisted : Persisted s p id t)
    (own : ∀ link ∈ s.imports.rows, link.templateId = id → link.pair = p.pair) (running : Option ImportCall)
    (sound : ∀ call, running = some call → CallSound { t with call := running } call) : Inv { t with call := running } where
  keyed := persisted.keyed inv.keyed
  links := by
    constructor
    · change ∀ a ∈ t.imports.rows, ∀ b ∈ t.imports.rows, a.pair = b.pair → a = b
      rw [persisted.imports]
      exact record_unique inv.links.unique
    · change ∀ a ∈ t.imports.rows, ∀ b ∈ t.imports.rows, a.templateId = b.templateId → a = b
      rw [persisted.imports]
      intro a first b second same
      rcases record_cases first with ⟨old,other⟩ | ⟨pair,target⟩
      · rcases record_cases second with ⟨old',-⟩ | ⟨-,target'⟩
        · exact inv.links.injective a old b old' same
        · exact absurd (own a old (same.trans target')) other
      · rcases record_cases second with ⟨old',other'⟩ | ⟨pair',-⟩
        · exact absurd (own b old' (same.symm.trans target)) other'
        · exact record_unique inv.links.unique a first b second (pair.trans pair'.symm)
  held := by
    change ∀ link ∈ t.imports.rows, _
    rw [persisted.imports]
    intro link there
    rcases record_cases there with ⟨old,-⟩ | ⟨pair,target⟩
    · obtain ⟨subscription,present,same,holds⟩ := inv.held link old
      exact ⟨subscription,persisted.subscriptions ▸ present,same,persisted.holds _ _ holds⟩
    · obtain ⟨row,present,keyed,owned,-,source⟩ := persisted.written
      refine ⟨p.subscription,persisted.subscriptions ▸ aimed.subscription,(Prod.ext_iff.mp pair).1.symm,row,present,?_,owned,?_⟩
      · exact keyed.trans target.symm
      · rw [source]
        rfl
  call := sound

theorem others_persist (persisted : Persisted s p id t)
    (own : ∀ link ∈ s.imports.rows, link.templateId = id → link.pair = p.pair) :
    ∀ link ∈ s.imports.rows, link.pair ≠ p.pair → link ∈ t.imports.rows ∧
      (t.templates.rows.filter fun row => row.id == link.templateId) =
        s.templates.rows.filter fun row => row.id == link.templateId := by
  intro link there other
  constructor
  · rw [persisted.imports]
    exact record_other there other
  · exact persisted.others link.templateId fun same => other (own link there same)

/-- One round of an import: nothing is written, or what was to be persisted is. -/
theorem stepNext_cases {call : ImportCall} {name : String} {rest : List String} (running : s.call = some call)
    (names : call.names = name :: rest) : ∃ result,
    ((∀ p id updated t, persisting s .next = some p → persistEntry s p ≠ .ok (id,updated,t)) ∧
      stepNext s call = { s with call := some (call.advance name rest result) }) ∨
    ∃ p id updated t, persisting s .next = some p ∧ persistEntry s p = .ok (id,updated,t) ∧
      stepNext s call = { t with call := some (call.advance name rest result) } := by
  have turn : persisting s .next =
      if name ∈ call.seen then none else (byName call.entries name).bind fun entry => (prepareEntry call entry).toOption := by
    rw [persisting,running]
    simp only [Option.bind_eq_bind,Option.bind_some,names,List.head?_cons]
  simp only [stepNext,names,importNext,importEntry,turn]
  split
  · exact ⟨call.result,.inl ⟨fun _ _ _ _ => by rintro ⟨⟩,rfl⟩⟩
  · split
    · next absent =>
      rw [absent]
      exact ⟨_,.inl ⟨fun _ _ _ _ => by rintro ⟨⟩,rfl⟩⟩
    · next entry offered =>
      rw [offered,Option.bind_some]
      cases prepared : prepareEntry call entry with
      | error reason => exact ⟨_,.inl ⟨fun _ _ _ _ => by rintro ⟨⟩,rfl⟩⟩
      | ok p =>
        cases done : persistEntry s p with
        | error reason =>
          have ran : (Except.ok p >>= persistEntry s) = .error reason := done
          rw [ran]
          refine ⟨call.result.fail name (bounded reason),.inl ⟨?_,rfl⟩⟩
          rintro _ id updated t ⟨⟩ same
          rw [done] at same
          cases same
        | ok outcome =>
          obtain ⟨id,updated,t⟩ := outcome
          have ran : (Except.ok p >>= persistEntry s) = .ok (id,updated,t) := done
          rw [ran]
          exact ⟨call.result.add entry.name id updated,.inr ⟨p,id,updated,t,rfl,done,rfl⟩⟩

theorem advance_sound {call : ImportCall} {name : String} {rest : List String} {result : LibraryImportResult}
    (sound : CallSound s call) (subscriptions : t.subscriptions = s.subscriptions)
    (kept : ∀ link ∈ s.imports.rows, link.pair ≠ (call.subscription.id,name) → link ∈ t.imports.rows) :
    CallSound { t with call := some (call.advance name rest result) } (call.advance name rest result) where
  subscription := by
    change call.subscription ∈ t.subscriptions.rows
    rw [subscriptions]
    exact sound.subscription
  linked := by
    intro link there
    obtain ⟨mine,present⟩ := sound.linked link there
    refine ⟨mine,fun fresh => ?_⟩
    have unseen : link.entryName ∉ call.seen := fun old => fresh (List.mem_cons_of_mem _ old)
    exact kept link (present unseen) fun same => fresh (List.mem_cons.mpr (.inl (Prod.ext_iff.mp same).2))

theorem inv_next (inv : Inv s) (apart : Apart s .next) {call : ImportCall} (running : s.call = some call) :
    Inv (stepNext s call) := by
  have sound := inv.call call running
  cases names : call.names with
  | nil =>
    rw [stepNext,names]
    exact ⟨inv.keyed,⟨inv.links.unique,inv.links.injective⟩,inv.held,by rintro _ ⟨⟩⟩
  | cons name rest =>
    obtain ⟨result,⟨-,same⟩ | ⟨p,id,updated,t,holds,done,same⟩⟩ := stepNext_cases running names
    · rw [same]
      refine ⟨inv.keyed,⟨inv.links.unique,inv.links.injective⟩,inv.held,?_⟩
      rintro _ ⟨⟩
      exact advance_sound sound rfl fun link there _ => there
    · rw [same]
      have aimed := aimed_of_persisting inv apart holds
      obtain ⟨fine,persisted,went⟩ := persist_cases done
      have own := written_own inv aimed (fun linked id => apart.target p id holds fine linked) went
      have pair : p.pair = (call.subscription.id,name) := by
        obtain ⟨_,_,_,entry,running',names',-,offered,prepared⟩ := persisting_next holds
        obtain ⟨har,-,rfl⟩ := prepareEntry_ok prepared
        cases running.symm.trans running'
        cases names.symm.trans names'
        exact Prod.ext rfl (byName_name offered).2
      refine inv_persist inv aimed persisted own _ ?_
      rintro _ ⟨⟩
      refine advance_sound sound persisted.subscriptions fun link there other => ?_
      exact (others_persist persisted own link there (pair ▸ other)).1

theorem links_subset (links : LinksSound s) (fewer : ∀ link ∈ t.imports.rows, link ∈ s.imports.rows) : LinksSound t where
  unique := fun a first b second => links.unique a (fewer a first) b (fewer b second)
  injective := fun a first b second => links.injective a (fewer a first) b (fewer b second)

theorem inv_begin (inv : Inv s) {names : List String} {web : Web} (taken : beginImport s id ownerId names web = some t) :
    Inv t := by
  obtain ⟨subscription,found,taken⟩ := Option.bind_eq_some_iff.mp taken
  obtain ⟨there,rfl,-⟩ := getSubscription_mem found
  split at taken
  · cases taken
  · obtain ⟨entries,-,done⟩ := Option.bind_eq_some_iff.mp taken
    cases done
    refine ⟨inv.keyed,⟨inv.links.unique,inv.links.injective⟩,inv.held,?_⟩
    rintro _ ⟨⟩
    refine ⟨there,fun link linked => ?_⟩
    obtain ⟨present,mine⟩ := List.mem_filter.mp linked
    exact ⟨by simpa using mine,fun _ => present⟩

theorem inv_template (inv : Inv s) (idle : s.call = none) {call : TemplateCall} {templates : Templates}
    (taken : templateStep s.templates call = some templates) : Inv { s with templates, imports := linksAfter s call } := by
  obtain ⟨keyed,holds⟩ := template_step inv.keyed taken
  have fewer : ∀ link ∈ (linksAfter s call).rows, link ∈ s.imports.rows ∧
      ∀ i owner found, call = .delete i owner → s.templates.get i owner = some found → found.id ≠ link.templateId := by
    intro link there
    cases call with
    | delete i owner =>
      simp only [linksAfter] at there
      split at there
      · next found got =>
        obtain ⟨present,kept⟩ := s.imports.mem_delete.mp there
        refine ⟨present,?_⟩
        rintro _ _ other ⟨⟩ again same
        cases got.symm.trans again
        rw [← same,beq_self_eq_true] at kept
        cases kept
      · next none =>
        refine ⟨there,?_⟩
        rintro _ _ other ⟨⟩ again
        rw [none] at again
        cases again
    | create owner name definition => exact ⟨there,by rintro _ _ _ ⟨⟩⟩
    | importHar owner name har => exact ⟨there,by rintro _ _ _ ⟨⟩⟩
    | updateHar i owner name har => exact ⟨there,by rintro _ _ _ ⟨⟩⟩
    | update i owner name definition => exact ⟨there,by rintro _ _ _ ⟨⟩⟩
    | publish i owner published => exact ⟨there,by rintro _ _ _ ⟨⟩⟩
    | copy i owner => exact ⟨there,by rintro _ _ _ ⟨⟩⟩
  refine ⟨keyed,links_subset inv.links fun link there => (fewer link there).1,fun link there => ?_,?_⟩
  · obtain ⟨present,left⟩ := fewer link there
    obtain ⟨subscription,known,same,held⟩ := inv.held link present
    exact ⟨subscription,known,same,holds _ _ held left⟩
  · intro call running
    rw [idle] at running
    cases running

/-- Changes of subscriptions that leave those of the remaining links to their owners. -/
theorem inv_subscriptions (inv : Inv s) (idle : t.call = none) (templates : t.templates = s.templates)
    (fewer : ∀ link ∈ t.imports.rows, link ∈ s.imports.rows ∧ ∀ subscription ∈ s.subscriptions.rows,
      subscription.id = link.subscriptionId → ∃ after ∈ t.subscriptions.rows, after.id = subscription.id ∧
        after.ownerId = subscription.ownerId) : Inv t where
  keyed := templates ▸ inv.keyed
  links := links_subset inv.links fun link there => (fewer link there).1
  held := by
    intro link there
    obtain ⟨present,kept⟩ := fewer link there
    obtain ⟨subscription,known,same,holds⟩ := inv.held link present
    obtain ⟨after,member,id_eq,owner⟩ := kept subscription known same
    refine ⟨after,member,id_eq.trans same,?_⟩
    rw [owner,templates]
    exact holds
  call := by
    intro call running
    rw [idle] at running
    cases running

theorem inv_idle (inv : Inv s) (apart : Apart s a) (idle : s.call = none) (taken : stepIdle s a = some t) : Inv t := by
  cases a with
  | importSelected id ownerId names web => exact inv_begin inv taken
  | next => cases taken
  | apply id ownerId input web =>
    obtain ⟨subscription,found,taken⟩ := Option.bind_eq_some_iff.mp taken
    obtain ⟨p,prepared,taken⟩ := Option.bind_eq_some_iff.mp taken
    obtain ⟨⟨target,updated,after⟩,done,same⟩ := Option.bind_eq_some_iff.mp taken
    cases same
    have holds : persisting s (.apply id ownerId input web) = some p := Option.bind_eq_some_iff.mpr ⟨subscription,found,prepared⟩
    have aimed := aimed_of_persisting inv apart holds
    obtain ⟨fine,persisted,went⟩ := persist_cases (toOption_ok.mp done)
    have own := written_own inv aimed (fun linked i => apart.target p i holds fine linked) went
    have nothing : ∀ call, t.call = some call → CallSound { t with call := t.call } call := by
      intro call running
      rw [persisted.call,idle] at running
      cases running
    exact inv_persist inv aimed persisted own t.call nothing
  | template call =>
    obtain ⟨templates,ran,rfl⟩ := Option.map_eq_some_iff.mp taken
    exact inv_template inv idle ran
  | createSubscription ownerId name url =>
    simp only [stepIdle,createSubscription] at taken
    split at taken
    · cases taken
      refine inv_subscriptions inv idle rfl fun link there => ⟨there,fun subscription known _ => ?_⟩
      exact ⟨subscription,(s.subscriptions.mem_insert _).mpr (.inl known),rfl,rfl⟩
    · cases taken
  | updateSubscription id ownerId name url =>
    obtain ⟨current,-,taken⟩ := Option.bind_eq_some_iff.mp taken
    dsimp only at taken
    split at taken
    · cases taken
      refine inv_subscriptions inv idle rfl fun link there => ⟨there,fun subscription known _ => ?_⟩
      refine ⟨_,(s.subscriptions.mem_update (TemplateSubscription.rename_id _ _)).mpr ⟨subscription,known,rfl⟩,?_⟩
      split <;> exact ⟨rfl,rfl⟩
    · cases taken
  | deleteSubscription id ownerId =>
    obtain ⟨current,-,taken⟩ := Option.bind_eq_some_iff.mp taken
    cases taken
    refine inv_subscriptions inv idle rfl fun link there => ?_
    obtain ⟨present,other⟩ := s.imports.mem_delete.mp there
    refine ⟨present,fun subscription known same => ⟨subscription,s.subscriptions.mem_delete.mpr ⟨known,?_⟩,rfl,rfl⟩⟩
    rw [same]
    simp only [beq_eq_false_iff_ne] at other
    simp [other]

theorem inv_step (inv : Inv s) (apart : Apart s a) (taken : step s a = some t) : Inv t := by
  rw [step] at taken
  split at taken
  · next idle => exact inv_idle inv apart idle taken
  · next call running =>
    cases a with
    | next =>
      cases taken
      exact inv_next inv apart running
    | importSelected id ownerId names web => cases taken
    | apply id ownerId input web => cases taken
    | template call => cases taken
    | createSubscription ownerId name url => cases taken
    | updateSubscription id ownerId name url => cases taken
    | deleteSubscription id ownerId => cases taken

/-- What is persisted leaves the templates of the other entries alone. -/
theorem others_step (inv : Inv s) (apart : Apart s a) (taken : step s a = some t) (holds : persisting s a = some p) :
    ∀ link ∈ s.imports.rows, link.pair ≠ p.pair → link ∈ t.imports.rows ∧
      (t.templates.rows.filter fun row => row.id == link.templateId) =
        s.templates.rows.filter fun row => row.id == link.templateId := by
  have aimed := aimed_of_persisting inv apart holds
  have spec : ∀ id updated after, persistEntry s p = .ok (id,updated,after) → ∀ link ∈ s.imports.rows, link.pair ≠ p.pair →
      link ∈ after.imports.rows ∧ (after.templates.rows.filter fun row => row.id == link.templateId) =
        s.templates.rows.filter fun row => row.id == link.templateId := by
    intro id updated after done
    obtain ⟨fine,persisted,went⟩ := persist_cases done
    exact others_persist persisted (written_own inv aimed (fun linked i => apart.target p i holds fine linked) went)
  cases a with
  | next =>
    obtain ⟨call,name,rest,entry,running,names,-⟩ := persisting_next holds
    simp only [step,running,Option.some.injEq] at taken
    obtain ⟨result,⟨-,same⟩ | ⟨q,id,updated,after,again,done,same⟩⟩ := stepNext_cases running names
    · rw [← taken,same]
      exact fun link there _ => ⟨there,rfl⟩
    · cases holds.symm.trans again
      rw [← taken,same]
      exact spec id updated after done
  | apply id ownerId input web =>
    rw [step] at taken
    split at taken
    · obtain ⟨subscription,found,taken⟩ := Option.bind_eq_some_iff.mp taken
      obtain ⟨q,prepared,taken⟩ := Option.bind_eq_some_iff.mp taken
      obtain ⟨⟨target,updated,after⟩,done,same⟩ := Option.bind_eq_some_iff.mp taken
      cases same
      have again : persisting s (.apply id ownerId input web) = some q := Option.bind_eq_some_iff.mpr ⟨subscription,found,prepared⟩
      cases holds.symm.trans again
      exact spec target updated t (toOption_ok.mp done)
    · cases taken
  | importSelected id ownerId names web => cases holds
  | template call => cases holds
  | createSubscription ownerId name url => cases holds
  | updateSubscription id ownerId name url => cases holds
  | deleteSubscription id ownerId => cases holds

/-- The file whose turn it is gets a template with its content. -/
theorem own_step (inv : Inv s) (apart : Apart s .next) (taken : step s .next = some t) {call : ImportCall} {name : String}
    {entry : RawEntry} {har : Json} (running : s.call = some call) (turn : call.Next name) (offered : entry ∈ call.entries)
    (named : entry.name = name) (importable : Importable call entry har) :
    ∃ link ∈ t.imports.rows, link.pair = (call.subscription.id,name) ∧
      ∃ row ∈ t.templates.rows, row.id = link.templateId ∧ row.name = name ∧ row.source = .qdHar har := by
  have kept := apart.offered call name entry har running rfl turn offered named importable
  obtain ⟨fresh,rest,names⟩ := turn
  obtain ⟨resolved,fine⟩ := importable
  obtain ⟨read,parsed⟩ := fine.har
  have checked : checkHar entry.name har = .ok () := by rw [checkHar,parsed]
  have prepared : prepareEntry call entry = .ok ⟨call.subscription,entry,entry.name,har,
      (installed call.linked entry.name).map TemplateImport.templateId⟩ :=
    bind_ok.mpr ⟨har,resolved,check_ok.mpr ⟨checked,rfl⟩⟩
  have holds : persisting s .next = some ⟨call.subscription,entry,entry.name,har,
      (installed call.linked entry.name).map TemplateImport.templateId⟩ := by
    rw [persisting,running]
    simp only [Option.bind_eq_bind,Option.bind_some,names,List.head?_cons,if_neg fresh,kept,prepared]
    rfl
  have aimed := aimed_of_persisting inv apart holds
  obtain ⟨id,updated,after,done⟩ := persist_ok fine fun id found => existing_holds inv aimed found
  obtain ⟨-,persisted,-⟩ := persist_cases done
  simp only [step,running,Option.some.injEq] at taken
  obtain ⟨result,⟨refused,-⟩ | ⟨q,id',updated',after',again,done',same⟩⟩ := stepNext_cases running names
  · exact absurd done (refused _ _ _ _ holds)
  · cases holds.symm.trans again
    cases done.symm.trans done'
    rw [← taken,same]
    obtain ⟨link,there,pair,target⟩ := @record_there s.imports call.subscription.id id entry
    obtain ⟨row,present,keyed,-,title,source⟩ := persisted.written
    refine ⟨link,?_,named ▸ pair,row,present,keyed.trans target.symm,title.trans named,source⟩
    change link ∈ after.imports.rows
    rw [persisted.imports]
    exact there

end Step

/-- A check that is enough for `Apart`: the source has different names, and no template
with the name is linked. -/
def apartCheck (s : State) : Action → Bool
  | .next => s.call.all fun call => decide (call.entries.map RawEntry.name).Nodup && call.names.head?.all fun name =>
    s.imports.rows.all fun link =>
      findTemplateByName s.templates call.subscription.ownerId name != some link.templateId
  | .apply _ _ _ _ => false
  | _ => true

theorem byName_of_nodup {entries : List RawEntry} {entry : RawEntry} (distinct : (entries.map RawEntry.name).Nodup)
    (there : entry ∈ entries) : byName entries entry.name = some entry := by
  cases found : byName entries entry.name with
  | none =>
    have mine : entry ∈ entries.filter fun other => other.name == entry.name := List.mem_filter.mpr ⟨there,beq_self_eq_true _⟩
    rw [List.getLast?_eq_none_iff.mp found] at mine
    cases mine
  | some kept =>
    have named := byName_name found
    rw [List.inj_on_of_nodup_map distinct named.1 there named.2]

theorem apart_of_check (s : State) (a : Action) (checked : apartCheck s a = true) : Apart s a := by
  cases a with
  | next =>
    refine ⟨by rintro _ _ _ _ ⟨⟩,?_,?_⟩
    · intro p id holds _ _ found link there same
      obtain ⟨call,name,rest,entry,running,names,-,offered,prepared⟩ := persisting_next holds
      obtain ⟨har,-,rfl⟩ := prepareEntry_ok prepared
      simp only [apartCheck,running,names,Option.all_some,List.head?_cons,Bool.and_eq_true,List.all_eq_true] at checked
      have free := checked.2 link there
      rw [← (byName_name offered).2,found,same] at free
      simp at free
    · rintro call name entry har running - - there rfl -
      simp only [apartCheck,running,Option.all_some,Bool.and_eq_true,decide_eq_true_eq] at checked
      exact byName_of_nodup checked.1 there
  | apply id ownerId input web => cases checked
  | importSelected id ownerId names web => exact ⟨by rintro _ _ _ _ ⟨⟩,by rintro _ _ ⟨⟩,by rintro _ _ _ _ _ ⟨⟩⟩
  | template call => exact ⟨by rintro _ _ _ _ ⟨⟩,by rintro _ _ ⟨⟩,by rintro _ _ _ _ _ ⟨⟩⟩
  | createSubscription ownerId name url => exact ⟨by rintro _ _ _ _ ⟨⟩,by rintro _ _ ⟨⟩,by rintro _ _ _ _ _ ⟨⟩⟩
  | updateSubscription id ownerId name url => exact ⟨by rintro _ _ _ _ ⟨⟩,by rintro _ _ ⟨⟩,by rintro _ _ _ _ _ ⟨⟩⟩
  | deleteSubscription id ownerId => exact ⟨by rintro _ _ _ _ ⟨⟩,by rintro _ _ ⟨⟩,by rintro _ _ _ _ _ ⟨⟩⟩

/-- A document of one request. -/
def oneRequest (url : String) : Json :=
  .obj [("log",.obj [("version",.str "1.2"),("entries",.arr [.obj [("request",.obj [("method",.str "GET"),("url",.str url)])]])])]

/-- A web whose every file is one document. -/
def webOf (har : Json) : Web where
  fetchText := fun _ => .ok (some "")
  fetchTree := fun _ => .error "offline"
  decodeBase64 := fun _ => none
  fromStr := fun _ => some har

/-- Two subscriptions, each to one file, and an import of both. -/
def twoImports (first second : String) : List Action :=
  [.createSubscription 1 "ours" first,.createSubscription 1 "theirs" second,
    .importSelected 1 1 [fileStem first] (webOf (oneRequest first)),.next,.next,
    .importSelected 2 1 [fileStem second] (webOf (oneRequest second)),.next,.next]

/-- The links, as pairs of a subscription and a template. -/
def State.linked (s : State) : List (Int × Int) := s.imports.rows.map fun link => (link.subscriptionId,link.templateId)

end Qdrust.Subscriptions.Imports
