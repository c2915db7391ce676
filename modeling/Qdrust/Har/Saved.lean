import Qdrust.Har.Editor

/-! When saving an unedited document keeps its program. The executor's reading
of a saved entry is compared, field by field, with the accepted one. -/
namespace Qdrust.Har.Editor
open Library

def HarFlagged.row (row : HarFlagged) : QdNameValue := ⟨row.name,row.value,row.checked⟩

/-- A cookie is saved without a flag. -/
def HarPair.row (row : HarPair) : QdNameValue := ⟨row.name,row.value,false⟩

def HarAssert.rule (row : HarAssert) : QdRule := ⟨row.re,row.source⟩

def HarExtract.rule (row : HarExtract) : QdExtractRule := ⟨row.name,⟨row.re,row.source⟩⟩

def HarPostData.body (post : HarPostData) : QdPostData :=
  ⟨post.mimeType,post.text,post.params.map (rowsJson HarFlagged.toJson)⟩

/-- A saved entry as the executor reads it. -/
def HarEntry.stored (entry : HarEntry) : QdHarEntry where
  checked := entry.checked
  comment := entry.comment
  request := {
    method := entry.request.method
    url := entry.request.url
    headers := entry.request.headers.map HarFlagged.row
    cookies := entry.request.cookies.map HarPair.row
    postData := entry.request.postData.map HarPostData.body
  }
  successAsserts := entry.successAsserts.map HarAssert.rule
  failedAsserts := entry.failedAsserts.map HarAssert.rule
  extractVariables := entry.extractVariables.map HarExtract.rule

theorem postData_stored (post : HarPostData) : QdPostData.fromJson post.toJson = some post.body := by
  obtain ⟨mimeType,params,text⟩ := post
  cases mimeType <;> cases params <;> cases text <;> rfl

theorem flagged_stored (row : HarFlagged) : QdNameValue.fromJson row.toJson = some row.row := rfl

theorem pair_stored (row : HarPair) : QdNameValue.fromJson row.toJson = some row.row := rfl

theorem assert_stored (row : HarAssert) : QdRule.fromJson row.toJson = some row.rule := rfl

theorem extract_stored (row : HarExtract) : QdExtractRule.fromJson row.toJson = some row.rule := rfl

theorem request_stored (entry : HarEntry) :
    QdHarRequest.fromJson entry.request.toJson = some entry.stored.request := by
  have post : entry.request.fields.get "postData" = entry.request.postData.map HarPostData.toJson := by
    rw [HarRequest.fields]
    cases entry.request.queryString <;> cases entry.request.postData <;> rfl
  refine request_fromJson.mpr ⟨_,rfl,rfl,rfl,Json.vec_map flagged_stored _,Json.vec_map pair_stored _,?_⟩
  rw [Json.fieldD,post]
  cases stored : entry.request.postData with
  | none => simp [Json.readD,HarEntry.stored,stored]
  | some post =>
    refine opt_postData.mpr (.inr ⟨_,_,rfl,?_,postData_stored post⟩)
    simp [HarEntry.stored,stored]

/-- The executor reads a saved entry back as it was saved. -/
theorem entry_stored (entry : HarEntry) : QdHarEntry.fromJson entry.toJson = some entry.stored := by
  have comment : Json.fieldD entry.fields "comment" none (Json.opt Json.asStr) = some entry.comment := by
    rw [HarEntry.fields]
    cases entry.comment <;> rfl
  have rules : ∀ key ∈ ruleKeys, entry.fields.get key = Fields.get
      [("success_asserts",rowsJson HarAssert.toJson entry.successAsserts),
        ("failed_asserts",rowsJson HarAssert.toJson entry.failedAsserts),
        ("extract_variables",rowsJson HarExtract.toJson entry.extractVariables)] key := by
    intro key rule
    simp only [ruleKeys,List.mem_cons,List.not_mem_nil,or_false] at rule
    rw [HarEntry.fields]
    rcases rule with rfl | rfl | rfl <;> cases entry.comment <;> rfl
  refine entry_fromJson.mpr ⟨_,rfl,rfl,comment,request_stored entry,?_,?_,?_⟩
  · rw [Json.fieldD,rules _ (by decide)]
    exact Json.vec_map assert_stored _
  · rw [Json.fieldD,rules _ (by decide)]
    exact Json.vec_map assert_stored _
  · rw [Json.fieldD,rules _ (by decide)]
    exact Json.vec_map extract_stored _

theorem document_stored (log : HarLog) :
    HarDocument.fromJson log.toJson = some ⟨⟨log.version,log.entries.map HarEntry.stored⟩⟩ := by
  have decoded : (log.entries.map HarEntry.toJson).mapM QdHarEntry.fromJson =
      some (log.entries.map HarEntry.stored) := by
    rw [Json.mapM_eq_some,List.forall₂_map_left_iff,List.forall₂_map_right_iff]
    exact List.forall₂_same.mpr fun entry _ => entry_stored entry
  have read : Qdrust.Har.HarLog.fromJson (.obj log.fields) =
      some ⟨log.version,log.entries.map HarEntry.stored⟩ :=
    (log_fromJson rfl).mpr ⟨_,_,rfl,rfl,decoded⟩
  have wrapped : HarDocument.fromJson log.toJson =
      (Qdrust.Har.HarLog.fromJson (.obj log.fields)).map HarDocument.mk := document_fromJson rfl
  rw [wrapped,read]
  rfl

/-- What an entry sends and checks. -/
structure ProgramEntry where
  checked : Bool
  method : String
  url : String
  headers : List QdNameValue
  cookies : List QdNameValue
  text : Option String
  mimeType : Option String
  successAsserts : List QdRule
  failedAsserts : List QdRule
  extractVariables : List QdExtractRule

def named (rule : QdExtractRule) : Bool := rule.name ≠ ""

def programEntry (entry : QdHarEntry) : ProgramEntry where
  checked := entry.checked
  method := entry.request.method
  url := entry.request.url
  headers := entry.request.headers.filter QdNameValue.checked
  cookies := entry.request.cookies.filter QdNameValue.checked
  text := entry.request.postData.bind QdPostData.text
  mimeType := entry.request.postData.bind QdPostData.mimeType
  successAsserts := entry.successAsserts
  failedAsserts := entry.failedAsserts
  extractVariables := entry.extractVariables.filter named

section
variable (number : Number → String)

theorem asStr_text {fields : Fields} {name text : String} (read : fields.text name = some text) :
    asStr number (fields.get name) = text := by
  obtain ⟨json,present,string⟩ := Option.bind_eq_some_iff.mp read
  rw [present,Json.asStr_eq_some.mp string]
  rfl

theorem flag_read {fields : Fields} {checked : Bool}
    (read : Json.fieldD fields "checked" true Json.asBool = some checked) :
    asBool number (Script.orElse (fields.get "checked") (.bool true)) = checked := by
  rcases checked_cases read with written | ⟨absent,set⟩
  · rw [written]
    rfl
  · rw [absent,set]
    rfl

/-- A list whose items are records of the read rows. -/
theorem normalizeList_read {α β : Type} {row : Fields → α} {loaded : β → α} {value : Option Json} {rows : List β}
    (related : List.Forall₂ (fun json read => ∃ item, json = .obj item ∧ row item = loaded read)
      (Script.array value) rows) :
    normalizeList value row = rows.map loaded := by
  rw [normalizeList]
  generalize Script.array value = items at related
  induction related with
  | nil => rfl
  | cons head _ ih =>
    obtain ⟨item,rfl,same⟩ := head
    rw [List.map_cons,List.map_cons,ih,← same]
    rfl

theorem headers_loaded {request : Fields} {key : String} {rows : List QdNameValue}
    (read : NameValuesRead true request key rows) :
    normalizeList (request.get key) (flagged number) = rows.map fun row => ⟨row.name,row.value,row.checked⟩ := by
  refine normalizeList_read (read.2.imp ?_)
  rintro _ row ⟨item,rfl,itemRead⟩
  refine ⟨item,rfl,?_⟩
  rw [flagged,asStr_text number itemRead.name,asStr_text number itemRead.value,flag_read number itemRead.checked]

theorem cookies_loaded {request : Fields} {key : String} {rows : List QdNameValue}
    (read : NameValuesRead true request key rows) :
    normalizeList (request.get key) (pair number) = rows.map fun row => ⟨row.name,row.value⟩ := by
  refine normalizeList_read (read.2.imp ?_)
  rintro _ row ⟨item,rfl,itemRead⟩
  refine ⟨item,rfl,?_⟩
  rw [pair,asStr_text number itemRead.name,asStr_text number itemRead.value]

end

theorem rule_fromJson {json : Json} {rule : QdRule} : QdRule.fromJson json = some rule ↔
    ∃ fields : Fields, json = .obj fields ∧ fields.text "re" = some rule.re ∧ fields.text "from" = some rule.source := by
  simp only [QdRule.fromJson,Option.bind_eq_bind,Option.bind_eq_some_iff,Json.asObj_eq_some,Option.pure_def,
    Option.some.injEq]
  constructor
  · rintro ⟨fields,rfl,_,re,_,source,rfl⟩
    exact ⟨fields,rfl,re,source⟩
  · rintro ⟨fields,rfl,re,source⟩
    exact ⟨fields,rfl,_,re,_,source,rfl⟩

theorem extractRule_fromJson {json : Json} {rule : QdExtractRule} : QdExtractRule.fromJson json = some rule ↔
    ∃ fields : Fields, json = .obj fields ∧ fields.text "name" = some rule.name ∧
      fields.text "re" = some rule.rule.re ∧ fields.text "from" = some rule.rule.source := by
  simp only [QdExtractRule.fromJson,Option.bind_eq_bind,Option.bind_eq_some_iff,Json.asObj_eq_some,
    Option.pure_def,Option.some.injEq,rule_fromJson]
  constructor
  · rintro ⟨fields,rfl,_,name,_,⟨_,same,re,source⟩,rfl⟩
    cases same
    exact ⟨fields,rfl,name,re,source⟩
  · rintro ⟨fields,rfl,name,re,source⟩
    exact ⟨fields,rfl,_,name,_,⟨fields,rfl,re,source⟩,rfl⟩

section
variable (number : Number → String)

theorem asserts_loaded {entry : Fields} {key : String} {rows : List QdRule}
    (read : Json.fieldD entry key [] (Json.vec QdRule.fromJson) = some rows) :
    normalizeList (entry.get key) (assertion number) = rows.map fun rule => ⟨rule.re,rule.source⟩ := by
  refine normalizeList_read ((Json.readD_vec.mp read).2.imp ?_)
  intro json rule decoded
  obtain ⟨fields,rfl,re,source⟩ := rule_fromJson.mp decoded
  refine ⟨fields,rfl,?_⟩
  rw [assertion,asStr_text number re,asStr_text number source]

theorem extracts_loaded {entry : Fields} {key : String} {rows : List QdExtractRule}
    (read : Json.fieldD entry key [] (Json.vec QdExtractRule.fromJson) = some rows) :
    normalizeList (entry.get key) (extraction number) =
      rows.map fun extract => ⟨extract.name,extract.rule.re,extract.rule.source⟩ := by
  refine normalizeList_read ((Json.readD_vec.mp read).2.imp ?_)
  intro json extract decoded
  obtain ⟨fields,rfl,name,re,source⟩ := extractRule_fromJson.mp decoded
  refine ⟨fields,rfl,?_⟩
  rw [extraction,asStr_text number name,asStr_text number re,asStr_text number source]

end

/-- A method survives unless it is empty or has space around it. -/
theorem method_saved (method : String) :
    orGet (Script.trim (orGet method)) = method ↔ method ≠ "" ∧ Script.trim method = method := by
  have get : Script.trim "GET" = "GET" := by decide
  by_cases empty : method = ""
  · subst method
    simp [orGet,get]
  · by_cases blank : Script.trim method = ""
    · have other : method ≠ "GET" := by
        rintro rfl
        exact absurd (get.symm.trans blank) (by decide)
      simp [orGet,empty,blank,Ne.symm other,Ne.symm empty]
    · simp [orGet,empty,blank]

/-- What saving leaves alone, told on the entry as it is stored. -/
structure Editable (entry request : Fields) : Prop where
  method : ∀ method, request.text "method" = some method → method ≠ "" ∧ Script.trim method = method
  headers : ∀ item, .obj item ∈ request.items "headers" → Fields.text item "name" = some "" →
    Fields.text item "value" = some "" → Fields.get item "checked" = some (.bool false)
  cookies : ∀ item, .obj item ∈ request.items "cookies" → Fields.get item "checked" = some (.bool false)
  body : request.get "postData" = none → request.text "data" = none ∧ request.text "mimeType" = none
  text : ∀ post, request.object "postData" = some post → post.text "text" ≠ some "" ∧
    (post.get "text" = none → request.text "data" = none ∧ post.list "params" = none)
  mimeType : ∀ post, request.object "postData" = some post →
    (∀ mimeType, post.text "mimeType" = some mimeType → mimeType ≠ "" ∧ Script.trim mimeType = mimeType) ∧
    (post.get "mimeType" = none → request.text "mimeType" = none)
  hoisted : ∀ key ∈ ["success_asserts","failed_asserts"], entry.containsKey key = true ∨
    nestedRule entry key = none ∨ nestedRule entry key = some (.arr [])
  asserts : ∀ key ∈ ["success_asserts","failed_asserts"], ∀ rule, .obj rule ∈ entry.items key →
    ¬(Fields.text rule "re" = some "" ∧ Fields.text rule "from" = some "")
  extracts : entry.containsKey "extract_variables" = true ∨
    ∀ rule, .obj rule ∈ Script.array (nestedRule entry "extract_variables") → Fields.text rule "name" = some ""

/-- A property of the rows, told on the records they are read from. -/
theorem records_iff {α : Type} {reads : Json → α → Prop} {items : List Json} {rows : List α}
    {record : Fields → Prop} {row : α → Prop} (related : List.Forall₂ reads items rows)
    (objects : ∀ json read, reads json read → ∃ fields : Fields, json = .obj fields ∧ (record fields ↔ row read)) :
    (∀ fields, .obj fields ∈ items → record fields) ↔ ∀ read ∈ rows, row read := by
  have each : (∀ json ∈ items, ∀ fields : Fields, json = .obj fields → record fields) ↔ ∀ read ∈ rows, row read := by
    refine forall_mem_iff related fun json read decoded => ?_
    obtain ⟨fields,rfl,same⟩ := objects json read decoded
    rw [← same]
    constructor
    · intro all
      exact all fields rfl
    · rintro holds _ same
      cases same
      exact holds
  rw [← each]
  constructor
  · rintro all _ member fields rfl
    exact all fields member
  · intro all fields member
    exact all _ member fields rfl

theorem checked_false_iff {item : Fields} {checked : Bool}
    (read : Json.fieldD item "checked" true Json.asBool = some checked) :
    item.get "checked" = some (.bool false) ↔ checked = false := by
  rcases checked_cases read with written | ⟨absent,set⟩
  · rw [written]
    simp
  · rw [absent,set]
    simp

theorem headers_saved {request : Fields} {rows : List QdNameValue}
    (read : NameValuesRead true request "headers" rows) :
    (((rows.map fun row => HarFlagged.mk row.name row.value row.checked).filter flaggedRow).map
      HarFlagged.row).filter QdNameValue.checked = rows.filter QdNameValue.checked ↔
      ∀ item, .obj item ∈ request.items "headers" → Fields.text item "name" = some "" →
        Fields.text item "value" = some "" → Fields.get item "checked" = some (.bool false) := by
  have same : ((rows.map fun row => HarFlagged.mk row.name row.value row.checked).filter flaggedRow).map
      HarFlagged.row = rows.filter fun row => row.name ≠ "" || row.value ≠ "" := by
    rw [List.filter_map,List.map_map]
    exact List.map_id _
  rw [same,filter_filter_eq_iff]
  refine (records_iff read.2 ?_).symm
  rintro _ row ⟨item,rfl,itemRead⟩
  refine ⟨item,rfl,?_⟩
  rw [itemRead.name,itemRead.value,checked_false_iff itemRead.checked]
  cases row.checked <;> simp
  tauto

/-- No cookie is saved with a flag. -/
theorem cookies_saved {request : Fields} {rows : List QdNameValue}
    (read : NameValuesRead true request "cookies" rows) :
    (((rows.map fun row => HarPair.mk row.name row.value).filter pairRow).map HarPair.row).filter
      QdNameValue.checked = rows.filter QdNameValue.checked ↔
      ∀ item, .obj item ∈ request.items "cookies" → Fields.get item "checked" = some (.bool false) := by
  have off : (((rows.map fun row => HarPair.mk row.name row.value).filter pairRow).map HarPair.row).filter
      QdNameValue.checked = [] := by
    rw [List.filter_eq_nil_iff]
    intro row member
    obtain ⟨pair,_,rfl⟩ := List.mem_map.mp member
    simp [HarPair.row]
  rw [off,eq_comm,List.filter_eq_nil_iff]
  refine (records_iff read.2 ?_).symm
  rintro _ row ⟨item,rfl,itemRead⟩
  refine ⟨item,rfl,?_⟩
  rw [checked_false_iff itemRead.checked]
  simp

theorem asserts_saved {entry : Fields} {key : String} {rows plain : List QdRule}
    (plainRead : Json.fieldD entry key [] (Json.vec QdRule.fromJson) = some plain)
    (same : plain = rows ↔ entry.containsKey key = true ∨ nestedRule entry key = none ∨
      nestedRule entry key = some (.arr [])) :
    (normalizeAsserts (plain.map fun rule => ⟨rule.re,rule.source⟩)).map HarAssert.rule = rows ↔
      (entry.containsKey key = true ∨ nestedRule entry key = none ∨ nestedRule entry key = some (.arr [])) ∧
      ∀ rule, .obj rule ∈ entry.items key →
        ¬(Fields.text rule "re" = some "" ∧ Fields.text rule "from" = some "") := by
  have kept : (normalizeAsserts (plain.map fun rule => ⟨rule.re,rule.source⟩)).map HarAssert.rule =
      plain.filter fun rule => rule.re ≠ "" || rule.source ≠ "" := by
    rw [normalizeAsserts,List.filter_map,List.map_map]
    exact List.map_id _
  have blank : (∀ rule, .obj rule ∈ entry.items key →
      ¬(Fields.text rule "re" = some "" ∧ Fields.text rule "from" = some "")) ↔
      ∀ rule ∈ plain, (rule.re ≠ "" || rule.source ≠ "") = true := by
    refine records_iff (Json.readD_vec.mp plainRead).2 ?_
    intro json rule decoded
    obtain ⟨fields,rfl,re,source⟩ := rule_fromJson.mp decoded
    refine ⟨fields,rfl,?_⟩
    rw [re,source]
    simp
    tauto
  rw [kept,blank,← same,← List.filter_eq_self]
  constructor
  · intro saved
    have equal : plain = rows := by
      rw [Json.fieldD] at plainRead
      cases top : entry.get key with
      | some json => exact same.mpr (.inl (by rw [Fields.containsKey,top]; rfl))
      | none =>
        rw [top] at plainRead
        cases plainRead
        exact saved
    exact ⟨equal,saved.trans equal.symm⟩
  · rintro ⟨rfl,saved⟩
    exact saved

/-- Rules without a name may be dropped; named ones are, unless they stand at
the entry. -/
theorem extracts_saved {entry : Fields} {key : String} {rows plain : List QdExtractRule}
    (read : RulesRead QdExtractRule.fromJson entry key rows)
    (plainRead : Json.fieldD entry key [] (Json.vec QdExtractRule.fromJson) = some plain) :
    ((normalizeExtracts (plain.map fun extract => ⟨extract.name,extract.rule.re,extract.rule.source⟩)).map
      HarExtract.rule).filter named = rows.filter named ↔
      entry.containsKey key = true ∨
        ∀ rule, .obj rule ∈ Script.array (nestedRule entry key) → Fields.text rule "name" = some "" := by
  have kept : (normalizeExtracts (plain.map fun extract => ⟨extract.name,extract.rule.re,extract.rule.source⟩)).map
      HarExtract.rule = plain.filter fun extract => extract.name ≠ "" || extract.rule.re ≠ "" ||
        extract.rule.source ≠ "" := by
    rw [normalizeExtracts,List.filter_map,List.map_map]
    exact List.map_id _
  have filled : (plain.filter fun extract => extract.name ≠ "" || extract.rule.re ≠ "" ||
      extract.rule.source ≠ "").filter named = plain.filter named := by
    refine filter_filter_eq_iff.mpr fun extract _ name => ?_
    simp [named] at name
    simp [name]
  rw [kept,filled]
  unfold RulesRead at read
  rw [Json.fieldD] at plainRead
  rw [Fields.containsKey]
  cases top : entry.get key with
  | some json =>
    rw [top] at read plainRead
    rw [Option.some_or] at read
    cases Option.some.inj (plainRead.symm.trans read)
    simp
  | none =>
    rw [top] at read plainRead
    rw [Option.none_or] at read
    cases plainRead
    have unnamed : ([].filter named : List QdExtractRule) = rows.filter named ↔
        ∀ extract ∈ rows, extract.name = "" := by
      rw [List.filter_nil,eq_comm,List.filter_eq_nil_iff]
      simp [named]
    have told : (∀ rule, .obj rule ∈ Script.array (nestedRule entry key) → Fields.text rule "name" = some "") ↔
        ∀ extract ∈ rows, extract.name = "" := by
      refine records_iff (Json.readD_vec.mp read).2 ?_
      intro json extract decoded
      obtain ⟨fields,rfl,name,_⟩ := extractRule_fromJson.mp decoded
      exact ⟨fields,rfl,by rw [name]; simp⟩
    rw [unnamed,told]
    simp

/-- The text of a body that is opened and saved. -/
theorem text_saved {post : Fields} {default read : Option String}
    (decoded : Json.fieldD post "text" default (Json.opt Json.asStr) = some read) :
    (post.text "text").bind someText = read ↔
      post.text "text" ≠ some "" ∧ (post.get "text" = none → default = none) := by
  rw [Fields.text]
  rcases text_cases decoded with ⟨absent,rfl⟩ | ⟨empty,rfl⟩ | ⟨text,present,rfl⟩
  · rw [absent]
    simp [eq_comm]
  · rw [empty]
    simp [Json.asStr]
  · rw [present]
    by_cases blank : text = "" <;> simp [Json.asStr,someText,blank]

theorem mimeType_saved (number : Number → String) {post : Fields} {default read : Option String}
    (decoded : Json.fieldD post "mimeType" default (Json.opt Json.asStr) = some read) :
    someText (Script.trim (asStr number (post.get "mimeType"))) = read ↔
      (∀ mimeType, post.text "mimeType" = some mimeType → mimeType ≠ "" ∧ Script.trim mimeType = mimeType) ∧
      (post.get "mimeType" = none → default = none) := by
  have trimmed : Script.trim "" = "" := rfl
  rw [Fields.text]
  rcases text_cases decoded with ⟨absent,rfl⟩ | ⟨empty,rfl⟩ | ⟨text,present,rfl⟩
  · rw [absent]
    simp [asStr,trimmed,someText,eq_comm]
  · rw [empty]
    simp [asStr,trimmed,someText,Json.asStr]
  · rw [present]
    by_cases blank : Script.trim text = ""
    · simp [Json.asStr,asStr,someText,blank]
    · have filled : text ≠ "" := by
        rintro rfl
        exact blank trimmed
      simp [Json.asStr,asStr,someText,blank,filled]

/-- A saved body keeps its text and type, also where it is left out. -/
theorem normalizePostData_read (post : HarPostData) :
    ((normalizePostData post).map HarPostData.body).bind QdPostData.text = post.text.bind someText ∧
      ((normalizePostData post).map HarPostData.body).bind QdPostData.mimeType =
        someText (Script.trim (post.mimeType.getD "")) := by
  unfold normalizePostData
  dsimp only
  split
  · rename_i empty
    simp only [Bool.and_eq_true,Option.isNone_iff_eq_none] at empty
    rw [empty.1.1,empty.1.2]
    exact ⟨rfl,rfl⟩
  · simp only [Option.map_some,Option.bind_some,HarPostData.body,and_self]

theorem post_saved (number : Number → String) {request : Fields} {body : Option QdPostData}
    (read : PostReads request body) :
    ((((request.object "postData").map (loadPost number)).bind normalizePostData).map HarPostData.body).bind
        QdPostData.text = body.bind QdPostData.text ∧
      ((((request.object "postData").map (loadPost number)).bind normalizePostData).map HarPostData.body).bind
        QdPostData.mimeType = body.bind QdPostData.mimeType ↔
      (request.get "postData" = none → request.text "data" = none ∧ request.text "mimeType" = none) ∧
      (∀ post, request.object "postData" = some post → post.text "text" ≠ some "" ∧
        (post.get "text" = none → request.text "data" = none ∧ post.list "params" = none)) ∧
      (∀ post, request.object "postData" = some post →
        (∀ mimeType, post.text "mimeType" = some mimeType → mimeType ≠ "" ∧ Script.trim mimeType = mimeType) ∧
        (post.get "mimeType" = none → request.text "mimeType" = none)) := by
  unfold PostReads at read
  rw [Fields.object]
  cases present : request.get "postData" with
  | none =>
    rw [present] at read
    subst body
    cases request.text "data" <;> cases request.text "mimeType" <;> simp
  | some json =>
    rw [present] at read
    cases json with
    | null =>
      cases read
      simp [Json.asObj]
    | obj post =>
      obtain ⟨mimeType,text,rfl,mimeRead,textRead⟩ := read
      obtain ⟨textKept,mimeKept⟩ := normalizePostData_read (loadPost number post)
      have unset : textDefault request post = none ↔
          request.text "data" = none ∧ Fields.list post "params" = none := by
        rw [textDefault]
        cases request.text "data" <;> cases Fields.list post "params" <;> simp
      have textSame := text_saved textRead
      have mimeSame := mimeType_saved number mimeRead
      rw [unset] at textSame
      simp only [Option.bind_some,Json.asObj,Option.map_some,textKept,mimeKept]
      rw [show (loadPost number post).text = Fields.text post "text" from rfl,textSame]
      rw [show ((loadPost number post).mimeType.getD "") = asStr number (Fields.get post "mimeType") from rfl,
        mimeSame]
      simp
    | _ => cases read

/-- A saved and reread entry. -/
def edited (number : Number → String) (entry : Fields) : QdHarEntry :=
  (normalizeForSave (loadEntry number entry)).stored

section
variable (number : Number → String) {entry request : Fields} {read : QdHarEntry}

theorem edited_checked (reads : Reads entry request read) : (edited number entry).checked = read.checked := by
  rw [edited,HarEntry.stored,normalizeForSave,loadEntry]
  rcases checked_cases reads.checked with written | ⟨absent,set⟩
  · simp only [written]
    rfl
  · simp only [absent,set]

theorem requested_record (reads : Reads entry request read) : Script.record (entry.get "request") = request := by
  have requested : (entry.get "request").bind Json.asObj = some request := reads.requested
  rw [Script.record,requested,Option.getD_some]

theorem edited_request (reads : Reads entry request read) :
    (edited number entry).request = {
      method := orGet (Script.trim (orGet read.request.method))
      url := read.request.url
      headers := ((read.request.headers.map fun row => HarFlagged.mk row.name row.value row.checked).filter
        flaggedRow).map HarFlagged.row
      cookies := ((read.request.cookies.map fun row => HarPair.mk row.name row.value).filter pairRow).map HarPair.row
      postData := (((request.object "postData").map (loadPost number)).bind normalizePostData).map
        HarPostData.body } := by
  have loaded : (loadEntry number entry).request = loadRequest number request := by
    rw [loadEntry,requested_record reads]
  rw [edited,HarEntry.stored,normalizeForSave,loaded]
  simp only [loadRequest,asStr_text number reads.method,asStr_text number reads.url,
    headers_loaded number reads.headers,cookies_loaded number reads.cookies]

/-- Whether an unedited entry keeps its program. -/
theorem entry_saved (reads : Reads entry request read) :
    programEntry (edited number entry) = programEntry read ↔ Editable entry request := by
  obtain ⟨success,successRead,sameSuccess⟩ := rules_plain reads.successAsserts
  obtain ⟨failed,failedRead,sameFailed⟩ := rules_plain reads.failedAsserts
  obtain ⟨extract,extractRead,_⟩ := rules_plain reads.extractVariables
  have successKept := asserts_saved successRead sameSuccess
  have failedKept := asserts_saved failedRead sameFailed
  have extractKept := extracts_saved reads.extractVariables extractRead
  have postKept := post_saved number reads.postData
  have successStored : (edited number entry).successAsserts =
      (normalizeAsserts (success.map fun rule => ⟨rule.re,rule.source⟩)).map HarAssert.rule := by
    rw [← asserts_loaded number successRead]
    rfl
  have failedStored : (edited number entry).failedAsserts =
      (normalizeAsserts (failed.map fun rule => ⟨rule.re,rule.source⟩)).map HarAssert.rule := by
    rw [← asserts_loaded number failedRead]
    rfl
  have extractStored : (edited number entry).extractVariables = (normalizeExtracts (extract.map fun extract =>
      ⟨extract.name,extract.rule.re,extract.rule.source⟩)).map HarExtract.rule := by
    rw [← extracts_loaded number extractRead]
    rfl
  unfold programEntry
  rw [ProgramEntry.mk.injEq,edited_request number reads,edited_checked number reads,successStored,failedStored,
    extractStored,method_saved,headers_saved reads.headers,cookies_saved reads.cookies,successKept,failedKept,
    extractKept]
  constructor
  · rintro ⟨-,method,-,headers,cookies,text,mimeType,success,failed,extracts⟩
    obtain ⟨body,text,mimeType⟩ := postKept.mp ⟨text,mimeType⟩
    refine ⟨?_,headers,cookies,body,text,mimeType,?_,?_,extracts⟩
    · intro written same
      cases Option.some.inj (same.symm.trans reads.method)
      exact method
    · exact List.forall_mem_cons.mpr ⟨success.1,List.forall_mem_singleton.mpr failed.1⟩
    · exact List.forall_mem_cons.mpr ⟨success.2,List.forall_mem_singleton.mpr failed.2⟩
  · rintro ⟨method,headers,cookies,body,text,mimeType,hoisted,asserts,extracts⟩
    obtain ⟨text,mimeType⟩ := postKept.mpr ⟨body,text,mimeType⟩
    exact ⟨rfl,method _ reads.method,rfl,headers,cookies,text,mimeType,
      ⟨hoisted _ (by decide),asserts _ (by decide)⟩,⟨hoisted _ (by decide),asserts _ (by decide)⟩,extracts⟩

/-- Saving makes no extraction up. -/
theorem edited_extracts (reads : Reads entry request read) :
    ∀ rule ∈ (edited number entry).extractVariables, rule ∈ read.extractVariables := by
  obtain ⟨plain,plainRead,_⟩ := rules_plain reads.extractVariables
  have stored : (edited number entry).extractVariables = (normalizeExtracts (plain.map fun extract =>
      ⟨extract.name,extract.rule.re,extract.rule.source⟩)).map HarExtract.rule := by
    rw [← extracts_loaded number plainRead]
    rfl
  have fromPlain : ∀ rule ∈ (edited number entry).extractVariables, rule ∈ plain := by
    rw [stored]
    intro rule member
    obtain ⟨row,kept,rfl⟩ := List.mem_map.mp member
    obtain ⟨extract,present,rfl⟩ := List.mem_map.mp (List.mem_of_mem_filter kept)
    exact present
  intro rule member
  have present := fromPlain rule member
  have rows := reads.extractVariables
  unfold RulesRead at rows
  rw [Json.fieldD] at plainRead
  cases top : entry.get "extract_variables" with
  | some json =>
    rw [top] at plainRead rows
    cases Option.some.inj (plainRead.symm.trans rows)
    exact present
  | none =>
    rw [top] at plainRead
    cases plainRead
    cases present

end

/-- An entry with the program of a valid one, and no more extractions, is valid. -/
theorem valid_of_program {kept read : QdHarEntry} (same : programEntry kept = programEntry read)
    (fewer : ∀ rule ∈ kept.extractVariables, rule ∈ read.extractVariables) (valid : read.Valid) : kept.Valid := by
  unfold programEntry at same
  rw [ProgramEntry.mk.injEq] at same
  obtain ⟨_,method,url,_,_,_,_,success,failed,_⟩ := same
  refine ⟨?_,?_,?_,?_⟩
  · rw [method]
    exact valid.method
  · rw [url]
    exact valid.url
  · rw [success,failed]
    exact valid.asserts
  · intro rule member
    exact valid.extracts rule (fewer rule member)

/-- What the document has to be for an unedited save to keep its program. -/
def SavedAsAccepted (log : Fields) (items : List Json) : Prop :=
  (∀ version, log.text "version" = some version → version = "" ∨ version = "1.2") ∧
    ∀ item ∈ items, ∀ entry request : Fields, item = .obj entry → entry.object "request" = some request →
      Editable entry request

/-- The executor reads the saved document as the same program. -/
def KeepsProgram (har : QdHar) (saved : Json) : Prop :=
  ∃ after, QdHar.parse saved = .ok after ∧ after.entries.map programEntry = har.entries.map programEntry

/-- Every entry of an accepted document is loaded, in order. -/
theorem entries_loaded (number : Number → String) {items : List Json} {entries : List QdHarEntry}
    (related : List.Forall₂ ReadAs items entries) :
    List.Forall₂ (fun json stored => ∃ entry : Fields, json = .obj entry ∧ stored = edited number entry) items
      (((items.filterMap (normalizeEntry number)).map normalizeForSave).map HarEntry.stored) := by
  induction related with
  | nil => exact .nil
  | cons head _ ih =>
    obtain ⟨entry,_,rfl,_⟩ := head
    exact .cons ⟨entry,rfl,rfl⟩ ih

theorem edited_entries (number : Number → String) {items : List Json} {entries : List QdHarEntry}
    (related : List.Forall₂ ReadAs items entries) :
    (((items.filterMap (normalizeEntry number)).map normalizeForSave).map HarEntry.stored).map programEntry =
      entries.map programEntry ↔ ∀ item ∈ items, ∀ entry request : Fields, item = .obj entry →
        entry.object "request" = some request → Editable entry request := by
  refine map_eq_map_iff (entries_loaded number related) related ?_
  rintro _ _ read ⟨entry,rfl,rfl⟩ ⟨_,request,same,reads⟩
  cases same
  rw [entry_saved number reads]
  constructor
  · rintro editable _ other same requested
    cases same
    cases Option.some.inj (reads.requested.symm.trans requested)
    exact editable
  · intro all
    exact all entry request rfl reads.requested

/-- Kept programs of valid entries make the saved entries valid. -/
theorem edited_entries_valid (number : Number → String) {items : List Json} {entries : List QdHarEntry}
    (related : List.Forall₂ ReadAs items entries)
    (valid : ∀ entry ∈ entries, entry.checked = true → entry.Valid)
    (editable : ∀ item ∈ items, ∀ entry request : Fields, item = .obj entry →
      entry.object "request" = some request → Editable entry request) :
    ∀ entry ∈ ((items.filterMap (normalizeEntry number)).map normalizeForSave).map HarEntry.stored,
      entry.checked = true → entry.Valid := by
  induction related with
  | nil => exact nofun
  | cons head _ ih =>
    obtain ⟨fields,request,rfl,reads⟩ := head
    rw [List.forall_mem_cons] at valid editable
    refine List.forall_mem_cons.mpr ⟨?_,ih valid.2 editable.2⟩
    intro enabled
    refine valid_of_program ((entry_saved number reads).mpr (editable.1 _ _ rfl reads.requested))
      (edited_extracts number reads) (valid.1 ?_)
    rw [← edited_checked number reads]
    exact enabled

theorem opened {number : Number → String} {document log : Fields} {items : List Json}
    (logged : document.object "log" = some log) (listed : log.list "entries" = some items) :
    openAndSave number (.obj document) = some (HarLog.toJson ⟨orVersion (orVersion ((log.text "version").getD "1.2")),
      log.object "creator",(items.filterMap (normalizeEntry number)).map normalizeForSave⟩) := by
  have array : Script.array (log.get "entries") = items := by
    have list : (log.get "entries").bind Json.asArr = some items := listed
    rw [Script.array,list,Option.getD_some]
  simp [openAndSave,parseHarDocument,Json.asObj,logged,array,buildDocument]

theorem version_saved (version : Option String) : orVersion (orVersion (version.getD "1.2")) = "1.2" ↔
    ∀ written, version = some written → written = "" ∨ written = "1.2" := by
  cases version with
  | none => simp [orVersion]
  | some written => by_cases empty : written = "" <;> simp [orVersion,empty]

theorem keepsProgram_log {har : QdHar} (log : HarLog) : KeepsProgram har log.toJson ↔
    log.version = "1.2" ∧ log.entries.map HarEntry.stored ≠ [] ∧
      (∀ entry ∈ log.entries.map HarEntry.stored, entry.checked = true → entry.Valid) ∧
      (log.entries.map HarEntry.stored).map programEntry = har.entries.map programEntry := by
  have parses : ∀ after, QdHar.parse log.toJson = .ok after ↔ log.version = "1.2" ∧
      log.entries.map HarEntry.stored ≠ [] ∧
      (∀ entry ∈ log.entries.map HarEntry.stored, entry.checked = true → entry.Valid) ∧
      after = ⟨log.toJson,⟨⟨log.version,log.entries.map HarEntry.stored⟩⟩⟩ := by
    intro after
    rw [QdHar.parse,document_stored]
    dsimp only
    rw [QdHar.finishParse_ok]
  constructor
  · rintro ⟨after,parsed,kept⟩
    obtain ⟨version,nonempty,valid,rfl⟩ := (parses after).mp parsed
    exact ⟨version,nonempty,valid,kept⟩
  · rintro ⟨version,nonempty,valid,kept⟩
    exact ⟨_,(parses _).mpr ⟨version,nonempty,valid,rfl⟩,kept⟩

/-- For every document `{log:{entries}}` the server accepts: opening it in the
editor and saving it keeps its program exactly under `SavedAsAccepted`. -/
theorem editor_keeps_program_iff (number : Number → String) {document log : Fields} {items : List Json} {har : QdHar}
    (logged : document.object "log" = some log) (listed : log.list "entries" = some items)
    (accepted : QdHar.parseQd (.obj document) = .ok har) :
    (∃ saved, openAndSave number (.obj document) = some saved ∧ KeepsProgram har saved) ↔
      SavedAsAccepted log items := by
  obtain ⟨entries,related,nonempty,valid,rfl⟩ :=
    (parseQd_ok (qdEntries_document.mpr ⟨log,logged,listed⟩)).mp accepted
  have views := edited_entries number related
  rw [opened logged listed,SavedAsAccepted,← version_saved,← views]
  constructor
  · rintro ⟨_,same,kept⟩
    cases Option.some.inj same
    obtain ⟨version,_,_,kept⟩ := (keepsProgram_log _).mp kept
    exact ⟨version,kept⟩
  · rintro ⟨version,kept⟩
    refine ⟨_,rfl,(keepsProgram_log _).mpr ⟨version,?_,?_,kept⟩⟩
    · intro empty
      rw [empty] at kept
      exact nonempty (List.map_eq_nil_iff.mp kept.symm)
    · exact edited_entries_valid number related valid (views.mp kept)

def withCookie : Json := harLog "QD" "1" [.obj [("request",.obj [("method",.str "GET"),
  ("url",.str "https://example.invalid/"),
  ("cookies",.arr [.obj [("name",.str "session"),("value",.str "1"),("checked",.bool true)]])])]]

def sentCookies (entry : ProgramEntry) : List String := entry.cookies.map QdNameValue.name

/-- The editor has no flag for a cookie, and the executor takes that for off. -/
theorem cookie_switched_off : ∃ har saved, QdHar.parseQd withCookie = .ok har ∧
    openAndSave Script.decimal withCookie = some saved ∧ ¬KeepsProgram har saved ∧
    har.entries.map (sentCookies ∘ programEntry) = [["session"]] ∧
    (QdHar.parse saved).map (fun after => after.entries.map (sentCookies ∘ programEntry)) = .ok [[]] := by
  refine ⟨_,_,rfl,rfl,?_,rfl,rfl⟩
  rintro ⟨after,parsed,kept⟩
  have sent := congrArg (List.map sentCookies) kept
  have off := congrArg (Except.map fun after : QdHar => after.entries.map (sentCookies ∘ programEntry)) parsed
  rw [List.map_map,List.map_map] at sent
  have lost : [[]] = after.entries.map (sentCookies ∘ programEntry) := Except.ok.inj off
  exact absurd (lost.trans sent) (by decide)

theorem editor_keeps_program_written : ∃ har, QdHar.parseQd written = .ok har ∧
    ∃ saved, openAndSave Script.decimal written = some saved ∧ KeepsProgram har saved := by
  refine ⟨_,rfl,?_⟩
  refine (editor_keeps_program_iff Script.decimal rfl rfl rfl).mpr ⟨?_,?_⟩
  · intro version same
    cases (Option.some.inj same : _ = version)
    exact .inr rfl
  · intro item member entry request same requested
    cases List.mem_singleton.mp member
    cases same
    cases (Option.some.inj requested : _ = request)
    refine ⟨?_,?_,nofun,fun _ => ⟨rfl,rfl⟩,nofun,nofun,fun _ _ => .inr (.inl rfl),?_,.inr nofun⟩
    · intro method sent
      cases (Option.some.inj sent : _ = method)
      decide
    · intro header row blank
      cases List.mem_singleton.mp row
      exact absurd blank (by decide)
    · exact List.forall_mem_cons.mpr ⟨nofun,List.forall_mem_singleton.mpr nofun⟩

end Qdrust.Har.Editor
