import Qdrust.Har.Stored
import Qdrust.Library.Script

/-! The request arrays QD exports, converted by the client, and when the server
reads the converted document as it reads the array. -/
namespace Qdrust.Har
open Library

section
variable (number : Number → String)

def qdRow (item : Json) : Json :=
  let row := Script.record (some item)
  .obj [("name",.str (Script.string number (Script.orElse (row.get "name") (.str "")))),
    ("value",.str (Script.string number (Script.orElse (row.get "value") (.str "")))),
    ("checked",.bool true)]

def qdMethod (method : Option String) : String :=
  match method with
  | some method => if Script.trim method = "" then "GET" else method
  | none => "GET"

def qdPost (request : Fields) : Option Fields :=
  let data := request.text "data"
  let mimeType := request.text "mimeType"
  if data.isNone && mimeType.isNone then none
  else some ([("mimeType",.str (mimeType.getD ""))] ++ Script.present "text" (data.map .str))

def qdRequest (request : Fields) : Fields :=
  [("method",.str (qdMethod (request.text "method"))),
    ("url",.str ((request.text "url").getD "")),
    ("headers",.arr ((Script.array (request.get "headers")).map (qdRow number))),
    ("cookies",.arr ((Script.array (request.get "cookies")).map (qdRow number))),
    ("queryString",.arr [])] ++ Script.present "postData" ((qdPost request).map .obj)

def qdComment (entry : Fields) : Option String :=
  (entry.text "comment").bind fun comment => if comment = "" then none else some comment

def qdEntry (entry : Fields) : Fields :=
  let rule := Script.record (entry.get "rule")
  [("checked",.bool true),
    ("request",.obj (qdRequest number (Script.record (entry.get "request")))),
    ("success_asserts",.arr (Script.array (rule.get "success_asserts"))),
    ("failed_asserts",.arr (Script.array (rule.get "failed_asserts"))),
    ("extract_variables",.arr (Script.array (rule.get "extract_variables")))] ++
    Script.present "comment" ((qdComment entry).map .str)

def qdTplToHar (tpl : List Json) : Json :=
  harLog "binux" "QD" (tpl.map fun item => .obj (qdEntry number (Script.record (some item))))

end

/-- No entry, header or cookie of the array is switched off. -/
def AllOn (items : List Json) : Prop := ∀ entry request : Fields, .obj entry ∈ items →
  entry.object "request" = some request → entry.get "checked" ≠ some (.bool false) ∧
    ∀ key ∈ ["headers","cookies"], ∀ row, .obj row ∈ request.items key →
      Fields.get row "checked" ≠ some (.bool false)

/-- The rules at the entry, where there are any, are those under `rule`. -/
def SameRules {α : Type} (rule : Json → Option α) (entry : Fields) (key : String) : Prop :=
  ∀ json, entry.get key = some json → Json.vec rule json = (Script.array (nestedRule entry key)).mapM rule

/-- What the client's conversion leaves alone. -/
structure Convertible (entry request : Fields) : Prop where
  method : ∀ method, request.text "method" = some method → Script.trim method ≠ ""
  noBody : request.get "postData" = some .null → request.text "data" = none ∧ (request.text "mimeType").getD "" = ""
  text : ∀ post, request.object "postData" = some post →
    (post.get "text" = none → request.text "data" = none → post.list "params" = none) ∧
    (post.get "text" ≠ none → post.text "text" = request.text "data")
  mimeType : ∀ post, request.object "postData" = some post → post.get "mimeType" ≠ none →
    (post.text "mimeType").getD "" = (request.text "mimeType").getD ""
  successAsserts : SameRules QdRule.fromJson entry "success_asserts"
  failedAsserts : SameRules QdRule.fromJson entry "failed_asserts"
  extractVariables : SameRules QdExtractRule.fromJson entry "extract_variables"

/-- An entry as both converters are compared; no mime type is an empty one. -/
structure TplEntry where
  checked : Bool
  method : String
  url : String
  headers : List QdNameValue
  cookies : List QdNameValue
  text : Option String
  mimeType : String
  successAsserts : List QdRule
  failedAsserts : List QdRule
  extractVariables : List QdExtractRule

def tplEntry (entry : QdHarEntry) : TplEntry where
  checked := entry.checked
  method := entry.request.method
  url := entry.request.url
  headers := entry.request.headers
  cookies := entry.request.cookies
  text := entry.request.postData.bind QdPostData.text
  mimeType := (entry.request.postData.bind QdPostData.mimeType).getD ""
  successAsserts := entry.successAsserts
  failedAsserts := entry.failedAsserts
  extractVariables := entry.extractVariables

theorem rules_converted {α : Type} {rule : Json → Option α} {entry : Fields} {key : String} {rows : List α}
    (read : RulesRead rule entry key rows) :
    (Script.array (nestedRule entry key)).mapM rule = some rows ↔ SameRules rule entry key := by
  unfold RulesRead at read
  unfold SameRules
  cases top : entry.get key with
  | some json =>
    rw [top,Option.some_or] at read
    have decoded : Json.vec rule json = some rows := read
    constructor
    · intro same other present
      cases Option.some.inj present
      rw [decoded,same]
    · intro same
      rw [← same json rfl,decoded]
  | none =>
    rw [top,Option.none_or] at read
    refine iff_of_true ?_ nofun
    cases nested : nestedRule entry key with
    | none =>
      rw [nested] at read
      cases read
      rfl
    | some json =>
      rw [nested] at read
      obtain ⟨items,rfl,decoded⟩ := Json.vec_eq_some.mp read
      exact decoded

theorem rule_array (entry : Fields) (key : String) :
    Script.array ((Script.record (entry.get "rule")).get key) = Script.array (nestedRule entry key) := by
  rw [nestedRule,Fields.object,Script.record]
  cases (entry.get "rule").bind Json.asObj <;> rfl

section
variable (number : Number → String)

theorem string_text {fields : Fields} {name text : String} (read : fields.text name = some text) :
    Script.string number (Script.orElse (fields.get name) (.str "")) = text := by
  obtain ⟨json,present,string⟩ := Option.bind_eq_some_iff.mp read
  rw [present,Json.asStr_eq_some.mp string]
  rfl

/-- Rows that are read and on are converted to themselves. -/
theorem rows_converted {request : Fields} {key : String} {rows : List QdNameValue}
    (read : NameValuesRead true request key rows) (on : ∀ row ∈ rows, row.checked = true) :
    List.Forall₂ (fun json row => ∃ item, json = .obj item ∧ NameValueAt true item row)
      ((Script.array (request.get key)).map (qdRow number)) rows := by
  obtain ⟨_,related⟩ := read
  change List.Forall₂ _ (Script.array (request.get key)) rows at related
  generalize Script.array (request.get key) = items at related
  induction related with
  | nil => exact .nil
  | cons head _ ih =>
    obtain ⟨item,rfl,itemRead⟩ := head
    rw [List.forall_mem_cons] at on
    refine .cons ⟨_,rfl,?_,?_,?_⟩ (ih on.2)
    · exact congrArg some (string_text number itemRead.name)
    · exact congrArg some (string_text number itemRead.value)
    · exact congrArg some on.1.symm

theorem on_rows {request : Fields} {key : String} {rows : List QdNameValue}
    (read : NameValuesRead true request key rows)
    (on : ∀ row, .obj row ∈ request.items key → Fields.get row "checked" ≠ some (.bool false)) :
    ∀ row ∈ rows, row.checked = true := by
  obtain ⟨_,related⟩ := read
  generalize request.items key = items at related on
  induction related with
  | nil => exact nofun
  | cons head _ ih =>
    obtain ⟨item,rfl,itemRead⟩ := head
    refine List.forall_mem_cons.mpr ⟨?_,ih fun row member => on row (List.mem_cons_of_mem _ member)⟩
    rcases checked_cases itemRead.checked with written | ⟨_,set⟩
    · have notOff := on item (List.mem_cons_self ..)
      rw [written] at notOff
      simpa using notOff
    · exact set

end

/-- The body the conversion sends. -/
def qdBody (request : Fields) : Option QdPostData :=
  if (request.text "data").isNone && (request.text "mimeType").isNone then none
  else some ⟨some ((request.text "mimeType").getD ""),request.text "data",none⟩

section
variable (number : Number → String)

theorem qdRequest_get (request : Fields) {name : String} (notPost : name ≠ "postData") :
    (qdRequest number request).get name = Fields.get [("method",.str (qdMethod (request.text "method"))),
      ("url",.str ((request.text "url").getD "")),
      ("headers",.arr ((Script.array (request.get "headers")).map (qdRow number))),
      ("cookies",.arr ((Script.array (request.get "cookies")).map (qdRow number))),
      ("queryString",.arr [])] name := by
  rw [qdRequest,Fields.get_append]
  cases qdPost request with
  | none => simp [Script.present,Fields.get]
  | some post => simp [Script.present,Fields.get_single,Ne.symm notPost]

theorem qdRequest_method (request : Fields) :
    (qdRequest number request).text "method" = some (qdMethod (request.text "method")) := by
  rw [Fields.text,qdRequest_get number request (by decide)]
  rfl

theorem qdRequest_url (request : Fields) :
    (qdRequest number request).text "url" = some ((request.text "url").getD "") := by
  rw [Fields.text,qdRequest_get number request (by decide)]
  rfl

/-- Both row fields are converted alike. -/
theorem qdRequest_rows (request : Fields) {key : String} (rows : key = "headers" ∨ key = "cookies") :
    (qdRequest number request).get key = some (.arr ((Script.array (request.get key)).map (qdRow number))) := by
  rcases rows with rfl | rfl
  all_goals
    rw [qdRequest_get number request (by decide)]
    rfl

theorem nameValues_converted {request : Fields} {key : String} {rows : List QdNameValue}
    (isRows : key = "headers" ∨ key = "cookies") (read : NameValuesRead true request key rows)
    (on : ∀ row ∈ rows, row.checked = true) : NameValuesRead true (qdRequest number request) key rows := by
  have present := qdRequest_rows number request isRows
  refine ⟨.inr ⟨_,present⟩,?_⟩
  rw [Fields.items,Fields.list,present]
  exact rows_converted number read on

theorem qdBody_read (request : Fields) : PostReads (qdRequest number request) (qdBody request) := by
  have data : (qdRequest number request).text "data" = none := by
    rw [Fields.text,qdRequest_get number request (by decide)]
    rfl
  have mimeType : (qdRequest number request).text "mimeType" = none := by
    rw [Fields.text,qdRequest_get number request (by decide)]
    rfl
  have post : (qdRequest number request).get "postData" = (qdPost request).map .obj := by
    rw [qdRequest,Fields.get_append]
    cases qdPost request <;> rfl
  unfold PostReads qdBody
  rw [post,qdPost]
  by_cases quiet : ((request.text "data").isNone && (request.text "mimeType").isNone) = true
  · rw [if_pos quiet,if_pos quiet,data,mimeType]
    rfl
  · rw [if_neg quiet,if_neg quiet]
    refine ⟨some ((request.text "mimeType").getD ""),request.text "data",?_,?_,?_⟩
    · cases request.text "data" <;> rfl
    · rfl
    · have noParams : Fields.list ([("mimeType",.str ((request.text "mimeType").getD ""))] ++
          Script.present "text" ((request.text "data").map .str)) "params" = none := by
        cases request.text "data" <;> rfl
      rw [textDefault,data,noParams]
      cases request.text "data" <;> rfl

/-- The fields of a converted entry, its comment apart. -/
theorem qdEntry_get (entry : Fields) {name : String} (notComment : name ≠ "comment") :
    (qdEntry number entry).get name = Fields.get [("checked",.bool true),
      ("request",.obj (qdRequest number (Script.record (entry.get "request")))),
      ("success_asserts",.arr (Script.array (nestedRule entry "success_asserts"))),
      ("failed_asserts",.arr (Script.array (nestedRule entry "failed_asserts"))),
      ("extract_variables",.arr (Script.array (nestedRule entry "extract_variables")))] name := by
  rw [qdEntry,Fields.get_append]
  simp only [rule_array]
  cases qdComment entry with
  | none => simp [Script.present,Fields.get]
  | some comment => simp [Script.present,Fields.get_single,Ne.symm notComment]

end

/-- What the server reads of a converted entry, given the rules it decodes. -/
def converted (entry request : Fields) (read : QdHarEntry) (success failed : List QdRule)
    (extract : List QdExtractRule) : QdHarEntry where
  checked := true
  comment := qdComment entry
  request := {
    method := qdMethod (some read.request.method)
    url := read.request.url
    headers := read.request.headers
    cookies := read.request.cookies
    postData := qdBody request
  }
  successAsserts := success
  failedAsserts := failed
  extractVariables := extract

section
variable (number : Number → String) {entry request : Fields} {read : QdHarEntry}

theorem converted_reads (reads : Reads entry request read)
    (headersOn : ∀ row ∈ read.request.headers, row.checked = true)
    (cookiesOn : ∀ row ∈ read.request.cookies, row.checked = true)
    {success failed : List QdRule} {extract : List QdExtractRule}
    (successRead : (Script.array (nestedRule entry "success_asserts")).mapM QdRule.fromJson = some success)
    (failedRead : (Script.array (nestedRule entry "failed_asserts")).mapM QdRule.fromJson = some failed)
    (extractRead : (Script.array (nestedRule entry "extract_variables")).mapM QdExtractRule.fromJson = some extract) :
    Reads (qdEntry number entry) (qdRequest number request) (converted entry request read success failed extract) := by
  have requested : Script.record (entry.get "request") = request := by
    have object : (entry.get "request").bind Json.asObj = some request := reads.requested
    rw [Script.record,object,Option.getD_some]
  have rules : ∀ {α : Type} (rule : Json → Option α) {key : String} {rows : List α}, key ∈ ruleKeys →
      (Script.array (nestedRule entry key)).mapM rule = some rows →
      RulesRead rule (qdEntry number entry) key rows := by
    intro α rule key rows member decoded
    simp only [ruleKeys,List.mem_cons,List.not_mem_nil,or_false] at member
    unfold RulesRead
    rcases member with rfl | rfl | rfl
    all_goals
      rw [qdEntry_get number entry (by decide)]
      exact decoded
  unfold converted
  refine ⟨?_,?_,?_,?_,?_,nameValues_converted number (.inl rfl) reads.headers headersOn,
    nameValues_converted number (.inr rfl) reads.cookies cookiesOn,qdBody_read number request,
    rules _ (by decide) successRead,rules _ (by decide) failedRead,rules _ (by decide) extractRead⟩
  · rw [Fields.object,qdEntry_get number entry (by decide),requested]
    rfl
  · rw [Json.fieldD,qdEntry_get number entry (by decide)]
    rfl
  · rw [Json.fieldD,qdEntry]
    cases qdComment entry <;> rfl
  · rw [qdRequest_method,reads.method]
  · rw [qdRequest_url,reads.url,Option.getD_some]

end

theorem qdBody_text (request : Fields) : (qdBody request).bind QdPostData.text = request.text "data" := by
  unfold qdBody
  cases request.text "data" <;> cases request.text "mimeType" <;> rfl

theorem qdBody_mimeType (request : Fields) :
    ((qdBody request).bind QdPostData.mimeType).getD "" = (request.text "mimeType").getD "" := by
  unfold qdBody
  cases request.text "data" <;> cases request.text "mimeType" <;> rfl

/-- When the converted body has the text and type that were read. -/
theorem body_converted {request : Fields} {body : Option QdPostData} (read : PostReads request body) :
    (qdBody request).bind QdPostData.text = body.bind QdPostData.text ∧
      ((qdBody request).bind QdPostData.mimeType).getD "" = (body.bind QdPostData.mimeType).getD "" ↔
      (request.get "postData" = some .null → request.text "data" = none ∧ (request.text "mimeType").getD "" = "") ∧
      (∀ post, request.object "postData" = some post →
        (post.get "text" = none → request.text "data" = none → post.list "params" = none) ∧
        (post.get "text" ≠ none → post.text "text" = request.text "data")) ∧
      (∀ post, request.object "postData" = some post → post.get "mimeType" ≠ none →
        (post.text "mimeType").getD "" = (request.text "mimeType").getD "") := by
  rw [qdBody_text,qdBody_mimeType]
  unfold PostReads at read
  rw [Fields.object]
  cases present : request.get "postData" with
  | none =>
    rw [present] at read
    subst body
    cases request.text "data" <;> cases request.text "mimeType" <;> simp
  | some json =>
    rw [present] at read
    cases json with
    | null =>
      cases read
      simp [Json.asObj]
    | obj post =>
      obtain ⟨mimeType,text,rfl,mimeRead,textRead⟩ := read
      have textSame : request.text "data" = text ↔
          (Fields.get post "text" = none → request.text "data" = none → Fields.list post "params" = none) ∧
          (Fields.get post "text" ≠ none → Fields.text post "text" = request.text "data") := by
        rw [Fields.text_eq post "text"]
        rcases text_cases textRead with ⟨absent,rfl⟩ | ⟨empty,rfl⟩ | ⟨written,present,rfl⟩
        · rw [absent,textDefault]
          cases request.text "data" <;> cases Fields.list post "params" <;> simp
        · rw [empty]
          simp [Json.asStr,eq_comm]
        · rw [present]
          simp [Json.asStr,eq_comm]
      have mimeSame : (request.text "mimeType").getD "" = mimeType.getD "" ↔
          (Fields.get post "mimeType" ≠ none →
            (Fields.text post "mimeType").getD "" = (request.text "mimeType").getD "") := by
        rw [Fields.text_eq post "mimeType"]
        rcases text_cases mimeRead with ⟨absent,rfl⟩ | ⟨empty,rfl⟩ | ⟨written,present,rfl⟩
        · rw [absent]
          simp
        · rw [empty]
          exact ⟨fun same _ => same.symm,fun same => (same (Option.some_ne_none _)).symm⟩
        · rw [present]
          exact ⟨fun same _ => same.symm,fun same => (same (Option.some_ne_none _)).symm⟩
      simp only [Option.bind_some,Json.asObj]
      rw [textSame,mimeSame]
      simp
    | _ => cases read

theorem method_converted (method : String) : qdMethod (some method) = method ↔ Script.trim method ≠ "" := by
  have get : Script.trim "GET" ≠ "" := by decide
  by_cases blank : Script.trim method = ""
  · have other : "GET" ≠ method := by
      rintro rfl
      exact get blank
    simp [qdMethod,blank,other]
  · simp [qdMethod,blank]

section
variable (number : Number → String) {entry request : Fields} {read : QdHarEntry}

/-- The rules of a converted entry are those under `rule`. -/
theorem converted_rules {α : Type} {rule : Json → Option α} {key : String} {rows : List α}
    (member : key ∈ ruleKeys) (reads : RulesRead rule (qdEntry number entry) key rows) :
    (Script.array (nestedRule entry key)).mapM rule = some rows := by
  simp only [ruleKeys,List.mem_cons,List.not_mem_nil,or_false] at member
  unfold RulesRead at reads
  rcases member with rfl | rfl | rfl
  all_goals
    rw [qdEntry_get number entry (by decide)] at reads
    exact reads

/-- Whether the server reads the converted entry as the exported one. -/
theorem entry_converted (reads : Reads entry request read) (on : read.checked = true)
    (headersOn : ∀ row ∈ read.request.headers, row.checked = true)
    (cookiesOn : ∀ row ∈ read.request.cookies, row.checked = true) :
    (∃ after, ReadAs (.obj (qdEntry number entry)) after ∧ tplEntry after = tplEntry read) ↔
      Convertible entry request := by
  have body := body_converted reads.postData
  have same : ∀ success failed extract, tplEntry (converted entry request read success failed extract) =
      tplEntry read ↔ Script.trim read.request.method ≠ "" ∧
        ((qdBody request).bind QdPostData.text = read.request.postData.bind QdPostData.text ∧
          ((qdBody request).bind QdPostData.mimeType).getD "" =
            (read.request.postData.bind QdPostData.mimeType).getD "") ∧
        success = read.successAsserts ∧ failed = read.failedAsserts ∧ extract = read.extractVariables := by
    intro success failed extract
    unfold tplEntry converted
    rw [TplEntry.mk.injEq,method_converted]
    constructor
    · rintro ⟨-,method,-,-,-,text,mimeType,success,failed,extract⟩
      exact ⟨method,⟨text,mimeType⟩,success,failed,extract⟩
    · rintro ⟨method,⟨text,mimeType⟩,success,failed,extract⟩
      exact ⟨on.symm,method,rfl,rfl,rfl,text,mimeType,success,failed,extract⟩
  constructor
  · rintro ⟨after,readAs,kept⟩
    have decoded : ∃ out, Reads (qdEntry number entry) out after := by
      obtain ⟨_,out,fields,afterReads⟩ := readAs
      cases fields
      exact ⟨out,afterReads⟩
    obtain ⟨_,afterReads⟩ := decoded
    have success := converted_rules number (by decide) afterReads.successAsserts
    have failed := converted_rules number (by decide) afterReads.failedAsserts
    have extract := converted_rules number (by decide) afterReads.extractVariables
    have only : after = converted entry request read _ _ _ := readAs_unique readAs
      ⟨_,_,rfl,converted_reads number reads headersOn cookiesOn success failed extract⟩
    rw [only] at kept
    obtain ⟨method,bodyKept,successKept,failedKept,extractKept⟩ := (same _ _ _).mp kept
    obtain ⟨noBody,text,mimeType⟩ := body.mp bodyKept
    rw [successKept] at success
    rw [failedKept] at failed
    rw [extractKept] at extract
    refine ⟨?_,noBody,text,mimeType,(rules_converted reads.successAsserts).mp success,
      (rules_converted reads.failedAsserts).mp failed,(rules_converted reads.extractVariables).mp extract⟩
    intro sent written
    cases Option.some.inj (written.symm.trans reads.method)
    exact method
  · rintro ⟨method,noBody,text,mimeType,success,failed,extract⟩
    refine ⟨_,⟨_,_,rfl,converted_reads number reads headersOn cookiesOn
      ((rules_converted reads.successAsserts).mpr success) ((rules_converted reads.failedAsserts).mpr failed)
      ((rules_converted reads.extractVariables).mpr extract)⟩,?_⟩
    exact (same _ _ _).mpr ⟨method _ reads.method,body.mpr ⟨noBody,text,mimeType⟩,rfl,rfl,rfl⟩

end

/-- An entry that is read, with everything on. -/
def ReadOn (json : Json) (read : QdHarEntry) : Prop :=
  ReadAs json read ∧ read.checked = true ∧ (∀ row ∈ read.request.headers, row.checked = true) ∧
    ∀ row ∈ read.request.cookies, row.checked = true

theorem readOn_of_allOn {items : List Json} {entries : List QdHarEntry}
    (related : List.Forall₂ ReadAs items entries) (on : AllOn items) : List.Forall₂ ReadOn items entries := by
  induction related with
  | nil => exact .nil
  | cons head _ ih =>
    obtain ⟨entry,request,rfl,reads⟩ := head
    obtain ⟨notOff,rows⟩ := on entry request (List.mem_cons_self ..) reads.requested
    refine .cons ⟨⟨entry,request,rfl,reads⟩,?_,on_rows reads.headers (rows _ (by decide)),
      on_rows reads.cookies (rows _ (by decide))⟩ (ih fun entry request member =>
        on entry request (List.mem_cons_of_mem _ member))
    rcases checked_cases reads.checked with written | ⟨_,set⟩
    · rw [written] at notOff
      simpa using notOff
    · exact set

/-- An entry that is compared alike with a valid one is valid. -/
theorem valid_of_tplEntry {after read : QdHarEntry} (same : tplEntry after = tplEntry read) (valid : read.Valid) :
    after.Valid := by
  unfold tplEntry at same
  rw [TplEntry.mk.injEq] at same
  obtain ⟨_,method,url,_,_,_,_,success,failed,extract⟩ := same
  exact ⟨method ▸ valid.method,url ▸ valid.url,success ▸ failed ▸ valid.asserts,extract ▸ valid.extracts⟩

theorem valid_of_views {after entries : List QdHarEntry} (same : after.map tplEntry = entries.map tplEntry)
    (valid : ∀ entry ∈ entries, entry.checked = true → entry.Valid) :
    ∀ entry ∈ after, entry.checked = true → entry.Valid := by
  intro entry member enabled
  obtain ⟨other,present,view⟩ := List.mem_map.mp (same ▸ List.mem_map_of_mem (f := tplEntry) member)
  have on : other.checked = true := (congrArg TplEntry.checked view).trans enabled
  exact valid_of_tplEntry view.symm (valid other present on)

/-- For every array the server accepts with nothing switched off: the server
reads the client's conversion as it reads the array exactly where every entry is
`Convertible`. -/
theorem converters_agree_iff (number : Number → String) {items : List Json} {har : QdHar}
    (accepted : QdHar.parseQd (.arr items) = .ok har) (on : AllOn items) :
    (∃ after, QdHar.parseQd (qdTplToHar number items) = .ok after ∧
      after.entries.map tplEntry = har.entries.map tplEntry) ↔
      ∀ item ∈ items, ∀ entry request : Fields, item = .obj entry → entry.object "request" = some request →
        Convertible entry request := by
  have found : qdEntries (.arr items) = some items := rfl
  obtain ⟨entries,related,nonempty,valid,rfl⟩ := (parseQd_ok found).mp accepted
  have wrapped : qdEntries (qdTplToHar number items) =
      some (items.map fun item => .obj (qdEntry number (Script.record (some item)))) := rfl
  have each : (∃ others, List.Forall₂ (fun item after => ReadAs (.obj (qdEntry number (Script.record (some item)))) after)
      items others ∧ others.map tplEntry = entries.map tplEntry) ↔
      ∀ item ∈ items, ∀ entry request : Fields, item = .obj entry → entry.object "request" = some request →
        Convertible entry request := by
    refine exists_map_eq_iff (readOn_of_allOn related on) ?_
    rintro _ read ⟨⟨entry,request,rfl,reads⟩,enabled,headersOn,cookiesOn⟩
    refine (entry_converted number reads enabled headersOn cookiesOn).trans ?_
    constructor
    · rintro convertible _ other same requested
      cases same
      cases Option.some.inj (reads.requested.symm.trans requested)
      exact convertible
    · intro all
      exact all entry request rfl reads.requested
  rw [← each]
  constructor
  · rintro ⟨after,parsed,same⟩
    obtain ⟨others,readAs,_,_,rfl⟩ := (parseQd_ok wrapped).mp parsed
    exact ⟨others,List.forall₂_map_left_iff.mp readAs,same⟩
  · rintro ⟨others,readAs,same⟩
    refine ⟨_,(parseQd_ok wrapped).mpr ⟨others,List.forall₂_map_left_iff.mpr readAs,?_,
      valid_of_views same valid,rfl⟩,same⟩
    rintro rfl
    exact nonempty (List.map_eq_nil_iff.mp same.symm)

def statusRule : Json := .arr [.obj [("re",.str "200"),("from",.str "status")]]

/-- An entry with its rules beside the request, and one with them under `rule`. -/
def flatRules : List Json := [.obj [("request",.obj [("method",.str "GET"),("url",.str "https://example.invalid/")]),
  ("success_asserts",statusRule)]]

def nestedRules : List Json := [.obj [("request",.obj [("method",.str "POST"),("url",.str "https://example.invalid/"),
    ("data",.str "a=1"),("mimeType",.str "application/x-www-form-urlencoded")]),
  ("rule",.obj [("success_asserts",statusRule)])]]

def assertCounts (har : QdHar) : List Nat := har.entries.map fun entry => entry.successAsserts.length

/-- The client drops assertions that stand at the entry. -/
theorem flat_rules_dropped : ∃ har, QdHar.parseQd (.arr flatRules) = .ok har ∧ AllOn flatRules ∧
    ¬(∃ after, QdHar.parseQd (qdTplToHar Script.decimal flatRules) = .ok after ∧
      after.entries.map tplEntry = har.entries.map tplEntry) := by
  refine ⟨_,rfl,?_,?_⟩
  · intro entry request member requested
    cases List.mem_singleton.mp member
    cases (Option.some.inj requested : _ = request)
    exact ⟨nofun,List.forall_mem_cons.mpr ⟨nofun,List.forall_mem_singleton.mpr nofun⟩⟩
  · rintro ⟨after,parsed,same⟩
    have counts := congrArg (List.map fun entry => entry.successAsserts.length) same
    have none := congrArg (Except.map assertCounts) parsed
    rw [List.map_map,List.map_map] at counts
    have dropped : [0] = assertCounts after := Except.ok.inj none
    exact absurd (dropped.trans counts) (by decide)

theorem converters_agree_nested : ∃ har, QdHar.parseQd (.arr nestedRules) = .ok har ∧
    ∃ after, QdHar.parseQd (qdTplToHar Script.decimal nestedRules) = .ok after ∧
      after.entries.map tplEntry = har.entries.map tplEntry := by
  refine ⟨_,rfl,?_⟩
  refine (converters_agree_iff Script.decimal rfl ?_).mpr ?_
  · intro entry request member requested
    cases List.mem_singleton.mp member
    cases (Option.some.inj requested : _ = request)
    exact ⟨nofun,List.forall_mem_cons.mpr ⟨nofun,List.forall_mem_singleton.mpr nofun⟩⟩
  · intro item member entry request same requested
    cases List.mem_singleton.mp member
    cases same
    cases (Option.some.inj requested : _ = request)
    refine ⟨?_,nofun,nofun,nofun,nofun,nofun,nofun⟩
    intro method sent
    cases (Option.some.inj sent : _ = method)
    decide

end Qdrust.Har
