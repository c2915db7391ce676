import Qdrust.Har.Normalize
import Qdrust.Library.Readings

/-! What `parse_qd` reads in an entry, field by field, in terms of the entry as
it was written. The other readers are compared with this one. -/
namespace Qdrust.Har
open Library

/-- The rules nested under `rule`. -/
def nestedRule (entry : Fields) (key : String) : Option Json :=
  (entry.object "rule").bind fun rule => rule.get key

/-- A header or cookie, where an absent `checked` means `flag`. -/
structure NameValueAt (flag : Bool) (fields : Fields) (row : QdNameValue) : Prop where
  name : fields.text "name" = some row.name
  value : fields.text "value" = some row.value
  checked : Json.fieldD fields "checked" flag Json.asBool = some row.checked

/-- The text a body without one gets. -/
def textDefault (request post : Fields) : Option String :=
  (request.text "data").or ((post.list "params").map formBody)

/-- The body of a request. -/
def PostReads (request : Fields) (body : Option QdPostData) : Prop :=
  match request.get "postData" with
  | none => body = if (request.text "data").isNone && (request.text "mimeType").isNone then none
      else some ⟨request.text "mimeType",request.text "data",none⟩
  | some .null => body = none
  | some (.obj post) => ∃ mimeType text, body = some ⟨mimeType,text,Fields.get post "params"⟩ ∧
      Json.fieldD post "mimeType" (request.text "mimeType") (Json.opt Json.asStr) = some mimeType ∧
      Json.fieldD post "text" (textDefault request post) (Json.opt Json.asStr) = some text
  | some _ => False

def NameValuesRead (flag : Bool) (request : Fields) (key : String) (rows : List QdNameValue) : Prop :=
  Json.ListOrAbsent (request.get key) ∧
    List.Forall₂ (fun json row => ∃ item, json = .obj item ∧ NameValueAt flag item row) (request.items key) rows

/-- Rules stand at the entry or else under `rule`. -/
def RulesRead {α : Type} (rule : Json → Option α) (entry : Fields) (key : String) (rows : List α) : Prop :=
  Json.readD [] (Json.vec rule) ((entry.get key).or (nestedRule entry key)) = some rows

structure Reads (entry request : Fields) (read : QdHarEntry) : Prop where
  requested : entry.object "request" = some request
  checked : Json.fieldD entry "checked" true Json.asBool = some read.checked
  comment : Json.fieldD entry "comment" none (Json.opt Json.asStr) = some read.comment
  method : request.text "method" = some read.request.method
  url : request.text "url" = some read.request.url
  headers : NameValuesRead true request "headers" read.request.headers
  cookies : NameValuesRead true request "cookies" read.request.cookies
  postData : PostReads request read.request.postData
  successAsserts : RulesRead QdRule.fromJson entry "success_asserts" read.successAsserts
  failedAsserts : RulesRead QdRule.fromJson entry "failed_asserts" read.failedAsserts
  extractVariables : RulesRead QdExtractRule.fromJson entry "extract_variables" read.extractVariables

theorem nameValue_fromJson {json : Json} {row : QdNameValue} :
    QdNameValue.fromJson json = some row ↔ ∃ item, json = .obj item ∧ NameValueAt false item row := by
  simp only [QdNameValue.fromJson,Option.bind_eq_bind,Option.bind_eq_some_iff,Json.asObj_eq_some,
    Option.pure_def,Option.some.injEq]
  constructor
  · rintro ⟨item,rfl,name,named,value,valued,checked,flagged,rfl⟩
    exact ⟨item,rfl,named,valued,flagged⟩
  · rintro ⟨item,rfl,named,valued,flagged⟩
    exact ⟨item,rfl,row.name,named,row.value,valued,row.checked,flagged,rfl⟩

theorem nameValueAt_insertNew {fields : Fields} {row : QdNameValue} :
    NameValueAt false (fields.insertNew "checked" (.bool true)) row ↔ NameValueAt true fields row := by
  have name : (fields.insertNew "checked" (.bool true)).text "name" = fields.text "name" := by
    simp [Fields.text,Fields.get_insertNew]
  have value : (fields.insertNew "checked" (.bool true)).text "value" = fields.text "value" := by
    simp [Fields.text,Fields.get_insertNew]
  have flag : Json.fieldD (fields.insertNew "checked" (.bool true)) "checked" false Json.asBool =
      Json.fieldD fields "checked" true Json.asBool := Json.fieldD_insertNew rfl
  constructor
  · rintro ⟨named,valued,flagged⟩
    exact ⟨name ▸ named,value ▸ valued,flag ▸ flagged⟩
  · rintro ⟨named,valued,flagged⟩
    exact ⟨name ▸ named,value ▸ valued,flag ▸ flagged⟩

theorem nameValue_enable {json : Json} {row : QdNameValue} :
    QdNameValue.fromJson (enable json) = some row ↔ ∃ item, json = .obj item ∧ NameValueAt true item row := by
  rw [nameValue_fromJson]
  constructor
  · rintro ⟨item,enabled,itemRead⟩
    cases json with
    | obj fields =>
      cases enabled
      exact ⟨fields,rfl,nameValueAt_insertNew.mp itemRead⟩
    | _ => cases enabled
  · rintro ⟨item,rfl,itemRead⟩
    exact ⟨_,rfl,nameValueAt_insertNew.mpr itemRead⟩

theorem nameValues_fromJson {request : Fields} {key : String} {rows : List QdNameValue} :
    Json.fieldD request key [] (Json.vec QdNameValue.fromJson) = some rows ↔
      NameValuesRead false request key rows := by
  simp only [Json.fieldD,Json.readD_vec,nameValue_fromJson,NameValuesRead,Fields.items,Fields.list]

theorem nameValues_enableAll {request : Fields} {key : String} {rows : List QdNameValue} :
    Json.readD [] (Json.vec QdNameValue.fromJson) ((request.get key).map enableAll) = some rows ↔
      NameValuesRead true request key rows := by
  rw [Json.readD_vec,NameValuesRead,Fields.items,Fields.list]
  cases present : request.get key with
  | none => simp [Json.ListOrAbsent]
  | some json =>
    cases json with
    | arr items =>
      simp only [Option.map_some,enableAll,Json.onArr,Json.ListOrAbsent,Option.bind_some,Json.asArr,
        Option.getD_some,List.forall₂_map_left_iff,nameValue_enable]
      simp
    | _ => simp [Json.ListOrAbsent,enableAll,Json.onArr]

theorem text_congr {first second : Fields} {name : String} (same : first.get name = second.get name) :
    first.text name = second.text name := by
  rw [Fields.text,Fields.text,same]

theorem hoistRules_get_rule (entry : Fields) {key : String} (rule : key ∈ ruleKeys) :
    (hoistRules entry).get key = (entry.get key).or (nestedRule entry key) := by
  have notRule : key ≠ "rule" := by
    rintro rfl
    exact absurd rule (by decide)
  unfold hoistRules nestedRule
  cases nested : entry.object "rule" with
  | none => simp [Fields.get_remove,notRule]
  | some fields =>
    simp only [ruleKeys,List.mem_cons,List.not_mem_nil,or_false] at rule
    rcases rule with rfl | rfl | rfl <;>
      simp [ruleKeys,hoist,Fields.get_insertSome,Fields.get_remove]

theorem hoistRules_get (entry : Fields) {name : String} (other : name ∉ ruleKeys) (notRule : name ≠ "rule") :
    (hoistRules entry).get name = entry.get name := by
  simp only [ruleKeys,List.mem_cons,List.not_mem_nil,or_false,not_or] at other
  unfold hoistRules
  cases entry.object "rule" with
  | none => simp [Fields.get_remove,notRule]
  | some rule => simp [ruleKeys,hoist,Fields.get_insertSome,Fields.get_remove,other,notRule]

/-- The fields of a completed body. -/
def completed (data mimeType : Option String) (post : Fields) : Fields :=
  insertForm (insertText (insertText post "text" data) "mimeType" mimeType)

theorem completed_params (data mimeType : Option String) (post : Fields) :
    (completed data mimeType post).get "params" = post.get "params" := by
  simp [completed,insertForm,insertText,Fields.get_insertSome]

theorem completed_mimeType (data mimeType : Option String) (post : Fields) :
    (completed data mimeType post).get "mimeType" = (post.get "mimeType").or (mimeType.map .str) := by
  simp [completed,insertForm,insertText,Fields.get_insertSome]

theorem completed_text (data mimeType : Option String) (post : Fields) :
    (completed data mimeType post).get "text" =
      (post.get "text").or ((data.or ((post.list "params").map formBody)).map .str) := by
  have params : (insertText (insertText post "text" data) "mimeType" mimeType).list "params" =
      post.list "params" := by
    simp [Fields.list,insertText,Fields.get_insertSome]
  rw [completed,insertForm,Fields.get_insertSome,if_pos rfl,params]
  simp only [insertText,Fields.get_insertSome,String.reduceEq,if_false,if_true]
  cases post.get "text" with
  | some _ => rfl
  | none => cases data <;> simp [Option.map_map,Function.comp_def]

theorem normalizePost_get (request : Fields) {name : String} (other : name ≠ "postData") :
    (normalizePost request).get name = request.get name := by
  unfold normalizePost
  dsimp only
  split
  · rfl
  · rw [Fields.get_modify,if_neg other,Fields.get_insertNew,if_neg other]

/-- A body is completed wherever there is one or a text for one. -/
theorem normalizePost_postData (request : Fields) :
    (normalizePost request).get "postData" =
      match request.get "postData" with
      | some post => some (completePost (request.text "data") (request.text "mimeType") post)
      | none =>
        if (request.text "data").isNone && (request.text "mimeType").isNone then none
        else some (completePost (request.text "data") (request.text "mimeType") (.obj [])) := by
  unfold normalizePost
  dsimp only
  by_cases quiet : ((request.text "data").isNone && (request.text "mimeType").isNone && !hasParams request) = true
  · rw [if_pos quiet]
    simp only [Bool.and_eq_true,Option.isNone_iff_eq_none,Bool.not_eq_true'] at quiet
    obtain ⟨⟨data,mimeType⟩,params⟩ := quiet
    rw [data,mimeType]
    cases post : request.get "postData" with
    | none => simp
    | some json =>
      cases json with
      | obj fields =>
        have absent : Fields.list fields "params" = none := by
          simpa [hasParams,Fields.object,post,Json.asObj] using params
        simp [completePost,Json.onObj,insertText,insertForm,Fields.insertSome,absent]
      | _ => rfl
  · rw [if_neg quiet,Fields.get_modify,if_pos rfl,Fields.get_insertNew,if_pos rfl]
    cases post : request.get "postData" with
    | some json => rfl
    | none =>
      have noParams : hasParams request = false := by simp [hasParams,Fields.object,post]
      rw [noParams] at quiet
      simp only [Bool.not_false,Bool.and_true] at quiet
      simp [quiet]

theorem readD_or_text (value : Option Json) (text : Option String) :
    Json.readD none (Json.opt Json.asStr) (value.or (text.map .str)) =
      Json.readD text (Json.opt Json.asStr) value := by
  cases value <;> cases text <;> rfl

theorem postData_fromJson {fields : Fields} {body : QdPostData} :
    QdPostData.fromJson (.obj fields) = some body ↔
      ∃ mimeType text, body = ⟨mimeType,text,fields.get "params"⟩ ∧
        Json.fieldD fields "mimeType" none (Json.opt Json.asStr) = some mimeType ∧
        Json.fieldD fields "text" none (Json.opt Json.asStr) = some text := by
  simp only [QdPostData.fromJson,Json.asObj,Option.bind_eq_bind,Option.bind_some,Option.bind_eq_some_iff,
    Option.pure_def,Option.some.injEq]
  constructor
  · rintro ⟨mimeType,mimeRead,text,textRead,rfl⟩
    exact ⟨mimeType,text,rfl,mimeRead,textRead⟩
  · rintro ⟨mimeType,text,rfl,mimeRead,textRead⟩
    exact ⟨mimeType,mimeRead,text,textRead,rfl⟩

theorem opt_postData {json : Json} {body : Option QdPostData} :
    Json.opt QdPostData.fromJson json = some body ↔
      (json = .null ∧ body = none) ∨
        ∃ fields read, json = .obj fields ∧ body = some read ∧ QdPostData.fromJson (.obj fields) = some read := by
  cases json with
  | null => simp [Json.opt,eq_comm]
  | obj fields =>
    simp only [Json.opt,Option.map_eq_some_iff,reduceCtorEq,false_and,false_or,Json.obj.injEq]
    constructor
    · rintro ⟨read,decoded,rfl⟩
      exact ⟨fields,read,rfl,rfl,decoded⟩
    · rintro ⟨_,read,rfl,rfl,decoded⟩
      exact ⟨read,decoded,rfl⟩
  | _ => simp [Json.opt,QdPostData.fromJson,Json.asObj]

/-- What is read from a body that was completed. -/
theorem completed_read {data mimeType : Option String} {post : Fields} {body : Option QdPostData} :
    Json.opt QdPostData.fromJson (completePost data mimeType (.obj post)) = some body ↔
      ∃ mime text, body = some ⟨mime,text,post.get "params"⟩ ∧
        Json.fieldD post "mimeType" mimeType (Json.opt Json.asStr) = some mime ∧
        Json.fieldD post "text" (data.or ((post.list "params").map formBody)) (Json.opt Json.asStr) = some text := by
  have fields : completePost data mimeType (.obj post) = .obj (completed data mimeType post) := rfl
  simp only [fields,opt_postData,postData_fromJson,Json.fieldD,reduceCtorEq,false_and,false_or,Json.obj.injEq]
  constructor
  · rintro ⟨_,_,rfl,rfl,mime,text,rfl,mimeRead,textRead⟩
    simp only [completed_params,completed_mimeType,completed_text,readD_or_text] at mimeRead textRead ⊢
    exact ⟨mime,text,rfl,mimeRead,textRead⟩
  · rintro ⟨mime,text,rfl,mimeRead,textRead⟩
    refine ⟨_,_,rfl,rfl,mime,text,?_,?_,?_⟩
    · simp only [completed_params]
    · simpa only [completed_mimeType,readD_or_text] using mimeRead
    · simpa only [completed_text,readD_or_text] using textRead

theorem normalizePost_read {request : Fields} {body : Option QdPostData} :
    Json.fieldD (normalizePost request) "postData" none (Json.opt QdPostData.fromJson) = some body ↔
      PostReads request body := by
  rw [Json.fieldD,normalizePost_postData,PostReads]
  cases request.get "postData" with
  | none =>
    dsimp only
    split
    · simp [Json.readD,eq_comm]
    · rw [Json.readD,completed_read]
      simp [Json.fieldD,Json.readD,Fields.get,Fields.list,eq_comm]
  | some json =>
    cases json with
    | null => simp [Json.readD,completePost,Json.onObj,Json.opt,eq_comm]
    | obj post => exact completed_read
    | _ => simp [Json.readD,completePost,Json.onObj,Json.opt,QdPostData.fromJson,Json.asObj]

theorem request_fromJson {json : Json} {read : QdHarRequest} :
    QdHarRequest.fromJson json = some read ↔ ∃ request : Fields, json = .obj request ∧
      request.text "method" = some read.method ∧ request.text "url" = some read.url ∧
      Json.fieldD request "headers" [] (Json.vec QdNameValue.fromJson) = some read.headers ∧
      Json.fieldD request "cookies" [] (Json.vec QdNameValue.fromJson) = some read.cookies ∧
      Json.fieldD request "postData" none (Json.opt QdPostData.fromJson) = some read.postData := by
  simp only [QdHarRequest.fromJson,Option.bind_eq_bind,Option.bind_eq_some_iff,Json.asObj_eq_some,
    Option.pure_def,Option.some.injEq]
  constructor
  · rintro ⟨request,rfl,_,method,_,url,_,headers,_,cookies,_,postData,rfl⟩
    exact ⟨request,rfl,method,url,headers,cookies,postData⟩
  · rintro ⟨request,rfl,method,url,headers,cookies,postData⟩
    exact ⟨request,rfl,_,method,_,url,_,headers,_,cookies,_,postData,rfl⟩

theorem entry_fromJson {json : Json} {read : QdHarEntry} :
    QdHarEntry.fromJson json = some read ↔ ∃ entry : Fields, json = .obj entry ∧
      Json.fieldD entry "checked" false Json.asBool = some read.checked ∧
      Json.fieldD entry "comment" none (Json.opt Json.asStr) = some read.comment ∧
      Json.field entry "request" QdHarRequest.fromJson = some read.request ∧
      Json.fieldD entry "success_asserts" [] (Json.vec QdRule.fromJson) = some read.successAsserts ∧
      Json.fieldD entry "failed_asserts" [] (Json.vec QdRule.fromJson) = some read.failedAsserts ∧
      Json.fieldD entry "extract_variables" [] (Json.vec QdExtractRule.fromJson) = some read.extractVariables := by
  simp only [QdHarEntry.fromJson,Option.bind_eq_bind,Option.bind_eq_some_iff,Json.asObj_eq_some,
    Option.pure_def,Option.some.injEq]
  constructor
  · rintro ⟨entry,rfl,_,checked,_,comment,_,request,_,success,_,failed,_,extract,rfl⟩
    exact ⟨entry,rfl,checked,comment,request,success,failed,extract⟩
  · rintro ⟨entry,rfl,checked,comment,request,success,failed,extract⟩
    exact ⟨entry,rfl,_,checked,_,comment,_,request,_,success,_,failed,_,extract,rfl⟩

/-- The fields of a normalised request. -/
def normalizedRequest (request : Fields) : Fields :=
  normalizePost ((request.modify "headers" enableAll).modify "cookies" enableAll)

theorem normalizedRequest_get (request : Fields) {name : String} (notPost : name ≠ "postData")
    (notHeaders : name ≠ "headers") (notCookies : name ≠ "cookies") :
    (normalizedRequest request).get name = request.get name := by
  rw [normalizedRequest,normalizePost_get _ notPost,Fields.get_modify,if_neg notCookies,Fields.get_modify,
    if_neg notHeaders]

theorem normalizedRequest_rows (request : Fields) {key : String} (rows : key = "headers" ∨ key = "cookies") :
    (normalizedRequest request).get key = (request.get key).map enableAll := by
  rcases rows with rfl | rfl <;> simp [normalizedRequest,normalizePost_get,Fields.get_modify]

/-- Only headers and cookies change before the body is completed. -/
theorem postReads_congr {first second : Fields} (post : first.get "postData" = second.get "postData")
    (data : first.text "data" = second.text "data") (mimeType : first.text "mimeType" = second.text "mimeType")
    {body : Option QdPostData} : PostReads first body ↔ PostReads second body := by
  unfold PostReads textDefault
  rw [post,data,mimeType]

theorem normalizedRequest_read {request : Fields} {read : QdHarRequest} :
    QdHarRequest.fromJson (.obj (normalizedRequest request)) = some read ↔
      request.text "method" = some read.method ∧ request.text "url" = some read.url ∧
      NameValuesRead true request "headers" read.headers ∧ NameValuesRead true request "cookies" read.cookies ∧
      PostReads request read.postData := by
  have method : (normalizedRequest request).text "method" = request.text "method" :=
    text_congr (normalizedRequest_get request (by decide) (by decide) (by decide))
  have url : (normalizedRequest request).text "url" = request.text "url" :=
    text_congr (normalizedRequest_get request (by decide) (by decide) (by decide))
  have post : Json.fieldD (normalizedRequest request) "postData" none (Json.opt QdPostData.fromJson) =
      some read.postData ↔ PostReads request read.postData := by
    rw [normalizedRequest,normalizePost_read]
    apply postReads_congr <;> simp [Fields.text,Fields.get_modify]
  have headers : Json.fieldD (normalizedRequest request) "headers" [] (Json.vec QdNameValue.fromJson) =
      some read.headers ↔ NameValuesRead true request "headers" read.headers := by
    rw [Json.fieldD,normalizedRequest_rows request (.inl rfl),nameValues_enableAll]
  have cookies : Json.fieldD (normalizedRequest request) "cookies" [] (Json.vec QdNameValue.fromJson) =
      some read.cookies ↔ NameValuesRead true request "cookies" read.cookies := by
    rw [Json.fieldD,normalizedRequest_rows request (.inr rfl),nameValues_enableAll]
  rw [request_fromJson]
  constructor
  · rintro ⟨_,same,methodRead,urlRead,headersRead,cookiesRead,postRead⟩
    cases same
    exact ⟨method ▸ methodRead,url ▸ urlRead,headers.mp headersRead,cookies.mp cookiesRead,post.mp postRead⟩
  · rintro ⟨methodRead,urlRead,headersRead,cookiesRead,postRead⟩
    exact ⟨_,rfl,method ▸ methodRead,url ▸ urlRead,headers.mpr headersRead,cookies.mpr cookiesRead,
      post.mpr postRead⟩

/-- The fields of a normalised entry. -/
def normalizedEntry (entry : Fields) : Fields :=
  (hoistRules (entry.insertNew "checked" (.bool true))).modify "request" normalizeRequest

theorem normalizedEntry_get (entry : Fields) {name : String} (notRules : name ∉ ruleKeys)
    (notRule : name ≠ "rule") (notRequest : name ≠ "request") :
    (normalizedEntry entry).get name = (entry.insertNew "checked" (.bool true)).get name := by
  rw [normalizedEntry,Fields.get_modify,if_neg notRequest,hoistRules_get _ notRules notRule]

theorem normalizedEntry_rule (entry : Fields) {key : String} (rule : key ∈ ruleKeys) :
    (normalizedEntry entry).get key = (entry.get key).or (nestedRule entry key) := by
  have notRequest : key ≠ "request" := by
    rintro rfl
    exact absurd rule (by decide)
  have notChecked : key ≠ "checked" := by
    rintro rfl
    exact absurd rule (by decide)
  have nested : nestedRule (entry.insertNew "checked" (.bool true)) key = nestedRule entry key := by
    simp [nestedRule,Fields.object,Fields.get_insertNew]
  rw [normalizedEntry,Fields.get_modify,if_neg notRequest,hoistRules_get_rule _ rule,nested,
    Fields.get_insertNew,if_neg notChecked]

theorem normalizedEntry_request (entry : Fields) {read : QdHarRequest} :
    Json.field (normalizedEntry entry) "request" QdHarRequest.fromJson = some read ↔
      ∃ request, entry.object "request" = some request ∧
        QdHarRequest.fromJson (.obj (normalizedRequest request)) = some read := by
  have present : (normalizedEntry entry).get "request" = (entry.get "request").map normalizeRequest := by
    rw [normalizedEntry,Fields.get_modify,if_pos rfl,hoistRules_get _ (by decide) (by decide),
      Fields.get_insertNew,if_neg (by decide)]
  rw [Json.field,present,Fields.object]
  cases entry.get "request" with
  | none => simp
  | some json =>
    cases json with
    | obj request => simp [normalizeRequest,Json.onObj,normalizedRequest,Json.asObj]
    | _ => simp [normalizeRequest,Json.onObj,request_fromJson,Json.asObj]

/-- What `parse_qd` reads for an entry. -/
def ReadAs (json : Json) (read : QdHarEntry) : Prop :=
  ∃ entry request : Fields, json = .obj entry ∧ Reads entry request read

theorem normalizeEntry_read {json : Json} {read : QdHarEntry} :
    QdHarEntry.fromJson (normalizeEntry json) = some read ↔ ReadAs json read := by
  have fields : ∀ entry : Fields, QdHarEntry.fromJson (.obj (normalizedEntry entry)) = some read ↔
      ∃ request, Reads entry request read := by
    intro entry
    have checked : Json.fieldD (normalizedEntry entry) "checked" false Json.asBool =
        Json.fieldD entry "checked" true Json.asBool := by
      rw [Json.fieldD_congr (normalizedEntry_get entry (by decide) (by decide) (by decide))]
      exact Json.fieldD_insertNew rfl
    have comment : (normalizedEntry entry).get "comment" = entry.get "comment" := by
      rw [normalizedEntry_get entry (by decide) (by decide) (by decide),Fields.get_insertNew,if_neg (by decide)]
    have rules : ∀ key ∈ ruleKeys, (normalizedEntry entry).get key = (entry.get key).or (nestedRule entry key) :=
      fun key rule => normalizedEntry_rule entry rule
    rw [entry_fromJson]
    constructor
    · rintro ⟨_,same,checkedRead,commentRead,requestRead,success,failed,extract⟩
      cases same
      obtain ⟨request,requested,requestRead⟩ := (normalizedEntry_request entry).mp requestRead
      obtain ⟨method,url,headers,cookies,post⟩ := normalizedRequest_read.mp requestRead
      rw [Json.fieldD,rules _ (by decide)] at success failed extract
      exact ⟨request,requested,checked ▸ checkedRead,Json.fieldD_congr comment _ _ ▸ commentRead,
        method,url,headers,cookies,post,success,failed,extract⟩
    · rintro ⟨request,reads⟩
      refine ⟨_,rfl,checked ▸ reads.checked,Json.fieldD_congr comment _ _ ▸ reads.comment,?_,?_,?_,?_⟩
      · exact (normalizedEntry_request entry).mpr ⟨request,reads.requested,normalizedRequest_read.mpr
          ⟨reads.method,reads.url,reads.headers,reads.cookies,reads.postData⟩⟩
      · rw [Json.fieldD,rules _ (by decide)]
        exact reads.successAsserts
      · rw [Json.fieldD,rules _ (by decide)]
        exact reads.failedAsserts
      · rw [Json.fieldD,rules _ (by decide)]
        exact reads.extractVariables
  cases json with
  | obj entry =>
    refine (fields entry).trans ?_
    simp [ReadAs]
  | _ => simp [normalizeEntry,Json.onObj,entry_fromJson,ReadAs]

theorem harLog_fromJson (name version : String) (items : List Json) :
    HarDocument.fromJson (harLog name version items) =
      (items.mapM QdHarEntry.fromJson).map fun entries => ⟨⟨"1.2",entries⟩⟩ := by
  change ((items.mapM QdHarEntry.fromJson).bind fun entries => some (HarLog.mk "1.2" entries)).bind
    (fun log => some (HarDocument.mk log)) = _
  cases items.mapM QdHarEntry.fromJson <;> rfl

/-- A document around entries is accepted for its entries. -/
theorem finishParse_entries {raw : Json} {entries : List QdHarEntry} {har : QdHar} :
    QdHar.finishParse raw ⟨⟨"1.2",entries⟩⟩ = .ok har ↔ entries ≠ [] ∧
      (∀ entry ∈ entries, entry.checked = true → entry.Valid) ∧ har = ⟨raw,⟨⟨"1.2",entries⟩⟩⟩ := by
  rw [QdHar.finishParse_ok]
  simp

/-- The documents `parse_qd` accepts, for the shapes it rewrites. -/
theorem parseQd_ok {raw : Json} {items : List Json} {har : QdHar} (found : qdEntries raw = some items) :
    QdHar.parseQd raw = .ok har ↔ ∃ entries, List.Forall₂ ReadAs items entries ∧ entries ≠ [] ∧
      (∀ entry ∈ entries, entry.checked = true → entry.Valid) ∧ har = ⟨raw,⟨⟨"1.2",entries⟩⟩⟩ := by
  have decoded : ∀ entries, (items.map normalizeEntry).mapM QdHarEntry.fromJson = some entries ↔
      List.Forall₂ ReadAs items entries := by
    intro entries
    simp only [Json.mapM_eq_some,List.forall₂_map_left_iff,normalizeEntry_read]
  unfold QdHar.parseQd normalizeQdDocument
  rw [found,harLog_fromJson]
  cases read : (items.map normalizeEntry).mapM QdHarEntry.fromJson with
  | none =>
    constructor
    · exact nofun
    · rintro ⟨entries,related,_⟩
      rw [(decoded entries).mpr related] at read
      cases read
  | some entries =>
    refine finishParse_entries.trans ⟨?_,?_⟩
    · rintro ⟨nonempty,valid,rfl⟩
      exact ⟨entries,(decoded entries).mp read,nonempty,valid,rfl⟩
    · rintro ⟨others,related,nonempty,valid,rfl⟩
      rw [(decoded others).mpr related] at read
      cases read
      exact ⟨nonempty,valid,rfl⟩

theorem readAs_unique {json : Json} {first second : QdHarEntry} (one : ReadAs json first)
    (other : ReadAs json second) : first = second :=
  Option.some.inj ((normalizeEntry_read.mpr one).symm.trans (normalizeEntry_read.mpr other))

/-- An optional text as it was read: written, `null` or absent. -/
theorem text_cases {fields : Fields} {name : String} {default read : Option String}
    (decoded : Json.fieldD fields name default (Json.opt Json.asStr) = some read) :
    (fields.get name = none ∧ read = default) ∨ (fields.get name = some .null ∧ read = none) ∨
      ∃ text, fields.get name = some (.str text) ∧ read = some text := by
  rw [Json.fieldD] at decoded
  cases present : fields.get name with
  | none =>
    rw [present] at decoded
    exact .inl ⟨rfl,(Option.some.inj decoded).symm⟩
  | some json =>
    rw [present] at decoded
    cases json with
    | null => exact .inr (.inl ⟨rfl,(Option.some.inj decoded).symm⟩)
    | str text => exact .inr (.inr ⟨text,rfl,(Option.some.inj decoded).symm⟩)
    | _ => cases decoded

end Qdrust.Har
