import Qdrust.Library.Json
import Qdrust.Library.Text
import Qdrust.Library.Checked

/-! QD HAR documents: what the reader takes from the JSON, and what it demands
of an enabled entry. Records that keep unknown fields are read from objects
only, the others also from positional arrays. -/
namespace Qdrust.Har
open Library

/-- `str::trim`. -/
def trim (text : String) : String := Text.trimBy Text.whiteSpace text

structure QdNameValue where
  name : String
  value : String
  checked : Bool
  deriving DecidableEq

/-- A body; `params` is the extension field a multipart body is built from. -/
structure QdPostData where
  mimeType : Option String
  text : Option String
  params : Option Json

structure QdHarRequest where
  method : String
  url : String
  headers : List QdNameValue
  cookies : List QdNameValue
  postData : Option QdPostData

/-- `source` is the field `from`. -/
structure QdRule where
  re : String
  source : String
  deriving DecidableEq

structure QdExtractRule where
  name : String
  rule : QdRule
  deriving DecidableEq

structure QdHarEntry where
  checked : Bool
  comment : Option String
  request : QdHarRequest
  successAsserts : List QdRule
  failedAsserts : List QdRule
  extractVariables : List QdExtractRule

structure HarLog where
  version : String
  entries : List QdHarEntry

structure HarDocument where
  log : HarLog

def QdNameValue.fromJson (json : Json) : Option QdNameValue := do
  let fields ← json.asObj
  let name ← Json.field fields "name" Json.asStr
  let value ← Json.field fields "value" Json.asStr
  let checked ← Json.fieldD fields "checked" false Json.asBool
  return ⟨name,value,checked⟩

def QdPostData.fromJson (json : Json) : Option QdPostData := do
  let fields ← json.asObj
  let mimeType ← Json.fieldD fields "mimeType" none (Json.opt Json.asStr)
  let text ← Json.fieldD fields "text" none (Json.opt Json.asStr)
  return ⟨mimeType,text,fields.get "params"⟩

def QdHarRequest.fromJson (json : Json) : Option QdHarRequest := do
  let fields ← json.asObj
  let method ← Json.field fields "method" Json.asStr
  let url ← Json.field fields "url" Json.asStr
  let headers ← Json.fieldD fields "headers" [] (Json.vec QdNameValue.fromJson)
  let cookies ← Json.fieldD fields "cookies" [] (Json.vec QdNameValue.fromJson)
  let postData ← Json.fieldD fields "postData" none (Json.opt QdPostData.fromJson)
  return ⟨method,url,headers,cookies,postData⟩

def QdRule.fromJson (json : Json) : Option QdRule := do
  let fields ← json.asObj
  let re ← Json.field fields "re" Json.asStr
  let source ← Json.field fields "from" Json.asStr
  return ⟨re,source⟩

def QdExtractRule.fromJson (json : Json) : Option QdExtractRule := do
  let fields ← json.asObj
  let name ← Json.field fields "name" Json.asStr
  let rule ← QdRule.fromJson json
  return ⟨name,rule⟩

def QdHarEntry.fromJson (json : Json) : Option QdHarEntry := do
  let fields ← json.asObj
  let checked ← Json.fieldD fields "checked" false Json.asBool
  let comment ← Json.fieldD fields "comment" none (Json.opt Json.asStr)
  let request ← Json.field fields "request" QdHarRequest.fromJson
  let successAsserts ← Json.fieldD fields "success_asserts" [] (Json.vec QdRule.fromJson)
  let failedAsserts ← Json.fieldD fields "failed_asserts" [] (Json.vec QdRule.fromJson)
  let extractVariables ← Json.fieldD fields "extract_variables" [] (Json.vec QdExtractRule.fromJson)
  return ⟨checked,comment,request,successAsserts,failedAsserts,extractVariables⟩

def HarLog.fromJson (json : Json) : Option HarLog := do
  let fields ← json.record ["version","entries"]
  let version ← Json.field fields "version" Json.asStr
  let entries ← Json.field fields "entries" (Json.vec QdHarEntry.fromJson)
  return ⟨version,entries⟩

def HarDocument.fromJson (json : Json) : Option HarDocument := do
  let fields ← json.record ["log"]
  let log ← Json.field fields "log" HarLog.fromJson
  return ⟨log⟩

def QdRule.validate (rule : QdRule) : Except String Unit :=
  ensure (trim rule.source ≠ "") "rule source is empty"

/-- The name of an extraction may be empty. -/
def QdHarEntry.validate (entry : QdHarEntry) : Except String Unit := do
  ensure (trim entry.request.method ≠ "") "method is empty"
  ensure (trim entry.request.url ≠ "") "URL is empty"
  (entry.successAsserts ++ entry.failedAsserts).forM QdRule.validate
  entry.extractVariables.forM fun extract => extract.rule.validate

structure QdHar where
  raw : Json
  document : HarDocument

namespace QdHar

def entries (har : QdHar) : List QdHarEntry := har.document.log.entries

def enabledEntries (har : QdHar) : List QdHarEntry := har.entries.filter QdHarEntry.checked

/-- The check of the enabled entries, from position `index` on. -/
def validateEntries : Nat → List QdHarEntry → Except String Unit
  | _, [] => .ok ()
  | index, entry :: rest => do
    if entry.checked then
      entry.validate.mapError fun reason => "invalid QD HAR entry " ++ toString (index + 1) ++ ": " ++ reason
    validateEntries (index + 1) rest

def finishParse (raw : Json) (document : HarDocument) : Except String QdHar := do
  ensure (document.log.version = "1.2") "unsupported HAR version"
  ensure (!document.log.entries.isEmpty) "QD HAR must contain at least one entry"
  validateEntries 0 document.log.entries
  return ⟨raw,document⟩

def parse (raw : Json) : Except String QdHar :=
  match HarDocument.fromJson raw with
  | none => .error "invalid QD HAR document"
  | some document => finishParse raw document

end QdHar

/-- What the checks of an enabled entry demand. -/
structure QdHarEntry.Valid (entry : QdHarEntry) : Prop where
  method : trim entry.request.method ≠ ""
  url : trim entry.request.url ≠ ""
  asserts : ∀ rule ∈ entry.successAsserts ++ entry.failedAsserts, trim rule.source ≠ ""
  extracts : ∀ rule ∈ entry.extractVariables, trim rule.rule.source ≠ ""

theorem QdRule.validate_ok (rule : QdRule) : rule.validate = .ok () ↔ trim rule.source ≠ "" := by
  rw [QdRule.validate,ensure_ok,decide_eq_true_iff]

theorem QdHarEntry.validate_ok (entry : QdHarEntry) : entry.validate = .ok () ↔ entry.Valid := by
  simp only [QdHarEntry.validate,check_ok,ensure_ok,forM_ok,decide_eq_true_iff,QdRule.validate_ok]
  constructor
  · rintro ⟨method,url,asserts,extracts⟩
    exact ⟨method,url,asserts,extracts⟩
  · rintro ⟨method,url,asserts,extracts⟩
    exact ⟨method,url,asserts,extracts⟩

namespace QdHar

theorem validateEntries_ok (index : Nat) (entries : List QdHarEntry) :
    validateEntries index entries = .ok () ↔ ∀ entry ∈ entries, entry.checked = true → entry.Valid := by
  induction entries generalizing index with
  | nil => simp [validateEntries]
  | cons entry rest ih =>
    rw [validateEntries,List.forall_mem_cons,← ih (index + 1),← entry.validate_ok]
    cases entry.checked with
    | false => simp
    | true =>
      rw [if_pos rfl,check_ok,mapError_ok]
      simp

/-- What is accepted once the document decodes. -/
theorem finishParse_ok {raw : Json} {document : HarDocument} {har : QdHar} :
    finishParse raw document = .ok har ↔ document.log.version = "1.2" ∧ document.log.entries ≠ [] ∧
      (∀ entry ∈ document.log.entries, entry.checked = true → entry.Valid) ∧ har = ⟨raw,document⟩ := by
  have nonempty : (!document.log.entries.isEmpty) = true ↔ document.log.entries ≠ [] := by simp
  simp only [finishParse,check_ok,ensure_ok,validateEntries_ok,decide_eq_true_iff,nonempty]
  constructor
  · rintro ⟨version,some,valid,done⟩
    cases done
    exact ⟨version,some,valid,rfl⟩
  · rintro ⟨version,some,valid,rfl⟩
    exact ⟨version,some,valid,rfl⟩

end QdHar
end Qdrust.Har
