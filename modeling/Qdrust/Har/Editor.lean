import Qdrust.Har.Stored
import Qdrust.Library.Script

/-! The HAR editor: a document is normalised when it is opened and again when it
is saved. Saving without an edit is the two in a row, read by the executor. -/
namespace Qdrust.Har.Editor
open Library

/-- A row of a header or form table, with its flag. -/
structure HarFlagged where
  name : String
  value : String
  checked : Bool

/-- A row of a cookie or query table. -/
structure HarPair where
  name : String
  value : String

structure HarPostData where
  mimeType : Option String
  params : Option (List HarFlagged)
  text : Option String

structure HarRequest where
  method : String
  url : String
  headers : List HarFlagged
  cookies : List HarPair
  queryString : Option (List HarPair)
  postData : Option HarPostData

structure HarAssert where
  re : String
  source : String

structure HarExtract where
  name : String
  re : String
  source : String

structure HarEntry where
  checked : Bool
  comment : Option String
  request : HarRequest
  successAsserts : List HarAssert
  failedAsserts : List HarAssert
  extractVariables : List HarExtract

structure HarLog where
  version : String
  creator : Option Fields
  entries : List HarEntry

section
variable (number : Number → String)

def asStr : Option Json → String
  | none => ""
  | some .null => ""
  | some (.str value) => value
  | some json => Script.string number json

/-- A number is `=== 1` when it prints as `1`. -/
def asBool : Json → Bool
  | .bool value => value
  | .num value => number value = "1"
  | .str value => value = "1" || value = "true"
  | _ => false

/-- The rows of a list; items that are no records count as empty ones. -/
def normalizeList {α : Type} (value : Option Json) (row : Fields → α) : List α :=
  (Script.array value).map fun item => row (Script.record (some item))

def flagged (row : Fields) : HarFlagged where
  name := asStr number (row.get "name")
  value := asStr number (row.get "value")
  checked := asBool number (Script.orElse (row.get "checked") (.bool true))

def pair (row : Fields) : HarPair := ⟨asStr number (row.get "name"),asStr number (row.get "value")⟩

def assertion (row : Fields) : HarAssert := ⟨asStr number (row.get "re"),asStr number (row.get "from")⟩

def extraction (row : Fields) : HarExtract :=
  ⟨asStr number (row.get "name"),asStr number (row.get "re"),asStr number (row.get "from")⟩

def orGet (method : String) : String := if method = "" then "GET" else method

def loadPost (post : Fields) : HarPostData where
  mimeType := some (asStr number (post.get "mimeType"))
  params := (post.list "params").map fun _ => normalizeList (post.get "params") (flagged number)
  text := post.text "text"

def loadRequest (request : Fields) : HarRequest where
  method := orGet (asStr number (request.get "method"))
  url := asStr number (request.get "url")
  headers := normalizeList (request.get "headers") (flagged number)
  cookies := normalizeList (request.get "cookies") (pair number)
  queryString := (request.list "queryString").map fun _ => normalizeList (request.get "queryString") (pair number)
  postData := (request.object "postData").map (loadPost number)

def loadEntry (entry : Fields) : HarEntry where
  checked := match entry.get "checked" with
    | none => true
    | some flag => asBool number flag
  comment := some (asStr number (entry.get "comment"))
  request := loadRequest number (Script.record (entry.get "request"))
  successAsserts := normalizeList (entry.get "success_asserts") (assertion number)
  failedAsserts := normalizeList (entry.get "failed_asserts") (assertion number)
  extractVariables := normalizeList (entry.get "extract_variables") (extraction number)

def normalizeEntry (json : Json) : Option HarEntry := json.asObj.map (loadEntry number)

def orVersion (version : String) : String := if version = "" then "1.2" else version

def parseHarDocument (raw : Json) : Option HarLog := do
  let document ← raw.asObj
  let log ← document.object "log"
  return {
    version := orVersion ((log.text "version").getD "1.2")
    creator := log.object "creator"
    entries := (Script.array (log.get "entries")).filterMap (normalizeEntry number)
  }

end

/-- Rows with a name or a value. -/
def flaggedRow (row : HarFlagged) : Bool := row.name ≠ "" || row.value ≠ ""

def pairRow (row : HarPair) : Bool := row.name ≠ "" || row.value ≠ ""

def nonempty {α : Type} (rows : List α) : Option (List α) := if rows.isEmpty then none else some rows

def someText (text : String) : Option String := if text = "" then none else some text

def normalizeAsserts (rows : List HarAssert) : List HarAssert :=
  rows.filter fun row => row.re ≠ "" || row.source ≠ ""

def normalizeExtracts (rows : List HarExtract) : List HarExtract :=
  rows.filter fun row => row.name ≠ "" || row.re ≠ "" || row.source ≠ ""

/-- A body with nothing in it is left out. -/
def normalizePostData (post : HarPostData) : Option HarPostData :=
  let mimeType := someText (Script.trim (post.mimeType.getD ""))
  let text := post.text.bind someText
  let params := nonempty ((post.params.getD []).filter flaggedRow)
  if mimeType.isNone && text.isNone && params.isNone then none else some ⟨mimeType,params,text⟩

/-- The fields are texts and flags already; only what changes them is kept. -/
def normalizeForSave (entry : HarEntry) : HarEntry where
  checked := entry.checked
  comment := someText (Script.trim (entry.comment.getD ""))
  request := {
    method := orGet (Script.trim entry.request.method)
    url := entry.request.url
    headers := entry.request.headers.filter flaggedRow
    cookies := entry.request.cookies.filter pairRow
    queryString := nonempty ((entry.request.queryString.getD []).filter pairRow)
    postData := entry.request.postData.bind normalizePostData
  }
  successAsserts := normalizeAsserts entry.successAsserts
  failedAsserts := normalizeAsserts entry.failedAsserts
  extractVariables := normalizeExtracts entry.extractVariables

def buildDocument (log : HarLog) : HarLog where
  version := orVersion log.version
  creator := log.creator
  entries := log.entries.map normalizeForSave

def HarFlagged.toJson (row : HarFlagged) : Json :=
  .obj [("name",.str row.name),("value",.str row.value),("checked",.bool row.checked)]

def HarPair.toJson (row : HarPair) : Json := .obj [("name",.str row.name),("value",.str row.value)]

def HarAssert.toJson (row : HarAssert) : Json := .obj [("re",.str row.re),("from",.str row.source)]

def HarExtract.toJson (row : HarExtract) : Json :=
  .obj [("name",.str row.name),("re",.str row.re),("from",.str row.source)]

def rowsJson {α : Type} (row : α → Json) (rows : List α) : Json := .arr (rows.map row)

def HarPostData.toJson (post : HarPostData) : Json := .obj <|
  Script.present "mimeType" (post.mimeType.map .str) ++ Script.present "text" (post.text.map .str) ++
    Script.present "params" (post.params.map (rowsJson HarFlagged.toJson))

def HarRequest.fields (request : HarRequest) : Fields :=
  [("method",.str request.method),("url",.str request.url),
    ("headers",rowsJson HarFlagged.toJson request.headers),("cookies",rowsJson HarPair.toJson request.cookies)] ++
    Script.present "queryString" (request.queryString.map (rowsJson HarPair.toJson)) ++
    Script.present "postData" (request.postData.map HarPostData.toJson)

def HarRequest.toJson (request : HarRequest) : Json := .obj request.fields

def HarEntry.fields (entry : HarEntry) : Fields :=
  [("checked",.bool entry.checked),("request",entry.request.toJson)] ++
    Script.present "comment" (entry.comment.map .str) ++
    [("success_asserts",rowsJson HarAssert.toJson entry.successAsserts),
      ("failed_asserts",rowsJson HarAssert.toJson entry.failedAsserts),
      ("extract_variables",rowsJson HarExtract.toJson entry.extractVariables)]

def HarEntry.toJson (entry : HarEntry) : Json := .obj entry.fields

def HarLog.fields (log : HarLog) : Fields :=
  [("version",.str log.version),("entries",rowsJson HarEntry.toJson log.entries)] ++
    Script.present "creator" (log.creator.map .obj)

def HarLog.toJson (log : HarLog) : Json := .obj [("log",.obj log.fields)]

/-- Open a document and save it without an edit. -/
def openAndSave (number : Number → String) (raw : Json) : Option Json :=
  (parseHarDocument number raw).map fun log => (buildDocument log).toJson

end Qdrust.Har.Editor
