import Qdrust.Har.Model

/-! The shapes QD exports, rewritten to the document the reader accepts, and
what each field of a rewritten entry then is. -/
namespace Qdrust.Har
open Library

def unreserved (byte : Nat) : Bool :=
  (0x41 ≤ byte && byte ≤ 0x5A) || (0x61 ≤ byte && byte ≤ 0x7A) || (0x30 ≤ byte && byte ≤ 0x39) ||
    byte == 0x2D || byte == 0x2E || byte == 0x5F || byte == 0x7E

/-- One byte as `%02X`. -/
def percent (byte : Nat) : List Char :=
  ['%',"0123456789ABCDEF".toList.getD (byte / 16) '0',"0123456789ABCDEF".toList.getD (byte % 16) '0']

def formUrlEncode (value : String) : String :=
  String.ofList <| value.toUTF8.data.toList.flatMap fun byte =>
    if unreserved byte.toNat then [Char.ofNat byte.toNat] else percent byte.toNat

/-- One field of a form: objects with a text name only. -/
def formField (param : Json) : Option String := do
  let object ← param.asObj
  let name ← object.text "name"
  return name ++ "=" ++ formUrlEncode ((object.text "value").getD "")

def formBody (params : List Json) : String := String.intercalate "&" (params.filterMap formField)

/-- Exported headers and cookies without the flag are enabled. -/
def enable : Json → Json := Json.onObj fun item => item.insertNew "checked" (.bool true)

def enableAll : Json → Json := Json.onArr fun items => items.map enable

def ruleKeys : List String := ["success_asserts","failed_asserts","extract_variables"]

def hoist (rule entry : Fields) (key : String) : Fields := entry.insertSome key (rule.get key)

/-- The rules QD nests under `rule`, moved to the entry. -/
def hoistRules (entry : Fields) : Fields :=
  match entry.object "rule" with
  | some rule => ruleKeys.foldl (hoist rule) (entry.remove "rule")
  | none => entry.remove "rule"

def insertText (post : Fields) (key : String) (text : Option String) : Fields :=
  post.insertSome key (text.map .str)

/-- The body of a form, where there is no text yet. -/
def insertForm (post : Fields) : Fields :=
  post.insertSome "text" ((post.list "params").map fun params => .str (formBody params))

def completePost (data mimeType : Option String) : Json → Json :=
  Json.onObj fun post => insertForm (insertText (insertText post "text" data) "mimeType" mimeType)

def hasParams (request : Fields) : Bool :=
  ((request.object "postData").bind fun post => post.list "params").isSome

/-- `request.data`, `request.mimeType` and `postData.params` as a body. -/
def normalizePost (request : Fields) : Fields :=
  let data := request.text "data"
  let mimeType := request.text "mimeType"
  if data.isNone && mimeType.isNone && !hasParams request then request
  else (request.insertNew "postData" (.obj [])).modify "postData" (completePost data mimeType)

def normalizeRequest : Json → Json := Json.onObj fun request =>
  normalizePost ((request.modify "headers" enableAll).modify "cookies" enableAll)

def normalizeEntry : Json → Json := Json.onObj fun entry =>
  (hoistRules (entry.insertNew "checked" (.bool true))).modify "request" normalizeRequest

/-- The entries of a bare array or of `log.entries`. -/
def qdEntries : Json → Option (List Json)
  | .arr items => some items
  | json => do
    let document ← json.asObj
    let log ← document.object "log"
    log.list "entries"

/-- A document around the entries. -/
def harLog (name version : String) (entries : List Json) : Json :=
  .obj [("log",.obj [("version",.str "1.2"),
    ("creator",.obj [("name",.str name),("version",.str version)]),
    ("entries",.arr entries)])]

def normalizeQdDocument (raw : Json) : Json :=
  match qdEntries raw with
  | some entries => harLog "qdrust" "1.0" (entries.map normalizeEntry)
  | none => raw

def QdHar.parseQd (raw : Json) : Except String QdHar :=
  match HarDocument.fromJson (normalizeQdDocument raw) with
  | none => .error "invalid QD HAR document"
  | some document => QdHar.finishParse raw document

end Qdrust.Har
