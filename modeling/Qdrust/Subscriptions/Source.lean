import Mathlib.Data.List.SplitOn
import Qdrust.Library.Checked
import Qdrust.Library.Json
import Qdrust.Library.Text

/-! What a subscribed source offers: its manifest, else the template files of its
repository, else the one file its URL names. -/
namespace Qdrust.Subscriptions
open Library

/-- Upper bound on how many entries one source may contribute. -/
def maxLibraryEntries : Nat := 2000

def manifestFile : String := "tpls_history.json"

def githubUrl : String := "https://github.com/"

/-- What the other ends answer while one call runs. -/
structure Web where
  fetchText : String → Except String (Option String)
  fetchTree : String → Except String Json
  decodeBase64 : String → Option String
  fromStr : String → Option Json

structure GitHubSource where
  owner : String
  repo : String
  branch : String
  mirror : Option String

/-- One template a source offers, before its HAR is fetched. -/
structure RawEntry where
  name : String
  version : Option String
  filename : String
  url : Option String
  content : Option String
deriving DecidableEq

structure ManifestEntry where
  version : Option String
  filename : Option String
  url : Option String
  content : Option String

def startsWith (text pattern : String) : Bool := (Text.stripPrefix text pattern).isSome

def endsWith (text pattern : String) : Bool := (Text.stripSuffix text pattern).isSome

/-- Take a suffix away as often as it is there, at most `fuel` times. -/
def trimEnd (pattern : List Char) : Nat → List Char → List Char
  | 0,text => text
  | fuel + 1,text => match pattern.isSuffixOf? text with
    | some front => trimEnd pattern fuel front
    | none => text

def trimEndMatches (text pattern : String) : String := String.ofList (trimEnd pattern.toList text.length text.toList)

def splitSlash (text : String) : List String := (text.toList.splitOn '/').map String.ofList

/-- The part behind the last slash. -/
def baseName (path : String) : String := (splitSlash path).getLast?.getD path

def fileStem (path : String) : String := trimEndMatches (trimEndMatches (baseName path) ".json") ".har"

def looksLikeQdTemplate (path : String) : Bool :=
  let lower := path.toLower
  (endsWith lower ".har" || endsWith lower ".json") && !endsWith lower manifestFile

def mirrorRewrite (mirror : Option String) (url : String) : String :=
  match mirror with
  | some mirror =>
    if startsWith url githubUrl || startsWith url "https://raw.githubusercontent.com/" then mirror ++ url else url
  | none => url

def GitHubSource.rawUrl (source : GitHubSource) (path : String) : String :=
  mirrorRewrite source.mirror
    ("https://raw.githubusercontent.com/" ++ source.owner ++ "/" ++ source.repo ++ "/" ++ source.branch ++ "/" ++ path)

/-- The mirror of a URL and what follows the marker. -/
def unmirror (url : String) : Option (Option String × String) :=
  match Text.stripPrefix url githubUrl with
  | some rest => some (none,rest)
  | none => do
    let (mirror,rest) ← Text.splitOnce url githubUrl
    if (startsWith mirror "http://" || startsWith mirror "https://") && endsWith mirror "/" then
      return (some mirror,rest)
    else none

def branchOf : List String → String
  | first :: named :: _ => if first = "tree" ∨ first = "blob" then named else "HEAD"
  | _ => "HEAD"

def parseGithubUrl (url : String) : Option GitHubSource := do
  let (mirror,rest) ← unmirror url
  match (splitSlash rest).filter fun part => part ≠ "" with
  | owner :: repo :: parts => return ⟨owner,trimEndMatches repo ".git",branchOf parts,mirror⟩
  | _ => none

def ManifestEntry.fromJson (json : Json) : Option ManifestEntry := do
  let fields ← json.record ["author","comments","version","date","filename","url","commenturl","content"]
  let version ← Json.fieldD fields "version" none (Json.opt Json.asStr)
  let filename ← Json.fieldD fields "filename" none (Json.opt Json.asStr)
  let url ← Json.fieldD fields "url" none (Json.opt Json.asStr)
  let content ← Json.fieldD fields "content" none (Json.opt Json.asStr)
  return ⟨version,filename,url,content⟩

/-- The `har` map of a manifest, in the order of its keys. -/
def manifestFromJson (json : Json) : Option (List (String × ManifestEntry)) := do
  let fields ← json.record ["version","har"]
  let _ ← Json.fieldD fields "version" none (Json.opt Json.asStr)
  let har ← Json.fieldD fields "har" [] Json.asObj
  let entries ← har.mapM fun field => (ManifestEntry.fromJson field.2).map fun entry => (field.1,entry)
  return entries.mergeSort fun a b => a.1 ≤ b.1

def fetchManifest (web : Web) (source : GitHubSource) : Except String (Option (List (String × ManifestEntry))) := do
  let url := source.rawUrl manifestFile
  match ← web.fetchText url with
  | none => return none
  | some text => match (web.fromStr text).bind manifestFromJson with
    | some entries => return some entries
    | none => .error (url ++ " is not a valid manifest")

/-- `filter(|value| !value.trim().is_empty())`. -/
def nonBlank (value : Option String) : Option String := value.filter fun text => !Text.blankBy Text.whiteSpace text

def manifestRawEntry (key : String) (entry : ManifestEntry) : Option RawEntry :=
  if (nonBlank entry.content).isNone && (nonBlank entry.url).isNone && (nonBlank entry.filename).isNone then none
  else some ⟨key,nonBlank entry.version,entry.filename.getD (key ++ ".har"),nonBlank entry.url,nonBlank entry.content⟩

/-- A file of the tree as an entry; its name is the stem of the path. -/
def scannedEntry (source : GitHubSource) (item : Json) : Option RawEntry := do
  let fields ← item.asObj
  if fields.text "type" ≠ some "blob" then none
  else
    let path ← fields.text "path"
    if looksLikeQdTemplate path then return ⟨fileStem path,none,path,some (source.rawUrl path),none⟩ else none

def scanTree (web : Web) (source : GitHubSource) : Except String (List RawEntry) := do
  let body ← web.fetchTree
    ("https://api.github.com/repos/" ++ source.owner ++ "/" ++ source.repo ++ "/git/trees/" ++ source.branch ++ "?recursive=1")
  match body.asObj.bind fun fields => fields.list "tree" with
  | none => .error "GitHub tree response has no entries"
  | some tree => return (tree.filterMap (scannedEntry source)).take maxLibraryEntries

/-- A direct file URL is a one-entry source. -/
def directEntry (url : String) : RawEntry :=
  let name := fileStem url
  ⟨name,none,name,some url,none⟩

def catalogue (web : Web) (url : String) : Except String (List RawEntry) :=
  match parseGithubUrl url with
  | none => .ok [directEntry url]
  | some source => do
    match ← fetchManifest web source with
    | some manifest =>
      let entries := (manifest.take maxLibraryEntries).filterMap fun field => manifestRawEntry field.1 field.2
      ensure (!entries.isEmpty) (manifestFile ++ " lists no usable templates")
      return entries
    | none =>
      let entries ← scanTree web source
      ensure (!entries.isEmpty) "no template files found in that repository"
      return entries

/-- `by_name`: of the entries with one name the last is kept. -/
def byName (entries : List RawEntry) (name : String) : Option RawEntry :=
  (entries.filter fun entry => entry.name == name).getLast?

def downloadUrl (source : Option GitHubSource) (entry : RawEntry) : Option String :=
  (entry.url <|> source.map fun source => source.rawUrl entry.filename).map fun url =>
    match source with
    | some source => mirrorRewrite source.mirror url
    | none => url

/-- The document of an entry, inlined or downloaded. -/
def resolveHar (web : Web) (source : Option GitHubSource) (entry : RawEntry) : Except String Json :=
  match nonBlank entry.content with
  | some content => match web.decodeBase64 content with
    | none => .error (entry.name ++ " has unreadable content")
    | some text => match web.fromStr text with
      | none => .error (entry.name ++ " is not valid JSON")
      | some har => .ok har
  | none => match downloadUrl source entry with
    | none => .error (entry.name ++ " has neither content nor a download URL")
    | some url => do
      match ← web.fetchText url with
      | none => .error (entry.name ++ " is not available at " ++ url)
      | some text => match web.fromStr text with
        | none => .error (url ++ " is not valid JSON")
        | some har => return har

theorem byName_name {entries : List RawEntry} {name : String} {entry : RawEntry} (found : byName entries name = some entry) :
    entry ∈ entries ∧ entry.name = name := by
  have there := List.mem_filter.mp (List.mem_of_getLast? found)
  exact ⟨there.1,by simpa using there.2⟩

end Qdrust.Subscriptions
