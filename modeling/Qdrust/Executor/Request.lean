import Qdrust.Executor.Context
import Qdrust.Executor.Form
import Qdrust.Template.Definition

/-! One request: the entry of a native step, what is rendered and sent, and what
is taken from the response. -/
namespace Qdrust.Executor
open Library Utf8 Form Har Template

def trimmed (text : String) : String := Text.trimBy Text.whiteSpace text

def asciiLower (text : String) : String := String.ofList (text.toList.map Char.toLower)

def eqIgnoreAsciiCase (left right : String) : Bool := asciiLower left = asciiLower right

def hasPrefix (text pattern : String) : Bool := (Text.stripPrefix text pattern).isSome

def formMime : String := "application/x-www-form-urlencoded"

/-- What a native body is sent as. -/
def RequestBody.postData (services : Services) : RequestBody → QdPostData
  | .json value => ⟨some "application/json",some (services.jsonText value),none⟩
  | .text value => ⟨some "text/plain",some value,none⟩
  | .form values =>
    ⟨some formMime,some (String.ofList (joinFields (values.map fun pair => (pair.1.toList,pair.2.toList)))),none⟩

/-- The URL of the entry is rendered, its headers and its body are not. -/
def nativeRequestEntry (services : Services) (request : RequestStep) (vars : Fields) : Except Failure QdHarEntry := do
  let url ← withContext "cannot render template request URL" (services.renderTemplate request.url vars)
  let parsed ← withContext "invalid rendered template URL" (services.parseUrl url)
  let query ← request.query.mapM fun pair => do
    let name ← services.renderTemplate pair.1 vars
    let value ← services.renderTemplate pair.2 vars
    return (name,value)
  return {
    checked := true
    comment := some request.name
    request := {
      method := request.method
      url := services.appendQuery parsed query
      headers := request.headers.map fun header => ⟨header.1,header.2,true⟩
      cookies := []
      postData := request.body.map (RequestBody.postData services) }
    successAsserts := []
    failedAsserts := []
    extractVariables := [] }

/-- `percent_encoding::NON_ALPHANUMERIC`. -/
def nonAlphanumeric (byte : UInt8) : Bool := !(Char.ofNat byte.toNat).isAlphanum

def mergeFormIntoQuery (url body : String) : String :=
  match parseFormPairs body with
  | [] => url
  | pairs =>
    let encode := fun text : String => percentEncode nonAlphanumeric (encode text.toList)
    let merged := ['&'].intercalate (pairs.map fun pair => field (encode pair.1) (encode pair.2))
    url ++ (if url.toList.contains '?' then "&" else "?") ++ String.ofList merged

/-- The URL a plugin is called with. -/
def apiUrl (services : Services) (entry : QdHarEntry) (method url : String) (context : ExecutionContext) :
    Except Failure String :=
  match entry.request.postData with
  | none => .ok url
  | some post =>
    let mime := post.mimeType.getD ""
    match post.text with
    | none => .ok url
    | some text =>
      if eqIgnoreAsciiCase method "POST" && (mime = "" || Text.contains mime formMime) then do
        let body ← services.render text context
        return mergeFormIntoQuery url body
      else .ok url

def jsonText (json : Json) (name : String) : String := (json.asObj.bind fun fields => fields.text name).getD ""

def buildMultipart (services : Services) (post : QdPostData) (context : ExecutionContext) : Except Failure (List Part) :=
  match post.text with
  | some text => do
    let body ← services.render text context
    return [⟨"body",body,none,none⟩]
  | none => ((post.params.bind Json.asArr).getD []).mapM fun param => do
    let name ← services.render (jsonText param "name") context
    if jsonText param "fileName" ≠ "" then do
      let fileName ← services.render (jsonText param "fileName") context
      let content ← services.render (jsonText param "value") context
      let mime := (param.asObj.bind fun fields => fields.text "contentType").filter services.validMime
      return ⟨name,content,some fileName,mime⟩
    else do
      let value ← services.render (jsonText param "value") context
      return ⟨name,value,none,none⟩

def bodyOf (services : Services) (post : QdPostData) (context : ExecutionContext) :
    Except Failure (Option OutboundBody) :=
  if hasPrefix (post.mimeType.getD "") "multipart/" then do
    let parts ← buildMultipart services post context
    return some (.multipart parts)
  else match post.text with
    | none => .ok none
    | some text => do
      let rendered ← services.render text context
      let form := Text.contains (asciiLower (post.mimeType.getD "")) formMime
      return some (.text (if form then encodeFormBody rendered else rendered))

def policyWithProxy (executor : QdExecutor) (context : ExecutionContext) : OutboundPolicy :=
  let proxy := trimmed ((context.vars.text "_proxy").getD "")
  ⟨executor.policy.allowPrivateNetwork,if proxy = "" then none else some proxy⟩

def clientForUrl (executor : QdExecutor) (url : String) (context : ExecutionContext) : Except Failure Connection :=
  ((guardedClientForUrl executor.services.network url (policyWithProxy executor context)).mapError fun text => [text]).map
    fun granted => granted.2

/-- The rendered headers, and the last cookie header among them. -/
def renderHeaders (services : Services) (context : ExecutionContext) :
    List QdNameValue → Except Failure (Headers × Option String)
  | [] => .ok ([],none)
  | header :: rest => do
    if header.checked then
      let name ← services.render header.name context
      if hasPrefix name ":" then renderHeaders services context rest
      else do
        let value ← services.render header.value context
        let (headers,cookie) ← renderHeaders services context rest
        if eqIgnoreAsciiCase name "accept-encoding" then return (("accept-encoding","identity") :: headers,cookie)
        else return ((name,value) :: headers,
          if eqIgnoreAsciiCase name "cookie" then cookie.or (some value) else cookie)
    else renderHeaders services context rest

def renderCookies (services : Services) (context : ExecutionContext) (cookies : List QdNameValue) :
    Except Failure (List String) :=
  (cookies.filter QdNameValue.checked).mapM fun cookie => do
    let name ← services.render cookie.name context
    let value ← services.render cookie.value context
    return name ++ "=" ++ value

def cookieVar : String := "__qdrust_cookie_header"

/-- `Content-Type`, where the entry has a body type but no such header. -/
def autoContentType (entry : QdHarEntry) : Headers :=
  let mime := (entry.request.postData.bind QdPostData.mimeType).getD ""
  let written := (entry.request.headers.filter QdNameValue.checked).any fun header =>
    eqIgnoreAsciiCase header.name "content-type"
  if mime ≠ "" && !written then [("content-type",mime)] else []

/-- The cookie header of a request is kept for the later ones. -/
def rememberCookie : Option String → Exec Unit
  | some cookie => setVar cookieVar (.str cookie)
  | none => pure ()

def joinedCookies (cookies : List String) : Option String :=
  if cookies = [] then none else some ("; ".intercalate cookies)

/-- The cookies of an entry are added to the jar for its URL. -/
def addCookies (services : Services) (url : String) : List String → Except Failure Unit
  | [] => .ok ()
  | _ => do
    let _ ← withContext "invalid cookie URL" (services.parseUrl url)

/-- The cookies that go with a request that names none in its headers. -/
def storedCookies (services : Services) (url : String) (cookies : List String) (explicitCookie : Option String)
    (context : ExecutionContext) (history : List Event) : Except Failure (List String) :=
  match explicitCookie with
  | some _ => .ok []
  | none => do
    let _ ← services.parseUrl url
    return (context.vars.text cookieVar).toList ++ (services.jar history cookies url).toList

/-- Everything that is rendered for a request, in the order of the source. -/
def buildRequest (executor : QdExecutor) (entry : QdHarEntry) (method url : String) : Exec OutboundRequest := do
  let services := executor.services
  let context ← Effect.read Execution.context
  let connection ← Effect.lift (clientForUrl executor url context)
  Effect.lift (withContext "invalid rendered method" (services.method method))
  let rendered ← Effect.lift (renderHeaders services context entry.request.headers)
  rememberCookie rendered.2
  let context ← Effect.read Execution.context
  let cookies ← Effect.lift (renderCookies services context entry.request.cookies)
  rememberCookie (joinedCookies cookies)
  Effect.lift (addCookies services url cookies)
  let context ← Effect.read Execution.context
  let history ← Effect.read Execution.events
  let stored ← Effect.lift (storedCookies services url cookies rendered.2 context history)
  let body ← Effect.lift ((entry.request.postData.map fun post => bodyOf services post context).getD (.ok none))
  return {
    connection := connection
    method := method
    url := url
    headers := rendered.1 ++ ((joinedCookies cookies).toList ++ stored).map (fun value => ("cookie",value)) ++
      autoContentType entry
    body := body }

def headerValue (headers : Headers) (name : String) : Option String :=
  (headers.find? fun header => eqIgnoreAsciiCase header.1 name).map (·.2)

def isImageResponse (headers : Headers) : Bool :=
  (headerValue headers "content-type").any fun value => Text.contains (asciiLower value) "image"

def ruleSource (source : String) (status : Nat) (headers : Headers) (content : String) : String :=
  if source = "content" then content
  else if source = "status" then toString status
  else if source = "header" then "\n".intercalate (headers.map fun header => header.1 ++ ": " ++ header.2)
  else match Text.stripPrefix source "header-" with
    | some name => (headerValue headers name).getD ""
    | none => ""

def splitWhitespace (text : String) : List String :=
  ((text.toList.splitOnP Text.whiteSpace).filter fun word => !word.isEmpty).map String.ofList

def boundedPreview (text : String) : String :=
  let collapsed := " ".intercalate (splitWhitespace text)
  String.ofList (collapsed.toList.take 300) ++ if collapsed.length > 300 then "…" else ""

def requestDigest (method : String) : Option String → String
  | some body => boundedPreview (method ++ " body: " ++ body)
  | none => boundedPreview method

def OutboundRequest.digest (request : OutboundRequest) : String :=
  requestDigest request.method (match request.body with
    | some (.text body) => some body
    | _ => none)

/-- Whether one of the rules matches; the first that does decides. -/
def matchedRule (services : Services) (rules : List QdRule) (status : Nat) (headers : Headers) (content : String)
    (context : ExecutionContext) : Except Failure (Option String) :=
  match rules with
  | [] => .ok none
  | rule :: rest => do
    let pattern ← services.render rule.re context
    let found ← services.isMatch pattern (ruleSource rule.source status headers content)
    if found then return some pattern else matchedRule services rest status headers content context

def checkRules (services : Services) (rules : List QdRule) (successRules : Bool) (status : Nat) (headers : Headers)
    (content : String) (context : ExecutionContext) : Except Failure Unit :=
  if rules.isEmpty then .ok ()
  else do
    match ← matchedRule services rules status headers content context with
    | some pattern => ensure successRules ["failed assertion matched: " ++ pattern]
    | none => ensure (!successRules) ["no success assertion matched"]

/-- One extraction; an error of the pattern becomes the value. -/
def extractRule (services : Services) (status : Nat) (headers : Headers) (content : String) (rule : QdExtractRule) :
    Exec Unit := do
  if rule.rule.re = "" || trimmed rule.name = "" then pure ()
  else do
    let context ← Effect.read Execution.context
    let pattern ← Effect.lift (services.render rule.rule.re context)
    match services.extract pattern (ruleSource rule.rule.source status headers content) with
    | .ok (some value) => setVar rule.name value
    | .ok none => pure ()
    | .error failure => setVar rule.name (.str (Failure.display failure))

def finishResponse (executor : QdExecutor) (entry : QdHarEntry) (url digest : String) (response : Response)
    (bodyIsStoredValue : Bool) : Exec StepResult := do
  let services := executor.services
  Effect.ensure (response.body.length ≤ executor.responseLimit) ["response body limit exceeded"]
  let content := if isImageResponse response.headers then services.base64 response.body
    else services.decodeBody response.body response.headers
  setContext fun context =>
    { context with lastStatus := some response.status, lastHeaders := response.headers, lastBody := content }
  let preview := if bodyIsStoredValue && response.status = 200 then
      "<" ++ toString response.body.length ++ " bytes of notepad content omitted>"
    else boundedPreview content
  let withResponse := fun cause : Failure =>
    [Failure.display cause ++ " (at " ++ url ++ ")\nrequest: " ++ digest ++ "\nresponse: " ++ preview]
  let context ← Effect.read Execution.context
  Effect.lift ((checkRules services entry.successAsserts true response.status response.headers content
    context).mapError withResponse)
  Effect.lift ((checkRules services entry.failedAsserts false response.status response.headers content
    context).mapError withResponse)
  Effect.each (extractRule services response.status response.headers content) entry.extractVariables
  Effect.ensure (!(Text.contains url "/oauth2/appConf.do" && Text.contains content "\x22data\x22:\x7b\x7d"))
    ["QD appConf returned empty data (check reqid, lt and referer headers)"]
  return ⟨url,response.status,response.body.length⟩

def callPlugin (executor : QdExecutor) (entry : QdHarEntry) (method url : String) : Exec StepResult := do
  let context ← Effect.read Execution.context
  let callUrl ← Effect.lift (apiUrl executor.services entry method url context)
  let history ← Effect.read Execution.events
  emit (.called callUrl)
  let response ← Effect.lift (executor.services.plugin history callUrl)
  finishResponse executor entry url (requestDigest method none) response
    (executor.services.pluginAction callUrl = some "toolbox/notepad")

def sendRequest (executor : QdExecutor) (entry : QdHarEntry) (method url : String) : Exec StepResult := do
  let request ← buildRequest executor entry method url
  let history ← Effect.read Execution.events
  emit (.sent request)
  let response ← Effect.lift (executor.services.send history request)
  finishResponse executor entry url request.digest response false

/-- Request and response, where the limit allows a request. -/
def performRequest (executor : QdExecutor) (entry : QdHarEntry) : Exec StepResult := do
  let context ← Effect.read Execution.context
  let method ← Effect.lift (executor.services.render entry.request.method context)
  let url ← Effect.lift (executor.services.render entry.request.url context)
  if hasPrefix url "api://" then callPlugin executor entry method url else sendRequest executor entry method url

def executeRequestInner (executor : QdExecutor) (entry : QdHarEntry) : Exec StepResult := do
  let context ← Effect.read Execution.context
  Effect.ensure (context.remainingRequests > 0) ["request limit exceeded"]
  setContext fun context => { context with remainingRequests := context.remainingRequests - 1, lastStatus := none }
  performRequest executor entry

/-- A failed request is reported with the status of its own response, if it had one. -/
def reportFailure (step : Nat) (method url : String) {α : Type} (effect : Exec α) : Exec α := fun state =>
  match effect state with
  | (.error failure,after) =>
    (emit (.finished step method url after.context.lastStatus 0 (some (Failure.chain failure))) >>=
      fun _ => Effect.fail failure) after
  | done => done

def executeRequest (executor : QdExecutor) (entry : QdHarEntry) : Exec StepResult := do
  let step ← Effect.read Execution.nextStepIndex
  Effect.modify fun state => { state with nextStepIndex := state.nextStepIndex + 1 }
  let context ← Effect.read Execution.context
  let method := entry.request.method
  let url := ((executor.services.render entry.request.url context).toOption).getD entry.request.url
  emit (.started step method url)
  let result ← reportFailure step method url (executeRequestInner executor entry)
  emit (.finished step method result.url (some result.status) result.bodySize none)
  return result

end Qdrust.Executor
