import Qdrust.Account.ExternalIdentity
import Qdrust.Account.LoginTotp
import Qdrust.Account.Redemption
import Qdrust.Library.Alone
import Qdrust.Library.Json
import Qdrust.Library.Warranted
import Qdrust.Server.Config

/-! Logins through an OpenID provider. The server sends a browser to the provider and gives it a cookie; the browser
comes back with a code. Any page can send a browser to the callback with a code and a state of its choice. -/
namespace Qdrust.Account.Oidc
open Library Concurrent
open Qdrust.Server (OidcConfig)
open ExternalIdentity (ExternalIdentityClaim ExternalLoginResolution Login trim)

structure Digests where
  sha256 : String → List UInt8
  base64Url : List UInt8 → String

namespace Digests

variable (digests : Digests)

def sha256Hex (input : String) : String := (digests.sha256 input).foldl
  (fun out byte => out ++ String.ofList [Nat.digitChar (byte.toNat / 16),Nat.digitChar (byte.toNat % 16)]) ""

def derivePkceVerifier (state clientSecret : String) : String := digests.base64Url (digests.sha256 (state ++ clientSecret))

def deriveNonce (state clientSecret : String) : String := digests.base64Url (digests.sha256 ("nonce" ++ state ++ clientSecret))

def stateHash (state : String) : String := digests.sha256Hex state

def nonceHash (nonce : String) : String := digests.sha256Hex nonce

def verifierHash (verifier : String) : String := digests.sha256Hex verifier

/-- `PkceCodeChallenge::from_code_verifier_sha256`. -/
def challenge (verifier : String) : String := digests.base64Url (digests.sha256 verifier)

end Digests

section RedirectUri

/-- What a request says of where it was sent to. -/
structure RequestOrigin where
  forwardedProto : Option String
  forwardedHost : Option String
  scheme : Option String
  authority : Option String

def deriveRedirectUri (basePath : String) (origin : RequestOrigin) : String :=
  let scheme := (origin.forwardedProto.filter (· ≠ "")).getD (origin.scheme.getD "https")
  let host := ((origin.forwardedHost.filter (· ≠ "")).or origin.authority).getD "localhost"
  let base := String.ofList (basePath.toList.rdropWhile (· = '/'))
  scheme ++ "://" ++ host ++ base ++ "/api/v1/auth/oidc/callback"

def effectiveRedirectUri (oidc : OidcConfig) (basePath : String) (origin : RequestOrigin) : String :=
  let configured := trim oidc.redirectUri
  if configured ≠ "" then configured else deriveRedirectUri basePath origin

end RedirectUri

section Profile

def hexDigit (c : Char) : Bool := c.isDigit || ('a' ≤ c && c ≤ 'f') || ('A' ≤ c && c ≤ 'F')

/-- A text of hex digits has as many bytes as characters. -/
def looksLikeOpaqueId (text : String) : Bool :=
  let t := Text.trimList Text.whiteSpace text.toList
  let parts := t.splitOn '-'
  t.isEmpty || (16 ≤ t.length && t.all hexDigit) ||
    (parts.length == 5 && parts.all (fun part => !part.isEmpty && part.all hexDigit) && t.length == 36) ||
    (8 ≤ t.length && t.all Char.isDigit)

/-- A candidate that was seen before was returned. -/
def prefer (candidate : String) : Option String :=
  let value := trim candidate
  if value = "" || looksLikeOpaqueId value then none else some value

def usernameHintFromCandidates (preferredUsername nickname name email : Option String) : Option String :=
  (([preferredUsername,nickname,name].filterMap id).findSome? prefer).or
    ((email.bind fun address => (address.toList.splitOn '@').head?.map String.ofList).bind prefer)

def pick (payload : Option Json) (key : String) : Option String :=
  match (payload.bind Json.asObj).bind (Fields.get · key) with
  | some (.str value) => if trim value ≠ "" then some (trim value) else none
  | some (.obj fields) => ((Fields.text fields "value").filter (trim · ≠ "")).map trim
  | _ => none

def usernameHintFromIdToken (typedPreferredUsername : Option String) (payload : Option Json) : Option String :=
  usernameHintFromCandidates (typedPreferredUsername.or (pick payload "preferred_username")) (pick payload "nickname")
    (pick payload "name") (pick payload "email")

def groupsFromIdToken (payload : Option Json) (claim : String) : List String :=
  match (payload.bind Json.asObj).bind (Fields.get · claim) with
  | some (.arr items) => ((items.filterMap Json.asStr).map trim).filter (· ≠ "")
  | some (.str value) => ((value.toList.splitOn ',').map fun part => trim (String.ofList part)).filter (· ≠ "")
  | _ => []

def usernameFallbackFromSubject (subject : String) : String :=
  let cleaned := subject.toList.filter Char.isAlphanum
  if cleaned.isEmpty then "user" else "user-" ++ String.ofList (cleaned.take 8)

/-- A verified token. `payload` is its payload read as JSON. -/
structure IdToken where
  subject : String
  nonce : String
  preferredUsername : Option String
  email : Option String
  payload : Option Json

structure UserInfoProfile where
  preferredUsername : Option String
  nickname : Option String
  name : Option String
  email : Option String

/-- The endpoint is asked where the token lacks a name or an address. -/
def identityClaim (oidc : OidcConfig) (token : IdToken) (profile : Option UserInfoProfile) : ExternalIdentityClaim where
  provider := "oidc"
  issuer := oidc.issuer
  subject := token.subject
  email := token.email.or (profile.bind UserInfoProfile.email)
  usernameHint := some (((usernameHintFromIdToken token.preferredUsername token.payload).or (profile.bind fun found =>
    usernameHintFromCandidates found.preferredUsername found.nickname found.name found.email)).getD
      (usernameFallbackFromSubject token.subject))
  groups := groupsFromIdToken token.payload oidc.groupsClaim

end Profile

structure AuthorizationRequest where
  state : String
  nonce : String
  challenge : String
  redirectUri : String

/-- A page that the browser is sent to. The first sets the cookie with the state, the others clear it. -/
inductive Response where
  | authorize (request : AuthorizationRequest)
  | refused (reason : String)
  | signedIn (user : User) (issued : IssuedSession)

/-- `β` are the browsers. -/
inductive Call (β : Type) where
  | store (statement : Statement)
  | insertLoginState (row : OidcLoginState)
  | browserCookie (browser : β)
  | discover (redirectUri : String)
  | exchangeCode (code verifier redirectUri : String)
  | userInfo (subject : String)
  | resolveExternalIdentity (login : Login)
  | recordAudit (action : String)
  | respond (browser : β) (response : Response)

abbrev Call.Answer {β : Type} : Call β → Type
  | .store statement => statement.Answer
  | .insertLoginState _ => Bool
  | .browserCookie _ => Option String
  | .discover _ => Unit
  | .exchangeCode _ _ _ => Option IdToken
  | .userInfo _ => Option UserInfoProfile
  | .resolveExternalIdentity _ => ExternalLoginResolution
  | .recordAudit _ => Unit
  | .respond _ _ => Unit

abbrev OidcCalls (β : Type) := Routine (Call β) Call.Answer

abbrev askCall {β : Type} (call : Call β) : OidcCalls β call.Answer := Routine.ask call

/-- What the login returns where the request is answered otherwise than by a page. -/
abbrev Page := Except String Response

structure CallbackParams where
  error : Option String
  code : Option String
  state : Option String

structure OidcServer where
  oidc : OidcConfig
  basePath : String
  digests : Digests

namespace OidcServer

variable {β : Type} (server : OidcServer)

def verifier (state : String) : String := server.digests.derivePkceVerifier state server.oidc.clientSecret

def nonce (state : String) : String := server.digests.deriveNonce state server.oidc.clientSecret

def authorizationRequest (rawState redirectUri : String) : AuthorizationRequest where
  state := rawState
  nonce := server.nonce rawState
  challenge := server.digests.challenge (server.verifier rawState)
  redirectUri := redirectUri

def onStore {ρ : Type} (routine : Calls ρ) : OidcCalls β ρ := routine.embed .store fun _ answer => answer

def page (browser : β) (response : Response) : OidcCalls β Page := do
  askCall (.respond browser response)
  return .ok response

/-- The row for a state. -/
def loginState (rawState redirectUri : String) (now created : Int) : OidcLoginState where
  stateHash := server.digests.stateHash rawState
  nonceHash := server.digests.nonceHash (server.nonce rawState)
  pkceVerifierEncrypted := server.digests.verifierHash (server.verifier rawState)
  redirectUri := redirectUri
  createdAt := created
  expiresAt := now + 300

/-- `rawState` is what `generate_state` draws. -/
def oidcLoginStart (browser : β) (rawState : String) (origin : RequestOrigin) : OidcCalls β Page := do
  if trim server.oidc.issuer = "" then return .error "oidc_not_configured"
  else
    let redirectUri := effectiveRedirectUri server.oidc server.basePath origin
    askCall (.discover redirectUri)
    let now ← askCall (.store .clock)
    let created ← askCall (.store .clock)
    if ← askCall (.insertLoginState (server.loginState rawState redirectUri now created)) then
      page browser (.authorize (server.authorizationRequest rawState redirectUri))
    else .failed

/-- The identity is known: it is resolved, and its user signed in. -/
def admitUser (serving : Serving) (browser : β) (claim : ExternalIdentityClaim) : OidcCalls β Page := do
  let resolution ← askCall (.resolveExternalIdentity
    ⟨claim,⟨server.oidc.autoCreateUsers,server.oidc.defaultRole,server.oidc.adminGroups⟩⟩)
  match resolution.user with
  | some user =>
    askCall (.recordAudit (if resolution.created then "auth.external_user_created" else "auth.external_login"))
    let issued ← onStore (createSession serving user.id)
    page browser (.signedIn user issued)
  | none =>
    askCall (.recordAudit "auth.external_refused")
    page browser (.refused (resolution.refusal.getD "oidc_refused"))

/-- The code is exchanged for a token, which is verified against the nonce. -/
def exchange (serving : Serving) (browser : β) (code state redirectUri : String) : OidcCalls β Page := do
  askCall (.discover redirectUri)
  match ← askCall (.exchangeCode code (server.verifier state) redirectUri) with
  | none => .failed
  | some token =>
    if token.nonce ≠ server.nonce state then .failed
    else if (usernameHintFromIdToken token.preferredUsername token.payload).isNone || token.email.isNone then
      let profile ← (Routine.attempt (Call.userInfo token.subject) : OidcCalls β (Option (Option UserInfoProfile)))
      server.admitUser serving browser (identityClaim server.oidc token profile.join)
    else server.admitUser serving browser (identityClaim server.oidc token none)

/-- `later` is the clock when the row has been taken. -/
def redeem (serving : Serving) (later : Int) (browser : β) (code state : String) (origin : RequestOrigin) : OidcCalls β Page := do
  match ← onStore (takeOidcLoginState later (server.digests.stateHash state)) with
  | none => page browser (.refused "oidc_state_invalid")
  | some stored =>
    if server.digests.verifierHash (server.verifier state) ≠ stored.pkceVerifierEncrypted ||
        server.digests.nonceHash (server.nonce state) ≠ stored.nonceHash then
      page browser (.refused "oidc_integrity_failed")
    else
      let redirectUri := effectiveRedirectUri server.oidc server.basePath origin
      if redirectUri ≠ stored.redirectUri then page browser (.refused "oidc_redirect_mismatch")
      else server.exchange serving browser code state redirectUri

def oidcLoginCallback (serving : Serving) (later : Int) (browser : β) (params : CallbackParams) (origin : RequestOrigin) :
    OidcCalls β Page := do
  if trim server.oidc.issuer = "" then return .error "oidc_not_configured"
  else if params.error.isSome then page browser (.refused "oidc_provider_error")
  else match params.code,params.state with
    | none,_ => page browser (.refused "oidc_missing_code")
    | some _,none => page browser (.refused "oidc_missing_state")
    | some code,some state =>
      match ← askCall (.browserCookie browser) with
      | some held =>
        if held = state then server.redeem serving later browser code state origin
        else page browser (.refused "oidc_state_mismatch")
      | none => page browser (.refused "oidc_state_cookie_missing")

end OidcServer

/-- A request for a login that somebody has agreed to at the provider. `token` is what the code is exchanged for. -/
structure Authorization where
  code : String
  challenge : String
  redirectUri : String
  token : IdToken

/-- The server's tables, what the browsers hold, and what the provider keeps. -/
structure World (β : Type) where
  accounts : Accounts
  identities : Table ExternalIdentity.IdentityRow ExternalIdentity.IdentityRow.id
  cookie : β → Option String
  session : β → Option String
  authorizations : List Authorization
  redeemed : List String

/-- What the login rests on outside of this part. -/
structure Surroundings where
  backend : Backend
  userInfo : String → Option UserInfoProfile
  resolve : Login → ExternalIdentity.Directory → ExternalLoginResolution × ExternalIdentity.Directory

variable {β : Type}

/-- The provider gives a token for a code once, and only to who knows the verifier behind the challenge. -/
def World.exchanged (digests : Digests) (w : World β) (code verifier redirectUri : String) : Option IdToken :=
  (w.authorizations.find? fun a => a.code = code && a.challenge = digests.challenge verifier && a.redirectUri = redirectUri &&
    !w.redeemed.contains code).map Authorization.token

def World.receive [DecidableEq β] (w : World β) (browser : β) : Response → World β
  | .authorize request => { w with cookie := Function.update w.cookie browser (some request.state) }
  | .refused _ => { w with cookie := Function.update w.cookie browser none }
  | .signedIn _ issued => { w with
      cookie := Function.update w.cookie browser none
      session := Function.update w.session browser (some issued.sessionToken) }

def handle [DecidableEq β] (digests : Digests) (around : Surroundings) : Handler (Call β) Call.Answer (World β)
  | .store statement,w =>
    let done := Account.accounts around.backend statement w.accounts
    (done.1,{ w with accounts := done.2 })
  | .insertLoginState row,w =>
    if (w.accounts.loginStates row.stateHash).isSome then (false,w)
    else (true,{ w with accounts := { w.accounts with
      loginStates := Function.update w.accounts.loginStates row.stateHash (some row) } })
  | .browserCookie browser,w => (w.cookie browser,w)
  | .discover _,w => ((),w)
  | .exchangeCode code verifier redirectUri,w =>
    match w.exchanged digests code verifier redirectUri with
    | some token => (some token,{ w with redeemed := code :: w.redeemed })
    | none => (none,w)
  | .userInfo subject,w => (around.userInfo subject,w)
  | .resolveExternalIdentity login,w =>
    let done := around.resolve login ⟨w.accounts.clock,w.accounts.users,w.identities⟩
    (done.1,{ w with accounts := { w.accounts with users := done.2.users }, identities := done.2.identities })
  | .recordAudit _,w => ((),w)
  | .respond browser response,w => ((),w.receive browser response)

/-- Somebody agrees to a login at the provider, whose request anyone may have made up; a browser gets another cookie; or
other requests change the accounts, and time passes. -/
inductive Outside (β : Type) where
  | authorize (authorization : Authorization)
  | plant (browser : β) (cookie : Option String)
  | others (accounts : Accounts) (identities : Table ExternalIdentity.IdentityRow ExternalIdentity.IdentityRow.id)

/-- The provider makes every code anew. `plants` says which states somebody can put into which browsers. -/
def occur [DecidableEq β] (plants : β → String → Bool) : Outside β → World β → Option (World β)
  | .authorize authorization,w =>
    if w.authorizations.any fun a => a.code = authorization.code then none
    else some { w with authorizations := w.authorizations ++ [authorization] }
  | .plant browser cookie,w =>
    if cookie.all (plants browser) then some { w with cookie := Function.update w.cookie browser cookie } else none
  | .others accounts identities,w => some { w with accounts, identities }

inductive Request (β : Type) where
  | start (browser : β) (rawState : String) (origin : RequestOrigin)
  | callback (serving : Serving) (later : Int) (browser : β) (params : CallbackParams) (origin : RequestOrigin)

def Request.serve (server : OidcServer) : Request β → OidcCalls β Page
  | .start browser rawState origin => server.oidcLoginStart browser rawState origin
  | .callback serving later browser params origin => server.oidcLoginCallback serving later browser params origin

variable {ι : Type}

abbrev State (ι β : Type) := Concurrent.State ι (Call β) Call.Answer (World β) Page

abbrev step [DecidableEq β] [DecidableEq ι] (server : OidcServer) (around : Surroundings)
    (plants : β → String → Bool) : State ι β → Action ι (Outside β) → Option (State ι β) :=
  Concurrent.step (handle server.digests around) (occur plants)

/-- No login has begun. -/
def start (server : OidcServer) (accounts : Accounts) (requests : ι → Request β) : State ι β :=
  .start ⟨accounts,Table.empty,fun _ => none,fun _ => none,[],[]⟩ fun i => (requests i).serve server

/-- What a request can be told: the state a browser holds, a token, and the user behind an identity. -/
inductive Fact (β : Type) where
  | held (browser : β) (state : String)
  | token (code verifier redirectUri : String) (token : IdToken)
  | resolved (login : Login) (user : User)

def told : (call : Call β) → Option call.Answer → List (Fact β)
  | .browserCookie browser,answer => answer.join.toList.map (.held browser)
  | .exchangeCode code verifier redirectUri,answer => answer.join.toList.map (.token code verifier redirectUri)
  | .resolveExternalIdentity login,answer => (answer.bind ExternalLoginResolution.user).toList.map (.resolved login)
  | _,_ => []

/-- The user is of an identity for which there is a token, which was given for the state that the browser holds. -/
def Admitted (server : OidcServer) (known : List (Fact β)) (browser : β) (user : User) : Prop :=
  ∃ state code redirectUri token login, .held browser state ∈ known ∧
    .token code (server.verifier state) redirectUri token ∈ known ∧ token.nonce = server.nonce state ∧
    .resolved login user ∈ known ∧ login.claim.provider = "oidc" ∧ login.claim.issuer = server.oidc.issuer ∧
    login.claim.subject = token.subject

def Permitted (server : OidcServer) (known : List (Fact β)) : Call β → Prop
  | .respond browser (.signedIn user _) => Admitted server known browser user
  | .respond _ (.authorize request) => ∃ redirectUri, request = server.authorizationRequest request.state redirectUri
  | .exchangeCode _ verifier _ => ∃ browser state, .held browser state ∈ known ∧ verifier = server.verifier state
  | _ => True

section Requests

variable {server : OidcServer} {known : List (Fact β)} {browser : β}

abbrev Warranted {ρ : Type} (server : OidcServer) (known : List (Fact β)) (routine : OidcCalls β ρ) : Prop :=
  Concurrent.Warranted told (Permitted server) known routine fun _ _ => True

theorem warranted_page {response : Response} (permitted : Permitted server known (.respond browser response)) :
    Warranted server known (OidcServer.page browser response) :=
  warranted_ask permitted fun _ => trivial

theorem harmless_onStore {ρ : Type} (routine : Calls ρ) :
    (OidcServer.onStore routine : OidcCalls β ρ).Avoids fun call => ¬∀ known, Permitted server known call := by
  refine Routine.avoids_embed ?_
  induction routine with
  | done result => exact .done result
  | failed => exact .failed
  | call request next ih => exact .call (not_not.mpr fun _ => trivial) ih

theorem warranted_oidcLoginStart (rawState : String) (origin : RequestOrigin) :
    Warranted server known (server.oidcLoginStart browser rawState origin) := by
  unfold OidcServer.oidcLoginStart
  split
  · exact trivial
  · refine warranted_ask trivial fun _ => warranted_ask trivial fun now => warranted_ask trivial fun created => ?_
    refine warranted_ask trivial fun inserted => ?_
    cases inserted with
    | true => exact warranted_page ⟨_,rfl⟩
    | false => exact trivial

theorem warranted_admitUser (serving : Serving) (state code redirectUri : String) {token : IdToken} {claim : ExternalIdentityClaim}
    (held : .held browser state ∈ known) (exchanged : .token code (server.verifier state) redirectUri token ∈ known)
    (verified : token.nonce = server.nonce state) (named : claim.provider = "oidc" ∧ claim.issuer = server.oidc.issuer ∧
      claim.subject = token.subject) : Warranted server known (server.admitUser serving browser claim) := by
  refine warranted_ask trivial fun resolution => ?_
  cases found : resolution.user with
  | none => exact warranted_ask trivial fun _ => warranted_page trivial
  | some user =>
    refine warranted_ask trivial fun _ => warranted_then (harmless_onStore _) fun more issued within => warranted_page ?_
    have kept : ∀ fact ∈ known, fact ∈ more := fun fact there =>
      within (List.mem_append_right _ (List.mem_append_right _ there))
    have resolved : Fact.resolved ⟨claim,⟨server.oidc.autoCreateUsers,server.oidc.defaultRole,server.oidc.adminGroups⟩⟩ user ∈
        told (.resolveExternalIdentity ⟨claim,⟨server.oidc.autoCreateUsers,server.oidc.defaultRole,
          server.oidc.adminGroups⟩⟩ : Call β) (some resolution) := by
      simp [told,found]
    exact ⟨state,code,redirectUri,token,_,kept _ held,kept _ exchanged,verified,
      within (List.mem_append_right _ (List.mem_append_left _ resolved)),named⟩

theorem warranted_exchange (serving : Serving) (code : String) {state : String} (redirectUri : String)
    (held : .held browser state ∈ known) : Warranted server known (server.exchange serving browser code state redirectUri) := by
  refine warranted_ask trivial fun _ => warranted_ask ⟨browser,state,List.mem_append_right _ held,rfl⟩ fun answer => ?_
  cases answer with
  | none => exact trivial
  | some token =>
    have exchanged : Fact.token code (server.verifier state) redirectUri token ∈
        told (.exchangeCode code (server.verifier state) redirectUri : Call β) (some (some token)) := by
      simp [told]
    dsimp only
    split
    · exact trivial
    · rename_i verified
      have same : token.nonce = server.nonce state := not_not.mp verified
      split
      · refine ⟨trivial,fun profile => warranted_admitUser serving state code redirectUri ?_ ?_ same ⟨rfl,rfl,rfl⟩⟩
        · exact List.mem_append_right _ (List.mem_append_right _ (List.mem_append_right _ held))
        · exact List.mem_append_right _ (List.mem_append_left _ exchanged)
      · refine warranted_admitUser serving state code redirectUri ?_ ?_ same ⟨rfl,rfl,rfl⟩
        · exact List.mem_append_right _ (List.mem_append_right _ held)
        · exact List.mem_append_left _ exchanged

theorem warranted_redeem (serving : Serving) (later : Int) (code : String) {state : String} (origin : RequestOrigin)
    (held : .held browser state ∈ known) : Warranted server known (server.redeem serving later browser code state origin) := by
  refine warranted_then (harmless_onStore _) fun more stored within => ?_
  cases stored with
  | none => exact warranted_page trivial
  | some stored =>
    dsimp only
    split
    · exact warranted_page trivial
    · split
      · exact warranted_page trivial
      · exact warranted_exchange serving code _ (within held)

theorem warranted_oidcLoginCallback (serving : Serving) (later : Int) (params : CallbackParams) (origin : RequestOrigin) :
    Warranted server known (server.oidcLoginCallback serving later browser params origin) := by
  unfold OidcServer.oidcLoginCallback
  split
  · exact trivial
  · split
    · exact warranted_page trivial
    · split
      · exact warranted_page trivial
      · exact warranted_page trivial
      · refine warranted_ask trivial fun answer => ?_
        cases answer with
        | none => exact warranted_page trivial
        | some held =>
          dsimp only
          split
          · rename_i same
            subst same
            exact warranted_redeem serving later _ origin (List.mem_append_left _ (by simp [told]))
          · exact warranted_page trivial

theorem warranted_serve (request : Request β) : Warranted server known (request.serve server) := by
  cases request with
  | start browser rawState origin => exact warranted_oidcLoginStart rawState origin
  | callback serving later browser params origin => exact warranted_oidcLoginCallback serving later params origin

end Requests

section Agreement

variable [DecidableEq β] [DecidableEq ι] {server : OidcServer} {around : Surroundings} {plants : β → String → Bool}
  {requests : ι → Request β} {accounts : Accounts} {s : State ι β}

abbrev Past (ι β : Type) := List (Event ι (Call β) Call.Answer)

/-- The server has sent the browser to the provider with this state. -/
def Sent (past : Past ι β) (browser : β) (state : String) : Prop :=
  ∃ j request, ⟨j,.respond browser (.authorize request),some ()⟩ ∈ past ∧ request.state = state

/-- What holds of the cookies, of what requests were told and of the pages that were sent. -/
structure Sound (server : OidcServer) (plants : β → String → Bool) (world : Concurrent.World ι (Call β) Call.Answer (World β)) : Prop where
  cookie : ∀ browser state, plants browser state = false → world.shared.cookie browser = some state → Sent world.past browser state
  held : ∀ i browser state, plants browser state = false → .held browser state ∈ gathered told world.past i → Sent world.past browser state
  token : ∀ i code verifier redirectUri token, .token code verifier redirectUri token ∈ gathered told world.past i →
    ∃ a ∈ world.shared.authorizations, a.code = code ∧ a.challenge = server.digests.challenge verifier ∧
      a.redirectUri = redirectUri ∧ a.token = token
  codes : (world.shared.authorizations.map Authorization.code).Nodup
  call : ∀ event ∈ world.past, Permitted server (gathered told world.past event.process) event.request

omit [DecidableEq β] [DecidableEq ι] in
theorem Sent.later {past : Past ι β} {browser : β} {state : String} (sent : Sent past browser state)
    (event : Event ι (Call β) Call.Answer) : Sent (event :: past) browser state := by
  obtain ⟨j,request,there,same⟩ := sent
  exact ⟨j,request,List.mem_cons_of_mem _ there,same⟩

omit [DecidableEq β] in
theorem permitted_mono {known more : List (Fact β)} (within : known ⊆ more) {call : Call β}
    (permitted : Permitted server known call) : Permitted server more call := by
  cases call with
  | respond browser response =>
    cases response with
    | signedIn user issued =>
      obtain ⟨state,code,redirectUri,token,login,held,exchanged,verified,resolved,named⟩ := permitted
      exact ⟨state,code,redirectUri,token,login,within held,within exchanged,verified,within resolved,named⟩
    | authorize request => exact permitted
    | refused reason => exact permitted
  | exchangeCode _ _ _ =>
    obtain ⟨browser,state,held,same⟩ := permitted
    exact ⟨browser,state,within held,same⟩
  | _ => exact permitted

omit [DecidableEq β] in
/-- What the provider has given was agreed to. -/
theorem exchanged_authorized {digests : Digests} {w : World β} {code verifier redirectUri : String} {token : IdToken}
    (given : w.exchanged digests code verifier redirectUri = some token) : ∃ a ∈ w.authorizations, a.code = code ∧
      a.challenge = digests.challenge verifier ∧ a.redirectUri = redirectUri ∧ a.token = token := by
  obtain ⟨a,found,rfl⟩ := Option.map_eq_some_iff.mp given
  have holds := List.find?_some found
  simp only [Bool.and_eq_true,decide_eq_true_eq] at holds
  exact ⟨a,List.mem_of_find?_eq_some found,holds.1.1.1,holds.1.1.2,holds.1.2,rfl⟩

theorem handle_authorizations (call : Call β) (w : World β) :
    (handle server.digests around call w).2.authorizations = w.authorizations := by
  cases call with
  | insertLoginState row =>
    simp only [handle]
    split <;> rfl
  | exchangeCode code verifier redirectUri =>
    simp only [handle]
    split <;> rfl
  | respond browser response => cases response <;> rfl
  | _ => rfl

/-- Only a page changes a cookie. -/
theorem handle_cookie (call : Call β) (w : World β) (browser : β) :
    (handle server.digests around call w).2.cookie browser = w.cookie browser ∨
      ∃ response, call = .respond browser response ∧ ∀ state,
        (handle server.digests around call w).2.cookie browser = some state →
          ∃ request, response = .authorize request ∧ request.state = state := by
  cases call with
  | insertLoginState row =>
    simp only [handle]
    split <;> exact .inl rfl
  | exchangeCode code verifier redirectUri =>
    simp only [handle]
    split <;> exact .inl rfl
  | respond other response =>
    by_cases same : browser = other
    · subst same
      refine .inr ⟨response,rfl,fun state there => ?_⟩
      cases response with
      | authorize request =>
        simp only [handle,World.receive,Function.update_self,Option.some.injEq] at there
        exact ⟨request,rfl,there⟩
      | refused reason => simp [handle,World.receive] at there
      | signedIn user issued => simp [handle,World.receive] at there
    · refine .inl ?_
      cases response <;> simp [handle,World.receive,same]
  | _ => exact .inl rfl

theorem sound_called {world : Concurrent.World ι (Call β) Call.Answer (World β)} (i : ι) (call : Call β) (fails : Bool)
    (sound : Sound server plants world) (permitted : Permitted server (gathered told world.past i) call) :
    Sound server plants (world.perform (handle server.digests around) i call fails) := by
  have past : (world.perform (handle server.digests around) i call fails).past =
      ⟨i,call,answer (handle server.digests around) world.shared call fails⟩ :: world.past := past_perform world i call fails
  have shared : (world.perform (handle server.digests around) i call fails).shared =
      if fails then world.shared else (handle server.digests around call world.shared).2 := by
    cases fails <;> rfl
  have authorizations : (world.perform (handle server.digests around) i call fails).shared.authorizations =
      world.shared.authorizations := by
    rw [shared]
    split
    · rfl
    · exact handle_authorizations call world.shared
  constructor
  · intro browser state is held
    rw [past]
    rw [shared] at held
    cases fails with
    | true => exact (sound.cookie browser state is held).later _
    | false =>
      rcases @handle_cookie _ _ server around call world.shared browser with same | ⟨response,rfl,set⟩
      · rw [if_neg Bool.false_ne_true,same] at held
        exact (sound.cookie browser state is held).later _
      · obtain ⟨request,rfl,named⟩ := set state held
        exact ⟨i,request,List.mem_cons_self,named⟩
  · intro j browser state is there
    rw [past] at there ⊢
    rcases gathered_step there with before | ⟨rfl,new⟩
    · exact (sound.held j browser state is before).later _
    · cases call with
      | browserCookie other =>
        cases fails with
        | true => cases new
        | false =>
          simp only [told,answer,handle,Bool.false_eq_true,if_false,Option.join_some,List.mem_map,Option.mem_toList] at new
          obtain ⟨found,cookie,same⟩ := new
          cases same
          exact (sound.cookie browser state is cookie).later _
      | exchangeCode _ _ _ => simp [told] at new
      | resolveExternalIdentity _ => simp [told] at new
      | _ => cases new
  · intro j code verifier redirectUri token there
    rw [authorizations]
    rw [past] at there
    rcases gathered_step there with before | ⟨rfl,new⟩
    · exact sound.token j code verifier redirectUri token before
    · cases call with
      | exchangeCode code' verifier' redirectUri' =>
        cases fails with
        | true => cases new
        | false =>
          simp only [told,answer,Bool.false_eq_true,if_false,Option.join_some,List.mem_map,Option.mem_toList] at new
          obtain ⟨found,given,same⟩ := new
          cases same
          refine @exchanged_authorized _ server.digests _ _ _ _ _ ?_
          simp only [handle] at given
          split at given
          · rename_i there
            rw [there]
            exact given
          · cases given
      | browserCookie _ => simp [told] at new
      | resolveExternalIdentity _ => simp [told] at new
      | _ => cases new
  · rw [authorizations]
    exact sound.codes
  · rw [past]
    exact permitted_past (fun _ => Permitted server) _ (fun within permitted => permitted_mono within permitted) sound.call permitted

theorem sound_outside {world : Concurrent.World ι (Call β) Call.Answer (World β)} (event : Outside β) {shared : World β}
    (sound : Sound server plants world) (occurred : occur plants event world.shared = some shared) :
    Sound server plants ⟨shared,world.past⟩ := by
  cases event with
  | authorize authorization =>
    simp only [occur] at occurred
    split at occurred
    · cases occurred
    · rename_i fresh
      cases occurred
      refine ⟨sound.cookie,sound.held,fun i code verifier redirectUri token there => ?_,?_,sound.call⟩
      · obtain ⟨a,agreed,rest⟩ := sound.token i code verifier redirectUri token there
        exact ⟨a,List.mem_append_left _ agreed,rest⟩
      · rw [List.map_append,List.map_singleton]
        refine sound.codes.append (List.nodup_singleton _) (List.disjoint_singleton.mpr fun there => fresh ?_)
        obtain ⟨a,agreed,same⟩ := List.mem_map.mp there
        exact List.any_eq_true.mpr ⟨a,agreed,decide_eq_true same⟩
  | plant other cookie =>
    simp only [occur] at occurred
    split at occurred
    · rename_i planted
      cases occurred
      refine ⟨fun browser state unplanted held => ?_,sound.held,sound.token,sound.codes,sound.call⟩
      dsimp only at held
      by_cases same : browser = other
      · subst same
        rw [Function.update_self] at held
        rw [held] at planted
        rw [show plants browser state = true from planted] at unplanted
        cases unplanted
      · rw [Function.update_of_ne same] at held
        exact sound.cookie browser state unplanted held
    · cases occurred
  | others accounts identities =>
    cases occurred
    exact ⟨sound.cookie,sound.held,sound.token,sound.codes,sound.call⟩

omit [DecidableEq β] in
theorem sound_start : Sound server plants (start server accounts requests).toWorld where
  cookie := nofun
  held := fun _ _ _ _ there => absurd there List.not_mem_nil
  token := fun _ _ _ _ _ there => absurd there List.not_mem_nil
  codes := List.nodup_nil
  call := fun _ there => absurd there List.not_mem_nil

theorem sound_run (reach : Transition.Reachable (step server around plants) (start server accounts requests) s) :
    Sound server plants s.toWorld := by
  refine (warranted_kept (Sound server plants) (fun _ _ _ => True) (fun world i call fails => sound_called i call fails)
    (fun world event shared => sound_outside event) reach sound_start fun i => warranted_serve (requests i)).1

omit [DecidableEq β] in
theorem resolved_by {past : Past ι β} {i : ι} {login : Login} {user : User} (there : .resolved login user ∈ gathered told past i) :
    ∃ resolution, ⟨i,.resolveExternalIdentity login,some resolution⟩ ∈ past ∧ resolution.user = some user := by
  obtain ⟨⟨j,call,answer⟩,before,rfl,new⟩ := mem_gathered.mp there
  cases call with
  | resolveExternalIdentity other =>
    simp only [told,List.mem_map,Option.mem_toList] at new
    obtain ⟨found,user,same⟩ := new
    cases same
    obtain ⟨resolution,rfl,user⟩ := Option.bind_eq_some_iff.mp user
    exact ⟨resolution,before,user⟩
  | browserCookie _ => simp [told] at new
  | exchangeCode _ _ _ => simp [told] at new
  | _ => cases new

omit [DecidableEq β] in
theorem held_by {past : Past ι β} {i : ι} {browser : β} {state : String} (there : .held browser state ∈ gathered told past i) :
    ⟨i,.browserCookie browser,some (some state)⟩ ∈ past := by
  obtain ⟨⟨j,call,answer⟩,before,rfl,new⟩ := mem_gathered.mp there
  cases call with
  | browserCookie other =>
    simp only [told,List.mem_map,Option.mem_toList] at new
    obtain ⟨found,cookie,same⟩ := new
    cases same
    rw [Option.join_eq_some_iff.mp cookie] at before
    exact before
  | resolveExternalIdentity _ => simp [told] at new
  | exchangeCode _ _ _ => simp [told] at new
  | _ => cases new

end Agreement

section Sample

/-- Digests that are the text itself. -/
def plainDigests : Digests :=
  ⟨fun text => text.toByteArray.data.toList,fun bytes => String.ofList (bytes.map fun byte => Char.ofNat byte.toNat)⟩

def sampleServer : OidcServer where
  oidc := ⟨"https://id.invalid","qd","key","https://qd.invalid/callback","openid",false,"user",[],"groups","",""⟩
  basePath := ""
  digests := plainDigests

def annRow (id : Int) : UserRow := ⟨id,"ann","hash","user",false,0,none,true,none,false⟩

theorem annRow_id (id : Int) : (annRow id).id = id := rfl

def annAccounts : Accounts :=
  ⟨100,Table.empty.insert annRow annRow_id,fun _ => none,fun _ => none,fun _ => none,fun _ => none,Challenges.empty⟩

def sampleSurroundings : Surroundings where
  backend := ⟨fun stored given => stored = given,fun _ _ => false,fun _ _ => none⟩
  userInfo := fun _ => none
  resolve := fun _ directory => (⟨some (userFromRow (annRow 1)),false,none⟩,directory)

def nowhere : RequestOrigin := ⟨none,none,none,none⟩

def annServing : Serving := ⟨true,id,3600,"token","csrf"⟩

/-- The browser is sent to the provider, and comes back. -/
def annRequests (back : Bool) : Request Unit :=
  if back then .callback annServing 100 () ⟨none,some "code",some "state"⟩ nowhere else .start () "state" nowhere

def annAuthorization : Authorization where
  code := "code"
  challenge := plainDigests.challenge (sampleServer.verifier "state")
  redirectUri := "https://qd.invalid/callback"
  token := ⟨"sub-1",sampleServer.nonce "state",some "ann",some "ann@qd.invalid",none⟩

def annActions : List (Action Bool (Outside Unit)) :=
  List.replicate 5 (.call false false) ++ .outside (.authorize annAuthorization) :: List.replicate 11 (.call true false)

abbrev annStep : State Bool Unit → Action Bool (Outside Unit) → Option (State Bool Unit) :=
  step sampleServer sampleSurroundings fun _ _ => false

set_option maxRecDepth 20000 in
theorem ann_ran : (Transition.exec annStep (start sampleServer annAccounts annRequests) annActions).isSome = true := rfl

def annSignedIn : State Bool Unit := (Transition.exec annStep (start sampleServer annAccounts annRequests) annActions).get ann_ran

set_option maxRecDepth 20000 in
theorem ann_signed : ⟨true,.respond () (.signedIn (userFromRow (annRow 1)) ⟨"token","csrf",3700⟩),some ()⟩ ∈ annSignedIn.past :=
  List.mem_cons_self

theorem byte_char {n : Nat} (byte : n < 256) : (Char.ofNat n).toNat = n := by
  have valid : n.isValidChar := .inl (by omega)
  rw [Char.ofNat,dif_pos valid]
  rfl

theorem plain_base64Url : Function.Injective plainDigests.base64Url := by
  intro first second same
  refine List.map_injective_iff.mpr (fun a b equal => ?_) (String.ofList_injective same)
  have values := congrArg Char.toNat equal
  rw [byte_char a.toNat_lt,byte_char b.toNat_lt] at values
  exact UInt8.toNat_inj.mp values

theorem plain_challenge {first second : String}
    (same : plainDigests.challenge (sampleServer.verifier first) = plainDigests.challenge (sampleServer.verifier second)) :
    first = second := by
  have sha256 : Function.Injective plainDigests.sha256 := fun a b equal =>
    String.toByteArray_inj.mp (ByteArray.ext (Array.toList_inj.mp equal))
  have texts := sha256 (plain_base64Url (sha256 (plain_base64Url same)))
  exact String.append_left_inj _ |>.mp texts

set_option maxRecDepth 20000 in
theorem ann_exchanged : ⟨true,.exchangeCode annAuthorization.code (sampleServer.verifier "state") "https://qd.invalid/callback",
    some (some annAuthorization.token)⟩ ∈ annSignedIn.past :=
  List.mem_of_getElem? (i := 6) rfl

end Sample
end Qdrust.Account.Oidc
