import Qdrust.Account.ExternalIdentity
import Qdrust.Account.LoginTotp
import Qdrust.Account.Session
import Qdrust.Library.Alone

/-! Requests that a reverse proxy has authenticated. The middleware resolves the identity,
and hands its session to the handler in the cookies of the request; the handler looks for
a session by itself. A request is served within one instant. -/
namespace Qdrust.Account.HeaderAuth
open Library Concurrent

structure HeaderIdentity where
  username : String
  email : Option String
  groups : List String

structure HeaderAuthConfig where
  trustedProxyRequired : Bool
  autoCreateUsers : Bool
  defaultRole : String
  adminGroups : List String

/-- A request, with the identity that the configured headers carry, and whether its source
is one of the trusted proxies. -/
structure ProxyRequest where
  headers : Headers
  path : String
  identity : Option HeaderIdentity
  trusted : Bool

structure ProxyServer where
  cached : Bool
  headerAuth : Option HeaderAuthConfig
  serving : Serving
  texts : ExternalIdentity.Texts

inductive ProxyCall where
  | site (call : SiteCall)
  | directory (statement : ExternalIdentity.Statement)
deriving DecidableEq

abbrev ProxyCall.Answer : ProxyCall → Type
  | .site call => call.Answer
  | .directory statement => statement.Answer

structure Proxied where
  site : Site
  identities : Table ExternalIdentity.IdentityRow ExternalIdentity.IdentityRow.id

namespace Proxied

def withSite (p : Proxied) (site : Site) : Proxied := { p with site }

def directory (p : Proxied) : ExternalIdentity.Directory := ⟨p.site.accounts.clock,p.site.accounts.users,p.identities⟩

def withDirectory (p : Proxied) (directory : ExternalIdentity.Directory) : Proxied where
  site := { p.site with accounts := { p.site.accounts with clock := directory.clock, users := directory.users } }
  identities := directory.identities

end Proxied

def proxied (texts : ExternalIdentity.Texts) (backend : Backend) : Handler ProxyCall ProxyCall.Answer Proxied
  | .site call,p =>
    let done := site backend call p.site
    (done.1,p.withSite done.2)
  | .directory statement,p =>
    let done := ExternalIdentity.directory texts statement p.directory
    (done.1,p.withDirectory done.2)

abbrev ProxyCalls := Routine ProxyCall ProxyCall.Answer

def onSite {ρ : Type} (routine : SiteCalls ρ) : ProxyCalls ρ := routine.embed .site fun _ answer => answer

def onAccounts {ρ : Type} (routine : Calls ρ) : SiteCalls ρ := routine.embed .store fun _ answer => answer

def onDirectory {ρ : Type} (routine : ExternalIdentity.Calls ρ) : ProxyCalls ρ :=
  routine.embed .directory fun _ answer => answer

/-- The new cookies stand behind the text of the first `Cookie` line, and are the only line
then. -/
def injectSessionCookies (headers : Headers) (issued : IssuedSession) : Headers :=
  let combined := sessionCookie ++ "=" ++ issued.sessionToken ++ "; " ++ (csrfCookie ++ "=" ++ issued.csrfToken)
  let merged :=
    match headers.cookies.head?.join with
    | some existing => if existing = "" then combined else existing ++ "; " ++ combined
    | none => combined
  { headers with cookies := [some merged] }

/-- How handlers look for their session. -/
inductive Reader where
  | cached
  | stored

def Reader.requireSession (config : SessionConfig) (headers : Headers) : Reader → SiteCalls Authentication
  | .cached => config.requireSession headers
  | .stored => config.requireSessionFromStore headers

namespace ProxyServer

variable (server : ProxyServer)

def sessions : SessionConfig := ⟨server.cached,server.serving.sessionTtl,server.serving.tokenHash⟩

/-- A handler asks who the request is from. -/
def authenticate (reader : Reader) (headers : Headers) : ProxyCalls Authentication :=
  onSite (reader.requireSession server.sessions headers)

def recordAudit (action : String) : ProxyCalls Unit := do
  let _ ← Routine.attempt (.site (.store (.recordAudit action)) : ProxyCall)
  return ()

/-- A session that is there is revoked, also where this fails. -/
def establishHeaderSession (user : User) (oldToken : Option String) : ProxyCalls IssuedSession := do
  match oldToken with
  | some old =>
    let _ ← (onSite (server.sessions.revokeSession old)).caught
    onSite (onAccounts (createSession server.serving user.id))
  | none => onSite (onAccounts (createSession server.serving user.id))

/-- What is done for a user the identity was resolved to. -/
def serveAs (user : User) (created : Bool) (existing : Option (AuthOrigin × AuthenticatedSession)) (headers : Headers)
    (next : Headers → ProxyCalls Authentication) : ProxyCalls Authentication :=
  if existing.any fun session => session.2.user.id = user.id then next headers
  else do
    let issued ← server.establishHeaderSession user (existing.map fun session => session.1.token)
    let response ← (next (injectSessionCookies headers issued)).caught
    recordAudit (if created then "auth.external_user_created" else "auth.external_login")
    match response with
    | none => .failed
    | some answer => return answer

def login (settings : HeaderAuthConfig) (identity : HeaderIdentity) : ExternalIdentity.Login where
  claim := ⟨"header","header",identity.username,identity.email,some identity.username,identity.groups⟩
  settings := ⟨settings.autoCreateUsers,settings.defaultRole,settings.adminGroups⟩

def serveTrusted (settings : HeaderAuthConfig) (identity : HeaderIdentity) (headers : Headers)
    (next : Headers → ProxyCalls Authentication) : ProxyCalls Authentication := do
  let found ← (onSite (server.sessions.requireSession headers)).caught
  let existing := found.bind Except.toOption
  let resolution ← onDirectory (ExternalIdentity.resolveExternalIdentity server.texts (login settings identity))
  match resolution.user with
  | some user => server.serveAs user resolution.created existing headers next
  | none =>
    if existing.isSome then next headers
    else
      recordAudit "auth.external_refused"
      return .error (.forbidden "header_identity_refused" "Header identity could not be resolved to a local user")

def headerAuthMiddleware (request : ProxyRequest) (next : Headers → ProxyCalls Authentication) :
    ProxyCalls Authentication :=
  match server.headerAuth with
  | none => next request.headers
  | some settings =>
    if (Text.stripPrefix request.path "/api/v1/auth").isSome then next request.headers
    else
      match request.identity with
      | none => next request.headers
      | some identity =>
        if request.trusted then server.serveTrusted settings identity request.headers next
        else if settings.trustedProxyRequired then do
          recordAudit "auth.external_refused"
          return .error (.forbidden "untrusted_proxy_header" "Identity headers from an untrusted source are not accepted")
        else next request.headers

end ProxyServer

section Sessions

variable {backend : Backend} {config : SessionConfig} {s t : Site}

/-- What the cache answers when it answers. -/
def cachedSession (config : SessionConfig) (s : Site) (tokenHash : String) : Option AuthenticatedSession :=
  if config.cached then
    ((s.entry tokenHash).map CacheEntry.session).filter fun session => session.expiresAt > s.accounts.clock
  else none

/-- Nothing but what the cache keeps under one key may have changed, and there it is what the
store says of the session. -/
structure Looked (config : SessionConfig) (tokenHash : String) (s t : Site) : Prop where
  accounts : t.accounts = s.accounts
  apiTokens : t.apiTokens = s.apiTokens
  instant : t.instant = s.instant
  others : ∀ key, key ≠ tokenHash → t.sessions key = s.sessions key
  own : cachedSession config t tokenHash = cachedSession config s tokenHash ∨
    cachedSession config t tokenHash = Site.authenticateSession s.accounts tokenHash

theorem Looked.refl (tokenHash : String) (s : Site) : Looked config tokenHash s s :=
  ⟨rfl,rfl,rfl,fun _ _ => rfl,.inl rfl⟩

theorem runs_lookUp {tokenHash : String} {result : Option (Option AuthenticatedSession)}
    (run : Routine.Runs (site backend) (config.lookUp tokenHash) s result t) :
    t = s ∧ ∃ answer, result = some answer ∧ (answer = none ∨ answer = cachedSession config s tokenHash) := by
  unfold SessionConfig.lookUp at run
  unfold cachedSession
  split at run
  · rename_i cached
    rw [if_pos cached]
    rcases run with ⟨rfl,rfl⟩ | ⟨rfl,rfl⟩
    · exact ⟨rfl,_,rfl,.inr rfl⟩
    · exact ⟨rfl,_,rfl,.inl rfl⟩
  · obtain ⟨rfl,rfl⟩ := run
    exact ⟨rfl,_,rfl,.inl rfl⟩

/-- The cache may answer what it keeps, and may be taken for empty. -/
theorem lookUp_runs (tokenHash : String) :
    Routine.Runs (site backend) (config.lookUp tokenHash) s (some (cachedSession config s tokenHash)) s ∧
      Routine.Runs (site backend) (config.lookUp tokenHash) s (some none) s := by
  unfold SessionConfig.lookUp cachedSession
  split
  · exact ⟨.inl ⟨rfl,rfl⟩,.inr ⟨rfl,rfl⟩⟩
  · exact ⟨⟨rfl,rfl⟩,⟨rfl,rfl⟩⟩

theorem cacheTtl_pos : 0 < config.cacheTtl := lt_of_lt_of_le Nat.zero_lt_one (Nat.le_max_right _ _)

theorem runs_remember {tokenHash : String} {session : AuthenticatedSession} {result : Option Unit}
    (found : Site.authenticateSession s.accounts tokenHash = some session) (live : session.expiresAt > s.accounts.clock)
    (run : Routine.Runs (site backend) (config.remember tokenHash session) s result t) : Looked config tokenHash s t := by
  have set : ∀ indexes, Looked config tokenHash s
      { s with
        sessions := Function.update s.sessions tokenHash (some ⟨session,s.instant + config.cacheTtl⟩)
        indexes } := by
    intro indexes
    refine ⟨rfl,rfl,rfl,fun key differs => Function.update_of_ne differs _ _,?_⟩
    by_cases cached : config.cached
    · right
      have later : s.instant < s.instant + config.cacheTtl := Nat.lt_add_of_pos_right cacheTtl_pos
      simp [cachedSession,cached,Site.entry,Function.update_self,later,live,found]
    · left
      simp [cachedSession,cached]
  unfold SessionConfig.remember at run
  split at run
  · rcases run with (((⟨-,rfl⟩ | ⟨-,rfl⟩) | ⟨-,rfl⟩) | ⟨-,rfl⟩)
    · exact set _
    · exact set _
    · exact set _
    · exact .refl tokenHash _
  · obtain ⟨-,rfl⟩ := run
    exact .refl tokenHash _

theorem remember_runs (tokenHash : String) (session : AuthenticatedSession) :
    Routine.Runs (site backend) (config.remember tokenHash session) s (some ()) s := by
  unfold SessionConfig.remember
  split
  · exact .inr ⟨rfl,rfl⟩
  · exact ⟨rfl,rfl⟩

/-- What a request is told of a session. -/
def admission (origin : AuthOrigin) : Option AuthenticatedSession → Authentication
  | some session => .ok (origin,session)
  | none => .error unauthorized

theorem authenticateSession_live {db : Accounts} {tokenHash : String} {session : AuthenticatedSession}
    (found : Site.authenticateSession db tokenHash = some session) : session.expiresAt > db.clock := by
  obtain ⟨row,-,good⟩ := Option.bind_eq_some_iff.mp found
  rw [Site.sessionOf] at good
  split at good
  · split at good
    · split at good
      · cases good
        assumption
      · cases good
    · cases good
  · cases good

theorem runs_requireCookieSession {token : String} {result : Option Authentication}
    (run : Routine.Runs (site backend) (config.requireCookieSession token) s result t) :
    Looked config (config.tokenHash token) s t ∧ (result = none ∨ ∃ answer, result = some (admission ⟨token,false⟩ answer) ∧
      (answer = Site.authenticateSession s.accounts (config.tokenHash token) ∨
        answer.isSome ∧ answer = cachedSession config s (config.tokenHash token))) := by
  unfold SessionConfig.requireCookieSession at run
  rcases Routine.runs_bind.mp run with ⟨looked,u,first,rest⟩ | ⟨first,rfl⟩
  · obtain ⟨rfl,_,⟨⟩,kept⟩ := runs_lookUp first
    cases looked with
    | some session =>
      obtain ⟨rfl,rfl⟩ := rest
      refine ⟨.refl _ _,.inr ⟨some session,rfl,.inr ⟨rfl,kept.resolve_left (Option.some_ne_none session)⟩⟩⟩
    | none =>
      rcases Routine.runs_ask.mp rest with rest | ⟨rfl,rfl⟩
      · generalize stored : (site backend (.authenticateSession (config.tokenHash token)) u).1 = answer at rest
        have told : Site.authenticateSession u.accounts (config.tokenHash token) = answer := stored
        rw [told]
        cases answer with
        | none =>
          obtain ⟨rfl,rfl⟩ := rest
          exact ⟨.refl _ _,.inr ⟨none,rfl,.inl rfl⟩⟩
        | some session =>
          rcases Routine.runs_bind.mp rest with ⟨_,v,kept,rfl,rfl⟩ | ⟨kept,rfl⟩
          · exact ⟨runs_remember told (authenticateSession_live told) kept,.inr ⟨some session,rfl,.inl rfl⟩⟩
          · exact ⟨runs_remember told (authenticateSession_live told) kept,.inl rfl⟩
      · exact ⟨.refl _ _,.inl rfl⟩
  · obtain ⟨rfl,_,⟨⟩,-⟩ := runs_lookUp first

/-- The store may be asked, and the cache left as it is. -/
theorem requireCookieSession_runs_stored (token : String) :
    Routine.Runs (site backend) (config.requireCookieSession token) s
      (some (admission ⟨token,false⟩ (Site.authenticateSession s.accounts (config.tokenHash token)))) s := by
  unfold SessionConfig.requireCookieSession
  refine Routine.runs_then (lookUp_runs _).2 (Routine.runs_ask.mpr (.inl ?_))
  generalize stored : (site backend (.authenticateSession (config.tokenHash token)) s).1 = answer
  have told : Site.authenticateSession s.accounts (config.tokenHash token) = answer := stored
  rw [told]
  cases answer with
  | none => exact ⟨rfl,rfl⟩
  | some session => exact Routine.runs_then (remember_runs _ session) ⟨rfl,rfl⟩

theorem requireCookieSession_runs_cached {token : String} {session : AuthenticatedSession}
    (kept : cachedSession config s (config.tokenHash token) = some session) :
    Routine.Runs (site backend) (config.requireCookieSession token) s (some (.ok (⟨token,false⟩,session))) s := by
  unfold SessionConfig.requireCookieSession
  refine Routine.runs_then (lookUp_runs _).1 ?_
  rw [kept]
  exact ⟨rfl,rfl⟩

variable {reader : Reader} {headers : Headers} {result : Option Authentication}

theorem runs_requireApiToken {token : String}
    (run : Routine.Runs (site backend) (config.requireApiToken token) s result t) :
    t = s ∧ (result = none ∨ result = some (admission ⟨token,true⟩ (s.authenticateApiToken (config.tokenHash token)))) := by
  rcases Routine.runs_ask.mp run with run | ⟨rfl,rfl⟩
  · generalize stored : (site backend (.authenticateApiToken (config.tokenHash token)) s).1 = answer at run
    have told : s.authenticateApiToken (config.tokenHash token) = answer := stored
    rw [told]
    cases answer with
    | none =>
      obtain ⟨rfl,rfl⟩ := run
      exact ⟨rfl,.inr rfl⟩
    | some session =>
      rcases Routine.runs_attempt.mp run with ⟨rfl,rfl⟩ | ⟨rfl,rfl⟩
      · exact ⟨rfl,.inr rfl⟩
      · exact ⟨rfl,.inr rfl⟩
  · exact ⟨rfl,.inl rfl⟩

/-- A bearer token is the only thing that counts. -/
theorem runs_bearer {token : String} (bearer : bearerToken headers = some token)
    (run : Routine.Runs (site backend) (reader.requireSession config headers) s result t) :
    t = s ∧ (result = none ∨ result = some (admission ⟨token,true⟩ (s.authenticateApiToken (config.tokenHash token)))) := by
  cases reader with
  | cached =>
    simp only [Reader.requireSession,SessionConfig.requireSession,bearer] at run
    exact runs_requireApiToken run
  | stored =>
    simp only [Reader.requireSession,SessionConfig.requireSessionFromStore,bearer] at run
    exact runs_requireApiToken run

theorem bearer_runs {token : String} (bearer : bearerToken headers = some token) :
    Routine.Runs (site backend) (config.requireSession headers) s
      (some (admission ⟨token,true⟩ (s.authenticateApiToken (config.tokenHash token)))) s := by
  simp only [SessionConfig.requireSession,bearer]
  refine Routine.runs_ask.mpr (.inl ?_)
  generalize stored : (site backend (.authenticateApiToken (config.tokenHash token)) s).1 = answer
  have told : s.authenticateApiToken (config.tokenHash token) = answer := stored
  rw [told]
  cases answer with
  | none => exact ⟨rfl,rfl⟩
  | some session => exact .inl ⟨rfl,rfl⟩

theorem runs_cookie {token : String} (none : bearerToken headers = none) (given : cookie headers sessionCookie = some token)
    (run : Routine.Runs (site backend) (reader.requireSession config headers) s result t) :
    Looked config (config.tokenHash token) s t ∧ (result = .none ∨ ∃ answer, result = some (admission ⟨token,false⟩ answer) ∧
      (answer = Site.authenticateSession s.accounts (config.tokenHash token) ∨
        answer.isSome ∧ answer = cachedSession config s (config.tokenHash token))) := by
  cases reader with
  | cached =>
    simp only [Reader.requireSession,SessionConfig.requireSession,none,given] at run
    exact runs_requireCookieSession run
  | stored =>
    simp only [Reader.requireSession,SessionConfig.requireSessionFromStore,none,given] at run
    rcases Routine.runs_ask.mp run with run | ⟨rfl,rfl⟩
    · generalize stored : (site backend (.authenticateSession (config.tokenHash token)) s).1 = answer at run
      have told : Site.authenticateSession s.accounts (config.tokenHash token) = answer := stored
      rw [told]
      cases answer with
      | none =>
        obtain ⟨rfl,rfl⟩ := run
        exact ⟨.refl _ _,.inr ⟨.none,rfl,.inl rfl⟩⟩
      | some session =>
        obtain ⟨rfl,rfl⟩ := run
        exact ⟨.refl _ _,.inr ⟨some session,rfl,.inl rfl⟩⟩
    · exact ⟨.refl _ _,.inl rfl⟩

theorem runs_anonymous (none : bearerToken headers = none) (unnamed : cookie headers sessionCookie = .none)
    (run : Routine.Runs (site backend) (reader.requireSession config headers) s result t) :
    t = s ∧ result = some (.error unauthorized) := by
  cases reader with
  | cached =>
    simp only [Reader.requireSession,SessionConfig.requireSession,none,unnamed] at run
    exact ⟨run.2,run.1⟩
  | stored =>
    simp only [Reader.requireSession,SessionConfig.requireSessionFromStore,none,unnamed] at run
    exact ⟨run.2,run.1⟩

end Sessions

section Parts

variable {backend : Backend} {texts : ExternalIdentity.Texts} {ρ : Type} {result : Option ρ}

theorem runs_onSite {routine : SiteCalls ρ} {p q : Proxied} :
    Routine.Runs (proxied texts backend) (onSite routine) p result q ↔
      ∃ s, Routine.Runs (site backend) routine p.site result s ∧ q = p.withSite s :=
  Routine.runs_embed Proxied.site Proxied.withSite (fun _ _ => ⟨rfl,rfl⟩) (fun _ _ => rfl) (fun _ => rfl) fun _ _ _ => rfl

theorem runs_onDirectory {routine : ExternalIdentity.Calls ρ} {p q : Proxied} :
    Routine.Runs (proxied texts backend) (onDirectory routine) p result q ↔
      ∃ d, Routine.Runs (ExternalIdentity.directory texts) routine p.directory result d ∧ q = p.withDirectory d :=
  Routine.runs_embed Proxied.directory Proxied.withDirectory (fun _ _ => ⟨rfl,rfl⟩) (fun _ _ => rfl) (fun _ => rfl)
    fun _ _ _ => rfl

theorem runs_onAccounts {routine : Calls ρ} {s t : Site} :
    Routine.Runs (site backend) (onAccounts routine) s result t ↔
      ∃ db, Routine.Runs (accounts backend) routine s.accounts result db ∧ t = { s with accounts := db } :=
  Routine.runs_embed Site.accounts (fun s db => { s with accounts := db }) (fun _ _ => ⟨rfl,rfl⟩) (fun _ _ => rfl)
    (fun _ => rfl) fun _ _ _ => rfl

end Parts

section Issuing

variable {backend : Backend} {serving : Serving} {id : Int} {db db' : Accounts} {issued : IssuedSession}

/-- The session that a new token is of. -/
def newSession (serving : Serving) (id : Int) (user : UserRow) (expiresAt : Int) : SessionRow :=
  ⟨id,serving.tokenHash serving.csrfToken,user.sessionVersion,expiresAt⟩

/-- The tables with a new session. -/
def withSession (db : Accounts) (serving : Serving) (id : Int) (user : UserRow) (expiresAt : Int) : Accounts :=
  let row := newSession serving id user expiresAt
  { db with sessions := Function.update db.sessions (serving.tokenHash serving.sessionToken) (some row) }

theorem runs_createSession (run : Routine.Runs (accounts backend) (createSession serving id) db (some issued) db') :
    ∃ user expiresAt, db.users.find id = some user ∧ user.disabled = false ∧ db.clock < expiresAt ∧
      issued = ⟨serving.sessionToken,serving.csrfToken,expiresAt⟩ ∧ db' = withSession db serving id user expiresAt := by
  unfold createSession at run
  split at run
  · cases run.1
  rename_i positive
  rcases Routine.runs_ask.mp run with run | ⟨⟨⟩,-⟩
  cases found : db.users.find id with
  | none =>
    have read : (accounts backend (.credentialsById id) db).1 = none := by simp only [accounts,found,Option.map_none]
    rw [read] at run
    cases run.1
  | some user =>
    have read : (accounts backend (.credentialsById id) db).1 = some (credentialsFromRow user) := by
      simp only [accounts,found,Option.map_some]
    rw [read] at run
    dsimp only at run
    split at run
    · cases run.1
    rename_i inUse
    rcases Routine.runs_ask.mp run with run | ⟨⟨⟩,-⟩
    split at run
    · cases run.1
    rcases Routine.runs_ask.mp run with ⟨same,became⟩ | ⟨⟨⟩,-⟩
    have later : db.clock < db.clock + serving.sessionTtl := by omega
    exact ⟨user,_,rfl,Bool.eq_false_iff.mpr inUse,later,Option.some.inj same,became⟩

theorem createSession_runs (backend : Backend) {user : UserRow} (found : db.users.find id = some user) (inUse : user.disabled = false)
    (positive : serving.sessionTtl ≠ 0) (bounded : db.clock + serving.sessionTtl ≤ 9223372036854775807) :
    ∃ expiresAt, Routine.Runs (accounts backend) (createSession serving id) db
      (some ⟨serving.sessionToken,serving.csrfToken,expiresAt⟩) (withSession db serving id user expiresAt) := by
  refine ⟨db.clock + serving.sessionTtl,?_⟩
  unfold createSession
  rw [if_neg positive]
  refine Routine.runs_ask.mpr (.inl ?_)
  have read : (accounts backend (.credentialsById id) db).1 = some (credentialsFromRow user) := by
    simp only [accounts,found,Option.map_some]
  rw [read]
  have usable : ¬(credentialsFromRow user).user.disabled = true := by simpa [credentialsFromRow,userFromRow] using inUse
  dsimp only
  rw [if_neg usable]
  refine Routine.runs_ask.mpr (.inl ?_)
  split
  · exact absurd ‹_› (Int.not_lt.mpr bounded)
  · exact Routine.runs_ask.mpr (.inl ⟨rfl,rfl⟩)

end Issuing

section Resolution

open ExternalIdentity

variable {texts : Texts} {login : Login} {d d' : Directory}

/-- An identity leads to a user that is there and not disabled, and every other user stays
as it is. -/
structure Enters (user : User) (d d' : Directory) : Prop where
  clock : d'.clock = d.clock
  found : ∃ row, d'.users.find user.id = some row ∧ userFromRow row = user ∧ row.disabled = false
  kept : ∀ id ≤ d.users.last, d'.users.find id = d.users.find id

theorem runs_freeUsername {base : String} {count suffix : Nat} {name : String}
    (run : Routine.Runs (directory texts) (freeUsername base count suffix) d (some name) d') : d' = d := by
  induction count generalizing suffix with
  | zero => cases run.1
  | succ count ih =>
    rcases Routine.runs_ask.mp run with run | ⟨⟨⟩,-⟩
    split at run
    · exact ih run
    · exact run.2

theorem runs_uniqueExternalUsername {claim : ExternalIdentityClaim} {name : String}
    (run : Routine.Runs (directory texts) (uniqueExternalUsername claim) d (some name) d') : d' = d := by
  rcases Routine.runs_ask.mp run with run | ⟨⟨⟩,-⟩
  split at run
  · exact runs_freeUsername run
  · exact run.2

theorem find_insert_old {make : Int → UserRow} (keyed : ∀ id, (make id).id = id) {id : Int} (old : id ≤ d.users.last) :
    (d.users.insert make keyed).find id = d.users.find id := by
  have other : ((make (d.users.last + 1)).id == id) = false := by
    rw [keyed]
    simp
    omega
  simp [Table.find,Table.insert,List.find?_append,other]

theorem runs_provision {user : User} {created : Bool} {refusal : Option String}
    (run : Routine.Runs (directory texts) (provisionExternalUser texts login) d (some ⟨some user,created,refusal⟩) d') :
    Enters user d d' := by
  unfold provisionExternalUser at run
  split at run
  · cases run.1
  rcases Routine.runs_bind.mp run with ⟨name,_,named,run⟩ | ⟨-,⟨⟩⟩
  cases runs_uniqueExternalUsername named
  rcases Routine.runs_ask.mp run with run | ⟨⟨⟩,-⟩
  rcases Routine.runs_ask.mp run with run | ⟨⟨⟩,-⟩
  generalize (login.claim.email.map fun email => texts.lowercase (trim email)) = email at run
  simp only [directory] at run
  generalize made : d.provision texts name login.role email login.claim.key d.clock = done at run
  rw [Directory.provision] at made
  split at made
  · subst made
    cases run.1
  · subst made
    rcases Routine.runs_ask.mp run with run | ⟨⟨⟩,-⟩
    have present : (d.users.insert (provisionedRow name login.role email)
        (provisionedRow_id name login.role email)).find (d.users.last + 1) =
          some (provisionedRow name login.role email (d.users.last + 1)) :=
      (Table.find_eq_some _).mpr ⟨List.mem_append_right _ (List.mem_singleton_self _),rfl⟩
    simp only [directory,present,Option.map_some] at run
    obtain ⟨⟨⟩,rfl⟩ := run
    exact ⟨rfl,⟨_,present,rfl,rfl⟩,fun id old => find_insert_old (provisionedRow_id name login.role email) old⟩

theorem runs_resolve {user : User} {created : Bool} {refusal : Option String}
    (run : Routine.Runs (directory texts) (resolveExternalIdentity texts login) d (some ⟨some user,created,refusal⟩) d') :
    Enters user d d' := by
  unfold resolveExternalIdentity at run
  split at run
  · cases run.1
  rcases Routine.runs_ask.mp run with run | ⟨⟨⟩,-⟩
  split at run
  · rename_i identity _
    rcases Routine.runs_ask.mp run with run | ⟨⟨⟩,-⟩
    cases found : d.users.find identity.userId with
    | none =>
      simp only [directory,found,Option.map_none] at run
      exact runs_provision run
    | some row =>
      simp only [directory,found,Option.map_some] at run
      split at run
      · cases run.1
      rename_i inUse
      rcases Routine.runs_ask.mp run with ⟨⟨⟩,rfl⟩ | ⟨⟨⟩,-⟩
      have same : row.id = identity.userId := ((Table.find_eq_some _).mp found).2
      refine ⟨rfl,⟨row,?_,rfl,Bool.eq_false_iff.mpr inUse⟩,fun _ _ => rfl⟩
      change d.users.find row.id = some row
      rw [same,found]
  · split at run
    · exact runs_provision run
    split at run
    · exact runs_provision run
    rcases Routine.runs_ask.mp run with run | ⟨⟨⟩,-⟩
    split at run
    · cases run.1
    · exact runs_provision run

theorem strict_freeUsername (base : String) (count suffix : Nat) : (freeUsername base count suffix).Strict := by
  induction count generalizing suffix with
  | zero => exact .failed
  | succ count ih =>
    refine Routine.strict_bind (Routine.strict_ask _) fun taken => ?_
    split
    · exact ih _
    · exact .done _

theorem strict_provision (login : Login) : (provisionExternalUser texts login).Strict := by
  unfold provisionExternalUser
  split
  · exact .done _
  refine Routine.strict_bind ?_ fun _ => Routine.strict_bind (Routine.strict_ask _) fun _ =>
    Routine.strict_bind (Routine.strict_ask _) fun made => ?_
  · refine Routine.strict_bind (Routine.strict_ask _) fun taken => ?_
    split
    · exact strict_freeUsername _ _ _
    · exact .done _
  split
  · exact .failed
  refine Routine.strict_bind (Routine.strict_ask _) fun user => ?_
  split
  · exact .failed
  · exact .done _

/-- There is one user that an identity leads to. -/
theorem strict_resolve (login : Login) : (resolveExternalIdentity texts login).Strict := by
  unfold resolveExternalIdentity
  split
  · exact .failed
  refine Routine.strict_bind (Routine.strict_ask _) fun found => ?_
  split
  · refine Routine.strict_bind (Routine.strict_ask _) fun user => ?_
    split
    · exact strict_provision login
    split
    · exact .done _
    exact Routine.strict_bind (Routine.strict_ask _) fun _ => .done _
  · split
    · exact strict_provision login
    split
    · exact strict_provision login
    refine Routine.strict_bind (Routine.strict_ask _) fun owner => ?_
    split
    · exact .done _
    · exact strict_provision login

end Resolution

section Cookies

variable {headers : Headers} {issued : IssuedSession}

/-- The request with the first of its `Cookie` lines only. -/
def leading (headers : Headers) : Headers := { headers with cookies := [headers.cookies.head?.join] }

/-- The letters of a token. -/
def Hex (token : String) : Prop := ∀ c ∈ token.toList, c ∈ "0123456789abcdef".toList

theorem hex_plain : ∀ c ∈ "0123456789abcdef".toList, Text.whiteSpace c = false ∧ c ≠ ';' := by
  have checked : ("0123456789abcdef".toList.all fun c => !Text.whiteSpace c && c != ';') = true := by decide
  intro c there
  simpa using List.all_eq_true.mp checked c there

theorem trimList_of_none {set : Char → Bool} {text : List Char} (none : ∀ c ∈ text, set c = false) :
    Text.trimList set text = text := by
  have front : text.dropWhile set = text := by
    cases text with
    | nil => rfl
    | cons c text => exact List.dropWhile_cons_of_neg (by simp [none c List.mem_cons_self])
  rw [Text.trimList,front,List.rdropWhile_eq_self_iff]
  intro nonempty
  simp [none _ (List.getLast_mem nonempty)]

theorem trimList_blank (text : List Char) : Text.trimList Text.whiteSpace (' ' :: text) = Text.trimList Text.whiteSpace text := by
  rw [Text.trimList,List.dropWhile_cons_of_pos (by decide),Text.trimList]

theorem cookiePairs_append (existing combined : String) :
    cookiePairs (existing ++ "; " ++ combined) = cookiePairs existing ++ cookiePairs (" " ++ combined) := by
  have parts : (existing ++ "; " ++ combined).toList = existing.toList ++ ';' :: (" " ++ combined).toList := by
    simp [String.toList_append]
  rw [cookiePairs,parts,List.splitOn_append_cons_self,List.filterMap_append,cookiePairs,cookiePairs]

/-- The session cookie of a pair of new ones is read as its token. -/
theorem cookiePairs_new (blank token csrf : String) (space : blank = "" ∨ blank = " ") (hex : Hex token) :
    ∃ rest, cookiePairs (blank ++ (sessionCookie ++ "=" ++ token ++ "; " ++ csrf)) = (sessionCookie,token) :: rest := by
  have plain : ∀ c ∈ "qd_session=".toList ++ token.toList, Text.whiteSpace c = false ∧ c ≠ ';' := by
    intro c there
    rcases List.mem_append.mp there with name | letter
    · have checked : ("qd_session=".toList.all fun c => !Text.whiteSpace c && c != ';') = true := by decide
      simpa using List.all_eq_true.mp checked c name
    · exact hex_plain c (hex c letter)
  have parts : (blank ++ (sessionCookie ++ "=" ++ token ++ "; " ++ csrf)).toList =
      (blank.toList ++ ("qd_session=".toList ++ token.toList)) ++ ';' :: (" " ++ csrf).toList := by
    simp [String.toList_append,sessionCookie]
  have whole : ';' ∉ blank.toList ++ ("qd_session=".toList ++ token.toList) := by
    intro there
    rcases List.mem_append.mp there with front | back
    · rcases space with rfl | rfl <;> simp at front
    · exact (plain _ back).2 rfl
  have trimmed : Text.trimList Text.whiteSpace (blank.toList ++ ("qd_session=".toList ++ token.toList)) =
      "qd_session=".toList ++ token.toList := by
    have self := trimList_of_none (fun c there => (plain c there).1)
    rcases space with rfl | rfl
    · exact self
    · exact (trimList_blank _).trans self
  have sides : Text.splitOnce (Text.trimBy Text.whiteSpace (String.ofList (blank.toList ++ ("qd_session=".toList ++ token.toList)))) "=" =
      some (sessionCookie,token) := by
    rw [Text.trimBy,String.toList_ofList,trimmed]
    have cut : Text.splitList "=".toList ("qd_session=".toList ++ token.toList) = some ("qd_session".toList,token.toList) := by
      simp [Text.splitList,List.isPrefixOf?]
    have same : (String.ofList ("qd_session=".toList ++ token.toList)).toList = "qd_session=".toList ++ token.toList :=
      String.toList_ofList
    rw [Text.splitOnce,same,cut]
    simp [sessionCookie]
  rw [cookiePairs,parts,List.splitOn_append_cons_self,List.splitOn_eq_singleton whole,List.singleton_append]
  simp only [List.filterMap_cons,sides]
  exact ⟨_,rfl⟩

/-- The handler takes the session cookie that stands first. -/
theorem cookie_inject (hex : Hex issued.sessionToken) :
    cookie (injectSessionCookies headers issued) sessionCookie =
      (cookie (leading headers) sessionCookie).or (some issued.sessionToken) := by
  have line : ∀ blank, blank = "" ∨ blank = " " → ((cookiePairs (blank ++ (sessionCookie ++ "=" ++ issued.sessionToken ++ "; " ++
      (csrfCookie ++ "=" ++ issued.csrfToken)))).findSome? fun pair => if pair.1 = sessionCookie then some pair.2 else none) =
        some issued.sessionToken := by
    intro blank space
    obtain ⟨rest,pairs⟩ := cookiePairs_new blank issued.sessionToken (csrfCookie ++ "=" ++ issued.csrfToken) space hex
    rw [pairs,List.findSome?_cons]
    simp
  have alone := line "" (.inl rfl)
  rw [String.empty_append] at alone
  unfold injectSessionCookies leading cookie
  cases headers.cookies.head?.join with
  | none => simpa using alone
  | some existing =>
    by_cases empty : existing = ""
    · have nothing : cookiePairs "" = [] := by decide
      subst empty
      simpa [nothing] using alone
    · have behind := line " " (.inr rfl)
      simp [empty,cookiePairs_append,List.findSome?_append,behind]

end Cookies

/-- The answer is a session of the user. -/
def OfUser (user : User) (answer : Option AuthenticatedSession) : Prop :=
  ∃ session, answer = some session ∧ session.user.id = user.id

/-- However its calls come out, the handler takes the request for the user's, or the
request fails. -/
def RunsAs (server : ProxyServer) (backend : Backend) (request : ProxyRequest) (p : Proxied) (user : User) : Prop :=
  ∀ reader result q, Routine.Runs (proxied server.texts backend)
    (server.headerAuthMiddleware request (server.authenticate reader)) p result q →
    result = none ∨ ∃ origin session, result = some (.ok (origin,session)) ∧ session.user.id = user.id

/-- The request comes from a trusted proxy, and its identity leads to the user. -/
structure ResolvesTo (server : ProxyServer) (request : ProxyRequest) (p : Proxied) (user : User) : Prop where
  trusted : request.trusted = true
  path : Text.stripPrefix request.path "/api/v1/auth" = none
  resolved : ∃ settings identity created refusal d, server.headerAuth = some settings ∧ request.identity = some identity ∧
    Routine.Runs (ExternalIdentity.directory server.texts)
      (ExternalIdentity.resolveExternalIdentity server.texts (ProxyServer.login settings identity)) p.directory
      (some ⟨some user,created,refusal⟩) d

/-- Sessions and tokens are of users that have been there. -/
structure Owned (site : Site) : Prop where
  sessions : ∀ key row, site.accounts.sessions key = some row → row.userId ≤ site.accounts.users.last
  apiTokens : ∀ key row, site.apiTokens key = some row → row.userId ≤ site.accounts.users.last

/-- A session can be issued, under a token that is new. -/
structure Issues (server : ProxyServer) (request : ProxyRequest) (p : Proxied) : Prop where
  positive : server.serving.sessionTtl ≠ 0
  bounded : p.site.accounts.clock + server.serving.sessionTtl ≤ 9223372036854775807
  hex : Hex server.serving.sessionToken
  uncached : p.site.sessions (server.serving.tokenHash server.serving.sessionToken) = none
  differs : ∀ token, cookie request.headers sessionCookie = some token →
    server.serving.tokenHash token ≠ server.serving.tokenHash server.serving.sessionToken

/-- A bearer token is the user's. Without one, the store and the cache agree on whether the
session cookie is the user's, and it is where the first `Cookie` line has one. -/
def Presents (config : SessionConfig) (site : Site) (headers : Headers) (user : User) : Prop :=
  match bearerToken headers with
  | some token => OfUser user (site.authenticateApiToken (config.tokenHash token))
  | none => ∀ token, cookie headers sessionCookie = some token →
      ((cookie (leading headers) sessionCookie).isSome →
        OfUser user (Site.authenticateSession site.accounts (config.tokenHash token))) ∧
      ∀ session, cachedSession config site (config.tokenHash token) = some session →
        (session.user.id = user.id ↔ OfUser user (Site.authenticateSession site.accounts (config.tokenHash token)))

section Serving

variable {server : ProxyServer} {backend : Backend} {user : User} {old : Option String} {p q : Proxied}

abbrev Runs {ρ : Type} (server : ProxyServer) (backend : Backend) (routine : ProxyCalls ρ) (p : Proxied) (result : Option ρ)
    (q : Proxied) : Prop := Routine.Runs (proxied server.texts backend) routine p result q

def newHash (server : ProxyServer) : String := server.serving.tokenHash server.serving.sessionToken

/-- There is a session of the user under the new token, and no other but that of the old
one may be gone. -/
structure Established (server : ProxyServer) (user : User) (old : Option String) (s t : Site) : Prop where
  users : t.accounts.users = s.accounts.users
  clock : t.accounts.clock = s.accounts.clock
  apiTokens : t.apiTokens = s.apiTokens
  instant : t.instant = s.instant
  issued : ∃ row session, t.accounts.sessions (newHash server) = some row ∧
    Site.sessionOf t.accounts row = some session ∧ session.user.id = user.id
  cache : ∀ key, t.sessions key = s.sessions key ∨ t.sessions key = none
  untouched : old = none → t.sessions = s.sessions ∧ ∀ key, key ≠ newHash server → t.accounts.sessions key = s.accounts.sessions key

theorem sessionOf_new {db : Accounts} {id : Int} {row : UserRow} {expiresAt : Int} (serving : Serving)
    (found : db.users.find id = some row) (inUse : row.disabled = false) (live : db.clock < expiresAt) :
    Site.sessionOf (withSession db serving id row expiresAt) (newSession serving id row expiresAt) =
      some ⟨userFromRow row,serving.tokenHash serving.csrfToken,expiresAt⟩ := by
  have looked : (withSession db serving id row expiresAt).users.find (newSession serving id row expiresAt).userId = some row :=
    found
  have later : (newSession serving id row expiresAt).expiresAt > (withSession db serving id row expiresAt).clock := live
  rw [Site.sessionOf,if_pos later,looked]
  exact if_pos ⟨rfl,inUse⟩

theorem withSession_stored {db : Accounts} (serving : Serving) (id : Int) (row : UserRow) (expiresAt : Int) {key : String}
    (differs : key ≠ serving.tokenHash serving.sessionToken) :
    Site.authenticateSession (withSession db serving id row expiresAt) key = Site.authenticateSession db key := by
  have same : (withSession db serving id row expiresAt).sessions key = db.sessions key := Function.update_of_ne differs _ _
  rw [Site.authenticateSession,same,Site.authenticateSession]
  rfl

theorem find_id {db : Accounts} {id : Int} {row : UserRow} (found : db.users.find id = some row) : row.id = id :=
  ((Table.find_eq_some _).mp found).2

theorem established_issue {issued : IssuedSession} {s t : Site}
    (run : Routine.Runs (site backend) (onAccounts (createSession server.serving user.id)) s (some issued) t) :
    Established server user none s t ∧ issued.sessionToken = server.serving.sessionToken := by
  obtain ⟨db,made,rfl⟩ := runs_onAccounts.mp run
  obtain ⟨row,expiresAt,found,inUse,live,rfl,rfl⟩ := runs_createSession made
  refine ⟨⟨rfl,rfl,rfl,rfl,?_,fun _ => .inl rfl,fun _ => ⟨rfl,fun key differs => Function.update_of_ne differs _ _⟩⟩,rfl⟩
  exact ⟨_,_,Function.update_self _ _ _,sessionOf_new server.serving found inUse live,find_id found⟩

theorem runs_invalidate {config : SessionConfig} {tokenHash : String} {result : Option Unit} {s t : Site}
    (run : Routine.Runs (site backend) (config.invalidate tokenHash) s result t) :
    t.accounts = s.accounts ∧ t.apiTokens = s.apiTokens ∧ t.instant = s.instant ∧
      ∀ key, t.sessions key = s.sessions key ∨ t.sessions key = none := by
  unfold SessionConfig.invalidate at run
  split at run
  · rcases run with ⟨-,rfl⟩ | ⟨-,rfl⟩
    · refine ⟨rfl,rfl,rfl,fun key => ?_⟩
      by_cases dropped : key ∈ [tokenHash]
      · exact .inr (if_pos dropped)
      · exact .inl (if_neg dropped)
    · exact ⟨rfl,rfl,rfl,fun _ => .inl rfl⟩
  · obtain ⟨-,rfl⟩ := run
    exact ⟨rfl,rfl,rfl,fun _ => .inl rfl⟩

theorem runs_revokeSession {config : SessionConfig} {token : String} {result : Option Bool} {s t : Site}
    (run : Routine.Runs (site backend) (config.revokeSession token) s result t) :
    t.accounts.users = s.accounts.users ∧ t.accounts.clock = s.accounts.clock ∧ t.apiTokens = s.apiTokens ∧
      t.instant = s.instant ∧ ∀ key, t.sessions key = s.sessions key ∨ t.sessions key = none := by
  rcases Routine.runs_ask.mp run with run | ⟨-,rfl⟩
  · rcases Routine.runs_bind.mp run with ⟨_,_,run,-,rfl⟩ | ⟨run,-⟩
    · obtain ⟨accounts,apiTokens,instant,cache⟩ := runs_invalidate run
      exact ⟨by rw [accounts]; rfl,by rw [accounts]; rfl,apiTokens,instant,cache⟩
    · obtain ⟨accounts,apiTokens,instant,cache⟩ := runs_invalidate run
      exact ⟨by rw [accounts]; rfl,by rw [accounts]; rfl,apiTokens,instant,cache⟩
  · exact ⟨rfl,rfl,rfl,rfl,fun _ => .inl rfl⟩

theorem runs_establish {issued : IssuedSession}
    (run : Runs server backend (server.establishHeaderSession user old) p (some issued) q) :
    Established server user old p.site q.site ∧ issued.sessionToken = server.serving.sessionToken := by
  cases old with
  | none =>
    obtain ⟨t,made,rfl⟩ := runs_onSite.mp run
    exact established_issue made
  | some token =>
    rcases Routine.runs_bind.mp run with ⟨_,u,caught,rest⟩ | ⟨-,⟨⟩⟩
    obtain ⟨_,⟨⟩,onSite⟩ := Routine.runs_caught.mp caught
    obtain ⟨s,revoked,rfl⟩ := runs_onSite.mp onSite
    obtain ⟨t,issue,rfl⟩ := runs_onSite.mp rest
    obtain ⟨users,clock,apiTokens,instant,cache⟩ := runs_revokeSession revoked
    obtain ⟨made,same⟩ := established_issue issue
    refine ⟨⟨made.users.trans users,made.clock.trans clock,made.apiTokens.trans apiTokens,made.instant.trans instant,
      made.issued,fun key => ?_,by rintro ⟨⟩⟩,same⟩
    rcases made.cache key with kept | dropped
    · exact (cache key).imp kept.trans kept.trans
    · exact .inr dropped

theorem runs_recordAudit {action : String} {result : Option Unit} (run : Runs server backend (ProxyServer.recordAudit action) p result q) :
    q = p ∧ result = some () := by
  rcases Routine.runs_attempt.mp run with ⟨rfl,rfl⟩ | ⟨rfl,rfl⟩
  · exact ⟨rfl,rfl⟩
  · exact ⟨rfl,rfl⟩

/-- The handler serves the request as it came where the session is the user's, and with the
cookies of a new session otherwise. -/
theorem runs_serveAs {created : Bool} {existing : Option (AuthOrigin × AuthenticatedSession)} {headers : Headers}
    {next : Headers → ProxyCalls Authentication} {result : Option Authentication}
    (run : Runs server backend (server.serveAs user created existing headers next) p result q) :
    (∃ session, existing = some session ∧ session.2.user.id = user.id ∧ Runs server backend (next headers) p result q) ∨
      (∀ session, existing = some session → session.2.user.id ≠ user.id) ∧ (result = none ∨ ∃ issued u v,
        Runs server backend (server.establishHeaderSession user (existing.map fun session => session.1.token)) p (some issued) u ∧
        Runs server backend (next (injectSessionCookies headers issued)) u result v) := by
  unfold ProxyServer.serveAs at run
  split at run
  · rename_i reused
    cases existing with
    | none => simp at reused
    | some session => exact .inl ⟨session,rfl,by simpa using reused,run⟩
  · rename_i other
    refine .inr ⟨?_,?_⟩
    · rintro session rfl same
      simp [same] at other
    rcases Routine.runs_bind.mp run with ⟨issued,u,made,run⟩ | ⟨-,rfl⟩
    · rcases Routine.runs_bind.mp run with ⟨response,v,caught,run⟩ | ⟨-,rfl⟩
      · obtain ⟨_,⟨⟩,served⟩ := Routine.runs_caught.mp caught
        rcases Routine.runs_bind.mp run with ⟨_,w,audited,run⟩ | ⟨-,rfl⟩
        · refine .inr ⟨issued,u,v,made,?_⟩
          cases response with
          | none =>
            obtain ⟨rfl,-⟩ := run
            exact served
          | some answer =>
            obtain ⟨rfl,-⟩ := run
            exact served
        · exact .inl rfl
      · exact .inl rfl
    · exact .inl rfl

theorem requireSession_keeps {config : SessionConfig} {headers : Headers} {result : Option Authentication} {s t : Site}
    (run : Routine.Runs (site backend) (config.requireSession headers) s result t) :
    t.accounts = s.accounts ∧ t.apiTokens = s.apiTokens ∧ t.instant = s.instant := by
  have read : Routine.Runs (site backend) (Reader.cached.requireSession config headers) s result t := run
  cases bearer : bearerToken headers with
  | some token =>
    obtain ⟨rfl,-⟩ := runs_bearer bearer read
    exact ⟨rfl,rfl,rfl⟩
  | none =>
    cases given : cookie headers sessionCookie with
    | none =>
      obtain ⟨rfl,-⟩ := runs_anonymous bearer given read
      exact ⟨rfl,rfl,rfl⟩
    | some token =>
      obtain ⟨looked,-⟩ := runs_cookie bearer given read
      exact ⟨looked.accounts,looked.apiTokens,looked.instant⟩

/-- The sessions and the tokens that are good stay good when an identity is resolved. -/
structure Steady (s t : Site) : Prop where
  stored : ∀ key, Site.authenticateSession t.accounts key = Site.authenticateSession s.accounts key
  apiTokens : ∀ key, t.authenticateApiToken key = s.authenticateApiToken key
  clock : t.accounts.clock = s.accounts.clock
  instant : t.instant = s.instant

theorem steady_resolve {s : Site} {d : ExternalIdentity.Directory} (owned : Owned p.site) (accounts : s.accounts = p.site.accounts)
    (apiTokens : s.apiTokens = p.site.apiTokens) (instant : s.instant = p.site.instant) (enters : Enters user p.directory d) :
    Steady p.site ((p.withSite s).withDirectory d).site := by
  have clock : d.clock = p.site.accounts.clock := enters.clock
  constructor
  · intro key
    have rows : ((p.withSite s).withDirectory d).site.accounts.sessions key = p.site.accounts.sessions key :=
      congrFun (congrArg Accounts.sessions accounts) key
    rw [Site.authenticateSession,rows,Site.authenticateSession]
    cases found : p.site.accounts.sessions key with
    | none => rfl
    | some row =>
      have same : ((p.withSite s).withDirectory d).site.accounts.users.find row.userId = p.site.accounts.users.find row.userId :=
        enters.kept row.userId (owned.sessions key row found)
      have now : ((p.withSite s).withDirectory d).site.accounts.clock = p.site.accounts.clock := clock
      simp only [Option.bind_some,Site.sessionOf,same,now]
  · intro key
    have rows : ((p.withSite s).withDirectory d).site.apiTokens key = p.site.apiTokens key :=
      congrFun apiTokens key
    rw [Site.authenticateApiToken,rows,Site.authenticateApiToken]
    cases found : p.site.apiTokens key with
    | none => rfl
    | some row =>
      have same : ((p.withSite s).withDirectory d).site.accounts.users.find row.userId = p.site.accounts.users.find row.userId :=
        enters.kept row.userId (owned.apiTokens key row found)
      have now : ((p.withSite s).withDirectory d).site.accounts.clock = p.site.accounts.clock := clock
      simp only [same,now]
  · exact clock
  · exact instant

theorem cachedSession_congr {config : SessionConfig} {s t : Site} {key : String} (same : t.sessions key = s.sessions key)
    (clock : t.accounts.clock = s.accounts.clock) (instant : t.instant = s.instant) :
    cachedSession config t key = cachedSession config s key := by
  simp only [cachedSession,Site.entry,same,clock,instant]

theorem middleware_trusted {request : ProxyRequest} {settings : HeaderAuthConfig} {identity : HeaderIdentity}
    {next : Headers → ProxyCalls Authentication} (trusted : request.trusted = true)
    (path : Text.stripPrefix request.path "/api/v1/auth" = none) (configured : server.headerAuth = some settings)
    (given : request.identity = some identity) :
    server.headerAuthMiddleware request next = server.serveTrusted settings identity request.headers next := by
  simp only [ProxyServer.headerAuthMiddleware,configured,path,given,trusted,Option.isSome_none,Bool.false_eq_true,if_false,if_true]

/-- A request that resolves to the user is served as the user. -/
theorem runs_middleware {request : ProxyRequest} {next : Headers → ProxyCalls Authentication} {result : Option Authentication}
    (resolves : ResolvesTo server request p user)
    (run : Runs server backend (server.headerAuthMiddleware request next) p result q) :
    result = none ∨ ∃ found s created d,
      Routine.Runs (site backend) (server.sessions.requireSession request.headers) p.site found s ∧
      Enters user p.directory d ∧
      Runs server backend (server.serveAs user created (found.bind Except.toOption) request.headers next)
        ((p.withSite s).withDirectory d) result q := by
  obtain ⟨settings,identity,created,refusal,d,configured,given,resolved⟩ := resolves.resolved
  rw [middleware_trusted resolves.trusted resolves.path configured given] at run
  rcases Routine.runs_bind.mp run with ⟨found,u,caught,run⟩ | ⟨-,rfl⟩
  · obtain ⟨_,⟨⟩,asked⟩ := Routine.runs_caught.mp caught
    obtain ⟨s,looked,rfl⟩ := runs_onSite.mp asked
    rcases Routine.runs_bind.mp run with ⟨resolution,v,resolving,run⟩ | ⟨-,rfl⟩
    · obtain ⟨d',entered,rfl⟩ := runs_onDirectory.mp resolving
      have same : (p.withSite s).directory = p.directory := by
        rw [Proxied.directory,Proxied.directory,Proxied.withSite,(requireSession_keeps looked).1]
      rw [same] at entered
      obtain ⟨rfl,rfl⟩ := (strict_resolve _).unique resolved entered
      exact .inr ⟨found,s,created,d,looked,runs_resolve resolved,run⟩
    · exact .inl rfl
  · exact .inl rfl

/-- What a run of the middleware may come to may be put together from its parts. -/
theorem middleware_runs (backend : Backend) {request : ProxyRequest} (next : Headers → ProxyCalls Authentication)
    (resolves : ResolvesTo server request p user) : ∃ created d, Enters user p.directory d ∧
      ∀ found result q, Routine.Runs (site backend) (server.sessions.requireSession request.headers) p.site found p.site →
        Runs server backend (server.serveAs user created (found.bind Except.toOption) request.headers next)
          (p.withDirectory d) result q →
        Runs server backend (server.headerAuthMiddleware request next) p result q := by
  obtain ⟨settings,identity,created,refusal,d,configured,given,resolved⟩ := resolves.resolved
  refine ⟨created,d,runs_resolve resolved,fun found result q looked served => ?_⟩
  rw [middleware_trusted resolves.trusted resolves.path configured given]
  refine Routine.runs_then (Routine.runs_caught.mpr ⟨found,rfl,runs_onSite.mpr ⟨p.site,looked,rfl⟩⟩) ?_
  exact Routine.runs_then (runs_onDirectory.mpr ⟨d,resolved,rfl⟩) served

/-- Where no session was found, one is issued, and the handler may be run. -/
theorem serveAs_runs (server : ProxyServer) (backend : Backend) (p : Proxied) (created : Bool) (headers : Headers)
    (next : Headers → ProxyCalls Authentication) (result : Option Authentication) {row : UserRow} (found : p.site.accounts.users.find user.id = some row)
    (inUse : row.disabled = false) (positive : server.serving.sessionTtl ≠ 0)
    (bounded : p.site.accounts.clock + server.serving.sessionTtl ≤ 9223372036854775807)
    (rest : ∀ expiresAt, ∃ q, Runs server backend
      (next (injectSessionCookies headers ⟨server.serving.sessionToken,server.serving.csrfToken,expiresAt⟩))
      (p.withSite { p.site with accounts := withSession p.site.accounts server.serving user.id row expiresAt }) result q) :
    ∃ q, Runs server backend (server.serveAs user created none headers next) p result q := by
  obtain ⟨expiresAt,made⟩ := createSession_runs backend found inUse positive bounded
  obtain ⟨q,served⟩ := rest expiresAt
  refine ⟨q,?_⟩
  refine Routine.runs_then (runs_onSite.mpr ⟨_,runs_onAccounts.mpr ⟨_,made,rfl⟩,rfl⟩) ?_
  refine Routine.runs_then (Routine.runs_caught.mpr ⟨result,rfl,served⟩) ?_
  refine Routine.runs_then (Routine.runs_attempt.mpr (.inr ⟨rfl,rfl⟩)) ?_
  cases result with
  | none => exact ⟨rfl,rfl⟩
  | some answer => exact ⟨rfl,rfl⟩

theorem serveAs_reuses {created : Bool} {origin : AuthOrigin} {session : AuthenticatedSession} {headers : Headers}
    {next : Headers → ProxyCalls Authentication} (same : session.user.id = user.id) :
    server.serveAs user created (some (origin,session)) headers next = next headers := by
  simp [ProxyServer.serveAs,same]

theorem bearerToken_inject (headers : Headers) (issued : IssuedSession) :
    bearerToken (injectSessionCookies headers issued) = bearerToken headers := rfl

/-- The first line is read first. -/
theorem cookie_leading {headers : Headers} {name token : String} (leads : cookie (leading headers) name = some token) :
    cookie headers name = some token := by
  unfold cookie leading at leads
  unfold cookie
  cases lines : headers.cookies with
  | nil => simp [lines] at leads
  | cons first rest =>
    cases first with
    | none => simp [lines] at leads
    | some line =>
      simp only [lines,List.head?_cons,Option.join_some,List.filterMap_cons,id_eq,List.filterMap_nil,List.flatMap_cons,
        List.flatMap_nil,List.append_nil] at leads
      simp only [List.filterMap_cons,id_eq,List.flatMap_cons,List.findSome?_append,leads,Option.some_or]

variable {request : ProxyRequest} {reader : Reader} {headers : Headers} {result : Option Authentication} {token : String}

theorem admitted {origin : AuthOrigin} {answer : Option AuthenticatedSession} (own : OfUser user answer) :
    ∃ origin' session, some (admission origin answer) = some (.ok (origin',session)) ∧ session.user.id = user.id := by
  obtain ⟨session,rfl,same⟩ := own
  exact ⟨origin,session,rfl,same⟩

theorem ofUser_admitted {origin : AuthOrigin} {answer : Option AuthenticatedSession}
    (served : some (admission origin answer) = none ∨
      ∃ origin' session, some (admission origin answer) = some (.ok (origin',session)) ∧ session.user.id = user.id) :
    OfUser user answer := by
  rcases served with ⟨⟨⟩⟩ | ⟨_,session,same,own⟩
  cases answer with
  | none => cases same
  | some _ =>
    cases same
    exact ⟨session,rfl,own⟩

theorem admitted_bearer (bearer : bearerToken headers = some token)
    (own : OfUser user (p.site.authenticateApiToken (server.sessions.tokenHash token)))
    (run : Runs server backend (server.authenticate reader headers) p result q) :
    result = none ∨ ∃ origin session, result = some (.ok (origin,session)) ∧ session.user.id = user.id := by
  obtain ⟨s,read,-⟩ := runs_onSite.mp run
  obtain ⟨-,rfl | rfl⟩ := runs_bearer bearer read
  · exact .inl rfl
  · exact .inr (admitted own)

theorem admitted_cookie (bearer : bearerToken headers = none) (given : cookie headers sessionCookie = some token)
    (own : OfUser user (Site.authenticateSession p.site.accounts (server.sessions.tokenHash token)))
    (kept : ∀ session, cachedSession server.sessions p.site (server.sessions.tokenHash token) = some session →
      session.user.id = user.id)
    (run : Runs server backend (server.authenticate reader headers) p result q) :
    result = none ∨ ∃ origin session, result = some (.ok (origin,session)) ∧ session.user.id = user.id := by
  obtain ⟨s,read,-⟩ := runs_onSite.mp run
  obtain ⟨-,rfl | ⟨answer,rfl,stored | ⟨some,cached⟩⟩⟩ := runs_cookie bearer given read
  · exact .inl rfl
  · subst stored
    exact .inr (admitted own)
  · obtain ⟨session,rfl⟩ := Option.isSome_iff_exists.mp some
    exact .inr (admitted ⟨session,rfl,kept session cached.symm⟩)

theorem cachedSession_none {config : SessionConfig} {s : Site} {key : String} (absent : s.sessions key = none) :
    cachedSession config s key = none := by
  simp [cachedSession,Site.entry,absent]

theorem established_stored {old : Option String} {s t : Site} (made : Established server user old s t) (without : old = none)
    {key : String} (differs : key ≠ newHash server) :
    Site.authenticateSession t.accounts key = Site.authenticateSession s.accounts key := by
  have same : Site.sessionOf t.accounts = Site.sessionOf s.accounts := by
    funext row
    simp only [Site.sessionOf,made.users,made.clock]
  rw [Site.authenticateSession,(made.untouched without).2 key differs,same,Site.authenticateSession]

theorem established_apiToken {old : Option String} {s t : Site} (made : Established server user old s t) (key : String) :
    t.authenticateApiToken key = s.authenticateApiToken key := by
  simp only [Site.authenticateApiToken,made.apiTokens,made.users,made.clock]

/-- A new session that is read first is the user's. -/
theorem admitted_new {issued : IssuedSession} {old : Option String} {s : Site} (issues : Issues server request p)
    (bearer : bearerToken request.headers = none) (behind : cookie (leading request.headers) sessionCookie = none)
    (made : Established server user old s q.site) (given : issued.sessionToken = server.serving.sessionToken)
    (uncached : s.sessions (newHash server) = none) {r : Proxied}
    (run : Runs server backend (server.authenticate reader (injectSessionCookies request.headers issued)) q result r) :
    result = none ∨ ∃ origin session, result = some (.ok (origin,session)) ∧ session.user.id = user.id := by
  have hex : Hex issued.sessionToken := by
    rw [given]
    exact issues.hex
  have named : cookie (injectSessionCookies request.headers issued) sessionCookie = some server.serving.sessionToken := by
    rw [cookie_inject hex,behind,given,Option.none_or]
  have absent : q.site.sessions (newHash server) = none := (made.cache _).elim (fun same => same.trans uncached) id
  obtain ⟨row,session,there,good,own⟩ := made.issued
  refine admitted_cookie ((bearerToken_inject _ issued).trans bearer) named ⟨session,?_,own⟩ ?_ run
  · change (q.site.accounts.sessions (newHash server)).bind (Site.sessionOf q.site.accounts) = some session
    rw [there]
    exact good
  · intro session cached
    change cachedSession server.sessions q.site (newHash server) = some session at cached
    rw [cachedSession_none absent] at cached
    cases cached

/-- Without a bearer token, the store may not be reached. -/
theorem requireSession_fails {config : SessionConfig} {s : Site}
    (presented : (bearerToken headers).isSome ∨ (cookie headers sessionCookie).isSome) :
    Routine.Runs (site backend) (config.requireSession headers) s none s := by
  unfold SessionConfig.requireSession
  split
  · exact Routine.runs_ask.mpr (.inr ⟨rfl,rfl⟩)
  · rename_i without
    split
    · rename_i unnamed
      simp [without,unnamed] at presented
    · exact Routine.runs_then (lookUp_runs _).2 (Routine.runs_ask.mpr (.inr ⟨rfl,rfl⟩))

theorem served_as (owned : Owned p.site) (issues : Issues server request p) (resolves : ResolvesTo server request p user)
    (presents : Presents server.sessions p.site request.headers user) : RunsAs server backend request p user := by
  intro reader result q run
  rcases runs_middleware resolves run with rfl | ⟨found,s,created,d,looked,enters,served⟩
  · exact .inl rfl
  obtain ⟨accounts,apiTokens,instant⟩ := requireSession_keeps looked
  have steady := steady_resolve owned accounts apiTokens instant enters
  have read : Routine.Runs (site backend) (Reader.cached.requireSession server.sessions request.headers) p.site found s := looked
  unfold Presents at presents
  cases bearer : bearerToken request.headers with
  | some token =>
    simp only [bearer] at presents
    rw [← steady.apiTokens] at presents
    rcases runs_serveAs served with ⟨_,-,-,served⟩ | ⟨-,rfl | ⟨issued,u,v,made,served⟩⟩
    · exact admitted_bearer bearer presents served
    · exact .inl rfl
    · rw [← established_apiToken (runs_establish made).1] at presents
      exact admitted_bearer ((bearerToken_inject _ issued).trans bearer) presents served
  | none =>
    simp only [bearer] at presents
    cases given : cookie request.headers sessionCookie with
    | none =>
      obtain ⟨rfl,rfl⟩ := runs_anonymous bearer given read
      have behind : cookie (leading request.headers) sessionCookie = none := by
        cases leads : cookie (leading request.headers) sessionCookie with
        | none => rfl
        | some token =>
          rw [cookie_leading leads] at given
          cases given
      rcases runs_serveAs served with ⟨_,⟨⟩,-⟩ | ⟨-,rfl | ⟨issued,u,v,made,served⟩⟩
      · exact .inl rfl
      · obtain ⟨made,same⟩ := runs_establish made
        exact admitted_new issues bearer behind made same issues.uncached served
    | some token =>
      obtain ⟨leads,agree⟩ := presents token given
      obtain ⟨looked,outcome⟩ := runs_cookie bearer given read
      have differs := issues.differs token given
      generalize hashed : server.sessions.tokenHash token = key at leads agree looked outcome
      have fresh : key ≠ newHash server := hashed ▸ differs
      have stored := steady.stored key
      have cached : cachedSession server.sessions ((p.withSite s).withDirectory d).site key = cachedSession server.sessions s key :=
        cachedSession_congr rfl (steady.clock.trans (congrArg Accounts.clock accounts).symm) rfl
      -- Whatever is read of the old session is the user's once the store says so.
      have kept : OfUser user (Site.authenticateSession p.site.accounts key) → ∀ session,
          cachedSession server.sessions s key = some session → session.user.id = user.id := by
        rintro own session there
        rcases looked.own with same | same
        · exact (agree session (same.symm.trans there)).mpr own
        · obtain ⟨_,good,mine⟩ := own
          rw [there,good] at same
          cases same
          exact mine
      -- A session that was found is one that the store or the cache knows.
      have known : ∀ session, found.bind Except.toOption = some session →
          (session.2.user.id = user.id ↔ OfUser user (Site.authenticateSession p.site.accounts key)) := by
        intro session existing
        rcases outcome with rfl | ⟨answer,rfl,source⟩
        · cases existing
        cases answer with
        | none => cases existing
        | some answer =>
          cases existing
          rcases source with store | ⟨-,cache⟩
          · rw [← store]
            exact ⟨fun mine => ⟨answer,rfl,mine⟩,fun ⟨_,same,mine⟩ => by cases same; exact mine⟩
          · exact agree answer cache.symm
      rcases runs_serveAs served with ⟨session,existing,same,served⟩ | ⟨other,rfl | ⟨issued,u,v,made,served⟩⟩
      · have own := (known session existing).mp same
        refine admitted_cookie bearer given ?_ ?_ served
        · rw [hashed,stored]
          exact own
        · rw [hashed,cached]
          exact kept own
      · exact .inl rfl
      · obtain ⟨made,new⟩ := runs_establish made
        cases behind : cookie (leading request.headers) sessionCookie with
        | none =>
          have uncached : s.sessions (newHash server) = none := (looked.others _ fresh.symm).trans issues.uncached
          exact admitted_new issues bearer behind made new uncached served
        | some first =>
          cases (cookie_leading behind).symm.trans given
          have own : OfUser user (Site.authenticateSession p.site.accounts key) := leads (by rw [behind]; rfl)
          have without : (found.bind Except.toOption).map (fun session => session.1.token) = none := by
            cases existing : found.bind Except.toOption with
            | none => rfl
            | some session => exact absurd ((known session existing).mpr own) (other session existing)
          have hex : Hex issued.sessionToken := new ▸ issues.hex
          have named : cookie (injectSessionCookies request.headers issued) sessionCookie = some token := by
            rw [cookie_inject hex,behind,Option.some_or]
          refine admitted_cookie ((bearerToken_inject _ issued).trans bearer) named ?_ ?_ served
          · rw [hashed,established_stored made without fresh,stored]
            exact own
          · have same := (made.untouched without).1
            rw [hashed,cachedSession_congr (congrFun same key) made.clock made.instant,cached]
            exact kept own

/-- The handler takes the request for the user's exactly where the session presented with it
is the user's, or is none that the handler would take. -/
theorem served_as_iff (server : ProxyServer) (backend : Backend) (request : ProxyRequest) (p : Proxied) (user : User)
    (owned : Owned p.site) (issues : Issues server request p) (resolves : ResolvesTo server request p user) :
    RunsAs server backend request p user ↔ Presents server.sessions p.site request.headers user := by
  refine ⟨fun runsAs => ?_,served_as owned issues resolves⟩
  obtain ⟨created,d,enters,combine⟩ := middleware_runs backend (server.authenticate .cached) resolves
  have steady : Steady p.site (p.withDirectory d).site := steady_resolve owned rfl rfl rfl enters
  obtain ⟨row,found,rfl,inUse⟩ := enters.found
  have bounded : (p.withDirectory d).site.accounts.clock + server.serving.sessionTtl ≤ 9223372036854775807 := by
    rw [steady.clock]
    exact issues.bounded
  have issue := fun result => serveAs_runs server backend (p.withDirectory d) created request.headers
    (server.authenticate .cached) result found inUse issues.positive bounded
  unfold Presents
  cases bearer : bearerToken request.headers with
  | some token =>
    have fails : Routine.Runs (site backend) (server.sessions.requireSession request.headers) p.site none p.site :=
      requireSession_fails (.inl (by rw [bearer]; rfl))
    obtain ⟨q,served⟩ := issue (some (admission ⟨token,true⟩
      ((p.withDirectory d).site.authenticateApiToken (server.sessions.tokenHash token)))) fun expiresAt =>
        ⟨_,runs_onSite.mpr ⟨_,bearer_runs bearer,rfl⟩⟩
    have own := ofUser_admitted (runsAs .cached _ _ (combine none _ _ fails served))
    rw [steady.apiTokens] at own
    exact own
  | none =>
    intro token given
    have asked : ∀ headers, bearerToken headers = none → cookie headers sessionCookie = some token →
        server.sessions.requireSession headers = server.sessions.requireCookieSession token := by
      intro headers without named
      simp only [SessionConfig.requireSession,without,named]
    have stored : Routine.Runs (site backend) (server.sessions.requireCookieSession token) p.site _ p.site :=
      requireCookieSession_runs_stored token
    have handler : ∀ headers, bearerToken headers = none → cookie headers sessionCookie = some token →
        ∀ {q : Proxied} {result}, Routine.Runs (site backend) (server.sessions.requireCookieSession token) q.site result q.site →
          Runs server backend (server.authenticate .cached headers) q result q := by
      intro headers without named q result run
      refine runs_onSite.mpr ⟨q.site,?_,rfl⟩
      change Routine.Runs (site backend) (server.sessions.requireSession headers) q.site result q.site
      rw [asked _ without named]
      exact run
    constructor
    · intro leads
      obtain ⟨first,behind⟩ := Option.isSome_iff_exists.mp leads
      cases (cookie_leading behind).symm.trans given
      have fails : Routine.Runs (site backend) (server.sessions.requireSession request.headers) p.site none p.site :=
        requireSession_fails (.inr (by rw [given]; rfl))
      have read : ∀ expiresAt, Routine.Runs (site backend) (server.sessions.requireCookieSession token)
          { (p.withDirectory d).site with
            accounts := withSession (p.withDirectory d).site.accounts server.serving row.id row expiresAt }
          (some (admission ⟨token,false⟩
            (Site.authenticateSession (p.withDirectory d).site.accounts (server.sessions.tokenHash token))))
          { (p.withDirectory d).site with
            accounts := withSession (p.withDirectory d).site.accounts server.serving row.id row expiresAt } := by
        intro expiresAt
        have differs : server.sessions.tokenHash token ≠ server.serving.tokenHash server.serving.sessionToken :=
          issues.differs token given
        rw [← withSession_stored server.serving row.id row expiresAt differs]
        exact requireCookieSession_runs_stored token
      obtain ⟨q,served⟩ := issue _ fun expiresAt => ⟨_,handler _ ((bearerToken_inject _ _).trans bearer)
        (by rw [cookie_inject issues.hex,behind,Option.some_or]) (read expiresAt)⟩
      have own := ofUser_admitted (runsAs .cached _ _ (combine none _ _ fails served))
      rw [steady.stored] at own
      exact own
    · intro session kept
      have found : ∀ {answer}, Routine.Runs (site backend) (server.sessions.requireCookieSession token) p.site
          (some (.ok (⟨token,false⟩,answer))) p.site → answer.user.id = (userFromRow row).id → ∀ {result},
          Routine.Runs (site backend) (server.sessions.requireCookieSession token) (p.withDirectory d).site result
            (p.withDirectory d).site →
          result = none ∨ ∃ origin session, result = some (.ok (origin,session)) ∧ session.user.id = (userFromRow row).id := by
        intro answer read same result served
        refine runsAs .cached result (p.withDirectory d) (combine (some (.ok (⟨token,false⟩,answer))) _ _ ?_ ?_)
        · rw [asked _ bearer given]
          exact read
        · change Runs server backend (server.serveAs (userFromRow row) created (some (⟨token,false⟩,answer)) request.headers
            (server.authenticate .cached)) (p.withDirectory d) result (p.withDirectory d)
          rw [serveAs_reuses same]
          exact handler _ bearer given served
      constructor
      · intro mine
        have own := ofUser_admitted (found (requireCookieSession_runs_cached kept) mine (requireCookieSession_runs_stored token))
        rw [steady.stored] at own
        exact own
      · rintro ⟨answer,good,mine⟩
        rw [good] at stored
        have same : (p.withDirectory d).site.sessions (server.sessions.tokenHash token) =
          p.site.sessions (server.sessions.tokenHash token) := rfl
        have cached := (cachedSession_congr same steady.clock steady.instant).trans kept
        rcases found stored mine (requireCookieSession_runs_cached cached) with ⟨⟨⟩⟩ | ⟨_,_,⟨⟩,own⟩
        exact own

end Serving

def alice : UserRow := ⟨1,"alice","hash","user",false,0,none,true,none,false⟩

def aliceRow (id : Int) : UserRow := { alice with id }

theorem aliceRow_id (id : Int) : (aliceRow id).id = id := rfl

/-- One user, who has logged in through the proxy before. -/
def aliceSite : Proxied where
  site := ⟨⟨0,Table.empty.insert aliceRow aliceRow_id,fun _ => none,fun _ => none,fun _ => none,fun _ => none,.empty⟩,
    fun _ => none,fun _ => none,fun _ => none,0⟩
  identities := Table.empty.insert (ExternalIdentity.identityRow 1 ("header","header","alice") none 0)
    (ExternalIdentity.identityRow_id 1 ("header","header","alice") none 0)

def proxyServer : ProxyServer :=
  ⟨false,some ⟨true,true,"user",[]⟩,⟨true,id,3600,"0f","0c"⟩,ExternalIdentity.exactTexts⟩

def aliceRequest (cookies : List (Option String)) : ProxyRequest :=
  ⟨⟨none,cookies⟩,"/api/v1/tasks",some ⟨"alice",none,[]⟩,true⟩

def plainBackend : Backend :=
  ⟨fun stored given => stored = given,fun password encodedHash => password = encodedHash,fun _ _ => none⟩

theorem aliceRequest_resolves (cookies : List (Option String)) :
    ResolvesTo proxyServer (aliceRequest cookies) aliceSite (userFromRow alice) :=
  ⟨rfl,(by decide : Text.stripPrefix "/api/v1/tasks" "/api/v1/auth" = none),_,_,false,none,_,rfl,rfl,.inl (.inl (.inl ⟨rfl,rfl⟩))⟩

/-- Without a cookie, the first request is served. -/
theorem served_as_first : RunsAs proxyServer plainBackend (aliceRequest []) aliceSite (userFromRow alice) := by
  refine (served_as_iff proxyServer plainBackend (aliceRequest []) aliceSite (userFromRow alice) ?_ ?_
    (aliceRequest_resolves [])).mpr ?_
  · exact ⟨by rintro _ _ ⟨⟩,by rintro _ _ ⟨⟩⟩
  · have letters : ∀ c ∈ "0f".toList, c ∈ "0123456789abcdef".toList := by
      have checked : ("0f".toList.all fun c => "0123456789abcdef".toList.contains c) = true := by decide
      intro c there
      exact List.contains_iff_mem.mp (List.all_eq_true.mp checked c there)
    exact ⟨by decide,by decide,letters,rfl,by rintro _ ⟨⟩⟩
  · rintro _ ⟨⟩

/-- A cookie of a session that has gone stays in front of the new one. -/
theorem refused_for_stale : ResolvesTo proxyServer (aliceRequest [some "qd_session=old"]) aliceSite (userFromRow alice) ∧
    ¬RunsAs proxyServer plainBackend (aliceRequest [some "qd_session=old"]) aliceSite (userFromRow alice) := by
  refine ⟨aliceRequest_resolves _,fun runsAs => ?_⟩
  have refused := runsAs .cached (some (.error unauthorized)) _
    (.inl (.inl (.inl (.inl (.inl (.inl (.inl (.inl (.inl ⟨rfl,rfl⟩)))))))))
  rcases refused with ⟨⟨⟩⟩ | ⟨_,_,⟨⟩,_⟩

end Qdrust.Account.HeaderAuth
