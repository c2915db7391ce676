import Qdrust.Account.Model
import Qdrust.Library.Text

/-! Who a request is from: the headers, the session table and the cache before it, and
the changes that end or rewrite sessions. Each statement and each cache command is one
call. -/
namespace Qdrust.Account
open Library Concurrent

structure AuthenticatedSession where
  user : User
  csrfTokenHash : String
  expiresAt : Int
deriving DecidableEq

structure ApiTokenRow where
  userId : Int
  expiresAt : Option Int
deriving DecidableEq

/-- A key of the cache with the instant at which it is dropped. -/
structure CacheEntry where
  session : AuthenticatedSession
  deadline : Nat

/-- The token hashes of one user that were put into the cache. -/
structure SessionIndex where
  members : List String
  deadline : Option Nat

/-- The tables, the cache and its clock. -/
structure Site where
  accounts : Accounts
  apiTokens : Keyed ApiTokenRow
  sessions : Keyed CacheEntry
  indexes : Int → Option SessionIndex
  instant : Nat

structure SessionConfig where
  cached : Bool
  sessionTtl : Nat
  tokenHash : String → String

/-- Seconds an answer stays in the cache. -/
def SessionConfig.cacheTtl (config : SessionConfig) : Nat := max (min config.sessionTtl (86400 * 7)) 1

namespace Site

def entry (site : Site) (tokenHash : String) : Option CacheEntry :=
  (site.sessions tokenHash).filter fun entry => site.instant < entry.deadline

def index (site : Site) (userId : Int) : Option SessionIndex :=
  (site.indexes userId).filter fun index => index.deadline.all fun deadline => decide (site.instant < deadline)

/-- The session of a stored row, where it is still good. -/
def sessionOf (db : Accounts) (row : SessionRow) : Option AuthenticatedSession :=
  if row.expiresAt > db.clock then
    match db.users.find row.userId with
    | some user =>
      if row.sessionVersion = user.sessionVersion ∧ user.disabled = false then
        some ⟨userFromRow user,row.csrfTokenHash,row.expiresAt⟩
      else none
    | none => none
  else none

def authenticateSession (db : Accounts) (tokenHash : String) : Option AuthenticatedSession :=
  (db.sessions tokenHash).bind (sessionOf db)

def authenticateApiToken (site : Site) (tokenHash : String) : Option AuthenticatedSession :=
  match site.apiTokens tokenHash with
  | none => none
  | some row =>
    match site.accounts.users.find row.userId with
    | none => none
    | some user =>
      if user.disabled then none
      else if row.expiresAt.any fun expiresAt => expiresAt ≤ site.accounts.clock then none
      else some ⟨userFromRow user,"",row.expiresAt.getD 0⟩

/-- Everything of the account in the tables that are modelled. -/
def deleteUser (site : Site) (id : Int) : Nat × Site :=
  let db := site.accounts
  (db.users.affected fun u => u.id = id,{ site with
    apiTokens := fun key => (site.apiTokens key).filter fun row => row.userId ≠ id
    accounts := { db with
      users := db.users.delete fun u => u.id = id
      sessions := fun key => (db.sessions key).filter fun row => row.userId ≠ id
      resetTokens := fun key => (db.resetTokens key).filter fun row => row.userId ≠ id
      emailTokens := fun key => (db.emailTokens key).filter fun row => row.userId ≠ id
      challenges := db.challenges.delete fun row => row.userId = id } })

end Site

inductive SiteCall where
  | store (statement : Statement)
  | authenticateSession (tokenHash : String)
  | authenticateApiToken (tokenHash : String)
  | touchApiToken (tokenHash : String)
  | revokeSession (tokenHash : String)
  | rotateCsrf (tokenHash newCsrfHash : String)
  | deleteUser (id : Int)
  | cacheGet (tokenHash : String)
  | cacheSet (tokenHash : String) (session : AuthenticatedSession) (ttl : Nat)
  | addMember (userId : Int) (tokenHash : String)
  | expireIndex (userId : Int) (ttl : Nat)
  | cacheDelete (tokenHashes : List String)
  | members (userId : Int)
  | deleteIndex (userId : Int)
deriving DecidableEq

abbrev SiteCall.Answer : SiteCall → Type
  | .store statement => statement.Answer
  | .authenticateSession _ => Option AuthenticatedSession
  | .authenticateApiToken _ => Option AuthenticatedSession
  | .touchApiToken _ => Unit
  | .revokeSession _ => Nat
  | .rotateCsrf _ _ => Nat
  | .deleteUser _ => Nat
  | .cacheGet _ => Option AuthenticatedSession
  | .cacheSet _ _ _ => Unit
  | .addMember _ _ => Unit
  | .expireIndex _ _ => Unit
  | .cacheDelete _ => Unit
  | .members _ => List String
  | .deleteIndex _ => Unit

/-- What the tables and the cache answer and become. -/
def site (backend : Backend) : Handler SiteCall SiteCall.Answer Site
  | .store statement,s =>
    let done := accounts backend statement s.accounts
    (done.1,{ s with accounts := done.2 })
  | .authenticateSession tokenHash,s => (Site.authenticateSession s.accounts tokenHash,s)
  | .authenticateApiToken tokenHash,s => (s.authenticateApiToken tokenHash,s)
  | .touchApiToken _,s => ((),s)
  | .revokeSession tokenHash,s => (rowCount s.accounts.sessions tokenHash,
      { s with accounts := { s.accounts with sessions := deleteKey s.accounts.sessions tokenHash } })
  | .rotateCsrf tokenHash newCsrfHash,s =>
    let sessions := Function.update s.accounts.sessions tokenHash
      ((s.accounts.sessions tokenHash).map fun row => { row with csrfTokenHash := newCsrfHash })
    (rowCount s.accounts.sessions tokenHash,{ s with accounts := { s.accounts with sessions } })
  | .deleteUser id,s => s.deleteUser id
  | .cacheGet tokenHash,s =>
    (((s.entry tokenHash).map CacheEntry.session).filter fun session => session.expiresAt > s.accounts.clock,s)
  | .cacheSet tokenHash session ttl,s =>
    ((),{ s with sessions := Function.update s.sessions tokenHash (some ⟨session,s.instant + ttl⟩) })
  | .addMember userId tokenHash,s =>
    let index := (s.index userId).getD ⟨[],none⟩
    ((),{ s with indexes := Function.update s.indexes userId (some { index with members := tokenHash :: index.members }) })
  | .expireIndex userId ttl,s =>
    let index := (s.index userId).map fun index => { index with deadline := some (s.instant + ttl) }
    ((),{ s with indexes := Function.update s.indexes userId index })
  | .cacheDelete tokenHashes,s =>
    ((),{ s with sessions := fun key => if key ∈ tokenHashes then none else s.sessions key })
  | .members userId,s => (((s.index userId).map SessionIndex.members).getD [],s)
  | .deleteIndex userId,s => ((),{ s with indexes := Function.update s.indexes userId none })

abbrev SiteCalls := Routine SiteCall SiteCall.Answer

abbrev askSite (call : SiteCall) : SiteCalls call.Answer := Routine.ask call

/-- A value that is no visible text is `none`. -/
structure Headers where
  authorization : Option (Option String)
  cookies : List (Option String)

def stripEither (text first second : String) : Option String :=
  (Text.stripPrefix text first).or (Text.stripPrefix text second)

def bearerToken (headers : Headers) : Option String := do
  let value ← ← headers.authorization
  let token := Text.trimBy Text.whiteSpace (← stripEither value "Bearer " "bearer ")
  if token = "" then none else some token

/-- The pairs of a cookie line. -/
def cookiePairs (line : String) : List (String × String) :=
  (line.toList.splitOn ';').filterMap fun pair => Text.splitOnce (Text.trimBy Text.whiteSpace (String.ofList pair)) "="

def cookie (headers : Headers) (name : String) : Option String :=
  ((headers.cookies.filterMap id).flatMap cookiePairs).findSome? fun pair => if pair.1 = name then some pair.2 else none

def sessionCookie : String := "qd_session"

def csrfCookie : String := "qd_csrf"

structure AuthOrigin where
  token : String
  bearer : Bool
deriving DecidableEq

def unauthorized : ApiError := .unauthorized "authentication_required" "Authentication required"

structure AdminUserUpdate where
  disabled : Option Bool
  role : Option String

def invalidRole : ApiError := ⟨422,"validation_error","invalid user role"⟩

abbrev Authentication := Except ApiError (AuthOrigin × AuthenticatedSession)

namespace SessionConfig

variable (config : SessionConfig)

/-- `SessionCache::get`, `None` also where the cache cannot be reached. -/
def lookUp (tokenHash : String) : SiteCalls (Option AuthenticatedSession) :=
  if config.cached then .call (.cacheGet tokenHash) fun answer => .done answer.join else return none

/-- `SessionCache::set`: a command that fails ends it. -/
def remember (tokenHash : String) (session : AuthenticatedSession) : SiteCalls Unit :=
  if config.cached then
    .call (.cacheSet tokenHash session config.cacheTtl) fun
      | none => .done ()
      | some _ => .call (.addMember session.user.id tokenHash) fun
        | none => .done ()
        | some _ => .call (.expireIndex session.user.id config.cacheTtl) fun _ => .done ()
  else return ()

/-- `SessionCache::invalidate`. -/
def invalidate (tokenHash : String) : SiteCalls Unit :=
  if config.cached then .call (.cacheDelete [tokenHash]) fun _ => .done () else return ()

/-- `SessionCache::invalidate_user` without further hashes. -/
def invalidateUser (userId : Int) : SiteCalls Unit :=
  if config.cached then
    .call (.members userId) fun indexed =>
      match indexed.getD [] with
      | [] => .call (.deleteIndex userId) fun _ => .done ()
      | hash :: hashes => .call (.cacheDelete (hash :: hashes)) fun
        | none => .done ()
        | some _ => .call (.deleteIndex userId) fun _ => .done ()
  else return ()

def requireCookieSession (token : String) : SiteCalls Authentication := do
  let tokenHash := config.tokenHash token
  match ← config.lookUp tokenHash with
  | some session => return .ok (⟨token,false⟩,session)
  | none =>
    match ← askSite (.authenticateSession tokenHash) with
    | none => return .error unauthorized
    | some session =>
      config.remember tokenHash session
      return .ok (⟨token,false⟩,session)

def requireApiToken (token : String) : SiteCalls Authentication := do
  match ← askSite (.authenticateApiToken (config.tokenHash token)) with
  | none => return .error unauthorized
  | some session =>
    let _ ← Routine.attempt (.touchApiToken (config.tokenHash token) : SiteCall)
    return .ok (⟨token,true⟩,session)

def requireSession (headers : Headers) : SiteCalls Authentication :=
  match bearerToken headers with
  | some token => config.requireApiToken token
  | none =>
    match cookie headers sessionCookie with
    | none => return .error unauthorized
    | some token => config.requireCookieSession token

/-- `require_session_from_store`, which leaves the cache alone. -/
def requireSessionFromStore (headers : Headers) : SiteCalls Authentication :=
  match bearerToken headers with
  | some token => config.requireApiToken token
  | none =>
    match cookie headers sessionCookie with
    | none => return .error unauthorized
    | some token => do
      match ← askSite (.authenticateSession (config.tokenHash token)) with
      | none => return .error unauthorized
      | some session => return .ok (⟨token,false⟩,session)

def requireAdmin (headers : Headers) : SiteCalls Authentication := do
  match ← config.requireSession headers with
  | .error error => return .error error
  | .ok (origin,session) =>
    if session.user.role ≠ "admin" then return .error (.forbidden "admin_required" "Administrator role required")
    else return .ok (origin,session)

/-- End one session, in the store and in the cache. -/
def revokeSession (token : String) : SiteCalls Bool := do
  let existed ← askSite (.revokeSession (config.tokenHash token))
  config.invalidate (config.tokenHash token)
  return existed > 0

def deleteUser (id : Int) : SiteCalls Bool := do
  match ← askSite (.store (.getUser id)) with
  | none => return false
  | some _ =>
    if (← askSite (.deleteUser id)) > 0 then
      config.invalidateUser id
      return true
    else return false

/-- Update role and disabled flag, then drop the cached copies. -/
def updateUser (id : Int) (input : AdminUserUpdate) : SiteCalls (Except ApiError (Option User)) := do
  match ← askSite (.store (.getUser id)) with
  | none => return .ok none
  | some current =>
    let role := input.role.getD current.role
    let disabled := input.disabled.getD current.disabled
    if role ≠ "admin" ∧ role ≠ "user" then return .error invalidRole
    else
      let _ ← askSite (.store (.updateUser id role disabled))
      match ← askSite (.store (.getUser id)) with
      | none => return .ok none
      | some user =>
        config.invalidateUser id
        return .ok (some user)

end SessionConfig

end Qdrust.Account
