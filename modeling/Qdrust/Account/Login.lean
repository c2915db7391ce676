import Qdrust.Account.LoginTotp

/-! The first step of a login, behind a limit on wrong passwords. Asking the limiter,
comparing the password and telling the limiter are separate calls. -/
namespace Qdrust.Account
open Library Concurrent

structure AttemptWindow where
  started : Nat
  failures : Nat
deriving DecidableEq

def u32Max : Nat := 4294967295

/-- `LoginRateLimiter::new` refuses a limit or a window of zero. -/
structure LoginRateLimiter where
  maxAttempts : Nat
  window : Nat
  attempts : 0 < maxAttempts ∧ maxAttempts ≤ u32Max
  lasting : 0 < window

/-- What is remembered of a login beside the tables: a password was compared, or the
limiter was told of a success. -/
inductive LoginNote where
  | compared (instant : Nat) (encodedHash : String) (valid : Bool)
  | succeeded (rateKey : String)
deriving DecidableEq

/-- One server process: its database, the limiter's map and its monotonic clock. The notes
are a history that no call reads. -/
structure Server where
  accounts : Accounts
  attempts : Keyed AttemptWindow
  instant : Nat
  notes : List LoginNote

namespace LoginRateLimiter

variable (limiter : LoginRateLimiter)

def expired (server : Server) (window : AttemptWindow) : Bool := limiter.window ≤ server.instant - window.started

def allowed (server : Server) (key : String) : Bool × Server :=
  match server.attempts key with
  | none => (true,server)
  | some window =>
    if limiter.expired server window then (true,{ server with attempts := deleteKey server.attempts key })
    else (window.failures < limiter.maxAttempts,server)

def failed (server : Server) (key : String) : AttemptWindow :=
  let window := (server.attempts key).getD ⟨server.instant,0⟩
  let window := if limiter.expired server window then ⟨server.instant,0⟩ else window
  { window with failures := min (window.failures + 1) u32Max }

def recordFailure (server : Server) (key : String) : Server :=
  { server with attempts := Function.update server.attempts key (some (limiter.failed server key)) }

end LoginRateLimiter

def recordSuccess (server : Server) (key : String) : Server :=
  { server with attempts := deleteKey server.attempts key, notes := .succeeded key :: server.notes }

inductive LoginCall where
  | allowed (key : String)
  | recordFailure (key : String)
  | recordSuccess (key : String)
  | createTotpChallenge (userId : Int) (tokenHash : String) (expiresAt : Int)
  | store (statement : Statement)
deriving DecidableEq

/-- `createTotpChallenge` answers `false` where the token is taken. -/
abbrev LoginCall.Answer : LoginCall → Type
  | .allowed _ => Bool
  | .recordFailure _ => Unit
  | .recordSuccess _ => Unit
  | .createTotpChallenge _ _ _ => Bool
  | .store statement => statement.Answer

/-- The challenge of a new token. -/
def Challenges.insert (challenges : Challenges) (userId : Int) (tokenHash : String) (expiresAt : Int)
    (fresh : tokenHash ∉ challenges.table.rows.map ChallengeRow.tokenHash) : Challenges where
  table := challenges.table.insert (fun id => ⟨id,userId,tokenHash,0,expiresAt⟩) fun _ => rfl
  unique := by
    rw [Table.insert,List.map_append,List.nodup_append]
    refine ⟨challenges.unique,List.nodup_singleton _,?_⟩
    rintro a there b new rfl
    cases List.mem_singleton.mp new
    exact fresh there

def noted (backend : Backend) (instant : Nat) (notes : List LoginNote) : Statement → List LoginNote
  | .verifyPassword password encodedHash =>
    .compared instant encodedHash (backend.verifyPassword password encodedHash) :: notes
  | _ => notes

def logins (limiter : LoginRateLimiter) (backend : Backend) : Concurrent.Handler LoginCall LoginCall.Answer Server
  | .allowed key,server => limiter.allowed server key
  | .recordFailure key,server => ((),limiter.recordFailure server key)
  | .recordSuccess key,server => ((),recordSuccess server key)
  | .createTotpChallenge userId tokenHash expiresAt,server =>
    if fresh : tokenHash ∉ server.accounts.challenges.table.rows.map ChallengeRow.tokenHash then
      let challenges := server.accounts.challenges.insert userId tokenHash expiresAt fresh
      (true,{ server with accounts := { server.accounts with challenges } })
    else (false,server)
  | .store statement,server =>
    let done := accounts backend statement server.accounts
    (done.1,{ server with accounts := done.2, notes := noted backend server.instant server.notes statement })

structure AuthCredentials where
  username : String
  password : String

/-- How a login is served: `dummyHash` is compared where no user has the name. -/
structure LoginServing extends Serving where
  requireEmailVerification : Bool
  dummyHash : String
  challenge : String

inductive LoginOutcome where
  | totpRequired (challenge : String) (expiresAt : Int)
  | session (issued : IssuedSession)

abbrev LoginCalls := Routine LoginCall LoginCall.Answer

abbrev PasswordReply := Except ApiError LoginOutcome

abbrev askLogin (call : LoginCall) : LoginCalls call.Answer := Routine.ask call

abbrev askStore (statement : Statement) : LoginCalls statement.Answer := askLogin (.store statement)

def ApiError.tooManyRequests (code message : String) : ApiError := ⟨429,code,message⟩

/-- `trim().to_ascii_lowercase()`. -/
def rateKey (username : String) : String :=
  String.ofList ((Text.trimList Text.whiteSpace username.toList).map Char.toLower)

def totpChallengeTtlSecs : Int := 300

/-- What follows a right password: the second factor where it is on, else the session. -/
def completeLogin (serving : LoginServing) (user : User) : LoginCalls PasswordReply := do
  if ((← askStore (.userTotp user.id)).map UserTotp.enabled).getD false then
    let expiresAt := (← askStore .clock) + totpChallengeTtlSecs
    if !(← askLogin (.createTotpChallenge user.id (serving.tokenHash serving.challenge) expiresAt)) then .failed
    else
      let _ ← askStore (.recordAudit "auth.login_totp_required")
      return .ok (.totpRequired serving.challenge expiresAt)
  else
    let _ ← askStore (.recordAudit "auth.login")
    return .ok (.session (← (createSession serving.toServing user.id).embed LoginCall.store fun _ answer => answer))

def login (serving : LoginServing) (input : AuthCredentials) : LoginCalls PasswordReply := do
  if !serving.localLogin then
    return .error (.forbidden "local_login_disabled" "Local username/password login is disabled on this deployment")
  else if !(← askLogin (.allowed (rateKey input.username))) then
    return .error (.tooManyRequests "login_rate_limited" "Too many login attempts")
  else
    let credentials ← askStore (.credentialsByUsername input.username)
    let encodedHash := (credentials.map UserCredentials.passwordHash).getD serving.dummyHash
    let valid ← askStore (.verifyPassword input.password encodedHash)
    match credentials.filter fun credentials => valid && !credentials.user.disabled with
    | none =>
      let _ ← askLogin (.recordFailure (rateKey input.username))
      let _ ← askStore (.recordAudit "auth.login_failed")
      return .error (.unauthorized "invalid_credentials" "Invalid username or password")
    | some credentials =>
      if serving.requireEmailVerification && !credentials.user.emailVerified then
        return .error (.forbidden "email_not_verified" "Email address is not verified")
      else
        let _ ← askLogin (.recordSuccess (rateKey input.username))
        completeLogin serving credentials.user

end Qdrust.Account
