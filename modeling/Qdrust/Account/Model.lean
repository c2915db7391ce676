import Qdrust.Account.Totp
import Qdrust.Library.Concurrent
import Qdrust.Library.Table

/-! The tables behind an account, and the statements on them, each one call. A
transaction is one call too: nobody sees it before it is committed. -/
namespace Qdrust.Account
open Library

structure UserRow where
  id : Int
  username : String
  passwordHash : String
  role : String
  disabled : Bool
  sessionVersion : Int
  email : Option String
  emailVerified : Bool
  totpSecret : Option String
  totpEnabled : Bool
deriving DecidableEq

structure User where
  id : Int
  username : String
  role : String
  disabled : Bool
  email : Option String
  emailVerified : Bool
deriving DecidableEq

structure UserCredentials where
  user : User
  passwordHash : String
  sessionVersion : Int
deriving DecidableEq

structure UserTotp where
  secret : Option String
  enabled : Bool
deriving DecidableEq

/-- A row of `password_reset_tokens` or of `email_verification_tokens`. -/
structure TokenRow where
  userId : Int
  expiresAt : Int
deriving DecidableEq

structure OidcLoginState where
  stateHash : String
  nonceHash : String
  pkceVerifierEncrypted : String
  redirectUri : String
  createdAt : Int
  expiresAt : Int
deriving DecidableEq

structure ChallengeRow where
  id : Int
  userId : Int
  tokenHash : String
  attempts : Int
  expiresAt : Int
deriving DecidableEq

structure TotpChallenge where
  id : Int
  userId : Int
  attempts : Int
  expiresAt : Int
deriving DecidableEq

structure SessionRow where
  userId : Int
  csrfTokenHash : String
  sessionVersion : Int
  expiresAt : Int
deriving DecidableEq

def userFromRow (row : UserRow) : User where
  id := row.id
  username := row.username
  role := row.role
  disabled := row.disabled
  email := row.email
  emailVerified := row.emailVerified

def credentialsFromRow (row : UserRow) : UserCredentials where
  user := userFromRow row
  passwordHash := row.passwordHash
  sessionVersion := row.sessionVersion

/-- A table whose primary key is a text. -/
abbrev Keyed (ρ : Type) := String → Option ρ

/-- The table `totp_login_challenges`, whose `token_hash` is unique. -/
structure Challenges where
  table : Table ChallengeRow ChallengeRow.id
  unique : (table.rows.map ChallengeRow.tokenHash).Nodup

namespace Challenges

def empty : Challenges := ⟨Table.empty,List.nodup_nil⟩

def byHash (challenges : Challenges) (tokenHash : String) : Option ChallengeRow :=
  challenges.table.rows.find? fun row => row.tokenHash = tokenHash

/-- `UPDATE .. SET attempts=attempts+1 WHERE id=?`. -/
def count (challenges : Challenges) (id : Int) : Challenges where
  table := challenges.table.update (fun row => row.id = id) (fun row => { row with attempts := row.attempts + 1 })
    fun _ => rfl
  unique := by
    have same : (fun row : ChallengeRow => (if decide (row.id = id) = true then
        { row with attempts := row.attempts + 1 } else row).tokenHash) = ChallengeRow.tokenHash := by
      funext row
      split <;> rfl
    rw [Table.update,List.map_map,Function.comp_def,same]
    exact challenges.unique

def delete (challenges : Challenges) (chosen : ChallengeRow → Bool) : Challenges where
  table := challenges.table.delete chosen
  unique := challenges.unique.sublist (List.filter_sublist.map _)

theorem byHash_eq_some {challenges : Challenges} {tokenHash : String} {row : ChallengeRow} :
    challenges.byHash tokenHash = some row ↔ row ∈ challenges.table.rows ∧ row.tokenHash = tokenHash := by
  constructor
  · intro found
    exact ⟨List.mem_of_find?_eq_some found,by simpa using List.find?_some found⟩
  · rintro ⟨there,rfl⟩
    cases found : challenges.byHash row.tokenHash with
    | none => simpa using List.find?_eq_none.mp found row there
    | some other =>
      have same : other.tokenHash = row.tokenHash := by simpa using List.find?_some found
      rw [List.inj_on_of_nodup_map challenges.unique (List.mem_of_find?_eq_some found) there same]

end Challenges

structure Accounts where
  clock : Int
  users : Table UserRow UserRow.id
  sessions : Keyed SessionRow
  resetTokens : Keyed TokenRow
  emailTokens : Keyed TokenRow
  loginStates : Keyed OidcLoginState
  challenges : Challenges

/-- `SELECT user_id .. WHERE token_hash=? AND expires_at>?`. -/
def ownerAt (tokens : Keyed TokenRow) (tokenHash : String) (now : Int) : Option Int :=
  match tokens tokenHash with
  | some row => if row.expiresAt > now then some row.userId else none
  | none => none

def deleteKey {ρ : Type} (table : Keyed ρ) (key : String) : Keyed ρ := Function.update table key none

/-- The rows affected by a delete of one key. -/
def rowCount {ρ : Type} (table : Keyed ρ) (key : String) : Nat := if (table key).isSome then 1 else 0

inductive Statement where
  | clock
  | passwordResetToken (tokenHash : String) (now : Int)
  | changePassword (userId : Int) (passwordHash : String)
  | deletePasswordResetToken (tokenHash : String)
  | oidcLoginState (stateHash : String)
  | deleteOidcLoginState (stateHash : String)
  | emailVerificationToken (tokenHash : String) (now : Int)
  | markEmailVerified (userId : Int)
  | deleteEmailVerificationToken (tokenHash : String)
  | getUser (id : Int)
  | credentialsById (id : Int)
  | credentialsByUsername (username : String)
  | verifyPassword (password encodedHash : String)
  | updateUser (id : Int) (role : String) (disabled : Bool)
  | insertSession (tokenHash : String) (row : SessionRow)
  | recordAudit (action : String)
  | userTotp (userId : Int)
  | setUserTotpSecret (userId : Int) (secret : String)
  | enableUserTotp (userId : Int)
  | disableUserTotp (userId : Int)
  | verifyTotp (secret submitted : String) (now : Int)
  | totpChallengeByHash (tokenHash : String)
  | countTotpAttempt (id : Int)
  | totpAttempts (id : Int)
  | deleteTotpChallenge (id : Int)
deriving DecidableEq

/-- A statement that writes answers the number of rows it affected, where the store
reads nothing else of it. -/
abbrev Statement.Answer : Statement → Type
  | .clock => Int
  | .passwordResetToken _ _ => Option Int
  | .changePassword _ _ => Bool
  | .deletePasswordResetToken _ => Nat
  | .oidcLoginState _ => Option OidcLoginState
  | .deleteOidcLoginState _ => Nat
  | .emailVerificationToken _ _ => Option Int
  | .markEmailVerified _ => Nat
  | .deleteEmailVerificationToken _ => Nat
  | .getUser _ => Option User
  | .credentialsById _ => Option UserCredentials
  | .credentialsByUsername _ => Option UserCredentials
  | .verifyPassword _ _ => Bool
  | .updateUser _ _ _ => Nat
  | .insertSession _ _ => Unit
  | .recordAudit _ => Unit
  | .userTotp _ => Option UserTotp
  | .setUserTotpSecret _ _ => Nat
  | .enableUserTotp _ => Nat
  | .disableUserTotp _ => Nat
  | .verifyTotp _ _ _ => Option Bool
  | .totpChallengeByHash _ => Option TotpChallenge
  | .countTotpAttempt _ => Nat
  | .totpAttempts _ => Option Int
  | .deleteTotpChallenge _ => Nat

namespace Accounts

/-- `UPDATE users SET .. WHERE ..`. -/
def updateUsers (db : Accounts) (chosen : UserRow → Bool) (set : UserRow → UserRow) (keeps : ∀ r, (set r).id = r.id) :
    Nat × Accounts :=
  (db.users.affected chosen,{ db with users := db.users.update chosen set keeps })

/-- A row of `updateUsers` is an old one, set where it was chosen. -/
theorem mem_updateUsers {users : List UserRow} {chosen : UserRow → Bool} {set : UserRow → UserRow} {u' : UserRow}
    (there : u' ∈ users.map fun u => if chosen u then set u else u) :
    ∃ u ∈ users, u' = if chosen u then set u else u := by
  obtain ⟨u,old,rfl⟩ := List.mem_map.mp there
  exact ⟨u,old,rfl⟩

/-- The transaction of a new password: it is rolled back where no row is updated. -/
def changePassword (db : Accounts) (userId : Int) (passwordHash : String) : Bool × Accounts :=
  let changed := db.updateUsers (fun u => u.id = userId && !u.disabled)
    (fun u => { u with passwordHash, sessionVersion := u.sessionVersion + 1 }) fun _ => rfl
  if changed.1 = 0 then (false,db)
  else (true,{ changed.2 with sessions := fun key => (db.sessions key).filter fun row => row.userId ≠ userId })

end Accounts

/-- What lies behind the statements: how the database compares names, the password hash
and the arithmetic of one-time codes. -/
structure Backend where
  usernameCmp : String → String → Bool
  verifyPassword : String → String → Bool
  totpCode : String → Int → Option String

/-- What the store answers and what becomes of the tables. -/
def accounts (backend : Backend) : Concurrent.Handler Statement Statement.Answer Accounts
  | .clock,db => (db.clock,db)
  | .passwordResetToken tokenHash now,db => (ownerAt db.resetTokens tokenHash now,db)
  | .changePassword userId passwordHash,db => db.changePassword userId passwordHash
  | .deletePasswordResetToken tokenHash,db =>
    (rowCount db.resetTokens tokenHash,{ db with resetTokens := deleteKey db.resetTokens tokenHash })
  | .oidcLoginState stateHash,db => (db.loginStates stateHash,db)
  | .deleteOidcLoginState stateHash,db =>
    (rowCount db.loginStates stateHash,{ db with loginStates := deleteKey db.loginStates stateHash })
  | .emailVerificationToken tokenHash now,db => (ownerAt db.emailTokens tokenHash now,db)
  | .markEmailVerified userId,db =>
    db.updateUsers (fun u => u.id = userId) (fun u => { u with emailVerified := true }) fun _ => rfl
  | .deleteEmailVerificationToken tokenHash,db =>
    (rowCount db.emailTokens tokenHash,{ db with emailTokens := deleteKey db.emailTokens tokenHash })
  | .getUser id,db => ((db.users.find id).map userFromRow,db)
  | .credentialsById id,db => ((db.users.find id).map credentialsFromRow,db)
  | .credentialsByUsername username,db =>
    ((db.users.rows.find? fun u => backend.usernameCmp u.username (Text.trimBy Text.whiteSpace username)).map
      credentialsFromRow,db)
  | .verifyPassword password encodedHash,db => (backend.verifyPassword password encodedHash,db)
  | .updateUser id role disabled,db =>
    db.updateUsers (fun u => u.id = id) (fun u => { u with role, disabled }) fun _ => rfl
  | .insertSession tokenHash row,db => ((),{ db with sessions := Function.update db.sessions tokenHash (some row) })
  | .recordAudit _,db => ((),db)
  | .userTotp userId,db => ((db.users.find userId).map fun u => ⟨u.totpSecret,u.totpEnabled⟩,db)
  | .setUserTotpSecret userId secret,db =>
    db.updateUsers (fun u => u.id = userId) (fun u => { u with totpSecret := some secret }) fun _ => rfl
  | .enableUserTotp userId,db =>
    db.updateUsers (fun u => u.id = userId && u.totpSecret.isSome) (fun u => { u with totpEnabled := true }) fun _ => rfl
  | .disableUserTotp userId,db =>
    let changed := db.updateUsers (fun u => u.id = userId) (fun u => { u with totpSecret := none, totpEnabled := false })
      fun _ => rfl
    (changed.1,{ changed.2 with challenges := db.challenges.delete fun row => row.userId = userId })
  | .verifyTotp secret submitted now,db => (Totp.verify backend.totpCode secret submitted now,db)
  | .totpChallengeByHash tokenHash,db =>
    ((db.challenges.byHash tokenHash).map fun row => ⟨row.id,row.userId,row.attempts,row.expiresAt⟩,db)
  | .countTotpAttempt id,db =>
    (db.challenges.table.affected fun row => row.id = id,{ db with challenges := db.challenges.count id })
  | .totpAttempts id,db => ((db.challenges.table.find id).map ChallengeRow.attempts,db)
  | .deleteTotpChallenge id,db => (db.challenges.table.affected fun row => row.id = id,
      { db with challenges := db.challenges.delete fun row => row.id = id })

/-- An error of a request, apart from the server's own. -/
structure ApiError where
  status : Nat
  code : String
  message : String
deriving DecidableEq

def ApiError.conflict (code message : String) : ApiError := ⟨409,code,message⟩

def ApiError.notFound (code message : String) : ApiError := ⟨404,code,message⟩

def ApiError.unauthorized (code message : String) : ApiError := ⟨401,code,message⟩

def ApiError.forbidden (code message : String) : ApiError := ⟨403,code,message⟩

abbrev Calls := Routine Statement Statement.Answer

/-- A statement whose error is passed on. -/
abbrev ask (statement : Statement) : Calls statement.Answer := Routine.ask statement

end Qdrust.Account
