import Qdrust.Account.ExternalIdentity
import Qdrust.Account.Redemption
import Qdrust.Library.Warranted

/-! Tokens that are mailed: for a new password, and for an address. Clients that work together make requests of every kind,
and read what they are answered and the mail to some addresses. -/
namespace Qdrust.Account.Mailed
open Library Concurrent
open ExternalIdentity (trim registeredRow registeredRow_id)

/-- What `new_token` draws, and the hash of a token. -/
structure Tokens where
  draw : Nat → String
  draw_injective : Function.Injective draw
  tokenHash : String → String
  tokenHash_injective : Function.Injective tokenHash

inductive Call where
  | store (statement : Statement)
  | newToken
  | createUser (username passwordHash : String)
  | setUserEmail (userId : Int) (email : String)
  | insertPasswordResetToken (token : String) (row : TokenRow)
  | deleteEmailVerificationTokens (userId : Int)
  | insertEmailVerificationToken (token : String) (row : TokenRow)
  | send (address token : String)
  | reply (ours : Bool) (token : String)
  | present (token : String)

abbrev Call.Answer : Call → Type
  | .store statement => statement.Answer
  | .newToken => String
  | .createUser _ _ => Option User
  | .setUserEmail _ _ => Option Bool
  | .insertPasswordResetToken _ _ => Bool
  | .deleteEmailVerificationTokens _ => Unit
  | .insertEmailVerificationToken _ _ => Bool
  | .send _ _ => Unit
  | .reply _ _ => Unit
  | .present _ => Bool

abbrev MailCalls := Routine Call Call.Answer

abbrev askCall (call : Call) : MailCalls call.Answer := Routine.ask call

abbrev tryCall (call : Call) : MailCalls (Option call.Answer) := Routine.attempt call

def onStore {ρ : Type} (routine : Calls ρ) : MailCalls ρ := routine.embed .store fun _ answer => answer

structure MailServer where
  tokens : Tokens
  smtpConfigured : Bool

namespace MailServer

variable (server : MailServer)

def mailReset (token : String) : Option String → MailCalls Unit
  | some email => do
    let _ ← tryCall (.send (trim email) token)
    return ()
  | none => return ()

def createPasswordResetToken (userId : Int) : MailCalls String := do
  let token ← askCall .newToken
  let now ← askCall (.store .clock)
  if ← askCall (.insertPasswordResetToken token ⟨userId,now + 3600⟩) then return token else .failed

/-- `ours` says whether the answer is for one of the clients. -/
def forgotPassword (ours : Bool) (username : String) : MailCalls Unit := do
  match ← tryCall (.store (.credentialsByUsername username)) with
  | none | some none => return ()
  | some (some credentials) =>
    if credentials.user.disabled then return ()
    else
      let token ← createPasswordResetToken credentials.user.id
      if server.smtpConfigured then
        mailReset token credentials.user.email
        askCall (.store (.recordAudit "auth.password_reset_requested"))
      else
        askCall (.store (.recordAudit "auth.password_reset_requested"))
        askCall (.reply ours token)

def createEmailVerificationToken (userId : Int) : MailCalls String := do
  let token ← askCall .newToken
  let now ← askCall (.store .clock)
  askCall (.deleteEmailVerificationTokens userId)
  if ← askCall (.insertEmailVerificationToken token ⟨userId,now + 3600⟩) then return token else .failed

/-- The name has been checked, and the password hashed. -/
def register (username passwordHash : String) (email : Option String) : MailCalls Unit := do
  match ← askCall (.createUser (trim username) passwordHash) with
  | none => return ()
  | some user => match email with
    | none => askCall (.store (.recordAudit "auth.register"))
    | some email =>
      let _ ← tryCall (.setUserEmail user.id email)
      let token ← createEmailVerificationToken user.id
      let _ ← tryCall (.send (trim email) token)
      askCall (.store (.recordAudit "auth.register"))

/-- `userId` is the user of the session. -/
def resendVerification (ours : Bool) (userId : Int) : MailCalls Unit := do
  match ← askCall (.store (.getUser userId)) with
  | none => return ()
  | some user => match user.email with
    | none => return ()
    | some email =>
      let token ← createEmailVerificationToken userId
      let _ ← tryCall (.send email token)
      askCall (.reply ours token)

/-- One of the clients has a token to present. -/
def resetPassword (now : Int) (token passwordHash : String) : MailCalls Unit := do
  if ← askCall (.present token) then
    match ← onStore (consumePasswordResetToken now (server.tokens.tokenHash token) passwordHash) with
    | none => return ()
    | some _ => askCall (.store (.recordAudit "auth.password_reset"))
  else .failed

def verifyEmail (now : Int) (token : String) : MailCalls Unit := do
  if ← askCall (.present token) then
    match ← onStore (consumeEmailVerificationToken now (server.tokens.tokenHash token)) with
    | none => return ()
    | some _ => askCall (.store (.recordAudit "auth.email_verified"))
  else .failed

end MailServer

/-- The accounts, how many tokens were drawn, and the tokens that the clients have read. -/
structure World where
  accounts : Accounts
  drawn : Nat
  known : List String

/-- What the mail rests on. `mailbox` says to which addresses the clients read the mail. -/
structure Surroundings where
  backend : Backend
  lowercase : String → String
  mailbox : String → Bool

/-- A token is kept under its hash, unless there is one. -/
def insertToken (tokens : Tokens) (table : Keyed TokenRow) (token : String) (row : TokenRow) : Option (Keyed TokenRow) :=
  if (table (tokens.tokenHash token)).isSome then none else some (Function.update table (tokens.tokenHash token) (some row))

def handle (tokens : Tokens) (around : Surroundings) : Handler Call Call.Answer World
  | .store statement,w =>
    let done := Account.accounts around.backend statement w.accounts
    (done.1,{ w with accounts := done.2 })
  | .newToken,w => (tokens.draw w.drawn,{ w with drawn := w.drawn + 1 })
  | .createUser username passwordHash,w =>
    if w.accounts.users.rows.any fun u => around.backend.usernameCmp u.username username then (none,w)
    else
      let users := w.accounts.users.insert (registeredRow username passwordHash "user")
        (registeredRow_id username passwordHash "user")
      (some (userFromRow (registeredRow username passwordHash "user" (w.accounts.users.last + 1))),
        { w with accounts := { w.accounts with users } })
  | .setUserEmail userId email,w =>
    let address := around.lowercase (trim email)
    if address.toList.contains '@' && address.utf8ByteSize ≤ 255 then
      let done := w.accounts.updateUsers (fun u => u.id = userId)
        (fun u => { u with email := some address, emailVerified := false }) fun _ => rfl
      (some (0 < done.1),{ w with accounts := done.2 })
    else (none,w)
  | .insertPasswordResetToken token row,w =>
    match insertToken tokens w.accounts.resetTokens token row with
    | some resetTokens => (true,{ w with accounts := { w.accounts with resetTokens } })
    | none => (false,w)
  | .deleteEmailVerificationTokens userId,w => ((),{ w with accounts := { w.accounts with
      emailTokens := fun key => (w.accounts.emailTokens key).filter fun row => row.userId ≠ userId } })
  | .insertEmailVerificationToken token row,w =>
    match insertToken tokens w.accounts.emailTokens token row with
    | some emailTokens => (true,{ w with accounts := { w.accounts with emailTokens } })
    | none => (false,w)
  | .send address token,w => ((),{ w with known := if around.mailbox address then token :: w.known else w.known })
  | .reply ours token,w => ((),{ w with known := if ours then token :: w.known else w.known })
  | .present token,w => (w.known.contains token,w)

/-- Other requests change users and sessions, time passes, and tokens are used by others or expire. -/
inductive Outside where
  | others (event : Meanwhile)
  | spend (tokenHash : String)
  | pass (now : Int)

def occur : Outside → World → Option World
  | .others event,w => (meanwhile event w.accounts).map fun accounts => { w with accounts }
  | .spend tokenHash,w => some { w with accounts := { w.accounts with
      resetTokens := deleteKey w.accounts.resetTokens tokenHash
      emailTokens := deleteKey w.accounts.emailTokens tokenHash } }
  | .pass now,w => some { w with accounts := { w.accounts with clock := now } }

inductive Request where
  | forgotPassword (ours : Bool) (username : String)
  | register (username passwordHash : String) (email : Option String)
  | resendVerification (ours : Bool) (userId : Int)
  | resetPassword (now : Int) (token passwordHash : String)
  | verifyEmail (now : Int) (token : String)

def Request.serve (server : MailServer) : Request → MailCalls Unit
  | .forgotPassword ours username => server.forgotPassword ours username
  | .register username passwordHash email => MailServer.register username passwordHash email
  | .resendVerification ours userId => MailServer.resendVerification ours userId
  | .resetPassword now token passwordHash => server.resetPassword now token passwordHash
  | .verifyEmail now token => server.verifyEmail now token

variable {ι : Type}

abbrev State (ι : Type) := Concurrent.State ι Call Call.Answer World Unit

abbrev step [DecidableEq ι] (server : MailServer) (around : Surroundings) : State ι → Action ι Outside → Option (State ι) :=
  Concurrent.step (handle server.tokens around) occur

/-- There are users, and no tokens yet. -/
def start (server : MailServer) (users : Table UserRow UserRow.id) (requests : ι → Request) : State ι :=
  .start ⟨⟨0,users,fun _ => none,fun _ => none,fun _ => none,fun _ => none,Challenges.empty⟩,0,[]⟩
    fun i => (requests i).serve server

/-- What a request can be told. The tokens for an address are told apart by `verify`. -/
inductive Fact where
  | drawn (token : String)
  | found (username : String) (userId : Int) (email : Option String)
  | own (userId : Int) (email : Option String)
  | created (username passwordHash : String) (userId : Int)
  | inserted (verify : Bool) (token : String) (userId : Int)
  | presented (token : String)
  | owner (verify : Bool) (tokenHash : String) (userId : Int)

def told : (call : Call) → Option call.Answer → List Fact
  | .newToken,answer => answer.toList.map .drawn
  | .store (.credentialsByUsername username),answer =>
    answer.join.toList.map fun found => .found username found.user.id found.user.email
  | .store (.getUser userId),answer => answer.join.toList.map fun user => .own userId user.email
  | .createUser username passwordHash,answer => answer.join.toList.map fun user => .created username passwordHash user.id
  | .insertPasswordResetToken token row,some true => [.inserted false token row.userId]
  | .insertEmailVerificationToken token row,some true => [.inserted true token row.userId]
  | .present token,some true => [.presented token]
  | .store (.passwordResetToken tokenHash _),answer => answer.join.toList.map (.owner false tokenHash)
  | .store (.emailVerificationToken tokenHash _),answer => answer.join.toList.map (.owner true tokenHash)
  | _,_ => []

attribute [local simp] told

/-- The request mails a token of the account to this address: as it is found by its name, as it was given when it was
registered, or as it is stored. -/
def Mails (known : List Fact) (verify : Bool) (userId : Int) (address : String) : Request → Prop
  | .forgotPassword _ username => verify = false ∧ ∃ email, .found username userId (some email) ∈ known ∧ trim email = address
  | .register username passwordHash email => verify = true ∧ .created (trim username) passwordHash userId ∈ known ∧
    email.map trim = some address
  | .resendVerification _ sessionUser => verify = true ∧ sessionUser = userId ∧ .own userId (some address) ∈ known
  | _ => False

/-- The request is answered a token of the account. -/
def Replies (server : MailServer) (ours verify : Bool) (userId : Int) : Request → Prop
  | .forgotPassword client _ => client = ours ∧ verify = false ∧ server.smtpConfigured = false
  | .resendVerification client sessionUser => client = ours ∧ verify = true ∧ sessionUser = userId
  | _ => False

/-- What gives a token away, and what a token is good for. -/
def Granted (server : MailServer) (request : Request) (known : List Fact) : Call → Prop
  | .send address token => ∃ verify userId, .inserted verify token userId ∈ known ∧ Mails known verify userId address request
  | .reply ours token => ∃ verify userId, .inserted verify token userId ∈ known ∧ Replies server ours verify userId request
  | .store (.changePassword userId passwordHash) => ∃ now token, request = .resetPassword now token passwordHash ∧
    .presented token ∈ known ∧ .owner false (server.tokens.tokenHash token) userId ∈ known
  | .store (.markEmailVerified userId) => ∃ now token, request = .verifyEmail now token ∧
    .presented token ∈ known ∧ .owner true (server.tokens.tokenHash token) userId ∈ known
  | _ => True

/-- A request puts in the token that it has drawn, once. -/
def Permitted (server : MailServer) (request : Request) (known : List Fact) (call : Call) : Prop :=
  Granted server request known call ∧ match call with
    | .insertPasswordResetToken token _ | .insertEmailVerificationToken token _ =>
      .drawn token ∈ known ∧ ∀ verify userId, .inserted verify token userId ∉ known
    | _ => True

section Requests

variable {server : MailServer} {request : Request} {known : List Fact} {ρ : Type}

abbrev Warranted (server : MailServer) (request : Request) (known : List Fact) (routine : MailCalls ρ)
    (post : List Fact → ρ → Prop) : Prop := Concurrent.Warranted told (Permitted server request) known routine post

theorem mails_mono {more : List Fact} (within : known ⊆ more) {verify : Bool} {userId : Int} {address : String}
    (mails : Mails known verify userId address request) : Mails more verify userId address request := by
  cases request with
  | forgotPassword ours username =>
    obtain ⟨reset,email,found,same⟩ := mails
    exact ⟨reset,email,within found,same⟩
  | register username passwordHash email => exact ⟨mails.1,within mails.2.1,mails.2.2⟩
  | resendVerification ours sessionUser => exact ⟨mails.1,mails.2.1,within mails.2.2⟩
  | _ => exact mails

theorem granted_mono {more : List Fact} (within : known ⊆ more) {call : Call} (granted : Granted server request known call) :
    Granted server request more call := by
  cases call with
  | send address token =>
    obtain ⟨verify,userId,inserted,mails⟩ := granted
    exact ⟨verify,userId,within inserted,mails_mono within mails⟩
  | reply ours token =>
    obtain ⟨verify,userId,inserted,replies⟩ := granted
    exact ⟨verify,userId,within inserted,replies⟩
  | store statement =>
    cases statement with
    | changePassword userId passwordHash =>
      obtain ⟨now,token,same,presented,owner⟩ := granted
      exact ⟨now,token,same,within presented,within owner⟩
    | markEmailVerified userId =>
      obtain ⟨now,token,same,presented,owner⟩ := granted
      exact ⟨now,token,same,within presented,within owner⟩
    | _ => exact granted
  | _ => exact granted

theorem warranted_audit (action : String) :
    Warranted server request known (askCall (.store (.recordAudit action))) fun _ _ => True :=
  warranted_last ⟨trivial,trivial⟩ fun _ => trivial

/-- A token is drawn and put in. -/
theorem warranted_createPasswordResetToken (userId : Int) {post : List Fact → String → Prop}
    (fresh : ∀ verify token id, .inserted verify token id ∉ known)
    (made : ∀ token more, known ⊆ more → .inserted false token userId ∈ more → post more token) :
    Warranted server request known (MailServer.createPasswordResetToken userId) post := by
  refine warranted_ask ⟨trivial,trivial⟩ fun token => warranted_ask ⟨trivial,trivial⟩ fun now => ?_
  refine warranted_ask ⟨trivial,?_,?_⟩ fun inserted => ?_
  · simp [told]
  · simp [told,fresh]
  · cases inserted with
    | true =>
      refine made token _ (fun fact there => ?_) (List.mem_append_left _ (List.mem_singleton_self _))
      simp [told,there]
    | false => exact trivial

theorem warranted_createEmailVerificationToken (userId : Int) {post : List Fact → String → Prop}
    (fresh : ∀ verify token id, .inserted verify token id ∉ known)
    (made : ∀ token more, known ⊆ more → .inserted true token userId ∈ more → post more token) :
    Warranted server request known (MailServer.createEmailVerificationToken userId) post := by
  refine warranted_ask ⟨trivial,trivial⟩ fun token => warranted_ask ⟨trivial,trivial⟩ fun now => ?_
  refine warranted_ask ⟨trivial,trivial⟩ fun _ => warranted_ask ⟨trivial,?_,?_⟩ fun inserted => ?_
  · simp [told]
  · simp [told,fresh]
  · cases inserted with
    | true =>
      refine made token _ (fun fact there => ?_) (List.mem_append_left _ (List.mem_singleton_self _))
      simp [told,there]
    | false => exact trivial

theorem warranted_mailReset (ours : Bool) {username token : String} {userId : Int} {email : Option String}
    (inserted : .inserted false token userId ∈ known) (found : .found username userId email ∈ known) :
    Warranted server (.forgotPassword ours username) known (MailServer.mailReset token email) fun _ _ => True := by
  cases email with
  | none => exact trivial
  | some email => exact ⟨⟨⟨false,userId,inserted,rfl,email,found,rfl⟩,trivial⟩,fun _ => trivial⟩

theorem warranted_forgotPassword (ours : Bool) (username : String) :
    Warranted server (.forgotPassword ours username) [] (server.forgotPassword ours username) fun _ _ => True := by
  refine warranted_attempt ⟨trivial,trivial⟩ fun answer => ?_
  match answer with
  | none | some none => exact trivial
  | some (some credentials) =>
    dsimp only
    split
    · exact trivial
    · refine warranted_bind (warranted_createPasswordResetToken _ (by simp [told]) fun token more within inserted => ?_)
      split
      · refine warranted_bind (warranted_mono (warranted_mailReset ours inserted (within ?_)) fun more _ _ _ => warranted_audit _)
        simp [told]
      · rename_i off
        refine warranted_ask ⟨trivial,trivial⟩ fun _ => warranted_last ⟨⟨false,credentials.user.id,?_,?_⟩,trivial⟩ fun _ => trivial
        · exact List.mem_append_right _ inserted
        · exact ⟨rfl,rfl,by simpa using off⟩

theorem warranted_register (username passwordHash : String) (email : Option String) :
    Warranted server (.register username passwordHash email) [] (MailServer.register username passwordHash email) fun _ _ => True := by
  refine warranted_ask ⟨trivial,trivial⟩ fun answer => ?_
  cases answer with
  | none => exact trivial
  | some user =>
    cases email with
    | none => exact warranted_audit _
    | some email =>
      refine warranted_attempt ⟨trivial,trivial⟩ fun _ => warranted_bind ?_
      refine warranted_createEmailVerificationToken user.id (by simp [told]) fun token more within inserted => ?_
      refine warranted_attempt ⟨⟨true,user.id,inserted,rfl,within ?_,rfl⟩,trivial⟩ fun _ => warranted_audit _
      simp [told]

theorem warranted_resendVerification (ours : Bool) (userId : Int) :
    Warranted server (.resendVerification ours userId) [] (MailServer.resendVerification ours userId) fun _ _ => True := by
  refine warranted_ask ⟨trivial,trivial⟩ fun answer => ?_
  cases answer with
  | none => exact trivial
  | some user =>
    cases stored : user.email with
    | none => simp only [stored]; exact trivial
    | some email =>
      simp only [stored]
      refine warranted_bind (warranted_createEmailVerificationToken userId (by simp [told]) fun token more within inserted => ?_)
      have own : .own userId (some email) ∈ more := within (by simp [told,stored])
      refine warranted_attempt ⟨⟨true,userId,inserted,rfl,rfl,own⟩,trivial⟩ fun _ => ?_
      exact warranted_last ⟨⟨true,userId,List.mem_append_right _ inserted,rfl,rfl,rfl⟩,trivial⟩ fun _ => trivial

theorem warranted_onStore {routine : Calls ρ} {post : List Fact → ρ → Prop}
    (warranted : Concurrent.Warranted (fun statement answer => told (.store statement) answer)
      (fun known statement => Permitted server request known (.store statement)) known routine post) :
    Warranted server request known (onStore routine) post := by
  refine warranted_embed ?_ ?_ warranted
  · intro request answer
    cases answer <;> rfl
  · exact fun known request permitted => permitted

theorem warranted_resetPassword (now : Int) (token passwordHash : String) :
    Warranted server (.resetPassword now token passwordHash) [] (server.resetPassword now token passwordHash) fun _ _ => True := by
  refine warranted_ask ⟨trivial,trivial⟩ fun there => ?_
  cases there with
  | false => exact trivial
  | true =>
    rw [if_pos rfl]
    have redeemed : Concurrent.Warranted (fun statement answer => told (.store statement) answer)
        (fun known statement => Permitted server (.resetPassword now token passwordHash) known (.store statement))
        (told (.present token) (some true) ++ [])
        (consumePasswordResetToken now (server.tokens.tokenHash token) passwordHash) fun _ _ => True := by
      refine warranted_ask ⟨trivial,trivial⟩ fun found => ?_
      cases found with
      | none => exact trivial
      | some userId =>
        refine warranted_bind ?_
        unfold changePassword
        split
        · refine warranted_last ⟨⟨now,token,rfl,?_,?_⟩,trivial⟩ fun _ => warranted_ask ⟨trivial,trivial⟩ fun _ => trivial
          · simp [told]
          · simp [told]
        · exact trivial
    refine warranted_bind (warranted_mono (warranted_onStore redeemed) fun more result _ _ => ?_)
    cases result with
    | none => exact trivial
    | some _ => exact warranted_audit _

theorem warranted_verifyEmail (now : Int) (token : String) :
    Warranted server (.verifyEmail now token) [] (server.verifyEmail now token) fun _ _ => True := by
  refine warranted_ask ⟨trivial,trivial⟩ fun there => ?_
  cases there with
  | false => exact trivial
  | true =>
    rw [if_pos rfl]
    have redeemed : Concurrent.Warranted (fun statement answer => told (.store statement) answer)
        (fun known statement => Permitted server (.verifyEmail now token) known (.store statement)) (told (.present token) (some true) ++ [])
        (consumeEmailVerificationToken now (server.tokens.tokenHash token)) fun _ _ => True := by
      refine warranted_ask ⟨trivial,trivial⟩ fun found => ?_
      cases found with
      | none => exact trivial
      | some userId =>
        refine warranted_ask ⟨⟨now,token,rfl,?_,?_⟩,trivial⟩ fun _ => warranted_ask ⟨trivial,trivial⟩ fun _ => trivial
        · simp [told]
        · simp [told]
    refine warranted_bind (warranted_mono (warranted_onStore redeemed) fun more result _ _ => ?_)
    cases result with
    | none => exact trivial
    | some _ => exact warranted_audit _

theorem warranted_serve (request : Request) : Warranted server request [] (request.serve server) fun _ _ => True := by
  cases request with
  | forgotPassword ours username => exact warranted_forgotPassword ours username
  | register username passwordHash email => exact warranted_register username passwordHash email
  | resendVerification ours userId => exact warranted_resendVerification ours userId
  | resetPassword now token passwordHash => exact warranted_resetPassword now token passwordHash
  | verifyEmail now token => exact warranted_verifyEmail now token

end Requests

section Learning

variable {server : MailServer} {around : Surroundings} {w : World}

abbrev Past (ι : Type) := List (Event ι Call Call.Answer)

/-- The rows of the tokens of a kind. -/
def Accounts.tokens (accounts : Accounts) (verify : Bool) : Keyed TokenRow :=
  if verify then accounts.emailTokens else accounts.resetTokens

/-- What an answer tells, apart from what is read of accounts. -/
inductive Told (server : MailServer) (w : World) : Call → Fact → Prop
  | drawn : Told server w .newToken (.drawn (server.tokens.draw w.drawn))
  | inserted (verify : Bool) (token : String) (row : TokenRow) {call : Call} (put : call = if verify then
      .insertEmailVerificationToken token row else .insertPasswordResetToken token row) :
      Told server w call (.inserted verify token row.userId)
  | presented (token : String) (there : token ∈ w.known) : Told server w (.present token) (.presented token)
  | owner (verify : Bool) (row : TokenRow) {call : Call} {tokenHash : String}
      (there : Accounts.tokens w.accounts verify tokenHash = some row) : Told server w call (.owner verify tokenHash row.userId)
  | found (username : String) (userId : Int) (email : Option String) {call : Call} : Told server w call (.found username userId email)
  | own (userId : Int) (email : Option String) {call : Call} : Told server w call (.own userId email)
  | created (username passwordHash : String) (userId : Int) {call : Call} :
      Told server w call (.created username passwordHash userId)

theorem ownerAt_some {tokens : Keyed TokenRow} {tokenHash : String} {now userId : Int}
    (found : ownerAt tokens tokenHash now = some userId) : ∃ row, tokens tokenHash = some row ∧ row.userId = userId := by
  unfold ownerAt at found
  split at found
  · rename_i row there
    split at found
    · cases found
      exact ⟨row,there,rfl⟩
    · cases found
  · cases found

theorem told_answer {call : Call} {fact : Fact} (there : fact ∈ told call (some (handle server.tokens around call w).1)) :
    Told server w call fact := by
  cases call with
  | newToken =>
    cases List.mem_singleton.mp there
    exact .drawn
  | createUser username passwordHash =>
    obtain ⟨user,-,rfl⟩ := List.mem_map.mp there
    exact .created username passwordHash user.id
  | insertPasswordResetToken token row =>
    simp only [handle] at there
    split at there
    · cases List.mem_singleton.mp there
      exact .inserted false token row rfl
    · cases there
  | insertEmailVerificationToken token row =>
    simp only [handle] at there
    split at there
    · cases List.mem_singleton.mp there
      exact .inserted true token row rfl
    · cases there
  | present token =>
    simp only [handle] at there
    cases known : w.known.contains token with
    | false =>
      rw [known] at there
      cases there
    | true =>
      rw [known] at there
      cases List.mem_singleton.mp there
      exact .presented token (List.contains_iff_mem.mp known)
  | store statement =>
    cases statement with
    | credentialsByUsername username =>
      obtain ⟨found,-,rfl⟩ := List.mem_map.mp there
      exact .found username found.user.id found.user.email
    | getUser userId =>
      obtain ⟨user,-,rfl⟩ := List.mem_map.mp there
      exact .own userId user.email
    | passwordResetToken tokenHash now =>
      obtain ⟨userId,found,rfl⟩ := List.mem_map.mp there
      obtain ⟨row,held,rfl⟩ := ownerAt_some (Option.mem_toList.mp found)
      exact .owner false row held
    | emailVerificationToken tokenHash now =>
      obtain ⟨userId,found,rfl⟩ := List.mem_map.mp there
      obtain ⟨row,held,rfl⟩ := ownerAt_some (Option.mem_toList.mp found)
      exact .owner true row held
    | _ => cases there
  | _ => cases there

theorem tokens_inserted {table : Keyed TokenRow} {tokens : Tokens} {token : String} {row : TokenRow} {after : Keyed TokenRow}
    (done : insertToken tokens table token row = some after) {tokenHash : String} {held : TokenRow}
    (there : after tokenHash = some held) : table tokenHash = some held ∨ tokenHash = tokens.tokenHash token ∧ held = row := by
  unfold insertToken at done
  split at done
  · cases done
  · cases done
    by_cases same : tokenHash = tokens.tokenHash token
    · subst same
      rw [Function.update_self] at there
      exact .inr ⟨rfl,(Option.some.inj there).symm⟩
    · rw [Function.update_of_ne same] at there
      exact .inl there

theorem deleteKey_some {ρ : Type} {table : Keyed ρ} {deleted key : String} {row : ρ} (there : deleteKey table deleted key = some row) :
    table key = some row := by
  unfold deleteKey at there
  by_cases same : key = deleted
  · subst same
    rw [Function.update_self] at there
    cases there
  · rwa [Function.update_of_ne same] at there

theorem accounts_tokens {backend : Backend} (statement : Statement) (accounts : Accounts) {verify : Bool} {tokenHash : String}
    {row : TokenRow} (there : Accounts.tokens (Account.accounts backend statement accounts).2 verify tokenHash = some row) :
    Accounts.tokens accounts verify tokenHash = some row := by
  cases statement with
  | deletePasswordResetToken deleted =>
    cases verify with
    | false => exact deleteKey_some there
    | true => exact there
  | deleteEmailVerificationToken deleted =>
    cases verify with
    | false => exact there
    | true => exact deleteKey_some there
  | changePassword userId passwordHash =>
    simp only [Account.accounts,Accounts.changePassword] at there
    split at there
    · exact there
    · exact there
  | _ => exact there

/-- A row of a token was there, or was put in for it just now. -/
theorem handle_tokens (call : Call) {verify : Bool} {tokenHash : String} {row : TokenRow}
    (there : Accounts.tokens (handle server.tokens around call w).2.accounts verify tokenHash = some row) :
    Accounts.tokens w.accounts verify tokenHash = some row ∨ ∃ token, tokenHash = server.tokens.tokenHash token ∧
      .inserted verify token row.userId ∈ told call (some (handle server.tokens around call w).1) := by
  cases call with
  | store statement => exact .inl (accounts_tokens statement w.accounts there)
  | createUser username passwordHash =>
    simp only [handle] at there
    split at there
    · exact .inl there
    · exact .inl there
  | setUserEmail userId email =>
    simp only [handle] at there
    split at there
    · exact .inl there
    · exact .inl there
  | deleteEmailVerificationTokens userId =>
    cases verify with
    | false => exact .inl there
    | true => exact .inl (Option.filter_eq_some_iff.mp there).1
  | insertPasswordResetToken token put =>
    simp only [handle] at there ⊢
    cases done : insertToken server.tokens w.accounts.resetTokens token put with
    | none =>
      rw [done] at there
      exact .inl there
    | some after =>
      rw [done] at there
      cases verify with
      | true => exact .inl there
      | false =>
        refine (tokens_inserted done there).imp_right fun put => ⟨token,put.1,?_⟩
        rw [put.2]
        exact List.mem_singleton_self _
  | insertEmailVerificationToken token put =>
    simp only [handle] at there ⊢
    cases done : insertToken server.tokens w.accounts.emailTokens token put with
    | none =>
      rw [done] at there
      exact .inl there
    | some after =>
      rw [done] at there
      cases verify with
      | false => exact .inl there
      | true =>
        refine (tokens_inserted done there).imp_right fun put => ⟨token,put.1,?_⟩
        rw [put.2]
        exact List.mem_singleton_self _
  | _ => exact .inl there

/-- What gives a token to the clients. -/
inductive Gives (around : Surroundings) (token : String) : Call → Prop
  | send (address : String) (read : around.mailbox address = true) : Gives around token (.send address token)
  | reply : Gives around token (.reply true token)

theorem handle_known (call : Call) {token : String} (there : token ∈ (handle server.tokens around call w).2.known) :
    token ∈ w.known ∨ Gives around token call := by
  cases call with
  | send address sent =>
    simp only [handle] at there
    split at there
    · rename_i read
      rcases List.mem_cons.mp there with rfl | before
      · exact .inr (.send address read)
      · exact .inl before
    · exact .inl there
  | reply ours sent =>
    cases ours with
    | false => exact .inl there
    | true =>
      rcases List.mem_cons.mp there with rfl | before
      · exact .inr .reply
      · exact .inl before
  | createUser username passwordHash =>
    simp only [handle] at there
    split at there
    · exact .inl there
    · exact .inl there
  | setUserEmail userId email =>
    simp only [handle] at there
    split at there
    · exact .inl there
    · exact .inl there
  | insertPasswordResetToken token put =>
    simp only [handle] at there
    split at there
    · exact .inl there
    · exact .inl there
  | insertEmailVerificationToken token put =>
    simp only [handle] at there
    split at there
    · exact .inl there
    · exact .inl there
  | _ => exact .inl there

theorem handle_drawn (call : Call) : (handle server.tokens around call w).2.drawn = w.drawn ∨
    call = .newToken ∧ (handle server.tokens around call w).2.drawn = w.drawn + 1 := by
  cases call with
  | newToken => exact .inr ⟨rfl,rfl⟩
  | createUser username passwordHash =>
    simp only [handle]
    split
    · exact .inl rfl
    · exact .inl rfl
  | setUserEmail userId email =>
    simp only [handle]
    split
    · exact .inl rfl
    · exact .inl rfl
  | insertPasswordResetToken token put =>
    simp only [handle]
    split
    · exact .inl rfl
    · exact .inl rfl
  | insertEmailVerificationToken token put =>
    simp only [handle]
    split
    · exact .inl rfl
    · exact .inl rfl
  | _ => exact .inl rfl

end Learning

section Redemption

variable {ι : Type} [DecidableEq ι] {server : MailServer} {around : Surroundings} {requests : ι → Request} {s : State ι}

/-- A row of the token was put in. -/
def Put (server : MailServer) (past : Past ι) (verify : Bool) (tokenHash : String) (userId : Int) : Prop :=
  ∃ j token, tokenHash = server.tokens.tokenHash token ∧ .inserted verify token userId ∈ gathered told past j

def Given (around : Surroundings) (past : Past ι) (token : String) : Prop := ∃ event ∈ past, Gives around token event.request

/-- What holds of the tokens and of what requests were told. -/
structure Sound (server : MailServer) (around : Surroundings) (requests : ι → Request)
    (world : Concurrent.World ι Call Call.Answer World) : Prop where
  drawn : ∀ i token, .drawn token ∈ gathered told world.past i → ∃ n < world.shared.drawn, token = server.tokens.draw n
  apart : ∀ i j token, .drawn token ∈ gathered told world.past i → .drawn token ∈ gathered told world.past j → i = j
  inserted : ∀ i verify token userId, .inserted verify token userId ∈ gathered told world.past i →
    .drawn token ∈ gathered told world.past i
  once : ∀ i token verify userId verify' userId', .inserted verify token userId ∈ gathered told world.past i →
    .inserted verify' token userId' ∈ gathered told world.past i → verify = verify' ∧ userId = userId'
  row : ∀ verify tokenHash row, Accounts.tokens world.shared.accounts verify tokenHash = some row →
    Put server world.past verify tokenHash row.userId
  owner : ∀ i verify tokenHash userId, .owner verify tokenHash userId ∈ gathered told world.past i →
    Put server world.past verify tokenHash userId
  known : ∀ token ∈ world.shared.known, Given around world.past token
  presented : ∀ i token, .presented token ∈ gathered told world.past i → Given around world.past token
  call : ∀ event ∈ world.past, Granted server (requests event.process) (gathered told world.past event.process) event.request

theorem Put.later {past : Past ι} {verify : Bool} {tokenHash : String} {userId : Int} (put : Put server past verify tokenHash userId)
    (event : Event ι Call Call.Answer) : Put server (event :: past) verify tokenHash userId := by
  obtain ⟨j,token,same,there⟩ := put
  exact ⟨j,token,same,gathered_grows past event j there⟩

omit [DecidableEq ι] in
theorem Given.later {past : Past ι} {token : String} (given : Given around past token) (event : Event ι Call Call.Answer) :
    Given around (event :: past) token := by
  obtain ⟨earlier,there,gives⟩ := given
  exact ⟨earlier,List.mem_cons_of_mem _ there,gives⟩

theorem sound_fails {world : Concurrent.World ι Call Call.Answer World} (i : ι) (call : Call) (sound : Sound server around requests world)
    (permitted : Permitted server (requests i) (gathered told world.past i) call) :
    Sound server around requests ⟨world.shared,⟨i,call,none⟩ :: world.past⟩ := by
  have same : ∀ j, gathered told (⟨i,call,none⟩ :: world.past) j = gathered told world.past j := by
    intro j
    by_cases mine : j = i
    · subst mine
      rw [gathered_self]
      have none : told call none = [] := by
        cases call with
        | store statement => cases statement <;> rfl
        | _ => rfl
      rw [none]
      rfl
    · exact gathered_other mine world.past
  refine ⟨?_,?_,?_,?_,?_,?_,?_,?_,?_⟩
  · intro j token there
    exact sound.drawn j token (same j ▸ there)
  · intro j k token there also
    exact sound.apart j k token (same j ▸ there) (same k ▸ also)
  · intro j verify token userId there
    rw [same] at there ⊢
    exact sound.inserted j verify token userId there
  · intro j token verify userId verify' userId' there also
    rw [same] at there also
    exact sound.once j token verify userId verify' userId' there also
  · exact fun verify tokenHash row there => (sound.row verify tokenHash row there).later _
  · intro j verify tokenHash userId there
    rw [same] at there
    exact (sound.owner j verify tokenHash userId there).later _
  · exact fun token there => (sound.known token there).later _
  · intro j token there
    rw [same] at there
    exact (sound.presented j token there).later _
  · exact permitted_past (fun i => Granted server (requests i)) _ (fun within granted => granted_mono within granted) sound.call permitted.1

/-- A call puts in one token at most. -/
theorem told_once {w : World} {call : Call} {token : String} {verify verify' : Bool} {userId userId' : Int}
    (there : Told server w call (.inserted verify token userId)) (also : Told server w call (.inserted verify' token userId')) :
    verify = verify' ∧ userId = userId' := by
  cases there with
  | inserted _ _ row put =>
    cases also with
    | inserted _ _ row' put' =>
      subst put
      cases verify with
      | false =>
        cases verify' with
        | false =>
          cases put'
          exact ⟨rfl,rfl⟩
        | true => cases put'
      | true =>
        cases verify' with
        | false => cases put'
        | true =>
          cases put'
          exact ⟨rfl,rfl⟩

theorem told_drawn {w : World} {call : Call} {token : String} (there : Told server w call (.drawn token)) :
    call = .newToken ∧ token = server.tokens.draw w.drawn := by
  cases there with
  | drawn => exact ⟨rfl,rfl⟩

/-- What is put in was drawn before, and was not put in before. -/
theorem told_inserted {w : World} {request : Request} {known : List Fact} {call : Call} {verify : Bool} {token : String}
    {userId : Int} (there : Told server w call (.inserted verify token userId)) (permitted : Permitted server request known call) :
    .drawn token ∈ known ∧ ∀ verify userId, .inserted verify token userId ∉ known := by
  cases there with
  | inserted _ _ row put =>
    subst put
    cases verify with
    | false => exact permitted.2
    | true => exact permitted.2

theorem sound_made {world : Concurrent.World ι Call Call.Answer World} (i : ι) (call : Call) (sound : Sound server around requests world)
    (permitted : Permitted server (requests i) (gathered told world.past i) call) :
    Sound server around requests ⟨(handle server.tokens around call world.shared).2,
      ⟨i,call,some (handle server.tokens around call world.shared).1⟩ :: world.past⟩ := by
  have fresh : ∀ j token, .drawn token ∈ gathered told world.past j → token ≠ server.tokens.draw world.shared.drawn := by
    rintro j token there rfl
    obtain ⟨n,before,same⟩ := sound.drawn j _ there
    exact absurd (server.tokens.draw_injective same) (Nat.ne_of_gt before)
  refine ⟨?_,?_,?_,?_,?_,?_,?_,?_,?_⟩
  · intro j token there
    rcases gathered_step there with before | ⟨rfl,new⟩
    · obtain ⟨n,before,same⟩ := sound.drawn j token before
      rcases handle_drawn call with kept | ⟨-,more⟩
      · exact ⟨n,Nat.lt_of_lt_of_eq before kept.symm,same⟩
      · exact ⟨n,Nat.lt_of_lt_of_eq (Nat.lt_succ_of_lt before) more.symm,same⟩
    · obtain ⟨rfl,same⟩ := told_drawn (told_answer new)
      exact ⟨world.shared.drawn,Nat.lt_succ_self _,same⟩
  · intro j k token there also
    rcases gathered_step there with before | ⟨rfl,new⟩
    · rcases gathered_step also with before' | ⟨rfl,new'⟩
      · exact sound.apart j k token before before'
      · exact absurd (told_drawn (told_answer new')).2 (fresh j token before)
    · rcases gathered_step also with before' | ⟨rfl,new'⟩
      · exact absurd (told_drawn (told_answer new)).2 (fresh k token before')
      · rfl
  · intro j verify token userId there
    rcases gathered_step there with before | ⟨rfl,new⟩
    · exact gathered_grows _ _ _ (sound.inserted j verify token userId before)
    · exact gathered_grows _ _ _ (told_inserted (told_answer new) permitted).1
  · intro j token verify userId verify' userId' there also
    rcases gathered_step there with before | ⟨rfl,new⟩
    · rcases gathered_step also with before' | ⟨rfl,new'⟩
      · exact sound.once j token verify userId verify' userId' before before'
      · exact absurd before ((told_inserted (told_answer new') permitted).2 verify userId)
    · rcases gathered_step also with before' | ⟨-,new'⟩
      · exact absurd before' ((told_inserted (told_answer new) permitted).2 verify' userId')
      · exact told_once (told_answer new) (told_answer new')
  · intro verify tokenHash row there
    rcases handle_tokens call there with before | ⟨token,same,new⟩
    · exact (sound.row verify tokenHash row before).later _
    · exact ⟨i,token,same,mem_gathered.mpr ⟨_,List.mem_cons_self,rfl,new⟩⟩
  · intro j verify tokenHash userId there
    rcases gathered_step there with before | ⟨rfl,new⟩
    · exact (sound.owner j verify tokenHash userId before).later _
    · cases told_answer new with
      | owner _ row held => exact (sound.row verify tokenHash row held).later _
  · intro token there
    rcases handle_known call there with before | gives
    · exact (sound.known token before).later _
    · exact ⟨_,List.mem_cons_self,gives⟩
  · intro j token there
    rcases gathered_step there with before | ⟨rfl,new⟩
    · exact (sound.presented j token before).later _
    · cases told_answer new with
      | presented _ known => exact (sound.known token known).later _
  · exact permitted_past (fun i => Granted server (requests i)) _ (fun within granted => granted_mono within granted) sound.call permitted.1

theorem sound_called {world : Concurrent.World ι Call Call.Answer World} (i : ι) (call : Call) (fails : Bool)
    (sound : Sound server around requests world) (permitted : Permitted server (requests i) (gathered told world.past i) call) :
    Sound server around requests (world.perform (handle server.tokens around) i call fails) := by
  cases fails with
  | true => exact sound_fails i call sound permitted
  | false => exact sound_made i call sound permitted

theorem sound_outside {world : Concurrent.World ι Call Call.Answer World} (event : Outside) {shared : World}
    (sound : Sound server around requests world) (occurred : occur event world.shared = some shared) :
    Sound server around requests ⟨shared,world.past⟩ := by
  cases event with
  | others event =>
    cases occurred
    exact { sound with }
  | spend tokenHash =>
    cases occurred
    refine { sound with row := fun verify other row there => sound.row verify other row ?_ }
    cases verify with
    | false => exact deleteKey_some there
    | true => exact deleteKey_some there
  | pass now =>
    cases occurred
    exact { sound with }

theorem sound_start {users : Table UserRow UserRow.id} : Sound server around requests (start server users requests).toWorld where
  drawn := fun _ _ there => absurd there List.not_mem_nil
  apart := fun _ _ _ there => absurd there List.not_mem_nil
  inserted := fun _ _ _ _ there => absurd there List.not_mem_nil
  once := fun _ _ _ _ _ _ there => absurd there List.not_mem_nil
  row := fun verify _ _ there => by cases verify <;> cases there
  owner := fun _ _ _ _ there => absurd there List.not_mem_nil
  known := fun _ there => absurd there List.not_mem_nil
  presented := fun _ _ there => absurd there List.not_mem_nil
  call := fun _ there => absurd there List.not_mem_nil

theorem sound_run {users : Table UserRow UserRow.id}
    (reach : Transition.Reachable (step server around) (start server users requests) s) : Sound server around requests s.toWorld := by
  refine (warranted_kept (Sound server around requests) (fun _ _ _ => True) (fun world i call fails => sound_called i call fails)
    (fun world event shared => sound_outside event) reach sound_start fun i => warranted_serve (requests i)).1

theorem inserted_apart {world : Concurrent.World ι Call Call.Answer World} (sound : Sound server around requests world)
    {i j : ι} {token : String} {verify verify' : Bool} {userId userId' : Int}
    (there : .inserted verify token userId ∈ gathered told world.past i)
    (also : .inserted verify' token userId' ∈ gathered told world.past j) : i = j ∧ verify = verify' ∧ userId = userId' := by
  have same := sound.apart i j token (sound.inserted i verify token userId there) (sound.inserted j verify' token userId' also)
  subst same
  exact ⟨rfl,sound.once i token verify userId verify' userId' there also⟩

/-- A token that the clients have presented was mailed to them or answered to them, for the account it is of. -/
theorem presented_given {world : Concurrent.World ι Call Call.Answer World} (sound : Sound server around requests world)
    {i : ι} {token : String} {verify : Bool} {userId : Int} (presented : .presented token ∈ gathered told world.past i)
    (owner : .owner verify (server.tokens.tokenHash token) userId ∈ gathered told world.past i) :
    ∃ j, (∃ address sent, ⟨j,.send address token,sent⟩ ∈ world.past ∧ around.mailbox address = true ∧
        Mails (gathered told world.past j) verify userId address (requests j)) ∨
      ∃ replied, ⟨j,.reply true token,replied⟩ ∈ world.past ∧ Replies server true verify userId (requests j) := by
  obtain ⟨k,other,hashes,put⟩ := sound.owner i verify _ userId owner
  have same := server.tokens.tokenHash_injective hashes
  subst same
  obtain ⟨⟨j,call,answer⟩,past,gives⟩ := sound.presented i token presented
  have granted := sound.call _ past
  cases gives with
  | send address read =>
    obtain ⟨verify',userId',inserted,mails⟩ := granted
    obtain ⟨-,rfl,rfl⟩ := inserted_apart sound inserted put
    exact ⟨j,.inl ⟨address,answer,past,read,mails⟩⟩
  | reply =>
    obtain ⟨verify',userId',inserted,replies⟩ := granted
    obtain ⟨-,rfl,rfl⟩ := inserted_apart sound inserted put
    exact ⟨j,.inr ⟨answer,past,replies⟩⟩

theorem found_by {past : Past ι} {i : ι} {username : String} {userId : Int} {email : Option String}
    (there : .found username userId email ∈ gathered told past i) : ∃ found,
    ⟨i,.store (.credentialsByUsername username),some (some found)⟩ ∈ past ∧ found.user.id = userId ∧ found.user.email = email := by
  obtain ⟨⟨j,call,answer⟩,before,rfl,new⟩ := mem_gathered.mp there
  dsimp only at new
  unfold told at new
  split at new
  case h_2 =>
    simp only [List.mem_map,Option.mem_toList] at new
    obtain ⟨found,given,same⟩ := new
    cases same
    rw [Option.join_eq_some_iff.mp given] at before
    exact ⟨found,before,rfl,rfl⟩
  all_goals simp at new

theorem own_by {past : Past ι} {i : ι} {userId : Int} {email : Option String} (there : .own userId email ∈ gathered told past i) :
    ∃ user, ⟨i,.store (.getUser userId),some (some user)⟩ ∈ past ∧ user.email = email := by
  obtain ⟨⟨j,call,answer⟩,before,rfl,new⟩ := mem_gathered.mp there
  dsimp only at new
  unfold told at new
  split at new
  case h_3 =>
    simp only [List.mem_map,Option.mem_toList] at new
    obtain ⟨user,given,same⟩ := new
    cases same
    rw [Option.join_eq_some_iff.mp given] at before
    exact ⟨user,before,rfl⟩
  all_goals simp at new

theorem created_by {past : Past ι} {i : ι} {username passwordHash : String} {userId : Int}
    (there : .created username passwordHash userId ∈ gathered told past i) :
    ∃ user, ⟨i,.createUser username passwordHash,some (some user)⟩ ∈ past ∧ user.id = userId := by
  obtain ⟨⟨j,call,answer⟩,before,rfl,new⟩ := mem_gathered.mp there
  dsimp only at new
  unfold told at new
  split at new
  case h_4 =>
    simp only [List.mem_map,Option.mem_toList] at new
    obtain ⟨user,given,same⟩ := new
    cases same
    rw [Option.join_eq_some_iff.mp given] at before
    exact ⟨user,before,rfl⟩
  all_goals simp at new

variable {users : Table UserRow UserRow.id}

/-- Where mail is set up, whoever works together and whatever they ask for: the password of an account is changed by mail
only with a token that was mailed to the address of the account, and only if they read the mail to that address. -/
theorem reset_by_mailbox (reach : Transition.Reachable (step server around) (start server users requests) s)
    (smtp : server.smtpConfigured = true) {i : ι} {userId : Int} {passwordHash : String} {answer : Option Bool}
    (changed : ⟨i,.store (.changePassword userId passwordHash),answer⟩ ∈ s.past) :
    ∃ now token j ours username found email sent, requests i = .resetPassword now token passwordHash ∧
      requests j = .forgotPassword ours username ∧
      ⟨j,.store (.credentialsByUsername username),some (some found)⟩ ∈ s.past ∧ found.user.id = userId ∧
      found.user.email = some email ∧ ⟨j,.send (trim email) token,sent⟩ ∈ s.past ∧ around.mailbox (trim email) = true := by
  have sound := sound_run reach
  obtain ⟨now,token,asked,presented,owner⟩ := sound.call _ changed
  obtain ⟨j,⟨address,sent,mailed,read,mails⟩ | ⟨replied,past,replies⟩⟩ := presented_given sound presented owner
  · cases request : requests j with
    | forgotPassword ours username =>
      rw [request] at mails
      obtain ⟨-,email,found,rfl⟩ := mails
      obtain ⟨credentials,before,same,stored⟩ := found_by found
      exact ⟨now,token,j,ours,username,credentials,email,sent,asked,request,before,same,stored,mailed,read⟩
    | register _ _ _ =>
      rw [request] at mails
      cases mails.1
    | resendVerification _ _ =>
      rw [request] at mails
      cases mails.1
    | resetPassword _ _ _ =>
      rw [request] at mails
      cases mails
    | verifyEmail _ _ =>
      rw [request] at mails
      cases mails
  · cases request : requests j with
    | forgotPassword ours username =>
      rw [request] at replies
      rw [replies.2.2] at smtp
      cases smtp
    | resendVerification _ _ =>
      rw [request] at replies
      cases replies.2.1
    | register _ _ _ =>
      rw [request] at replies
      cases replies
    | resetPassword _ _ _ =>
      rw [request] at replies
      cases replies
    | verifyEmail _ _ =>
      rw [request] at replies
      cases replies

/-- The address of an account is verified only with a token that a session of the account has asked for and that was answered
to the clients, or that they have read in the mail to the address that is stored for it or that it was registered with. -/
theorem verified_by_mailbox (reach : Transition.Reachable (step server around) (start server users requests) s) {i : ι}
    {userId : Int} {answer : Option Nat} (verified : ⟨i,.store (.markEmailVerified userId),answer⟩ ∈ s.past) :
    ∃ now token j, requests i = .verifyEmail now token ∧
      ((∃ replied, requests j = .resendVerification true userId ∧ ⟨j,.reply true token,replied⟩ ∈ s.past) ∨
      (∃ ours user email sent, requests j = .resendVerification ours userId ∧
        ⟨j,.store (.getUser userId),some (some user)⟩ ∈ s.past ∧ user.email = some email ∧
        ⟨j,.send email token,sent⟩ ∈ s.past ∧ around.mailbox email = true) ∨
      ∃ username passwordHash email user sent, requests j = .register username passwordHash (some email) ∧
        ⟨j,.createUser (trim username) passwordHash,some (some user)⟩ ∈ s.past ∧ user.id = userId ∧
        ⟨j,.send (trim email) token,sent⟩ ∈ s.past ∧ around.mailbox (trim email) = true) := by
  have sound := sound_run reach
  obtain ⟨now,token,asked,presented,owner⟩ := sound.call _ verified
  obtain ⟨j,⟨address,sent,mailed,read,mails⟩ | ⟨replied,past,replies⟩⟩ := presented_given sound presented owner
  · cases request : requests j with
    | forgotPassword ours username =>
      rw [request] at mails
      cases mails.1
    | register username passwordHash email =>
      rw [request] at mails
      obtain ⟨-,created,same⟩ := mails
      obtain ⟨given,rfl,rfl⟩ := Option.map_eq_some_iff.mp same
      obtain ⟨user,before,rfl⟩ := created_by created
      exact ⟨now,token,j,asked,.inr (.inr ⟨username,passwordHash,given,user,sent,request,before,rfl,mailed,read⟩)⟩
    | resendVerification ours sessionUser =>
      rw [request] at mails
      obtain ⟨-,rfl,own⟩ := mails
      obtain ⟨user,before,stored⟩ := own_by own
      exact ⟨now,token,j,asked,.inr (.inl ⟨ours,user,address,sent,request,before,stored,mailed,read⟩)⟩
    | resetPassword _ _ _ =>
      rw [request] at mails
      cases mails
    | verifyEmail _ _ =>
      rw [request] at mails
      cases mails
  · cases request : requests j with
    | forgotPassword ours username =>
      rw [request] at replies
      cases replies.2.1
    | resendVerification client sessionUser =>
      rw [request] at replies
      obtain ⟨rfl,-,rfl⟩ := replies
      exact ⟨now,token,j,asked,.inl ⟨replied,request,past⟩⟩
    | register _ _ _ =>
      rw [request] at replies
      cases replies
    | resetPassword _ _ _ =>
      rw [request] at replies
      cases replies
    | verifyEmail _ _ =>
      rw [request] at replies
      cases replies

end Redemption

section Sample

/-- Tokens that grow longer. -/
def plainTokens : Tokens where
  draw := fun n => String.ofList (List.replicate (n + 1) 'a')
  draw_injective := by
    intro n m same
    have lengths := congrArg List.length (String.ofList_injective same)
    simp only [List.length_replicate] at lengths
    exact Nat.succ.inj lengths
  tokenHash := id
  tokenHash_injective := Function.injective_id

def sampleServer : MailServer := ⟨plainTokens,true⟩

/-- The clients read the mail to one address. -/
def sampleSurroundings : Surroundings where
  backend := ⟨fun stored given => stored = given,fun _ _ => false,fun _ _ => none⟩
  lowercase := id
  mailbox := fun address => address = "ann@qd.invalid"

def annRow (id : Int) : UserRow := ⟨id,"ann","hash","user",false,0,some "ann@qd.invalid",false,none,false⟩

theorem annRow_id (id : Int) : (annRow id).id = id := rfl

/-- A token is asked for and used, for a new password and for the address. -/
def annRequests : Bool × Bool → Request
  | (false,false) => .forgotPassword true "ann"
  | (false,true) => .resetPassword 100 "a" "$argon2id$new"
  | (true,false) => .resendVerification true 1
  | (true,true) => .verifyEmail 100 "aa"

def annActions : List (Action (Bool × Bool) Outside) :=
  List.replicate 6 (.call (false,false) false) ++ List.replicate 3 (.call (false,true) false) ++
    List.replicate 7 (.call (true,false) false) ++ List.replicate 3 (.call (true,true) false)

abbrev annStart : State (Bool × Bool) := start sampleServer (Table.empty.insert annRow annRow_id) annRequests

set_option maxRecDepth 20000 in
theorem ann_ran : (Transition.exec (step sampleServer sampleSurroundings) annStart annActions).isSome = true := rfl

def annRedeemed : State (Bool × Bool) := (Transition.exec (step sampleServer sampleSurroundings) annStart annActions).get ann_ran

set_option maxRecDepth 20000 in
theorem ann_reset_by_mailbox : ∃ now token j ours username found email sent,
    annRequests (false,true) = .resetPassword now token "$argon2id$new" ∧ annRequests j = .forgotPassword ours username ∧
    ⟨j,.store (.credentialsByUsername username),some (some found)⟩ ∈ annRedeemed.past ∧ found.user.id = 1 ∧
    found.user.email = some email ∧ ⟨j,.send (trim email) token,sent⟩ ∈ annRedeemed.past ∧
    sampleSurroundings.mailbox (trim email) = true :=
  reset_by_mailbox (Transition.reachable_get _ annActions ann_ran) rfl
    (List.mem_of_getElem? (i := 10) rfl : ⟨(false,true),.store (.changePassword 1 "$argon2id$new"),some true⟩ ∈ annRedeemed.past)

set_option maxRecDepth 20000 in
theorem ann_verified_by_mailbox : ∃ now token j, annRequests (true,true) = .verifyEmail now token ∧
    ((∃ replied, annRequests j = .resendVerification true 1 ∧ ⟨j,.reply true token,replied⟩ ∈ annRedeemed.past) ∨
    (∃ ours user email sent, annRequests j = .resendVerification ours 1 ∧
      ⟨j,.store (.getUser 1),some (some user)⟩ ∈ annRedeemed.past ∧ user.email = some email ∧
      ⟨j,.send email token,sent⟩ ∈ annRedeemed.past ∧ sampleSurroundings.mailbox email = true) ∨
    ∃ username passwordHash email user sent, annRequests j = .register username passwordHash (some email) ∧
      ⟨j,.createUser (trim username) passwordHash,some (some user)⟩ ∈ annRedeemed.past ∧ user.id = 1 ∧
      ⟨j,.send (trim email) token,sent⟩ ∈ annRedeemed.past ∧ sampleSurroundings.mailbox (trim email) = true) :=
  verified_by_mailbox (Transition.reachable_get _ annActions ann_ran)
    (List.mem_of_getElem? (i := 0) rfl : ⟨(true,true),.store (.markEmailVerified 1),some (1 : Nat)⟩ ∈ annRedeemed.past)

end Sample

end Qdrust.Account.Mailed
