import Qdrust.Account.Administration
import Qdrust.Account.HeaderAuth
import Qdrust.Account.Redemption
import Qdrust.Library.Warranted

/-! Sessions that are opened, used and ended while requests change the accounts behind them. A change
of password ends every session that was opened on what was read before it. -/
namespace Qdrust.Account
open Library Concurrent

namespace SessionConfig

variable (config : SessionConfig)

/-- The store has taken the sessions away; the cache is swept where it says so. -/
def changePassword (userId : Int) (passwordHash : String) : SiteCalls Bool := do
  let changed ← HeaderAuth.onAccounts (Account.changePassword userId passwordHash)
  if changed then config.invalidateUser userId
  return changed

def consumePasswordReset (now : Int) (token passwordHash : String) : SiteCalls (Option Int) := do
  let userId ← HeaderAuth.onAccounts (consumePasswordResetToken now (config.tokenHash token) passwordHash)
  match userId with
  | none => return none
  | some id =>
    config.invalidateUser id
    return some id

def consumeEmailVerification (now : Int) (token : String) : SiteCalls (Option Int) := do
  let userId ← HeaderAuth.onAccounts (consumeEmailVerificationToken now (config.tokenHash token))
  match userId with
  | none => return none
  | some id =>
    config.invalidateUser id
    return some id

def rotateCsrfToken (headers : Headers) (newCsrf : String) : SiteCalls (Except ApiError String) := do
  match ← config.requireSession headers with
  | .error error => return .error error
  | .ok (origin,_) =>
    let _ ← askSite (.rotateCsrf (config.tokenHash origin.token) (config.tokenHash newCsrf))
    return .ok newCsrf

end SessionConfig

namespace Revocation

inductive SessionRequest where
  | authenticate (headers : Headers)
  | authenticateStored (headers : Headers)
  | issue (serving : Serving) (userId : Int)
  | logout (token : String)
  | changePassword (userId : Int) (passwordHash : String)
  | resetPassword (now : Int) (token passwordHash : String)
  | verifyEmail (now : Int) (token : String)
  | rotateCsrf (headers : Headers) (newCsrf : String)
  | update (id : Int) (input : AdminUserUpdate)
  | delete (id : Int)

/-- The request, with what it answers where it asks who it is from. -/
def SessionRequest.handle (config : SessionConfig) : SessionRequest → SiteCalls (Option Authentication)
  | .authenticate headers => config.requireSession headers >>= fun answer => return some answer
  | .authenticateStored headers => config.requireSessionFromStore headers >>= fun answer => return some answer
  | .issue serving userId => HeaderAuth.onAccounts (createSession serving userId) >>= fun _ => return none
  | .logout token => config.revokeSession token >>= fun _ => return none
  | .changePassword userId passwordHash => config.changePassword userId passwordHash >>= fun _ => return none
  | .resetPassword now token passwordHash => config.consumePasswordReset now token passwordHash >>= fun _ => return none
  | .verifyEmail now token => config.consumeEmailVerification now token >>= fun _ => return none
  | .rotateCsrf headers newCsrf => config.rotateCsrfToken headers newCsrf >>= fun _ => return none
  | .update id input => config.updateUser id input >>= fun _ => return none
  | .delete id => config.deleteUser id >>= fun _ => return none

open Administration (Elapsed elapse)

variable {ι : Type} [DecidableEq ι]

abbrev State (ι : Type) := Concurrent.State ι SiteCall SiteCall.Answer Site (Option Authentication)

abbrev step (backend : Backend) : State ι → Action ι Elapsed → Option (State ι) := Concurrent.step (site backend) elapse

def start (config : SessionConfig) (shared : Site) (requests : ι → SessionRequest) : State ι :=
  .start shared fun i => (requests i).handle config

abbrev Past (ι : Type) := List (Event ι SiteCall SiteCall.Answer)

/-- A password of the user was changed, and the change committed. -/
def Changes (userId : Int) : Event ι SiteCall SiteCall.Answer → Prop
  | ⟨_,.store (.changePassword id _),some true⟩ => id = userId
  | _ => False

/-- The event at which a process reads the credentials on which it opens a session. -/
abbrev read (i : ι) (userId : Int) (credentials : UserCredentials) : Event ι SiteCall SiteCall.Answer :=
  ⟨i,.store (.credentialsById userId),some (some credentials)⟩

/-- The session behind the hash was ended by a logout. -/
def Ends (tokenHash : String) : Event ι SiteCall SiteCall.Answer → Prop
  | ⟨_,.revokeSession hash,some _⟩ => hash = tokenHash
  | _ => False

/-- A process opened the session behind the hash on credentials of the user, and it was not ended
since. What came after the credentials were read is `later`. -/
def Opening (past later : Past ι) (tokenHash : String) (userId : Int) (credentials : UserCredentials) : Prop :=
  ∃ i earlier row after between, past = later ++ read i userId credentials :: earlier ∧
    later = after ++ ⟨i,.store (.insertSession tokenHash row),some ()⟩ :: between ∧ row.userId = userId ∧
    ∀ event ∈ after, ¬Ends tokenHash event

/-- The session behind the hash was opened on credentials of the user and not ended since, and no
change of the password has been committed since they were read. -/
def Opened (past : Past ι) (tokenHash : String) (userId : Int) : Prop :=
  ∃ later credentials, Opening past later tokenHash userId credentials ∧ ∀ event ∈ later, ¬Changes userId event

/-- The store was asked for the session behind the hash at some moment and answered this, and it was
`Opened` then. -/
def Answered (past : Past ι) (tokenHash : String) (session : AuthenticatedSession) : Prop :=
  ∃ later i earlier, past = later ++ ⟨i,.authenticateSession tokenHash,some (some session)⟩ :: earlier ∧
    Opened earlier tokenHash session.user.id

/-- What a process can be told: the version of a user's sessions, and the session behind a hash. -/
inductive Fact where
  | version (userId sessionVersion : Int)
  | session (tokenHash : String) (session : AuthenticatedSession)

def told : (request : SiteCall) → Option request.Answer → List Fact
  | .store (.credentialsById userId),answer => answer.join.toList.map fun credentials => .version userId credentials.sessionVersion
  | .authenticateSession tokenHash,answer => answer.join.toList.map (.session tokenHash)
  | .cacheGet tokenHash,answer => answer.join.toList.map (.session tokenHash)
  | _,_ => []

/-- A session is opened, or put into the cache, only by a process that was told of what it writes. -/
def Permitted (known : List Fact) : SiteCall → Prop
  | .store (.insertSession _ row) => .version row.userId row.sessionVersion ∈ known
  | .cacheSet tokenHash session _ => .session tokenHash session ∈ known
  | _ => True

/-- A session that was found with a cookie is one the process was told of. -/
def Admits (config : SessionConfig) (known : List Fact) (result : Option Authentication) : Prop :=
  ∀ origin session, result = some (.ok (origin,session)) → origin.bearer = false →
    .session (config.tokenHash origin.token) session ∈ known

section Requests

variable {config : SessionConfig} {ρ : Type} {known : List Fact}

abbrev Warranted (known : List Fact) (routine : SiteCalls ρ) (post : List Fact → ρ → Prop) : Prop :=
  Concurrent.Warranted told Permitted known routine post

/-- A part that opens no session and puts none into the cache. -/
abbrev Harmless (routine : SiteCalls ρ) : Prop := routine.Avoids fun request => ¬∀ known, Permitted known request

theorem harmless_invalidateUser (userId : Int) : Harmless (config.invalidateUser userId) := by
  unfold SessionConfig.invalidateUser
  split
  · refine .call (not_not.mpr fun _ => trivial) fun indexed => ?_
    split
    · exact .call (not_not.mpr fun _ => trivial) fun _ => .done _
    · refine .call (not_not.mpr fun _ => trivial) fun answer => ?_
      cases answer with
      | none => exact .done _
      | some _ => exact .call (not_not.mpr fun _ => trivial) fun _ => .done _
  · exact .done _

theorem harmless_changePassword (userId : Int) (passwordHash : String) :
    Harmless (HeaderAuth.onAccounts (Account.changePassword userId passwordHash)) := by
  refine Routine.avoids_embed ?_
  unfold Account.changePassword
  split
  · exact Routine.avoids_ask (not_not.mpr fun _ => trivial)
  · exact .failed

theorem harmless_consumePasswordResetToken (now : Int) (tokenHash passwordHash : String) :
    Harmless (HeaderAuth.onAccounts (consumePasswordResetToken now tokenHash passwordHash)) := by
  refine Routine.avoids_embed (Routine.avoids_bind (Routine.avoids_ask (not_not.mpr fun _ => trivial)) fun found => ?_)
  cases found with
  | none => exact .done _
  | some userId =>
    refine Routine.avoids_bind ?_ fun _ => ?_
    · unfold Account.changePassword
      split
      · exact Routine.avoids_ask (not_not.mpr fun _ => trivial)
      · exact .failed
    · exact Routine.avoids_bind (Routine.avoids_ask (not_not.mpr fun _ => trivial)) fun _ => .done _

theorem harmless_consumeEmailVerificationToken (now : Int) (tokenHash : String) :
    Harmless (HeaderAuth.onAccounts (consumeEmailVerificationToken now tokenHash)) := by
  refine Routine.avoids_embed (Routine.avoids_bind (Routine.avoids_ask (not_not.mpr fun _ => trivial)) fun found => ?_)
  cases found with
  | none => exact .done _
  | some userId =>
    refine Routine.avoids_bind (Routine.avoids_ask (not_not.mpr fun _ => trivial)) fun _ => ?_
    exact Routine.avoids_bind (Routine.avoids_ask (not_not.mpr fun _ => trivial)) fun _ => .done _

theorem harmless_updateUser (id : Int) (input : AdminUserUpdate) : Harmless (config.updateUser id input) := by
  refine Routine.avoids_bind (Routine.avoids_ask (not_not.mpr fun _ => trivial)) fun current => ?_
  cases current with
  | none => exact .done _
  | some current =>
    dsimp only
    split
    · exact .done _
    · refine Routine.avoids_bind (Routine.avoids_ask (not_not.mpr fun _ => trivial)) fun _ => ?_
      refine Routine.avoids_bind (Routine.avoids_ask (not_not.mpr fun _ => trivial)) fun changed => ?_
      cases changed with
      | none => exact .done _
      | some user => exact Routine.avoids_bind (harmless_invalidateUser id) fun _ => .done _

theorem harmless_deleteUser (id : Int) : Harmless (config.deleteUser id) := by
  refine Routine.avoids_bind (Routine.avoids_ask (not_not.mpr fun _ => trivial)) fun current => ?_
  cases current with
  | none => exact .done _
  | some _ =>
    refine Routine.avoids_bind (Routine.avoids_ask (not_not.mpr fun _ => trivial)) fun deleted => ?_
    split
    · exact Routine.avoids_bind (harmless_invalidateUser id) fun _ => .done _
    · exact .done _

theorem harmless_revokeSession (token : String) : Harmless (config.revokeSession token) := by
  refine Routine.avoids_bind (Routine.avoids_ask (not_not.mpr fun _ => trivial)) fun _ => ?_
  refine Routine.avoids_bind ?_ fun _ => .done _
  unfold SessionConfig.invalidate
  split
  · exact .call (not_not.mpr fun _ => trivial) fun _ => .done _
  · exact .done _

/-- A part that answers nothing of a session. -/
theorem warranted_quiet {routine : SiteCalls ρ} (harmless : Harmless routine) :
    Warranted known (routine >>= fun _ => return none) (Admits config) :=
  warranted_then harmless fun _ _ _ _ _ => nofun

theorem warranted_lookUp (tokenHash : String) {post : List Fact → Option AuthenticatedSession → Prop}
    (missed : post known none) (found : ∀ session, post (.session tokenHash session :: known) (some session)) :
    Warranted known (config.lookUp tokenHash) post := by
  unfold SessionConfig.lookUp
  split
  · refine ⟨trivial,fun answer => ?_⟩
    cases kept : answer.join with
    | none => simpa [told,kept,Concurrent.Warranted] using missed
    | some session => simpa [told,kept,Concurrent.Warranted] using found session
  · exact missed

theorem warranted_remember {tokenHash : String} {session : AuthenticatedSession} (there : .session tokenHash session ∈ known) :
    Warranted known (config.remember tokenHash session) fun more _ => .session tokenHash session ∈ more := by
  unfold SessionConfig.remember
  split
  · refine ⟨there,fun answer => ?_⟩
    cases answer with
    | none => exact there
    | some _ =>
      refine ⟨trivial,fun answer => ?_⟩
      cases answer with
      | none => exact there
      | some _ => exact ⟨trivial,fun _ => there⟩
  · exact there

/-- What is known of the session a request is found to have. -/
def Told (config : SessionConfig) (known : List Fact) (answer : Authentication) : Prop :=
  ∀ origin session, answer = .ok (origin,session) → origin.bearer = false →
    .session (config.tokenHash origin.token) session ∈ known

theorem told_error (config : SessionConfig) (known : List Fact) (error : ApiError) : Told config known (.error error) := nofun

theorem told_bearer (config : SessionConfig) (known : List Fact) (token : String) (session : AuthenticatedSession) :
    Told config known (.ok (⟨token,true⟩,session)) := by
  rintro _ _ ⟨⟩ cookie
  cases cookie

theorem told_cookie {token : String} {session : AuthenticatedSession}
    (there : .session (config.tokenHash token) session ∈ known) : Told config known (.ok (⟨token,false⟩,session)) := by
  rintro _ _ ⟨⟩ _
  exact there

theorem warranted_requireApiToken (token : String) : Warranted known (config.requireApiToken token) (Told config) := by
  refine warranted_ask trivial fun answer => ?_
  cases answer with
  | none => exact told_error config _ _
  | some session => exact ⟨trivial,fun _ => told_bearer config _ token session⟩

theorem warranted_requireCookieSession (token : String) : Warranted known (config.requireCookieSession token) (Told config) := by
  refine warranted_bind (warranted_lookUp _ ?_ fun session => ?_)
  · refine warranted_ask trivial fun answer => ?_
    cases answer with
    | none => exact told_error config _ _
    | some session => exact warranted_bind (warranted_mono (warranted_remember List.mem_cons_self) fun _ _ _ => told_cookie)
  · exact told_cookie List.mem_cons_self

theorem warranted_requireSession (headers : Headers) : Warranted known (config.requireSession headers) (Told config) := by
  unfold SessionConfig.requireSession
  split
  · exact warranted_requireApiToken _
  · split
    · exact told_error config _ _
    · exact warranted_requireCookieSession _

theorem warranted_requireSessionFromStore (headers : Headers) :
    Warranted known (config.requireSessionFromStore headers) (Told config) := by
  unfold SessionConfig.requireSessionFromStore
  split
  · exact warranted_requireApiToken _
  · split
    · exact told_error config _ _
    · refine warranted_ask trivial fun answer => ?_
      cases answer with
      | none => exact told_error config _ _
      | some session => exact told_cookie List.mem_cons_self

theorem warranted_createSession (serving : Serving) (userId : Int) :
    Warranted known (HeaderAuth.onAccounts (createSession serving userId)) fun _ _ => True := by
  unfold createSession
  split
  · exact trivial
  · rw [Routine.ask_bind]
    refine ⟨trivial,fun found => ?_⟩
    match found with
    | none | some none => exact trivial
    | some (some credentials) =>
      dsimp only [Option.map_some,Routine.answered_some]
      split
      · exact trivial
      · rw [Routine.ask_bind]
        refine ⟨trivial,fun now => ?_⟩
        cases now with
        | none => exact trivial
        | some now =>
          dsimp only [Option.map_some,Routine.answered_some]
          split
          · exact trivial
          · refine ⟨?_,fun inserted => ?_⟩
            · simp [Permitted,told]
            · cases inserted <;> exact trivial

theorem warranted_handle (request : SessionRequest) : Warranted known (request.handle config) (Admits config) := by
  cases request with
  | authenticate headers =>
    refine warranted_bind (warranted_mono (warranted_requireSession headers) fun more answer _ holds => ?_)
    exact fun origin session same => holds origin session (Option.some.inj same)
  | authenticateStored headers =>
    refine warranted_bind (warranted_mono (warranted_requireSessionFromStore headers) fun more answer _ holds => ?_)
    exact fun origin session same => holds origin session (Option.some.inj same)
  | issue serving userId =>
    exact warranted_bind (warranted_mono (warranted_createSession serving userId) fun _ _ _ _ _ _ => nofun)
  | logout token => exact warranted_quiet (harmless_revokeSession token)
  | changePassword userId passwordHash =>
    refine warranted_quiet (Routine.avoids_bind (harmless_changePassword userId passwordHash) fun changed => ?_)
    cases changed with
    | false => exact .done _
    | true => exact Routine.avoids_bind (harmless_invalidateUser userId) fun _ => .done _
  | resetPassword now token passwordHash =>
    refine warranted_quiet (Routine.avoids_bind (harmless_consumePasswordResetToken now _ passwordHash) fun userId => ?_)
    cases userId with
    | none => exact .done _
    | some id => exact Routine.avoids_bind (harmless_invalidateUser id) fun _ => .done _
  | verifyEmail now token =>
    refine warranted_quiet (Routine.avoids_bind (harmless_consumeEmailVerificationToken now _) fun userId => ?_)
    cases userId with
    | none => exact .done _
    | some id => exact Routine.avoids_bind (harmless_invalidateUser id) fun _ => .done _
  | rotateCsrf headers newCsrf =>
    rw [SessionRequest.handle,SessionConfig.rotateCsrfToken,bind_assoc]
    refine warranted_bind (warranted_mono (warranted_requireSession headers) fun more answer _ _ => ?_)
    cases answer with
    | error error => exact fun _ _ => nofun
    | ok session =>
      refine warranted_quiet (Routine.avoids_bind (Routine.avoids_ask (not_not.mpr fun _ => trivial)) fun _ => .done _)
  | update id input => exact warranted_quiet (harmless_updateUser id input)
  | delete id => exact warranted_quiet (harmless_deleteUser id)

end Requests

section Tables

variable {backend : Backend} {db : Accounts} {s : Site}

/-- No user's version is less than before. -/
def Grown (before after : Table UserRow UserRow.id) : Prop := ∀ id row', after.find id = some row' →
  ∃ row, before.find id = some row ∧ row.sessionVersion ≤ row'.sessionVersion

theorem Grown.refl (users : Table UserRow UserRow.id) : Grown users users := fun _ row' found => ⟨row',found,Int.le_refl _⟩

theorem grown_update {users : Table UserRow UserRow.id} {chosen : UserRow → Bool} {set : UserRow → UserRow}
    (keeps : ∀ r, (set r).id = r.id) (grows : ∀ u, u.sessionVersion ≤ (set u).sessionVersion) :
    Grown users (users.update chosen set keeps) := by
  intro id row' found
  rw [Table.find_update,Option.map_eq_some_iff] at found
  obtain ⟨row,there,rfl⟩ := found
  refine ⟨row,there,?_⟩
  split
  · exact grows row
  · exact Int.le_refl _

theorem grown_delete {users : Table UserRow UserRow.id} {chosen : UserRow → Bool} : Grown users (users.delete chosen) := by
  intro id row found
  obtain ⟨there,keyed⟩ := (Table.find_eq_some _).mp found
  exact ⟨row,(Table.find_eq_some _).mpr ⟨((Table.mem_delete _).mp there).1,keyed⟩,Int.le_refl _⟩

/-- No call lowers the version of a user's sessions. -/
theorem site_grown (request : SiteCall) : Grown s.accounts.users (site backend request s).2.accounts.users := by
  cases request with
  | store statement =>
    cases statement with
    | changePassword userId passwordHash =>
      change Grown s.accounts.users (s.accounts.changePassword userId passwordHash).2.users
      rw [Accounts.changePassword]
      split
      · exact .refl _
      · refine grown_update ?_ fun u => Int.le_add_one (Int.le_refl _)
        exact fun _ => rfl
    | markEmailVerified userId | updateUser userId role disabled | setUserTotpSecret userId secret | enableUserTotp userId
    | disableUserTotp userId =>
      refine grown_update ?_ fun u => Int.le_refl _
      exact fun _ => rfl
    | _ => exact .refl _
  | deleteUser userId => exact grown_delete
  | _ => exact .refl _

/-- A change of password raises it. -/
theorem changePassword_version {userId : Int} {passwordHash : String} {row' : UserRow}
    (changed : (db.changePassword userId passwordHash).1 = true)
    (found : (db.changePassword userId passwordHash).2.users.find userId = some row') :
    ∃ row, db.users.find userId = some row ∧ row.sessionVersion < row'.sessionVersion := by
  rw [Accounts.changePassword] at changed found
  split at changed
  · cases changed
  · rename_i affected
    rw [if_neg affected] at found
    have updated : (db.users.update (fun u => u.id = userId && !u.disabled)
      (fun u => { u with passwordHash, sessionVersion := u.sessionVersion + 1 }) fun _ => rfl).find userId = some row' := found
    rw [Table.find_update,Option.map_eq_some_iff] at updated
    obtain ⟨row,there,rfl⟩ := updated
    refine ⟨row,there,?_⟩
    split
    · exact Int.lt_succ _
    · rename_i kept
      -- The statement has updated a row, and there is no other with the key.
      obtain ⟨u,present,chosen⟩ := List.countP_pos_iff.mp (Nat.pos_of_ne_zero affected)
      have own : u.id = userId := by simp at chosen; exact chosen.1
      obtain ⟨here,keyed⟩ := db.users.find_eq_some.mp there
      rw [db.users.key_unique here present (keyed.trans own.symm)] at kept
      exact absurd chosen kept

theorem changePassword_sessions {userId : Int} {passwordHash tokenHash : String} {row : SessionRow}
    (there : (db.changePassword userId passwordHash).2.sessions tokenHash = some row) : db.sessions tokenHash = some row := by
  rw [Accounts.changePassword] at there
  split at there
  · exact there
  · exact (Option.filter_eq_some_iff.mp there).1

/-- A row of a session was there before the call, but for its other token, or is inserted by it. -/
theorem site_sessions {request : SiteCall} {tokenHash : String} {row : SessionRow}
    (there : (site backend request s).2.accounts.sessions tokenHash = some row) :
    (∃ old, s.accounts.sessions tokenHash = some old ∧ old.userId = row.userId ∧ old.sessionVersion = row.sessionVersion) ∨
      request = .store (.insertSession tokenHash row) := by
  have same (there : s.accounts.sessions tokenHash = some row) : (∃ old, s.accounts.sessions tokenHash = some old ∧
      old.userId = row.userId ∧ old.sessionVersion = row.sessionVersion) ∨
        request = .store (.insertSession tokenHash row) := .inl ⟨row,there,rfl,rfl⟩
  cases request with
  | store statement =>
    cases statement with
    | changePassword userId passwordHash => exact same (changePassword_sessions there)
    | insertSession inserted new =>
      have updated : Function.update s.accounts.sessions inserted (some new) tokenHash = some row := there
      by_cases equal : tokenHash = inserted
      · subst equal
        rw [Function.update_self] at updated
        cases updated
        exact .inr rfl
      · rw [Function.update_of_ne equal] at updated
        exact same updated
    | _ => exact same there
  | revokeSession revoked =>
    have updated : Function.update s.accounts.sessions revoked none tokenHash = some row := there
    by_cases equal : tokenHash = revoked
    · subst equal
      rw [Function.update_self] at updated
      cases updated
    · rw [Function.update_of_ne equal] at updated
      exact same updated
  | rotateCsrf rotated newCsrfHash =>
    have updated : Function.update s.accounts.sessions rotated
      ((s.accounts.sessions rotated).map fun row => { row with csrfTokenHash := newCsrfHash }) tokenHash = some row := there
    by_cases equal : tokenHash = rotated
    · subst equal
      rw [Function.update_self,Option.map_eq_some_iff] at updated
      obtain ⟨old,found,rfl⟩ := updated
      exact .inl ⟨old,found,rfl,rfl⟩
    · rw [Function.update_of_ne equal] at updated
      exact same updated
  | deleteUser userId => exact same (Option.filter_eq_some_iff.mp there).1
  | _ => exact same there

/-- What the cache keeps it kept before the call, or is put there by it. -/
theorem site_cache {request : SiteCall} {tokenHash : String} {entry : CacheEntry}
    (there : (site backend request s).2.sessions tokenHash = some entry) :
    s.sessions tokenHash = some entry ∨ ∃ ttl, request = .cacheSet tokenHash entry.session ttl := by
  cases request with
  | cacheSet set session ttl =>
    have updated : Function.update s.sessions set (some ⟨session,s.instant + ttl⟩) tokenHash = some entry := there
    by_cases equal : tokenHash = set
    · subst equal
      rw [Function.update_self] at updated
      cases updated
      exact .inr ⟨ttl,rfl⟩
    · rw [Function.update_of_ne equal] at updated
      exact .inl updated
  | cacheDelete hashes =>
    have deleted : (if tokenHash ∈ hashes then none else s.sessions tokenHash) = some entry := there
    split at deleted
    · cases deleted
    · exact .inl deleted
  | _ => exact .inl there

/-- A session that authenticates is one of the current version. -/
theorem authenticateSession_row {tokenHash : String} {session : AuthenticatedSession}
    (good : Site.authenticateSession db tokenHash = some session) :
    ∃ row user, db.sessions tokenHash = some row ∧ db.users.find session.user.id = some user ∧ row.userId = session.user.id ∧
      row.sessionVersion = user.sessionVersion := by
  obtain ⟨row,there,good⟩ := Option.bind_eq_some_iff.mp good
  rw [Site.sessionOf] at good
  split at good
  · split at good
    · rename_i user found
      split at good
      · rename_i current
        cases good
        have own : user.id = row.userId := ((Table.find_eq_some _).mp found).2
        exact ⟨row,user,there,by rwa [← own] at found,own.symm,current.1⟩
      · cases good
    · cases good
  · cases good

end Tables

section Traces

/-- What holds in every run: no version that was read is greater than the one stored, and it is less once the
password was changed; every session is stored with a version that was read before; and what the cache
keeps, and what a process was told, is what the store answered at some moment. -/
structure Traced (world : World ι SiteCall SiteCall.Answer Site) : Prop where
  versions : ∀ later i userId credentials earlier row, world.past = later ++ read i userId credentials :: earlier →
    world.shared.accounts.users.find userId = some row → credentials.sessionVersion ≤ row.sessionVersion ∧
      ∀ event ∈ later, Changes userId event → credentials.sessionVersion < row.sessionVersion
  rows : ∀ tokenHash row, world.shared.accounts.sessions tokenHash = some row → ∃ later credentials,
    Opening world.past later tokenHash row.userId credentials ∧ credentials.sessionVersion = row.sessionVersion
  cache : ∀ tokenHash entry, world.shared.sessions tokenHash = some entry → Answered world.past tokenHash entry.session
  heard : ∀ event ∈ world.past, ∀ tokenHash session, .session tokenHash session ∈ told event.request event.answer →
    Answered world.past tokenHash session

variable {backend : Backend} {world : World ι SiteCall SiteCall.Answer Site} {past later : Past ι} {tokenHash : String}
  {userId : Int} {credentials : UserCredentials} {session : AuthenticatedSession}

omit [DecidableEq ι] in
theorem Opening.cons (opening : Opening past later tokenHash userId credentials) {event : Event ι SiteCall SiteCall.Answer}
    (stays : ¬Ends tokenHash event) : Opening (event :: past) (event :: later) tokenHash userId credentials := by
  obtain ⟨i,earlier,row,after,between,rfl,rfl,own,unended⟩ := opening
  refine ⟨i,earlier,row,event :: after,between,rfl,rfl,own,fun other there => ?_⟩
  rcases List.mem_cons.mp there with rfl | there
  · exact stays
  · exact unended other there

omit [DecidableEq ι] in
theorem Answered.cons (answered : Answered past tokenHash session) (event : Event ι SiteCall SiteCall.Answer) :
    Answered (event :: past) tokenHash session := by
  obtain ⟨later,i,earlier,rfl,opened⟩ := answered
  exact ⟨event :: later,i,earlier,rfl,opened⟩

omit [DecidableEq ι] in
/-- A session that authenticates was opened after the last change of the password. -/
theorem Traced.opened (traced : Traced world) (good : Site.authenticateSession world.shared.accounts tokenHash = some session) :
    Opened world.past tokenHash session.user.id := by
  obtain ⟨row,user,there,found,own,current⟩ := authenticateSession_row good
  obtain ⟨later,credentials,opening,read⟩ := traced.rows tokenHash row there
  rw [own] at opening
  refine ⟨later,credentials,opening,fun event after changes => ?_⟩
  obtain ⟨i,earlier,row,_,_,split,-⟩ := opening
  have less := (traced.versions later i _ credentials earlier user split found).2 event after changes
  rw [read,current] at less
  exact Int.lt_irrefl _ less

omit [DecidableEq ι] in
/-- What a call makes of the version of a user's sessions. -/
theorem perform_version {i : ι} {request : SiteCall} {fails : Bool} {row' : UserRow}
    (found : (world.perform (site backend) i request fails).shared.accounts.users.find userId = some row') :
    ∃ row, world.shared.accounts.users.find userId = some row ∧ row.sessionVersion ≤ row'.sessionVersion ∧
      (Changes userId (⟨i,request,answer (site backend) world.shared request fails⟩ : Event ι SiteCall SiteCall.Answer) →
        row.sessionVersion < row'.sessionVersion) := by
  cases fails with
  | true =>
    refine ⟨row',found,Int.le_refl _,fun changes => ?_⟩
    unfold Changes at changes
    split at changes
    · rename_i same
      cases same
    · exact absurd changes not_false
  | false =>
    obtain ⟨row,there,grows⟩ := site_grown request userId row' found
    refine ⟨row,there,grows,fun changes => ?_⟩
    unfold Changes at changes
    split at changes
    · rename_i same
      obtain ⟨-,rfl,answered⟩ := Event.mk.inj same
      subst changes
      obtain ⟨old,before,less⟩ := changePassword_version (Option.some.inj (eq_of_heq answered)) found
      cases there.symm.trans before
      exact less
    · exact absurd changes not_false

omit [DecidableEq ι] in
/-- What a call makes of a row of a session. -/
theorem perform_sessions {i : ι} {request : SiteCall} {fails : Bool} {row : SessionRow}
    (there : (world.perform (site backend) i request fails).shared.accounts.sessions tokenHash = some row) :
    (¬Ends tokenHash (⟨i,request,answer (site backend) world.shared request fails⟩ : Event ι SiteCall SiteCall.Answer) ∧
      ∃ old, world.shared.accounts.sessions tokenHash = some old ∧ old.userId = row.userId ∧
        old.sessionVersion = row.sessionVersion) ∨
    request = .store (.insertSession tokenHash row) ∧ fails = false := by
  cases fails with
  | true =>
    refine .inl ⟨fun ends => ?_,row,there,rfl,rfl⟩
    unfold Ends at ends
    split at ends
    · rename_i same
      cases same
    · exact absurd ends not_false
  | false =>
    rcases site_sessions there with before | inserted
    · refine .inl ⟨fun ends => ?_,before⟩
      unfold Ends at ends
      split at ends
      · rename_i same
        obtain ⟨-,rfl,-⟩ := Event.mk.inj same
        subst ends
        have gone : Function.update world.shared.accounts.sessions _ none _ = some row := there
        rw [Function.update_self] at gone
        cases gone
      · exact absurd ends not_false
    · exact .inr ⟨inserted,rfl⟩

/-- Where a process was told of a version it has read the credentials before. -/
theorem told_version {i : ι} {sessionVersion : Int} (there : .version userId sessionVersion ∈ gathered told past i) :
    ∃ later credentials earlier, past = later ++ read i userId credentials :: earlier ∧
      credentials.sessionVersion = sessionVersion := by
  obtain ⟨⟨j,request,answer⟩,inside,rfl,learned⟩ := mem_gathered.mp there
  obtain ⟨later,earlier,rfl⟩ := List.append_of_mem inside
  cases request with
  | store statement =>
    cases statement with
    | credentialsById id =>
      obtain ⟨credentials,answered,same⟩ := List.mem_map.mp learned
      cases same
      match answer with
      | some (some read) =>
        cases List.mem_singleton.mp answered
        exact ⟨later,_,earlier,rfl,rfl⟩
    | _ => cases learned
  | authenticateSession _ | cacheGet _ =>
    obtain ⟨_,-,same⟩ := List.mem_map.mp learned
    cases same
  | _ => cases learned

omit [DecidableEq ι] in
/-- What a call tells of a session is what the store answers, or what it answered before. -/
theorem Traced.answered (traced : Traced world) {i : ι} {request : SiteCall} {fails : Bool}
    (learned : .session tokenHash session ∈ told request (answer (site backend) world.shared request fails)) :
    Answered (⟨i,request,answer (site backend) world.shared request fails⟩ :: world.past) tokenHash session := by
  cases request with
  | store statement =>
    cases statement with
    | credentialsById id =>
      obtain ⟨_,-,same⟩ := List.mem_map.mp learned
      cases same
    | _ => cases learned
  | authenticateSession asked =>
    obtain ⟨found,there,same⟩ := List.mem_map.mp learned
    cases same
    cases fails with
    | true => cases there
    | false =>
      have good : Site.authenticateSession world.shared.accounts tokenHash = some session := Option.mem_toList.mp there
      refine ⟨[],i,world.past,?_,traced.opened good⟩
      exact congrArg (fun found => ⟨i,.authenticateSession tokenHash,some found⟩ :: world.past) good
  | cacheGet asked =>
    obtain ⟨found,there,same⟩ := List.mem_map.mp learned
    cases same
    cases fails with
    | true => cases there
    | false =>
      have kept := (Option.filter_eq_some_iff.mp (Option.mem_toList.mp there)).1
      obtain ⟨entry,here,rfl⟩ := Option.map_eq_some_iff.mp kept
      exact (traced.cache tokenHash entry (Option.filter_eq_some_iff.mp here).1).cons _
  | _ => cases learned

omit [DecidableEq ι] in
theorem traced_perform (traced : Traced world) {i : ι} {request : SiteCall} {fails : Bool}
    (versioned : ∀ tokenHash row, request = .store (.insertSession tokenHash row) → ∃ later credentials earlier,
      world.past = later ++ read i row.userId credentials :: earlier ∧ credentials.sessionVersion = row.sessionVersion)
    (answered : ∀ tokenHash session ttl, request = .cacheSet tokenHash session ttl → Answered world.past tokenHash session) :
    Traced (world.perform (site backend) i request fails) where
  versions := by
    rw [past_perform]
    intro later j userId credentials earlier row' split found
    obtain ⟨row,there,grows,raises⟩ := perform_version found
    cases later with
    | nil =>
      obtain ⟨same,rfl⟩ := List.cons.inj split
      refine ⟨?_,List.forall_mem_nil _⟩
      obtain ⟨-,rfl,answered⟩ := Event.mk.inj same
      cases fails with
      | true => cases answered
      | false =>
        have found : (world.shared.accounts.users.find userId).map credentialsFromRow = some credentials :=
          Option.some.inj (eq_of_heq answered)
        rw [there] at found
        cases found
        exact grows
    | cons event later =>
      obtain ⟨rfl,before⟩ := List.cons.inj split
      obtain ⟨least,less⟩ := traced.versions later j userId credentials earlier row before there
      refine ⟨Int.le_trans least grows,fun event after changes => ?_⟩
      rcases List.mem_cons.mp after with rfl | after
      · exact Int.lt_of_le_of_lt least (raises changes)
      · exact Int.lt_of_lt_of_le (less event after changes) grows
  rows := by
    rw [past_perform]
    intro tokenHash row there
    rcases perform_sessions there with ⟨stays,old,before,owner,version⟩ | ⟨rfl,rfl⟩
    · obtain ⟨later,credentials,opening,same⟩ := traced.rows tokenHash old before
      rw [owner] at opening
      exact ⟨_,credentials,opening.cons stays,same.trans version⟩
    · obtain ⟨later,credentials,earlier,split,same⟩ := versioned tokenHash row rfl
      rw [split]
      exact ⟨_ :: later,credentials,⟨i,earlier,row,[],later,rfl,rfl,rfl,List.forall_mem_nil _⟩,same⟩
  cache := by
    rw [past_perform]
    intro tokenHash entry there
    cases fails with
    | true => exact (traced.cache tokenHash entry there).cons _
    | false =>
      rcases site_cache there with before | ⟨ttl,rfl⟩
      · exact (traced.cache tokenHash entry before).cons _
      · exact (answered tokenHash _ ttl rfl).cons _
  heard := by
    rw [past_perform]
    intro event inside tokenHash session learned
    rcases List.mem_cons.mp inside with rfl | before
    · exact traced.answered learned
    · exact (traced.heard event before tokenHash session learned).cons _

theorem traced_run {config : SessionConfig} {requests : ι → SessionRequest} {shared : Site}
    (unopened : ∀ tokenHash, shared.accounts.sessions tokenHash = none) (uncached : ∀ tokenHash, shared.sessions tokenHash = none)
    {t : State ι} (reach : Transition.Reachable (step backend) (start config shared requests) t) :
    Traced t.toWorld ∧ ∀ i, Warranted (gathered told t.past i) (t.process i) (Admits config) := by
  refine warranted_kept Traced _ ?_ ?_ reach ?_ fun i => warranted_handle (requests i)
  · intro world i request fails traced permitted
    apply traced_perform traced
    · rintro tokenHash row rfl
      exact told_version permitted
    · rintro tokenHash session ttl rfl
      obtain ⟨event,there,-,learned⟩ := mem_gathered.mp permitted
      exact traced.heard event there tokenHash session learned
  · intro world elapsed shared traced occurred
    cases Option.some.inj occurred
    exact ⟨traced.versions,traced.rows,traced.cache,traced.heard⟩
  · refine ⟨?_,?_,?_,List.forall_mem_nil _⟩
    · intro later i userId credentials earlier row split
      cases later <;> cases split
    · intro tokenHash row there
      rw [start,State.start,unopened] at there
      cases there
    · intro tokenHash entry there
      rw [start,State.start,uncached] at there
      cases there

/-- In every run that starts without sessions, a session that authenticates was opened by a process that read the user's
credentials after the last change of the password that was committed. -/
theorem session_opened {config : SessionConfig} {requests : ι → SessionRequest} {shared : Site}
    (unopened : ∀ tokenHash, shared.accounts.sessions tokenHash = none) (uncached : ∀ tokenHash, shared.sessions tokenHash = none)
    {t : State ι} (reach : Transition.Reachable (step backend) (start config shared requests) t)
    (good : Site.authenticateSession t.shared.accounts tokenHash = some session) : Opened t.past tokenHash session.user.id :=
  (traced_run unopened uncached reach).1.opened good

def oneUser : Site where
  accounts := ⟨0,Table.empty.insert Administration.administrator Administration.administrator_id,fun _ => none,
    fun _ => none,fun _ => none,fun _ => none,.empty⟩
  apiTokens := fun _ => none
  sessions := fun _ => none
  indexes := fun _ => none
  instant := 0

def caching : SessionConfig := ⟨true,3600,id⟩

def visits : Nat → SessionRequest
  | 0 => .changePassword 1 "$argon2id$new"
  | 1 => .issue ⟨true,id,3600,"t","c"⟩ 1
  | _ => .authenticate ⟨none,[some "qd_session=t"]⟩

def visitor : AuthenticatedSession := ⟨userFromRow (Administration.administrator 1),"c",3600⟩

/-- The password is changed, then somebody logs in. -/
theorem session_opened_anew : ∃ s : State Nat, Site.authenticateSession s.shared.accounts "t" = some visitor ∧
    Opened s.past "t" 1 :=
  let run : List (Action Nat Elapsed) := [.call 0 false,.call 1 false,.call 1 false,.call 1 false]
  have ran : (Transition.exec (step Administration.anyBackend) (start caching oneUser visits) run).isSome := rfl
  have reach := Transition.reachable_get (start caching oneUser visits) run ran
  have good : Site.authenticateSession (Option.get _ ran).shared.accounts "t" = some visitor := rfl
  ⟨_,good,session_opened (fun _ => rfl) (fun _ => rfl) reach good⟩

/-- Whatever session a request is found to have by its cookie, be it in the cache: the store answered it at some moment
of the run, and it was opened after the last change of the password that was committed before that moment. -/
theorem session_answered {config : SessionConfig} {requests : ι → SessionRequest} {shared : Site}
    (unopened : ∀ tokenHash, shared.accounts.sessions tokenHash = none) (uncached : ∀ tokenHash, shared.sessions tokenHash = none)
    {t : State ι} (reach : Transition.Reachable (step backend) (start config shared requests) t)
    {i : ι} {origin : AuthOrigin} (returned : (t.process i).result = some (some (.ok (origin,session))))
    (cookie : origin.bearer = false) : Answered t.past (config.tokenHash origin.token) session := by
  obtain ⟨traced,warranted⟩ := traced_run unopened uncached reach
  have admits := warranted i
  cases process : t.process i with
  | done result =>
    rw [process] at returned admits
    cases returned
    obtain ⟨event,there,-,learned⟩ := mem_gathered.mp (admits origin session rfl cookie)
    exact traced.heard event there _ session learned
  | failed | call request next =>
    rw [process] at returned
    cases returned

/-- The second request is answered from the cache. -/
theorem session_answered_cached : ∃ s : State Nat, (s.process 3).result = some (some (.ok (⟨"t",false⟩,visitor))) ∧
    Answered s.past "t" visitor :=
  let run : List (Action Nat Elapsed) := [.call 1 false,.call 1 false,.call 1 false,.call 2 false,.call 2 false,.call 2 false,
    .call 3 false]
  have ran : (Transition.exec (step Administration.anyBackend) (start caching oneUser visits) run).isSome := rfl
  have reach := Transition.reachable_get (start caching oneUser visits) run ran
  have returned : ((Option.get _ ran).process 3).result = some (some (.ok (⟨"t",false⟩,visitor))) := rfl
  ⟨_,returned,session_answered (fun _ => rfl) (fun _ => rfl) reach returned rfl⟩

end Traces

end Revocation
end Qdrust.Account
