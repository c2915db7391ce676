import Qdrust.Account.Session

/-! Administrators that change and delete the accounts of others. A request looks at who
makes it once, before its own writes. -/
namespace Qdrust.Account
open Library Concurrent

namespace SessionConfig

variable (config : SessionConfig)

def adminUpdateUser (headers : Headers) (id : Int) (input : AdminUserUpdate) : SiteCalls (Except ApiError User) := do
  match ← config.requireAdmin headers with
  | .error error => return .error error
  | .ok (_,admin) =>
    if admin.user.id = id then
      return .error (.forbidden "cannot_modify_self" "Cannot modify your own account here")
    else
      match ← config.updateUser id input with
      | .error error => return .error error
      | .ok none => return .error (.notFound "user_not_found" "User not found")
      | .ok (some user) => return .ok user

def adminDeleteUser (headers : Headers) (id : Int) : SiteCalls (Except ApiError Unit) := do
  match ← config.requireAdmin headers with
  | .error error => return .error error
  | .ok (_,admin) =>
    if admin.user.id = id then return .error (.forbidden "cannot_delete_self" "Cannot delete your own account")
    else if ← config.deleteUser id then
      askSite (.store (.recordAudit "admin.user_deleted"))
      return .ok ()
    else return .error (.notFound "user_not_found" "User not found")

end SessionConfig

namespace Administration

inductive AdminRequest where
  | update (headers : Headers) (id : Int) (input : AdminUserUpdate)
  | delete (headers : Headers) (id : Int)

/-- The handler of a request, which answers the changed user, or nothing. -/
def AdminRequest.handle (config : SessionConfig) : AdminRequest → SiteCalls (Except ApiError (Option User))
  | .update headers id input => config.adminUpdateUser headers id input >>= fun changed => return changed.map some
  | .delete headers id => config.adminDeleteUser headers id >>= fun deleted => return deleted.map fun _ => none

def EnabledAdmin (db : Accounts) (id : Int) : Prop := ∃ u ∈ db.users.rows, u.id = id ∧ u.role = "admin" ∧ u.disabled = false

/-- The wall clock is read anew, and time passes in the cache. -/
structure Elapsed where
  clock : Int
  seconds : Nat

def elapse (elapsed : Elapsed) (s : Site) : Option Site :=
  some { s with accounts := { s.accounts with clock := elapsed.clock }, instant := s.instant + elapsed.seconds }

variable {ι : Type} [DecidableEq ι]

abbrev State (ι : Type) := Concurrent.State ι SiteCall SiteCall.Answer Site (Except ApiError (Option User))

abbrev step (backend : Backend) : State ι → Action ι Elapsed → Option (State ι) := Concurrent.step (site backend) elapse

def start (config : SessionConfig) (shared : Site) (requests : ι → AdminRequest) : State ι :=
  .start shared fun i => (requests i).handle config

/-- The account whose administrator role or whose use a call takes away. -/
def removes : SiteCall → Option Int
  | .store (.updateUser id role disabled) => if role = "admin" ∧ disabled = false then none else some id
  | .deleteUser id => some id
  | _ => none

/-- The account an answer says a request is from. -/
def told : (request : SiteCall) → Option request.Answer → List Int
  | .authenticateSession _,answer => answer.join.toList.map fun session => session.user.id
  | .authenticateApiToken _,answer => answer.join.toList.map fun session => session.user.id
  | .cacheGet _,answer => answer.join.toList.map fun session => session.user.id
  | _,_ => []

/-- Whoever takes an administrator away is itself one at that moment. -/
def StillAdministrator (s : State ι) : Action ι Elapsed → Prop
  | .call i false => ∀ request next id, s.process i = .call request next → removes request = some id →
      EnabledAdmin s.shared.accounts id → ∀ admin ∈ gathered told s.past i, EnabledAdmin s.shared.accounts admin
  | _ => True

/-- A request takes away no account but after it was told of another. -/
def Permitted (known : List Int) (request : SiteCall) : Prop :=
  ∀ id, removes request = some id → ∃ admin ∈ known, admin ≠ id

theorem permitted_mono {known more : List Int} {request : SiteCall} (within : known ⊆ more)
    (permitted : Permitted known request) : Permitted more request := by
  intro id removed
  obtain ⟨admin,there,other⟩ := permitted id removed
  exact ⟨admin,within there,other⟩

theorem permitted_of_none {request : SiteCall} (keeps : removes request = none) (known : List Int) : Permitted known request := by
  intro id removed
  rw [keeps] at removed
  cases removed

abbrev Grounded {ρ : Type} : List Int → SiteCalls ρ → Prop := Concurrent.Grounded told Permitted

theorem grounded_ask {ρ : Type} {known : List Int} {request : SiteCall} {after : request.Answer → SiteCalls ρ}
    (permitted : Permitted known request)
    (rest : ∀ answer, Grounded (told request (some answer) ++ known) (after answer)) :
    Grounded known (askSite request >>= after) := by
  rw [askSite,Routine.ask_bind]
  refine .call permitted fun answer => ?_
  cases answer with
  | none => exact .failed
  | some answer => exact rest answer

/-- A part that takes nobody away. -/
abbrev Harmless {ρ : Type} (routine : SiteCalls ρ) : Prop := routine.Avoids fun request => ¬∀ known, Permitted known request

theorem harmless_of_none {request : SiteCall} (keeps : removes request = none) : ¬¬∀ known, Permitted known request :=
  not_not.mpr (permitted_of_none keeps)

section Requests

variable {config : SessionConfig} {ρ : Type} {known : List Int}

theorem grounded_lookUp (tokenHash : String) {next : Option AuthenticatedSession → SiteCalls ρ}
    (rest : ∀ answer, Grounded ((answer.toList.map fun session => session.user.id) ++ known) (next answer)) :
    Grounded known (config.lookUp tokenHash >>= next) := by
  unfold SessionConfig.lookUp
  split
  · rw [Routine.call_bind]
    exact .call (permitted_of_none rfl known) fun answer => rest answer.join
  · exact rest none

theorem harmless_remember (tokenHash : String) (session : AuthenticatedSession) :
    Harmless (config.remember tokenHash session) := by
  unfold SessionConfig.remember
  split
  · refine .call (harmless_of_none rfl) fun answer => ?_
    cases answer with
    | none => exact .done _
    | some _ =>
      refine .call (harmless_of_none rfl) fun answer => ?_
      cases answer with
      | none => exact .done _
      | some _ => exact .call (harmless_of_none rfl) fun _ => .done _
  · exact .done _

theorem harmless_invalidateUser (userId : Int) : Harmless (config.invalidateUser userId) := by
  unfold SessionConfig.invalidateUser
  split
  · refine .call (harmless_of_none rfl) fun indexed => ?_
    split
    · exact .call (harmless_of_none rfl) fun _ => .done _
    · refine .call (harmless_of_none rfl) fun answer => ?_
      cases answer with
      | none => exact .done _
      | some _ => exact .call (harmless_of_none rfl) fun _ => .done _
  · exact .done _

variable {after : Authentication → SiteCalls ρ}

theorem grounded_requireCookieSession (token : String) (refused : ∀ more error, Grounded more (after (.error error)))
    (admitted : ∀ more origin session, session.user.id ∈ more → Grounded more (after (.ok (origin,session)))) :
    Grounded known (config.requireCookieSession token >>= after) := by
  unfold SessionConfig.requireCookieSession
  rw [bind_assoc]
  refine grounded_lookUp _ fun answer => ?_
  cases answer with
  | some session => exact admitted _ _ session (by simp)
  | none =>
    dsimp only
    rw [bind_assoc]
    refine grounded_ask (permitted_of_none rfl _) fun answer => ?_
    cases answer with
    | none => exact refused _ _
    | some session =>
      dsimp only
      rw [bind_assoc]
      refine grounded_bind (harmless_remember _ session) fun more _ within => ?_
      exact admitted more _ session (within (by simp [told]))

theorem grounded_requireSession (headers : Headers) (refused : ∀ more error, Grounded more (after (.error error)))
    (admitted : ∀ more origin session, session.user.id ∈ more → Grounded more (after (.ok (origin,session)))) :
    Grounded known (config.requireSession headers >>= after) := by
  unfold SessionConfig.requireSession
  split
  · rw [SessionConfig.requireApiToken,bind_assoc]
    refine grounded_ask (permitted_of_none rfl _) fun answer => ?_
    cases answer with
    | none => exact refused _ _
    | some session =>
      dsimp only
      rw [bind_assoc,Routine.attempt_bind]
      refine .call (permitted_of_none rfl _) fun _ => ?_
      exact admitted _ _ session (by simp [told])
  · split
    · exact refused _ _
    · exact grounded_requireCookieSession _ refused admitted

theorem grounded_requireAdmin (headers : Headers) (refused : ∀ more error, Grounded more (after (.error error)))
    (admitted : ∀ more origin session, session.user.id ∈ more → Grounded more (after (.ok (origin,session)))) :
    Grounded known (config.requireAdmin headers >>= after) := by
  unfold SessionConfig.requireAdmin
  rw [bind_assoc]
  refine grounded_requireSession headers (fun more error => refused more error) fun more origin session mine => ?_
  dsimp only
  split
  · exact refused _ _
  · exact admitted more origin session mine

/-- Whoever has been told of another account may go on to take this one away. -/
theorem permitted_other {admin id : Int} (mine : admin ∈ known) (other : admin ≠ id) (request : SiteCall)
    (only : ∀ removed, removes request = some removed → removed = id) : Permitted known request := by
  intro removed taken
  rw [only removed taken]
  exact ⟨admin,mine,other⟩

theorem removes_updateUser {id removed : Int} {role : String} {disabled : Bool}
    (taken : removes (.store (.updateUser id role disabled)) = some removed) : removed = id := by
  rw [removes] at taken
  split at taken
  · cases taken
  · exact (Option.some.inj taken).symm

theorem grounded_updateUser {admin id : Int} (mine : admin ∈ known) (other : admin ≠ id) (input : AdminUserUpdate)
    {next : Except ApiError (Option User) → SiteCalls ρ} (rest : ∀ more result, Grounded more (next result)) :
    Grounded known (config.updateUser id input >>= next) := by
  unfold SessionConfig.updateUser
  rw [bind_assoc]
  refine grounded_ask (permitted_of_none rfl _) fun answer => ?_
  cases answer with
  | none => exact rest _ _
  | some current =>
    dsimp only
    split
    · exact rest _ _
    · rw [bind_assoc]
      refine grounded_ask ?_ fun _ => ?_
      · exact permitted_other (List.mem_append_right _ mine) other _ fun _ => removes_updateUser
      rw [bind_assoc]
      refine grounded_ask (permitted_of_none rfl _) fun answer => ?_
      cases answer with
      | none => exact rest _ _
      | some user =>
        dsimp only
        rw [bind_assoc]
        exact grounded_bind (harmless_invalidateUser id) fun more _ _ => rest more _

theorem grounded_deleteUser {admin id : Int} (mine : admin ∈ known) (other : admin ≠ id)
    {next : Bool → SiteCalls ρ} (rest : ∀ more result, Grounded more (next result)) :
    Grounded known (config.deleteUser id >>= next) := by
  unfold SessionConfig.deleteUser
  rw [bind_assoc]
  refine grounded_ask (permitted_of_none rfl _) fun answer => ?_
  cases answer with
  | none => exact rest _ _
  | some _ =>
    dsimp only
    rw [bind_assoc]
    refine grounded_ask ?_ fun deleted => ?_
    · exact permitted_other (List.mem_append_right _ mine) other _ fun _ removed => (Option.some.inj removed).symm
    split
    · rw [bind_assoc]
      exact grounded_bind (harmless_invalidateUser id) fun more _ _ => rest more _
    · exact rest _ _

theorem grounded_handle (request : AdminRequest) : Grounded known (request.handle config) := by
  cases request with
  | update headers id input =>
    rw [AdminRequest.handle,SessionConfig.adminUpdateUser,bind_assoc]
    refine grounded_requireAdmin headers (fun _ _ => .done _) fun more _ admin mine => ?_
    dsimp only
    split
    · exact .done _
    · rw [bind_assoc]
      refine grounded_updateUser mine ‹_› input fun _ changed => ?_
      split <;> exact .done _
  | delete headers id =>
    rw [AdminRequest.handle,SessionConfig.adminDeleteUser,bind_assoc]
    refine grounded_requireAdmin headers (fun _ _ => .done _) fun more _ admin mine => ?_
    dsimp only
    split
    · exact .done _
    · rw [bind_assoc]
      refine grounded_deleteUser mine ‹_› fun _ deleted => ?_
      split
      · rw [bind_assoc]
        exact grounded_ask (permitted_of_none rfl _) fun _ => .done _
      · exact .done _

end Requests

section Tables

variable {backend : Backend}

theorem enabledAdmin_update {db : Accounts} {admin : Int} (enabled : EnabledAdmin db admin) {chosen : UserRow → Bool}
    {set : UserRow → UserRow} (keeps : ∀ r, (set r).id = r.id)
    (kept : ∀ u, u.id = admin → chosen u → (set u).role = u.role ∧ (set u).disabled = u.disabled ∨
      (set u).role = "admin" ∧ (set u).disabled = false) :
    EnabledAdmin (db.updateUsers chosen set keeps).2 admin := by
  obtain ⟨u,there,rfl,role,inUse⟩ := enabled
  refine ⟨if chosen u then set u else u,List.mem_map_of_mem there,?_⟩
  split
  · rename_i selected
    rcases kept u rfl selected with ⟨sameRole,sameUse⟩ | now
    · exact ⟨keeps u,sameRole.trans role,sameUse.trans inUse⟩
    · exact ⟨keeps u,now⟩
  · exact ⟨rfl,role,inUse⟩

theorem enabledAdmin_statement {db : Accounts} {admin : Int} (enabled : EnabledAdmin db admin) {statement : Statement}
    (other : removes (.store statement) ≠ some admin) : EnabledAdmin (accounts backend statement db).2 admin := by
  cases statement with
  | changePassword userId passwordHash =>
    rw [accounts,Accounts.changePassword]
    split
    · exact enabled
    · have still : EnabledAdmin (db.updateUsers (fun u => u.id = userId && !u.disabled)
          (fun u => { u with passwordHash, sessionVersion := u.sessionVersion + 1 }) fun _ => rfl).2 admin :=
        enabledAdmin_update enabled _ fun _ _ _ => .inl ⟨rfl,rfl⟩
      exact still
  | markEmailVerified userId => exact enabledAdmin_update enabled _ fun _ _ _ => .inl ⟨rfl,rfl⟩
  | updateUser id role disabled =>
    refine enabledAdmin_update enabled _ fun u same selected => .inr ?_
    by_contra lowered
    exact other (by rw [removes,if_neg lowered,← same,of_decide_eq_true selected])
  | setUserTotpSecret userId secret => exact enabledAdmin_update enabled _ fun _ _ _ => .inl ⟨rfl,rfl⟩
  | enableUserTotp userId => exact enabledAdmin_update enabled _ fun _ _ _ => .inl ⟨rfl,rfl⟩
  | disableUserTotp userId =>
    have still : EnabledAdmin (db.updateUsers (fun u => u.id = userId)
        (fun u => { u with totpSecret := none, totpEnabled := false }) fun _ => rfl).2 admin :=
      enabledAdmin_update enabled _ fun _ _ _ => .inl ⟨rfl,rfl⟩
    exact still
  | _ => exact enabled

/-- Only a call that takes the account away ends an administrator. -/
theorem enabledAdmin_site {s : Site} {admin : Int} (enabled : EnabledAdmin s.accounts admin) {request : SiteCall}
    (other : removes request ≠ some admin) : EnabledAdmin (site backend request s).2.accounts admin := by
  cases request with
  | store statement => exact enabledAdmin_statement enabled other
  | deleteUser id =>
    obtain ⟨u,there,same,rest⟩ := enabled
    refine ⟨u,List.mem_filter.mpr ⟨there,?_⟩,same,rest⟩
    have differs : u.id ≠ id := fun equal => other (congrArg some (equal.symm.trans same))
    simpa using differs
  | _ => exact enabled

end Tables

/-- There is an enabled administrator in every state reached while nobody takes an
administrator away who is none any more. -/
theorem administrator_remains (backend : Backend) (config : SessionConfig) (requests : ι → AdminRequest) (shared : Site)
    (enabled : ∃ admin, EnabledAdmin shared.accounts admin) {t : State ι}
    (reach : Transition.Reaches (step backend) StillAdministrator (start config shared requests) t) :
    ∃ admin, EnabledAdmin t.shared.accounts admin := by
  have kept : Assertions (fun world => ∃ admin, EnabledAdmin world.shared.accounts admin)
      (fun i world routine => Grounded (gathered told world.past i) routine) t := by
    refine assertions_kept _ _ ?_ ?_ ?_ reach ⟨enabled,fun i => grounded_handle (requests i)⟩
    · intro s i request next fails holds allowed outstanding
      have grounded := holds.stage i
      rw [outstanding] at grounded
      cases grounded with
      | call permitted rest =>
        rw [past_perform,gathered_self]
        refine ⟨?_,rest _⟩
        obtain ⟨admin,present⟩ := holds.common
        cases fails with
        | true => exact ⟨admin,present⟩
        | false =>
          by_cases taken : removes request = some admin
          · -- The request was told of another account, which is an administrator still.
            obtain ⟨actor,mine,other⟩ := permitted admin taken
            have still := allowed request next admin outstanding taken present actor mine
            exact ⟨actor,enabledAdmin_site still (by rw [taken]; exact fun same => other (Option.some.inj same).symm)⟩
          · exact ⟨admin,enabledAdmin_site present taken⟩
    · intro s i request next fails j holds _ _ differs
      rw [past_perform,gathered_other differs]
      exact holds.stage j
    · intro s elapsed shared holds _ occurred
      cases Option.some.inj occurred
      exact ⟨holds.common,holds.stage⟩
  exact kept.common

def administrator (id : Int) : UserRow := ⟨id,"admin","hash","admin",false,0,none,false,none,false⟩

theorem administrator_id (id : Int) : (administrator id).id = id := rfl

/-- Two administrators, each with a token of the interface. -/
def twoAdministrators : Site where
  accounts := ⟨0,(Table.empty.insert administrator administrator_id).insert administrator administrator_id,fun _ => none,
    fun _ => none,fun _ => none,fun _ => none,.empty⟩
  apiTokens := fun tokenHash => if tokenHash = "one" then some ⟨1,none⟩ else if tokenHash = "two" then some ⟨2,none⟩ else none
  sessions := fun _ => none
  indexes := fun _ => none
  instant := 0

def uncached : SessionConfig := ⟨false,3600,id⟩

def anyBackend : Backend := ⟨fun stored given => stored = given,fun password encodedHash => password = encodedHash,fun _ _ => none⟩

def demotion (token : String) (id : Int) : AdminRequest := .update ⟨some (some ("Bearer " ++ token)),[]⟩ id ⟨none,some "user"⟩

/-- Each of the two takes the other's role. -/
def demotions (second : Bool) : AdminRequest := if second then demotion "two" 1 else demotion "one" 2

/-- The second comes too late to be admitted. -/
theorem administrator_remains_in_turn : ∃ s : State Bool,
    Transition.exec (step anyBackend) (start uncached twoAdministrators demotions)
      [.call false false,.call false false,.call false false,.call false false,.call false false,.call true false,
        .call true false] = some s ∧
    (s.process true).result = some (.error (.forbidden "admin_required" "Administrator role required")) ∧
    ∃ admin, EnabledAdmin s.shared.accounts admin := by
  obtain ⟨s,ran⟩ : ∃ s, Transition.exec (step anyBackend) (start uncached twoAdministrators demotions)
      [.call false false,.call false false,.call false false,.call false false,.call false false,.call true false,
        .call true false] = some s := ⟨_,rfl⟩
  have refused := congrArg (Option.map fun s => (s.process true).result) ran
  refine ⟨s,ran,(Option.some.inj refused).symm,?_⟩
  refine administrator_remains anyBackend uncached demotions twoAdministrators
    ⟨1,administrator 1,List.mem_cons_self,rfl,rfl,rfl⟩ (Transition.reaches_of_exec ran ?_)
  iterate 3
    refine ⟨?_,?_⟩
    · rintro _ _ _ ⟨⟩ ⟨⟩
    rintro _ ⟨⟩
  refine ⟨?_,?_⟩
  · rintro _ _ _ ⟨⟩ ⟨⟩ _ actor mine
    rw [List.mem_singleton.mp mine]
    exact ⟨administrator 1,List.mem_cons_self,rfl,rfl,rfl⟩
  rintro _ ⟨⟩
  iterate 3
    refine ⟨?_,?_⟩
    · rintro _ _ _ ⟨⟩ ⟨⟩
    rintro _ ⟨⟩
  trivial

/-- Where both are admitted first, nobody is left. -/
theorem administrators_gone : ∃ s : State Bool,
    Transition.exec (step anyBackend) (start uncached twoAdministrators demotions)
      [.call false false,.call true false,.call false false,.call true false,.call false false,.call true false,
        .call false false,.call true false] = some s ∧
    (∃ admin, EnabledAdmin twoAdministrators.accounts admin) ∧ ¬∃ admin, EnabledAdmin s.shared.accounts admin := by
  refine ⟨_,rfl,⟨1,administrator 1,List.mem_cons_self,rfl,rfl,rfl⟩,?_⟩
  rintro ⟨admin,u,there,-,role,-⟩
  rcases List.mem_cons.mp there with rfl | last
  · exact absurd role (by decide)
  · rw [List.mem_singleton.mp last] at role
    exact absurd role (by decide)

end Administration
end Qdrust.Account
