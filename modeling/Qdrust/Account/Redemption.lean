import Qdrust.Account.Model
import Qdrust.Library.Redemption

/-! Password reset tokens, OIDC login states and email verification tokens, redeemed
by several requests at once. -/
namespace Qdrust.Account
open Library Concurrent

def changePassword (userId : Int) (passwordHash : String) : Calls Bool :=
  if (Text.stripPrefix passwordHash "$argon2id$").isSome then ask (.changePassword userId passwordHash) else .failed

def consumePasswordResetToken (now : Int) (tokenHash newPasswordHash : String) : Calls (Option Int) := do
  match ← ask (.passwordResetToken tokenHash now) with
  | none => return none
  | some userId =>
    let _ ← changePassword userId newPasswordHash
    let _ ← ask (.deletePasswordResetToken tokenHash)
    return some userId

/-- The state is consumed whether it has expired or not. -/
def takeOidcLoginState (later : Int) (stateHash : String) : Calls (Option OidcLoginState) := do
  match ← ask (.oidcLoginState stateHash) with
  | none => return none
  | some state =>
    let _ ← ask (.deleteOidcLoginState stateHash)
    if state.expiresAt ≤ later then return none else return some state

def consumeEmailVerificationToken (now : Int) (tokenHash : String) : Calls (Option Int) := do
  match ← ask (.emailVerificationToken tokenHash now) with
  | none => return none
  | some userId =>
    let _ ← ask (.markEmailVerified userId)
    let _ ← ask (.deleteEmailVerificationToken tokenHash)
    return some userId

inductive Secret where
  | passwordReset
  | oidcLogin
  | emailVerification

/-- What a redemption returns. -/
inductive Redeemed where
  | account (userId : Int)
  | login (state : OidcLoginState)
deriving DecidableEq

/-- The clock where a redemption reads it, at its start and at its end, and the hash of
the new password. -/
structure Attempt where
  now : Int
  later : Int
  newPasswordHash : String

def redeem (secret : Secret) (hash : String) (attempt : Attempt) : Calls (Option Redeemed) :=
  match secret with
  | .passwordReset => do
    let userId ← consumePasswordResetToken attempt.now hash attempt.newPasswordHash
    return userId.map .account
  | .oidcLogin => do
    let state ← takeOidcLoginState attempt.later hash
    return state.map .login
  | .emailVerification => do
    let userId ← consumeEmailVerificationToken attempt.now hash
    return userId.map .account

inductive StoredSecret where
  | token (row : TokenRow)
  | login (state : OidcLoginState)

def storedSecret (secret : Secret) (hash : String) (db : Accounts) : Option StoredSecret :=
  match secret with
  | .passwordReset => (db.resetTokens hash).map .token
  | .oidcLogin => (db.loginStates hash).map .login
  | .emailVerification => (db.emailTokens hash).map .token

/-- What other requests make of the accounts meanwhile. -/
structure Meanwhile where
  users : Table UserRow UserRow.id
  sessions : Keyed SessionRow
  challenges : Challenges

def meanwhile (event : Meanwhile) (db : Accounts) : Option Accounts :=
  some { db with users := event.users, sessions := event.sessions, challenges := event.challenges }

variable {ι : Type} [DecidableEq ι]

abbrev State (ι ρ : Type) := Concurrent.State ι Statement Statement.Answer Accounts ρ

def startRedemptions (secret : Secret) (hash : String) (attempts : ι → Attempt) (db : Accounts) :
    State ι (Option Redeemed) := State.start db fun i => redeem secret hash (attempts i)

abbrev redemptionStep (backend : Backend) (s : State ι (Option Redeemed)) (action : Action ι Meanwhile) :
    Option (State ι (Option Redeemed)) := Concurrent.step (accounts backend) meanwhile s action

/-- A redemption did what the secret is good for. -/
def Effected (secret : Secret) (hash : String) (attempts : ι → Attempt) (before : Accounts) (s : State ι (Option Redeemed))
    (i : ι) : Prop :=
  match secret,storedSecret secret hash before with
  | .passwordReset,some (.token row) => ⟨i,.changePassword row.userId (attempts i).newPasswordHash,some true⟩ ∈ s.past
  | .oidcLogin,some (.login state) => (s.process i).result = some (some (.login state))
  | .emailVerification,some (.token row) => ∃ affected : Nat, 0 < affected ∧
      ⟨i,.markEmailVerified row.userId,some affected⟩ ∈ s.past
  | _,_ => False

/-- One redemption at most succeeds, none without its effect, and the secret is consumed
by none without it, unless it is a login state that has expired. -/
structure SingleUse (secret : Secret) (hash : String) (attempts : ι → Attempt) (before : Accounts)
    (s : State ι (Option Redeemed)) : Prop where
  once : ∀ i j a b, (s.process i).result = some (some a) → (s.process j).result = some (some b) → i = j
  effect : ∀ i a, (s.process i).result = some (some a) → Effected secret hash attempts before s i
  midway : storedSecret secret hash s.shared = storedSecret secret hash before ∨
    (∃ i, Effected secret hash attempts before s i) ∨
    ∃ i state, storedSecret secret hash before = some (.login state) ∧ state.expiresAt ≤ (attempts i).later

/-- The rows a statement is about are there. -/
def Present (db : Accounts) : Statement → Prop
  | .changePassword userId _ => ∃ u ∈ db.users.rows, u.id = userId ∧ u.disabled = false
  | .markEmailVerified userId => ∃ u ∈ db.users.rows, u.id = userId
  | .deletePasswordResetToken hash => (db.resetTokens hash).isSome = true
  | .deleteOidcLoginState hash => (db.loginStates hash).isSome = true
  | .deleteEmailVerificationToken hash => (db.emailTokens hash).isSome = true
  | _ => True

/-- No statement that writes goes without rows. -/
def RowsPresent (s : State ι (Option Redeemed)) : Action ι Meanwhile → Prop
  | .call i false => ∀ request next, s.process i = .call request next → Present s.shared request
  | _ => True

section Instance

variable {secret : Secret} {hash : String} {backend : Backend}

def tokenOf : StoredSecret → Redeemed
  | .token row => .account row.userId
  | .login state => .login state

/-- The three of them as redemptions. -/
def redemption (secret : Secret) (hash : String) (attempt : Attempt) :
    Redemption Statement Statement.Answer Redeemed Redeemed :=
  match secret with
  | .passwordReset => {
      select := .passwordResetToken hash attempt.now
      found := fun answer : Option Int => answer.map .account
      deed := fun
        | .account userId =>
          if (Text.stripPrefix attempt.newPasswordHash "$argon2id$").isSome then
            .request (.changePassword userId attempt.newPasswordHash)
          else .refused
        | .login _ => .refused
      delete := .deletePasswordResetToken hash
      result := some }
  | .oidcLogin => {
      select := .oidcLoginState hash
      found := fun answer : Option OidcLoginState => answer.map .login
      deed := fun _ => .nothing
      delete := .deleteOidcLoginState hash
      result := fun
        | .login state => if state.expiresAt ≤ attempt.later then none else some (.login state)
        | .account _ => none }
  | .emailVerification => {
      select := .emailVerificationToken hash attempt.now
      found := fun answer : Option Int => answer.map .account
      deed := fun
        | .account userId => .request (.markEmailVerified userId)
        | .login _ => .refused
      delete := .deleteEmailVerificationToken hash
      result := some }

theorem redeem_eq (secret : Secret) (hash : String) (attempt : Attempt) :
    redeem secret hash attempt = (redemption secret hash attempt).routine := by
  cases secret with
  | passwordReset =>
    simp only [redeem,consumePasswordResetToken,Redemption.routine,redemption,Routine.ask_bind,Routine.call_bind,
      Routine.answered_bind]
    refine congrArg (fun after => Routine.call (Statement.passwordResetToken hash attempt.now) (Routine.answered after))
      (funext fun found => ?_)
    cases found with
    | none => rfl
    | some userId =>
      by_cases argon : (Text.stripPrefix attempt.newPasswordHash "$argon2id$").isSome = true
      · simp only [changePassword,Redemption.selected,Redemption.perform,Option.map_some,argon,if_true,Routine.ask_bind,
          Routine.call_bind,Routine.answered_bind,Routine.pure_eq,Routine.done_bind]
        rfl
      · simp only [changePassword,Redemption.selected,Redemption.perform,Option.map_some,argon,if_false,Routine.failed_bind,
          Bool.false_eq_true]
  | oidcLogin =>
    simp only [redeem,takeOidcLoginState,Redemption.routine,redemption,Routine.ask_bind,Routine.call_bind,
      Routine.answered_bind]
    refine congrArg (fun after => Routine.call (Statement.oidcLoginState hash) (Routine.answered after))
      (funext fun found => ?_)
    cases found with
    | none => rfl
    | some state =>
      simp only [Redemption.selected,Redemption.perform,Redemption.finish,Option.map_some,Routine.call_bind,
        Routine.answered_bind]
      refine congrArg (fun after => Routine.call (Statement.deleteOidcLoginState hash) (Routine.answered after))
        (funext fun _ => ?_)
      split <;> rfl
  | emailVerification =>
    simp only [redeem,consumeEmailVerificationToken,Redemption.routine,redemption,Routine.ask_bind,Routine.call_bind,
      Routine.answered_bind]
    refine congrArg (fun after => Routine.call (Statement.emailVerificationToken hash attempt.now) (Routine.answered after))
      (funext fun found => ?_)
    cases found with
    | none => rfl
    | some userId =>
      simp only [Redemption.selected,Redemption.perform,Redemption.finish,Option.map_some,Routine.call_bind,
        Routine.answered_bind,Routine.pure_eq,Routine.done_bind]

/-- The rows a statement changed, `change_password`'s among them. -/
def affects (request : Statement) (answer : request.Answer) : Prop :=
  match request,answer with
  | .changePassword _ _,changed => changed = true
  | .markEmailVerified _,count => 0 < count
  | _,_ => True

theorem ownerAt_some {tokens : Keyed TokenRow} {now userId : Int} (found : ownerAt tokens hash now = some userId) :
    ∃ row, tokens hash = some row ∧ row.userId = userId := by
  unfold ownerAt at found
  cases there : tokens hash with
  | none => simp [there] at found
  | some row =>
    simp only [there,Option.ite_none_right_eq_some,Option.some.injEq] at found
    exact ⟨row,rfl,found.2⟩

theorem deleteKey_self {ρ : Type} (table : Keyed ρ) (key : String) : deleteKey table key key = none := Function.update_self ..

/-- A user a condition selects is affected. -/
theorem affected_pos {users : Table UserRow UserRow.id} (chosen : UserRow → Bool) {u : UserRow} (there : u ∈ users.rows)
    (picked : chosen u = true) : 0 < users.affected chosen := List.countP_pos_iff.mpr ⟨u,there,picked⟩

theorem changePassword_tokens (db : Accounts) (userId : Int) (passwordHash : String) :
    (accounts backend (.changePassword userId passwordHash) db).2.resetTokens = db.resetTokens := by
  simp only [accounts,Accounts.changePassword]
  split <;> rfl

/-- `change_password` reports success for an account that is there and enabled. -/
theorem changePassword_present {db : Accounts} {userId : Int} {passwordHash : String}
    (present : Present db (.changePassword userId passwordHash)) :
    (accounts backend (.changePassword userId passwordHash) db).1 = true := by
  obtain ⟨u,there,rfl,enabled⟩ := present
  have some := affected_pos (fun v => v.id = u.id && !v.disabled) there (by simp [enabled])
  simp only [accounts,Accounts.changePassword]
  split
  · next none => exact absurd none (Nat.pos_iff_ne_zero.mp some)
  · rfl

/-- Each redemption finds its secret, leaves it and deletes it. -/
theorem redemption_stores (secret : Secret) (hash : String) (attempt : Attempt) :
    (redemption secret hash attempt).Stores (accounts backend) (storedSecret secret hash) tokenOf := by
  cases secret with
  | passwordReset =>
    have request : ∀ t request, (redemption .passwordReset hash attempt).deed t = .request request →
        ∃ userId, request = .changePassword userId attempt.newPasswordHash := by
      rintro (userId | state) request deed
      · simp only [redemption] at deed
        split at deed
        · cases deed
          exact ⟨userId,rfl⟩
        · cases deed
      · cases deed
    constructor
    · intro db redeemed found
      obtain ⟨userId,owner,rfl⟩ := Option.map_eq_some_iff.mp found
      obtain ⟨row,there,rfl⟩ := ownerAt_some owner
      exact ⟨.token row,by simp [storedSecret,there],rfl⟩
    · exact fun _ => rfl
    · intro db t _ deed
      obtain ⟨userId,rfl⟩ := request t _ deed
      simp only [storedSecret,changePassword_tokens]
    · intro db
      simp [storedSecret,redemption,accounts,deleteKey_self]
    · exact nofun
    · intro t _ deed
      obtain ⟨userId,rfl⟩ := request t _ deed
      exact nofun
  | oidcLogin =>
    constructor
    · intro db redeemed found
      obtain ⟨state,there,rfl⟩ := Option.map_eq_some_iff.mp found
      replace there : db.loginStates hash = some state := there
      exact ⟨.login state,by simp [storedSecret,there],rfl⟩
    · exact fun _ => rfl
    · intro _ _ _ deed
      cases deed
    · intro db
      simp [storedSecret,redemption,accounts,deleteKey_self]
    · intro same
      cases same
    · intro _ _ deed
      cases deed
  | emailVerification =>
    have request : ∀ t request, (redemption .emailVerification hash attempt).deed t = .request request →
        ∃ userId, request = .markEmailVerified userId := by
      rintro (userId | state) request deed
      · cases deed
        exact ⟨userId,rfl⟩
      · cases deed
    constructor
    · intro db redeemed found
      obtain ⟨userId,owner,rfl⟩ := Option.map_eq_some_iff.mp found
      obtain ⟨row,there,rfl⟩ := ownerAt_some owner
      exact ⟨.token row,by simp [storedSecret,there],rfl⟩
    · exact fun _ => rfl
    · intro db t _ deed
      obtain ⟨userId,rfl⟩ := request t _ deed
      rfl
    · intro db
      simp [storedSecret,redemption,accounts,deleteKey_self]
    · exact nofun
    · intro t _ deed
      obtain ⟨userId,rfl⟩ := request t _ deed
      exact nofun

/-- A statement with its rows there has an effect. -/
theorem affects_present {db : Accounts} {request : Statement} (present : Present db request) :
    affects request (accounts backend request db).1 := by
  cases request with
  | changePassword userId passwordHash => exact changePassword_present present
  | markEmailVerified userId =>
    obtain ⟨u,there,rfl⟩ := present
    exact affected_pos _ there (decide_eq_true rfl)
  | _ => trivial

theorem stored_present {db : Accounts} {attempt : Attempt} (present : Present db (redemption secret hash attempt).delete) :
    storedSecret secret hash db ≠ none := by
  cases secret <;>
  · intro none
    simp only [storedSecret,Option.map_eq_none_iff] at none
    simp [redemption,Present,none] at present

omit [DecidableEq ι] in
theorem effective_present {attempts : ι → Attempt} {s : State ι (Option Redeemed)} {action : Action ι Meanwhile}
    (present : RowsPresent s action) :
    Redemption.Effective (accounts backend) (storedSecret secret hash) affects (fun i => redemption secret hash (attempts i)) s
      action := by
  cases action with
  | outside event => trivial
  | call i fails =>
    cases fails with
    | true => trivial
    | false =>
      intro request next outstanding
      have there := present request next outstanding
      refine ⟨?_,fun _ _ => affects_present there⟩
      rintro rfl
      exact stored_present there

omit [DecidableEq ι] in
/-- A redemption that did what its secret is good for. -/
theorem effected_performed {attempts : ι → Attempt} {before : Accounts} {s : State ι (Option Redeemed)} {i : ι}
    {row : StoredSecret} (found : storedSecret secret hash before = some row)
    (ceased : (s.process i).result = some ((redemption secret hash (attempts i)).result (tokenOf row)))
    (performed : Redemption.Performed affects (fun i => redemption secret hash (attempts i)) s.past i (tokenOf row)) :
    Effected secret hash attempts before s i ∨
      ∃ state, row = .login state ∧ (redemption secret hash (attempts i)).result (tokenOf row) = none ∧
        state.expiresAt ≤ (attempts i).later := by
  cases secret with
  | passwordReset =>
    left
    cases row with
    | login state => exact performed.elim
    | token row =>
      simp only [Redemption.Performed,redemption,tokenOf] at performed
      by_cases argon : (Text.stripPrefix (attempts i).newPasswordHash "$argon2id$").isSome = true
      · rw [if_pos argon] at performed
        obtain ⟨answer,there,rfl⟩ := performed
        simp only [Effected,found]
        exact there
      · rw [if_neg argon] at performed
        exact performed.elim
  | oidcLogin =>
    cases row with
    | token row =>
      obtain ⟨state,_,other⟩ := Option.map_eq_some_iff.mp found
      cases other
    | login state =>
      simp only [redemption,tokenOf] at ceased ⊢
      by_cases expired : state.expiresAt ≤ (attempts i).later
      · exact .inr ⟨state,rfl,if_pos expired,expired⟩
      · left
        simp only [Effected,found]
        rw [ceased,if_neg expired]
  | emailVerification =>
    left
    cases row with
    | login state => exact performed.elim
    | token row =>
      obtain ⟨answer,there,some⟩ := performed
      simp only [Effected,found]
      exact ⟨answer,some,there⟩

/-- Redemptions whose statements find their rows use a secret once, and for its purpose. -/
theorem redeemed_single_use (backend : Backend) (secret : Secret) (hash : String) (attempts : ι → Attempt)
    (db : Accounts) {s : State ι (Option Redeemed)}
    (reach : Transition.Reaches (redemptionStep backend) RowsPresent (startRedemptions secret hash attempts db) s) :
    SingleUse secret hash attempts db s := by
  have start : startRedemptions secret hash attempts db =
      State.start db fun i => (redemption secret hash (attempts i)).routine :=
    congrArg (State.start db) (funext fun i => redeem_eq secret hash (attempts i))
  rw [start] at reach
  have quiet : ∀ event shared shared', meanwhile event shared = some shared' →
      storedSecret secret hash shared' = storedSecret secret hash shared := by
    rintro event shared _ ⟨⟩
    rfl
  have redeemed := Redemption.redeemed_once (fun i => redemption_stores secret hash (attempts i)) quiet
    (reach.weaken fun _ _ => effective_present)
  constructor
  · exact redeemed.once
  · intro i a success
    obtain ⟨row,found,result,performed⟩ := redeemed.performed i a success
    rcases effected_performed found (success.trans (congrArg some result.symm)) performed with effected | ⟨_,_,none,_⟩
    · exact effected
    · rw [none] at result
      cases result
  · rcases redeemed.consumed with same | ⟨i,row,found,ceased,performed⟩
    · exact .inl same
    · rcases effected_performed found ceased performed with effected | ⟨state,rfl,_,expired⟩
      · exact .inr (.inl ⟨i,effected⟩)
      · exact .inr (.inr ⟨i,state,found,expired⟩)

end Instance

def plainBackend : Backend := ⟨fun stored given => stored = given,fun password encodedHash => password = encodedHash,
  fun secret _ => some secret⟩

def oneAccount (disabled : Bool) : Accounts where
  clock := 0
  users := Table.empty.insert (fun id => ⟨id,"user","old","user",disabled,0,none,false,none,false⟩) fun _ => rfl
  sessions := fun _ => none
  resetTokens := Function.update (fun _ => none) "hash" (some ⟨1,100⟩)
  emailTokens := fun _ => none
  loginStates := Function.update (fun _ => none) "hash" (some ⟨"hash","nonce","verifier","uri",0,100⟩)
  challenges := Challenges.empty

def oneAttempt : Attempt := ⟨10,10,"$argon2id$new"⟩

/-- The second request comes after the first one. -/
theorem reset_redeemed_in_turn : ∃ s : State Bool (Option Redeemed),
    Transition.exec (redemptionStep plainBackend)
      (startRedemptions .passwordReset "hash" (fun _ => oneAttempt) (oneAccount false))
      [.call false false,.call false false,.call false false,.call true false] = some s ∧
    (s.process false).result = some (some (.account 1)) ∧ (s.process true).result = some none ∧
    SingleUse .passwordReset "hash" (fun _ => oneAttempt) (oneAccount false) s := by
  obtain ⟨s,ran⟩ : ∃ s, Transition.exec (redemptionStep plainBackend)
      (startRedemptions .passwordReset "hash" (fun _ : Bool => oneAttempt) (oneAccount false))
      [.call false false,.call false false,.call false false,.call true false] = some s := ⟨_,rfl⟩
  have first := congrArg (Option.map fun s => (s.process false).result) ran
  have second := congrArg (Option.map fun s => (s.process true).result) ran
  refine ⟨s,ran,(Option.some.inj first).symm,(Option.some.inj second).symm,
    redeemed_single_use _ .passwordReset "hash" _ _ (Transition.reaches_of_exec ran ?_)⟩
  refine ⟨?_,?_⟩
  · rintro _ _ ⟨⟩
    trivial
  rintro _ ⟨⟩
  refine ⟨?_,?_⟩
  · rintro _ _ ⟨⟩
    exact ⟨_,List.mem_singleton_self _,rfl,rfl⟩
  rintro _ ⟨⟩
  refine ⟨?_,?_⟩
  · rintro _ _ ⟨⟩
    rfl
  rintro _ ⟨⟩
  refine ⟨?_,fun _ _ => trivial⟩
  rintro _ _ ⟨⟩
  trivial

def passwordChanged : Event Bool Statement Statement.Answer → Bool
  | ⟨_,.changePassword _ _,some changed⟩ => changed
  | _ => false

/-- A login state that two requests selected is returned to both; a reset token of a disabled
account is redeemed without a new password. -/
theorem secret_redeemed_twice :
    (∃ s : State Bool (Option Redeemed), Transition.exec (redemptionStep plainBackend)
        (startRedemptions .oidcLogin "hash" (fun _ => oneAttempt) (oneAccount false))
        [.call false false,.call true false,.call false false,.call true false] = some s ∧
      ¬SingleUse .oidcLogin "hash" (fun _ => oneAttempt) (oneAccount false) s) ∧
    ∃ s : State Bool (Option Redeemed), Transition.exec (redemptionStep plainBackend)
        (startRedemptions .passwordReset "hash" (fun _ => oneAttempt) (oneAccount true))
        [.call false false,.call false false,.call false false] = some s ∧
      ¬SingleUse .passwordReset "hash" (fun _ => oneAttempt) (oneAccount true) s := by
  constructor
  · refine ⟨_,rfl,fun single => ?_⟩
    exact absurd (single.once false true _ _ rfl rfl) (by decide)
  · refine ⟨_,rfl,fun single => ?_⟩
    have effect := List.mem_map_of_mem (f := passwordChanged) (single.effect false _ rfl)
    change true ∈ _ at effect
    exact absurd effect (by decide)

end Qdrust.Account
