import Qdrust.Account.Model

/-! Logins by an identity from outside: the identity is looked up, or a user is
provisioned for it. Between the statements other logins, registrations and changes
of accounts take place. -/
namespace Qdrust.Account.ExternalIdentity
open Library Concurrent

structure IdentityRow where
  id : Int
  userId : Int
  provider : String
  issuer : String
  subject : String
  email : Option String
  createdAt : Int
  lastLoginAt : Int
deriving DecidableEq

structure Directory where
  clock : Int
  users : Table UserRow UserRow.id
  identities : Table IdentityRow IdentityRow.id

/-- How the database compares user names, and other texts in a condition or a unique
index; and `to_lowercase`. -/
structure Texts where
  usernameCmp : String → String → Bool
  textCmp : String → String → Bool
  textCmp_refl : ∀ text, textCmp text text = true
  lowercase : String → String

structure ExternalIdentityClaim where
  provider : String
  issuer : String
  subject : String
  email : Option String
  usernameHint : Option String
  groups : List String
deriving DecidableEq

/-- What the server is configured with. -/
structure Provisioning where
  autoCreate : Bool
  defaultRole : String
  adminGroups : List String

structure Login where
  claim : ExternalIdentityClaim
  settings : Provisioning

structure ExternalLoginResolution where
  user : Option User
  created : Bool
  refusal : Option String
deriving DecidableEq

def trim (text : String) : String := Text.trimBy Text.whiteSpace text

/-- Provider, issuer and subject. -/
abbrev IdentityKey := String × String × String

def ExternalIdentityClaim.key (claim : ExternalIdentityClaim) : IdentityKey :=
  (trim claim.provider,trim claim.issuer,claim.subject)

def IdentityRow.key (row : IdentityRow) : IdentityKey := (row.provider,row.issuer,row.subject)

/-- `provider = ? AND issuer = ? AND subject = ?`. -/
def Texts.taken (texts : Texts) (key : IdentityKey) (row : IdentityRow) : Bool :=
  texts.textCmp row.provider key.1 && texts.textCmp row.issuer key.2.1 && texts.textCmp row.subject key.2.2

inductive Statement where
  | clock
  | externalIdentityFor (key : IdentityKey)
  | getUser (id : Int)
  | touchExternalIdentity (id : Int)
  | userIdByEmail (email : String)
  | usernameExists (username : String)
  | provision (username role : String) (email : Option String) (key : IdentityKey) (now : Int)
deriving DecidableEq

/-- The transaction that provisions answers the new user's id, and nothing where a
unique index refuses a row. -/
abbrev Statement.Answer : Statement → Type
  | .clock => Int
  | .externalIdentityFor _ => Option IdentityRow
  | .getUser _ => Option User
  | .touchExternalIdentity _ => Nat
  | .userIdByEmail _ => Option Int
  | .usernameExists _ => Bool
  | .provision _ _ _ _ _ => Option Int

def unusablePasswordHash : String := "$argon2id$v=19$m=0,t=0,p=0$unusable-sentinel$unusable-sentinel-external-user"

def provisionedRow (username role : String) (email : Option String) (id : Int) : UserRow :=
  ⟨id,username,unusablePasswordHash,role,false,1,email,true,none,false⟩

theorem provisionedRow_id (username role : String) (email : Option String) (id : Int) :
    (provisionedRow username role email id).id = id := rfl

def identityRow (userId : Int) (key : IdentityKey) (email : Option String) (now id : Int) : IdentityRow :=
  ⟨id,userId,key.1,key.2.1,key.2.2,email,now,now⟩

theorem identityRow_id (userId : Int) (key : IdentityKey) (email : Option String) (now id : Int) :
    (identityRow userId key email now id).id = id := rfl

def IdentityRow.touched (row : IdentityRow) (now : Int) : IdentityRow := { row with lastLoginAt := now }

theorem IdentityRow.touched_id (now : Int) (row : IdentityRow) : (row.touched now).id = row.id := rfl

namespace Directory

def provision (texts : Texts) (db : Directory) (username role : String) (email : Option String) (key : IdentityKey)
    (now : Int) : Option Int × Directory :=
  if db.users.rows.any (fun u => texts.usernameCmp u.username username) || db.identities.rows.any (texts.taken key) then
    (none,db)
  else
    let userId := db.users.last + 1
    let users := db.users.insert (provisionedRow username role email) (provisionedRow_id username role email)
    (some userId,{ db with
      users
      identities := db.identities.insert (identityRow userId key email now) (identityRow_id userId key email now) })

end Directory

def directory (texts : Texts) : Handler Statement Statement.Answer Directory
  | .clock,db => (db.clock,db)
  | .externalIdentityFor key,db => (db.identities.rows.find? (texts.taken key),db)
  | .getUser id,db => ((db.users.find id).map userFromRow,db)
  | .touchExternalIdentity id,db =>
    let identities := db.identities.update (fun row => row.id = id) (fun row => row.touched db.clock)
      (IdentityRow.touched_id db.clock)
    (db.identities.affected fun row => row.id = id,{ db with identities })
  | .userIdByEmail email,db =>
    ((db.users.rows.find? fun u => u.email.any fun own => texts.textCmp own email).map UserRow.id,db)
  | .usernameExists username,db => (db.users.rows.any fun u => texts.usernameCmp u.username username,db)
  | .provision username role email key now,db => db.provision texts username role email key now

abbrev Calls := Routine Statement Statement.Answer

abbrev ask (statement : Statement) : Calls statement.Answer := Routine.ask statement

/-- Both sides are trimmed; an empty name grants nothing. -/
def groupsOverlap (claimGroups adminGroups : List String) : Bool :=
  adminGroups.any fun wanted => trim wanted != "" && claimGroups.any fun group => trim group == trim wanted

def Login.role (login : Login) : String :=
  if groupsOverlap login.claim.groups login.settings.adminGroups then "admin" else login.settings.defaultRole

def usernameChar (c : Char) : Bool := c.isAlphanum || c == '_' || c == '-'

def sanitized (claim : ExternalIdentityClaim) : String :=
  String.ofList (Text.trimList (fun c => c == '_' || c == '-')
    ((trim (claim.usernameHint.getD claim.subject)).toList.filter usernameChar))

def baseUsername (claim : ExternalIdentityClaim) : String :=
  let name := sanitized claim
  if name.length ≥ 3 then String.ofList (name.toList.take 48)
  else "user_" ++ if name = "" then "ext" else name

/-- The first number that makes a free name, one of `count` from `suffix` on. -/
def freeUsername (base : String) : Nat → Nat → Calls String
  | 0,_ => .failed
  | count + 1,suffix => do
    if ← ask (.usernameExists (base ++ toString suffix)) then freeUsername base count (suffix + 1)
    else return base ++ toString suffix

def uniqueExternalUsername (claim : ExternalIdentityClaim) : Calls String := do
  if ← ask (.usernameExists (baseUsername claim)) then freeUsername (baseUsername claim) 9998 2
  else return baseUsername claim

def refusal (reason : String) : ExternalLoginResolution := ⟨none,false,some reason⟩

def provisionExternalUser (texts : Texts) (login : Login) : Calls ExternalLoginResolution := do
  if !login.settings.autoCreate then return refusal "provisioning_disabled"
  else
    let username ← uniqueExternalUsername login.claim
    let now ← ask .clock
    match ← ask (.provision username login.role (login.claim.email.map fun email => texts.lowercase (trim email))
        login.claim.key now) with
    | none => .failed
    | some id =>
      match ← ask (.getUser id) with
      | none => .failed
      | some user => return ⟨some user,true,none⟩

def resolveExternalIdentity (texts : Texts) (login : Login) : Calls ExternalLoginResolution :=
  if login.settings.defaultRole ≠ "admin" ∧ login.settings.defaultRole ≠ "user" then .failed
  else do
    match ← ask (.externalIdentityFor login.claim.key) with
    | some identity =>
      match ← ask (.getUser identity.userId) with
      | none => provisionExternalUser texts login
      | some user =>
        if user.disabled then return refusal "user_disabled"
        else
          let _ ← ask (.touchExternalIdentity identity.id)
          return ⟨some user,false,none⟩
    | none =>
      match login.claim.email.map fun email => texts.lowercase (trim email) with
      | none => provisionExternalUser texts login
      | some email =>
        if email = "" then provisionExternalUser texts login
        else
          match ← ask (.userIdByEmail email) with
          | some _ => return refusal "external_identity_conflict"
          | none => provisionExternalUser texts login

/-- Time passes, or a statement of another request is carried out. -/
inductive Outside where
  | tick (now : Int)
  | register (username passwordHash role : String)
  | setUserEmail (id : Int) (email : String)
  | changePassword (id : Int) (passwordHash : String)
  | updateUser (id : Int) (role : String) (disabled : Bool)
  | deleteUser (id : Int)

def registeredRow (username passwordHash role : String) (id : Int) : UserRow :=
  ⟨id,username,passwordHash,role,false,1,none,false,none,false⟩

theorem registeredRow_id (username passwordHash role : String) (id : Int) :
    (registeredRow username passwordHash role id).id = id := rfl

/-- A change of a user row. -/
def Outside.set : Outside → UserRow → UserRow
  | .setUserEmail _ email,u => { u with email := some email, emailVerified := false }
  | .changePassword _ passwordHash,u => { u with passwordHash, sessionVersion := u.sessionVersion + 1 }
  | .updateUser _ role disabled,u => { u with role, disabled }
  | _,u => u

theorem Outside.set_id (event : Outside) (u : UserRow) : (event.set u).id = u.id := by
  cases event <;> rfl

/-- A name that is taken is refused by the unique index. -/
def occur (texts : Texts) (event : Outside) (db : Directory) : Option Directory :=
  match event with
  | .tick now => some { db with clock := now }
  | .register username passwordHash role =>
    if db.users.rows.any fun u => texts.usernameCmp u.username username then none
    else
      let users := db.users.insert (registeredRow username passwordHash role) (registeredRow_id username passwordHash role)
      some { db with users }
  | .deleteUser id => some { db with
      users := db.users.delete fun u => u.id = id
      identities := db.identities.delete fun row => row.userId = id }
  | .setUserEmail id _ | .changePassword id _ | .updateUser id _ _ => some { db with
      users := db.users.update (fun u => u.id = id) event.set event.set_id }

variable {ι : Type} [DecidableEq ι]

abbrev World (ι : Type) := Concurrent.World ι Statement Statement.Answer Directory

abbrev State (ι : Type) := Concurrent.State ι Statement Statement.Answer Directory ExternalLoginResolution

def start (texts : Texts) (logins : ι → Login) (db : Directory) : State ι :=
  State.start db fun i => resolveExternalIdentity texts (logins i)

abbrev step (texts : Texts) (s : State ι) (action : Action ι Outside) : Option (State ι) :=
  Concurrent.step (directory texts) (occur texts) s action

/-- The identity belongs to the user. -/
def Mapped (db : Directory) (key : IdentityKey) (id : Int) : Prop :=
  ∃ row ∈ db.identities.rows, row.key = key ∧ row.userId = id

def Present (db : Directory) (id : Int) : Prop := ∃ u ∈ db.users.rows, u.id = id

/-- The user that a login returned. -/
def returned (s : State ι) (i : ι) : Option User := (s.process i).result.bind ExternalLoginResolution.user

/-- The schema: an identity is there once, and of a user that has been there. -/
structure Schema (db : Directory) : Prop where
  unique : ∀ row ∈ db.identities.rows, ∀ other ∈ db.identities.rows, row.key = other.key → row = other
  owned : ∀ row ∈ db.identities.rows, row.userId ≤ db.users.last

/-- Whoever logs in from outside between two states of a run gets the account of that
identity, and nobody gets another. -/
structure LoginsSound (logins : ι → Login) (a b : State ι) : Prop where
  foreign : ∀ i id user, Present a.shared id → ¬Mapped a.shared (logins i).claim.key id → returned b i = some user →
    user.id ≠ id
  same : ∀ i id user, Mapped a.shared (logins i).claim.key id → Present b.shared id → a.last i = none →
    returned b i = some user → user.id = id
  enabled : ∀ i user, returned b i = some user → user.disabled = false
  role : ∀ i username email key now answer, ⟨i,.provision username "admin" email key now,answer⟩ ∈ b.past →
    groupsOverlap (logins i).claim.groups (logins i).settings.adminGroups = true ∨
      (logins i).settings.defaultRole = "admin"

/-- The database takes no other identity for the one that logs in, and a user that was
just provisioned is not disabled before it is read again. -/
def Apart (texts : Texts) (s : State ι) : Action ι Outside → Prop
  | .call i _ =>
    (∀ key next, s.process i = .call (.externalIdentityFor key) next →
      ∀ row ∈ s.shared.identities.rows, texts.taken key row = true → row.key = key) ∧
    ∀ id next, s.process i = .call (.getUser id) next →
      (∃ username role email key now, ⟨i,.provision username role email key now,some (some id)⟩ ∈ s.past) →
      ∀ u, s.shared.users.find id = some u → u.disabled = false
  | .outside _ => True

section Tables

variable {texts : Texts} {a b c : Directory} {key : IdentityKey} {id : Int}

/-- The user is gone for good: its number is not handed out again. -/
def Gone (db : Directory) (id : Int) : Prop := id ≤ db.users.last ∧ ¬Present db id

theorem Present.le {db : Directory} (present : Present db id) : id ≤ db.users.last := by
  obtain ⟨u,there,rfl⟩ := present
  exact db.users.bounded u there

/-- What becomes of the tables: a user that is gone stays gone, an identity stays with
its user, and new ones are of new users. -/
structure Later (a b : Directory) : Prop where
  last : a.users.last ≤ b.users.last
  present : ∀ id, Present b id → id ≤ a.users.last → Present a id
  kept : ∀ key id, Mapped a key id → Present b id → Mapped b key id
  mapped : ∀ key id, Mapped b key id → Mapped a key id ∨ a.users.last < id

theorem Later.refl (db : Directory) : Later db db :=
  ⟨Int.le_refl _,fun _ present _ => present,fun _ _ mapped _ => mapped,fun _ _ mapped => .inl mapped⟩

theorem Schema.le {db : Directory} (schema : Schema db) (mapped : Mapped db key id) : id ≤ db.users.last := by
  obtain ⟨row,there,-,rfl⟩ := mapped
  exact schema.owned row there

theorem Schema.same {db : Directory} (schema : Schema db) {other : Int} (mapped : Mapped db key id)
    (again : Mapped db key other) : id = other := by
  obtain ⟨row,there,keyed,rfl⟩ := mapped
  obtain ⟨row',there',keyed',rfl⟩ := again
  rw [schema.unique row there row' there' (keyed.trans keyed'.symm)]

theorem Later.trans (schema : Schema a) (first : Later a b) (second : Later b c) : Later a c := by
  refine ⟨Int.le_trans first.last second.last,?_,?_,?_⟩
  · intro id present old
    exact first.present id (second.present id present (Int.le_trans old first.last)) old
  · intro key id mapped present
    have between := second.present id present (Int.le_trans (schema.le mapped) first.last)
    exact second.kept key id (first.kept key id mapped between) present
  · intro key id mapped
    rcases second.mapped key id mapped with before | new
    · exact first.mapped key id before
    · exact .inr (Int.lt_of_le_of_lt first.last new)

theorem Later.gone (later : Later a b) (gone : Gone a id) : Gone b id :=
  ⟨Int.le_trans gone.1 later.last,fun present => gone.2 (later.present id present gone.1)⟩

/-- Users are rewritten, or time passes. -/
theorem later_users {db db' : Directory} (last : db'.users.last = db.users.last)
    (users : ∀ id, Present db' id ↔ Present db id) (identities : db'.identities = db.identities) : Later db db' := by
  refine ⟨Int.le_of_eq last.symm,fun id present _ => (users id).mp present,?_,?_⟩
  · intro key id mapped _
    rw [Mapped,identities]
    exact mapped
  · intro key id mapped
    rw [Mapped,identities] at mapped
    exact .inl mapped

theorem present_update {users : Table UserRow UserRow.id} {chosen : UserRow → Bool} {set : UserRow → UserRow}
    (keeps : ∀ u, (set u).id = u.id) (id : Int) :
    (∃ u ∈ (users.update chosen set keeps).rows, u.id = id) ↔ ∃ u ∈ users.rows, u.id = id := by
  constructor
  · rintro ⟨u,there,rfl⟩
    obtain ⟨old,member,rfl⟩ := (users.mem_update keeps).mp there
    refine ⟨old,member,?_⟩
    split
    · exact (keeps old).symm
    · rfl
  · rintro ⟨u,there,rfl⟩
    refine ⟨_,(users.mem_update keeps).mpr ⟨u,there,rfl⟩,?_⟩
    split
    · exact keeps u
    · rfl

/-- A new user under the next number. -/
theorem later_insert (db : Directory) {make : Int → UserRow} (keyed : ∀ id, (make id).id = id)
    {identities : Table IdentityRow IdentityRow.id}
    (rows : ∀ key id, Mapped { db with identities } key id ↔ Mapped db key id ∨ id = db.users.last + 1 ∧
      Mapped { db with identities } key id) :
    Later db { db with users := db.users.insert make keyed, identities } := by
  refine ⟨Int.le_of_lt (Int.lt_succ _),?_,?_,?_⟩
  · rintro id ⟨u,there,rfl⟩ old
    rcases (db.users.mem_insert keyed).mp there with before | rfl
    · exact ⟨u,before,rfl⟩
    · rw [keyed] at old
      exact absurd old (Int.not_le.mpr (Int.lt_succ _))
  · intro key id mapped _
    exact (rows key id).mpr (.inl mapped)
  · intro key id mapped
    rcases (rows key id).mp mapped with before | ⟨rfl,-⟩
    · exact .inl before
    · exact .inr (Int.lt_succ _)

theorem taken_self (texts : Texts) (row : IdentityRow) : texts.taken row.key row = true := by
  simp [Texts.taken,IdentityRow.key,texts.textCmp_refl]

theorem statement_later (texts : Texts) (statement : Statement) {db : Directory} (schema : Schema db) :
    Later db (directory texts statement db).2 ∧ Schema (directory texts statement db).2 := by
  cases statement with
  | clock => exact ⟨.refl db,schema⟩
  | externalIdentityFor key => exact ⟨.refl db,schema⟩
  | getUser id => exact ⟨.refl db,schema⟩
  | userIdByEmail email => exact ⟨.refl db,schema⟩
  | usernameExists username => exact ⟨.refl db,schema⟩
  | touchExternalIdentity chosen =>
    have rows : ∀ row' ∈ (directory texts (.touchExternalIdentity chosen) db).2.identities.rows, ∃ row ∈ db.identities.rows,
        row' = (if row.id = chosen then row.touched db.clock else row) ∧ row'.key = row.key ∧ row'.userId = row.userId := by
      intro row' there
      obtain ⟨row,member,rfl⟩ := (db.identities.mem_update (IdentityRow.touched_id db.clock)).mp there
      simp only [decide_eq_true_eq]
      refine ⟨row,member,rfl,?_⟩
      split <;> exact ⟨rfl,rfl⟩
    have same : ∀ key id, Mapped (directory texts (.touchExternalIdentity chosen) db).2 key id ↔ Mapped db key id := by
      intro key id
      constructor
      · rintro ⟨row',there,rfl,rfl⟩
        obtain ⟨row,member,-,keyed,user⟩ := rows row' there
        exact ⟨row,member,keyed.symm,user.symm⟩
      · rintro ⟨row,there,rfl,rfl⟩
        refine ⟨_,(db.identities.mem_update (IdentityRow.touched_id db.clock)).mpr ⟨row,there,rfl⟩,?_⟩
        split <;> exact ⟨rfl,rfl⟩
    refine ⟨⟨Int.le_refl _,fun _ present _ => present,fun key id mapped _ => (same key id).mpr mapped,
      fun key id mapped => .inl ((same key id).mp mapped)⟩,?_,?_⟩
    · intro row' there other' there' keyed
      obtain ⟨row,member,rfl,key,-⟩ := rows row' there
      obtain ⟨other,member',rfl,key',-⟩ := rows other' there'
      rw [schema.unique row member other member' (key.symm.trans (keyed.trans key'))]
    · intro row' there
      obtain ⟨row,member,-,-,user⟩ := rows row' there
      rw [user]
      exact schema.owned row member
  | provision username role email key now =>
    rw [directory,Directory.provision]
    split
    · exact ⟨.refl db,schema⟩
    · rename_i free
      simp only [Bool.or_eq_true,not_or,Bool.not_eq_true,List.any_eq_false] at free
      let fresh := identityRow (db.users.last + 1) key email now
      have keyed := identityRow_id (db.users.last + 1) key email now
      refine ⟨later_insert db (provisionedRow_id username role email) ?_,?_,?_⟩
      · intro key' id
        constructor
        · rintro ⟨row,there,rfl,rfl⟩
          rcases (db.identities.mem_insert keyed).mp there with before | rfl
          · exact .inl ⟨row,before,rfl,rfl⟩
          · exact .inr ⟨rfl,_,there,rfl,rfl⟩
        · rintro (⟨row,there,rfl,rfl⟩ | ⟨-,mapped⟩)
          · exact ⟨row,(db.identities.mem_insert keyed).mpr (.inl there),rfl,rfl⟩
          · exact mapped
      · intro row there other there' same
        rcases (db.identities.mem_insert keyed).mp there with before | rfl <;>
          rcases (db.identities.mem_insert keyed).mp there' with before' | rfl
        · exact schema.unique row before other before' same
        · have self := taken_self texts row
          rw [same] at self
          exact absurd ((free.2 row before).symm.trans self) Bool.false_ne_true
        · have self := taken_self texts other
          rw [← same] at self
          exact absurd ((free.2 other before').symm.trans self) Bool.false_ne_true
        · rfl
      · intro row there
        rcases (db.identities.mem_insert keyed).mp there with before | rfl
        · exact Int.le_trans (schema.owned row before) (Int.le_of_lt (Int.lt_succ _))
        · exact Int.le_refl _

theorem occur_later {texts : Texts} {event : Outside} {db db' : Directory} (schema : Schema db)
    (occurred : occur texts event db = some db') : Later db db' ∧ Schema db' := by
  have rewritten : ∀ (chosen : UserRow → Bool) (event : Outside),
      Later db { db with users := db.users.update chosen event.set event.set_id } ∧
        Schema { db with users := db.users.update chosen event.set event.set_id } :=
    fun chosen event => ⟨later_users rfl (fun id => present_update event.set_id id) rfl,schema.unique,schema.owned⟩
  cases event with
  | tick now =>
    cases occurred
    exact ⟨later_users rfl (fun _ => Iff.rfl) rfl,schema.unique,schema.owned⟩
  | register username passwordHash role =>
    rw [occur] at occurred
    split at occurred
    · cases occurred
    · cases occurred
      refine ⟨later_insert db (registeredRow_id username passwordHash role) fun key other => ?_,schema.unique,?_⟩
      · exact ⟨.inl,fun either => either.elim id And.right⟩
      · intro row there
        exact Int.le_trans (schema.owned row there) (Int.le_of_lt (Int.lt_succ _))
  | deleteUser chosen =>
    cases occurred
    refine ⟨⟨Int.le_refl _,?_,?_,?_⟩,?_,?_⟩
    · rintro id ⟨u,there,rfl⟩ _
      exact ⟨u,(db.users.mem_delete.mp there).1,rfl⟩
    · rintro key id ⟨row,there,rfl,rfl⟩ ⟨u,member,same⟩
      refine ⟨row,db.identities.mem_delete.mpr ⟨there,?_⟩,rfl,rfl⟩
      have other := (db.users.mem_delete.mp member).2
      rw [decide_eq_false_iff_not] at other ⊢
      rwa [← same]
    · rintro key id ⟨row,there,rfl,rfl⟩
      exact .inl ⟨row,(db.identities.mem_delete.mp there).1,rfl,rfl⟩
    · intro row there other there' same
      exact schema.unique row (db.identities.mem_delete.mp there).1 other (db.identities.mem_delete.mp there').1 same
    · intro row there
      exact schema.owned row (db.identities.mem_delete.mp there).1
  | setUserEmail id email =>
    cases occurred
    exact rewritten _ _
  | changePassword id passwordHash =>
    cases occurred
    exact rewritten _ _
  | updateUser id role disabled =>
    cases occurred
    exact rewritten _ _

end Tables

section Stages

variable {texts : Texts} {logins : ι → Login} {world world' : World ι} {i : ι} {key : IdentityKey} {id : Int}

def reread : Option User → Calls ExternalLoginResolution
  | none => .failed
  | some user => .done ⟨some user,true,none⟩

def provisioned : Option Int → Calls ExternalLoginResolution
  | none => .failed
  | some id => .call (.getUser id) (Routine.answered reread)

def Login.email (texts : Texts) (login : Login) : Option String :=
  login.claim.email.map fun email => texts.lowercase (trim email)

def provisionAt (texts : Texts) (login : Login) (username : String) (now : Int) : Calls ExternalLoginResolution :=
  .call (.provision username login.role (login.email texts) login.claim.key now) (Routine.answered provisioned)

def provisionAs (texts : Texts) (login : Login) (username : String) : Calls ExternalLoginResolution :=
  .call .clock (Routine.answered (provisionAt texts login username))

def afterUser (texts : Texts) (login : Login) (identity : IdentityRow) : Option User → Calls ExternalLoginResolution
  | none => provisionExternalUser texts login
  | some user =>
    if user.disabled then .done (refusal "user_disabled")
    else .call (.touchExternalIdentity identity.id) (Routine.answered fun _ => .done ⟨some user,false,none⟩)

def conflict (texts : Texts) (login : Login) : Option Int → Calls ExternalLoginResolution
  | some _ => .done (refusal "external_identity_conflict")
  | none => provisionExternalUser texts login

def afterLookup (texts : Texts) (login : Login) : Option IdentityRow → Calls ExternalLoginResolution
  | some identity => .call (.getUser identity.userId) (Routine.answered (afterUser texts login identity))
  | none =>
    match login.email texts with
    | none => provisionExternalUser texts login
    | some email =>
      if email = "" then provisionExternalUser texts login
      else .call (.userIdByEmail email) (Routine.answered (conflict texts login))

theorem provisionExternalUser_eq (texts : Texts) (login : Login) : provisionExternalUser texts login =
    if login.settings.autoCreate then uniqueExternalUsername login.claim >>= provisionAs texts login
    else .done (refusal "provisioning_disabled") := by
  rw [provisionExternalUser]
  cases login.settings.autoCreate with
  | false => rfl
  | true =>
    simp only [Bool.not_true,Bool.false_eq_true,if_false,if_true]
    congr 1
    funext username
    simp only [Routine.ask_bind]
    refine Routine.call_congr fun now => Routine.call_congr fun id => ?_
    cases id with
    | none => rfl
    | some id =>
      refine Routine.call_congr fun user => ?_
      cases user <;> rfl

theorem resolveExternalIdentity_eq (texts : Texts) (login : Login) : resolveExternalIdentity texts login =
    if login.settings.defaultRole ≠ "admin" ∧ login.settings.defaultRole ≠ "user" then .failed
    else .call (.externalIdentityFor login.claim.key) (Routine.answered (afterLookup texts login)) := by
  rw [resolveExternalIdentity]
  split
  · rfl
  · rw [Routine.ask_bind]
    refine Routine.call_congr fun found => ?_
    cases found with
    | some identity =>
      simp only [afterLookup,Routine.ask_bind]
      refine Routine.call_congr fun user => ?_
      cases user with
      | none => rfl
      | some user =>
        simp only [afterUser]
        split
        · rfl
        · rfl
    | none =>
      simp only [afterLookup,Login.email]
      cases login.claim.email.map fun email => texts.lowercase (trim email) with
      | none => rfl
      | some email =>
        dsimp only
        split
        · rfl
        · rw [Routine.ask_bind]
          refine Routine.call_congr fun user => ?_
          cases user <;> rfl

/-- A call that looks for a free name. -/
def Names (statement : Statement) : Prop := ∃ username, statement = .usernameExists username

theorem freeUsername_names (base : String) (count suffix : Nat) :
    Routine.Avoids (fun statement => ¬Names statement) (freeUsername base count suffix) := by
  induction count generalizing suffix with
  | zero => exact .failed
  | succ count ih =>
    rw [freeUsername,Routine.ask_bind]
    refine .call (not_not.mpr ⟨_,rfl⟩) (Routine.avoids_answered fun taken => ?_)
    cases taken with
    | false => exact .done _
    | true => exact ih (suffix + 1)

theorem uniqueExternalUsername_names (claim : ExternalIdentityClaim) :
    Routine.Avoids (fun statement => ¬Names statement) (uniqueExternalUsername claim) := by
  rw [uniqueExternalUsername,Routine.ask_bind]
  refine .call (not_not.mpr ⟨_,rfl⟩) (Routine.avoids_answered fun taken => ?_)
  cases taken with
  | false => exact .done _
  | true => exact freeUsername_names _ _ _

/-- The process has read this under the key. -/
def Looked (world : World ι) (key : IdentityKey) (i : ι) (found : Option IdentityRow) : Prop :=
  ⟨i,.externalIdentityFor key,some found⟩ ∈ world.past

def Provisioned (world : World ι) (key : IdentityKey) (i : ι) (id : Int) : Prop :=
  ∃ username role email now, ⟨i,.provision username role email key now,some (some id)⟩ ∈ world.past

/-- No identity was found, or one whose user is gone. -/
def Free (world : World ι) (key : IdentityKey) (i : ι) : Prop :=
  Looked world key i none ∨ ∃ row, Looked world key i (some row) ∧ Gone world.shared row.userId

/-- Where a user comes from that is returned. -/
def Origin (world : World ι) (key : IdentityKey) (i : ι) (id : Int) : Prop :=
  (∃ row, Looked world key i (some row) ∧ row.userId = id) ∨ (Provisioned world key i id ∧ Free world key i)

def Held (db : Directory) (key : IdentityKey) (id : Int) : Prop := Mapped db key id ∨ Gone db id

/-- How far a login has come. -/
inductive Stage (texts : Texts) (login : Login) (i : ι) (world : World ι) : Calls ExternalLoginResolution → Prop
  | unbegun (none : world.last i = none) : Stage texts login i world (resolveExternalIdentity texts login)
  | matched (identity : IdentityRow) (looked : Looked world login.claim.key i (some identity)) :
      Stage texts login i world (.call (.getUser identity.userId) (Routine.answered (afterUser texts login identity)))
  | touching (identity : IdentityRow) (user : User) (looked : Looked world login.claim.key i (some identity))
      (same : user.id = identity.userId) (enabled : user.disabled = false) : Stage texts login i world
        (.call (.touchExternalIdentity identity.id) (Routine.answered fun _ => .done ⟨some user,false,none⟩))
  | checking (email : String) (looked : Looked world login.claim.key i none) :
      Stage texts login i world (.call (.userIdByEmail email) (Routine.answered (conflict texts login)))
  | naming (rest : Calls String) (names : Routine.Avoids (fun statement => ¬Names statement) rest)
      (free : Free world login.claim.key i) : Stage texts login i world (rest >>= provisionAs texts login)
  | provisioning (username : String) (now : Int) (free : Free world login.claim.key i) :
      Stage texts login i world (provisionAt texts login username now)
  | rereading (id : Int) (free : Free world login.claim.key i) (made : Provisioned world login.claim.key i id) :
      Stage texts login i world (.call (.getUser id) (Routine.answered reread))
  | returned (resolution : ExternalLoginResolution) (origin : ∀ user, resolution.user = some user →
      Origin world login.claim.key i user.id ∧ user.disabled = false) : Stage texts login i world (.done resolution)
  | failed : Stage texts login i world .failed

/-- What was read or provisioned still belongs to the identity, or is gone. -/
structure Ledger (logins : ι → Login) (world : World ι) : Prop where
  schema : Schema world.shared
  looked : ∀ i key row, Looked world key i (some row) → Held world.shared key row.userId
  provisioned : ∀ i key id, Provisioned world key i id → Held world.shared key id
  role : ∀ i username role email key now answer, ⟨i,.provision username role email key now,answer⟩ ∈ world.past →
    role = (logins i).role

theorem Held.later {a b : Directory} (held : Held a key id) (schema : Schema a) (later : Later a b) : Held b key id := by
  rcases held with mapped | gone
  · by_cases present : Present b id
    · exact .inl (later.kept key id mapped present)
    · exact .inr ⟨Int.le_trans (schema.le mapped) later.last,present⟩
  · exact .inr (later.gone gone)

section Later

variable (past : ∀ event ∈ world.past, event ∈ world'.past) (later : Later world.shared world'.shared)
include past

omit [DecidableEq ι] in
theorem Looked.kept {found : Option IdentityRow} (looked : Looked world key i found) : Looked world' key i found :=
  past _ looked

omit [DecidableEq ι] in
theorem Provisioned.kept (made : Provisioned world key i id) : Provisioned world' key i id := by
  obtain ⟨username,role,email,now,there⟩ := made
  exact ⟨username,role,email,now,past _ there⟩

include later

omit [DecidableEq ι] in
theorem Free.kept (free : Free world key i) : Free world' key i := by
  rcases free with none | ⟨row,looked,gone⟩
  · exact .inl (past _ none)
  · exact .inr ⟨row,past _ looked,later.gone gone⟩

omit [DecidableEq ι] in
theorem Origin.kept (origin : Origin world key i id) : Origin world' key i id := by
  rcases origin with ⟨row,looked,same⟩ | ⟨made,free⟩
  · exact .inl ⟨row,past _ looked,same⟩
  · exact .inr ⟨made.kept past,free.kept past later⟩

/-- A process that makes no call has got no further. -/
theorem Stage.kept {login : Login} (last : world'.last i = world.last i) {routine : Calls ExternalLoginResolution}
    (stage : Stage texts login i world routine) : Stage texts login i world' routine := by
  cases stage with
  | unbegun none => exact .unbegun (last.trans none)
  | matched identity looked => exact .matched identity (looked.kept past)
  | touching identity user looked same enabled => exact .touching identity user (looked.kept past) same enabled
  | checking email looked => exact .checking email (looked.kept past)
  | naming rest names free => exact .naming rest names (free.kept past later)
  | provisioning username now free => exact .provisioning username now (free.kept past later)
  | rereading id free made => exact .rereading id (free.kept past later) (made.kept past)
  | returned resolution origin =>
    exact .returned resolution fun user same => ⟨(origin user same).1.kept past later,(origin user same).2⟩
  | failed => exact .failed

end Later

omit [DecidableEq ι] in
theorem past_grows (world : World ι) (i : ι) (request : Statement) (fails : Bool) :
    ∀ event ∈ world.past, event ∈ (world.perform (directory texts) i request fails).past := by
  intro event there
  cases fails <;> exact List.mem_cons_of_mem _ there

omit [DecidableEq ι] in
theorem perform_later (world : World ι) (schema : Schema world.shared) (i : ι) (request : Statement) (fails : Bool) :
    Later world.shared (world.perform (directory texts) i request fails).shared ∧
      Schema (world.perform (directory texts) i request fails).shared := by
  cases fails with
  | true => exact ⟨.refl _,schema⟩
  | false => exact statement_later texts request schema

omit [DecidableEq ι] in
/-- What is found under a key is mapped, where the database takes nothing else for it. -/
theorem found_mapped {db : Directory} {row : IdentityRow}
    (exact_ : ∀ row ∈ db.identities.rows, texts.taken key row = true → row.key = key)
    (found : db.identities.rows.find? (texts.taken key) = some row) : Mapped db key row.userId :=
  ⟨row,List.mem_of_find?_eq_some found,exact_ row (List.mem_of_find?_eq_some found) (List.find?_some found),rfl⟩

theorem provision_mapped {db : Directory} {username role : String} {email : Option String} {now : Int}
    (made : (db.provision texts username role email key now).1 = some id) :
    Mapped (db.provision texts username role email key now).2 key id ∧ db.users.last < id := by
  unfold Directory.provision at made ⊢
  split at made
  · cases made
  · rename_i free
    rw [if_neg free]
    cases made
    refine ⟨⟨_,(db.identities.mem_insert (identityRow_id (db.users.last + 1) key email now)).mpr (.inr rfl),rfl,rfl⟩,?_⟩
    exact Int.lt_succ _

/-- One more call. -/
theorem Ledger.perform (ledger : Ledger logins world) (i : ι) (request : Statement) (fails : Bool)
    (exact_ : ∀ key, request = .externalIdentityFor key → ∀ row ∈ world.shared.identities.rows,
      texts.taken key row = true → row.key = key)
    (role : ∀ username role email key now, request = .provision username role email key now → role = (logins i).role) :
    Ledger logins (world.perform (directory texts) i request fails) := by
  obtain ⟨later,schema⟩ : Later world.shared (world.perform (directory texts) i request fails).shared ∧
      Schema (world.perform (directory texts) i request fails).shared :=
    perform_later world ledger.schema i request fails
  constructor
  · exact schema
  · intro j key row looked
    rw [Looked,past_perform] at looked
    rcases List.mem_cons.mp looked with new | old
    · injection new with _ same answered
      subst same
      cases fails with
      | true => cases eq_of_heq answered
      | false =>
        exact .inl (found_mapped (exact_ key rfl) (Option.some.inj (eq_of_heq answered)).symm)
    · exact (ledger.looked j key row old).later ledger.schema later
  · intro j key id made
    obtain ⟨username,role,email,now,made⟩ := made
    rw [past_perform] at made
    rcases List.mem_cons.mp made with new | old
    · injection new with _ same answered
      subst same
      cases fails with
      | true => cases eq_of_heq answered
      | false => exact .inl (provision_mapped (Option.some.inj (eq_of_heq answered)).symm).1
    · exact (ledger.provisioned j key id ⟨_,_,_,_,old⟩).later ledger.schema later
  · intro j username role' email key now answer there
    rw [past_perform] at there
    rcases List.mem_cons.mp there with new | old
    · cases new
      exact role _ _ _ _ _ rfl
    · exact ledger.role j username role' email key now answer old

omit [DecidableEq ι] in
/-- What the latest call has read. -/
theorem looked_self (world : World ι) (i : ι) (key : IdentityKey) :
    Looked (world.perform (directory texts) i (.externalIdentityFor key) false) key i
      (world.shared.identities.rows.find? (texts.taken key)) := List.mem_cons_self

theorem provisionExternalUser_stage {login : Login} (free : Free world login.claim.key i) :
    Stage texts login i world (provisionExternalUser texts login) := by
  rw [provisionExternalUser_eq]
  split
  · exact .naming _ (uniqueExternalUsername_names login.claim) free
  · refine .returned _ ?_
    rintro user ⟨⟩

theorem afterLookup_stage {login : Login} {found : Option IdentityRow} (looked : Looked world login.claim.key i found) :
    Stage texts login i world (afterLookup texts login found) := by
  cases found with
  | some identity => exact .matched identity looked
  | none =>
    rw [afterLookup]
    split
    · exact provisionExternalUser_stage (.inl looked)
    · split
      · exact provisionExternalUser_stage (.inl looked)
      · exact .checking _ looked

/-- The user of an identity, or none where it is gone. -/
theorem afterUser_stage {login : Login} {identity : IdentityRow} {found : Option UserRow}
    (held : Held world.shared login.claim.key identity.userId) (schema : Schema world.shared)
    (looked : Looked world login.claim.key i (some identity)) (read : world.shared.users.find identity.userId = found) :
    Stage texts login i world (afterUser texts login identity (found.map userFromRow)) := by
  cases found with
  | none =>
    refine provisionExternalUser_stage (.inr ⟨identity,looked,?_,?_⟩)
    · exact held.elim schema.le And.left
    · rintro ⟨u,there,same⟩
      rw [world.shared.users.find_eq_some.mpr ⟨there,same⟩] at read
      cases read
  | some u =>
    simp only [Option.map_some,afterUser]
    split
    · refine .returned _ ?_
      rintro user ⟨⟩
    · rename_i enabled
      exact .touching identity _ looked (world.shared.users.find_eq_some.mp read).2 (Bool.not_eq_true _ ▸ enabled)

/-- A login's own call keeps the ledger and its stage. -/
theorem own_call {s : State ι} {i : ι} {request : Statement} {fails : Bool}
    {next : Option request.Answer → Calls ExternalLoginResolution} (ledger : Ledger logins s.toWorld)
    (stage : Stage texts (logins i) i s.toWorld (s.process i)) (apart : Apart texts s (.call i fails))
    (outstanding : s.process i = .call request next) :
    Ledger logins (s.toWorld.perform (directory texts) i request fails) ∧
      Stage texts (logins i) i (s.toWorld.perform (directory texts) i request fails)
        (next (answer (directory texts) s.shared request fails)) := by
  obtain ⟨exact_,undisabled⟩ := apart
  have since : ∀ event ∈ s.past, event ∈ (s.toWorld.perform (directory texts) i request fails).past :=
    past_grows s.toWorld i request fails
  have later : Later s.shared (s.toWorld.perform (directory texts) i request fails).shared :=
    (perform_later s.toWorld ledger.schema i request fails).1
  generalize running : s.process i = routine at stage outstanding
  cases stage with
  | unbegun none =>
    rw [resolveExternalIdentity_eq] at outstanding running
    split at outstanding
    · cases outstanding
    rename_i valid
    rw [if_neg valid] at running
    cases outstanding
    refine ⟨ledger.perform i _ fails ?_ (by rintro _ _ _ _ _ ⟨⟩),?_⟩
    · rintro _ ⟨⟩
      exact exact_ _ _ running
    cases fails with
    | true => exact .failed
    | false =>
      exact afterLookup_stage (looked_self s.toWorld i (logins i).claim.key)
  | matched identity looked =>
    cases outstanding
    refine ⟨ledger.perform i _ fails (by rintro _ ⟨⟩) (by rintro _ _ _ _ _ ⟨⟩),?_⟩
    cases fails with
    | true => exact .failed
    | false => exact afterUser_stage (ledger.looked i _ _ looked) ledger.schema (looked.kept since) rfl
  | touching identity user looked same enabled =>
    cases outstanding
    refine ⟨ledger.perform i _ fails (by rintro _ ⟨⟩) (by rintro _ _ _ _ _ ⟨⟩),?_⟩
    cases fails with
    | true => exact .failed
    | false =>
      refine .returned _ ?_
      rintro _ ⟨⟩
      exact ⟨.inl ⟨identity,looked.kept since,same.symm⟩,enabled⟩
  | checking email looked =>
    cases outstanding
    refine ⟨ledger.perform i _ fails (by rintro _ ⟨⟩) (by rintro _ _ _ _ _ ⟨⟩),?_⟩
    cases fails with
    | true => exact .failed
    | false =>
      simp only [answer,Bool.false_eq_true,if_false,directory,Routine.answered_some]
      cases (s.shared.users.rows.find? fun u => u.email.any fun own => texts.textCmp own email).map UserRow.id with
      | some id =>
        refine .returned _ ?_
        rintro user ⟨⟩
      | none => exact provisionExternalUser_stage (.inl (looked.kept since))
  | naming rest names free =>
    cases names with
    | done username =>
      cases outstanding
      refine ⟨ledger.perform i _ fails (by rintro _ ⟨⟩) (by rintro _ _ _ _ _ ⟨⟩),?_⟩
      cases fails with
      | true => exact .failed
      | false => exact .provisioning username s.shared.clock (free.kept since later)
    | failed => cases outstanding
    | call name rest =>
      rw [Routine.call_bind] at outstanding
      cases outstanding
      obtain ⟨username,rfl⟩ := not_not.mp name
      exact ⟨ledger.perform i _ fails (by rintro _ ⟨⟩) (by rintro _ _ _ _ _ ⟨⟩),.naming _ (rest _) (free.kept since later)⟩
  | provisioning username now free =>
    cases outstanding
    refine ⟨ledger.perform i _ fails (by rintro _ ⟨⟩) (by rintro _ _ _ _ _ ⟨⟩; rfl),?_⟩
    cases fails with
    | true => exact .failed
    | false =>
      cases made : (s.shared.provision texts username (logins i).role ((logins i).email texts) (logins i).claim.key now).1 with
      | none =>
        simp only [answer,Bool.false_eq_true,if_false,directory,Routine.answered_some,made]
        exact .failed
      | some id =>
        have event : Provisioned (s.toWorld.perform (directory texts) i (.provision username (logins i).role
            ((logins i).email texts) (logins i).claim.key now) false) (logins i).claim.key i id := by
          refine ⟨username,(logins i).role,(logins i).email texts,now,?_⟩
          rw [past_perform,answer,if_neg Bool.false_ne_true]
          simp only [directory,made]
          exact List.mem_cons_self
        simp only [answer,Bool.false_eq_true,if_false,directory,Routine.answered_some,made]
        exact .rereading id (free.kept since later) event
  | rereading id free made =>
    cases outstanding
    refine ⟨ledger.perform i _ fails (by rintro _ ⟨⟩) (by rintro _ _ _ _ _ ⟨⟩),?_⟩
    cases fails with
    | true => exact .failed
    | false =>
      obtain ⟨username,role,email,now,event⟩ := made
      have enabled := undisabled id _ running ⟨username,role,email,_,now,event⟩
      simp only [answer,Bool.false_eq_true,if_false,directory,Routine.answered_some]
      cases found : s.shared.users.find id with
      | none => exact .failed
      | some u =>
        refine .returned _ ?_
        rintro _ ⟨⟩
        have same : u.id = id := (s.shared.users.find_eq_some.mp found).2
        refine ⟨.inr ⟨?_,free.kept since later⟩,enabled u found⟩
        rw [userFromRow,same]
        exact ⟨username,role,email,now,since _ event⟩
  | returned resolution origin => cases outstanding
  | failed => cases outstanding

end Stages

section Runs

variable {texts : Texts} {logins : ι → Login}

abbrev Kept (texts : Texts) (logins : ι → Login) (s : State ι) : Prop :=
  Assertions (Ledger logins) (fun i => Stage texts (logins i) i) s

theorem step_kept {s t : State ι} {action : Action ι Outside} (holds : Kept texts logins s) (apart : Apart texts s action)
    (taken : step texts s action = some t) : Kept texts logins t := by
  refine assertions_kept (Ledger logins) (fun i => Stage texts (logins i) i) ?_ ?_ ?_
    (Transition.Reaches.snoc (.refl s) action apart taken) holds
  · intro s i request next fails holds apart outstanding
    exact own_call holds.common (holds.stage i) apart outstanding
  · intro s i request next fails j holds _ _ differs
    exact (holds.stage j).kept (past_grows s.toWorld i request fails)
      (perform_later s.toWorld holds.common.schema i request fails).1 (last_other s.toWorld differs request fails)
  · intro s event shared holds _ occurred
    obtain ⟨later,schema⟩ := occur_later holds.common.schema occurred
    refine ⟨⟨schema,?_,?_,holds.common.role⟩,fun j => ?_⟩
    rotate_left 2
    · refine Stage.kept ?_ later ?_ (holds.stage j)
      · exact fun _ there => there
      · rfl
    · intro i key row looked
      exact (holds.common.looked i key row looked).later holds.common.schema later
    · intro i key id made
      exact (holds.common.provisioned i key id made).later holds.common.schema later

/-- The user of an identity that the process has read, or that it has provisioned. -/
def Gave (world : World ι) (key : IdentityKey) (i : ι) (id : Int) : Prop :=
  (∃ row, Looked world key i (some row) ∧ row.userId = id) ∨ Provisioned world key i id

/-- What happens between two states: what is read under a mapped key is its user, and
what is given is mapped or new. -/
structure Between (a b : World ι) : Prop where
  later : Later a.shared b.shared
  gave : ∀ key i id, Gave b key i id → Gave a key i id ∨ Mapped a.shared key id ∨ a.shared.users.last < id
  looked : ∀ key i id found, Mapped a.shared key id → Present b.shared id → Looked b key i found →
    Looked a key i found ∨ ∃ row, found = some row ∧ row.userId = id

omit [DecidableEq ι] in
theorem Between.refl (a : World ι) : Between a a :=
  ⟨.refl _,fun _ _ _ gave => .inl gave,fun _ _ _ _ _ _ looked => .inl looked⟩

omit [DecidableEq ι] in
theorem Between.trans {a b c : World ι} (schema : Schema a.shared) (first : Between a b) (second : Between b c) :
    Between a c := by
  refine ⟨first.later.trans schema second.later,?_,?_⟩
  · intro key i id gave
    rcases second.gave key i id gave with before | mapped | new
    · exact first.gave key i id before
    · rcases first.later.mapped key id mapped with old | new
      · exact .inr (.inl old)
      · exact .inr (.inr new)
    · exact .inr (.inr (Int.lt_of_le_of_lt first.later.last new))
  · intro key i id found mapped present looked
    have between := second.later.present id present (Int.le_trans (schema.le mapped) first.later.last)
    rcases second.looked key i id found (first.later.kept key id mapped between) present looked with before | same
    · exact first.looked key i id found mapped between before
    · exact .inr same

theorem step_between {s t : State ι} {action : Action ι Outside} (holds : Kept texts logins s) (apart : Apart texts s action)
    (taken : step texts s action = some t) : Between s.toWorld t.toWorld := by
  cases action with
  | outside event =>
    obtain ⟨shared,occurred,rfl⟩ := Option.map_eq_some_iff.mp taken
    exact ⟨(occur_later holds.common.schema occurred).1,fun _ _ _ gave => .inl gave,
      fun _ _ _ _ _ _ looked => .inl looked⟩
  | call i fails =>
    obtain ⟨request,next,outstanding,same,-⟩ := step_call taken
    rw [same]
    refine ⟨(perform_later s.toWorld holds.common.schema i request fails).1,?_,?_⟩
    · rintro key j id (⟨row,looked,rfl⟩ | ⟨username,role,email,now,made⟩)
      · rw [Looked,past_perform] at looked
        rcases List.mem_cons.mp looked with new | old
        · injection new with _ same answered
          subst same
          cases fails with
          | true => cases eq_of_heq answered
          | false => exact .inr (.inl (found_mapped (apart.1 _ _ outstanding) (Option.some.inj (eq_of_heq answered)).symm))
        · exact .inl (.inl ⟨row,old,rfl⟩)
      · rw [past_perform] at made
        rcases List.mem_cons.mp made with new | old
        · injection new with _ same answered
          subst same
          cases fails with
          | true => cases eq_of_heq answered
          | false => exact .inr (.inr (provision_mapped (Option.some.inj (eq_of_heq answered)).symm).2)
        · exact .inl (.inr ⟨username,role,email,now,old⟩)
    · intro key j id found mapped _ looked
      rw [Looked,past_perform] at looked
      rcases List.mem_cons.mp looked with new | old
      · injection new with _ same answered
        subst same
        cases fails with
        | true => cases eq_of_heq answered
        | false =>
          have read : found = s.shared.identities.rows.find? (texts.taken key) := Option.some.inj (eq_of_heq answered)
          refine .inr ?_
          obtain ⟨row,there,rfl,rfl⟩ := mapped
          cases found with
          | none => exact absurd (taken_self texts row) (List.find?_eq_none.mp read.symm row there)
          | some other =>
            exact ⟨other,rfl,holds.common.schema.same (found_mapped (apart.1 _ _ outstanding) read.symm) ⟨row,there,rfl,rfl⟩⟩
      · exact .inl old

theorem run_between {s t : State ι} (reach : Transition.Reaches (step texts) (Apart texts) s t)
    (holds : Kept texts logins s) : Kept texts logins t ∧ Between s.toWorld t.toWorld := by
  induction reach with
  | refl => exact ⟨holds,.refl _⟩
  | tail _ last ih =>
    obtain ⟨action,apart,taken⟩ := last
    exact ⟨step_kept ih.1 apart taken,ih.2.trans holds.common.schema (step_between ih.1 apart taken)⟩

theorem start_kept {db : Directory} (schema : Schema db) : Kept texts logins (start texts logins db) := by
  refine ⟨⟨schema,?_,?_,?_⟩,fun i => .unbegun rfl⟩
  · rintro _ _ _ ⟨⟩
  · rintro _ _ _ ⟨_,_,_,_,⟨⟩⟩
  · rintro _ _ _ _ _ _ _ ⟨⟩

/-- A process that has returned a user has got it from somewhere. -/
theorem returned_origin {s : State ι} (holds : Kept texts logins s) {i : ι} {user : User} (ended : returned s i = some user) :
    Origin s.toWorld (logins i).claim.key i user.id ∧ user.disabled = false := by
  have stage := holds.stage i
  obtain ⟨resolution,ended,same⟩ := Option.bind_eq_some_iff.mp ended
  generalize s.process i = routine at stage ended
  cases stage with
  | returned resolution origin =>
    cases ended
    exact origin user same
  | unbegun none =>
    rw [resolveExternalIdentity_eq] at ended
    split at ended <;> cases ended
  | naming rest names free =>
    cases rest <;> cases ended
  | matched identity looked => cases ended
  | touching identity user looked same enabled => cases ended
  | checking email looked => cases ended
  | provisioning username now free => cases ended
  | rereading id free made => cases ended
  | failed => cases ended

end Runs

/-- Logins from outside are sound in every run in which the database takes no other
identity for the one that logs in, and no user is disabled while it is provisioned. -/
theorem external_logins_sound (texts : Texts) (logins : ι → Login) (db : Directory) (schema : Schema db) {a b : State ι}
    (before : Transition.Reaches (step texts) (Apart texts) (start texts logins db) a)
    (after : Transition.Reaches (step texts) (Apart texts) a b) : LoginsSound logins a b := by
  obtain ⟨first,-⟩ := run_between before (start_kept schema)
  obtain ⟨second,between⟩ := run_between after first
  constructor
  · rintro i id user present unmapped ended rfl
    obtain ⟨origin,-⟩ := returned_origin second ended
    have gave : Gave b.toWorld (logins i).claim.key i user.id := origin.imp_right And.left
    rcases between.gave _ _ _ gave with earlier | mapped | new
    · have held : Held a.shared (logins i).claim.key user.id := by
        rcases earlier with ⟨row,looked,same⟩ | made
        · exact same ▸ first.common.looked i _ row looked
        · exact first.common.provisioned i _ _ made
      exact held.elim unmapped fun gone => gone.2 present
    · exact unmapped mapped
    · exact absurd present.le (Int.not_le.mpr new)
  · intro i id user mapped present unbegun ended
    have unread : ∀ found, ¬Looked a.toWorld (logins i).claim.key i found := by
      intro found looked
      have none := List.find?_eq_none.mp unbegun _ looked
      simp at none
    have read : ∀ found, Looked b.toWorld (logins i).claim.key i found → ∃ row, found = some row ∧ row.userId = id :=
      fun found looked => (between.looked _ _ _ found mapped present looked).resolve_left (unread found)
    rcases (returned_origin second ended).1 with ⟨row,looked,same⟩ | ⟨-,none | ⟨row,looked,gone⟩⟩
    · obtain ⟨_,⟨⟩,owner⟩ := read _ looked
      exact same.symm.trans owner
    · obtain ⟨_,⟨⟩,_⟩ := read _ none
    · obtain ⟨_,⟨⟩,rfl⟩ := read _ looked
      exact absurd present gone.2
  · intro i user ended
    exact (returned_origin second ended).2
  · intro i username email key now answer there
    have granted := second.common.role i username "admin" email key now answer there
    rw [Login.role] at granted
    split at granted
    · exact .inl ‹_›
    · exact .inr granted.symm

def emptyDirectory : Directory := ⟨0,Table.empty,Table.empty⟩

theorem emptyDirectory_schema : Schema emptyDirectory := by
  constructor
  · rintro _ ⟨⟩
  · rintro _ ⟨⟩

def exactTexts : Texts := ⟨fun stored given => stored = given,fun stored given => stored = given,fun _ => decide_eq_true rfl,id⟩

def provisioning : Provisioning := ⟨true,"user",[]⟩

/-- The first login of one identity, in two windows. -/
def firstLogins : Bool → Login := fun _ => ⟨⟨"oidc","https://idp","sub",none,some "alice",[]⟩,provisioning⟩

/-- The second of two first logins finds the identity taken. -/
theorem external_logins_sound_at_once : ∃ s : State Bool,
    Transition.exec (step exactTexts) (start exactTexts firstLogins emptyDirectory)
      [.call true false,.call false false,.call false false,.call false false,.call false false,.call false false,
        .call true false,.call true false,.call true false,.call true false] = some s ∧
    (returned s false).map User.id = some 1 ∧ returned s true = none ∧ LoginsSound firstLogins s s := by
  obtain ⟨s,ran⟩ : ∃ s, Transition.exec (step exactTexts) (start exactTexts firstLogins emptyDirectory)
      [.call true false,.call false false,.call false false,.call false false,.call false false,.call false false,
        .call true false,.call true false,.call true false,.call true false] = some s := ⟨_,rfl⟩
  have first := congrArg (Option.map fun s => (returned s false).map User.id) ran
  have second := congrArg (Option.map fun s => returned s true) ran
  refine ⟨s,ran,(Option.some.inj first).symm,(Option.some.inj second).symm,?_⟩
  refine external_logins_sound exactTexts firstLogins emptyDirectory emptyDirectory_schema
    (Transition.reaches_of_exec ran ?_) (.refl s)
  iterate 2
    refine ⟨⟨?_,?_⟩,?_⟩
    · rintro _ _ ⟨⟩ _ ⟨⟩
    · rintro _ _ ⟨⟩
    rintro _ ⟨⟩
  iterate 3
    refine ⟨⟨?_,?_⟩,?_⟩
    · rintro _ _ ⟨⟩
    · rintro _ _ ⟨⟩
    rintro _ ⟨⟩
  refine ⟨⟨?_,?_⟩,?_⟩
  · rintro _ _ ⟨⟩
  · rintro _ _ ⟨⟩ _ _ ⟨⟩
    rfl
  rintro _ ⟨⟩
  iterate 4
    refine ⟨⟨?_,?_⟩,?_⟩
    · rintro _ _ ⟨⟩
    · rintro _ _ ⟨⟩
    rintro _ ⟨⟩
  trivial

def folded (text : String) : List Char := text.toList.map Char.toLower

/-- A database that takes capital letters for small ones. -/
def foldingTexts : Texts :=
  ⟨fun stored given => folded stored = folded given,fun stored given => folded stored = folded given,
    fun _ => decide_eq_true rfl,id⟩

/-- Two subjects that differ in capital letters. -/
def twoSubjects (capital : Bool) : Login :=
  ⟨⟨"oidc","https://idp",if capital then "SUB" else "sub",none,some "alice",[]⟩,provisioning⟩

/-- The second one logs in to the account of the first. -/
theorem external_logins_unsound : ∃ a b : State Bool,
    Transition.exec (step foldingTexts) (start foldingTexts twoSubjects emptyDirectory)
      [.call false false,.call false false,.call false false,.call false false,.call false false] = some a ∧
    Transition.exec (step foldingTexts) a [.call true false,.call true false,.call true false] = some b ∧
    ¬LoginsSound twoSubjects a b := by
  refine ⟨_,_,rfl,rfl,fun sound => ?_⟩
  refine sound.foreign true 1 (userFromRow (provisionedRow "alice" "user" none 1)) ⟨_,List.mem_singleton_self _,rfl⟩ ?_ rfl rfl
  rintro ⟨_,_ | ⟨_,⟨⟩⟩,other,_⟩
  exact absurd (congrArg (fun key => key.2.2) other) (by decide)

end Qdrust.Account.ExternalIdentity
