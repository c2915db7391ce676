import Qdrust.Account.Model

/-! Enrolment of the second factor of one account, by several requests at once. The
flag and the secret are checked in one statement and written in another. -/
namespace Qdrust.Account.SecondFactor
open Library Concurrent

inductive TotpReply where
  | setup (secret : String)
  | enabled (on : Bool)
  | noContent

abbrev Reply := Except ApiError TotpReply

/-- `secret` is the one `generate_secret` gives. -/
def totpSetup (userId : Int) (secret : String) : Calls Reply := do
  let totp ← ask (.userTotp userId)
  if (totp.map UserTotp.enabled).getD false then
    return .error (.conflict "totp_already_enabled" "Two-factor authentication is already on")
  else
    let _ ← ask (.setUserTotpSecret userId secret)
    return .ok (.setup secret)

def totpEnable (userId : Int) (code : String) : Calls Reply := do
  match ← ask (.userTotp userId) with
  | none => return .error (.notFound "totp_not_started" "No setup in progress")
  | some totp =>
    if totp.enabled then
      return .error (.conflict "totp_already_enabled" "Two-factor authentication is already on")
    else
      match totp.secret with
      | none => return .error (.notFound "totp_not_started" "Start the setup first")
      | some secret =>
        let now ← ask .clock
        match ← ask (.verifyTotp secret code (max now 0)) with
        | none => .failed
        | some false =>
          return .error (.unauthorized "invalid_totp_code" "That code is not valid; check the clock on your device")
        | some true =>
          let _ ← ask (.enableUserTotp userId)
          let _ ← ask (.recordAudit "auth.totp_enabled")
          return .ok (.enabled true)

def totpDisable (userId : Int) (username password code : String) : Calls Reply := do
  match ← ask (.credentialsByUsername username) with
  | none => return .error (.unauthorized "authentication_required" "Authentication required")
  | some credentials =>
    if !(← ask (.verifyPassword password credentials.passwordHash)) then
      return .error (.unauthorized "invalid_credentials" "Password is not correct")
    else
      match (← ask (.userTotp userId)).bind UserTotp.secret with
      | none => return .error (.notFound "totp_not_enabled" "Not enabled")
      | some secret =>
        let now ← ask .clock
        match ← ask (.verifyTotp secret code (max now 0)) with
        | none => .failed
        | some false => return .error (.unauthorized "invalid_totp_code" "That code is not valid")
        | some true =>
          let _ ← ask (.disableUserTotp userId)
          let _ ← ask (.recordAudit "auth.totp_disabled")
          return .ok (.enabled false)

/-- `role` is the role of the one who asks. -/
def adminResetTotp (role : String) (id : Int) : Calls Reply := do
  if role ≠ "admin" then return .error (.forbidden "admin_required" "Administrator only")
  else
    match ← ask (.getUser id) with
    | none => return .error (.notFound "user_not_found" "User not found")
    | some _ =>
      let _ ← ask (.disableUserTotp id)
      let _ ← ask (.recordAudit "auth.totp_reset_by_admin")
      return .ok .noContent

/-- A request about the second factor, after its session is checked. -/
inductive Request where
  | setup (secret : String)
  | enable (code : String)
  | disable (username password code : String)
  | adminReset (role : String)

def Request.routine (userId : Int) : Request → Calls Reply
  | .setup secret => totpSetup userId secret
  | .enable code => totpEnable userId code
  | .disable username password code => totpDisable userId username password code
  | .adminReset role => adminResetTotp role userId

def Request.enables : Request → Bool
  | .enable _ => true
  | _ => false

variable {ι : Type} [DecidableEq ι]

abbrev World (ι : Type) := Concurrent.World ι Statement Statement.Answer Accounts

abbrev State (ι : Type) := Concurrent.State ι Statement Statement.Answer Accounts Reply

def start (userId : Int) (requests : ι → Request) (db : Accounts) : State ι :=
  State.start db fun i => (requests i).routine userId

/-- The clock may be set to any time. -/
def timePasses (now : Int) (db : Accounts) : Option Accounts := some { db with clock := now }

abbrev step (backend : Backend) (s : State ι) (action : Action ι Int) : Option (State ι) :=
  Concurrent.step (accounts backend) timePasses s action

/-- An account that was never enrolled. -/
def Fresh (userId : Int) (db : Accounts) : Prop :=
  ∀ u ∈ db.users.rows, u.id = userId → u.totpSecret = none ∧ u.totpEnabled = false

/-- A valid code was presented to `totp_enable` after the secret was stored. -/
def Confirmed (userId : Int) (requests : ι → Request) (past : List (Event ι Statement Statement.Answer)) (secret : String) :
    Prop :=
  ∃ (i j : ι) (code : String) (now : Int) (affected : Nat), (requests i).enables = true ∧
    List.Sublist [⟨i,.verifyTotp secret code now,some (some true)⟩,⟨j,.setUserTotpSecret userId secret,some affected⟩] past

/-- The secret of an enabled factor was confirmed. -/
def FactorConfirmed (userId : Int) (requests : ι → Request) (world : World ι) : Prop :=
  ∀ u ∈ world.shared.users.rows, u.id = userId → u.totpEnabled = true →
    ∃ secret, u.totpSecret = some secret ∧ Confirmed userId requests world.past secret

/-- What was checked still holds where it is relied on: a setup stores its secret while the
factor is off, and the secret that is enabled is the one whose code was verified. -/
def StillChecked (userId : Int) (s : State ι) : Action ι Int → Prop
  | .call i false => ∀ request next, s.process i = .call request next →
    match request with
    | .setUserTotpSecret _ _ => ∀ u ∈ s.shared.users.rows, u.id = userId → u.totpEnabled = false
    | .enableUserTotp _ => ∀ u ∈ s.shared.users.rows, u.id = userId → ∀ secret, u.totpSecret = some secret →
      ∃ code now, s.last i = some ⟨i,.verifyTotp secret code now,some (some true)⟩
    | _ => True
  | _ => True

section Stages

variable {userId : Int} {requests : ι → Request} {backend : Backend}

/-- A routine that neither stores a secret nor enables one. -/
inductive Harmless : Calls Reply → Prop
  | done (reply : Reply) : Harmless (.done reply)
  | failed : Harmless .failed
  | call (request : Statement) (next : Option request.Answer → Calls Reply)
      (sets : ∀ userId secret, request ≠ .setUserTotpSecret userId secret) (enables : ∀ userId, request ≠ .enableUserTotp userId)
      (rest : ∀ answer, Harmless (next answer)) : Harmless (.call request next)

theorem harmless_answered {τ : Type} {after : τ → Calls Reply} (rest : ∀ answer, Harmless (after answer)) (answer : Option τ) :
    Harmless (Routine.answered after answer) := by
  cases answer with
  | none => exact .failed
  | some answer => exact rest answer

/-- A statement that stores a secret or enables one. -/
def changesFactor : Statement → Bool
  | .setUserTotpSecret _ _ | .enableUserTotp _ => true
  | _ => false

theorem unchanged {request : Statement} (other : changesFactor request = false) :
    (∀ userId secret, request ≠ .setUserTotpSecret userId secret) ∧ ∀ userId, request ≠ .enableUserTotp userId := by
  constructor
  · rintro userId secret rfl
    cases other
  · rintro userId rfl
    cases other

theorem harmless_call {request : Statement} {next : Option request.Answer → Calls Reply} (other : changesFactor request = false)
    (rest : ∀ answer, Harmless (next answer)) : Harmless (.call request next) :=
  .call _ _ (unchanged other).1 (unchanged other).2 rest

theorem harmless_disable (username password code : String) : Harmless (totpDisable userId username password code) := by
  simp only [totpDisable,Routine.ask_bind]
  refine harmless_call rfl (harmless_answered fun credentials => ?_)
  cases credentials with
  | none => exact .done _
  | some credentials =>
    refine harmless_call rfl (harmless_answered fun valid => ?_)
    cases valid with
    | false => exact .done _
    | true =>
      refine harmless_call rfl (harmless_answered fun totp => ?_)
      cases totp.bind UserTotp.secret with
      | none => exact .done _
      | some secret =>
        refine harmless_call rfl (harmless_answered fun now => ?_)
        refine harmless_call rfl (harmless_answered fun valid => ?_)
        rcases valid with _ | _ | _
        · exact .failed
        · exact .done _
        · refine harmless_call rfl (harmless_answered fun _ => ?_)
          exact harmless_call rfl (harmless_answered fun _ => .done _)

theorem harmless_reset (role : String) : Harmless (adminResetTotp role userId) := by
  simp only [adminResetTotp,Routine.ask_bind]
  split
  · exact .done _
  · refine harmless_call rfl (harmless_answered fun user => ?_)
    cases user with
    | none => exact .done _
    | some user =>
      refine harmless_call rfl (harmless_answered fun _ => ?_)
      exact harmless_call rfl (harmless_answered fun _ => .done _)

/-- What a setup does when it has read the flag. -/
def afterSetup (userId : Int) (secret : String) (totp : Option UserTotp) : Calls Reply :=
  if (totp.map UserTotp.enabled).getD false then
    .done (.error (.conflict "totp_already_enabled" "Two-factor authentication is already on"))
  else .call (.setUserTotpSecret userId secret) (Routine.answered fun _ => .done (.ok (.setup secret)))

theorem totpSetup_eq (secret : String) :
    totpSetup userId secret = .call (.userTotp userId) (Routine.answered (afterSetup userId secret)) := by
  simp only [totpSetup,Routine.ask_bind]
  rfl

def afterVerify (userId : Int) : Option Bool → Calls Reply
  | none => .failed
  | some false =>
    .done (.error (.unauthorized "invalid_totp_code" "That code is not valid; check the clock on your device"))
  | some true => .call (.enableUserTotp userId) (Routine.answered fun _ =>
      .call (.recordAudit "auth.totp_enabled") (Routine.answered fun _ => .done (.ok (.enabled true))))

/-- What an enrolment does when it has read the pending secret. -/
def afterRead (userId : Int) (code : String) : Option UserTotp → Calls Reply
  | none => .done (.error (.notFound "totp_not_started" "No setup in progress"))
  | some totp =>
    if totp.enabled then .done (.error (.conflict "totp_already_enabled" "Two-factor authentication is already on"))
    else match totp.secret with
      | none => .done (.error (.notFound "totp_not_started" "Start the setup first"))
      | some secret => .call .clock (Routine.answered fun now =>
          .call (.verifyTotp secret code (max now 0)) (Routine.answered (afterVerify userId)))

theorem totpEnable_eq (code : String) :
    totpEnable userId code = .call (.userTotp userId) (Routine.answered (afterRead userId code)) := by
  simp only [totpEnable,Routine.ask_bind]
  refine congrArg (fun after => Routine.call (Statement.userTotp userId) (Routine.answered after)) (funext fun totp => ?_)
  cases totp with
  | none => rfl
  | some totp =>
    simp only [afterRead]
    split
    · rfl
    · split
      · rfl
      · refine congrArg (fun after => Routine.call Statement.clock (Routine.answered after)) (funext fun now => ?_)
        refine congrArg (fun after => Routine.call (Statement.verifyTotp _ code (max now 0)) (Routine.answered after))
          (funext fun valid => ?_)
        rcases valid with _ | _ | _ <;> rfl

/-- The secret was stored. -/
def Stored (userId : Int) (past : List (Event ι Statement Statement.Answer)) (secret : String) : Prop :=
  ∃ (j : ι) (affected : Nat), ⟨j,.setUserTotpSecret userId secret,some affected⟩ ∈ past

/-- What a request still has to do, and what it relies on. -/
inductive Stage (userId : Int) (requests : ι → Request) (i : ι) (world : World ι) : Calls Reply → Prop
  | harmless (action : Calls Reply) (harmless : Harmless action) : Stage userId requests i world action
  | checking (secret : String) :
      Stage userId requests i world (.call (.userTotp userId) (Routine.answered (afterSetup userId secret)))
  | storing (secret : String) (next : Option Nat → Calls Reply) (rest : ∀ answer, Harmless (next answer)) :
      Stage userId requests i world (.call (.setUserTotpSecret userId secret) next)
  | reading (code : String) (enables : (requests i).enables = true) :
      Stage userId requests i world (.call (.userTotp userId) (Routine.answered (afterRead userId code)))
  | timing (secret code : String) (enables : (requests i).enables = true) (stored : Stored userId world.past secret) :
      Stage userId requests i world (.call .clock (Routine.answered fun now =>
        .call (.verifyTotp secret code (max now 0)) (Routine.answered (afterVerify userId))))
  | verifying (secret code : String) (now : Int) (enables : (requests i).enables = true)
      (stored : Stored userId world.past secret) :
      Stage userId requests i world (.call (.verifyTotp secret code now) (Routine.answered (afterVerify userId)))
  | enabling (secret code : String) (now : Int) (next : Option Nat → Calls Reply)
      (last : world.last i = some ⟨i,.verifyTotp secret code now,some (some true)⟩)
      (confirmed : Confirmed userId requests world.past secret) (rest : ∀ answer, Harmless (next answer)) :
      Stage userId requests i world (.call (.enableUserTotp userId) next)

/-- The secrets of the account. -/
structure Enrolled (userId : Int) (requests : ι → Request) (world : World ι) : Prop where
  stored : ∀ u ∈ world.shared.users.rows, u.id = userId → ∀ secret, u.totpSecret = some secret →
    Stored userId world.past secret
  confirmed : FactorConfirmed userId requests world

omit [DecidableEq ι] in
theorem Stored.mono {past past' : List (Event ι Statement Statement.Answer)} {secret : String}
    (stored : Stored userId past secret) (more : List.Sublist past past') : Stored userId past' secret := by
  obtain ⟨j,affected,there⟩ := stored
  exact ⟨j,affected,more.subset there⟩

omit [DecidableEq ι] in
theorem Confirmed.mono {past past' : List (Event ι Statement Statement.Answer)} {secret : String}
    (confirmed : Confirmed userId requests past secret) (more : List.Sublist past past') :
    Confirmed userId requests past' secret := by
  obtain ⟨i,j,code,now,affected,enables,there⟩ := confirmed
  exact ⟨i,j,code,now,affected,enables,there.trans more⟩

/-- A statement that neither stores a secret nor enables one leaves both as they are or
takes both away. -/
theorem totp_kept {request : Statement} (sets : ∀ userId secret, request ≠ .setUserTotpSecret userId secret)
    (enables : ∀ userId, request ≠ .enableUserTotp userId) (db : Accounts) :
    ∀ u' ∈ (accounts backend request db).2.users.rows, ∃ u ∈ db.users.rows, u'.id = u.id ∧
      ((u'.totpSecret = u.totpSecret ∧ u'.totpEnabled = u.totpEnabled) ∨ (u'.totpSecret = none ∧ u'.totpEnabled = false)) := by
  intro u' there
  cases request with
  | setUserTotpSecret userId secret => exact absurd rfl (sets userId secret)
  | enableUserTotp userId => exact absurd rfl (enables userId)
  | changePassword userId passwordHash =>
    simp only [accounts,Accounts.changePassword] at there
    split at there
    · exact ⟨u',there,rfl,.inl ⟨rfl,rfl⟩⟩
    · obtain ⟨u,old,rfl⟩ := Accounts.mem_updateUsers there
      refine ⟨u,old,?_,.inl ⟨?_,?_⟩⟩ <;> split <;> rfl
  | markEmailVerified userId =>
    obtain ⟨u,old,rfl⟩ := Accounts.mem_updateUsers there
    refine ⟨u,old,?_,.inl ⟨?_,?_⟩⟩ <;> split <;> rfl
  | updateUser id role disabled =>
    obtain ⟨u,old,rfl⟩ := Accounts.mem_updateUsers there
    refine ⟨u,old,?_,.inl ⟨?_,?_⟩⟩ <;> split <;> rfl
  | disableUserTotp userId =>
    obtain ⟨u,old,rfl⟩ := Accounts.mem_updateUsers there
    by_cases mine : u.id = userId
    · rw [if_pos (decide_eq_true mine)]
      exact ⟨u,old,rfl,.inr ⟨rfl,rfl⟩⟩
    · rw [if_neg (by simpa using mine)]
      exact ⟨u,old,rfl,.inl ⟨rfl,rfl⟩⟩
  | _ => exact ⟨u',there,rfl,.inl ⟨rfl,rfl⟩⟩

omit [DecidableEq ι] in
/-- A call that does nothing to the secrets, or fails. -/
theorem enrolled_quiet {world : World ι} (enrolled : Enrolled userId requests world) (i : ι) {request : Statement} {fails : Bool}
    (quiet : fails = false → (∀ userId secret, request ≠ .setUserTotpSecret userId secret) ∧
      ∀ userId, request ≠ .enableUserTotp userId) :
    Enrolled userId requests (world.perform (accounts backend) i request fails) := by
  cases fails with
  | true =>
    constructor
    · intro u there mine secret found
      exact (enrolled.stored u there mine secret found).mono (List.sublist_cons_self _ _)
    · intro u there mine on
      obtain ⟨secret,found,confirmed⟩ := enrolled.confirmed u there mine on
      exact ⟨secret,found,confirmed.mono (List.sublist_cons_self _ _)⟩
  | false =>
    constructor
    · intro u' there mine secret found
      obtain ⟨u,old,id,kept | gone⟩ := totp_kept (quiet rfl).1 (quiet rfl).2 _ u' there
      · exact (enrolled.stored u old (id ▸ mine) secret (kept.1 ▸ found)).mono (List.sublist_cons_self _ _)
      · rw [gone.1] at found
        cases found
    · intro u' there mine on
      obtain ⟨u,old,id,kept | gone⟩ := totp_kept (quiet rfl).1 (quiet rfl).2 _ u' there
      · obtain ⟨secret,found,confirmed⟩ := enrolled.confirmed u old (id ▸ mine) (kept.2 ▸ on)
        exact ⟨secret,kept.1.trans found,confirmed.mono (List.sublist_cons_self _ _)⟩
      · rw [gone.2] at on
        cases on

omit [DecidableEq ι] in
/-- A secret is stored while the factor is off. -/
theorem enrolled_set {world : World ι} (i : ι) (secret : String)
    (off : ∀ u ∈ world.shared.users.rows, u.id = userId → u.totpEnabled = false) :
    Enrolled userId requests (world.perform (accounts backend) i (.setUserTotpSecret userId secret) false) := by
  constructor
  · intro u' there mine stored found
    obtain ⟨u,old,rfl⟩ := Accounts.mem_updateUsers there
    by_cases same : u.id = userId
    · rw [if_pos (decide_eq_true same)] at found
      cases found
      exact ⟨i,_,List.mem_cons_self⟩
    · rw [if_neg (by simpa using same)] at mine
      exact absurd mine same
  · intro u' there mine on
    obtain ⟨u,old,rfl⟩ := Accounts.mem_updateUsers there
    by_cases same : u.id = userId
    · rw [if_pos (decide_eq_true same)] at on
      rw [off u old same] at on
      cases on
    · rw [if_neg (by simpa using same)] at mine
      exact absurd mine same

omit [DecidableEq ι] in
/-- A secret is enabled that was confirmed. -/
theorem enrolled_enable {world : World ι} (enrolled : Enrolled userId requests world) (i : ι)
    (confirmed : ∀ u ∈ world.shared.users.rows, u.id = userId → ∀ secret, u.totpSecret = some secret →
      Confirmed userId requests world.past secret) :
    Enrolled userId requests (world.perform (accounts backend) i (.enableUserTotp userId) false) := by
  constructor
  · intro u' there mine secret found
    obtain ⟨u,old,rfl⟩ := Accounts.mem_updateUsers there
    split at found
    · next chosen =>
      rw [if_pos chosen] at mine
      exact (enrolled.stored u old mine secret found).mono (List.sublist_cons_self _ _)
    · next other =>
      rw [if_neg other] at mine
      exact (enrolled.stored u old mine secret found).mono (List.sublist_cons_self _ _)
  · intro u' there mine on
    obtain ⟨u,old,rfl⟩ := Accounts.mem_updateUsers there
    by_cases chosen : (decide (u.id = userId) && u.totpSecret.isSome) = true
    · rw [if_pos chosen] at mine ⊢
      rw [Bool.and_eq_true,Option.isSome_iff_exists] at chosen
      obtain ⟨_,secret,found⟩ := chosen
      exact ⟨secret,found,(confirmed u old mine secret found).mono (List.sublist_cons_self _ _)⟩
    · rw [if_neg chosen] at mine on ⊢
      obtain ⟨secret,found,earlier⟩ := enrolled.confirmed u old mine on
      exact ⟨secret,found,earlier.mono (List.sublist_cons_self _ _)⟩

/-- A call that fails ends its request. -/
theorem stage_fails {i : ι} {world : World ι} {request : Statement} {next : Option request.Answer → Calls Reply}
    (stage : Stage userId requests i world (.call request next)) : Harmless (next none) := by
  cases stage with
  | harmless _ harmless =>
    cases harmless with
    | call _ _ _ _ rest => exact rest none
  | storing _ _ rest => exact rest none
  | enabling _ _ _ _ _ _ rest => exact rest none
  | _ => exact .failed

theorem stage_read {i : ι} {world : World ι} {code : String} (enables : (requests i).enables = true)
    (stored : ∀ u ∈ world.shared.users.rows, u.id = userId → ∀ secret, u.totpSecret = some secret →
      Stored userId world.past secret) :
    Stage userId requests i world
      (afterRead userId code ((world.shared.users.find userId).map fun u => ⟨u.totpSecret,u.totpEnabled⟩)) := by
  cases found : world.shared.users.find userId with
  | none => exact .harmless _ (.done _)
  | some u =>
    obtain ⟨there,mine⟩ := (Table.find_eq_some _).mp found
    simp only [Option.map_some,afterRead]
    split
    · exact .harmless _ (.done _)
    · split
      · exact .harmless _ (.done _)
      · next secret pending => exact .timing secret code enables (stored u there mine secret pending)

/-- The call of one request. -/
theorem stage_own {s : State ι} {i : ι} {request : Statement} {next : Option request.Answer → Calls Reply} {fails : Bool}
    (checked : StillChecked userId s (.call i fails)) (enrolled : Enrolled userId requests s.toWorld)
    (outstanding : s.process i = .call request next) (stage : Stage userId requests i s.toWorld (.call request next)) :
    Enrolled userId requests (s.toWorld.perform (accounts backend) i request fails) ∧
      Stage userId requests i (s.toWorld.perform (accounts backend) i request fails)
        (next (answer (accounts backend) s.shared request fails)) := by
  cases fails with
  | true => exact ⟨enrolled_quiet enrolled i (absurd · (by decide)),.harmless _ (stage_fails stage)⟩
  | false =>
    have guard := checked request next outstanding
    cases stage with
    | harmless _ harmless =>
      cases harmless with
      | call _ _ sets enables rest => exact ⟨enrolled_quiet enrolled i fun _ => ⟨sets,enables⟩,.harmless _ (rest _)⟩
    | checking secret =>
      refine ⟨enrolled_quiet enrolled i fun _ => unchanged rfl,?_⟩
      simp only [answer,Bool.false_eq_true,if_false,Routine.answered_some,afterSetup]
      split
      · exact .harmless _ (.done _)
      · exact .storing secret _ (harmless_answered fun _ => .done _)
    | storing secret _ rest => exact ⟨enrolled_set i secret guard,.harmless _ (rest _)⟩
    | reading code enables =>
      have quiet : Enrolled userId requests (s.toWorld.perform (accounts backend) i (.userTotp userId) false) :=
        enrolled_quiet enrolled i fun _ => unchanged rfl
      exact ⟨quiet,stage_read enables quiet.stored⟩
    | timing secret code enables stored =>
      exact ⟨enrolled_quiet enrolled i fun _ => unchanged rfl,.verifying secret code _ enables (stored.mono (List.sublist_cons_self _ _))⟩
    | verifying secret code now enables stored =>
      refine ⟨enrolled_quiet enrolled i fun _ => unchanged rfl,?_⟩
      have last : (s.toWorld.perform (accounts backend) i (.verifyTotp secret code now) false).last i = _ := last_self _ _ _ _
      obtain ⟨j,affected,there⟩ := stored
      change Stage _ _ _ _ (afterVerify userId (Totp.verify backend.totpCode secret code now))
      rcases valid : Totp.verify backend.totpCode secret code now with _ | _ | _
      · exact .harmless _ .failed
      · exact .harmless _ (.done _)
      · have made : answer (accounts backend) s.shared (.verifyTotp secret code now) false = some (some true) :=
          congrArg some valid
        rw [made] at last
        refine .enabling secret code now _ last ⟨i,j,code,now,affected,enables,?_⟩ (harmless_answered fun _ => ?_)
        · change List.Sublist _ (⟨i,.verifyTotp secret code now,some (Totp.verify _ secret code now)⟩ :: s.past)
          rw [valid]
          exact (List.singleton_sublist.mpr there).cons_cons _
        · exact harmless_call rfl (harmless_answered fun _ => .done _)
    | enabling secret code now _ last confirmed rest =>
      refine ⟨enrolled_enable enrolled i fun u there mine stored found => ?_,.harmless _ (rest _)⟩
      obtain ⟨code',now',verified⟩ := guard u there mine stored found
      rw [last] at verified
      cases verified
      exact confirmed

/-- What happens elsewhere changes nothing a request relies on. -/
theorem stage_elsewhere {world world' : World ι} {j : ι} {action : Calls Reply} (last : world'.last j = world.last j)
    (past : List.Sublist world.past world'.past) (stage : Stage userId requests j world action) :
    Stage userId requests j world' action := by
  cases stage with
  | harmless _ harmless => exact .harmless _ harmless
  | checking secret => exact .checking secret
  | storing secret next rest => exact .storing secret next rest
  | reading code enables => exact .reading code enables
  | timing secret code enables stored => exact .timing secret code enables (stored.mono past)
  | verifying secret code now enables stored => exact .verifying secret code now enables (stored.mono past)
  | enabling secret code now next known confirmed rest =>
    exact .enabling secret code now next (last.trans known) (confirmed.mono past) rest

theorem stage_start (i : ι) (world : World ι) : Stage userId requests i world ((requests i).routine userId) := by
  cases kind : requests i with
  | setup secret =>
    simp only [Request.routine,totpSetup_eq]
    exact .checking secret
  | enable code =>
    simp only [Request.routine,totpEnable_eq]
    exact .reading code (by rw [kind]; rfl)
  | disable username password code => exact .harmless _ (harmless_disable username password code)
  | adminReset role => exact .harmless _ (harmless_reset role)

/-- What a run keeps, from an account that was never enrolled. -/
theorem enrolled_kept {db : Accounts} (fresh : Fresh userId db) {s : State ι}
    (reach : Transition.Reaches (step backend) (StillChecked userId) (start userId requests db) s) :
    Assertions (Enrolled userId requests) (Stage userId requests) s := by
  refine assertions_kept _ _ ?_ ?_ ?_ reach ⟨⟨?_,?_⟩,fun i => stage_start i _⟩
  · intro s i request next fails holds checked outstanding
    exact stage_own checked holds.common outstanding (outstanding ▸ holds.stage i)
  · intro s i request next fails j holds _ _ differs
    refine stage_elsewhere (last_other s.toWorld differs request fails) ?_ (holds.stage j)
    cases fails <;> exact List.sublist_cons_self _ _
  · rintro s now _ holds _ ⟨⟩
    refine ⟨⟨holds.common.stored,holds.common.confirmed⟩,fun j => ?_⟩
    apply stage_elsewhere _ _ (holds.stage j)
    · rfl
    · exact List.Sublist.refl _
  · intro u there mine secret found
    rw [(fresh u there mine).1] at found
    cases found
  · intro u there mine on
    rw [(fresh u there mine).2] at on
    cases on

/-- A call other than a setup's leaves the secret of a factor that is on after it. -/
theorem secret_kept {request : Statement} (sets : ∀ userId secret, request ≠ .setUserTotpSecret userId secret) (db : Accounts) :
    ∀ u' ∈ (accounts backend request db).2.users.rows, u'.totpEnabled = true →
      ∃ u ∈ db.users.rows, u'.id = u.id ∧ u'.totpSecret = u.totpSecret := by
  intro u' there on
  by_cases enables : ∃ userId, request = .enableUserTotp userId
  · obtain ⟨userId,rfl⟩ := enables
    obtain ⟨u,old,rfl⟩ := Accounts.mem_updateUsers there
    refine ⟨u,old,?_,?_⟩ <;> split <;> rfl
  · obtain ⟨u,old,id,kept | gone⟩ := totp_kept sets (fun userId same => enables ⟨userId,same⟩) db u' there
    · exact ⟨u,old,id,kept.1⟩
    · rw [gone.2] at on
      cases on

/-- A factor that is on keeps its secret across a step. -/
def SecretKept (userId : Int) (before after : Accounts) : Prop :=
  ∀ u ∈ before.users.rows, u.id = userId → u.totpEnabled = true →
    ∀ u' ∈ after.users.rows, u'.id = userId → u'.totpEnabled = true → u'.totpSecret = u.totpSecret

theorem step_secret_kept {s t : State ι} {action : Action ι Int} (checked : StillChecked userId s action)
    (taken : step backend s action = some t) : SecretKept userId s.shared t.shared := by
  intro u old mine on u' new mine' on'
  have same : (∃ v ∈ s.shared.users.rows, u'.id = v.id ∧ u'.totpSecret = v.totpSecret) → u'.totpSecret = u.totpSecret := by
    rintro ⟨v,there,id,secret⟩
    rw [secret,s.shared.users.key_unique old there (mine.trans (mine'.symm.trans id))]
  apply same
  cases action with
  | outside now =>
    cases taken
    exact ⟨u',new,rfl,rfl⟩
  | call i fails =>
    obtain ⟨request,next,outstanding,world,_⟩ := step_call taken
    rw [world] at new
    cases fails with
    | true => exact ⟨u',new,rfl,rfl⟩
    | false =>
      refine secret_kept ?_ s.shared u' new on'
      rintro target secret rfl
      have off := checked _ next outstanding u old mine
      rw [on] at off
      cases off

/-- Where what was checked still holds when it is relied on, an enabled secret is a confirmed one
and is not replaced. -/
theorem factor_confirmed (backend : Backend) (userId : Int) (requests : ι → Request) (db : Accounts) (fresh : Fresh userId db)
    {s : State ι} (reach : Transition.Reaches (step backend) (StillChecked userId) (start userId requests db) s) :
    FactorConfirmed userId requests s.toWorld ∧
      ∀ action t, StillChecked userId s action → step backend s action = some t → SecretKept userId s.shared t.shared :=
  ⟨(enrolled_kept fresh reach).common.confirmed,fun _ _ => step_secret_kept⟩

end Stages

/-- The codes of a secret are the secret itself. -/
def plainCodes : Backend := ⟨fun stored given => stored = given,fun password encodedHash => password = encodedHash,
  fun secret _ => some secret⟩

def newAccount : Accounts where
  clock := 0
  users := Table.empty.insert (fun id => ⟨id,"user","hash","user",false,0,none,false,none,false⟩) fun _ => rfl
  sessions := fun _ => none
  resetTokens := fun _ => none
  emailTokens := fun _ => none
  loginStates := fun _ => none
  challenges := Challenges.empty

theorem newAccount_fresh : Fresh 1 newAccount := by
  intro u there _
  cases List.mem_singleton.mp there
  exact ⟨rfl,rfl⟩

/-- One enrolment, and a second setup in another tab. -/
def enrolments : Nat → Request
  | 0 => .setup "111111"
  | 1 => .enable "111111"
  | _ => .setup "222222"

/-- The enrolment ends before anything else is asked for. -/
theorem factor_confirmed_alone : ∃ s : State Nat,
    Transition.exec (step plainCodes) (start 1 enrolments newAccount)
      [.call 0 false,.call 0 false,.call 1 false,.call 1 false,.call 1 false,.call 1 false] = some s ∧
    (s.shared.users.rows.map UserRow.totpEnabled = [true]) ∧ FactorConfirmed 1 enrolments s.toWorld := by
  obtain ⟨s,ran⟩ : ∃ s, Transition.exec (step plainCodes) (start 1 enrolments newAccount)
      [.call 0 false,.call 0 false,.call 1 false,.call 1 false,.call 1 false,.call 1 false] = some s := ⟨_,rfl⟩
  have enabled := congrArg (Option.map fun s => s.shared.users.rows.map UserRow.totpEnabled) ran
  refine ⟨s,ran,(Option.some.inj enabled).symm,
    (factor_confirmed _ 1 enrolments _ newAccount_fresh (Transition.reaches_of_exec ran ?_)).1⟩
  refine ⟨?_,?_⟩
  · rintro _ _ ⟨⟩
    trivial
  rintro _ ⟨⟩
  refine ⟨?_,?_⟩
  · rintro _ _ ⟨⟩ u there _
    cases List.mem_singleton.mp there
    rfl
  rintro _ ⟨⟩
  refine ⟨?_,?_⟩
  · rintro _ _ ⟨⟩
    trivial
  rintro _ ⟨⟩
  refine ⟨?_,?_⟩
  · rintro _ _ ⟨⟩
    trivial
  rintro _ ⟨⟩
  refine ⟨?_,?_⟩
  · rintro _ _ ⟨⟩
    trivial
  rintro _ ⟨⟩
  refine ⟨?_,fun _ _ => trivial⟩
  rintro _ _ ⟨⟩ u there _ secret found
  cases List.mem_singleton.mp there
  cases found
  exact ⟨"111111",0,rfl⟩

def verifiedSecret : Event Nat Statement Statement.Answer → Option String
  | ⟨_,.verifyTotp secret _ _,some (some true)⟩ => some secret
  | _ => none

/-- The second setup stores its secret after the first one's code was verified. -/
theorem unconfirmed_enabled : ∃ s : State Nat,
    Transition.exec (step plainCodes) (start 1 enrolments newAccount)
      [.call 0 false,.call 0 false,.call 1 false,.call 1 false,.call 1 false,.call 2 false,.call 2 false,.call 1 false] =
        some s ∧
    (s.shared.users.rows.map fun u => (u.totpSecret,u.totpEnabled)) = [(some "222222",true)] ∧
    ¬FactorConfirmed 1 enrolments s.toWorld := by
  refine ⟨_,rfl,rfl,fun confirmed => ?_⟩
  obtain ⟨secret,found,i,j,code,now,affected,_,there⟩ := confirmed _ (List.mem_singleton_self _) rfl rfl
  cases found
  have verified := List.mem_map_of_mem (f := verifiedSecret) (there.subset List.mem_cons_self)
  change some "222222" ∈ _ at verified
  exact absurd verified (by decide)

end Qdrust.Account.SecondFactor
