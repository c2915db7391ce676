import Qdrust.Account.Login
import Qdrust.Library.Counting

/-! How many wrong passwords are compared with one account's hash. The limiter counts by
the key of a name and restarts its window lazily; several logins may pass it before one
of them is counted. -/
namespace Qdrust.Account.LoginLimit
open Library Concurrent

variable {ι : Type} [DecidableEq ι]

abbrev State (ι : Type) := Concurrent.State ι LoginCall LoginCall.Answer Server PasswordReply

/-- A login as it comes in. -/
structure Attempt where
  serving : LoginServing
  input : AuthCredentials

def Attempt.key (attempt : Attempt) : String := rateKey attempt.input.username

/-- A server that was just started. -/
def started (db : Accounts) (instant : Nat) : Server := ⟨db,fun _ => none,instant,[]⟩

def start (attempts : ι → Attempt) (server : Server) : State ι :=
  State.start server fun i => login (attempts i).serving (attempts i).input

/-- Time passes on the monotonic clock, and the wall clock is set to any time. -/
def timePasses (event : Nat × Int) (server : Server) : Option Server :=
  some { server with instant := server.instant + event.1, accounts := { server.accounts with clock := event.2 } }

abbrev step (limiter : LoginRateLimiter) (backend : Backend) (s : State ι) (action : Action ι (Nat × Int)) :
    Option (State ι) := Concurrent.step (logins limiter backend) timePasses s action

/-- When a wrong password was compared with the hash. -/
def wrongAt (hash : String) : LoginNote → Option Nat
  | .compared instant encodedHash valid => if encodedHash = hash ∧ valid = false then some instant else none
  | .succeeded _ => none

/-- The wrong passwords since the last success under the key. -/
def wrongs (hash key : String) (notes : List LoginNote) : List Nat :=
  (notes.takeWhile fun note => note ≠ .succeeded key).filterMap (wrongAt hash)

/-- No window of the limiter's length holds more wrong passwords than it allows. -/
def Limited (limiter : LoginRateLimiter) (hash key : String) (server : Server) : Prop :=
  ∀ since, ((wrongs hash key server.notes).countP fun instant => since ≤ instant ∧ instant < since + limiter.window) ≤
    limiter.maxAttempts

/-- The wrong passwords compared less than a window ago. -/
def recent (limiter : LoginRateLimiter) (hash key : String) (server : Server) : Nat :=
  (wrongs hash key server.notes).countP fun instant => server.instant < instant + limiter.window

/-- A login between the limiter's answer and what it tells the limiter. -/
def underway : LoginCalls PasswordReply → Bool
  | .call (.store (.credentialsByUsername _)) _ | .call (.store (.verifyPassword _ _)) _ => true
  | .call (.recordFailure _) _ | .call (.recordSuccess _) _ => true
  | _ => false

/-- A login that still has to report a failure. -/
def owes : LoginCalls PasswordReply → Bool
  | .call (.recordFailure _) _ => true
  | _ => false

variable (limiter : LoginRateLimiter) (hash key : String) (attempts : ι → Attempt)

def Underway (s : State ι) (i : ι) : Prop := (attempts i).key = key ∧ underway (s.process i) = true

def Owing (s : State ι) (i : ι) : Prop := (attempts i).key = key ∧ owes (s.process i) = true

/-- The failures that still count. -/
def counted (server : Server) : Nat :=
  match server.attempts key with
  | none => 0
  | some window => if limiter.expired server window then 0 else window.failures

/-- A window that restarts has been over for every wrong password but those still to be reported. -/
def OverForAll (s : State ι) : Prop :=
  ∀ window, s.shared.attempts key = some window → limiter.expired s.shared window = true →
    ∃ n, AtLeast n (Owing key attempts s) ∧ recent limiter hash key s.shared ≤ n

/-- The limiter sees what it limits: logins have the account's key exactly where they are compared with
its hash, the failures counted leave room for the logins underway, each failure is reported, and
a window only restarts when every wrong password in it is older than a window. -/
def Seen (s : State ι) : Action ι (Nat × Int) → Prop
  | .call i fails => ∀ request next, s.process i = .call request next →
    match request with
    | .allowed k => k = key → fails = false → OverForAll limiter hash key attempts s ∧
        (counted limiter key s.shared < limiter.maxAttempts → ∃ n, AtMost n (Underway key attempts s) ∧
          counted limiter key s.shared + n < limiter.maxAttempts)
    | .store (.verifyPassword _ encodedHash) => encodedHash = hash ↔ (attempts i).key = key
    | .recordFailure k => k = key → fails = false ∧ OverForAll limiter hash key attempts s
    | _ => True
  | .outside _ => True

section Stages

/-- A call to the limiter, or one that a login makes between two of them. -/
def Counts : LoginCall → Prop
  | .allowed _ | .recordFailure _ | .recordSuccess _ => True
  | .store (.credentialsByUsername _) | .store (.verifyPassword _ _) => True
  | _ => False

/-- What follows the comparison. -/
def conclude (attempt : Attempt) (credentials : Option UserCredentials) (valid : Bool) : LoginCalls PasswordReply :=
  match credentials.filter fun credentials => valid && !credentials.user.disabled with
  | none => .call (.recordFailure attempt.key) (Routine.answered fun _ =>
      .call (.store (.recordAudit "auth.login_failed")) (Routine.answered fun _ =>
        .done (.error (.unauthorized "invalid_credentials" "Invalid username or password"))))
  | some credentials =>
    if attempt.serving.requireEmailVerification && !credentials.user.emailVerified then
      .done (.error (.forbidden "email_not_verified" "Email address is not verified"))
    else .call (.recordSuccess attempt.key) (Routine.answered fun _ => completeLogin attempt.serving credentials.user)

def compare (attempt : Attempt) (credentials : Option UserCredentials) : LoginCalls PasswordReply :=
  .call (.store (.verifyPassword attempt.input.password
    ((credentials.map UserCredentials.passwordHash).getD attempt.serving.dummyHash)))
      (Routine.answered (conclude attempt credentials))

def afterAllowed (attempt : Attempt) (allowed : Bool) : LoginCalls PasswordReply :=
  if !allowed then .done (.error (.tooManyRequests "login_rate_limited" "Too many login attempts"))
  else .call (.store (.credentialsByUsername attempt.input.username)) (Routine.answered (compare attempt))

theorem login_eq (attempt : Attempt) (serves : attempt.serving.localLogin = true) :
    login attempt.serving attempt.input = .call (.allowed attempt.key) (Routine.answered (afterAllowed attempt)) := by
  simp only [login,serves,Bool.not_true,Bool.false_eq_true,if_false,Routine.ask_bind]
  refine Routine.call_congr fun allowed => ?_
  simp only [afterAllowed]
  split
  · rfl
  refine Routine.call_congr fun credentials => Routine.call_congr fun valid => ?_
  simp only [conclude]
  cases credentials.filter fun credentials => valid && !credentials.user.disabled with
  | none => rfl
  | some credentials => rfl

theorem createSession_avoids (serving : Serving) (userId : Int) :
    Routine.Avoids (fun statement => Counts (.store statement)) (createSession serving userId) := by
  unfold createSession
  split
  · exact .failed
  refine Routine.avoids_bind (Routine.avoids_ask not_false) fun credentials => ?_
  cases credentials with
  | none => exact .failed
  | some credentials =>
    dsimp only
    split
    · exact .failed
    refine Routine.avoids_bind (Routine.avoids_ask not_false) fun now => ?_
    split
    · exact .failed
    · exact Routine.avoids_bind (Routine.avoids_ask not_false) fun _ => .done _

theorem completeLogin_avoids (serving : LoginServing) (user : User) : Routine.Avoids Counts (completeLogin serving user) := by
  refine Routine.avoids_bind (Routine.avoids_ask not_false) fun totp => ?_
  split
  · refine Routine.avoids_bind (Routine.avoids_ask not_false) fun now => ?_
    refine Routine.avoids_bind (Routine.avoids_ask not_false) fun made => ?_
    split
    · exact .failed
    · exact Routine.avoids_bind (Routine.avoids_ask not_false) fun _ => .done _
  · refine Routine.avoids_bind (Routine.avoids_ask not_false) fun _ => ?_
    exact Routine.avoids_bind (Routine.avoids_embed (createSession_avoids _ _)) fun _ => .done _

/-- How far a login has come. -/
inductive Stage (attempt : Attempt) : LoginCalls PasswordReply → Prop
  | asking : Stage attempt (.call (.allowed attempt.key) (Routine.answered (afterAllowed attempt)))
  | reading : Stage attempt (.call (.store (.credentialsByUsername attempt.input.username)) (Routine.answered (compare attempt)))
  | comparing (credentials : Option UserCredentials) : Stage attempt (compare attempt credentials)
  | failing (next : Option Unit → LoginCalls PasswordReply) (rest : ∀ answer, Routine.Avoids Counts (next answer)) :
      Stage attempt (.call (.recordFailure attempt.key) next)
  | succeeding (next : Option Unit → LoginCalls PasswordReply) (rest : ∀ answer, Routine.Avoids Counts (next answer)) :
      Stage attempt (.call (.recordSuccess attempt.key) next)
  | ending (rest : LoginCalls PasswordReply) (harmless : Routine.Avoids Counts rest) : Stage attempt rest

theorem underway_avoids {routine : LoginCalls PasswordReply} (harmless : Routine.Avoids Counts routine) :
    underway routine = false := by
  cases harmless with
  | done reply => rfl
  | failed => rfl
  | call other rest =>
    rename_i request next
    cases request with
    | store statement =>
      cases statement with
      | credentialsByUsername _ | verifyPassword _ _ => exact absurd trivial other
      | _ => rfl
    | createTotpChallenge _ _ _ => rfl
    | allowed _ | recordFailure _ | recordSuccess _ => exact absurd trivial other

theorem underway_of_owes {routine : LoginCalls PasswordReply} (owing : owes routine = true) : underway routine = true := by
  cases routine with
  | call request next =>
    cases request with
    | recordFailure _ => rfl
    | _ => cases owing
  | _ => cases owing

theorem stage_conclude (attempt : Attempt) (credentials : Option UserCredentials) (valid : Bool) :
    Stage attempt (conclude attempt credentials valid) ∧ (valid = false → owes (conclude attempt credentials valid) = true) := by
  unfold conclude
  cases chosen : credentials.filter fun credentials => valid && !credentials.user.disabled with
  | none => exact ⟨.failing _ (Routine.avoids_answered fun _ => .call not_false (Routine.avoids_answered fun _ => .done _)),fun _ => rfl⟩
  | some credentials =>
    refine ⟨?_,?_⟩
    · dsimp only
      split
      · exact .ending _ (.done _)
      · exact .succeeding _ (Routine.avoids_answered fun _ => completeLogin_avoids _ _)
    · rintro rfl
      have right := (Option.filter_eq_some_iff.mp chosen).2
      simp at right

/-- A call of a login leads to its next stage. -/
theorem stage_next {attempt : Attempt} {request : LoginCall} {next : Option request.Answer → LoginCalls PasswordReply}
    (stage : Stage attempt (.call request next)) (answer : Option request.Answer) : Stage attempt (next answer) := by
  cases stage with
  | asking =>
    cases answer with
    | none => exact .ending _ .failed
    | some allowed =>
      simp only [Routine.answered_some,afterAllowed]
      split
      · exact .ending _ (.done _)
      · exact .reading
  | reading =>
    cases answer with
    | none => exact .ending _ .failed
    | some credentials => exact .comparing credentials
  | comparing credentials =>
    cases answer with
    | none => exact .ending _ .failed
    | some valid => exact (stage_conclude attempt credentials valid).1
  | failing _ rest => exact .ending _ (rest answer)
  | succeeding _ rest => exact .ending _ (rest answer)
  | ending _ harmless =>
    cases harmless with
    | call _ rest => exact .ending _ (rest answer)

end Stages

section Server

variable {limiter : LoginRateLimiter} {hash key : String} {backend : Backend}

/-- The failures in the window of a key, whether it is over or not. -/
def failures (key : String) (server : Server) : Nat := ((server.attempts key).map AttemptWindow.failures).getD 0

theorem counted_le (limiter : LoginRateLimiter) (key : String) (server : Server) : counted limiter key server ≤ failures key server := by
  unfold counted failures
  cases server.attempts key with
  | none => exact Nat.le_refl 0
  | some window =>
    simp only [Option.map_some,Option.getD_some]
    split
    · exact Nat.zero_le _
    · exact Nat.le_refl _

/-- The limiter lets a login through exactly where the failures counted leave room. -/
theorem allowed_iff (server : Server) :
    (limiter.allowed server key).1 = true ↔ counted limiter key server < limiter.maxAttempts := by
  unfold LoginRateLimiter.allowed counted
  cases server.attempts key with
  | none => simp [limiter.attempts.1]
  | some window =>
    dsimp only
    split
    · simp [limiter.attempts.1]
    · simp

theorem failures_allowed (server : Server) :
    failures key (limiter.allowed server key).2 = counted limiter key server := by
  unfold LoginRateLimiter.allowed counted failures
  cases found : server.attempts key with
  | none => simp [found]
  | some window =>
    dsimp only
    split
    · simp [deleteKey]
    · simp [found]

theorem allowed_same (server : Server) (k : String) :
    (limiter.allowed server k).2.notes = server.notes ∧ (limiter.allowed server k).2.instant = server.instant := by
  unfold LoginRateLimiter.allowed
  cases server.attempts k with
  | none => exact ⟨rfl,rfl⟩
  | some window =>
    dsimp only
    split <;> exact ⟨rfl,rfl⟩

theorem failures_recorded (server : Server) :
    failures key (limiter.recordFailure server key) = min (counted limiter key server + 1) u32Max := by
  simp only [failures,LoginRateLimiter.recordFailure,Function.update_self,Option.map_some,Option.getD_some,
    LoginRateLimiter.failed,counted]
  cases server.attempts key with
  | none =>
    simp only [Option.getD_none]
    split <;> rfl
  | some window =>
    simp only [Option.getD_some]
    split <;> rfl

/-- A call about another key. -/
theorem failures_other {call : LoginCall} (other : ∀ k, call = .allowed k ∨ call = .recordFailure k ∨ call = .recordSuccess k → k ≠ key)
    (server : Server) : failures key (logins limiter backend call server).2 = failures key server := by
  have update (k : String) (window : Option AttemptWindow) (differs : k ≠ key) :
      Function.update server.attempts k window key = server.attempts key := Function.update_of_ne differs.symm _ _
  cases call with
  | allowed k =>
    have differs := other k (.inl rfl)
    simp only [logins,LoginRateLimiter.allowed]
    cases server.attempts k with
    | none => rfl
    | some window =>
      dsimp only
      split
      · simp only [failures,deleteKey,update k none differs]
      · rfl
  | recordFailure k => simp only [failures,logins,LoginRateLimiter.recordFailure,update k _ (other k (.inr (.inl rfl)))]
  | recordSuccess k => simp only [failures,logins,recordSuccess,deleteKey,update k none (other k (.inr (.inr rfl)))]
  | createTotpChallenge userId tokenHash expiresAt =>
    simp only [logins]
    split <;> rfl
  | store statement => rfl

theorem instant_same (call : LoginCall) (server : Server) : (logins limiter backend call server).2.instant = server.instant := by
  cases call with
  | allowed k => exact (allowed_same server k).2
  | createTotpChallenge userId tokenHash expiresAt =>
    simp only [logins]
    split <;> rfl
  | _ => rfl

theorem wrongs_cons (note : LoginNote) (notes : List LoginNote) :
    wrongs hash key (note :: notes) =
      if note = .succeeded key then [] else (wrongAt hash note).toList ++ wrongs hash key notes := by
  unfold wrongs
  rw [List.takeWhile_cons]
  by_cases success : note = .succeeded key
  · simp [success]
  · simp only [success,ne_eq,not_false_eq_true,decide_true,if_true,if_false,List.filterMap_cons]
    cases wrongAt hash note <;> rfl

/-- A call that compares nothing with the hash and records no success. -/
theorem wrongs_same (call : LoginCall) (success : call ≠ .recordSuccess key)
    (compared : ∀ password encodedHash, call = .store (.verifyPassword password encodedHash) →
      encodedHash ≠ hash ∨ backend.verifyPassword password encodedHash = true)
    (server : Server) : wrongs hash key (logins limiter backend call server).2.notes = wrongs hash key server.notes := by
  cases call with
  | allowed k => exact congrArg _ (allowed_same server k).1
  | recordFailure k => rfl
  | recordSuccess k =>
    have differs : LoginNote.succeeded k ≠ .succeeded key := by
      rintro ⟨⟩
      exact success rfl
    simp only [logins,recordSuccess,wrongs_cons,if_neg differs]
    rfl
  | createTotpChallenge userId tokenHash expiresAt =>
    simp only [logins]
    split <;> rfl
  | store statement =>
    cases statement with
    | verifyPassword password encodedHash =>
      simp only [logins,noted,wrongs_cons,reduceCtorEq,if_false,wrongAt]
      rw [if_neg]
      · rfl
      · rintro ⟨same,wrong⟩
        rcases compared _ _ rfl with differs | right
        · exact differs same
        · rw [right] at wrong
          cases wrong
    | _ => rfl

end Server

section Runs

variable {limiter : LoginRateLimiter} {hash key : String} {attempts : ι → Attempt} {backend : Backend}

/-- The wrong passwords that are recent are counted or about to be, and the logins underway have
room for theirs. -/
structure Kept (limiter : LoginRateLimiter) (hash key : String) (attempts : ι → Attempt) (s : State ι) : Prop where
  stage : ∀ i, Stage (attempts i) (s.process i)
  room : ∃ n, AtMost n (Underway key attempts s) ∧ failures key s.shared + n ≤ limiter.maxAttempts
  owed : ∃ n, AtLeast n (Owing key attempts s) ∧ recent limiter hash key s.shared ≤ failures key s.shared + n
  limited : Limited limiter hash key s.shared

omit [DecidableEq ι] in
theorem recent_le {server server' : Server} (wrong : wrongs hash key server'.notes = wrongs hash key server.notes)
    (later : server.instant ≤ server'.instant) : recent limiter hash key server' ≤ recent limiter hash key server := by
  unfold recent
  rw [wrong]
  refine List.countP_mono_left fun instant _ young => ?_
  simp only [decide_eq_true_eq] at young ⊢
  omega

omit [DecidableEq ι] in
/-- A step that counts nothing and compares nothing wrong. -/
theorem Kept.quiet {s t : State ι} (kept : Kept limiter hash key attempts s) (stage : ∀ i, Stage (attempts i) (t.process i))
    (fewer : ∀ i, Underway key attempts t i → Underway key attempts s i)
    (more : ∀ i, Owing key attempts s i → Owing key attempts t i) (same : failures key t.shared = failures key s.shared)
    (wrong : wrongs hash key t.shared.notes = wrongs hash key s.shared.notes) (later : s.shared.instant ≤ t.shared.instant) :
    Kept limiter hash key attempts t := by
  constructor
  · exact stage
  · obtain ⟨n,few,room⟩ := kept.room
    exact ⟨n,few.mono fewer,same ▸ room⟩
  · obtain ⟨n,many,owed⟩ := kept.owed
    exact ⟨n,many.mono more,same ▸ (recent_le wrong later).trans owed⟩
  · unfold Limited
    rw [wrong]
    exact kept.limited

/-- A step of one login leaves the others where they are. -/
theorem others_same {s t : State ι} {i : ι} {after : LoginCalls PasswordReply} (process : t.process = Function.update s.process i after)
    {j : ι} (differs : j ≠ i) : t.process j = s.process j := by
  rw [process,Function.update_of_ne differs]

theorem underway_other {s t : State ι} {i : ι} {after : LoginCalls PasswordReply}
    (process : t.process = Function.update s.process i after) (j : ι) (differs : j ≠ i) :
    Underway key attempts t j ↔ Underway key attempts s j := by
  rw [Underway,Underway,others_same process differs]

theorem owing_other {s t : State ι} {i : ι} {after : LoginCalls PasswordReply}
    (process : t.process = Function.update s.process i after) (j : ι) (differs : j ≠ i) :
    Owing key attempts t j ↔ Owing key attempts s j := by
  rw [Owing,Owing,others_same process differs]

omit [DecidableEq ι] in
/-- The failures that still count cover the recent wrong passwords where a window may restart. -/
theorem Kept.covered {s : State ι} (kept : Kept limiter hash key attempts s) (ready : OverForAll limiter hash key attempts s) :
    ∃ n, AtLeast n (Owing key attempts s) ∧ recent limiter hash key s.shared ≤ counted limiter key s.shared + n := by
  cases found : s.shared.attempts key with
  | none =>
    obtain ⟨n,many,owed⟩ := kept.owed
    refine ⟨n,many,?_⟩
    simpa [counted,failures,found] using owed
  | some window =>
    by_cases expired : limiter.expired s.shared window = true
    · obtain ⟨n,many,owed⟩ := ready window found expired
      exact ⟨n,many,owed.trans (Nat.le_add_left _ _)⟩
    · obtain ⟨n,many,owed⟩ := kept.owed
      refine ⟨n,many,?_⟩
      simpa [counted,failures,found,expired] using owed

/-- The stages after a call of one login. -/
theorem Kept.stages {s t : State ι} (kept : Kept limiter hash key attempts s) {i : ι} {request : LoginCall}
    {next : Option request.Answer → LoginCalls PasswordReply} (outstanding : s.process i = .call request next)
    (answer : Option request.Answer) (process : t.process = Function.update s.process i (next answer)) (j : ι) :
    Stage (attempts j) (t.process j) := by
  by_cases same : j = i
  · subst same
    rw [process,Function.update_self]
    exact stage_next (outstanding ▸ kept.stage j) answer
  · rw [others_same process same]
    exact kept.stage j

/-- A call that counts nothing and compares nothing wrong, of a login that stays where it was counted. -/
theorem Kept.call_quiet {s t : State ι} (kept : Kept limiter hash key attempts s) {i : ι} {request : LoginCall}
    {next : Option request.Answer → LoginCalls PasswordReply} (outstanding : s.process i = .call request next)
    {answer : Option request.Answer} (process : t.process = Function.update s.process i (next answer))
    (fewer : (attempts i).key = key → underway (next answer) = true → underway (.call request next) = true)
    (more : (attempts i).key = key → owes (.call request next) = true → owes (next answer) = true)
    (same : failures key t.shared = failures key s.shared)
    (wrong : wrongs hash key t.shared.notes = wrongs hash key s.shared.notes) (later : t.shared.instant = s.shared.instant) :
    Kept limiter hash key attempts t := by
  refine kept.quiet (kept.stages outstanding _ process) ?_ ?_ same wrong later.ge
  · intro j flies
    by_cases self : j = i
    · subst self
      rw [Underway,process,Function.update_self] at flies
      exact ⟨flies.1,outstanding ▸ fewer flies.1 flies.2⟩
    · exact (underway_other process j self).mp flies
  · intro j owing
    by_cases self : j = i
    · subst self
      rw [Owing,outstanding] at owing
      refine ⟨owing.1,?_⟩
      rw [process,Function.update_self]
      exact more owing.1 owing.2
    · exact (owing_other process j self).mpr owing

/-- The limiter lets a login through, or refuses it. -/
theorem Kept.asked {s t : State ι} (kept : Kept limiter hash key attempts s) {i : ι}
    (outstanding : s.process i = .call (.allowed key) (Routine.answered (afterAllowed (attempts i))))
    (ready : OverForAll limiter hash key attempts s)
    (free : counted limiter key s.shared < limiter.maxAttempts → ∃ n, AtMost n (Underway key attempts s) ∧
      counted limiter key s.shared + n < limiter.maxAttempts)
    (world : t.shared = (limiter.allowed s.shared key).2)
    (process : t.process = Function.update s.process i (afterAllowed (attempts i) (limiter.allowed s.shared key).1)) :
    Kept limiter hash key attempts t := by
  have after : failures key t.shared = counted limiter key s.shared := world ▸ failures_allowed s.shared
  have wrong : wrongs hash key t.shared.notes = wrongs hash key s.shared.notes := by rw [world,(allowed_same s.shared key).1]
  have later : t.shared.instant = s.shared.instant := by rw [world,(allowed_same s.shared key).2]
  have idle : ¬Owing key attempts s i := by
    rw [Owing,outstanding]
    rintro ⟨_,⟨⟩⟩
  constructor
  · exact kept.stages outstanding (some (limiter.allowed s.shared key).1) process
  · by_cases room' : counted limiter key s.shared < limiter.maxAttempts
    · obtain ⟨n,few,room⟩ := free room'
      refine ⟨n + 1,few.enter fun j differs flies => (underway_other process j differs).mp flies,?_⟩
      rw [after]
      omega
    · obtain ⟨n,few,room⟩ := kept.room
      refine ⟨n,few.mono fun j flies => ?_,?_⟩
      · by_cases self : j = i
        · subst self
          have refused : (limiter.allowed s.shared key).1 = false := Bool.eq_false_iff.mpr (mt (allowed_iff s.shared).mp room')
          rw [Underway,process,Function.update_self,refused] at flies
          simp [afterAllowed,underway] at flies
        · exact (underway_other process j self).mp flies
      · have le := counted_le limiter key s.shared
        omega
  · obtain ⟨n,many,owed⟩ := kept.covered ready
    refine ⟨n,many.mono fun j owing => ?_,?_⟩
    · have differs : j ≠ i := fun same => idle (same ▸ owing)
      exact (owing_other process j differs).mpr owing
    · rw [after]
      exact (recent_le wrong later.ge).trans owed
  · unfold Limited
    rw [wrong]
    exact kept.limited

/-- A wrong password is compared. -/
theorem Kept.compared {s t : State ι} (kept : Kept limiter hash key attempts s) {i : ι} {credentials : Option UserCredentials}
    (outstanding : s.process i = compare (attempts i) credentials) (mine : (attempts i).key = key)
    (wrong : wrongs hash key t.shared.notes = s.shared.instant :: wrongs hash key s.shared.notes)
    (same : failures key t.shared = failures key s.shared) (later : t.shared.instant = s.shared.instant)
    (process : t.process = Function.update s.process i (conclude (attempts i) credentials false)) :
    Kept limiter hash key attempts t := by
  have flies : Underway key attempts s i := ⟨mine,by rw [outstanding]; rfl⟩
  have idle : ¬Owing key attempts s i := by
    rw [Owing,outstanding]
    rintro ⟨_,⟨⟩⟩
  have owing : Owing key attempts t i := by
    refine ⟨mine,?_⟩
    rw [process,Function.update_self]
    exact (stage_conclude (attempts i) credentials false).2 rfl
  obtain ⟨most,few,room⟩ := kept.room
  obtain ⟨least,many,owed⟩ := kept.owed
  have more : recent limiter hash key t.shared ≤ recent limiter hash key s.shared + 1 := by
    unfold recent
    rw [wrong,later,List.countP_cons]
    split <;> omega
  have lt : least < most := many.lt few (fun j owing => ⟨owing.1,underway_of_owes owing.2⟩) flies idle
  constructor
  · exact kept.stages outstanding (some false) process
  · refine ⟨most,few.mono fun j there => ?_,same ▸ room⟩
    by_cases self : j = i
    · exact self ▸ flies
    · exact (underway_other process j self).mp there
  · exact ⟨least + 1,many.enter (fun j differs => (owing_other process j differs).mpr) idle owing,by omega⟩
  · intro since
    rw [wrong,List.countP_cons]
    split
    · next inside =>
      simp only [decide_eq_true_eq] at inside
      -- what shares an interval with the password just compared is recent
      have close : (wrongs hash key s.shared.notes).countP (fun instant => since ≤ instant ∧ instant < since + limiter.window) ≤
          recent limiter hash key s.shared := by
        refine List.countP_mono_left fun instant _ within => ?_
        simp only [decide_eq_true_eq] at within ⊢
        omega
      omega
    · exact kept.limited since

/-- A failure is counted. -/
theorem Kept.failed {s t : State ι} (kept : Kept limiter hash key attempts s) {i : ι}
    {next : Option Unit → LoginCalls PasswordReply} (outstanding : s.process i = .call (.recordFailure key) next)
    (mine : (attempts i).key = key) (ready : OverForAll limiter hash key attempts s)
    (rest : Routine.Avoids Counts (next (some ()))) (world : t.shared = limiter.recordFailure s.shared key)
    (process : t.process = Function.update s.process i (next (some ()))) : Kept limiter hash key attempts t := by
  have after : failures key t.shared = min (counted limiter key s.shared + 1) u32Max := world ▸ failures_recorded s.shared
  have flies : Underway key attempts s i := ⟨mine,by rw [outstanding]; rfl⟩
  have gone : ¬Underway key attempts t i := by
    rw [Underway,process,Function.update_self,underway_avoids rest]
    rintro ⟨_,⟨⟩⟩
  obtain ⟨most,few,room⟩ := kept.room
  obtain ⟨least,many,owed⟩ := kept.covered ready
  have pos : 0 < most := (AtLeast.zero fun _ => False).lt few (fun _ => False.elim) flies id
  have le := counted_le limiter key s.shared
  have bound := limiter.attempts.2
  constructor
  · exact kept.stages outstanding _ process
  · refine ⟨most - 1,few.leave (fun j differs => (underway_other process j differs).mp) flies gone,?_⟩
    rw [after]
    omega
  · refine ⟨least - 1,many.leave fun j differs => (owing_other process j differs).mpr,?_⟩
    have same : recent limiter hash key t.shared = recent limiter hash key s.shared := by rw [world]; rfl
    rw [same,after]
    omega
  · rw [world]
    exact kept.limited

/-- A success is recorded. -/
theorem Kept.succeeded {s t : State ι} (kept : Kept limiter hash key attempts s) {i : ι}
    {next : Option Unit → LoginCalls PasswordReply} (outstanding : s.process i = .call (.recordSuccess key) next)
    (rest : Routine.Avoids Counts (next (some ()))) (world : t.shared = recordSuccess s.shared key)
    (process : t.process = Function.update s.process i (next (some ()))) : Kept limiter hash key attempts t := by
  have none : wrongs hash key t.shared.notes = [] := by rw [world,recordSuccess,wrongs_cons,if_pos rfl]
  have zero : failures key t.shared = 0 := by simp [world,failures,recordSuccess,deleteKey]
  constructor
  · exact kept.stages outstanding _ process
  · obtain ⟨n,few,room⟩ := kept.room
    refine ⟨n,few.mono fun j flies => ?_,by omega⟩
    by_cases self : j = i
    · subst self
      rw [Underway,process,Function.update_self,underway_avoids rest] at flies
      exact absurd flies.2 (by decide)
    · exact (underway_other process j self).mp flies
  · refine ⟨0,AtLeast.zero _,?_⟩
    rw [recent,none]
    exact Nat.zero_le _
  · intro since
    rw [none]
    exact Nat.zero_le _

/-- The limiter is called with the login's own key. -/
theorem stage_key {attempt : Attempt} {request : LoginCall} {next : Option request.Answer → LoginCalls PasswordReply}
    (stage : Stage attempt (.call request next)) (k : String)
    (limits : request = .allowed k ∨ request = .recordFailure k ∨ request = .recordSuccess k) : k = attempt.key := by
  cases stage with
  | ending _ harmless =>
    cases harmless with
    | call other _ => rcases limits with rfl | rfl | rfl <;> exact absurd trivial other
  | _ => simp_all

/-- The call of a login under another key. -/
theorem Kept.elsewhere {s t : State ι} (kept : Kept limiter hash key attempts s) {i : ι} {request : LoginCall}
    {next : Option request.Answer → LoginCalls PasswordReply} {fails : Bool} (outstanding : s.process i = .call request next)
    (other : (attempts i).key ≠ key)
    (guard : ∀ password encodedHash, request = .store (.verifyPassword password encodedHash) → encodedHash ≠ hash)
    (world : t.toWorld = s.toWorld.perform (logins limiter backend) i request fails)
    (process : t.process = Function.update s.process i (next (answer (logins limiter backend) s.shared request fails))) :
    Kept limiter hash key attempts t := by
  have stage := outstanding ▸ kept.stage i
  apply kept.call_quiet outstanding process (fun mine => absurd mine other) (fun mine => absurd mine other)
  all_goals rw [world]; cases fails with
  | true => rfl
  | false => ?_
  · exact failures_other (fun k limits => (stage_key stage k limits).symm ▸ other) s.shared
  · refine wrongs_same request ?_ (fun password encodedHash same => .inl (guard password encodedHash same)) s.shared
    rintro rfl
    exact other (stage_key stage key (.inr (.inr rfl))).symm
  · exact instant_same request s.shared

/-- A call that is made by a login of the account. -/
theorem Kept.made {s t : State ι} (kept : Kept limiter hash key attempts s) {i : ι} {request : LoginCall}
    {next : Option request.Answer → LoginCalls PasswordReply} (outstanding : s.process i = .call request next)
    (mine : (attempts i).key = key) (seen : Seen limiter hash key attempts s (.call i false))
    (world : t.toWorld = s.toWorld.perform (logins limiter backend) i request false)
    (process : t.process = Function.update s.process i (next (answer (logins limiter backend) s.shared request false))) :
    Kept limiter hash key attempts t := by
  have guard := seen request next outstanding
  have shared : t.shared = (logins limiter backend request s.shared).2 := by rw [world]; rfl
  have later : t.shared.instant = s.shared.instant := by rw [shared,instant_same]
  have stage := outstanding ▸ kept.stage i
  subst mine
  cases stage with
  | asking =>
    obtain ⟨ready,free⟩ := guard rfl rfl
    exact kept.asked outstanding ready free shared process
  | reading =>
    refine kept.call_quiet outstanding process (fun _ _ => rfl) (fun _ owing => absurd owing Bool.false_ne_true) ?_ ?_ later
    · rw [shared]
      rfl
    · rw [shared]
      rfl
  | comparing credentials =>
    have same : (credentials.map UserCredentials.passwordHash).getD (attempts i).serving.dummyHash = hash := guard.mpr rfl
    cases valid : backend.verifyPassword (attempts i).input.password
        ((credentials.map UserCredentials.passwordHash).getD (attempts i).serving.dummyHash) with
    | false =>
      refine kept.compared outstanding rfl ?_ ?_ later ?_
      · rw [shared]
        simp only [logins,noted,wrongs_cons,reduceCtorEq,if_false,wrongAt]
        rw [if_pos ⟨same,valid⟩]
        rfl
      · rw [shared]
        rfl
      · rw [process]
        simp only [answer,logins,accounts,Bool.false_eq_true,if_false,Routine.answered_some,valid]
    | true =>
      refine kept.call_quiet outstanding process (fun _ _ => rfl) (fun _ owing => absurd owing Bool.false_ne_true) ?_ ?_ later
      · rw [shared]
        rfl
      · rw [shared]
        refine wrongs_same _ (by rintro ⟨⟩) (fun password encodedHash made => .inr ?_) s.shared
        cases made
        exact valid
  | failing _ rest =>
    obtain ⟨_,ready⟩ := guard rfl
    exact kept.failed outstanding rfl ready (rest _) shared process
  | succeeding _ rest => exact kept.succeeded outstanding (rest _) shared process
  | ending _ harmless =>
    cases harmless with
    | call other rest =>
      refine kept.call_quiet outstanding process (fun _ flies => ?_) (fun _ owing => ?_) ?_ ?_ later
      · rw [underway_avoids (rest _)] at flies
        cases flies
      · have flies := underway_of_owes owing
        rw [underway_avoids (.call other rest)] at flies
        cases flies
      · rw [shared]
        refine failures_other (fun k limits => ?_) s.shared
        rcases limits with rfl | rfl | rfl <;> exact absurd trivial other
      · rw [shared]
        refine wrongs_same request ?_ (fun password encodedHash made => ?_) s.shared
        · rintro rfl
          exact other trivial
        · subst made
          exact absurd trivial other

/-- A login whose call failed is not underway. -/
theorem stage_fails {attempt : Attempt} {request : LoginCall} {next : Option request.Answer → LoginCalls PasswordReply}
    (stage : Stage attempt (.call request next)) : underway (next none) = false := by
  cases stage with
  | failing _ rest => exact underway_avoids (rest none)
  | succeeding _ rest => exact underway_avoids (rest none)
  | ending _ harmless =>
    cases harmless with
    | call _ rest => exact underway_avoids (rest none)
  | _ => rfl

/-- Only a failure that is about to be reported is owed. -/
theorem stage_owes {attempt : Attempt} {request : LoginCall} {next : Option request.Answer → LoginCalls PasswordReply}
    (stage : Stage attempt (.call request next)) (owing : owes (.call request next) = true) :
    request = .recordFailure attempt.key := by
  cases stage with
  | failing _ _ => rfl
  | ending _ harmless =>
    have flies := underway_of_owes owing
    rw [underway_avoids harmless] at flies
    cases flies
  | _ => cases owing

/-- A call that fails. -/
theorem Kept.fails {s t : State ι} (kept : Kept limiter hash key attempts s) {i : ι} {request : LoginCall}
    {next : Option request.Answer → LoginCalls PasswordReply} (outstanding : s.process i = .call request next)
    (seen : Seen limiter hash key attempts s (.call i true))
    (world : t.toWorld = s.toWorld.perform (logins limiter backend) i request true)
    (process : t.process = Function.update s.process i (next none)) : Kept limiter hash key attempts t := by
  have shared : t.shared = s.shared := by rw [world]; rfl
  have stage := outstanding ▸ kept.stage i
  refine kept.call_quiet outstanding process (fun _ flies => ?_) (fun mine owing => ?_) ?_ ?_ ?_
  · rw [stage_fails stage] at flies
    cases flies
  · have reports := stage_owes stage owing
    subst reports
    have reported := (seen _ next outstanding mine).1
    cases reported
  all_goals rw [shared]

theorem stage_login (attempt : Attempt) :
    Stage attempt (login attempt.serving attempt.input) ∧ underway (login attempt.serving attempt.input) = false := by
  cases serves : attempt.serving.localLogin with
  | true =>
    rw [login_eq _ serves]
    exact ⟨.asking,rfl⟩
  | false =>
    simp only [login,serves,Bool.not_false,if_true]
    exact ⟨.ending _ (.done _),rfl⟩

/-- What a run keeps. -/
theorem kept_run {db : Accounts} {instant : Nat} {s : State ι}
    (reach : Transition.Reaches (step limiter backend) (Seen limiter hash key attempts) (start attempts (started db instant)) s) :
    Kept limiter hash key attempts s := by
  refine reach.invariant ?_ ⟨fun i => (stage_login (attempts i)).1,⟨0,AtMost.zero ?_,Nat.zero_le _⟩,
    ⟨0,AtLeast.zero _,Nat.le_refl 0⟩,fun since => Nat.zero_le _⟩
  · intro s action t kept seen taken
    cases action with
    | outside event =>
      cases taken
      exact kept.quiet kept.stage (fun _ => id) (fun _ => id) rfl rfl (Nat.le_add_right _ _)
    | call i fails =>
      obtain ⟨request,next,outstanding,world,process⟩ := step_call taken
      by_cases mine : (attempts i).key = key
      · cases fails with
        | true => exact kept.fails outstanding seen world process
        | false => exact kept.made outstanding mine seen world process
      · refine kept.elsewhere outstanding mine ?_ world process
        rintro password encodedHash rfl same
        exact mine ((seen _ next outstanding).mp same)
  · rintro i ⟨_,flies⟩
    exact Bool.false_ne_true ((stage_login (attempts i)).2.symm.trans flies)

/-- Where the limiter sees every login of an account, no window holds more wrong passwords compared
with its hash than the limit, since its last success. -/
theorem logins_limited (limiter : LoginRateLimiter) (backend : Backend) (hash key : String) (attempts : ι → Attempt)
    (db : Accounts) (instant : Nat) {s : State ι}
    (reach : Transition.Reaches (step limiter backend) (Seen limiter hash key attempts) (start attempts (started db instant)) s) :
    Limited limiter hash key s.shared := (kept_run reach).limited

end Runs

/-- A database that takes `é` for `e` and capital letters for small ones. -/
def foldName (name : String) : List Char := name.toList.map fun c => if c = 'é' then 'e' else c.toLower

def foldingBackend : Backend := ⟨fun stored given => foldName stored = foldName given,
  fun password encodedHash => password = encodedHash,fun secret _ => some secret⟩

def userRow (id : Int) : UserRow := ⟨id,"user","hash","user",false,0,none,false,none,false⟩

theorem userRow_id (id : Int) : (userRow id).id = id := rfl

def oneUser : Accounts where
  clock := 0
  users := Table.empty.insert userRow userRow_id
  sessions := fun _ => none
  resetTokens := fun _ => none
  emailTokens := fun _ => none
  loginStates := fun _ => none
  challenges := Challenges.empty

def wrongLogin (username : String) : Attempt :=
  ⟨⟨⟨true,id,100,"session","csrf"⟩,false,"dummy","challenge"⟩,⟨username,"wrong"⟩⟩

def limitOne : LoginRateLimiter := ⟨1,10,by decide,by decide⟩

def limitTwo : LoginRateLimiter := ⟨2,10,by decide,by decide⟩

/-- The calls of a login with a wrong password, up to the limiter. -/
def wrongCalls {ι : Type} (i : ι) : List (Action ι (Nat × Int)) := List.replicate 4 (.call i false)

/-- One wrong password after another. -/
theorem logins_limited_in_turn : ∃ s : State Bool, Transition.exec (step limitTwo foldingBackend)
      (start (fun _ => wrongLogin "user") (started oneUser 0)) (wrongCalls true ++ wrongCalls false) = some s ∧
    wrongs "hash" "user" s.shared.notes = [0,0] ∧ Limited limitTwo "hash" "user" s.shared := by
  obtain ⟨s,ran⟩ : ∃ s, Transition.exec (step limitTwo foldingBackend)
      (start (fun _ : Bool => wrongLogin "user") (started oneUser 0)) (wrongCalls true ++ wrongCalls false) = some s := ⟨_,rfl⟩
  have compared := congrArg (Option.map fun s => wrongs "hash" "user" s.shared.notes) ran
  refine ⟨s,ran,(Option.some.inj compared).symm,
    logins_limited limitTwo foldingBackend "hash" "user" (fun _ => wrongLogin "user") oneUser 0 (Transition.reaches_of_exec ran ?_)⟩
  iterate 2
    refine ⟨?_,?_⟩
    · rintro _ _ ⟨⟩ _ _
      refine ⟨?_,fun _ => ⟨0,AtMost.zero ?_,by decide⟩⟩
      · rintro window ⟨⟩ ⟨⟩
      · rintro (_ | _) ⟨_,⟨⟩⟩
    rintro _ ⟨⟩
    refine ⟨?_,?_⟩
    · rintro _ _ ⟨⟩
      trivial
    rintro _ ⟨⟩
    refine ⟨?_,?_⟩
    · rintro _ _ ⟨⟩
      exact ⟨fun _ => rfl,fun _ => rfl⟩
    rintro _ ⟨⟩
    refine ⟨?_,?_⟩
    · rintro _ _ ⟨⟩ _
      refine ⟨rfl,?_⟩
      rintro window ⟨⟩ ⟨⟩
    rintro _ ⟨⟩
  trivial

/-- More wrong passwords than allowed: by logins at once, by two spellings, and where the window rolls
over. -/
theorem limit_exceeded :
    (∃ s : State Nat, Transition.exec (step limitOne foldingBackend)
        (start (fun _ => wrongLogin "user") (started oneUser 0))
        [.call 0 false,.call 1 false,.call 0 false,.call 1 false,.call 0 false,.call 1 false] = some s ∧
      ¬Limited limitOne "hash" "user" s.shared) ∧
    (∃ s : State Nat, Transition.exec (step limitOne foldingBackend)
        (start (fun i => wrongLogin (if i = 0 then "user" else "usér")) (started oneUser 0))
        (wrongCalls 0 ++ wrongCalls 1) = some s ∧ ¬Limited limitOne "hash" "user" s.shared) ∧
    ∃ s : State Nat, Transition.exec (step limitTwo foldingBackend)
        (start (fun _ => wrongLogin "user") (started oneUser 0))
        (wrongCalls 0 ++ [.outside (9,0)] ++ wrongCalls 1 ++ [.outside (1,0)] ++ wrongCalls 2 ++ wrongCalls 3) = some s ∧
      ¬Limited limitTwo "hash" "user" s.shared := by
  refine ⟨⟨_,rfl,fun limited => ?_⟩,⟨_,rfl,fun limited => ?_⟩,⟨_,rfl,fun limited => ?_⟩⟩
  · exact absurd (limited 0) (by decide)
  · exact absurd (limited 0) (by decide)
  · exact absurd (limited 9) (by decide)

end Qdrust.Account.LoginLimit
