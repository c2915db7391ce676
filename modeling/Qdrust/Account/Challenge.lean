import Qdrust.Account.LoginTotp

/-! Logins that present one challenge at once. A ledger says what the challenge is for:
a bounded number of comparisons, one of which may be right. -/
namespace Qdrust.Account.Challenge
open Library Concurrent

/-- How far a request is that compared a code. -/
inductive Phase where
  | wrong
  | right
  | counted
  | burning
deriving DecidableEq

/-- A challenge with its attempts while it is stored, the comparisons made for it and the
request whose comparison is not recorded yet. -/
structure Ledger (ι : Type) where
  stored : Option Int
  compared : Nat
  opened : Option (ι × Phase)
  winner : Option ι
  burned : Bool

namespace Ledger

variable {ι : Type}

inductive Step : Ledger ι → Ledger ι → Prop
  | compare (l : Ledger ι) (i : ι) (valid : Bool) (free : l.opened = none) (there : l.stored ≠ none) :
      Step l { l with
        compared := l.compared + 1
        opened := some (i,if valid then .right else .wrong)
        winner := if valid then some i else l.winner }
  | count (l : Ledger ι) (i : ι) (turn : l.opened = some (i,.wrong)) :
      Step l { l with stored := l.stored.map (· + 1), opened := some (i,.counted) }
  | keep (l : Ledger ι) (i : ι) (turn : l.opened = some (i,.counted)) (few : ∀ n, l.stored = some n → n < totpMaxAttempts) :
      Step l { l with opened := none }
  | burn (l : Ledger ι) (i : ι) (n : Int) (turn : l.opened = some (i,.counted)) (there : l.stored = some n)
      (many : totpMaxAttempts ≤ n) : Step l { l with opened := some (i,.burning), burned := true }
  | close (l : Ledger ι) (i : ι) (phase : Phase) (turn : l.opened = some (i,phase)) (last : phase = .right ∨ phase = .burning) :
      Step l { l with stored := none, opened := none }
  | drop (l : Ledger ι) : Step l { l with stored := none }

/-- What the stored attempts say of the comparisons. -/
def Counts (l : Ledger ι) (attempts : Int) : Prop :=
  match l.opened with
  | none => attempts = l.compared ∧ (l.compared : Int) < totpMaxAttempts
  | some (_,.wrong) => attempts + 1 = l.compared
  | some (_,.counted) => attempts = l.compared
  | some _ => True

structure Sound (l : Ledger ι) : Prop where
  bounded : (l.compared : Int) ≤ totpMaxAttempts
  counts : ∀ attempts, l.stored = some attempts → l.Counts attempts
  won : ∀ i, l.winner = some i → l.opened = some (i,.right) ∨ l.opened = none ∧ l.stored = none
  lost : l.burned = true → (∃ i, l.opened = some (i,.burning)) ∨ l.opened = none ∧ l.stored = none
  either : l.burned = true → l.winner = none

theorem sound_start : Sound (⟨some 0,0,none,none,false⟩ : Ledger ι) := by
  refine ⟨by change (0 : Int) ≤ 5; decide,?_,nofun,nofun,nofun⟩
  rintro _ ⟨⟩
  exact ⟨rfl,by change (0 : Int) < 5; decide⟩

/-- Nothing is decided where no request that won or burned the challenge can be. -/
theorem Sound.undecided {l : Ledger ι} (sound : Sound l) (right : ∀ i, l.opened ≠ some (i,.right))
    (burning : ∀ i, l.opened ≠ some (i,.burning)) (there : l.opened = none → l.stored ≠ none) :
    l.winner = none ∧ l.burned = false := by
  constructor
  · by_contra some
    obtain ⟨i,winner⟩ := Option.ne_none_iff_exists'.mp some
    rcases sound.won i winner with busy | ⟨free,gone⟩
    · exact right i busy
    · exact there free gone
  · by_contra burned
    rcases sound.lost (eq_true_of_ne_false burned) with ⟨i,busy⟩ | ⟨free,gone⟩
    · exact burning i busy
    · exact there free gone

/-- One step keeps the ledger sound. -/
theorem Step.sound {l l' : Ledger ι} (step : Step l l') (sound : Sound l) : Sound l' := by
  cases step with
  | compare i valid free there =>
    obtain ⟨nobody,fine⟩ := sound.undecided (by simp [free]) (by simp [free]) fun _ => there
    obtain ⟨attempts,stored⟩ := Option.ne_none_iff_exists'.mp there
    have few := sound.counts attempts stored
    simp only [Counts,free] at few
    refine ⟨by push_cast; omega,?_,?_,by simp [fine],by simp [fine]⟩
    · intro attempts' stored'
      cases stored.symm.trans stored'
      cases valid with
      | true => trivial
      | false =>
        simp only [Counts,Bool.false_eq_true,if_false]
        push_cast
        omega
    · intro j winner
      cases valid with
      | true =>
        cases winner
        exact .inl rfl
      | false =>
        cases nobody.symm.trans winner
  | count i turn =>
    obtain ⟨nobody,fine⟩ := sound.undecided (by simp [turn]) (by simp [turn]) (by simp [turn])
    refine ⟨sound.bounded,?_,by simp [nobody],by simp [fine],by simp [fine]⟩
    intro attempts' stored'
    obtain ⟨attempts,stored,rfl⟩ := Option.map_eq_some_iff.mp stored'
    have before := sound.counts attempts stored
    simp only [Counts,turn] at before
    simpa only [Counts] using before
  | keep i turn few =>
    obtain ⟨nobody,fine⟩ := sound.undecided (by simp [turn]) (by simp [turn]) (by simp [turn])
    refine ⟨sound.bounded,?_,by simp [nobody],by simp [fine],by simp [fine]⟩
    intro attempts stored
    have before := sound.counts attempts stored
    simp only [Counts,turn] at before
    have bound := few attempts stored
    simp only [Counts]
    omega
  | burn i n turn there many =>
    obtain ⟨nobody,_⟩ := sound.undecided (by simp [turn]) (by simp [turn]) (by simp [turn])
    exact ⟨sound.bounded,fun _ _ => trivial,by simp [nobody],fun _ => .inl ⟨i,rfl⟩,fun _ => nobody⟩
  | close i phase turn last =>
    exact ⟨sound.bounded,nofun,fun _ _ => .inr ⟨rfl,rfl⟩,fun _ => .inr ⟨rfl,rfl⟩,sound.either⟩
  | drop =>
    refine ⟨sound.bounded,nofun,?_,?_,sound.either⟩
    · intro j winner
      exact (sound.won j winner).imp id fun ⟨free,_⟩ => ⟨free,rfl⟩
    · intro burned
      exact (sound.lost burned).imp id fun ⟨free,_⟩ => ⟨free,rfl⟩

end Ledger

variable {ι : Type} [DecidableEq ι]

abbrev Past (ι : Type) := List (Event ι Statement Statement.Answer)

abbrev World (ι : Type) := Concurrent.World ι Statement Statement.Answer Accounts

abbrev State (ι : Type) := Concurrent.State ι Statement Statement.Answer Accounts LoginReply

/-- What happens beside the logins: time passes, users and sessions change and challenges
are dropped. -/
inductive Elsewhere where
  | time (now : Int)
  | others (users : Table UserRow UserRow.id) (sessions : Keyed SessionRow) (dropped : ChallengeRow → Bool)

def elsewhere : Elsewhere → Accounts → Option Accounts
  | .time now,db => some { db with clock := now }
  | .others users sessions dropped,db => some { db with users, sessions, challenges := db.challenges.delete dropped }

def start (logins : ι → Serving × TotpLogin) (db : Accounts) : State ι :=
  State.start db fun i => loginTotp (logins i).1 (logins i).2

abbrev step (backend : Backend) (s : State ι) (action : Action ι Elsewhere) : Option (State ι) :=
  Concurrent.step (accounts backend) elsewhere s action

/-- All logins present the challenge stored under one hash. -/
def Presents (logins : ι → Serving × TotpLogin) (hash : String) : Prop :=
  ∀ i, (logins i).1.tokenHash (logins i).2.challenge = hash

/-- A code was compared with a secret. -/
def compares : Event ι Statement Statement.Answer → Bool
  | ⟨_,.verifyTotp _ _ _,some (some _)⟩ => true
  | _ => false

/-- A request compared a right code for the secret. -/
def Validated (past : Past ι) (i : ι) (secret : String) : Prop :=
  ∃ code now, ⟨i,.verifyTotp secret code now,some (some true)⟩ ∈ past

def Issued (past : Past ι) (i : ι) : Prop := ∃ token session, ⟨i,.insertSession token session,some ()⟩ ∈ past

/-- Too many attempts were counted. -/
def Burned (past : Past ι) : Prop := ∃ i id n, ⟨i,.totpAttempts id,some (some n)⟩ ∈ past ∧ totpMaxAttempts ≤ n

def Answered (world : World ι) (i : ι) (request : Statement) : Prop := ∃ answer, ⟨i,request,some answer⟩ ∈ world.past

def secretOf (users : Table UserRow UserRow.id) (userId : Int) : Option String := (users.find userId).bind UserRow.totpSecret

def Enabled (users : Table UserRow UserRow.id) (userId : Int) : Prop := ∃ u, users.find userId = some u ∧ u.disabled = false

/-- The challenge and the account still allow the login. -/
structure Allows (row : ChallengeRow) (world : World ι) (i : ι) : Prop where
  inTime : world.shared.clock < row.expiresAt
  kept : ¬Burned world.past
  enabled : Enabled world.shared.users row.userId
  factor : ∃ secret, secretOf world.shared.users row.userId = some secret ∧ Validated world.past i secret

/-- One session at most is issued, a bounded number of codes is compared, and a session is
issued only while the challenge and the account allow it. -/
structure ChallengeSound (row : ChallengeRow) (s : State ι) : Prop where
  single : ∀ i j, Issued s.past i → Issued s.past j → i = j
  compared : (s.past.countP compares : Int) ≤ totpMaxAttempts
  allowed : ∀ i token session next, s.process i = .call (.insertSession token session) next → Allows row s.toWorld i

/-- What the last statement of a request leaves to be recorded. -/
def phaseOfEvent : Event ι Statement Statement.Answer → Option Phase
  | ⟨_,.verifyTotp _ _ _,some (some true)⟩ => some .right
  | ⟨_,.verifyTotp _ _ _,some (some false)⟩ => some .wrong
  | ⟨_,.countTotpAttempt _,some _⟩ => some .counted
  | ⟨_,.totpAttempts _,some (some n)⟩ => if totpMaxAttempts ≤ n then some .burning else none
  | _ => none

def phase (world : World ι) (i : ι) : Option Phase := (world.last i).bind phaseOfEvent

/-- A code is compared while the challenge is stored and no other comparison waits to be
recorded, what records one does not fail, and what a login has read of the clock and of the
account stays so until it ends. -/
def Undisturbed (hash : String) (row : ChallengeRow) (s : State ι) : Action ι Elsewhere → Prop
  | .call i true => phase s.toWorld i = none
  | .call i false => ∀ request next, s.process i = .call request next →
    match request with
    | .verifyTotp _ _ _ => s.shared.challenges.byHash hash ≠ none ∧ ∀ j, phase s.toWorld j = none
    | _ => True
  | .outside (.time now) => ∀ i, (s.process i).ended = false → Answered s.toWorld i .clock → now < row.expiresAt
  | .outside (.others users _ _) => ∀ i, (s.process i).ended = false →
    (Answered s.toWorld i (.userTotp row.userId) → secretOf users row.userId = secretOf s.shared.users row.userId) ∧
      (Answered s.toWorld i (.credentialsById row.userId) → Enabled users row.userId)

section Tracking

variable {hash : String} {row : ChallengeRow} {backend : Backend}

/-- A right code was compared. -/
def Won (past : Past ι) (i : ι) : Prop := ∃ secret, Validated past i secret

/-- The ledger of a world. -/
structure Tracks (hash : String) (world : World ι) (l : Ledger ι) : Prop where
  stored : l.stored = (world.shared.challenges.byHash hash).map ChallengeRow.attempts
  compared : l.compared = world.past.countP compares
  opened : ∀ j p, phase world j = some p ↔ l.opened = some (j,p)
  winner : ∀ j, Won world.past j ↔ l.winner = some j
  burned : Burned world.past ↔ l.burned = true

section Events

attribute [local simp] phaseOfEvent compares

omit [DecidableEq ι] in
theorem phase_right {event : Event ι Statement Statement.Answer} :
    phaseOfEvent event = some .right ↔
      ∃ i secret code now, event = ⟨i,.verifyTotp secret code now,some (some true)⟩ := by
  obtain ⟨i,request,answer⟩ := event
  cases request with
  | verifyTotp secret code now => rcases answer with _ | _ | _ | _ <;> simp [phaseOfEvent]
  | countTotpAttempt id => cases answer <;> simp [phaseOfEvent]
  | totpAttempts id =>
    rcases answer with _ | _ | n <;> simp only [phaseOfEvent]
    · simp
    · simp
    · split <;> simp
  | _ => simp [phaseOfEvent]

omit [DecidableEq ι] in
theorem phase_burning {event : Event ι Statement Statement.Answer} :
    phaseOfEvent event = some .burning ↔
      ∃ i id n, event = ⟨i,.totpAttempts id,some (some n)⟩ ∧ totpMaxAttempts ≤ n := by
  obtain ⟨i,request,answer⟩ := event
  cases request with
  | verifyTotp secret code now => rcases answer with _ | _ | _ | _ <;> simp [phaseOfEvent]
  | countTotpAttempt id => cases answer <;> simp [phaseOfEvent]
  | totpAttempts id =>
    rcases answer with _ | _ | n <;> simp only [phaseOfEvent]
    · simp
    · simp
    · split
      · next many => simp [many]
      · next few => simp [few]
  | _ => simp [phaseOfEvent]

omit [DecidableEq ι] in
theorem compares_iff (event : Event ι Statement Statement.Answer) :
    compares event = true ↔ phaseOfEvent event = some .right ∨ phaseOfEvent event = some .wrong := by
  obtain ⟨i,request,answer⟩ := event
  cases request with
  | verifyTotp secret code now => rcases answer with _ | _ | _ | _ <;> simp [compares,phaseOfEvent]
  | countTotpAttempt id => cases answer <;> simp [compares,phaseOfEvent]
  | totpAttempts id =>
    rcases answer with _ | _ | n <;> simp only [compares,phaseOfEvent]
    · simp
    · simp
    · split <;> simp
  | _ => simp [compares,phaseOfEvent]

end Events

omit [DecidableEq ι] in
theorem won_cons (event : Event ι Statement Statement.Answer) (past : Past ι) (j : ι) :
    Won (event :: past) j ↔ (event.process = j ∧ phaseOfEvent event = some .right) ∨ Won past j := by
  constructor
  · rintro ⟨secret,code,now,there⟩
    rcases List.mem_cons.mp there with rfl | earlier
    · exact .inl ⟨rfl,rfl⟩
    · exact .inr ⟨secret,code,now,earlier⟩
  · rintro (⟨rfl,right⟩ | ⟨secret,code,now,earlier⟩)
    · obtain ⟨i,secret,code,now,rfl⟩ := phase_right.mp right
      exact ⟨secret,code,now,List.mem_cons_self⟩
    · exact ⟨secret,code,now,List.mem_cons_of_mem _ earlier⟩

omit [DecidableEq ι] in
theorem burned_cons (event : Event ι Statement Statement.Answer) (past : Past ι) :
    Burned (event :: past) ↔ phaseOfEvent event = some .burning ∨ Burned past := by
  constructor
  · rintro ⟨i,id,n,there,many⟩
    rcases List.mem_cons.mp there with rfl | earlier
    · exact .inl (phase_burning.mpr ⟨i,id,n,rfl,many⟩)
    · exact .inr ⟨i,id,n,earlier,many⟩
  · rintro (burning | ⟨i,id,n,earlier,many⟩)
    · obtain ⟨i,id,n,rfl,many⟩ := phase_burning.mp burning
      exact ⟨i,id,n,List.mem_cons_self,many⟩
    · exact ⟨i,id,n,List.mem_cons_of_mem _ earlier,many⟩

theorem phase_self (world : World ι) (i : ι) (request : Statement) (fails : Bool) :
    phase (world.perform (accounts backend) i request fails) i =
      phaseOfEvent ⟨i,request,answer (accounts backend) world.shared request fails⟩ := by
  simp [phase]

theorem phase_other (world : World ι) {i j : ι} (differs : j ≠ i) (request : Statement) (fails : Bool) :
    phase (world.perform (accounts backend) i request fails) j = phase world j := by
  rw [phase,last_other world differs,phase]

/-- A call that leaves nothing to be recorded, by a request that had nothing to record. -/
theorem Tracks.quiet {world : World ι} {l : Ledger ι} (tracks : Tracks hash world l) {i : ι} {request : Statement}
    {fails : Bool} (closed : phase world i = none)
    (plain : phaseOfEvent ⟨i,request,answer (accounts backend) world.shared request fails⟩ = none)
    (same : (world.perform (accounts backend) i request fails).shared.challenges.byHash hash =
      world.shared.challenges.byHash hash) : Tracks hash (world.perform (accounts backend) i request fails) l := by
  constructor
  · rw [same]
    exact tracks.stored
  · rw [past_perform,List.countP_cons_of_neg]
    · exact tracks.compared
    · rw [compares_iff,plain]
      simp
  · intro j p
    by_cases mine : j = i
    · subst mine
      rw [phase_self,plain,← tracks.opened,closed]
    · rw [phase_other world mine]
      exact tracks.opened j p
  · intro j
    rw [past_perform,won_cons,plain]
    simpa using tracks.winner j
  · rw [past_perform,burned_cons,plain]
    simpa using tracks.burned

/-- The phase of the only request that may have something to record. -/
theorem opened_active {world : World ι} {i : ι} (alone : ∀ j, j ≠ i → phase world j = none) (request : Statement)
    (fails : Bool) (j : ι) (p : Phase) :
    phase (world.perform (accounts backend) i request fails) j = some p ↔
      (phaseOfEvent ⟨i,request,answer (accounts backend) world.shared request fails⟩).map (i,·) = some (j,p) := by
  by_cases mine : j = i
  · subst mine
    rw [phase_self]
    simp
  · rw [phase_other world mine,alone j mine]
    simp [Ne.symm mine]

/-- A call of the only request that may have something to record. -/
theorem Tracks.active {world : World ι} {l : Ledger ι} (tracks : Tracks hash world l) {i : ι} {request : Statement}
    {fails : Bool} (alone : ∀ j, j ≠ i → phase world j = none) (event : Event ι Statement Statement.Answer)
    (made : event = ⟨i,request,answer (accounts backend) world.shared request fails⟩) (l' : Ledger ι)
    (stored : l'.stored =
      ((world.perform (accounts backend) i request fails).shared.challenges.byHash hash).map ChallengeRow.attempts)
    (compared : l'.compared = l.compared + if compares event then 1 else 0)
    (opened : l'.opened = (phaseOfEvent event).map (i,·))
    (winner : ∀ j, l'.winner = some j ↔ (i = j ∧ phaseOfEvent event = some .right) ∨ l.winner = some j)
    (burned : l'.burned = true ↔ phaseOfEvent event = some .burning ∨ l.burned = true) :
    Tracks hash (world.perform (accounts backend) i request fails) l' := by
  subst made
  constructor
  · exact stored
  · rw [past_perform,List.countP_cons,compared,tracks.compared]
  · intro j p
    rw [opened]
    exact opened_active alone request fails j p
  · intro j
    rw [past_perform,won_cons,winner,tracks.winner]
  · rw [past_perform,burned_cons,burned,tracks.burned]

theorem Tracks.free {world : World ι} {l : Ledger ι} (tracks : Tracks hash world l) (idle : ∀ j, phase world j = none) :
    l.opened = none := by
  by_contra some
  obtain ⟨⟨j,p⟩,opened⟩ := Option.ne_none_iff_exists'.mp some
  have busy := (tracks.opened j p).mpr opened
  rw [idle j] at busy
  cases busy

theorem Tracks.alone {world : World ι} {l : Ledger ι} (tracks : Tracks hash world l) {i : ι} {p : Phase}
    (opened : l.opened = some (i,p)) : ∀ j, j ≠ i → phase world j = none := by
  intro j differs
  by_contra some
  obtain ⟨p',busy⟩ := Option.ne_none_iff_exists'.mp some
  have both := opened.symm.trans ((tracks.opened j p').mp busy)
  cases both
  exact differs rfl

/-- A row under the hash or under the id of the challenge is the challenge's. -/
def SameRow (hash : String) (row : ChallengeRow) (challenges : Challenges) : Prop :=
  ∀ r ∈ challenges.table.rows, r.id = row.id ∨ r.tokenHash = hash →
    r.id = row.id ∧ r.tokenHash = hash ∧ r.userId = row.userId ∧ r.expiresAt = row.expiresAt

theorem sameRow_found {challenges : Challenges} (found : challenges.byHash hash = some row) : SameRow hash row challenges := by
  obtain ⟨there,rfl⟩ := Challenges.byHash_eq_some.mp found
  intro r member same
  have one : r = row := by
    rcases same with id | key
    · exact challenges.table.key_unique member there id
    · exact List.inj_on_of_nodup_map challenges.unique member there key
  subst one
  exact ⟨rfl,rfl,rfl,rfl⟩

theorem sameRow_count {challenges : Challenges} (same : SameRow hash row challenges) (id : Int) :
    SameRow hash row (challenges.count id) := by
  intro r member
  obtain ⟨old,there,rfl⟩ := List.mem_map.mp member
  have before := same old there
  dsimp only
  split
  · exact before
  · exact before

theorem sameRow_delete {challenges : Challenges} (same : SameRow hash row challenges) (chosen : ChallengeRow → Bool) :
    SameRow hash row (challenges.delete chosen) := fun r member => same r ((Table.mem_delete _).mp member).1

theorem byHash_count {challenges : Challenges} (same : SameRow hash row challenges) :
    ((challenges.count row.id).byHash hash).map ChallengeRow.attempts =
      ((challenges.byHash hash).map ChallengeRow.attempts).map (· + 1) := by
  cases found : challenges.byHash hash with
  | none =>
    cases after : (challenges.count row.id).byHash hash with
    | none => rfl
    | some r =>
      obtain ⟨member,key⟩ := Challenges.byHash_eq_some.mp after
      obtain ⟨old,there,rfl⟩ := List.mem_map.mp member
      have key' : old.tokenHash = hash := by
        dsimp only at key
        split at key <;> exact key
      rw [Challenges.byHash_eq_some.mpr ⟨there,key'⟩] at found
      cases found
  | some r =>
    obtain ⟨there,key⟩ := Challenges.byHash_eq_some.mp found
    have mine := (same r there (.inr key)).1
    have after : (challenges.count row.id).byHash hash = some { r with attempts := r.attempts + 1 } := by
      refine Challenges.byHash_eq_some.mpr ⟨List.mem_map.mpr ⟨r,there,?_⟩,key⟩
      rw [if_pos (decide_eq_true mine)]
    rw [after]
    rfl

theorem byHash_delete_id {challenges : Challenges} (same : SameRow hash row challenges) :
    (challenges.delete fun r => r.id = row.id).byHash hash = none := by
  by_contra some
  obtain ⟨r,found⟩ := Option.ne_none_iff_exists'.mp some
  obtain ⟨there,key⟩ := Challenges.byHash_eq_some.mp found
  obtain ⟨old,kept⟩ := (Table.mem_delete _).mp there
  simp [(same r old (.inr key)).1] at kept

theorem byHash_delete (challenges : Challenges) (chosen : ChallengeRow → Bool) :
    (challenges.delete chosen).byHash hash = none ∨ (challenges.delete chosen).byHash hash = challenges.byHash hash := by
  cases found : (challenges.delete chosen).byHash hash with
  | none => exact .inl rfl
  | some r =>
    obtain ⟨there,key⟩ := Challenges.byHash_eq_some.mp found
    exact .inr (Challenges.byHash_eq_some.mpr ⟨((Table.mem_delete _).mp there).1,key⟩).symm

theorem find_id {challenges : Challenges} (same : SameRow hash row challenges) :
    challenges.table.find row.id = challenges.byHash hash := by
  apply Option.ext
  intro r
  rw [Table.find_eq_some,Challenges.byHash_eq_some]
  constructor
  · rintro ⟨there,id⟩
    exact ⟨there,(same r there (.inl id)).2.1⟩
  · rintro ⟨there,key⟩
    exact ⟨there,(same r there (.inr key)).1⟩

end Tracking

section Stages

variable {hash : String} {row : ChallengeRow} {backend : Backend}

/-- The challenge, the sessions issued for it and its ledger. -/
structure Ledgered (hash : String) (row : ChallengeRow) (world : World ι) : Prop where
  same : SameRow hash row world.shared.challenges
  issued : ∀ i, Issued world.past i → Won world.past i
  ledger : ∃ l : Ledger ι, l.Sound ∧ Tracks hash world l

/-- A login has found the challenge in time. -/
def InTime (row : ChallengeRow) (world : World ι) (i : ι) : Prop :=
  Answered world i .clock ∧ world.shared.clock < row.expiresAt

/-- A login has read the secret. -/
def SecretRead (row : ChallengeRow) (world : World ι) (i : ι) (secret : String) : Prop :=
  Answered world i (.userTotp row.userId) ∧ secretOf world.shared.users row.userId = some secret

/-- A login's code was right for the secret the account still has. -/
def Passed (row : ChallengeRow) (world : World ι) (i : ι) : Prop :=
  InTime row world i ∧ ∃ secret, SecretRead row world i secret ∧ Validated world.past i secret

/-- A login has found the account enabled. -/
def Admitted (row : ChallengeRow) (world : World ι) (i : ι) : Prop :=
  Answered world i (.credentialsById row.userId) ∧ Enabled world.shared.users row.userId

/-- What a login has read still holds for it. -/
structure Carries (row : ChallengeRow) (world world' : World ι) (i : ι) : Prop where
  inTime : InTime row world i → InTime row world' i
  secretRead : ∀ secret, SecretRead row world i secret → SecretRead row world' i secret
  validated : ∀ secret, Validated world.past i secret → Validated world'.past i secret
  admitted : Admitted row world i → Admitted row world' i

/-- The challenge as a login reads it. -/
def presented (row : ChallengeRow) (attempts : Int) : TotpChallenge := ⟨row.id,row.userId,attempts,row.expiresAt⟩

/-- What a login still has to do, what it has to record, and what it has read. -/
inductive Stage (hash : String) (row : ChallengeRow) (i : ι) (world : World ι) : Calls LoginReply → Prop
  | reading (serving : Serving) (code : String) (closed : phase world i = none) :
      Stage hash row i world (.call (.totpChallengeByHash hash) (Routine.answered (afterChallenge serving code)))
  | checking (serving : Serving) (code : String) (attempts : Int) (closed : phase world i = none) :
      Stage hash row i world (.call .clock (Routine.answered (afterClock serving code (presented row attempts))))
  | expired (next : Option Nat → Calls LoginReply) (rest : ∀ answer, (next answer).ended = true)
      (closed : phase world i = none) : Stage hash row i world (.call (.deleteTotpChallenge row.id) next)
  | totp (serving : Serving) (code : String) (attempts : Int) (closed : phase world i = none) (inTime : InTime row world i) :
      Stage hash row i world (.call (.userTotp row.userId) (Routine.answered (afterTotp serving code (presented row attempts))))
  | timing (serving : Serving) (code : String) (attempts : Int) (secret : String)
      (closed : phase world i = none) (inTime : InTime row world i) (read : SecretRead row world i secret) :
      Stage hash row i world (.call .clock (Routine.answered fun now =>
        .call (.verifyTotp secret code (max now 0)) (Routine.answered (afterVerify serving (presented row attempts)))))
  | verifying (serving : Serving) (code : String) (attempts : Int) (secret : String) (now : Int)
      (closed : phase world i = none) (inTime : InTime row world i)
      (read : SecretRead row world i secret) :
      Stage hash row i world (.call (.verifyTotp secret code now)
        (Routine.answered (afterVerify serving (presented row attempts))))
  | counting (turn : phase world i = some .wrong) :
      Stage hash row i world (.call (.countTotpAttempt row.id) (Routine.answered fun _ =>
        .call (.totpAttempts row.id) (Routine.answered (afterAttempts row.id))))
  | attempting (turn : phase world i = some .counted) :
      Stage hash row i world (.call (.totpAttempts row.id) (Routine.answered (afterAttempts row.id)))
  | burning (turn : phase world i = some .burning) :
      Stage hash row i world (.call (.deleteTotpChallenge row.id) (Routine.answered fun _ =>
        .call (.recordAudit "auth.totp_challenge_burned") (Routine.answered fun _ => .done (.error invalidTotpCode))))
  | auditing (action : String) (next : Option Unit → Calls LoginReply) (rest : ∀ answer, (next answer).ended = true)
      (closed : phase world i = none) : Stage hash row i world (.call (.recordAudit action) next)
  | admitting (serving : Serving) (turn : phase world i = some .right) (passed : Passed row world i) :
      Stage hash row i world (.call (.deleteTotpChallenge row.id) (Routine.answered fun _ =>
        .call (.getUser row.userId) (Routine.answered (afterUser serving))))
  | user (serving : Serving) (closed : phase world i = none) (passed : Passed row world i) :
      Stage hash row i world (.call (.getUser row.userId) (Routine.answered (afterUser serving)))
  | loginAudit (serving : Serving) (closed : phase world i = none) (passed : Passed row world i) :
      Stage hash row i world (.call (.recordAudit "auth.login") (Routine.answered fun _ => sessionCalls serving row.userId))
  | credentials (serving : Serving) (closed : phase world i = none) (passed : Passed row world i) :
      Stage hash row i world (.call (.credentialsById row.userId) (Routine.answered (afterCredentials serving row.userId)))
  | sessionClock (serving : Serving) (version : Int) (closed : phase world i = none) (passed : Passed row world i)
      (admitted : Admitted row world i) :
      Stage hash row i world (.call .clock (Routine.answered (afterSessionClock serving row.userId version)))
  | inserting (token : String) (session : SessionRow) (next : Option Unit → Calls LoginReply)
      (rest : ∀ answer, (next answer).ended = true) (closed : phase world i = none) (passed : Passed row world i)
      (admitted : Admitted row world i) : Stage hash row i world (.call (.insertSession token session) next)
  | ceased (action : Calls LoginReply) (ended : action.ended = true) (closed : phase world i = none) :
      Stage hash row i world action

omit [DecidableEq ι] in
theorem Carries.passed {world world' : World ι} {i : ι} (carries : Carries row world world' i) (passed : Passed row world i) :
    Passed row world' i := by
  obtain ⟨inTime,secret,read,validated⟩ := passed
  exact ⟨carries.inTime inTime,secret,carries.secretRead secret read,carries.validated secret validated⟩

/-- What happens elsewhere leaves a login where it is. -/
theorem stage_carry {world world' : World ι} {j : ι} {action : Calls LoginReply} (stage : Stage hash row j world action)
    (same : phase world' j = phase world j) (carries : action.ended = false → Carries row world world' j) :
    Stage hash row j world' action := by
  cases stage with
  | reading serving code closed => exact .reading serving code (same.trans closed)
  | checking serving code attempts closed => exact .checking serving code attempts (same.trans closed)
  | expired next rest closed => exact .expired next rest (same.trans closed)
  | totp serving code attempts closed inTime =>
    exact .totp serving code attempts (same.trans closed) ((carries rfl).inTime inTime)
  | timing serving code attempts secret closed inTime read =>
    exact .timing serving code attempts secret (same.trans closed) ((carries rfl).inTime inTime)
      ((carries rfl).secretRead secret read)
  | verifying serving code attempts secret now closed inTime read =>
    exact .verifying serving code attempts secret now (same.trans closed) ((carries rfl).inTime inTime)
      ((carries rfl).secretRead secret read)
  | counting turn => exact .counting (same.trans turn)
  | attempting turn => exact .attempting (same.trans turn)
  | burning turn => exact .burning (same.trans turn)
  | auditing action next rest closed => exact .auditing action next rest (same.trans closed)
  | admitting serving turn passed => exact .admitting serving (same.trans turn) ((carries rfl).passed passed)
  | user serving closed passed => exact .user serving (same.trans closed) ((carries rfl).passed passed)
  | loginAudit serving closed passed => exact .loginAudit serving (same.trans closed) ((carries rfl).passed passed)
  | credentials serving closed passed => exact .credentials serving (same.trans closed) ((carries rfl).passed passed)
  | sessionClock serving version closed passed admitted =>
    exact .sessionClock serving version (same.trans closed) ((carries rfl).passed passed) ((carries rfl).admitted admitted)
  | inserting token session next rest closed passed admitted =>
    exact .inserting token session next rest (same.trans closed) ((carries rfl).passed passed) ((carries rfl).admitted admitted)
  | ceased action ended closed => exact .ceased action ended (same.trans closed)

/-- No call of a login changes the clock or the users. -/
theorem stage_request {world : World ι} {i : ι} {request : Statement} {next : Option request.Answer → Calls LoginReply}
    (stage : Stage hash row i world (.call request next)) (db : Accounts) :
    (accounts backend request db).2.clock = db.clock ∧ (accounts backend request db).2.users = db.users := by
  cases stage with
  | ceased _ ended => cases ended
  | _ => exact ⟨rfl,rfl⟩

/-- A call that changes neither the clock nor the users. -/
theorem carries_perform {world : World ι} {i j : ι} {request : Statement} {fails : Bool}
    (kept : (accounts backend request world.shared).2.clock = world.shared.clock ∧
      (accounts backend request world.shared).2.users = world.shared.users) :
    Carries row world (world.perform (accounts backend) i request fails) j := by
  have clock : (world.perform (accounts backend) i request fails).shared.clock = world.shared.clock := by
    cases fails with
    | true => rfl
    | false => exact kept.1
  have users : (world.perform (accounts backend) i request fails).shared.users = world.shared.users := by
    cases fails with
    | true => rfl
    | false => exact kept.2
  have answered : ∀ request', Answered world j request' → Answered (world.perform (accounts backend) i request fails) j request' := by
    rintro request' ⟨answer,there⟩
    refine ⟨answer,?_⟩
    rw [past_perform]
    exact List.mem_cons_of_mem _ there
  constructor
  · rintro ⟨read,early⟩
    exact ⟨answered _ read,clock ▸ early⟩
  · rintro secret ⟨read,held⟩
    exact ⟨answered _ read,users ▸ held⟩
  · rintro secret ⟨code,now,there⟩
    refine ⟨code,now,?_⟩
    rw [past_perform]
    exact List.mem_cons_of_mem _ there
  · rintro ⟨read,enabled⟩
    exact ⟨answered _ read,users ▸ enabled⟩

def issuesSession : Statement → Bool
  | .insertSession _ _ => true
  | _ => false

theorem not_issued {request : Statement} {fails : Bool} {claim : Prop} (other : issuesSession request = false) :
    fails = false → ∀ token session, request = .insertSession token session → claim := by
  rintro _ token session rfl
  cases other

theorem issued_perform {world : World ι} (issued : ∀ j, Issued world.past j → Won world.past j) {i : ι} {request : Statement}
    {fails : Bool} (issue : fails = false → ∀ token session, request = .insertSession token session → Won world.past i) :
    ∀ j, Issued (world.perform (accounts backend) i request fails).past j →
      Won (world.perform (accounts backend) i request fails).past j := by
  rintro j ⟨token,session,there⟩
  rw [past_perform] at there ⊢
  refine (won_cons _ _ _).mpr (.inr ?_)
  rcases List.mem_cons.mp there with same | earlier
  · cases fails with
    | true =>
      cases same
    | false =>
      cases same
      exact issue rfl token session rfl
  · exact issued j ⟨token,session,earlier⟩

omit [DecidableEq ι] in
theorem phase_failed (i : ι) (request : Statement) : phaseOfEvent (⟨i,request,none⟩ : Event ι Statement Statement.Answer) = none := by
  cases request <;> rfl

/-- A call that leaves the challenges alone and nothing to be recorded. -/
theorem Ledgered.plain {world : World ι} (ledgered : Ledgered hash row world) {i : ι} {request : Statement} {fails : Bool}
    (closed : phase world i = none)
    (plain : phaseOfEvent ⟨i,request,answer (accounts backend) world.shared request fails⟩ = none)
    (same : (world.perform (accounts backend) i request fails).shared.challenges = world.shared.challenges)
    (issue : fails = false → ∀ token session, request = .insertSession token session → Won world.past i) :
    Ledgered hash row (world.perform (accounts backend) i request fails) := by
  obtain ⟨l,sound,tracks⟩ := ledgered.ledger
  refine ⟨?_,issued_perform ledgered.issued issue,l,sound,tracks.quiet closed plain ?_⟩
  · rw [same]
    exact ledgered.same
  · rw [same]

theorem Ledgered.fails {world : World ι} (ledgered : Ledgered hash row world) {i : ι} (request : Statement)
    (closed : phase world i = none) : Ledgered hash row (world.perform (accounts backend) i request true) :=
  ledgered.plain closed (phase_failed i request) rfl nofun

/-- A code is compared. -/
theorem Ledgered.compare {world : World ι} (ledgered : Ledgered hash row world) (i : ι) {secret code : String} {now : Int}
    {valid : Bool} (verdict : Totp.verify backend.totpCode secret code now = some valid)
    (there : world.shared.challenges.byHash hash ≠ none) (idle : ∀ j, phase world j = none) :
    Ledgered hash row (world.perform (accounts backend) i (.verifyTotp secret code now) false) := by
  obtain ⟨l,sound,tracks⟩ := ledgered.ledger
  have free := tracks.free idle
  have stored : l.stored ≠ none := by
    rw [tracks.stored]
    simpa using there
  obtain ⟨nobody,_⟩ := sound.undecided (by simp [free]) (by simp [free]) fun _ => stored
  refine ⟨ledgered.same,issued_perform ledgered.issued (not_issued rfl),_,(Ledger.Step.compare l i valid free stored).sound sound,?_⟩
  have made : (⟨i,.verifyTotp secret code now,some (some valid)⟩ : Event ι Statement Statement.Answer) =
      ⟨i,.verifyTotp secret code now,answer (accounts backend) world.shared (.verifyTotp secret code now) false⟩ := by
    rw [← verdict]
    rfl
  apply tracks.active (fun j _ => idle j) _ made
  · exact tracks.stored
  · cases valid <;> rfl
  · cases valid <;> rfl
  · intro j
    cases valid <;> simp [phaseOfEvent,nobody]
  · cases valid <;> simp [phaseOfEvent]

/-- A wrong code is counted. -/
theorem Ledgered.count {world : World ι} (ledgered : Ledgered hash row world) {i : ι} (turn : phase world i = some .wrong) :
    Ledgered hash row (world.perform (accounts backend) i (.countTotpAttempt row.id) false) := by
  obtain ⟨l,sound,tracks⟩ := ledgered.ledger
  have opened := (tracks.opened i .wrong).mp turn
  refine ⟨sameRow_count ledgered.same row.id,issued_perform ledgered.issued (not_issued rfl),_,
    (Ledger.Step.count l i opened).sound sound,?_⟩
  apply tracks.active (tracks.alone opened) _ rfl
  · exact (congrArg (Option.map (· + 1)) tracks.stored).trans (byHash_count ledgered.same).symm
  · rfl
  · rfl
  · intro j
    simp [phaseOfEvent,answer]
  · simp [phaseOfEvent,answer]

/-- The count is read back. -/
theorem Ledgered.attempts {world : World ι} (ledgered : Ledgered hash row world) {i : ι}
    (turn : phase world i = some .counted) :
    Ledgered hash row (world.perform (accounts backend) i (.totpAttempts row.id) false) := by
  obtain ⟨l,sound,tracks⟩ := ledgered.ledger
  have opened := (tracks.opened i .counted).mp turn
  have read : answer (accounts backend) world.shared (.totpAttempts row.id) false = some l.stored := by
    rw [tracks.stored,← find_id ledgered.same]
    rfl
  have made : (⟨i,.totpAttempts row.id,some l.stored⟩ : Event ι Statement Statement.Answer) =
      ⟨i,.totpAttempts row.id,answer (accounts backend) world.shared (.totpAttempts row.id) false⟩ := by rw [read]
  refine ⟨ledgered.same,issued_perform ledgered.issued (not_issued rfl),?_⟩
  by_cases many : ∃ n, l.stored = some n ∧ totpMaxAttempts ≤ n
  · obtain ⟨n,stored,many⟩ := many
    rw [stored] at made
    refine ⟨_,(Ledger.Step.burn l i n opened stored many).sound sound,tracks.active (tracks.alone opened) _ made _ ?_ ?_ ?_ ?_ ?_⟩
    · exact tracks.stored
    · rfl
    · simp [phaseOfEvent,many]
    · intro j
      simp [phaseOfEvent,many]
    · simp [phaseOfEvent,many]
  · have few : ∀ n, l.stored = some n → n < totpMaxAttempts := fun n stored =>
      Int.not_le.mp fun reached => many ⟨n,stored,reached⟩
    have none : phaseOfEvent (⟨i,.totpAttempts row.id,some l.stored⟩ : Event ι Statement Statement.Answer) = none := by
      cases stored : l.stored with
      | none => rfl
      | some n => exact if_neg (Int.not_le.mpr (few n stored))
    refine ⟨_,(Ledger.Step.keep l i opened few).sound sound,tracks.active (tracks.alone opened) _ made _ ?_ ?_ ?_ ?_ ?_⟩
    · exact tracks.stored
    · rfl
    · rw [none]
      rfl
    · intro j
      simp [none]
    · simp [none]

/-- The challenge is deleted, as burned or as used. -/
theorem Ledgered.close {world : World ι} (ledgered : Ledgered hash row world) {i : ι} {p : Phase}
    (turn : phase world i = some p) (last : p = .right ∨ p = .burning) :
    Ledgered hash row (world.perform (accounts backend) i (.deleteTotpChallenge row.id) false) := by
  obtain ⟨l,sound,tracks⟩ := ledgered.ledger
  have opened := (tracks.opened i p).mp turn
  refine ⟨sameRow_delete ledgered.same _,issued_perform ledgered.issued (not_issued rfl),_,
    (Ledger.Step.close l i p opened last).sound sound,?_⟩
  apply tracks.active (tracks.alone opened) _ rfl
  · exact (congrArg (Option.map ChallengeRow.attempts) (byHash_delete_id ledgered.same)).symm
  · rfl
  · rfl
  · intro j
    simp [phaseOfEvent]
  · simp [phaseOfEvent]

/-- The challenge is where it was, or is gone. -/
theorem Ledgered.elsewhere {world world' : World ι} (ledgered : Ledgered hash row world) (past : world'.past = world.past)
    (same : SameRow hash row world'.shared.challenges)
    (stored : world'.shared.challenges.byHash hash = none ∨
      world'.shared.challenges.byHash hash = world.shared.challenges.byHash hash) : Ledgered hash row world' := by
  obtain ⟨l,sound,tracks⟩ := ledgered.ledger
  have phases : ∀ j, phase world' j = phase world j := fun j => by simp only [phase,World.last,past]
  refine ⟨same,past ▸ ledgered.issued,?_⟩
  rcases stored with gone | there
  · refine ⟨_,(Ledger.Step.drop l).sound sound,?_⟩
    constructor
    · rw [gone]
      rfl
    · rw [past]
      exact tracks.compared
    · intro j p
      rw [phases]
      exact tracks.opened j p
    · rw [past]
      exact tracks.winner
    · rw [past]
      exact tracks.burned
  · refine ⟨l,sound,?_⟩
    constructor
    · rw [there]
      exact tracks.stored
    · rw [past]
      exact tracks.compared
    · intro j p
      rw [phases]
      exact tracks.opened j p
    · rw [past]
      exact tracks.winner
    · rw [past]
      exact tracks.burned

/-- A login that came too late deletes the challenge. -/
theorem Ledgered.expire {world : World ι} (ledgered : Ledgered hash row world) {i : ι} (closed : phase world i = none) :
    Ledgered hash row (world.perform (accounts backend) i (.deleteTotpChallenge row.id) false) := by
  obtain ⟨l,sound,tracks⟩ := ledgered.ledger
  refine ⟨sameRow_delete ledgered.same _,issued_perform ledgered.issued (not_issued rfl),{ l with stored := none },
    (Ledger.Step.drop l).sound sound,?_⟩
  constructor
  · exact (congrArg (Option.map ChallengeRow.attempts) (byHash_delete_id ledgered.same)).symm
  · rw [past_perform,List.countP_cons_of_neg (by simp [compares])]
    exact tracks.compared
  · intro j p
    by_cases mine : j = i
    · subst mine
      rw [phase_self,← tracks.opened,closed]
      rfl
    · rw [phase_other world mine]
      exact tracks.opened j p
  · intro j
    rw [past_perform,won_cons]
    simpa [phaseOfEvent] using tracks.winner j
  · rw [past_perform,burned_cons]
    simpa [phaseOfEvent] using tracks.burned

theorem answered_self (world : World ι) (i : ι) (request : Statement) :
    Answered (world.perform (accounts backend) i request false) i request := by
  refine ⟨(accounts backend request world.shared).1,?_⟩
  rw [past_perform]
  exact List.mem_cons_self

/-- A call that fails ends its login. -/
theorem stage_fails {world : World ι} {i : ι} {request : Statement} {next : Option request.Answer → Calls LoginReply}
    (stage : Stage hash row i world (.call request next)) : (next none).ended = true := by
  cases stage with
  | expired _ rest => exact rest none
  | auditing _ _ rest => exact rest none
  | inserting _ _ _ rest => exact rest none
  | ceased _ ended => cases ended
  | _ => rfl

/-- The call of one login. -/
theorem stage_own {s : State ι} {i : ι} {request : Statement} {next : Option request.Answer → Calls LoginReply} {fails : Bool}
    (undisturbed : Undisturbed hash row s (.call i fails)) (ledgered : Ledgered hash row s.toWorld)
    (outstanding : s.process i = .call request next) (stage : Stage hash row i s.toWorld (.call request next)) :
    Ledgered hash row (s.toWorld.perform (accounts backend) i request fails) ∧
      Stage hash row i (s.toWorld.perform (accounts backend) i request fails)
        (next (answer (accounts backend) s.shared request fails)) := by
  cases fails with
  | true =>
    refine ⟨ledgered.fails request undisturbed,.ceased _ (stage_fails stage) ?_⟩
    rw [phase_self]
    exact phase_failed i request
  | false =>
    have guard := undisturbed request next outstanding
    have carries : Carries row s.toWorld (s.toWorld.perform (accounts backend) i request false) i :=
      carries_perform (stage_request stage s.shared)
    have answered : Answered (s.toWorld.perform (accounts backend) i request false) i request := answered_self s.toWorld i request
    have after : phase (s.toWorld.perform (accounts backend) i request false) i = _ := phase_self s.toWorld i request false
    cases stage with
    | reading serving code closed =>
      refine ⟨ledgered.plain closed rfl rfl (not_issued rfl),?_⟩
      change Stage _ _ _ _ (afterChallenge serving code ((s.shared.challenges.byHash hash).map _))
      cases found : s.shared.challenges.byHash hash with
      | none => exact .ceased _ rfl after
      | some r =>
        obtain ⟨there,key⟩ := Challenges.byHash_eq_some.mp found
        obtain ⟨id,_,user,expires⟩ := ledgered.same r there (.inr key)
        have same : (⟨r.id,r.userId,r.attempts,r.expiresAt⟩ : TotpChallenge) = presented row r.attempts := by
          rw [id,user,expires,presented]
        rw [Option.map_some,same]
        exact .checking serving code _ after
    | checking serving code attempts closed =>
      refine ⟨ledgered.plain closed rfl rfl (not_issued rfl),?_⟩
      change Stage _ _ _ _ (afterClock serving code (presented row attempts) s.shared.clock)
      simp only [afterClock]
      split
      · exact .expired _ (by rintro (_ | _) <;> rfl) after
      · next early => exact .totp serving code attempts after ⟨answered,Int.not_le.mp early⟩
    | expired _ rest closed => exact ⟨ledgered.expire closed,.ceased _ (rest _) after⟩
    | totp serving code attempts closed inTime =>
      refine ⟨ledgered.plain closed rfl rfl (not_issued rfl),?_⟩
      have read : ((s.shared.users.find row.userId).map fun u => UserTotp.mk u.totpSecret u.totpEnabled).bind
          UserTotp.secret = secretOf s.shared.users row.userId := by
        cases found : s.shared.users.find row.userId <;> simp [secretOf,found]
      change Stage _ _ _ _ (afterTotp serving code (presented row attempts) ((s.shared.users.find row.userId).map fun u =>
        UserTotp.mk u.totpSecret u.totpEnabled))
      rw [afterTotp,read]
      cases held : secretOf s.shared.users row.userId with
      | none => exact .ceased _ rfl after
      | some secret => exact .timing serving code attempts secret after (carries.inTime inTime) ⟨answered,held⟩
    | timing serving code attempts secret closed inTime read =>
      exact ⟨ledgered.plain closed rfl rfl (not_issued rfl),.verifying serving code attempts secret _ after (carries.inTime inTime)
        (carries.secretRead secret read)⟩
    | verifying serving code attempts secret now closed inTime read =>
      obtain ⟨there,idle⟩ := guard
      cases verdict : Totp.verify backend.totpCode secret code now with
      | none =>
        have made : answer (accounts backend) s.shared (.verifyTotp secret code now) false = some none :=
          congrArg some verdict
        rw [made] at after ⊢
        refine ⟨ledgered.plain closed ?_ rfl (not_issued rfl),.ceased _ rfl after⟩
        rw [made]
        rfl
      | some valid =>
        have made : answer (accounts backend) s.shared (.verifyTotp secret code now) false = some (some valid) :=
          congrArg some verdict
        rw [made] at after ⊢
        refine ⟨ledgered.compare i verdict there idle,?_⟩
        cases valid with
        | false => exact .counting after
        | true =>
          refine .admitting serving after ⟨carries.inTime inTime,secret,carries.secretRead secret read,code,now,?_⟩
          rw [past_perform,made]
          exact List.mem_cons_self
    | counting turn => exact ⟨ledgered.count turn,.attempting after⟩
    | attempting turn =>
      refine ⟨ledgered.attempts turn,?_⟩
      change Stage _ _ _ _ (afterAttempts row.id ((s.shared.challenges.table.find row.id).map ChallengeRow.attempts))
      simp only [answer,Bool.false_eq_true,if_false] at after
      change _ = phaseOfEvent ⟨i,.totpAttempts row.id,some ((s.shared.challenges.table.find row.id).map ChallengeRow.attempts)⟩ at after
      unfold afterAttempts
      cases found : (s.shared.challenges.table.find row.id).map ChallengeRow.attempts with
      | none =>
        rw [found] at after
        exact .ceased _ rfl after
      | some n =>
        rw [found] at after
        simp only [Option.getD_some]
        split
        · next many => exact .burning (after.trans (if_pos many))
        · next few => exact .ceased _ rfl (after.trans (if_neg few))
    | burning turn =>
      exact ⟨ledgered.close turn (.inr rfl),.auditing _ _ (by rintro (_ | _) <;> rfl) after⟩
    | auditing _ _ rest closed => exact ⟨ledgered.plain closed rfl rfl (not_issued rfl),.ceased _ (rest _) after⟩
    | admitting serving turn passed => exact ⟨ledgered.close turn (.inl rfl),.user serving after (carries.passed passed)⟩
    | user serving closed passed =>
      refine ⟨ledgered.plain closed rfl rfl (not_issued rfl),?_⟩
      change Stage _ _ _ _ (afterUser serving ((s.shared.users.find row.userId).map userFromRow))
      cases found : s.shared.users.find row.userId with
      | none => exact .ceased _ rfl after
      | some u =>
        have mine : u.id = row.userId := ((Table.find_eq_some _).mp found).2
        simp only [Option.map_some,afterUser,userFromRow,mine]
        split
        · exact .ceased _ rfl after
        · exact .loginAudit serving after (carries.passed passed)
    | loginAudit serving closed passed =>
      refine ⟨ledgered.plain closed rfl rfl (not_issued rfl),?_⟩
      simp only [answer,Bool.false_eq_true,if_false,Routine.answered_some,sessionCalls]
      split
      · exact .ceased _ rfl after
      · exact .credentials serving after (carries.passed passed)
    | credentials serving closed passed =>
      refine ⟨ledgered.plain closed rfl rfl (not_issued rfl),?_⟩
      change Stage _ _ _ _ (afterCredentials serving row.userId ((s.shared.users.find row.userId).map credentialsFromRow))
      cases found : s.shared.users.find row.userId with
      | none => exact .ceased _ rfl after
      | some u =>
        simp only [Option.map_some,afterCredentials,credentialsFromRow,userFromRow]
        split
        · exact .ceased _ rfl after
        · next enabled =>
          exact .sessionClock serving _ after (carries.passed passed) ⟨answered,u,found,Bool.eq_false_iff.mpr enabled⟩
    | sessionClock serving version closed passed admitted =>
      refine ⟨ledgered.plain closed rfl rfl (not_issued rfl),?_⟩
      simp only [answer,Bool.false_eq_true,if_false,Routine.answered_some,afterSessionClock]
      split
      · exact .ceased _ rfl after
      · exact .inserting _ _ _ (by rintro (_ | _) <;> rfl) after (carries.passed passed) (carries.admitted admitted)
    | inserting token session _ rest closed passed admitted =>
      obtain ⟨_,secret,_,validated⟩ := passed
      exact ⟨ledgered.plain closed rfl rfl fun _ _ _ _ => ⟨secret,validated⟩,.ceased _ (rest _) after⟩
    | ceased _ ended => cases ended

theorem ledgered_start {logins : ι → Serving × TotpLogin} {db : Accounts} (found : db.challenges.byHash hash = some row)
    (fresh : row.attempts = 0) : Ledgered hash row (start logins db).toWorld := by
  refine ⟨sameRow_found found,?_,_,Ledger.sound_start,?_⟩
  · rintro i ⟨_,_,there⟩
    cases there
  constructor
  · change some 0 = (db.challenges.byHash hash).map ChallengeRow.attempts
    rw [found,Option.map_some,fresh]
  · rfl
  · exact fun j p => ⟨nofun,nofun⟩
  · refine fun j => ⟨?_,nofun⟩
    rintro ⟨_,_,_,there⟩
    cases there
  · refine ⟨?_,nofun⟩
    rintro ⟨_,_,_,there,_⟩
    cases there

theorem stage_start {logins : ι → Serving × TotpLogin} (presents : Presents logins hash) (db : Accounts) (i : ι) :
    Stage hash row i (start logins db).toWorld (loginTotp (logins i).1 (logins i).2) := by
  cases allowed : (logins i).1.localLogin with
  | false =>
    simp only [loginTotp,allowed,Bool.not_false,if_true]
    exact .ceased _ rfl rfl
  | true =>
    rw [loginTotp_calls allowed,presents i]
    exact .reading _ _ rfl

/-- Something beside the logins. -/
theorem stage_outside {s : State ι} {event : Elsewhere} {shared : Accounts} (undisturbed : Undisturbed hash row s (.outside event))
    (holds : Assertions (Ledgered hash row) (Stage hash row) s) (occurred : elsewhere event s.shared = some shared) :
    Ledgered hash row ⟨shared,s.past⟩ ∧ ∀ j, Stage hash row j ⟨shared,s.past⟩ (s.process j) := by
  cases event with
  | time now =>
    cases occurred
    refine ⟨holds.common.elsewhere rfl holds.common.same (.inr rfl),fun j => stage_carry (holds.stage j) rfl fun going => ?_⟩
    exact ⟨fun ⟨read,_⟩ => ⟨read,undisturbed j going read⟩,fun _ => id,fun _ => id,id⟩
  | others users sessions dropped =>
    cases occurred
    refine ⟨holds.common.elsewhere rfl (sameRow_delete holds.common.same dropped) (byHash_delete _ dropped),fun j =>
      stage_carry (holds.stage j) rfl fun going => ?_⟩
    obtain ⟨secret,enabled⟩ := undisturbed j going
    exact ⟨id,fun _ ⟨read,held⟩ => ⟨read,(secret read).trans held⟩,fun _ => id,fun ⟨read,_⟩ => ⟨read,enabled read⟩⟩

/-- Logins that are not disturbed issue one session at most, for a challenge of at most
`totpMaxAttempts` comparisons. -/
theorem challenge_sound (backend : Backend) (logins : ι → Serving × TotpLogin) (hash : String) (presents : Presents logins hash)
    (db : Accounts) (row : ChallengeRow) (found : db.challenges.byHash hash = some row) (fresh : row.attempts = 0) {s : State ι}
    (reach : Transition.Reaches (step backend) (Undisturbed hash row) (start logins db) s) : ChallengeSound row s := by
  have kept : Assertions (Ledgered hash row) (Stage hash row) s := by
    refine assertions_kept _ _ ?_ ?_ ?_ reach ⟨ledgered_start found fresh,stage_start presents db⟩
    · intro s i request next fails holds undisturbed outstanding
      exact stage_own undisturbed holds.common outstanding (outstanding ▸ holds.stage i)
    · intro s i request next fails j holds _ outstanding differs
      have mine : Stage hash row i s.toWorld (.call request next) := outstanding ▸ holds.stage i
      exact stage_carry (holds.stage j) (phase_other s.toWorld differs request fails)
        fun _ => carries_perform (stage_request mine s.shared)
    · intro s event shared holds undisturbed occurred
      exact stage_outside undisturbed holds occurred
  obtain ⟨l,sound,tracks⟩ := kept.common.ledger
  have winner : ∀ i, Issued s.past i → l.winner = some i := fun i issued =>
    (tracks.winner i).mp (kept.common.issued i issued)
  constructor
  · intro i j first second
    exact Option.some.inj ((winner i first).symm.trans (winner j second))
  · rw [← tracks.compared]
    exact sound.bounded
  · intro i token session next outstanding
    have stage : Stage hash row i s.toWorld (.call (.insertSession token session) next) := outstanding ▸ kept.stage i
    cases stage with
    | inserting _ _ _ _ _ passed admitted =>
      obtain ⟨inTime,secret,read,validated⟩ := passed
      refine ⟨inTime.2,fun burned => ?_,admitted.2,secret,read.2,validated⟩
      have none := sound.either (tracks.burned.mp burned)
      rw [(tracks.winner i).mp ⟨secret,validated⟩] at none
      cases none
    | ceased _ ended => cases ended

end Stages

/-- The codes of a secret are the secret itself. -/
def secretCodes : Backend := ⟨fun stored given => stored = given,fun password encodedHash => password = encodedHash,
  fun secret _ => some secret⟩

def challengeRow : ChallengeRow := ⟨1,1,"hash",0,100⟩

def challenged : Accounts where
  clock := 10
  users := Table.empty.insert (fun id => ⟨id,"user","hash","user",false,0,none,false,some "123456",true⟩) fun _ => rfl
  sessions := fun _ => none
  resetTokens := fun _ => none
  emailTokens := fun _ => none
  loginStates := fun _ => none
  challenges := ⟨Table.empty.insert (fun id => ⟨id,1,"hash",0,100⟩) fun _ => rfl,List.nodup_singleton _⟩

def rightLogins (second : Bool) : Serving × TotpLogin :=
  (⟨true,id,3600,if second then "second" else "first","csrf"⟩,⟨"hash","123456"⟩)

/-- One login, with the right code. -/
theorem challenge_sound_alone : ∃ s : State Bool,
    Transition.exec (step secretCodes) (start rightLogins challenged) (List.replicate 11 (.call false false)) = some s ∧
    (s.process false).result = some (.ok ⟨"first","csrf",3610⟩) ∧ ChallengeSound challengeRow s := by
  obtain ⟨s,ran⟩ : ∃ s, Transition.exec (step secretCodes) (start rightLogins challenged)
      (List.replicate 11 (.call false false)) = some s := ⟨_,rfl⟩
  have issued := congrArg (Option.map fun s => (s.process false).result) ran
  refine ⟨s,ran,(Option.some.inj issued).symm,challenge_sound _ rightLogins "hash" (fun _ => rfl) challenged challengeRow rfl rfl
    (Transition.reaches_of_exec ran ?_)⟩
  iterate 4
    refine ⟨?_,?_⟩
    · rintro _ _ ⟨⟩
      trivial
    rintro _ ⟨⟩
  refine ⟨?_,?_⟩
  · rintro _ _ ⟨⟩
    refine ⟨by decide,?_⟩
    rintro (_ | _) <;> rfl
  rintro _ ⟨⟩
  iterate 5
    refine ⟨?_,?_⟩
    · rintro _ _ ⟨⟩
      trivial
    rintro _ ⟨⟩
  refine ⟨?_,fun _ _ => trivial⟩
  rintro _ _ ⟨⟩
  trivial

/-- Two logins verify the same code before either deletes the challenge. -/
theorem challenge_used_twice : ∃ s : State Bool,
    Transition.exec (step secretCodes) (start rightLogins challenged)
      (List.replicate 5 (.call false false) ++ List.replicate 5 (.call true false) ++ List.replicate 6 (.call false false) ++
        List.replicate 6 (.call true false)) = some s ∧ ¬ChallengeSound challengeRow s := by
  refine ⟨_,rfl,fun sound => ?_⟩
  have both := sound.single false true ⟨_,_,List.mem_iff_getElem?.mpr ⟨6,rfl⟩⟩ ⟨_,_,List.mem_iff_getElem?.mpr ⟨0,rfl⟩⟩
  cases both

end Qdrust.Account.Challenge
