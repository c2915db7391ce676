import Qdrust.Library.Custody
import Qdrust.Library.Table
import Qdrust.Library.Transition

/-! The manager of browser sessions, await by await. The map of sessions and the browser are
behind mutexes; a guard lives as long as the phases that have it, also where a caller is dropped.
The lock of a session is only taken under that of the map, so it is always free. -/
namespace Qdrust.Browser
open Library

abbrev Tab := Nat

/-- A session has a random id; here it has one that was not handed out before. -/
abbrev SessionId := Int

structure Session where
  id : SessionId
  tab : Tab
  createdAt : Nat
  lastUsedAt : Nat

structure Config where
  configured : Bool
  idleTtl : Nat
  maxLifetime : Nat
  maxSessions : Nat

def defaultIdleTtl : Nat := 30 * 60
def defaultMaxLifetime : Nat := 24 * 60 * 60
def defaultMaxSessions : Nat := 16

/-- `BrowserSessionManager::new`, with times in seconds. -/
def Config.new (configured : Bool) : Config := ⟨configured,defaultIdleTtl,defaultMaxLifetime,defaultMaxSessions⟩

/-- What a tab is opened for. -/
inductive Purpose where
  | start
  | ephemeral

inductive Request where
  | start
  | endSession (session : SessionId)
  | withSession (session : SessionId)
  | runEphemeral
  | sweep
  | shutdown

abbrev Outcome := Except String (Option SessionId)

/-- What a caller awaits, with what it has in its hands. -/
inductive Phase where
  | idle
  | returned (outcome : Outcome)
  | connecting (purpose : Purpose)
  | dialing (purpose : Purpose)
  | checking
  | queueing (purpose : Purpose)
  | opening (purpose : Purpose)
  | navigating (purpose : Purpose) (tab : Tab)
  | inserting (tab : Tab)
  | removing (session : SessionId)
  | ending (tab : Tab)
  | entering (session : SessionId)
  | operating (session : SessionId)
  | working (tab : Tab)
  | disposing (tab : Tab) (outcome : Outcome)
  | shutting
  | draining (tabs : List Tab)
  | sweeping
  | reclaiming (dead : List SessionId)
  | closing (tab : Tab) (dead : List SessionId)

namespace Phase

/-- The tabs that only this call still knows of. -/
def tabs : Phase → List Tab
  | .navigating _ tab | .inserting tab | .ending tab | .working tab | .disposing tab _ | .closing tab _ => [tab]
  | .draining tabs => tabs
  | _ => []

/-- The phases with the guard of the map. -/
def locksMap : Phase → Bool
  | .ending _ | .operating _ | .draining _ | .reclaiming _ | .closing _ _ => true
  | _ => false

/-- The phases with the guard of the browser. -/
def locksBrowser : Phase → Bool
  | .dialing _ | .opening _ => true
  | _ => false

/-- No call is under way. -/
def settled : Phase → Bool
  | .idle | .returned _ => true
  | _ => false

end Phase

/-- What the callers share. -/
structure Manager where
  now : Nat
  connected : Bool
  sessions : Table Session Session.id
  nextTab : Tab
  closed : List Tab

/-- The sessions that `chosen` picks are taken out of the map. -/
def Manager.remove (m : Manager) (chosen : Session → Bool) : Manager := { m with sessions := m.sessions.delete chosen }

def Manager.close (m : Manager) (tab : Tab) : Manager := { m with closed := tab :: m.closed }

/-- `s.touch()`. -/
def Manager.touch (m : Manager) (id : SessionId) : Manager :=
  { m with sessions := m.sessions.update (fun session => session.id == id)
             (fun session => { session with lastUsedAt := m.now }) (fun _ => rfl) }

/-- The sessions that the sweep reclaims. -/
def Session.dead (config : Config) (now : Nat) (session : Session) : Bool :=
  config.idleTtl < now - session.lastUsedAt || config.maxLifetime < now - session.createdAt

def notFound (id : SessionId) : Outcome := .error ("browser session not found: " ++ toString id)

/-- What follows `ensure_connected`. -/
def connectedPhase : Purpose → Phase
  | .start => .checking
  | .ephemeral => .queueing .ephemeral

/-- What is awaited comes; `none` where a guard is taken by another caller. -/
def advance (config : Config) (m : Manager) (mapFree browserFree : Bool) : Phase → Option (Manager × Phase)
  | .idle | .returned _ => none
  | .connecting purpose =>
    if m.connected then some (m,connectedPhase purpose)
    else if !browserFree then none
    else if !config.configured then
      some (m,.returned (.error "browser is not configured: set QDRUST_BROWSER_URL"))
    else some (m,.dialing purpose)
  | .dialing purpose => some ({ m with connected := true },connectedPhase purpose)
  | .checking =>
    if !mapFree then none
    else if m.sessions.rows.length < config.maxSessions then some (m,.queueing .start)
    else some (m,.returned (.error ("too many browser sessions (max " ++ toString config.maxSessions ++ ")")))
  | .queueing purpose => if !browserFree then none else some (m,.opening purpose)
  | .opening purpose => some ({ m with nextTab := m.nextTab + 1 },.navigating purpose m.nextTab)
  | .navigating .start tab => some (m,.inserting tab)
  | .navigating .ephemeral tab => some (m,.working tab)
  | .inserting tab =>
    if !mapFree then none
    else some ({ m with sessions := m.sessions.insert (fun id => ⟨id,tab,m.now,m.now⟩) (fun _ => rfl) },
      .returned (.ok (some (m.sessions.last + 1))))
  | .removing id =>
    if !mapFree then none
    else match m.sessions.find id with
      | none => some (m,.returned (notFound id))
      | some session => some (m.remove (fun other => other.id == id),.ending session.tab)
  | .ending tab => some (m.close tab,.returned (.ok none))
  | .entering id =>
    if !mapFree then none
    else match m.sessions.find id with
      | none => some (m,.returned (notFound id))
      | some _ => some (m.touch id,.operating id)
  | .operating _ => some (m,.returned (.ok none))
  | .working tab => some (m,.disposing tab (.ok none))
  | .disposing tab outcome => some (m.close tab,.returned outcome)
  | .shutting =>
    if !mapFree then none else some (m.remove (fun _ => true),.draining (m.sessions.rows.map Session.tab))
  | .draining [] => some (m,.returned (.ok none))
  | .draining (tab :: rest) => some (m.close tab,.draining rest)
  | .sweeping =>
    if !mapFree then none
    else some (m,.reclaiming ((m.sessions.rows.filter (Session.dead config m.now)).map Session.id))
  | .reclaiming [] => some (m,.returned (.ok none))
  | .reclaiming (id :: rest) => match m.sessions.find id with
    | none => some (m,.reclaiming rest)
    | some session => some (m.remove (fun other => other.id == id),.closing session.tab rest)
  | .closing tab rest => some (m.close tab,.reclaiming rest)

/-- What is awaited fails. The result of closing a tab is dropped. -/
def failed (message : String) : Phase → Option Phase
  | .dialing _ => some (.returned (.error "cannot connect to browser endpoint"))
  | .opening _ => some (.returned (.error "cannot create a browser page"))
  | .navigating .start _ => some (.returned (.error "cannot navigate session to url"))
  | .navigating .ephemeral _ => some (.returned (.error "cannot navigate to url"))
  | .operating _ => some (.returned (.error message))
  | .working tab => some (.disposing tab (.error message))
  | .ending _ => some (.returned (.ok none))
  | .disposing _ outcome => some (.returned outcome)
  | .draining (_ :: rest) => some (.draining rest)
  | .closing _ rest => some (.reclaiming rest)
  | _ => none

def Request.phase : Request → Phase
  | .start => .connecting .start
  | .endSession id => .removing id
  | .withSession id => .entering id
  | .runEphemeral => .connecting .ephemeral
  | .sweep => .sweeping
  | .shutdown => .shutting

structure State (ι : Type) extends Manager where
  mapLock : Option ι
  browserLock : Option ι
  phase : ι → Phase

def State.init (ι : Type) : State ι := ⟨⟨0,false,Table.empty,0,[]⟩,none,none,fun _ => .idle⟩

/-- A caller goes on, the request to open its tab is lost with it, or time passes. -/
inductive Action (ι : Type) where
  | call (i : ι) (request : Request)
  | proceed (i : ι)
  | fail (i : ι) (message : String)
  | drop (i : ι)
  | lose (i : ι)
  | tick (seconds : Nat)

variable {ι : Type} [DecidableEq ι]

/-- A guard is held by the caller that goes on, released by it, or left where it is. -/
def guarded (i : ι) (before after : Bool) (lock : Option ι) : Option ι :=
  if after then some i else if before then none else lock

/-- A caller enters a phase. -/
def State.become (s : State ι) (m : Manager) (i : ι) (next : Phase) : State ι where
  toManager := m
  mapLock := guarded i (s.phase i).locksMap next.locksMap s.mapLock
  browserLock := guarded i (s.phase i).locksBrowser next.locksBrowser s.browserLock
  phase := Function.update s.phase i next

def step (config : Config) (s : State ι) : Action ι → Option (State ι)
  | .call i request => if (s.phase i).settled then some (s.become s.toManager i request.phase) else none
  | .proceed i => (advance config s.toManager s.mapLock.isNone s.browserLock.isNone (s.phase i)).map fun result =>
    s.become result.1 i result.2
  | .fail i message => (failed message (s.phase i)).map fun next => s.become s.toManager i next
  | .drop i => if (s.phase i).settled then none else some (s.become s.toManager i .idle)
  | .lose i => match s.phase i with
    | .opening _ => some (s.become { s.toManager with nextTab := s.nextTab + 1 } i .idle)
    | _ => none
  | .tick seconds => some { s with now := s.now + seconds }

/-- Every tab is a live session's, in the hands of a call that has not returned, or closed. -/
def Accounted (s : State ι) (tab : Tab) : Prop :=
  (∃! session, session ∈ s.sessions.rows ∧ session.tab = tab) ∨ (∃ i, tab ∈ (s.phase i).tabs) ∨ tab ∈ s.closed

structure Sound (config : Config) (s : State ι) : Prop where
  bounded : s.sessions.rows.length ≤ config.maxSessions
  accounted : ∀ tab < s.nextTab, Accounted s tab
  present : ∀ i id, s.phase i = .operating id → ∃ session ∈ s.sessions.rows, session.id = id
  undisturbed : ∀ action t, step config s action = some t → ∀ i id, s.phase i = .operating id →
    ∀ session ∈ s.sessions.rows, session.id = id → session ∈ t.sessions.rows ∧ (session.tab ∉ s.closed → session.tab ∉ t.closed)

/-- A session is inserted where there is room for it, and no call fails or is dropped that has a tab
in its hands or is being given one, but for the work on an ephemeral tab, which may fail. -/
def Careful (config : Config) (s : State ι) : Action ι → Prop
  | .proceed i => ∀ tab, s.phase i = .inserting tab → s.sessions.rows.length < config.maxSessions
  | .fail i _ => (s.phase i).tabs = [] ∨ ∃ tab, s.phase i = .working tab
  | .drop i => (s.phase i).tabs = []
  | .lose _ => False
  | _ => True

end Qdrust.Browser
