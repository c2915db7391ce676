import Mathlib.Data.Fintype.Card
import Mathlib.Data.Fintype.List
import Qdrust.Browser.Manager
import Qdrust.Library.Counting

/-! What holds of the sessions and their tabs in every run: who has a guard, what a step can do to the
map, and where every tab that was opened is. -/
namespace Qdrust.Browser
open Library Transition

variable {ι : Type} [DecidableEq ι]

section Guards

/-- A lock is held by the callers in the phases that have its guard. -/
def Held (locks : Phase → Bool) (lock : Option ι) (phase : ι → Phase) : Prop := ∀ i, locks (phase i) = true ↔ lock = some i

theorem held_become {locks : Phase → Bool} {lock : Option ι} {phase : ι → Phase} (held : Held locks lock phase) {i : ι}
    {next : Phase} (free : locks next = true → locks (phase i) = true ∨ lock = none) :
    Held locks (guarded i (locks (phase i)) (locks next) lock) (Function.update phase i next) := by
  intro j
  cases after : locks next with
  | true =>
    by_cases same : j = i
    · subst same
      simp [guarded,after]
    · have other : locks (phase j) = false := by
        refine Bool.eq_false_iff.mpr fun theirs => ?_
        rcases free after with mine | unlocked
        · exact same (Option.some.inj (((held j).mp theirs).symm.trans ((held i).mp mine)))
        · rw [(held j).mp theirs] at unlocked
          cases unlocked
      simp [guarded,Function.update_of_ne same,other,Ne.symm same]
  | false =>
    by_cases same : j = i
    · subst same
      rw [Function.update_self,after]
      cases before : locks (phase j) with
      | true => simp [guarded]
      | false =>
        have mine := (held j).not.mp (by simp [before])
        simpa [guarded] using mine
    · rw [Function.update_of_ne same,held j]
      cases before : locks (phase i) with
      | true =>
        have mine := (held i).mp before
        simp [guarded,mine,Ne.symm same]
      | false => simp [guarded]

end Guards

section Steps

def Manager.tabs (m : Manager) : List Tab := m.sessions.rows.map Session.tab

/-- Where the tabs go: between a call and the map, from a call to the closed ones, or to a call that opens one. -/
inductive Moves (before after : Manager) (held kept : List Tab) : Prop
  | share (opened : after.nextTab = before.nextTab) (closed : after.closed = before.closed)
      (exchanged : (after.tabs ++ kept).Perm (before.tabs ++ held))
  | close (opened : after.nextTab = before.nextTab) (sessions : after.sessions = before.sessions)
      (exchanged : (after.closed ++ kept).Perm (before.closed ++ held))
  | issue (opened : after.nextTab = before.nextTab + 1) (sessions : after.sessions = before.sessions)
      (closed : after.closed = before.closed) (empty : held = []) (new : kept = [before.nextTab])

/-- The phases between the check of the limit and the insertion of a session. -/
def Phase.admitted : Phase → Bool
  | .queueing .start | .opening .start | .navigating .start _ | .inserting _ => true
  | _ => false

/-- What an await that comes can do. -/
structure Advanced (config : Config) (m after : Manager) (mapFree browserFree : Bool) (p next : Phase) : Prop where
  map : next.locksMap = true → p.locksMap = true ∨ mapFree = true
  browser : next.locksBrowser = true → p.locksBrowser = true ∨ browserFree = true
  access : after.sessions = m.sessions ∨ p.locksMap = true ∨ mapFree = true
  moves : Moves m after p.tabs next.tabs
  entered : ∀ id, next = .operating id → ∃ session ∈ after.sessions.rows, session.id = id
  room : after.sessions.rows.length + next.admitted.toNat ≤ m.sessions.rows.length + p.admitted.toNat ∨
    after.sessions = m.sessions ∧ m.sessions.rows.length < config.maxSessions
  grown : after.sessions.rows.length ≤ m.sessions.rows.length ∨
    after.sessions.rows.length = m.sessions.rows.length + 1 ∧ ∃ tab, p = .inserting tab

variable {config : Config} {m after : Manager} {mapFree browserFree : Bool} {p next : Phase}

theorem never {P : Prop} (impossible : false = true) : P := Bool.noConfusion impossible

/-- The session that a phase operates on. -/
def Phase.operated : Phase → Option SessionId
  | .operating id => some id
  | _ => none

theorem quiet {P : SessionId → Prop} (other : p.operated = none) (id : SessionId) (operating : p = .operating id) : P id := by
  rw [operating] at other
  cases other

/-- The sessions are not changed, nor the tabs. -/
theorem Advanced.still (sessions : after.sessions = m.sessions) (closed : after.closed = m.closed) (opened : after.nextTab = m.nextTab)
    (map : next.locksMap = true → p.locksMap = true ∨ mapFree = true)
    (browser : next.locksBrowser = true → p.locksBrowser = true ∨ browserFree = true) (tabs : next.tabs = p.tabs)
    (entered : ∀ id, next = .operating id → ∃ session ∈ m.sessions.rows, session.id = id)
    (room : next.admitted = true → p.admitted = true ∨ m.sessions.rows.length < config.maxSessions) :
    Advanced config m after mapFree browserFree p next where
  map := map
  browser := browser
  access := .inl sessions
  moves := .close opened sessions (by rw [closed,tabs])
  entered := by
    rw [sessions]
    exact entered
  room := by
    rw [sessions]
    cases is : next.admitted with
    | false => exact .inl (Nat.le_add_right _ _)
    | true =>
      rcases room is with was | below
      · exact .inl (Nat.le_of_eq (by rw [was]))
      · exact .inr ⟨rfl,below⟩
  grown := .inl (Nat.le_of_eq (by rw [sessions]))

/-- Sessions are taken out of the map, with their tabs. -/
theorem Advanced.take {chosen : Session → Bool} (map : p.locksMap = true ∨ mapFree = true) (browser : next.locksBrowser = false)
    (other : p.tabs = []) (tabs : ((m.remove chosen).tabs ++ next.tabs).Perm m.tabs) (entered : ∀ id, next ≠ .operating id)
    (room : next.admitted = false) : Advanced config m (m.remove chosen) mapFree browserFree p next where
  map _ := map
  browser locks := by
    rw [browser] at locks
    cases locks
  access := .inr map
  moves := .share rfl rfl (by rwa [other,List.append_nil])
  entered id is := absurd is (entered id)
  room := by
    have fewer : (m.remove chosen).sessions.rows.length ≤ m.sessions.rows.length := List.length_filter_le _ _
    rw [room]
    exact .inl (Nat.le_trans fewer (Nat.le_add_right _ _))
  grown := .inl (List.length_filter_le _ _)

/-- A tab is closed. -/
theorem Advanced.closes {tab : Tab} (tabs : p.tabs = tab :: next.tabs) (map : next.locksMap = true → p.locksMap = true)
    (browser : next.locksBrowser = false) (entered : ∀ id, next ≠ .operating id) (room : next.admitted = false) :
    Advanced config m (m.close tab) mapFree browserFree p next where
  map locks := .inl (map locks)
  browser locks := by
    rw [browser] at locks
    cases locks
  access := .inl rfl
  moves := by
    refine .close rfl rfl ?_
    rw [tabs]
    exact List.perm_middle.symm
  entered id is := absurd is (entered id)
  room := by
    rw [room]
    exact .inl (Nat.le_add_right _ _)
  grown := .inl (Nat.le_refl _)

/-- The row of a key, and the others. -/
theorem delete_perm {m : Manager} {id : SessionId} {session : Session} (found : m.sessions.find id = some session) :
    ((m.remove fun other => other.id == id).tabs ++ [session.tab]).Perm m.tabs := by
  obtain ⟨present,keyed⟩ := (m.sessions.find_eq_some).mp found
  have picked : session ∈ m.sessions.rows.filter fun other => other.id == id := by simp [present,keyed]
  have least := m.sessions.countP_le_one (p := fun other => other.id == id) (k := id) (by simp)
  rw [List.countP_eq_length_filter] at least
  have single : m.sessions.rows.filter (fun other => other.id == id) = [session] := by
    match is : m.sessions.rows.filter fun other => other.id == id with
    | [] => simp [is] at picked
    | [other] =>
      rw [is] at picked
      rw [is,List.mem_singleton.mp picked]
    | _ :: _ :: _ => simp [is] at least
  have all := List.filter_append_perm (fun other => other.id == id) m.sessions.rows
  rw [single] at all
  exact (List.perm_append_comm.trans (all.map Session.tab))

theorem touch_tabs (m : Manager) (id : SessionId) : (m.touch id).tabs = m.tabs := by
  rw [Manager.tabs,Manager.touch,Table.update,List.map_map]
  refine List.map_congr_left fun session _ => ?_
  simp only [Function.comp]
  split <;> rfl

theorem advance_cases (gone : advance config m mapFree browserFree p = some (after,next)) :
    Advanced config m after mapFree browserFree p next := by
  cases p with
  | idle => cases gone
  | returned outcome => cases gone
  | connecting purpose =>
    simp only [advance] at gone
    split at gone
    · cases gone
      cases purpose <;> exact .still rfl rfl rfl never never rfl (quiet rfl) never
    · split at gone
      · cases gone
      · next free =>
        split at gone
        · cases gone
          exact .still rfl rfl rfl never never rfl (quiet rfl) never
        · cases gone
          exact .still rfl rfl rfl never (fun _ => .inr (by simpa using free)) rfl (quiet rfl) never
  | dialing purpose =>
    cases gone
    cases purpose <;> exact .still rfl rfl rfl never never rfl (quiet rfl) never
  | checking =>
    simp only [advance] at gone
    split at gone
    · cases gone
    · split at gone
      · next room =>
        cases gone
        exact .still rfl rfl rfl never never rfl (quiet rfl) fun _ => .inr room
      · cases gone
        exact .still rfl rfl rfl never never rfl (quiet rfl) never
  | queueing purpose =>
    simp only [advance] at gone
    split at gone
    · cases gone
    · next free =>
      cases gone
      exact .still rfl rfl rfl never (fun _ => .inr (by simpa using free)) rfl (quiet rfl)
        fun admitted => .inl (by cases purpose <;> [rfl; exact admitted])
  | opening purpose =>
    cases gone
    have same : (Phase.navigating purpose m.nextTab).admitted = (Phase.opening purpose).admitted := by cases purpose <;> rfl
    exact {
      map := never
      browser := never
      access := .inl rfl
      moves := .issue rfl rfl rfl rfl rfl
      entered := quiet rfl
      room := .inl (Nat.le_of_eq (congrArg (fun b => m.sessions.rows.length + Bool.toNat b) same))
      grown := .inl (Nat.le_refl _)
    }
  | navigating purpose tab =>
    cases purpose with
    | start =>
      cases gone
      exact .still rfl rfl rfl never never rfl (quiet rfl) fun _ => .inl rfl
    | ephemeral =>
      cases gone
      exact .still rfl rfl rfl never never rfl (quiet rfl) never
  | inserting tab =>
    simp only [advance] at gone
    split at gone
    · cases gone
    · next free =>
      cases gone
      have more : (m.sessions.insert (fun id => ⟨id,tab,m.now,m.now⟩) (fun _ => rfl)).rows.length = m.sessions.rows.length + 1 := by
        simp [Table.insert]
      exact {
        map := never
        browser := never
        access := .inr (.inr (by simpa using free))
        moves := .share rfl rfl (by simp [Manager.tabs,Table.insert,Phase.tabs])
        entered := quiet rfl
        room := .inl (Nat.le_of_eq more)
        grown := .inr ⟨more,tab,rfl⟩
      }
  | removing id =>
    simp only [advance] at gone
    split at gone
    · cases gone
    · next free =>
      split at gone
      · cases gone
        exact .still rfl rfl rfl never never rfl (quiet rfl) never
      · next session found =>
        cases gone
        exact .take (.inr (by simpa using free)) rfl rfl (delete_perm found) (quiet rfl) rfl
  | ending tab =>
    cases gone
    exact .closes rfl never rfl (quiet rfl) rfl
  | entering id =>
    simp only [advance] at gone
    split at gone
    · cases gone
    · next free =>
      have access : mapFree = true := by simpa using free
      split at gone
      · cases gone
        exact .still rfl rfl rfl never never rfl (quiet rfl) never
      · next session found =>
        cases gone
        obtain ⟨present,keyed⟩ := (m.sessions.find_eq_some).mp found
        have many : (m.touch id).sessions.rows.length = m.sessions.rows.length := List.length_map _
        exact {
          map := fun _ => .inr access
          browser := never
          access := .inr (.inr access)
          moves := .share rfl rfl (by rw [touch_tabs]; rfl)
          entered := by
            intro other is
            cases is
            refine ⟨_,List.mem_map.mpr ⟨session,present,rfl⟩,?_⟩
            split <;> exact keyed
          room := .inl (by rw [many]; exact Nat.le_add_right _ _)
          grown := .inl (Nat.le_of_eq many)
        }
  | operating id =>
    cases gone
    exact .still rfl rfl rfl never never rfl (quiet rfl) never
  | working tab =>
    cases gone
    exact .still rfl rfl rfl never never rfl (quiet rfl) never
  | disposing tab outcome =>
    cases gone
    exact .closes rfl never rfl (quiet rfl) rfl
  | shutting =>
    simp only [advance] at gone
    split at gone
    · cases gone
    · next free =>
      cases gone
      exact .take (.inr (by simpa using free)) rfl rfl (by simp [Manager.tabs,Manager.remove,Table.delete,Phase.tabs]) (quiet rfl) rfl
  | draining tabs =>
    cases tabs with
    | nil =>
      cases gone
      exact .still rfl rfl rfl never never rfl (quiet rfl) never
    | cons tab rest =>
      cases gone
      exact .closes rfl (fun _ => rfl) rfl (quiet rfl) rfl
  | sweeping =>
    simp only [advance] at gone
    split at gone
    · cases gone
    · next free =>
      cases gone
      exact .still rfl rfl rfl (fun _ => .inr (by simpa using free)) never rfl (quiet rfl) never
  | reclaiming dead =>
    cases dead with
    | nil =>
      cases gone
      exact .still rfl rfl rfl never never rfl (quiet rfl) never
    | cons id rest =>
      simp only [advance] at gone
      split at gone
      · cases gone
        exact .still rfl rfl rfl (fun _ => .inl rfl) never rfl (quiet rfl) never
      · next session found =>
        cases gone
        exact .take (.inl rfl) rfl rfl (delete_perm found) (quiet rfl) rfl
  | closing tab dead =>
    cases gone
    exact .closes rfl (fun _ => rfl) rfl (quiet rfl) rfl

/-- What a failure can do. The tabs that a call gives up are dropped. -/
structure Failed (p next : Phase) (dropped : List Tab) : Prop where
  map : next.locksMap = true → p.locksMap = true
  browser : next.locksBrowser = false
  tabs : (next.tabs ++ dropped).Perm p.tabs
  entered : ∀ id, next ≠ .operating id
  room : next.admitted = false

theorem failed_cases {message : String} (fails : failed message p = some next) :
    ∃ dropped, Failed p next dropped ∧ ((p.tabs = [] ∨ ∃ tab, p = .working tab) → dropped = []) := by
  have loses {tab : Tab} (tabs : p.tabs = tab :: next.tabs) (map : next.locksMap = true → p.locksMap = true)
      (browser : next.locksBrowser = false) (entered : ∀ id, next ≠ .operating id) (room : next.admitted = false)
      (idle : ∀ tab, p ≠ .working tab) :
      ∃ dropped, Failed p next dropped ∧ ((p.tabs = [] ∨ ∃ tab, p = .working tab) → dropped = []) := by
    refine ⟨[tab],⟨map,browser,?_,entered,room⟩,?_⟩
    · rw [tabs]
      exact List.perm_append_comm
    · rintro (empty | ⟨other,is⟩)
      · rw [tabs] at empty
        cases empty
      · exact absurd is (idle other)
  have keeps (tabs : next.tabs = p.tabs) (map : next.locksMap = true → p.locksMap = true)
      (browser : next.locksBrowser = false) (entered : ∀ id, next ≠ .operating id) (room : next.admitted = false) :
      ∃ dropped, Failed p next dropped ∧ ((p.tabs = [] ∨ ∃ tab, p = .working tab) → dropped = []) :=
    ⟨[],⟨map,browser,by rw [List.append_nil,tabs],entered,room⟩,fun _ => rfl⟩
  cases p with
  | dialing purpose | opening purpose | operating id | working tab =>
    cases fails
    exact keeps rfl nofun rfl nofun rfl
  | navigating purpose tab =>
    cases purpose <;> cases fails <;> exact loses rfl nofun rfl nofun rfl nofun
  | ending tab | disposing tab outcome =>
    cases fails
    exact loses rfl nofun rfl nofun rfl nofun
  | closing tab dead =>
    cases fails
    exact loses rfl (fun _ => rfl) rfl nofun rfl nofun
  | draining tabs =>
    cases tabs with
    | nil => cases fails
    | cons tab rest =>
      cases fails
      exact loses rfl (fun _ => rfl) rfl nofun rfl nofun
  | idle | returned outcome | connecting purpose | checking | queueing purpose | inserting tab | removing id | entering id
  | shutting | sweeping | reclaiming dead => cases fails

theorem settled_phase (settled : p.settled = true) :
    p.locksMap = false ∧ p.locksBrowser = false ∧ p.tabs = [] ∧ p.admitted = false ∧ ∀ id, p ≠ .operating id := by
  cases p with
  | idle | returned outcome => exact ⟨rfl,rfl,rfl,rfl,nofun⟩
  | _ => cases settled

theorem request_phase (request : Request) :
    request.phase.locksMap = false ∧ request.phase.locksBrowser = false ∧ request.phase.tabs = [] ∧
      request.phase.admitted = false ∧ ∀ id, request.phase ≠ .operating id := by
  cases request <;> exact ⟨rfl,rfl,rfl,rfl,nofun⟩

end Steps

section Places

/-- Where a tab can be. A lost one is still open, and nobody knows of it. -/
inductive Place (ι : Type) where
  | shared
  | call (i : ι)
  | closed
  | lost

def places (s : State ι) (lost : List Tab) : Place ι → List Tab
  | .shared => s.tabs
  | .call i => (s.phase i).tabs
  | .closed => s.closed
  | .lost => lost

/-- What holds in every run: the guards are held by the phases that have them, every tab is at one place,
and a session stays while it is operated on. -/
structure Tracked (s : State ι) (lost : List Tab) : Prop where
  map : Held Phase.locksMap s.mapLock s.phase
  browser : Held Phase.locksBrowser s.browserLock s.phase
  kept : Kept s.nextTab (places s lost)
  present : ∀ i id, s.phase i = .operating id → ∃ session ∈ s.sessions.rows, session.id = id

variable {config : Config} {s t : State ι} {lost : List Tab} {i : ι} {m : Manager} {next : Phase}

omit [DecidableEq ι] in
/-- Who has no guard of the map does not change what is under it. -/
theorem Tracked.unchanged (tracked : Tracked s lost) {j : ι} {id : SessionId} (operating : s.phase j = .operating id) (other : i ≠ j)
    (access : m.sessions = s.sessions ∨ (s.phase i).locksMap = true ∨ s.mapLock.isNone = true) : m.sessions = s.sessions := by
  have mine : s.mapLock = some j := (tracked.map j).mp (by rw [operating]; rfl)
  rcases access with same | locks | free
  · exact same
  · have theirs := (tracked.map i).mp locks
    rw [mine] at theirs
    exact absurd (Option.some.inj theirs).symm other
  · rw [mine] at free
    cases free

theorem Tracked.become (tracked : Tracked s lost) {lost' : List Tab}
    (map : next.locksMap = true → (s.phase i).locksMap = true ∨ s.mapLock.isNone = true)
    (browser : next.locksBrowser = true → (s.phase i).locksBrowser = true ∨ s.browserLock.isNone = true)
    (access : m.sessions = s.sessions ∨ (s.phase i).locksMap = true ∨ s.mapLock.isNone = true)
    (entered : ∀ id, next = .operating id → ∃ session ∈ m.sessions.rows, session.id = id)
    (kept : Kept m.nextTab (places (s.become m i next) lost')) : Tracked (s.become m i next) lost' where
  map := held_become tracked.map fun locks => (map locks).imp_right Option.isNone_iff_eq_none.mp
  browser := held_become tracked.browser fun locks => (browser locks).imp_right Option.isNone_iff_eq_none.mp
  kept := kept
  present := by
    intro j id operating
    by_cases same : j = i
    · subst same
      exact entered id (by simpa [State.become] using operating)
    · have before : s.phase j = .operating id := by simpa [State.become,Function.update_of_ne same] using operating
      change ∃ session ∈ m.sessions.rows, session.id = id
      rw [tracked.unchanged before (Ne.symm same) access]
      exact tracked.present j id before

theorem places_call (s : State ι) (m : Manager) (i : ι) (next : Phase) (lost : List Tab) :
    places (s.become m i next) lost (.call i) = next.tabs := by
  simp [places,State.become]

theorem places_other (s : State ι) (m : Manager) {i j : ι} (other : j ≠ i) (next : Phase) (lost lost' : List Tab) :
    places (s.become m i next) lost (.call j) = places s lost' (.call j) := by
  simp [places,State.become,Function.update_of_ne other]

/-- The tabs of a call go where an await takes them. -/
theorem kept_moves (kept : Kept s.nextTab (places s lost)) (moves : Moves s.toManager m (s.phase i).tabs next.tabs) :
    Kept m.nextTab (places (s.become m i next) lost) := by
  cases moves with
  | share opened closed exchanged =>
    rw [opened]
    refine kept.exchange (p := .shared) (q := .call i) nofun (by rw [places_call]; exact exchanged) ?_
    intro r notShared notCall
    cases r with
    | shared => exact absurd rfl notShared
    | call j => exact places_other s m (fun same => notCall (congrArg _ same)) next lost lost
    | closed => exact closed
    | lost => rfl
  | close opened sessions exchanged =>
    rw [opened]
    refine kept.exchange (p := .closed) (q := .call i) nofun (by rw [places_call]; exact exchanged) ?_
    intro r notClosed notCall
    cases r with
    | shared => exact congrArg (fun sessions : Table Session Session.id => sessions.rows.map Session.tab) sessions
    | call j => exact places_other s m (fun same => notCall (congrArg _ same)) next lost lost
    | closed => exact absurd rfl notClosed
    | lost => rfl
  | issue opened sessions closed empty new =>
    rw [opened]
    refine kept.issue (p := .call i) ?_ ?_
    · rw [places_call,new]
      exact congrArg _ empty.symm
    · intro r notCall
      cases r with
      | shared => exact congrArg (fun sessions : Table Session Session.id => sessions.rows.map Session.tab) sessions
      | call j => exact places_other s m (fun same => notCall (congrArg _ same)) next lost lost
      | closed => exact closed
      | lost => rfl

/-- What a call gives up is lost. -/
theorem kept_dropped (kept : Kept s.nextTab (places s lost)) {dropped : List Tab} (tabs : (next.tabs ++ dropped).Perm (s.phase i).tabs) :
    Kept s.nextTab (places (s.become s.toManager i next) (dropped ++ lost)) := by
  refine kept.exchange (p := .call i) (q := .lost) nofun ?_ ?_
  · rw [places_call]
    change (next.tabs ++ (dropped ++ lost)).Perm ((s.phase i).tabs ++ lost)
    rw [← List.append_assoc]
    exact tabs.append_right lost
  · intro r notCall notLost
    cases r with
    | shared => rfl
    | call j => exact places_other s s.toManager (fun same => notCall (congrArg _ same)) next _ lost
    | closed => rfl
    | lost => exact absurd rfl notLost

end Places

section Runs

variable {config : Config} {s t : State ι} {lost : List Tab}

omit [DecidableEq ι] in
theorem tracked_init : Tracked (State.init ι) [] where
  map _ := ⟨nofun,nofun⟩
  browser _ := ⟨nofun,nofun⟩
  kept := Kept.empty.same fun place => by cases place <;> rfl
  present _ _ := nofun

/-- A call starts from a phase without tabs and guards, and ends in one. -/
theorem tracked_restart (tracked : Tracked s lost) {i : ι} {next : Phase} {dropped : List Tab} (map : next.locksMap = false)
    (browser : next.locksBrowser = false) (tabs : (next.tabs ++ dropped).Perm (s.phase i).tabs) (entered : ∀ id, next ≠ .operating id) :
    Tracked (s.become s.toManager i next) (dropped ++ lost) :=
  tracked.become (fun locks => absurd locks (by simp [map])) (fun locks => absurd locks (by simp [browser])) (.inl rfl)
    (fun id is => absurd is (entered id)) (kept_dropped tracked.kept tabs)

/-- What every step keeps. A careful one loses no tab. -/
theorem tracked_step (tracked : Tracked s lost) {a : Action ι} (taken : step config s a = some t) :
    ∃ dropped, Tracked t (dropped ++ lost) ∧ (Careful config s a → dropped = []) := by
  cases a with
  | call i request =>
    rw [step] at taken
    split at taken
    · next settled =>
      cases taken
      obtain ⟨_,_,empty,_,_⟩ := settled_phase settled
      obtain ⟨map,browser,tabs,_,entered⟩ := request_phase request
      exact ⟨[],tracked_restart tracked map browser (by rw [tabs,empty]; exact .refl _) entered,fun _ => rfl⟩
    · cases taken
  | proceed i =>
    obtain ⟨⟨m,next⟩,gone,rfl⟩ := Option.map_eq_some_iff.mp taken
    have went := advance_cases gone
    refine ⟨[],?_,fun _ => rfl⟩
    exact tracked.become went.map went.browser went.access went.entered (kept_moves tracked.kept went.moves)
  | fail i message =>
    obtain ⟨next,fails,rfl⟩ := Option.map_eq_some_iff.mp taken
    obtain ⟨dropped,fell,careful⟩ := failed_cases fails
    refine ⟨dropped,?_,careful⟩
    exact tracked.become (fun locks => .inl (fell.map locks)) (fun locks => absurd locks (by simp [fell.browser])) (.inl rfl)
      (fun id is => absurd is (fell.entered id)) (kept_dropped tracked.kept fell.tabs)
  | drop i =>
    rw [step] at taken
    split at taken
    · cases taken
    · cases taken
      exact ⟨(s.phase i).tabs,tracked_restart tracked rfl rfl (List.Perm.refl _) nofun,id⟩
  | lose i =>
    rw [step] at taken
    split at taken
    · next purpose opening =>
      cases taken
      refine ⟨[s.nextTab],?_,False.elim⟩
      refine tracked.become nofun nofun (.inl rfl) nofun ?_
      refine tracked.kept.issue (p := .lost) rfl ?_
      intro r notLost
      cases r with
      | shared => rfl
      | call j =>
        by_cases same : j = i
        · subst same
          rw [places_call]
          simp [places,opening,Phase.tabs]
        · exact places_other s _ same .idle _ lost
      | closed => rfl
      | lost => exact absurd rfl notLost
    · cases taken
  | tick seconds =>
    cases taken
    exact ⟨[],⟨tracked.map,tracked.browser,tracked.kept,tracked.present⟩,fun _ => rfl⟩

/-- Every run keeps track of the tabs that were opened. -/
theorem tracked_run (reach : Reachable (step config) (State.init ι) s) : ∃ lost, Tracked s lost := by
  have keep (s : State ι) (a : Action ι) (t : State ι) (found : ∃ lost, Tracked s lost) (_ : True) (taken : step config s a = some t) :
      ∃ lost, Tracked t lost := by
    obtain ⟨lost,tracked⟩ := found
    obtain ⟨dropped,kept,_⟩ := tracked_step tracked taken
    exact ⟨dropped ++ lost,kept⟩
  exact reach.invariant keep ⟨[],tracked_init⟩

/-- What a step changes of the map and the closed tabs, a caller has done that is not operating. -/
theorem step_tabs (tracked : Tracked s lost) {a : Action ι} (taken : step config s a = some t) {i : ι} {id : SessionId}
    (operating : s.phase i = .operating id) :
    t.sessions = s.sessions ∧ ∀ tab ∈ t.closed, tab ∈ s.closed ∨ ∃ j, tab ∈ (s.phase j).tabs := by
  cases a with
  | proceed j =>
    obtain ⟨⟨m,next⟩,gone,rfl⟩ := Option.map_eq_some_iff.mp taken
    have went := advance_cases gone
    have same : m.sessions = s.sessions := by
      by_cases other : j = i
      · subst other
        rw [operating] at gone
        cases gone
        rfl
      · exact tracked.unchanged operating other went.access
    refine ⟨same,fun tab inside => ?_⟩
    change tab ∈ m.closed at inside
    cases went.moves with
    | share _ closed _ => exact .inl (closed ▸ inside)
    | close _ _ exchanged =>
      rcases List.mem_append.mp (exchanged.mem_iff.mp (List.mem_append_left _ inside)) with before | held
      · exact .inl before
      · exact .inr ⟨j,held⟩
    | issue _ _ closed _ _ => exact .inl (closed ▸ inside)
  | call j request =>
    rw [step] at taken
    split at taken
    · cases taken
      exact ⟨rfl,fun _ inside => .inl inside⟩
    · cases taken
  | fail j message =>
    obtain ⟨next,_,rfl⟩ := Option.map_eq_some_iff.mp taken
    exact ⟨rfl,fun _ inside => .inl inside⟩
  | drop j =>
    rw [step] at taken
    split at taken
    · cases taken
    · cases taken
      exact ⟨rfl,fun _ inside => .inl inside⟩
  | lose j =>
    rw [step] at taken
    split at taken
    · cases taken
      exact ⟨rfl,fun _ inside => .inl inside⟩
    · cases taken
  | tick seconds =>
    cases taken
    exact ⟨rfl,fun _ inside => .inl inside⟩

/-- Whatever the callers do, fail at or drop: a session is in the map while an operation on it runs, alone, and no
step then takes a session out of the map or closes a tab of one. -/
theorem sessions_undisturbed (reach : Reachable (step config) (State.init ι) s) {i : ι} {id : SessionId}
    (operating : s.phase i = .operating id) :
    (∃ session ∈ s.sessions.rows, session.id = id) ∧ (∀ j other, s.phase j = .operating other → j = i) ∧
      ∀ a t, step config s a = some t → ∀ session ∈ s.sessions.rows,
        session ∈ t.sessions.rows ∧ (session.tab ∈ t.closed → session.tab ∈ s.closed) := by
  obtain ⟨lost,tracked⟩ := tracked_run reach
  refine ⟨tracked.present i id operating,?_,?_⟩
  · intro j other theirs
    have first := (tracked.map i).mp (by rw [operating]; rfl)
    have second := (tracked.map j).mp (by rw [theirs]; rfl)
    exact Option.some.inj (second.symm.trans first)
  · intro a t taken session present
    obtain ⟨same,closes⟩ := step_tabs tracked taken operating
    refine ⟨by rwa [same],fun inside => ?_⟩
    rcases closes _ inside with before | ⟨j,held⟩
    · exact before
    · have shared : session.tab ∈ places s lost .shared := List.mem_map_of_mem present
      exact absurd (tracked.kept.apart .shared (.call j) _ shared held) nofun

/-- Two callers: the tab of the first is navigated to its page while the second operates on a session. -/
theorem operating_alone : ∃ s : State Bool, Reachable (step (Config.new true)) (State.init Bool) s ∧ s.phase true = .operating 1 ∧
    (∃ session ∈ s.sessions.rows, session.id = 1) ∧ (∀ j other, s.phase j = .operating other → j = true) ∧
      ∀ a t, step (Config.new true) s a = some t → ∀ session ∈ s.sessions.rows,
        session ∈ t.sessions.rows ∧ (session.tab ∈ t.closed → session.tab ∈ s.closed) :=
  let run : List (Action Bool) := [.call true .start,.proceed true,.proceed true,.proceed true,.proceed true,.proceed true,
    .proceed true,.proceed true,.call true (.withSession 1),.proceed true]
  have ran : (exec (step (Config.new true)) (State.init Bool) run).isSome := rfl
  have reach := reachable_get (State.init Bool) run ran
  ⟨_,reach,rfl,sessions_undisturbed reach rfl⟩

end Runs

section Limit

variable {config : Config} {s t : State ι} {n : Nat}

/-- At most `n` callers are at once between the check of the limit and the insertion. -/
def Crowded (config : Config) (n : Nat) (s : State ι) (a : Action ι) : Prop :=
  ∀ t, step config s a = some t → AtMost n fun i => (t.phase i).admitted = true

/-- The sessions, with those that are to be inserted. -/
def Within (bound : Nat) (s : State ι) : Prop :=
  ∀ those : List ι, those.Nodup → (∀ i ∈ those, (s.phase i).admitted = true) → s.sessions.rows.length + those.length ≤ bound

theorem within_become {bound : Nat} (within : Within bound s) {i : ι} {m : Manager} {next : Phase}
    (room : m.sessions.rows.length + next.admitted.toNat ≤ s.sessions.rows.length + (s.phase i).admitted.toNat) :
    Within bound (s.become m i next) := by
  intro those distinct all
  change m.sessions.rows.length + those.length ≤ bound
  have others : ∀ j ∈ those, j ≠ i → (s.phase j).admitted = true := by
    intro j there other
    simpa [State.become,Function.update_of_ne other] using all j there
  by_cases there : i ∈ those
  · have now : next.admitted = true := by simpa [State.become] using all i there
    rw [now] at room
    cases before : (s.phase i).admitted with
    | true =>
      rw [before] at room
      have least := within those distinct fun j member => by
        by_cases same : j = i
        · rwa [same]
        · exact others j member same
      have fewer : m.sessions.rows.length ≤ s.sessions.rows.length := Nat.le_of_add_le_add_right room
      omega
    | false =>
      rw [before] at room
      have least := within (those.erase i) (distinct.erase i) fun j member => by
        obtain ⟨other,old⟩ := distinct.mem_erase_iff.mp member
        exact others j old other
      rw [List.length_erase_of_mem there] at least
      have some := List.length_pos_of_mem there
      simp only [Bool.toNat_true,Bool.toNat_false] at room
      omega
  · have rest : ∀ j ∈ those, (s.phase j).admitted = true := fun j member => others j member fun same => there (same ▸ member)
    cases before : (s.phase i).admitted with
    | true =>
      rw [before] at room
      have least := within (i :: those) (List.nodup_cons.mpr ⟨there,distinct⟩) (List.forall_mem_cons.mpr ⟨before,rest⟩)
      rw [List.length_cons] at least
      simp only [Bool.toNat_true] at room
      omega
    | false =>
      rw [before] at room
      have least := within those distinct rest
      simp only [Bool.toNat_false] at room
      omega

theorem within_step (within : Within (config.maxSessions + (n - 1)) s) {a : Action ι} (crowded : Crowded config n s a)
    (taken : step config s a = some t) : Within (config.maxSessions + (n - 1)) t := by
  have settles {i : ι} {m : Manager} {next : Phase} (same : m.sessions = s.sessions) (settled : next.admitted = false) :
      Within (config.maxSessions + (n - 1)) (s.become m i next) := by
    refine within_become within ?_
    rw [same,settled]
    exact Nat.le_add_right _ _
  cases a with
  | call i request =>
    rw [step] at taken
    split at taken
    · cases taken
      exact settles rfl (request_phase request).2.2.2.1
    · cases taken
  | proceed i =>
    have few := crowded t taken
    obtain ⟨⟨m,next⟩,gone,rfl⟩ := Option.map_eq_some_iff.mp taken
    rcases (advance_cases gone).room with room | ⟨same,below⟩
    · exact within_become within room
    · intro those distinct all
      have admitted := few those distinct all
      change m.sessions.rows.length + those.length ≤ _
      rw [same]
      omega
  | fail i message =>
    obtain ⟨next,fails,rfl⟩ := Option.map_eq_some_iff.mp taken
    obtain ⟨_,fell,_⟩ := failed_cases fails
    exact settles rfl fell.room
  | drop i =>
    rw [step] at taken
    split at taken
    · cases taken
    · cases taken
      exact settles rfl rfl
  | lose i =>
    rw [step] at taken
    split at taken
    · cases taken
      exact settles rfl rfl
    · cases taken
  | tick seconds =>
    cases taken
    exact within

/-- The limit is passed by one session less than there are callers at once between its check and the insertion. -/
theorem sessions_limited (reach : Reaches (step config) (Crowded config n) (State.init ι) s) :
    s.sessions.rows.length ≤ config.maxSessions + (n - 1) := by
  have initial : Within (config.maxSessions + (n - 1)) (State.init ι) := by
    intro those _ all
    cases those with
    | nil => exact Nat.zero_le _
    | cons i those => exact absurd (all i List.mem_cons_self) nofun
  have within := reach.invariant (fun _ _ _ within crowded taken => within_step within crowded taken) initial
  simpa using within [] List.nodup_nil nofun

theorem two_callers (p : Bool → Prop) : AtMost 2 p := fun _ distinct _ => distinct.length_le_card

/-- Two callers pass the check of a limit of one session, and both insert theirs. -/
theorem limit_passed : ∃ s : State Bool, Reaches (step ⟨true,1800,86400,1⟩) (Crowded ⟨true,1800,86400,1⟩ 2) (State.init Bool) s ∧
    s.sessions.rows.length = 2 ∧ s.sessions.rows.length ≤ 1 + (2 - 1) :=
  let run : List (Action Bool) := [.call true .start,.proceed true,.proceed true,.proceed true,.call false .start,.proceed false,
    .proceed false,.proceed true,.proceed true,.proceed true,.proceed true,.proceed false,.proceed false,.proceed false,.proceed false]
  have ran : (exec (step ⟨true,1800,86400,1⟩) (State.init Bool) run).isSome := rfl
  have reach : Reaches (step _) (Crowded ⟨true,1800,86400,1⟩ 2) (State.init Bool) _ :=
    (reachable_get (State.init Bool) run ran).weaken fun _ _ _ _ _ => two_callers _
  ⟨_,reach,rfl,sessions_limited reach⟩

end Limit

section Careful

/-- A careful run keeps the limit. -/
theorem bounded_step {config : Config} {s t : State ι} (bounded : s.sessions.rows.length ≤ config.maxSessions) {a : Action ι}
    (careful : Careful config s a) (taken : step config s a = some t) : t.sessions.rows.length ≤ config.maxSessions := by
  cases a with
  | proceed i =>
    obtain ⟨⟨m,next⟩,gone,rfl⟩ := Option.map_eq_some_iff.mp taken
    change m.sessions.rows.length ≤ config.maxSessions
    rcases (advance_cases gone).grown with fewer | ⟨more,tab,inserting⟩
    · exact Nat.le_trans fewer bounded
    · rw [more]
      exact careful tab inserting
  | call i request =>
    rw [step] at taken
    split at taken
    · cases taken
      exact bounded
    · cases taken
  | fail i message =>
    obtain ⟨next,_,rfl⟩ := Option.map_eq_some_iff.mp taken
    exact bounded
  | drop i =>
    rw [step] at taken
    split at taken
    · cases taken
    · cases taken
      exact bounded
  | lose i => exact absurd careful not_false
  | tick seconds =>
    cases taken
    exact bounded

omit [DecidableEq ι] in
/-- Where no tab is lost, every tab that was opened is a live session's, in the hands of a call, or closed. -/
theorem Tracked.accounted {s : State ι} (tracked : Tracked s []) {tab : Tab} (opened : tab < s.nextTab) : Accounted s tab := by
  obtain ⟨place,inside⟩ := tracked.kept.all tab opened
  cases place with
  | shared =>
    obtain ⟨session,present,rfl⟩ := List.mem_map.mp inside
    refine .inl ⟨session,⟨present,rfl⟩,fun other ⟨there,same⟩ => ?_⟩
    exact List.inj_on_of_nodup_map (tracked.kept.once .shared) there present same
  | call i => exact .inr (.inl ⟨i,inside⟩)
  | closed => exact .inr (.inr inside)
  | lost => exact absurd inside List.not_mem_nil

/-- In a run in which sessions are inserted where there is room, and nobody fails or leaves with a tab in hand, the
limit holds, no tab is lost, and no session is disturbed. -/
theorem careful_sound {config : Config} {s : State ι} (reach : Reaches (step config) (Careful config) (State.init ι) s) :
    Sound config s := by
  have keep (s : State ι) (a : Action ι) (t : State ι) (kept : Tracked s [] ∧ s.sessions.rows.length ≤ config.maxSessions)
      (careful : Careful config s a) (taken : step config s a = some t) :
      Tracked t [] ∧ t.sessions.rows.length ≤ config.maxSessions := by
    obtain ⟨dropped,tracked,kind⟩ := tracked_step kept.1 taken
    rw [kind careful] at tracked
    exact ⟨tracked,bounded_step kept.2 careful taken⟩
  obtain ⟨tracked,bounded⟩ := reach.invariant keep ⟨tracked_init,Nat.zero_le _⟩
  refine ⟨bounded,fun tab opened => tracked.accounted opened,tracked.present,?_⟩
  intro action t taken i id operating session present _
  obtain ⟨_,_,still⟩ := sessions_undisturbed reach.reachable operating
  obtain ⟨stays,closes⟩ := still action t taken session present
  exact ⟨stays,fun alive closed => alive (closes closed)⟩

/-- A session is started by one caller and ended by another. -/
theorem started_ended : ∃ s : State Bool, Reaches (step (Config.new true)) (Careful (Config.new true)) (State.init Bool) s ∧
    s.closed = [0] ∧ Sound (Config.new true) s :=
  let run : List (Action Bool) := [.call true .start,.proceed true,.proceed true,.proceed true,.proceed true,.proceed true,
    .proceed true,.proceed true,.call false (.endSession 1),.proceed false,.proceed false]
  let check (s : State Bool) : Action Bool → Bool
    | .proceed _ => decide (s.sessions.rows.length < defaultMaxSessions)
    | .call _ _ => true
    | _ => false
  have sound : ∀ s a, check s a = true → Careful (Config.new true) s a := by
    intro s a checked
    cases a with
    | proceed i => exact fun _ _ => of_decide_eq_true checked
    | call i request => exact trivial
    | _ => cases checked
  have ran : (exec (step (Config.new true)) (State.init Bool) run).isSome := rfl
  have reach := reaches_of_exec (Option.some_get ran).symm (allowed_of_check sound (rfl : allowedBy (step (Config.new true)) check _ run = true))
  ⟨_,reach,rfl,careful_sound reach⟩

end Careful

end Qdrust.Browser
