import Qdrust.Library.Concurrent

/-! The cache of catalogues, read by many requests at once. The lock is held for one
look or one change at a time, and never while a source is fetched. -/
namespace Qdrust.Subscriptions.CatalogueCache
open Library Concurrent

/-- A catalogue with the number of the fetch it comes from. -/
structure Fetched (κ : Type) where
  fetch : Nat
  catalogue : κ

structure CachedCatalogue (κ : Type) where
  fetchedAt : Nat
  fetched : Fetched κ

/-- The cache, the clock of the process, what the sources would answer now, and the
number of fetches begun. -/
structure Cache (κ : Type) where
  entries : String → Option (CachedCatalogue κ)
  instant : Nat
  sources : String → Except String κ
  fetches : Nat

/-- Seconds. -/
def catalogueTtl : Nat := 90

variable {κ : Type}

def CachedCatalogue.elapsed (hit : CachedCatalogue κ) (cache : Cache κ) : Nat := cache.instant - hit.fetchedAt

inductive Request (κ : Type) where
  | recent (url : String) (maxAge : Nat)
  | beginFetch (url : String)
  | endFetch (url : String)
  | lastGood (url : String)
  | store (url : String) (fetched : Fetched κ)

abbrev Request.Answer : Request κ → Type
  | .recent _ _ => Option (Fetched κ)
  | .beginFetch _ => Nat
  | .endFetch _ => Except String κ
  | .lastGood _ => Option (Fetched κ)
  | .store _ _ => Unit

/-- `retain`, then `insert`. -/
def Cache.store (cache : Cache κ) (url : String) (fetched : Fetched κ) : Cache κ where
  entries := Function.update
    (fun other => (cache.entries other).filter fun hit => hit.elapsed cache < catalogueTtl) url
    (some ⟨cache.instant,fetched⟩)
  instant := cache.instant
  sources := cache.sources
  fetches := cache.fetches

def handle : Handler (Request κ) Request.Answer (Cache κ)
  | .recent url maxAge,cache =>
    (((cache.entries url).filter fun hit => hit.elapsed cache < maxAge).map CachedCatalogue.fetched,cache)
  | .beginFetch _,cache => (cache.fetches,{ cache with fetches := cache.fetches + 1 })
  | .endFetch url,cache => (cache.sources url,cache)
  | .lastGood url,cache => ((cache.entries url).map CachedCatalogue.fetched,cache)
  | .store url fetched,cache => ((),cache.store url fetched)

abbrev Calls (κ : Type) := Routine (Request κ) Request.Answer

abbrev ask (request : Request κ) : Calls κ request.Answer := Routine.ask request

/-- The catalogue, and whether it is a copy. -/
abbrev Reply (κ : Type) := Except String (Fetched κ × Bool)

structure Read where
  url : String
  maxAge : Nat

/-- A read that asks for the current state. -/
def Read.refreshes (read : Read) : Prop := read.maxAge = 0

def fetchCatalogue (read : Read) : Calls κ (Reply κ) := do
  let fetch ← ask (.beginFetch read.url : Request κ)
  match ← ask (.endFetch read.url : Request κ) with
  | .ok catalogue =>
    ask (.store read.url ⟨fetch,catalogue⟩)
    return .ok (⟨fetch,catalogue⟩,false)
  | .error error =>
    if read.maxAge = 0 then return .error error
    else match ← ask (.lastGood read.url : Request κ) with
      | some hit => return .ok (hit,true)
      | none => return .error error

def catalogueVia (read : Read) : Calls κ (Reply κ) :=
  if read.maxAge = 0 then fetchCatalogue read
  else do
    match ← ask (.recent read.url read.maxAge : Request κ) with
    | some hit => return .ok (hit,true)
    | none => fetchCatalogue read

/-- Time passes, or a source changes or becomes unreachable. -/
inductive Outside (κ : Type) where
  | elapse (time : Nat)
  | source (url : String) (answer : Except String κ)

def occur : Outside κ → Cache κ → Option (Cache κ)
  | .elapse time,cache => some { cache with instant := cache.instant + time }
  | .source url answer,cache => some { cache with sources := Function.update cache.sources url answer }

variable {ι : Type} [DecidableEq ι]

abbrev World (ι κ : Type) := Concurrent.World ι (Request κ) Request.Answer (Cache κ)

abbrev State (ι κ : Type) := Concurrent.State ι (Request κ) Request.Answer (Cache κ) (Reply κ)

def empty (sources : String → Except String κ) : Cache κ := ⟨fun _ => none,0,sources,0⟩

def start (reads : ι → Read) (sources : String → Except String κ) : State ι κ :=
  State.start (empty sources) fun i => catalogueVia (reads i)

/-- Locks are always taken in the end, and a fetch always ends: calls do not fail. -/
abbrev step (s : State ι κ) (action : Action ι (Outside κ)) : Option (State ι κ) := stepMade handle occur s action

/-- A fetch of the source has succeeded. -/
def Stores (url : String) (event : Event ι (Request κ) Request.Answer) : Prop :=
  ∃ fetched answer, event = ⟨event.process,.store url fetched,answer⟩

/-- A refresh of the source has returned what the fetch of this number gave. -/
def Refreshed (reads : ι → Read) (url : String) (fetch : Nat) (event : Event ι (Request κ) Request.Answer) : Prop :=
  (reads event.process).refreshes ∧ ∃ catalogue answer, event = ⟨event.process,.store url ⟨fetch,catalogue⟩,answer⟩

/-- What readers rely on: a read behind a successful fetch succeeds, and one behind a
refresh answers with nothing older. -/
structure ReadsServed (reads : ι → Read) (s : State ι κ) : Prop where
  served : ∀ i event result, Stores (reads i).url event → Follows s.past event i → ¬(reads i).refreshes →
    (s.process i).result = some result → ∃ fetched copy, result = .ok (fetched,copy)
  fresh : ∀ i event fetch fetched copy, Refreshed reads (reads i).url fetch event → Follows s.past event i →
    (s.process i).result = some (.ok (fetched,copy)) → fetch ≤ fetched.fetch

/-- What a fetch brings is stored while no copy of another source is too old to be
kept, and no refresh whose fetch began later has returned. -/
def Apart (reads : ι → Read) (s : State ι κ) : Action ι (Outside κ) → Prop
  | .call i _ => ∀ url fetched next, s.process i = .call (.store url fetched) next →
    (∀ other hit, other ≠ url → s.shared.entries other = some hit → hit.elapsed s.shared < catalogueTtl) ∧
      ∀ event fetch, event ∈ s.past → Refreshed reads url fetch event → fetch ≤ fetched.fetch
  | .outside _ => True

section Stages

variable {reads : ι → Read}

def storing (read : Read) (fetched : Fetched κ) : Calls κ (Reply κ) :=
  .call (.store read.url fetched) (Routine.answered fun _ => .done (.ok (fetched,false)))

def copied (error : String) : Option (Fetched κ) → Calls κ (Reply κ)
  | some hit => .done (.ok (hit,true))
  | none => .done (.error error)

def fetched (read : Read) (fetch : Nat) : Except String κ → Calls κ (Reply κ)
  | .ok catalogue => storing read ⟨fetch,catalogue⟩
  | .error error =>
    if read.maxAge = 0 then .done (.error error)
    else .call (.lastGood read.url) (Routine.answered (copied error))

def fetching (read : Read) (fetch : Nat) : Calls κ (Reply κ) :=
  .call (.endFetch read.url) (Routine.answered (fetched read fetch))

def looked (read : Read) : Option (Fetched κ) → Calls κ (Reply κ)
  | some hit => .done (.ok (hit,true))
  | none => fetchCatalogue read

theorem fetchCatalogue_eq (read : Read) : (fetchCatalogue read : Calls κ (Reply κ)) =
    .call (.beginFetch read.url) (Routine.answered (fetching read)) := by
  rw [fetchCatalogue,Routine.ask_bind]
  refine Routine.call_congr fun fetch => ?_
  rw [Routine.ask_bind]
  refine Routine.call_congr fun answer => ?_
  cases answer with
  | ok catalogue => exact Routine.ask_bind _ _
  | error error =>
    by_cases refreshes : read.maxAge = 0
    · simp only [fetched,refreshes,if_true,Routine.pure_eq]
    · simp only [fetched,refreshes,if_false,Routine.ask_bind]
      refine Routine.call_congr fun hit => ?_
      cases hit <;> rfl

theorem catalogueVia_refresh {read : Read} (refreshes : read.refreshes) :
    (catalogueVia read : Calls κ (Reply κ)) = fetchCatalogue read := if_pos refreshes

theorem catalogueVia_eq {read : Read} (copies : ¬read.refreshes) : (catalogueVia read : Calls κ (Reply κ)) =
    .call (.recent read.url read.maxAge) (Routine.answered (looked read)) := by
  rw [Read.refreshes] at copies
  rw [catalogueVia,if_neg copies,Routine.ask_bind]
  refine Routine.call_congr fun hit => ?_
  cases hit <;> rfl

def Begun (past : List (Event ι (Request κ) Request.Answer)) (i : ι) : Prop := ∃ e ∈ past, e.process = i

/-- The fetch began behind every refresh that the process follows. -/
def Recent (reads : ι → Read) (past : List (Event ι (Request κ) Request.Answer)) (i : ι) (fetch : Nat) : Prop :=
  ∀ event earlier, Refreshed reads (reads i).url earlier event → Follows past event i → earlier ≤ fetch

/-- How far a read has come. -/
inductive Stage (reads : ι → Read) (i : ι) (world : World ι κ) : Calls κ (Reply κ) → Prop
  | unbegun (none : ¬Begun world.past i) : Stage reads i world (catalogueVia (reads i))
  | missed (begun : Begun world.past i) : Stage reads i world (fetchCatalogue (reads i))
  | fetching (fetch : Nat) (begun : Begun world.past i) (numbered : fetch < world.shared.fetches)
      (recent : Recent reads world.past i fetch) : Stage reads i world (fetching (reads i) fetch)
  | storing (result : Fetched κ) (begun : Begun world.past i) (numbered : result.fetch < world.shared.fetches)
      (recent : Recent reads world.past i result.fetch) : Stage reads i world (storing (reads i) result)
  | fallingBack (error : String) (begun : Begun world.past i) :
      Stage reads i world (.call (.lastGood (reads i).url) (Routine.answered (copied error)))
  | served (result : Fetched κ) (copy : Bool) (begun : Begun world.past i)
      (recent : Recent reads world.past i result.fetch) : Stage reads i world (.done (.ok (result,copy)))
  | refused (error : String) (begun : Begun world.past i)
      (without : ¬(reads i).refreshes → ∀ event, Stores (reads i).url event → ¬Follows world.past event i) :
      Stage reads i world (.done (.error error))

/-- Every source that was fetched has a copy, none older than a refresh that returned. -/
structure Kept (reads : ι → Read) (world : World ι κ) : Prop where
  copies : ∀ url event, event ∈ world.past → Stores url event → world.shared.entries url ≠ none
  recent : ∀ url event fetch hit, event ∈ world.past → Refreshed reads url fetch event →
    world.shared.entries url = some hit → fetch ≤ hit.fetched.fetch
  numbered : ∀ url event fetch, event ∈ world.past → Refreshed reads url fetch event → fetch < world.shared.fetches

omit [DecidableEq ι] in
theorem Kept.recentHit {world : World ι κ} (kept : Kept reads world) {i : ι} {hit : CachedCatalogue κ}
    (found : world.shared.entries (reads i).url = some hit) : Recent reads world.past i hit.fetched.fetch :=
  fun _ _ refreshed follows => kept.recent _ _ _ _ follows.mem refreshed found

omit [DecidableEq ι] in
theorem past_made (world : World ι κ) (i : ι) (request : Request κ) :
    (world.perform handle i request false).past = ⟨i,request,some (handle request world.shared).1⟩ :: world.past := rfl

omit [DecidableEq ι] in
theorem begun_self (world : World ι κ) (i : ι) (request : Request κ) :
    Begun (world.perform handle i request false).past i := ⟨_,List.mem_cons_self,rfl⟩

omit [DecidableEq ι] in
theorem Begun.perform {world : World ι κ} {j : ι} (begun : Begun world.past j) (i : ι) (request : Request κ) :
    Begun (world.perform handle i request false).past j := by
  obtain ⟨e,there,mine⟩ := begun
  exact ⟨e,List.mem_cons_of_mem _ there,mine⟩

omit [DecidableEq ι] in
/-- A process follows nothing new once it has made a call. -/
theorem Recent.perform {world : World ι κ} {j : ι} {fetch : Nat} (recent : Recent reads world.past j fetch) (i : ι)
    (request : Request κ) (begun : Begun (world.perform handle i request false).past j) :
    Recent reads (world.perform handle i request false).past j fetch :=
  fun event earlier refreshed follows => recent event earlier refreshed (follows.earlier begun)

omit [DecidableEq ι] in
theorem fetches_mono (request : Request κ) (cache : Cache κ) : cache.fetches ≤ (handle request cache).2.fetches := by
  cases request with
  | beginFetch url => exact Nat.le_succ _
  | recent url maxAge => exact Nat.le_refl _
  | endFetch url => exact Nat.le_refl _
  | lastGood url => exact Nat.le_refl _
  | store url result => exact Nat.le_refl _

omit [DecidableEq ι] in
/-- A call that stores nothing leaves the copies. -/
theorem Kept.quiet {world : World ι κ} (kept : Kept reads world) (i : ι) {request : Request κ}
    (other : ∀ url result, request ≠ .store url result) : Kept reads (world.perform handle i request false) := by
  have same : (handle request world.shared).2.entries = world.shared.entries := by
    cases request with
    | recent url maxAge => rfl
    | beginFetch url => rfl
    | endFetch url => rfl
    | lastGood url => rfl
    | store url result => exact absurd rfl (other url result)
  constructor
  · intro url event there stores
    rw [perform_made,same]
    rcases List.mem_cons.mp there with rfl | old
    · obtain ⟨result,answer,made⟩ := stores
      cases made
      exact absurd rfl (other _ _)
    · exact kept.copies url event old stores
  · intro url event fetch hit there refreshed found
    rw [perform_made,same] at found
    rcases List.mem_cons.mp there with rfl | old
    · obtain ⟨-,catalogue,answer,made⟩ := refreshed
      cases made
      exact absurd rfl (other _ _)
    · exact kept.recent url event fetch hit old refreshed found
  · intro url event fetch there refreshed
    rw [perform_made]
    rcases List.mem_cons.mp there with rfl | old
    · obtain ⟨-,catalogue,answer,made⟩ := refreshed
      cases made
      exact absurd rfl (other _ _)
    · exact Nat.lt_of_lt_of_le (kept.numbered url event fetch old refreshed) (fetches_mono request world.shared)

theorem store_self (cache : Cache κ) (url : String) (result : Fetched κ) :
    (cache.store url result).entries url = some ⟨cache.instant,result⟩ := by
  simp only [Cache.store,Function.update_self]

theorem store_other (cache : Cache κ) {url other : String} (differs : other ≠ url) (result : Fetched κ) :
    (cache.store url result).entries other =
      (cache.entries other).filter fun hit => hit.elapsed cache < catalogueTtl := by
  simp only [Cache.store,Function.update_of_ne differs]

omit [DecidableEq ι] in
/-- What a fetch brings is stored. -/
theorem Kept.stored {world : World ι κ} (kept : Kept reads world) (i : ι) {url : String} {result : Fetched κ}
    (numbered : result.fetch < world.shared.fetches)
    (young : ∀ other hit, other ≠ url → world.shared.entries other = some hit → hit.elapsed world.shared < catalogueTtl)
    (newer : ∀ event fetch, event ∈ world.past → Refreshed reads url fetch event → fetch ≤ result.fetch) :
    Kept reads (world.perform handle i (.store url result) false) := by
  have others : ∀ other, other ≠ url →
      (world.shared.store url result).entries other = world.shared.entries other := by
    intro other differs
    rw [store_other _ differs]
    cases found : world.shared.entries other with
    | none => rfl
    | some hit => rw [Option.filter_some,if_pos (decide_eq_true (young other hit differs found))]
  constructor
  · intro other event there stores
    change (world.shared.store url result).entries other ≠ none
    by_cases same : other = url
    · subst same
      rw [store_self]
      exact Option.some_ne_none _
    · rw [others other same]
      rcases List.mem_cons.mp there with rfl | old
      · obtain ⟨result,answer,made⟩ := stores
        cases made
        exact absurd rfl same
      · exact kept.copies other event old stores
  · intro other event fetch hit there refreshed found
    change (world.shared.store url result).entries other = some hit at found
    by_cases same : other = url
    · subst same
      rw [store_self] at found
      cases found
      rcases List.mem_cons.mp there with rfl | old
      · obtain ⟨-,catalogue,answer,made⟩ := refreshed
        cases made
        exact Nat.le_refl _
      · exact newer event fetch old refreshed
    · rw [others other same] at found
      rcases List.mem_cons.mp there with rfl | old
      · obtain ⟨-,catalogue,answer,made⟩ := refreshed
        cases made
        exact absurd rfl same
      · exact kept.recent other event fetch hit old refreshed found
  · intro other event fetch there refreshed
    rcases List.mem_cons.mp there with rfl | old
    · obtain ⟨-,catalogue,answer,made⟩ := refreshed
      cases made
      exact numbered
    · exact kept.numbered other event fetch old refreshed

omit [DecidableEq ι] in
/-- A process that makes no call has got no further. -/
theorem Stage.others {world : World ι κ} {i j : ι} (differs : j ≠ i) (request : Request κ) {routine : Calls κ (Reply κ)}
    (stage : Stage reads j world routine) : Stage reads j (world.perform handle i request false) routine := by
  cases stage with
  | unbegun none =>
    apply Stage.unbegun
    rintro ⟨e,there,mine⟩
    rcases List.mem_cons.mp there with rfl | old
    · exact differs mine.symm
    · exact none ⟨e,old,mine⟩
  | missed begun => exact .missed (begun.perform i request)
  | fetching fetch begun numbered recent =>
    exact .fetching fetch (begun.perform i request) (Nat.lt_of_lt_of_le numbered (fetches_mono request _))
      (recent.perform i request (begun.perform i request))
  | storing result begun numbered recent =>
    exact .storing result (begun.perform i request) (Nat.lt_of_lt_of_le numbered (fetches_mono request _))
      (recent.perform i request (begun.perform i request))
  | fallingBack error begun => exact .fallingBack error (begun.perform i request)
  | served result copy begun recent =>
    exact .served result copy (begun.perform i request) (recent.perform i request (begun.perform i request))
  | refused error begun without =>
    exact .refused error (begun.perform i request) fun cacheable event stores follows =>
      without cacheable event stores (follows.earlier (begun.perform i request))

omit [DecidableEq ι] in
/-- A copy that is found is none older than the refreshes before it. -/
theorem Kept.found {world : World ι κ} (kept : Kept reads world) {i : ι} (request : Request κ) {hit : CachedCatalogue κ}
    (found : world.shared.entries (reads i).url = some hit) :
    Stage reads i (world.perform handle i request false) (.done (.ok (hit.fetched,true))) :=
  .served _ _ (begun_self world i request) ((kept.recentHit found).perform i request (begun_self world i request))

omit [DecidableEq ι] in
/-- A fetch begins behind everything that has returned. -/
theorem Kept.begin {world : World ι κ} (kept : Kept reads world) (i : ι) :
    Stage reads i (world.perform handle i (.beginFetch (reads i).url) false) (fetching (reads i) world.shared.fetches) := by
  refine .fetching _ (begun_self world i _) (Nat.lt_succ_self _) ?_
  intro event earlier refreshed follows
  exact Nat.le_of_lt (kept.numbered _ _ _ (follows.earlier (begun_self world i _)).mem refreshed)

omit [DecidableEq ι] in
/-- A read's own call keeps the copies and its stage. -/
theorem own_call {s : State ι κ} {i : ι} {request : Request κ} {next : Option request.Answer → Calls κ (Reply κ)}
    (kept : Kept reads s.toWorld) (stage : Stage reads i s.toWorld (s.process i)) (apart : Apart reads s (.call i false))
    (outstanding : s.process i = .call request next) :
    Kept reads (s.toWorld.perform handle i request false) ∧
      Stage reads i (s.toWorld.perform handle i request false) (next (some (handle request s.shared).1)) := by
  have write := apart
  generalize running : s.process i = routine at stage outstanding
  have fetches : ∀ {request : Request κ} {next : Option request.Answer → Calls κ (Reply κ)},
      fetchCatalogue (reads i) = .call request next → Kept reads (s.toWorld.perform handle i request false) ∧
        Stage reads i (s.toWorld.perform handle i request false) (next (some (handle request s.shared).1)) := by
    intro request next outstanding
    rw [fetchCatalogue_eq] at outstanding
    cases outstanding
    exact ⟨kept.quiet i (by rintro _ _ ⟨⟩),kept.begin i⟩
  cases stage with
  | unbegun none =>
    by_cases refreshes : (reads i).refreshes
    · rw [catalogueVia_refresh refreshes] at outstanding
      exact fetches outstanding
    · rw [catalogueVia_eq refreshes] at outstanding
      cases outstanding
      refine ⟨kept.quiet i (by rintro _ _ ⟨⟩),?_⟩
      simp only [handle,Routine.answered_some]
      cases found : (s.shared.entries (reads i).url).filter fun hit => hit.elapsed s.shared < (reads i).maxAge with
      | none => exact .missed (begun_self s.toWorld i _)
      | some hit => exact kept.found _ (Option.filter_eq_some_iff.mp found).1
  | missed begun => exact fetches outstanding
  | fetching fetch begun numbered recent =>
    cases outstanding
    refine ⟨kept.quiet i (by rintro _ _ ⟨⟩),?_⟩
    simp only [handle,Routine.answered_some]
    have begun := begun.perform i (.endFetch (reads i).url)
    have recent := recent.perform i (.endFetch (reads i).url) begun
    cases s.shared.sources (reads i).url with
    | ok catalogue => exact .storing _ begun numbered recent
    | error error =>
      rw [fetched]
      by_cases refreshes : (reads i).maxAge = 0
      · rw [if_pos refreshes]
        exact .refused error begun fun cacheable => absurd refreshes cacheable
      · rw [if_neg refreshes]
        exact .fallingBack error begun
  | storing result begun numbered recent =>
    cases outstanding
    obtain ⟨young,newer⟩ := write _ _ _ running
    exact ⟨kept.stored i numbered young newer,.served _ _ (begun.perform i _) (recent.perform i _ (begun.perform i _))⟩
  | fallingBack error begun =>
    cases outstanding
    refine ⟨kept.quiet i (by rintro _ _ ⟨⟩),?_⟩
    simp only [handle,Routine.answered_some]
    cases found : s.shared.entries (reads i).url with
    | some hit => exact kept.found _ found
    | none =>
      refine .refused error (begun.perform i _) fun _ event stores follows => ?_
      exact kept.copies _ event (follows.earlier (begun.perform i _)).mem stores found
  | served result copy begun recent => cases outstanding
  | refused error begun without => cases outstanding

theorem kept_run {sources : String → Except String κ} {s : State ι κ}
    (reach : Transition.Reaches step (Apart reads) (start reads sources) s) :
    Assertions (Kept reads) (Stage reads) s := by
  refine made_assertions_kept (Kept reads) (Stage reads) ?_ ?_ ?_ reach ⟨⟨?_,?_,?_⟩,?_⟩
  · intro s i request next holds apart outstanding
    exact own_call holds.common (holds.stage i) apart outstanding
  · intro s i request next j holds _ _ differs
    exact (holds.stage j).others differs request
  · intro s event shared holds _ occurred
    have same : shared.entries = s.shared.entries ∧ shared.fetches = s.shared.fetches := by
      cases event with
      | elapse time => cases occurred; exact ⟨rfl,rfl⟩
      | source url answer => cases occurred; exact ⟨rfl,rfl⟩
    refine ⟨⟨?_,?_,?_⟩,?_⟩
    · intro url event there stores
      rw [same.1]
      exact holds.common.copies url event there stores
    · intro url event fetch hit there refreshed found
      rw [same.1] at found
      exact holds.common.recent url event fetch hit there refreshed found
    · intro url event fetch there refreshed
      rw [same.2]
      exact holds.common.numbered url event fetch there refreshed
    · intro j
      have stage := holds.stage j
      generalize s.process j = routine at stage ⊢
      cases stage with
      | unbegun none => exact .unbegun none
      | missed begun => exact .missed begun
      | fetching fetch begun numbered recent => exact .fetching fetch begun (same.2 ▸ numbered) recent
      | storing result begun numbered recent => exact .storing result begun (same.2 ▸ numbered) recent
      | fallingBack error begun => exact .fallingBack error begun
      | served result copy begun recent => exact .served result copy begun recent
      | refused error begun without => exact .refused error begun without
  · rintro _ _ ⟨⟩
  · rintro _ _ _ _ ⟨⟩
  · rintro _ _ _ ⟨⟩
  · intro i
    apply Stage.unbegun
    rintro ⟨_,⟨⟩,_⟩

end Stages

/-- In a run whose steps keep apart what a fetch brings, the copies that are too old
and the refreshes, readers are served as they rely on it. -/
theorem reads_served (reads : ι → Read) (sources : String → Except String κ) {s : State ι κ}
    (reach : Transition.Reaches step (Apart reads) (start reads sources) s) : ReadsServed reads s := by
  have holds := kept_run reach
  constructor
  · intro i event result stores follows cacheable ended
    have stage := holds.stage i
    generalize s.process i = routine at stage ended
    cases stage with
    | unbegun none =>
      rw [catalogueVia_eq cacheable] at ended
      cases ended
    | missed begun =>
      rw [fetchCatalogue_eq] at ended
      cases ended
    | fetching fetch begun numbered recent => cases ended
    | storing result begun numbered recent => cases ended
    | fallingBack error begun => cases ended
    | served result copy begun recent =>
      cases ended
      exact ⟨_,_,rfl⟩
    | refused error begun without => exact absurd follows (without cacheable event stores)
  · intro i event fetch result copy refreshed follows ended
    have stage := holds.stage i
    generalize s.process i = routine at stage ended
    cases stage with
    | unbegun none =>
      by_cases refreshes : (reads i).refreshes
      · rw [catalogueVia_refresh refreshes,fetchCatalogue_eq] at ended
        cases ended
      · rw [catalogueVia_eq refreshes] at ended
        cases ended
    | missed begun =>
      rw [fetchCatalogue_eq] at ended
      cases ended
    | fetching fetch begun numbered recent => cases ended
    | storing result begun numbered recent => cases ended
    | fallingBack error begun => cases ended
    | served result copy begun recent =>
      cases ended
      exact recent event fetch refreshed follows
    | refused error begun without => cases ended

/-- A refresh of one source, and reads of two. -/
def threeReads : Fin 3 → Read
  | 0 => ⟨"a",0⟩
  | 1 => ⟨"b",90⟩
  | 2 => ⟨"a",90⟩

def reachable : String → Except String String := fun _ => .ok "listing"

/-- The calls of one fetch that succeeds. -/
def fetchCalls (i : Fin 3) : List (Action (Fin 3) (Outside String)) := [.call i false,.call i false,.call i false]

/-- A source that cannot be reached any more is served from the last good copy. -/
theorem reads_served_last_good : ∃ s : State (Fin 3) String, Transition.exec step (start threeReads reachable)
      (fetchCalls 0 ++ [.outside (.elapse 100),.outside (.source "a" (.error "down"))] ++ fetchCalls 2 ++ [.call 2 false]) =
        some s ∧
    (s.process 2).result = some (.ok (⟨0,"listing"⟩,true)) ∧ ReadsServed threeReads s := by
  obtain ⟨s,ran⟩ : ∃ s, Transition.exec step (start threeReads reachable)
      (fetchCalls 0 ++ [.outside (.elapse 100),.outside (.source "a" (.error "down"))] ++ fetchCalls 2 ++ [.call 2 false]) =
        some s := ⟨_,rfl⟩
  have answered := congrArg (Option.map fun s => (s.process 2).result) ran
  refine ⟨s,ran,(Option.some.inj answered).symm,reads_served threeReads reachable (Transition.reaches_of_exec ran ?_)⟩
  iterate 2
    refine ⟨?_,?_⟩
    · rintro _ _ _ ⟨⟩
    rintro _ ⟨⟩
  refine ⟨?_,?_⟩
  · rintro _ _ _ ⟨⟩
    refine ⟨?_,?_⟩
    · rintro _ _ _ ⟨⟩
    · rintro _ _ (_ | ⟨_,_ | ⟨_,⟨⟩⟩⟩) ⟨-,_,_,⟨⟩⟩
  rintro _ ⟨⟩
  iterate 2
    refine ⟨trivial,?_⟩
    rintro _ ⟨⟩
  iterate 4
    refine ⟨?_,?_⟩
    · rintro _ _ _ ⟨⟩
    rintro _ ⟨⟩
  trivial

/-- Two reads of one source, one of them before a refresh. -/
def overtaken : Fin 3 → Read
  | 0 => ⟨"a",90⟩
  | 1 => ⟨"a",0⟩
  | 2 => ⟨"a",90⟩

/-- A fetch of another source drops the last good copy; a slow fetch replaces what a
refresh has brought. -/
theorem reads_not_served :
    (∃ s : State (Fin 3) String, Transition.exec step (start threeReads reachable)
      (fetchCalls 0 ++ [.outside (.elapse 100),.call 1 false] ++ fetchCalls 1 ++
        [.outside (.source "a" (.error "down")),.call 2 false] ++ fetchCalls 2) = some s ∧ ¬ReadsServed threeReads s) ∧
    ∃ s : State (Fin 3) String, Transition.exec step (start overtaken reachable)
      ([.call 0 false,.call 0 false] ++ fetchCalls 1 ++ [.call 0 false,.call 0 false,.call 2 false]) = some s ∧
        ¬ReadsServed overtaken s := by
  constructor
  · refine ⟨_,rfl,fun kept => ?_⟩
    have behind := kept.served 2 ⟨0,.store "a" ⟨0,"listing"⟩,some ()⟩ (.error "down") ⟨_,_,rfl⟩
      ⟨[_,_,_,_,_,_,_,_],[_,_],rfl,by rintro _ (_ | ⟨_,_ | ⟨_,_ | ⟨_,⟨⟩⟩⟩⟩) <;> exact (by decide : (0 : Fin 3) ≠ 2)⟩
      (fun refreshes => absurd refreshes (by decide : ¬(90 : Nat) = 0)) rfl
    obtain ⟨_,_,⟨⟩⟩ := behind
  · refine ⟨_,rfl,fun kept => ?_⟩
    have behind := kept.fresh 2 ⟨1,.store "a" ⟨1,"listing"⟩,some ()⟩ 1 ⟨0,"listing"⟩ true ⟨rfl,_,_,rfl⟩
      ⟨[_,_,_],[_,_,_,_],rfl,by
        rintro _ (_ | ⟨_,_ | ⟨_,_ | ⟨_,_ | ⟨_,_ | ⟨_,⟨⟩⟩⟩⟩⟩⟩) <;>
          first | exact (by decide : (0 : Fin 3) ≠ 2) | exact (by decide : (1 : Fin 3) ≠ 2)⟩
      rfl
    exact absurd behind (by decide)

end Qdrust.Subscriptions.CatalogueCache
