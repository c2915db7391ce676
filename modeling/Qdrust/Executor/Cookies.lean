import Qdrust.Executor.Assignments
import Qdrust.Executor.Endings

/-! The cookies of a run: what the entries declare, what the variable keeps of it, and what is sent
with a request. -/
namespace Qdrust.Executor
open Library Effect Har Template

/-- A piece of a header is cut at its first `=`. -/
def cookieOf (piece : List Char) : String × String :=
  match Text.splitList ['='] piece with
  | some (name,value) => (trimmed (String.ofList name),trimmed (String.ofList value))
  | none => (trimmed (String.ofList piece),"")

/-- The cookies of a header; that of a `Set-Cookie` header is the first. -/
def cookiePairs (header : String) : List (String × String) := (header.toList.splitOnP (· = ';')).map cookieOf

def isCookie (name : String) : Bool := eqIgnoreAsciiCase name "cookie"

def cookieHeaders (headers : Headers) : List String := (headers.filter fun header => isCookie header.1).map (·.2)

/-- The context in which the variable has the last header. -/
def remembering (context : ExecutionContext) : Option String → ExecutionContext
  | some cookie => { context with vars := insertVar context.vars cookieVar (.str cookie) }
  | none => context

/-- The cookie headers an entry declares: those it names, and that of its list. -/
def declaredBy (services : Services) (entry : QdHarEntry) (context : ExecutionContext) : List String :=
  match renderHeaders services context entry.request.headers with
  | .error _ => []
  | .ok (headers,last) =>
    match renderCookies services (remembering context last) entry.request.cookies with
    | .error _ => cookieHeaders headers
    | .ok cookies => cookieHeaders headers ++ (joinedCookies cookies).toList

/-- They are declared for the URL of the request. -/
def declarations (executor : QdExecutor) (entry : QdHarEntry) (state : Execution) : List (String × String) :=
  match executor.services.render entry.request.url state.context with
  | .error _ => []
  | .ok url =>
    if hasPrefix url "api://" then []
    else (declaredBy executor.services entry (state.begun executor entry).context).map fun value => (url,value)

/-- An execution with all that has been declared before, and the URL for which the header was
declared that the variable keeps. -/
structure Tracked where
  execution : Execution
  declared : List (String × String)
  keeper : Option String

def Tracked.begin (state : Execution) : Tracked := ⟨state,[],none⟩

def kept (state : Execution) : Option String := state.context.vars.text cookieVar

def assigns (entry : QdHarEntry) : Bool := entry.extractVariables.any fun rule => rule.name = cookieVar

def Tracked.requested (executor : QdExecutor) (entry : QdHarEntry) (tracked : Tracked) (after : Execution) : Tracked where
  execution := after
  declared := tracked.declared ++ declarations executor entry tracked.execution
  keeper :=
    if assigns entry then none
    else match (declarations executor entry tracked.execution).getLast? with
      | some declaration => some declaration.1
      | none => tracked.keeper

def Tracked.passed (tracked : Tracked) (after : Execution) : Tracked where
  execution := after
  declared := tracked.declared
  keeper := if kept after = kept tracked.execution then tracked.keeper else none

/-- A part of a run in which no request fails, with the requests that are made in it. -/
inductive Trail (executor : QdExecutor) : Tracked → List (Tracked × QdHarEntry) → Tracked → Prop where
  | done (tracked : Tracked) : Trail executor tracked [] tracked
  | passed {tracked last : Tracked} {after : Execution} {steps : List (Tracked × QdHarEntry)}
      (silent : Silent tracked.execution after) (rest : Trail executor (tracked.passed after) steps last) :
      Trail executor tracked steps last
  | requested {tracked last : Tracked} {entry : QdHarEntry} {result : StepResult} {after : Execution}
      {steps : List (Tracked × QdHarEntry)} (ran : executeRequest executor entry tracked.execution = (.ok result,after))
      (rest : Trail executor (tracked.requested executor entry after) steps last) :
      Trail executor tracked ((tracked,entry) :: steps) last

/-- The requests of a run that ends in `after`; one that fails is the last. -/
def Makes (executor : QdExecutor) (start : Tracked) (steps : List (Tracked × QdHarEntry)) (after : Execution) : Prop :=
  (∃ last, Trail executor start steps last ∧ last.execution = after) ∨
    ∃ made last entry failure, steps = made ++ [(last,entry)] ∧ Trail executor start made last ∧
      executeRequest executor entry last.execution = (.error failure,after)

/-- A response for a matching URL has set the cookie. -/
def SetFor (services : Services) (matching : String → String → Bool) (events : List Event) (url : String)
    (pair : String × String) : Prop :=
  ∃ before request later response, events = before ++ .sent request :: later ∧
    services.send before request = .ok response ∧ matching request.url url = true ∧
    ∃ header ∈ response.headers, eqIgnoreAsciiCase header.1 "set-cookie" = true ∧ (cookiePairs header.2).head? = some pair

/-- An earlier entry has declared the cookie for a matching URL. -/
def DeclaredFor (matching : String → String → Bool) (tracked : Tracked) (url : String) (pair : String × String) : Prop :=
  ∃ declaration ∈ tracked.declared, matching declaration.1 url = true ∧ pair ∈ cookiePairs declaration.2

/-- The jar gives what was added to it or set for a matching URL. -/
def JarKeeps (executor : QdExecutor) (matching : String → String → Bool) (step : Tracked × QdHarEntry) : Prop :=
  ∀ url cookies header,
    executor.services.jar (step.1.execution.begun executor step.2).events cookies url = some header →
      ∀ pair ∈ cookiePairs header, (∃ own ∈ joinedCookies cookies, pair ∈ cookiePairs own) ∨
        DeclaredFor matching step.1 url pair ∨ SetFor executor.services matching step.1.execution.events url pair

/-- A request that is sent in the step. -/
def SentBy (executor : QdExecutor) (step : Tracked × QdHarEntry) (request : OutboundRequest) : Prop :=
  .sent request ∈ (executeRequest executor step.2 step.1.execution).2.events.drop step.1.execution.events.length

/-- Its cookies are declared by the entry, or declared or set before for a matching URL. -/
def Confined (executor : QdExecutor) (matching : String → String → Bool) (step : Tracked × QdHarEntry)
    (request : OutboundRequest) : Prop :=
  ∀ header ∈ request.headers, isCookie header.1 = true → ∀ pair ∈ cookiePairs header.2,
    (∃ own ∈ declarations executor step.2 step.1.execution, pair ∈ cookiePairs own.2) ∨
      DeclaredFor matching step.1 request.url pair ∨
      SetFor executor.services matching step.1.execution.events request.url pair

/-- The entry has cookies of its own, or the variable keeps nothing, or what was declared for a
matching URL. -/
def Meets (executor : QdExecutor) (matching : String → String → Bool) (step : Tracked × QdHarEntry) : Prop :=
  ∀ url, executor.services.render step.2.request.url step.1.execution.context = .ok url → ¬hasPrefix url "api://" = true →
    (∃ header ∈ step.2.request.headers, header.checked = true ∧
      ∃ name, executor.services.render header.name step.1.execution.context = .ok name ∧ isCookie name = true) ∨
    (∃ cookie ∈ step.2.request.cookies, cookie.checked = true) ∨ kept step.1.execution = none ∨
      ∃ origin ∈ step.1.keeper, matching origin url = true

section Declared

theorem apart_cookie {name other : String} (cookie : isCookie name = true) (apart : asciiLower other ≠ "cookie") :
    ¬eqIgnoreAsciiCase name other = true := by
  intro same
  have first : asciiLower name = asciiLower "cookie" := of_decide_eq_true cookie
  have second : asciiLower name = asciiLower other := of_decide_eq_true same
  exact apart (second.symm.trans first)

theorem cookie_plain {name : String} (cookie : isCookie name = true) : ¬hasPrefix name ":" = true := by
  have lower : asciiLower name = asciiLower "cookie" := of_decide_eq_true cookie
  have texts : name.toList.map Char.toLower = ['c','o','o','k','i','e'] := String.ofList_injective lower
  obtain ⟨first,rest,shape,small,_⟩ := List.map_eq_cons_iff.mp texts
  intro pseudo
  rw [hasPrefix,Text.stripPrefix,shape,Option.isSome_map] at pseudo
  have colon : ':' = first := by
    by_contra other
    have apart : (':' == first) = false := beq_eq_false_iff_ne.mpr other
    change (if (':' == first) = true then [].isPrefixOf? rest else none).isSome = true at pseudo
    rw [apart] at pseudo
    cases pseudo
  subst colon
  exact absurd small (by decide)

theorem cookieHeaders_cons {name : String} (cookie : isCookie name = true) (value : String) (headers : Headers) :
    cookieHeaders ((name,value) :: headers) = value :: cookieHeaders headers := by
  rw [cookieHeaders,List.filter_cons,if_pos cookie]
  rfl

theorem cookieHeaders_skip {name : String} (other : ¬isCookie name = true) (value : String) (headers : Headers) :
    cookieHeaders ((name,value) :: headers) = cookieHeaders headers := by
  rw [cookieHeaders,List.filter_cons,if_neg other]
  rfl

/-- The header that is kept is the last one. -/
theorem renderHeaders_last {services : Services} {context : ExecutionContext} {names : List QdNameValue}
    {headers : Headers} {last : Option String} (rendered : renderHeaders services context names = .ok (headers,last)) :
    last = (cookieHeaders headers).getLast? := by
  induction names generalizing headers last with
  | nil =>
    cases rendered
    rfl
  | cons header rest ih =>
    unfold renderHeaders at rendered
    split at rendered
    · obtain ⟨name,_,rendered⟩ := Library.bind_ok.mp rendered
      split at rendered
      · exact ih rendered
      · obtain ⟨value,_,rendered⟩ := Library.bind_ok.mp rendered
        obtain ⟨⟨others,cookie⟩,further,rendered⟩ := Library.bind_ok.mp rendered
        have later := ih further
        change (if eqIgnoreAsciiCase name "accept-encoding" = true then _ else _) = _ at rendered
        split at rendered
        · cases rendered
          rw [cookieHeaders_skip (by decide)]
          exact later
        · cases rendered
          change (if isCookie name = true then cookie.or (some value) else cookie) = _
          by_cases cookies : isCookie name = true
          · rw [if_pos cookies,cookieHeaders_cons cookies,List.getLast?_cons,later]
            cases (cookieHeaders others).getLast? <;> rfl
          · rw [if_neg cookies,cookieHeaders_skip cookies,later]
    · exact ih rendered

/-- An entry that names such a header has one to keep. -/
theorem renderHeaders_named {services : Services} {context : ExecutionContext} {names : List QdNameValue}
    {headers : Headers} {last : Option String} (rendered : renderHeaders services context names = .ok (headers,last))
    {header : QdNameValue} (listed : header ∈ names) (checked : header.checked = true) {name : String}
    (called : services.render header.name context = .ok name) (cookie : isCookie name = true) : cookieHeaders headers ≠ [] := by
  induction names generalizing headers last with
  | nil => cases listed
  | cons first rest ih =>
    unfold renderHeaders at rendered
    rcases List.mem_cons.mp listed with rfl | later
    · rw [if_pos checked,called] at rendered
      change (if hasPrefix name ":" = true then _ else _) = _ at rendered
      rw [if_neg (cookie_plain cookie)] at rendered
      obtain ⟨value,_,rendered⟩ := Library.bind_ok.mp rendered
      obtain ⟨⟨others,kept⟩,_,rendered⟩ := Library.bind_ok.mp rendered
      change (if eqIgnoreAsciiCase name "accept-encoding" = true then _ else _) = _ at rendered
      rw [if_neg (apart_cookie cookie (by decide))] at rendered
      cases rendered
      rw [cookieHeaders_cons cookie]
      exact List.cons_ne_nil _ _
    · split at rendered
      · obtain ⟨other,_,rendered⟩ := Library.bind_ok.mp rendered
        split at rendered
        · exact ih rendered later
        · obtain ⟨value,_,rendered⟩ := Library.bind_ok.mp rendered
          obtain ⟨⟨others,kept⟩,further,rendered⟩ := Library.bind_ok.mp rendered
          have some := ih further later
          change (if eqIgnoreAsciiCase other "accept-encoding" = true then _ else _) = _ at rendered
          split at rendered
          · cases rendered
            rw [cookieHeaders_skip (by decide)]
            exact some
          · cases rendered
            by_cases also : isCookie other = true
            · rw [cookieHeaders_cons also]
              exact List.cons_ne_nil _ _
            · rw [cookieHeaders_skip also]
              exact some
      · exact ih rendered later

theorem renderCookies_listed {services : Services} {context : ExecutionContext} {cookies : List QdNameValue}
    {rendered : List String} (ran : renderCookies services context cookies = .ok rendered) {cookie : QdNameValue}
    (listed : cookie ∈ cookies) (checked : cookie.checked = true) : rendered ≠ [] := by
  have member : cookie ∈ cookies.filter QdNameValue.checked := List.mem_filter.mpr ⟨listed,checked⟩
  unfold renderCookies at ran
  cases kept : cookies.filter QdNameValue.checked with
  | nil =>
    rw [kept] at member
    cases member
  | cons first rest =>
    rw [kept,List.mapM_cons] at ran
    obtain ⟨value,_,ran⟩ := Library.bind_ok.mp ran
    obtain ⟨others,_,ran⟩ := Library.bind_ok.mp ran
    cases ran
    exact List.cons_ne_nil _ _

end Declared

section Built

variable {executor : QdExecutor} {entry : QdHarEntry}

theorem rememberCookie_eq (cookie : Option String) (state : Execution) :
    rememberCookie cookie state = (.ok (),{ state with context := remembering state.context cookie }) := by
  cases cookie <;> rfl

theorem remembering_kept (context : ExecutionContext) (cookie : Option String) :
    (remembering context cookie).vars.text cookieVar = cookie.or (context.vars.text cookieVar) := by
  cases cookie with
  | none => rfl
  | some cookie =>
    change ((insertVar context.vars cookieVar (.str cookie)).get cookieVar).bind Json.asStr = _
    rw [get_insertVar,if_pos rfl]
    rfl

/-- What a request is built of. -/
structure Built (executor : QdExecutor) (entry : QdHarEntry) (url : String) (state after : Execution)
    (request : OutboundRequest) (headers : Headers) (cookies stored : List String) : Prop where
  renders : renderHeaders executor.services state.context entry.request.headers = .ok (headers,(cookieHeaders headers).getLast?)
  lists : renderCookies executor.services (remembering state.context (cookieHeaders headers).getLast?)
    entry.request.cookies = .ok cookies
  stores : storedCookies executor.services url cookies (cookieHeaders headers).getLast?
    (remembering (remembering state.context (cookieHeaders headers).getLast?) (joinedCookies cookies)) state.events = .ok stored
  sends : request.headers = headers ++ ((joinedCookies cookies).toList ++ stored).map (fun value => ("cookie",value)) ++
    autoContentType entry
  ends : after = { state with
    context := remembering (remembering state.context (cookieHeaders headers).getLast?) (joinedCookies cookies) }

theorem rememberCookie_bind {cookie : Option String} {α : Type} {next : Unit → Exec α} (state : Execution) :
    (rememberCookie cookie >>= next) state = next () { state with context := remembering state.context cookie } := by
  rw [bind_eq,rememberCookie_eq]

theorem buildRequest_built {method url : String} {state after : Execution} {request : OutboundRequest}
    (run : buildRequest executor entry method url state = (.ok request,after)) :
    ∃ headers cookies stored, Built executor entry url state after request headers cookies stored := by
  unfold buildRequest at run
  rw [read_bind] at run
  obtain ⟨connection,_,run⟩ := lift_bind_ok.mp run
  obtain ⟨_,_,run⟩ := lift_bind_ok.mp run
  obtain ⟨⟨headers,last⟩,renders,run⟩ := lift_bind_ok.mp run
  obtain rfl := renderHeaders_last renders
  rw [rememberCookie_bind,read_bind] at run
  obtain ⟨cookies,lists,run⟩ := lift_bind_ok.mp run
  rw [rememberCookie_bind] at run
  obtain ⟨_,_,run⟩ := lift_bind_ok.mp run
  rw [read_bind,read_bind] at run
  obtain ⟨stored,stores,run⟩ := lift_bind_ok.mp run
  obtain ⟨body,_,run⟩ := lift_bind_ok.mp run
  cases run
  exact ⟨headers,cookies,stored,renders,lists,stores,rfl,rfl⟩

theorem Built.declared {url : String} {state after : Execution} {request : OutboundRequest} {headers : Headers}
    {cookies stored : List String} (built : Built executor entry url state after request headers cookies stored) :
    declaredBy executor.services entry state.context = cookieHeaders headers ++ (joinedCookies cookies).toList := by
  unfold declaredBy
  simp only [built.renders,built.lists]

/-- The variable keeps the last header that was declared. -/
theorem Built.keeps {url : String} {state after : Execution} {request : OutboundRequest} {headers : Headers}
    {cookies stored : List String} (built : Built executor entry url state after request headers cookies stored) :
    kept after = (declaredBy executor.services entry state.context).getLast?.or (kept state) := by
  have text : kept after = (joinedCookies cookies).or ((cookieHeaders headers).getLast?.or (kept state)) := by
    rw [built.ends]
    exact (remembering_kept _ _).trans (congrArg _ (remembering_kept _ _))
  rw [text,built.declared,List.getLast?_append,Option.or_assoc]
  cases joinedCookies cookies <;> rfl

/-- The cookies of a request: its own, those of the variable and those of the jar. -/
theorem Built.cookie {url : String} {state after : Execution} {request : OutboundRequest} {headers : Headers}
    {cookies stored : List String} (built : Built executor entry url state after request headers cookies stored)
    {header : String × String} (member : header ∈ request.headers) (cookie : isCookie header.1 = true) :
    header.2 ∈ declaredBy executor.services entry state.context ∨
      cookieHeaders headers = [] ∧ joinedCookies cookies = none ∧ kept state = some header.2 ∨
      cookieHeaders headers = [] ∧ executor.services.jar state.events cookies url = some header.2 := by
  rw [built.declared]
  rw [built.sends] at member
  rcases List.mem_append.mp member with member | content
  · rcases List.mem_append.mp member with named | listed
    · exact .inl (List.mem_append_left _ (List.mem_map.mpr ⟨header,List.mem_filter.mpr ⟨named,cookie⟩,rfl⟩))
    · obtain ⟨value,inside,rfl⟩ := List.mem_map.mp listed
      rcases List.mem_append.mp inside with own | other
      · exact .inl (List.mem_append_right _ own)
      · have keeps := built.stores
        unfold storedCookies at keeps
        cases last : (cookieHeaders headers).getLast? with
        | some value =>
          rw [last] at keeps
          cases keeps
          cases other
        | none =>
          have unnamed : cookieHeaders headers = [] := List.getLast?_eq_none_iff.mp last
          rw [last] at keeps
          obtain ⟨_,_,keeps⟩ := Library.bind_ok.mp keeps
          cases keeps
          rw [remembering_kept] at other
          rcases List.mem_append.mp other with mirrored | jar
          · cases own : joinedCookies cookies with
            | some whole =>
              rw [own] at mirrored
              exact .inl (List.mem_append_right _ mirrored)
            | none =>
              rw [own] at mirrored
              exact .inr (.inl ⟨unnamed,rfl,Option.mem_toList.mp mirrored⟩)
          · exact .inr (.inr ⟨unnamed,Option.mem_toList.mp jar⟩)
  · unfold autoContentType at content
    dsimp only at content
    split at content
    · obtain rfl := List.mem_singleton.mp content
      have other : ¬isCookie "content-type" = true := by decide
      exact absurd cookie other
    · cases content

end Built

section Steps

variable {executor : QdExecutor} {entry : QdHarEntry}

/-- A request that succeeds has been performed, and reported. -/
theorem executeRequest_performed {state after : Execution} {result : StepResult}
    (ran : executeRequest executor entry state = (.ok result,after)) :
    ∃ performed, performRequest executor entry (state.begun executor entry) = (.ok result,performed) ∧
      after.context = performed.context := by
  let started : Execution := { state with
    events := (state.begun executor entry).events
    nextStepIndex := state.nextStepIndex + 1 }
  change (reportFailure state.nextStepIndex entry.request.method _ (executeRequestInner executor entry) >>=
    fun result => emit (.finished state.nextStepIndex entry.request.method result.url (some result.status)
      result.bodySize none) >>= fun _ => pure result) started = _ at ran
  obtain ⟨response,performed,inner,rest⟩ := Effect.bind_ok.mp ran
  cases rest
  refine ⟨performed,?_,rfl⟩
  unfold reportFailure at inner
  split at inner
  next => cases inner
  next =>
    unfold executeRequestInner at inner
    rw [read_bind,ensure_bind] at inner
    split at inner
    · exact inner
    · cases inner

/-- The variable keeps the last header the entry has declared, unless an extraction has its name. -/
theorem executeRequest_keeps {state after : Execution} {result : StepResult}
    (ran : executeRequest executor entry state = (.ok result,after)) (free : assigns entry = false) :
    kept after = ((declarations executor entry state).getLast?.map (·.2)).or (kept state) := by
  have rules : ∀ rule ∈ entry.extractVariables, ¬rule.name = cookieVar := by
    intro rule listed same
    have named : assigns entry = true := List.any_eq_true.mpr ⟨rule,listed,decide_eq_true same⟩
    rw [free] at named
    cases named
  have rest : ∀ {before last : Execution}, Untouched (· = cookieVar) before last → kept last = kept before :=
    fun untouched => congrArg (Option.bind · Json.asStr) (untouched cookieVar rfl)
  obtain ⟨performed,run,same⟩ := executeRequest_performed ran
  have text : kept after = kept performed := by rw [kept,same,kept]
  rw [text]
  unfold performRequest at run
  rw [read_bind] at run
  obtain ⟨method,_,run⟩ := lift_bind_ok.mp run
  obtain ⟨url,rendered,run⟩ := lift_bind_ok.mp run
  have rendered : executor.services.render entry.request.url state.context = .ok url := rendered
  split at run
  next api =>
    have moved : Untouched (· = cookieVar) _ (callPlugin executor entry method url _).2 :=
      untouched_callPlugin executor rules method url (state.begun executor entry)
    rw [run] at moved
    rw [declarations,rendered]
    simp only [if_pos api]
    exact rest moved
  next web =>
    obtain ⟨request,built,building,run⟩ := Effect.bind_ok.mp run
    obtain ⟨headers,cookies,stored,parts⟩ := buildRequest_built building
    have moves : Moves (Untouched (· = cookieVar)) (Effect.read Execution.events >>= fun history => emit (.sent request) >>=
        fun _ => Effect.lift (executor.services.send history request) >>= fun response =>
          finishResponse executor entry url request.digest response false) := by
      refine moves_bind untouched_trans (moves_read untouched_refl _) fun history => ?_
      refine moves_bind untouched_trans (untouched_emit _) fun _ => ?_
      refine moves_bind untouched_trans (moves_lift untouched_refl _) fun response => ?_
      exact untouched_finishResponse executor rules _ _ _ _
    have moved := moves built
    have last : performed = ((Effect.read Execution.events >>= fun history => emit (.sent request) >>=
        fun _ => Effect.lift (executor.services.send history request) >>= fun response =>
          finishResponse executor entry url request.digest response false) built).2 := (congrArg Prod.snd run).symm
    rw [← last] at moved
    rw [rest moved,parts.keeps,declarations,rendered]
    simp only [if_neg web,List.getLast?_map,Option.map_map]
    cases (declaredBy executor.services entry (state.begun executor entry).context).getLast? <;> rfl

end Steps

section Runs

variable {executor : QdExecutor} {matching : String → String → Bool}

/-- What the variable keeps was declared for its URL. -/
def Tracked.Sound (tracked : Tracked) : Prop :=
  ∀ origin, tracked.keeper = some origin → ∃ value, kept tracked.execution = some value ∧ (origin,value) ∈ tracked.declared

theorem sound_begin (state : Execution) : (Tracked.begin state).Sound := by
  rintro _ ⟨⟩

theorem Tracked.Sound.passed {tracked : Tracked} (sound : tracked.Sound) (after : Execution) : (tracked.passed after).Sound := by
  intro origin keeper
  change (if kept after = kept tracked.execution then tracked.keeper else none) = some origin at keeper
  split at keeper
  next same =>
    obtain ⟨value,text,declared⟩ := sound origin keeper
    exact ⟨value,same.trans text,declared⟩
  next => cases keeper

theorem Tracked.Sound.requested {tracked : Tracked} {entry : QdHarEntry} {result : StepResult} {after : Execution}
    (sound : tracked.Sound) (ran : executeRequest executor entry tracked.execution = (.ok result,after)) :
    (tracked.requested executor entry after).Sound := by
  intro origin keeper
  change (if assigns entry = true then none else _) = some origin at keeper
  split at keeper
  next => cases keeper
  next free =>
    have keeps := executeRequest_keeps ran (Bool.eq_false_iff.mpr free)
    change ∃ value, kept after = some value ∧ (origin,value) ∈ tracked.declared ++ declarations executor entry tracked.execution
    cases last : (declarations executor entry tracked.execution).getLast? with
    | some declaration =>
      rw [last] at keeper keeps
      cases keeper
      exact ⟨declaration.2,keeps,List.mem_append_right _ (List.mem_of_getLast? last)⟩
    | none =>
      rw [last] at keeper keeps
      obtain ⟨value,text,declared⟩ := sound origin keeper
      exact ⟨value,keeps.trans text,List.mem_append_left _ declared⟩

theorem Trail.sound {start last : Tracked} {steps : List (Tracked × QdHarEntry)} (trail : Trail executor start steps last)
    (sound : start.Sound) : last.Sound ∧ ∀ step ∈ steps, step.1.Sound := by
  induction trail with
  | done tracked => exact ⟨sound,fun step member => absurd member List.not_mem_nil⟩
  | passed silent rest ih => exact ih (sound.passed _)
  | requested ran rest ih =>
    obtain ⟨ends,others⟩ := ih (sound.requested ran)
    refine ⟨ends,fun step member => ?_⟩
    rcases List.mem_cons.mp member with rfl | later
    · exact sound
    · exact others step later

/-- What goes out between is sent in one of the steps. -/
def Sources (executor : QdExecutor) (steps : List (Tracked × QdHarEntry)) (before after : Execution) : Prop :=
  ∃ new, after.events = before.events ++ new ∧
    ∀ request, .sent request ∈ new → ∃ step ∈ steps, SentBy executor step request

theorem sources_request (tracked : Tracked) (entry : QdHarEntry) :
    Sources executor [(tracked,entry)] tracked.execution (executeRequest executor entry tracked.execution).2 := by
  obtain ⟨new,written,_⟩ := executeRequest_sends (P := fun _ => True) executor entry tracked.execution
    fun _ _ _ _ _ _ => trivial
  refine ⟨new,written,fun request sent => ⟨_,List.mem_singleton.mpr rfl,?_⟩⟩
  change Event.sent request ∈ (executeRequest executor entry tracked.execution).2.events.drop _
  rw [written,List.drop_left]
  exact sent

theorem Sources.trans {first rest : List (Tracked × QdHarEntry)} {a b c : Execution} (left : Sources executor first a b)
    (right : Sources executor rest b c) : Sources executor (first ++ rest) a c := by
  obtain ⟨new,written,found⟩ := left
  obtain ⟨later,writtenLater,foundLater⟩ := right
  refine ⟨new ++ later,by rw [writtenLater,written,List.append_assoc],fun request sent => ?_⟩
  rcases List.mem_append.mp sent with early | late
  · obtain ⟨step,member,sends⟩ := found request early
    exact ⟨step,List.mem_append_left _ member,sends⟩
  · obtain ⟨step,member,sends⟩ := foundLater request late
    exact ⟨step,List.mem_append_right _ member,sends⟩

theorem Trail.sources {start last : Tracked} {steps : List (Tracked × QdHarEntry)} (trail : Trail executor start steps last) :
    Sources executor steps start.execution last.execution := by
  induction trail with
  | done tracked => exact ⟨[],(List.append_nil _).symm,fun _ sent => absurd sent List.not_mem_nil⟩
  | passed silent rest ih =>
    obtain ⟨new,written,none⟩ := silent
    have before : Sources executor [] _ _ := ⟨new,written,fun _ sent => (none _ sent rfl).elim⟩
    exact before.trans ih
  | @requested tracked last entry result after steps ran rest ih =>
    have first : Sources executor [(tracked,entry)] tracked.execution _ := sources_request tracked entry
    rw [ran] at first
    exact first.trans ih

theorem Makes.sound {start : Tracked} {steps : List (Tracked × QdHarEntry)} {after : Execution}
    (makes : Makes executor start steps after) (sound : start.Sound) : ∀ step ∈ steps, step.1.Sound := by
  rcases makes with ⟨last,trail,_⟩ | ⟨made,last,entry,failure,rfl,trail,_⟩
  · exact (trail.sound sound).2
  · intro step member
    rcases List.mem_append.mp member with early | final
    · exact (trail.sound sound).2 step early
    · rw [List.mem_singleton.mp final]
      exact (trail.sound sound).1

theorem Makes.sources {start : Tracked} {steps : List (Tracked × QdHarEntry)} {after : Execution}
    (makes : Makes executor start steps after) : Sources executor steps start.execution after := by
  rcases makes with ⟨last,trail,rfl⟩ | ⟨made,last,entry,failure,rfl,trail,ran⟩
  · exact trail.sources
  · have final : Sources executor [(last,entry)] last.execution _ := sources_request last entry
    rw [ran] at final
    exact trail.sources.trans final

theorem Trail.trans {start middle last : Tracked} {first rest : List (Tracked × QdHarEntry)}
    (left : Trail executor start first middle) (right : Trail executor middle rest last) :
    Trail executor start (first ++ rest) last := by
  induction left with
  | done tracked => exact right
  | passed silent rest ih => exact .passed silent (ih right)
  | requested ran rest ih => exact .requested ran (ih right)

theorem Trail.makes {start middle : Tracked} {first rest : List (Tracked × QdHarEntry)} {after : Execution}
    (trail : Trail executor start first middle) (makes : Makes executor middle rest after) :
    Makes executor start (first ++ rest) after := by
  rcases makes with ⟨last,further,ends⟩ | ⟨made,last,entry,failure,rfl,further,ran⟩
  · exact .inl ⟨last,trail.trans further,ends⟩
  · exact .inr ⟨first ++ made,last,entry,failure,(List.append_assoc _ _ _).symm,trail.trans further,ran⟩

variable (executor)

def Lives (before after : Execution) : Prop :=
  ∀ tracked : Tracked, tracked.execution = before → ∃ steps last, Trail executor tracked steps last ∧ last.execution = after

def Dies (before after : Execution) : Prop :=
  ∀ tracked : Tracked, tracked.execution = before → ∃ steps, Makes executor tracked steps after

theorem covers_trails : Covers executor (Lives executor) (Dies executor) where
  refl := fun _ tracked same => ⟨[],tracked,.done tracked,same⟩
  trans := by
    intro a b c left right tracked same
    obtain ⟨first,middle,trail,ends⟩ := left tracked same
    obtain ⟨rest,last,further,endsLast⟩ := right middle ends
    exact ⟨first ++ rest,last,trail.trans further,endsLast⟩
  idle := fun _ tracked same => ⟨[],.inl ⟨tracked,.done tracked,same⟩⟩
  stop := by
    intro a b c left right tracked same
    obtain ⟨first,middle,trail,ends⟩ := left tracked same
    obtain ⟨rest,makes⟩ := right middle ends
    exact ⟨first ++ rest,trail.makes makes⟩
  silent := by
    rintro _ after silent tracked rfl
    exact ⟨[],tracked.passed after,.passed silent (.done _),rfl⟩
  request := by
    intro entry state
    cases run : executeRequest executor entry state with
    | mk outcome after =>
      cases outcome with
      | ok result =>
        rintro tracked rfl
        exact ⟨[(tracked,entry)],tracked.requested executor entry after,.requested run (.done _),rfl⟩
      | error failure =>
        rintro tracked rfl
        exact ⟨[(tracked,entry)],.inr ⟨[],tracked,entry,failure,rfl,.done _,run⟩⟩

theorem makes_of_ends {α : Type} {effect : Exec α} (ends : Ends (Lives executor) (Dies executor) effect) (state : Execution) :
    ∃ steps, Makes executor (Tracked.begin state) steps (effect state).2 := by
  have run := ends state
  cases whole : effect state with
  | mk outcome after =>
    rw [whole] at run
    cases outcome with
    | ok value =>
      obtain ⟨steps,last,trail,same⟩ := run (Tracked.begin state) rfl
      exact ⟨steps,.inl ⟨last,trail,same⟩⟩
    | error failure => exact run (Tracked.begin state) rfl

variable {executor}

/-- A request that meets the condition carries no other cookies. -/
theorem step_confined {step : Tracked × QdHarEntry} (sound : step.1.Sound) (jar : JarKeeps executor matching step)
    (meets : Meets executor matching step) {request : OutboundRequest} (sent : SentBy executor step request) :
    Confined executor matching step request := by
  obtain ⟨tracked,entry⟩ := step
  have sends : Sends (fun event => ∀ request, event = .sent request → Confined executor matching (tracked,entry) request)
      tracked.execution (executeRequest executor entry tracked.execution).2 := by
    refine executeRequest_sends executor entry tracked.execution ?_
    rintro method url _ _ rendered out request rfl
    rcases outgoing_cases out with ⟨callUrl,called,_⟩ | ⟨other,same,run⟩
    · cases called
    · cases same
      have web : ¬hasPrefix url "api://" = true := by
        intro api
        unfold outgoing at out
        rw [if_pos api,read_bind,lift_bind] at out
        split at out
        · cases out
        · cases out
      have whole : buildRequest executor entry method url (tracked.execution.begun executor entry) = (.ok request,_) :=
        Prod.ext run rfl
      have address : request.url = url := buildRequest_url executor entry method url _ _ run
      obtain ⟨headers,cookies,stored,built⟩ := buildRequest_built whole
      have declared : declarations executor entry tracked.execution =
          (declaredBy executor.services entry (tracked.execution.begun executor entry).context).map fun value => (url,value) := by
        unfold declarations
        rw [rendered]
        exact if_neg web
      intro header member cookie pair inside
      change (∃ own ∈ declarations executor entry tracked.execution, pair ∈ cookiePairs own.2) ∨ _
      rw [declared,address]
      rcases built.cookie member cookie with own | ⟨unnamed,unlisted,text⟩ | ⟨unnamed,given⟩
      · exact .inl ⟨(url,header.2),List.mem_map.mpr ⟨header.2,own,rfl⟩,inside⟩
      · rcases meets url rendered web with ⟨name,listed,checked,called,renders,cookies⟩ | ⟨name,listed,checked⟩ | nothing | kept
        · exact absurd unnamed (renderHeaders_named built.renders listed checked renders cookies)
        · have some := renderCookies_listed built.lists listed checked
          rw [joinedCookies,if_neg some] at unlisted
          cases unlisted
        · rw [show kept tracked.execution = some header.2 from text] at nothing
          cases nothing
        · obtain ⟨origin,keeper,agrees⟩ := kept
          obtain ⟨value,holds,declared⟩ := sound origin keeper
          rw [show kept tracked.execution = some header.2 from text] at holds
          cases holds
          exact .inr (.inl ⟨_,declared,agrees,inside⟩)
      · rcases jar url cookies header.2 given pair inside with ⟨own,joined,part⟩ | earlier
        · refine .inl ⟨(url,own),List.mem_map.mpr ⟨own,?_,rfl⟩,part⟩
          rw [built.declared]
          exact List.mem_append_right _ (Option.mem_toList.mpr joined)
        · exact .inr earlier
  obtain ⟨new,written,holds⟩ := sends
  change Event.sent request ∈ (executeRequest executor entry tracked.execution).2.events.drop _ at sent
  rw [written,List.drop_left] at sent
  exact holds _ sent rfl request rfl

end Runs

/-- Every run of a program is made of requests, and those of a run in which each meets the condition
carry only cookies of their entries, and cookies declared or set before for a matching URL. -/
theorem cookies_confined (executor : QdExecutor) (matching : String → String → Bool) :
    (∀ program context, ∃ steps, Makes executor (Tracked.begin (Execution.initial context)) steps
      (execute executor program (Execution.initial context)).2) ∧
    (∀ definition context, ∃ steps, Makes executor (Tracked.begin (Execution.initial context)) steps
      (executeTemplate executor definition (Execution.initial context)).2) ∧
    ∀ context steps after, Makes executor (Tracked.begin (Execution.initial context)) steps after →
      (∀ step ∈ steps, JarKeeps executor matching step) → (∀ step ∈ steps, Meets executor matching step) →
        (∀ request, .sent request ∈ after.events → ∃ step ∈ steps, SentBy executor step request) ∧
        ∀ step ∈ steps, ∀ request, SentBy executor step request → Confined executor matching step request := by
  refine ⟨fun program context => ?_,fun definition context => ?_,fun context steps after makes jar meets => ⟨?_,?_⟩⟩
  · exact makes_of_ends executor ((covers_trails executor).execute program) _
  · exact makes_of_ends executor ((covers_trails executor).executeTemplate definition) _
  · obtain ⟨new,written,found⟩ := makes.sources
    rw [written]
    exact found
  · intro step member request sent
    exact step_confined (makes.sound (sound_begin _) step member) (jar step member) (meets step member) sent

section Sample

/-- Two web hosts that answer every request, and no cookies but those of the entries. -/
def twoHosts : QdExecutor where
  services := { Services.offline with
    network := {
      parse := fun url => some ⟨"http",some (if url = "http://a.invalid/" then "a.invalid" else "b.invalid"),some 80⟩
      lookupHost := fun _ port => some [(.v4 ⟨93,184,216,34⟩,port)] }
    send := fun _ _ => .ok ⟨200,[],[]⟩ }
  policy := ⟨false,none⟩
  responseLimit := 0
  requestLimit := 2
  loopLimit := 1

def sameUrl (origin url : String) : Bool := origin = url

def pageEntry (url : String) (headers : List QdNameValue) : QdHarEntry := ⟨true,none,⟨"GET",url,headers,[],none⟩,[],[],[]⟩

/-- The first request names a cookie, the second has none of its own. -/
def signedIn : QdHarEntry := pageEntry "http://a.invalid/" [⟨"Cookie","sid=1",true⟩]

def twoPages (second : String) : QdProgram := ⟨[.request signedIn,.request (pageEntry second [])]⟩

def pagesContext : ExecutionContext := ExecutionContext.withLimits [] 2 1

def pagesStart : Execution := Execution.initial pagesContext

def answeredState (entry : QdHarEntry) (state : Execution) : Execution := (executeRequest twoHosts entry state).2

def pushed (url : String) (state : Execution) : Execution := { state with results := state.results ++ [⟨url,200,0⟩] }

/-- The state in which the second request is made. -/
def between : Execution := pushed "http://a.invalid/" (answeredState signedIn pagesStart)

def signedInAt : Tracked := (Tracked.begin pagesStart).passed pagesStart

def secondAt : Tracked := (signedInAt.requested twoHosts signedIn (answeredState signedIn pagesStart)).passed between

theorem silent_push (url : String) (state : Execution) : Silent state (pushed url state) := sends_of_events rfl

theorem ran_of_result {entry : QdHarEntry} {state : Execution} {url : String}
    (answers : (executeRequest twoHosts entry state).1 = .ok ⟨url,200,0⟩) :
    executeRequest twoHosts entry state = (.ok ⟨url,200,0⟩,answeredState entry state) := Prod.ext answers rfl

theorem block_request {entry : QdHarEntry} {state : Execution} {url : String}
    (answers : (executeRequest twoHosts entry state).1 = .ok ⟨url,200,0⟩) (index : Nat) (rest : List QdBlock) :
    executeBlocks twoHosts index (.request entry :: rest) state =
      executeBlocks twoHosts (index + 1) rest (pushed url (answeredState entry state)) := by
  rw [executeBlocks,bind_eq,mapError,executeBlock,bind_eq,ran_of_result answers]
  rfl

theorem execute_blocks (program : QdProgram) : (execute twoHosts program pagesStart).2 =
    (executeBlocks twoHosts 0 program.blocks pagesStart).2 := by
  have limited : { pagesStart with context := { pagesContext with
      remainingRequests := min pagesContext.remainingRequests twoHosts.requestLimit
      loopLimit := min pagesContext.loopLimit twoHosts.loopLimit } } = pagesStart := rfl
  unfold execute
  rw [setContext,modify_bind,bind_still fun _ _ => rfl]
  exact congrArg (fun state => (executeBlocks twoHosts 0 program.blocks state).2) limited

set_option maxRecDepth 20000 in
theorem first_answered : (executeRequest twoHosts signedIn pagesStart).1 = .ok ⟨"http://a.invalid/",200,0⟩ := rfl

theorem pages_end {second : String}
    (answers : (executeRequest twoHosts (pageEntry second []) between).1 = .ok ⟨second,200,0⟩) :
    (execute twoHosts (twoPages second) pagesStart).2 = pushed second (answeredState (pageEntry second []) between) := by
  rw [execute_blocks,twoPages,block_request first_answered,← between,block_request answers,executeBlocks]
  rfl

theorem trail_block {tracked last : Tracked} {entry : QdHarEntry} {url : String} {after : Execution}
    {steps : List (Tracked × QdHarEntry)} (ran : executeRequest twoHosts entry tracked.execution = (.ok ⟨url,200,0⟩,after))
    (rest : Trail twoHosts ((tracked.requested twoHosts entry after).passed (pushed url after)) steps last) :
    Trail twoHosts tracked ((tracked,entry) :: steps) last :=
  .requested ran (.passed (silent_push url after) rest)

theorem makes_pages {second : String}
    (answers : (executeRequest twoHosts (pageEntry second []) between).1 = .ok ⟨second,200,0⟩) :
    Makes twoHosts (Tracked.begin pagesStart) [(signedInAt,signedIn),(secondAt,pageEntry second [])]
      (execute twoHosts (twoPages second) pagesStart).2 := by
  have signed : executeRequest twoHosts signedIn signedInAt.execution = (.ok _,answeredState signedIn pagesStart) :=
    ran_of_result first_answered
  have ran : executeRequest twoHosts (pageEntry second []) secondAt.execution =
      (.ok ⟨second,200,0⟩,answeredState (pageEntry second []) between) := ran_of_result answers
  rw [pages_end answers]
  exact .inl ⟨_,.passed (sends_refl pagesStart) (trail_block signed (trail_block ran (.done _))),rfl⟩

theorem jar_empty (step : Tracked × QdHarEntry) : JarKeeps twoHosts sameUrl step := by
  rintro url cookies header ⟨⟩

set_option maxRecDepth 20000 in
theorem second_answered :
    (executeRequest twoHosts (pageEntry "http://a.invalid/" []) between).1 = .ok ⟨"http://a.invalid/",200,0⟩ ∧
      (executeRequest twoHosts (pageEntry "http://b.invalid/" []) between).1 = .ok ⟨"http://b.invalid/",200,0⟩ := ⟨rfl,rfl⟩

/-- A request for one of the hosts with the cookie that was declared before. -/
def carrying (host url : String) : OutboundRequest :=
  ⟨.pinned host [(.v4 ⟨93,184,216,34⟩,80)],"GET",url,[("cookie","sid=1")],none⟩

set_option maxRecDepth 20000 in
theorem second_sent : SentBy twoHosts (secondAt,pageEntry "http://a.invalid/" []) (carrying "a.invalid" "http://a.invalid/") ∧
    SentBy twoHosts (secondAt,pageEntry "http://b.invalid/" []) (carrying "b.invalid" "http://b.invalid/") :=
  ⟨.tail _ (.head _),.tail _ (.head _)⟩

set_option maxRecDepth 20000 in
theorem pages_declared : secondAt.declared = [("http://a.invalid/","sid=1")] ∧ secondAt.keeper = some "http://a.invalid/" ∧
    declarations twoHosts (pageEntry "http://b.invalid/" []) secondAt.execution = [] := ⟨rfl,rfl,rfl⟩

/-- The cookie goes again to the host it was declared for. -/
theorem cookie_sent_again : Confined twoHosts sameUrl (secondAt,pageEntry "http://a.invalid/" [])
    (carrying "a.invalid" "http://a.invalid/") := by
  have meets : ∀ step ∈ [(signedInAt,signedIn),(secondAt,pageEntry "http://a.invalid/" [])], Meets twoHosts sameUrl step := by
    intro step member
    rcases List.mem_cons.mp member with rfl | later
    · exact fun _ _ _ => .inl ⟨⟨"Cookie","sid=1",true⟩,.head _,rfl,"Cookie",rfl,rfl⟩
    · obtain rfl := List.mem_singleton.mp later
      intro url rendered _
      have same : (Except.ok "http://a.invalid/" : Except Failure String) = .ok url := rendered
      cases same
      exact .inr (.inr (.inr ⟨"http://a.invalid/",pages_declared.2.1,rfl⟩))
  exact ((cookies_confined twoHosts sameUrl).2.2 pagesContext _ _ (makes_pages second_answered.1)
    (fun step _ => jar_empty step) meets).2 _ (.tail _ (.head _)) _ second_sent.1

/-- And to another one, which has nothing to do with it. -/
theorem cookie_sent_elsewhere : ∃ steps,
    Makes twoHosts (Tracked.begin (Execution.initial pagesContext)) steps
        (execute twoHosts (twoPages "http://b.invalid/") (Execution.initial pagesContext)).2 ∧
      (∀ step ∈ steps, JarKeeps twoHosts sameUrl step) ∧
      ∃ step ∈ steps, ∃ request, SentBy twoHosts step request ∧ ¬Confined twoHosts sameUrl step request := by
  refine ⟨_,makes_pages second_answered.2,fun step _ => jar_empty step,_,.tail _ (.head _),_,second_sent.2,?_⟩
  intro confined
  rcases confined ("cookie","sid=1") (.head _) (by decide +kernel) ("sid","1") (by decide +kernel) with own | earlier | given
  · obtain ⟨own,listed,_⟩ := own
    change own ∈ declarations twoHosts (pageEntry "http://b.invalid/" []) secondAt.execution at listed
    rw [pages_declared.2.2] at listed
    cases listed
  · obtain ⟨declaration,listed,same,_⟩ := earlier
    change declaration ∈ secondAt.declared at listed
    rw [pages_declared.1] at listed
    obtain rfl := List.mem_singleton.mp listed
    exact absurd same (by decide +kernel)
  · obtain ⟨_,_,_,response,_,answer,_,header,listed,_⟩ := given
    cases answer
    cases listed

end Sample
end Qdrust.Executor
