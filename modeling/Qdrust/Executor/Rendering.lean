import Qdrust.Executor.Limits

/-! The request of a native step. Its entry holds a rendered URL, which the
execution of the entry renders again. -/
namespace Qdrust.Executor
open Library Effect Har Template

/-- What goes out for a given method and URL. -/
def outgoing (executor : QdExecutor) (entry : QdHarEntry) (method url : String) : Exec Event :=
  if hasPrefix url "api://" then do
    let context ← Effect.read Execution.context
    let callUrl ← Effect.lift (apiUrl executor.services entry method url context)
    return .called callUrl
  else do
    let request ← buildRequest executor entry method url
    return .sent request

/-- The text of a native step rendered once: the URL of its entry is, the rest is not yet. -/
def renderedOnce (executor : QdExecutor) (entry : QdHarEntry) : Exec Event := do
  let context ← Effect.read Execution.context
  let method ← Effect.lift (executor.services.render entry.request.method context)
  outgoing executor entry method entry.request.url

/-- The state in which the parts of a request are rendered. -/
def Execution.begun (state : Execution) (executor : QdExecutor) (entry : QdHarEntry) : Execution where
  context := { state.context with remainingRequests := state.context.remainingRequests - 1, lastStatus := none }
  results := state.results
  events := state.events ++ [.started state.nextStepIndex entry.request.method
    (((executor.services.render entry.request.url state.context).toOption).getD entry.request.url)]
  nextStepIndex := state.nextStepIndex + 1
  loops := state.loops

/-- Every request that is made in between satisfies `P`. -/
def Sends (P : Event → Prop) (before after : Execution) : Prop :=
  ∃ new, after.events = before.events ++ new ∧ ∀ event ∈ new, event.isRequest = true → P event

section Sends

variable {P : Event → Prop}

theorem sends_of_events {before after : Execution} (same : after.events = before.events) : Sends P before after :=
  ⟨[],by rw [same,List.append_nil],by simp⟩

theorem sends_refl (state : Execution) : Sends P state state := sends_of_events rfl

theorem sends_trans (a b c : Execution) (left : Sends P a b) (right : Sends P b c) : Sends P a c := by
  obtain ⟨new,written,holds⟩ := left
  obtain ⟨later,writtenLater,holdsLater⟩ := right
  refine ⟨new ++ later,by rw [writtenLater,written,List.append_assoc],?_⟩
  intro event member
  rcases List.mem_append.mp member with early | late
  · exact holds event early
  · exact holdsLater event late

theorem sends_of_framed {α : Type} {effect : Exec α} (moves : Moves Framed effect) : Moves (Sends P) effect :=
  moves.mono fun _ _ framed => sends_of_events framed.events

theorem sends_emit (event : Event) (holds : event.isRequest = true → P event) : Moves (Sends P) (emit event) := by
  intro state
  refine ⟨[event],rfl,?_⟩
  intro other member
  rw [List.mem_singleton.mp member]
  exact holds

theorem sends_finished (step : Nat) (method url : String) (status : Option Nat) (size : Nat) (error : Option String) :
    Moves (Sends P) (emit (.finished step method url status size error)) :=
  sends_emit _ fun request => Bool.noConfusion request

end Sends

section Step

variable (executor : QdExecutor) (entry : QdHarEntry)

theorem outgoing_called (method : String) {url callUrl : String} {state : Execution}
    (api : hasPrefix url "api://" = true) (called : apiUrl executor.services entry method url state.context = .ok callUrl) :
    (outgoing executor entry method url state).1 = .ok (.called callUrl) := by
  unfold outgoing
  rw [if_pos api,read_bind,called]
  rfl

theorem outgoing_sent {method url : String} {state after : Execution} {request : OutboundRequest}
    (web : ¬hasPrefix url "api://" = true) (run : buildRequest executor entry method url state = (.ok request,after)) :
    (outgoing executor entry method url state).1 = .ok (.sent request) := by
  unfold outgoing
  rw [if_neg web,Effect.bind_ok.mpr ⟨request,after,run,rfl⟩]

variable {P : Event → Prop}

/-- One event, and then only what the response changes. -/
theorem sends_emit_then {α : Type} (event : Event) (holds : P event) {rest : Unit → Exec α}
    (moves : ∀ value, Moves Framed (rest value)) : Moves (Sends P) (emit event >>= rest) :=
  moves_bind sends_trans (sends_emit event fun _ => holds) fun value => sends_of_framed (moves value)

theorem callPlugin_sends (method url : String) (api : hasPrefix url "api://" = true) (state : Execution)
    (holds : ∀ event, (outgoing executor entry method url state).1 = .ok event → P event) :
    Sends P state (callPlugin executor entry method url state).2 := by
  unfold callPlugin
  rw [read_bind,lift_bind]
  split
  next callUrl called =>
    rw [read_bind]
    refine sends_emit_then (.called callUrl) (holds _ (outgoing_called executor entry method api called)) ?_ state
    intro _
    exact moves_bind framed_trans (moves_lift framed_refl _) fun response => moves_finishResponse executor entry _ _ _ _
  next => exact sends_refl state

theorem sendRequest_sends (method url : String) (web : ¬hasPrefix url "api://" = true) (state : Execution)
    (holds : ∀ event, (outgoing executor entry method url state).1 = .ok event → P event) :
    Sends P state (sendRequest executor entry method url state).2 := by
  have framed := moves_buildRequest executor entry method url state
  refine after_bind ?_ ?_
  · intro failure after run
    rw [run] at framed
    exact sends_of_events framed.events
  · intro request after run
    rw [run] at framed
    refine sends_trans _ _ _ (sends_of_events framed.events) ?_
    rw [read_bind]
    refine sends_emit_then (.sent request) (holds _ (outgoing_sent executor entry web run)) ?_ after
    intro _
    exact moves_bind framed_trans (moves_lift framed_refl _) fun response => moves_finishResponse executor entry _ _ _ _

/-- Whatever goes out is what the rendered method and the rendered URL give. -/
theorem performRequest_sends (state : Execution)
    (holds : ∀ method url event, executor.services.render entry.request.method state.context = .ok method →
      executor.services.render entry.request.url state.context = .ok url →
      (outgoing executor entry method url state).1 = .ok event → P event) :
    Sends P state (performRequest executor entry state).2 := by
  unfold performRequest
  rw [read_bind,lift_bind]
  split
  next method renderedMethod =>
    rw [lift_bind]
    split
    next url renderedUrl =>
      split
      next api => exact callPlugin_sends executor entry method url api state fun event => holds _ _ event renderedMethod renderedUrl
      next web => exact sendRequest_sends executor entry method url web state fun event => holds _ _ event renderedMethod renderedUrl
    next => exact sends_refl state
  next => exact sends_refl state

theorem reportFailure_sends (step : Nat) (method url : String) {α : Type} {effect : Exec α} {state : Execution}
    (runs : Sends P state (effect state).2) : Sends P state (reportFailure step method url effect state).2 := by
  unfold reportFailure
  split
  next failure after run =>
    rw [run] at runs
    refine sends_trans _ _ _ runs ?_
    exact sends_finished _ _ _ _ _ _ after
  next => exact runs

theorem executeRequest_sends (state : Execution)
    (holds : ∀ method url event, executor.services.render entry.request.method state.context = .ok method →
      executor.services.render entry.request.url state.context = .ok url →
      (outgoing executor entry method url (state.begun executor entry)).1 = .ok event → P event) :
    Sends P state (executeRequest executor entry state).2 := by
  let started : Execution := { state with
    events := (state.begun executor entry).events
    nextStepIndex := state.nextStepIndex + 1 }
  have first : Sends P state started :=
    ⟨[.started state.nextStepIndex entry.request.method _],rfl,by simp [Event.isRequest]⟩
  have inner : Sends P started (executeRequestInner executor entry started).2 := by
    unfold executeRequestInner
    rw [read_bind,ensure_bind]
    split
    · exact sends_trans _ _ _ (sends_of_events rfl) (performRequest_sends executor entry (state.begun executor entry) holds)
    · exact sends_refl started
  change Sends P state ((reportFailure state.nextStepIndex entry.request.method _ (executeRequestInner executor entry) >>=
    fun result => emit (.finished state.nextStepIndex entry.request.method result.url (some result.status)
      result.bodySize none) >>= fun _ => pure result) started).2
  refine sends_trans _ _ _ first ?_
  have reported := reportFailure_sends state.nextStepIndex entry.request.method
    (((executor.services.render entry.request.url state.context).toOption).getD entry.request.url) inner
  refine after_bind (fun failure after run => ?_) fun result after run => ?_
  · rw [run] at reported
    exact reported
  · rw [run] at reported
    refine sends_trans _ _ _ reported ?_
    exact sends_finished _ _ _ _ _ _ after

end Step

/-- The URL of a call decides it, whatever is merged into its query. -/
theorem mergeFormIntoQuery_injective {left right body : String}
    (same : mergeFormIntoQuery left body = mergeFormIntoQuery right body) : left = right := by
  unfold mergeFormIntoQuery at same
  split at same
  · exact same
  · have texts := congrArg String.toList same
    simp only [String.toList_append,List.append_cancel_right_eq] at texts
    have lists := List.append_inj_left' texts (by split <;> split <;> rfl)
    exact String.toList_inj.mp lists

theorem apiUrl_injective {services : Services} {entry : QdHarEntry} {method left right callUrl : String}
    {context : ExecutionContext} (first : apiUrl services entry method left context = .ok callUrl)
    (second : apiUrl services entry method right context = .ok callUrl) : left = right := by
  unfold apiUrl at first second
  cases posted : entry.request.postData with
  | none =>
    simp only [posted,Except.ok.injEq] at first second
    exact first.trans second.symm
  | some post =>
    cases written : post.text with
    | none =>
      simp only [posted,written,Except.ok.injEq] at first second
      exact first.trans second.symm
    | some text =>
      simp only [posted,written] at first second
      split at first
      next form =>
        rw [if_pos form] at second
        cases rendered : services.render text context with
        | error failure =>
          rw [rendered] at first
          cases first
        | ok body =>
          rw [rendered] at first second
          exact mergeFormIntoQuery_injective ((Except.ok.inj first).trans (Except.ok.inj second).symm)
      next other =>
        rw [if_neg other] at second
        exact (Except.ok.inj first).trans (Except.ok.inj second).symm

theorem buildRequest_url (executor : QdExecutor) (entry : QdHarEntry) (method url : String) :
    Returns (fun request => request.url = url) (buildRequest executor entry method url) := by
  refine returns_bind fun context => ?_
  refine returns_bind fun connection => ?_
  refine returns_bind fun _ => ?_
  refine returns_bind fun rendered => ?_
  refine returns_bind fun _ => ?_
  refine returns_bind fun context => ?_
  refine returns_bind fun cookies => ?_
  refine returns_bind fun _ => ?_
  refine returns_bind fun _ => ?_
  refine returns_bind fun context => ?_
  refine returns_bind fun history => ?_
  refine returns_bind fun stored => ?_
  refine returns_bind fun body => ?_
  exact returns_pure rfl

theorem outgoing_cases {executor : QdExecutor} {entry : QdHarEntry} {method url : String} {state : Execution}
    {event : Event} (out : (outgoing executor entry method url state).1 = .ok event) :
    (∃ callUrl, event = .called callUrl ∧ apiUrl executor.services entry method url state.context = .ok callUrl) ∨
      ∃ request, event = .sent request ∧ (buildRequest executor entry method url state).1 = .ok request := by
  unfold outgoing at out
  split at out
  next api =>
    left
    rw [read_bind,lift_bind] at out
    split at out
    next callUrl called =>
      cases out
      exact ⟨callUrl,rfl,called⟩
    next => cases out
  next web =>
    right
    have step := Effect.bind_ok.mp (Prod.ext out rfl : (buildRequest executor entry method url >>= _) state = (.ok event,_))
    obtain ⟨request,after,run,done⟩ := step
    cases done
    exact ⟨request,rfl,congrArg Prod.fst run⟩

theorem outgoing_url {executor : QdExecutor} {entry : QdHarEntry} {method left right : String} {state : Execution}
    {event : Event} (first : (outgoing executor entry method left state).1 = .ok event)
    (second : (outgoing executor entry method right state).1 = .ok event) : left = right := by
  rcases outgoing_cases first with ⟨callUrl,rfl,called⟩ | ⟨request,rfl,run⟩
  · rcases outgoing_cases second with ⟨other,same,calledToo⟩ | ⟨_,same,_⟩
    · cases same
      exact apiUrl_injective called calledToo
    · cases same
  · rcases outgoing_cases second with ⟨_,same,_⟩ | ⟨other,same,runToo⟩
    · cases same
    · cases same
      rw [← buildRequest_url executor entry method left state _ run,buildRequest_url executor entry method right state _ runToo]

/-- What goes out for the entry of a native step: its URL is rendered again. -/
def OutgoingOf (executor : QdExecutor) (entry : QdHarEntry) (state : Execution) (event : Event) : Prop :=
  ∃ method url, executor.services.render entry.request.method state.context = .ok method ∧
    executor.services.render entry.request.url state.context = .ok url ∧
    (outgoing executor entry method url (state.begun executor entry)).1 = .ok event

theorem executeNativeRequest_sends (executor : QdExecutor) (request : RequestStep) (state : Execution) (entry : QdHarEntry)
    (built : nativeRequestEntry executor.services request state.context.vars = .ok entry) :
    Sends (OutgoingOf executor entry state) state (executeNativeRequest executor request state).2 := by
  unfold executeNativeRequest
  rw [read_bind,built,lift_bind]
  have runs : Sends (OutgoingOf executor entry state) state (executeRequest executor entry state).2 :=
    executeRequest_sends executor entry state fun method url event renderedMethod renderedUrl out =>
      ⟨method,url,renderedMethod,renderedUrl,out⟩
  refine after_bind (fun failure after run => ?_) fun result after run => ?_
  · rw [run] at runs
    exact runs
  · rw [run] at runs
    exact sends_trans _ _ _ runs (sends_of_events rfl)

/-- An engine for templates whose only markup is names of text variables. -/
def substitute (vars : Fields) : Nat → List Char → List Char
  | 0,text => text
  | fuel + 1,text =>
    match Text.splitList ['\x7b','\x7b'] text with
    | none => text
    | some (before,rest) => match Text.splitList ['\x7d','\x7d'] rest with
      | none => text
      | some (name,after) =>
        before ++ ((vars.text (trimmed (String.ofList name))).getD "").toList ++ substitute vars fuel after

/-- One web host, reached with that engine. -/
def oneHost : QdExecutor where
  services := { Services.offline with
    renderStr := fun text vars => .ok (String.ofList (substitute vars text.length text.toList))
    network := { singleHost (.v4 ⟨93,184,216,34⟩) with parse := fun _ => some ⟨"http",some "host.invalid",some 80⟩ } }
  policy := ⟨false,none⟩
  responseLimit := 0
  requestLimit := 1
  loopLimit := 1

def searchStep (url : String) : RequestStep := ⟨"search","GET",url,[],[],none⟩

def started (vars : Fields) : Execution := Execution.initial (ExecutionContext.withLimits vars 1 1)

def searchEntry (url : String) : QdHarEntry := ⟨true,some "search",⟨"GET",url,[],[],none⟩,[],[],[]⟩

def searchSent (url : String) : Event :=
  .sent ⟨.pinned "host.invalid" [(.v4 ⟨93,184,216,34⟩,80)],"GET",url,[],none⟩

def leaked : Fields := [("secret",.str "s3cr3t"),("v",.str "\x7b\x7b secret \x7d\x7d")]

end Qdrust.Executor
