import Qdrust.Notepad.Action

/-! Appends of several runs to one slot. Each reads the slot and writes it back, so
an append that another run's write comes between is lost. -/
namespace Qdrust.Notepad
open Library Concurrent

variable {ι : Type} [DecidableEq ι]

abbrev World (ι : Type) := Concurrent.World ι StoreCall StoreCall.Answer Slots

abbrev State (ι : Type) := Concurrent.State ι StoreCall StoreCall.Answer Slots PluginResponse

/-- An append on `slot`, by its arguments. -/
structure AppendsTo (slot : Int) (query : Query) : Prop where
  append : appending (flagOf query false) = true
  slot : slotOf query false = some slot

def piece (query : Query) : String := (query.lookup "data").getD ""

def NotepadSlot.content : NotepadSlot → Option String
  | .missing => none
  | .stored content => content

def reports (s : State ι) (i : ι) : Prop := ∃ response, (s.process i).result = some response ∧ response.status = 200

/-- The content of the slot is every reported piece, appended one after the other in an
order in which no action comes before one that its own run makes `before` it. -/
def AppendsKept (before : ι → ι → Prop) (queries : ι → Query) (slot : Int) (old : Option String) (s : State ι) : Prop :=
  ∃ order : List ι, order.Nodup ∧ (∀ i, i ∈ order ↔ reports s i) ∧ order.Pairwise (fun i j => ¬before j i) ∧
    (s.shared.slot slot).content = order.foldl (fun content i => some (appended content (piece (queries i)))) old

/-- What an action last learnt of its slot. -/
def knows (world : World ι) (i : ι) : Option NotepadSlot :=
  match world.last i with
  | some ⟨_,.read _,some seen⟩ => some seen
  | some ⟨_,.write _ content,some _⟩ => some (.stored content)
  | _ => none

/-- A run makes one action after the other. -/
def InTurn (before : ι → ι → Prop) (s : State ι) : Action ι Empty → Prop
  | .call i _ => ∀ j, before j i → (s.process j).ended = true
  | .outside _ => True

/-- An action goes on while its slot is what it last learnt of it. -/
def Undisturbed (slot : Int) (s : State ι) : Action ι Empty → Prop
  | .call i _ => ∀ known, knows s.toWorld i = some known → s.shared.slot slot = known
  | .outside _ => True

def startActions (slots : Slots) (queries : ι → Query) (list : ι → Bool) : State ι :=
  State.start slots fun i => notepadSlotAction true (queries i) (list i)

abbrev step (s : State ι) (action : Action ι Empty) : Option (State ι) :=
  Concurrent.step store (fun event _ => event.elim) s action

/-- The appends that were made, the first one first. -/
def commits : List (Event ι StoreCall StoreCall.Answer) → List ι
  | [] => []
  | ⟨i,.write _ (some _),some _⟩ :: past => commits past ++ [i]
  | _ :: past => commits past

theorem action_append {slot : Int} {query : Query} (append : AppendsTo slot query) :
    notepadSlotAction true query false = .call (.read slot) (Routine.answered (afterRead query slot)) := by
  apply notepadSlotAction_read _ append.slot
  intro empty
  have found := append.append
  rw [empty] at found
  exact absurd found (by decide)

theorem write_append {slot : Int} {query : Query} (append : AppendsTo slot query) (stored : Option String) :
    notepadWrite query (flagOf query false) slot stored =
      if (appended stored (piece query)).utf8ByteSize > notepadContentLimit then
        .done (notepadError ("记事本内容超过上限, limit: " ++ toString notepadContentLimit))
      else .call (.write slot (some (appended stored (piece query))))
        (Routine.answered fun _ => .done (notepadText (appended stored (piece query)))) := by
  have apart : writing (flagOf query false) = false := by
    have both := append.append
    simp only [appending,Bool.and_eq_true,Bool.not_eq_true'] at both
    exact both.1
  simp only [notepadWrite,apart,append.append,Bool.false_or,if_true,Bool.false_eq_true,if_false,
    NotepadStore.write_bind,Routine.pure_eq]
  rfl

section Stages

variable {before : ι → ι → Prop} {queries : ι → Query} {query : Query} {slot : Int} {old : Option String}

/-- What an append that was not made still has to do, and what it has learnt. -/
inductive Pending (query : Query) (slot : Int) (i : ι) (world : World ι) : PluginAction → Prop
  | ready (fresh : world.last i = none) :
      Pending query slot i world (.call (.read slot) (Routine.answered (afterRead query slot)))
  | creating (known : knows world i = some .missing) :
      Pending query slot i world (.call (.write slot none)
        (Routine.answered fun _ => notepadWrite query (flagOf query false) slot none))
  | holding (seen : NotepadSlot) (known : knows world i = some seen) :
      Pending query slot i world (.call (.write slot (some (appended seen.content (piece query))))
        (Routine.answered fun _ => .done (notepadText (appended seen.content (piece query)))))
  | refused (message : String) : Pending query slot i world (.done (notepadError message))
  | failed : Pending query slot i world .failed

/-- One process: whether its append was made, and what may still come before it. -/
structure Placed (before : ι → ι → Prop) (query : Query) (slot : Int) (i : ι) (world : World ι) (action : PluginAction) :
    Prop where
  stage : (i ∉ commits world.past ∧ Pending query slot i world action) ∨
    (i ∈ commits world.past ∧ ∃ body, action = .done (notepadText body))
  later : action.ended = true ∨ ∀ k ∈ commits world.past, ¬before i k

/-- The slot holds the appends that were made. -/
structure Holds (before : ι → ι → Prop) (queries : ι → Query) (slot : Int) (old : Option String) (world : World ι) :
    Prop where
  distinct : (commits world.past).Nodup
  ordered : (commits world.past).Pairwise fun i j => ¬before j i
  content : (world.shared.slot slot).content =
    (commits world.past).foldl (fun content i => some (appended content (piece (queries i)))) old

theorem pending_write (append : AppendsTo slot query) {i : ι} {world : World ι} {seen : NotepadSlot}
    (known : knows world i = some seen) :
    Pending query slot i world (notepadWrite query (flagOf query false) slot seen.content) := by
  rw [write_append append]
  split
  · exact .refused _
  · exact .holding seen known

theorem pending_read (append : AppendsTo slot query) {i : ι} {world : World ι} {seen : NotepadSlot}
    (known : knows world i = some seen) : Pending query slot i world (afterRead query slot seen) := by
  cases seen with
  | stored content => exact pending_write append known
  | missing =>
    simp only [afterRead]
    by_cases first : slot = 1
    · rw [if_pos first]
      exact .creating known
    · rw [if_neg first]
      exact .refused _

theorem knows_congr {world world' : World ι} {i : ι} (same : world'.last i = world.last i) :
    knows world' i = knows world i := by
  rw [knows,knows,same]

theorem pending_congr {i : ι} {world world' : World ι} {action : PluginAction} (same : world'.last i = world.last i)
    (pending : Pending query slot i world action) : Pending query slot i world' action := by
  cases pending with
  | ready fresh => exact .ready (same.trans fresh)
  | creating known => exact .creating ((knows_congr same).trans known)
  | holding seen known => exact .holding seen ((knows_congr same).trans known)
  | refused message => exact .refused message
  | failed => exact .failed

theorem pending_unreported {i : ι} {world : World ι} {action : PluginAction} (pending : Pending query slot i world action)
    {response : PluginResponse} (answered : action.result = some response) : response.status ≠ 200 := by
  cases pending with
  | refused message =>
    cases answered
    exact show (400 : Nat) ≠ 200 by decide
  | _ => cases answered

/-- A call that fails ends its action. -/
theorem pending_fails {i : ι} {world : World ι} {request : StoreCall} {next : Option request.Answer → PluginAction}
    (pending : Pending query slot i world (.call request next)) : next none = .failed := by
  cases pending <;> rfl

theorem slot_insert (slots : Slots) (slot : Int) (content : Option String) :
    Slots.slot (slots.insert slot content) slot = .stored content := by
  simp [Slots.slot]

/-- The call of one process. -/
theorem placed_own (appends : ∀ i, AppendsTo slot (queries i)) {s : State ι} {i : ι} {request : StoreCall}
    {next : Option request.Answer → PluginAction} {fails : Bool} (free : Undisturbed slot s (.call i fails))
    (holds : Holds before queries slot old s.toWorld)
    (placed : Placed before (queries i) slot i s.toWorld (.call request next)) :
    Holds before queries slot old (s.toWorld.perform store i request fails) ∧
      Placed before (queries i) slot i (s.toWorld.perform store i request fails)
        (next (answer store s.shared request fails)) := by
  obtain ⟨unmade,pending⟩ : i ∉ commits s.past ∧ Pending (queries i) slot i s.toWorld (.call request next) := by
    rcases placed.stage with pending | ⟨_,_,ended⟩
    · exact pending
    · cases ended
  have allowed : ∀ k ∈ commits s.past, ¬before i k := by
    rcases placed.later with ended | allowed
    · cases ended
    · exact allowed
  cases fails with
  | true =>
    have ceased : next (answer store s.shared request true) = .failed := pending_fails pending
    have same : commits (s.toWorld.perform store i request true).past = commits s.past := by
      cases request with
      | write slot content => cases content <;> rfl
      | _ => rfl
    refine ⟨⟨?_,?_,?_⟩,⟨?_,?_⟩⟩
    · rw [same]
      exact holds.distinct
    · rw [same]
      exact holds.ordered
    · rw [same]
      exact holds.content
    · rw [same,ceased]
      exact .inl ⟨unmade,.failed⟩
    · rw [ceased]
      exact .inl rfl
  | false =>
    cases pending with
    | ready fresh =>
      refine ⟨⟨holds.distinct,holds.ordered,holds.content⟩,⟨.inl ⟨unmade,?_⟩,.inr allowed⟩⟩
      apply pending_read (appends i)
      simp only [knows,last_self]
      rfl
    | creating known =>
      have empty : (s.shared.slot slot).content = none := by
        rw [free _ known]
        rfl
      refine ⟨⟨holds.distinct,holds.ordered,?_⟩,⟨.inl ⟨unmade,?_⟩,.inr allowed⟩⟩
      · rw [perform_made]
        change (Slots.slot (s.shared.insert slot none) slot).content = _
        rw [slot_insert]
        exact empty.symm.trans holds.content
      · have learnt : knows (s.toWorld.perform store i (.write slot none) false) i = some (.stored none) := by
          simp only [knows,last_self]
          rfl
        exact pending_write (appends i) learnt
    | holding seen known =>
      have same : s.shared.slot slot = seen := free _ known
      have more : commits (s.toWorld.perform store i
          (.write slot (some (appended seen.content (piece (queries i))))) false).past = commits s.past ++ [i] := rfl
      refine ⟨⟨?_,?_,?_⟩,⟨.inr ⟨?_,_,rfl⟩,.inl rfl⟩⟩
      · rw [more]
        exact holds.distinct.append (List.nodup_singleton i) (by simpa using unmade)
      · rw [more,List.pairwise_append]
        refine ⟨holds.ordered,List.pairwise_singleton _ _,?_⟩
        intro k made j last
        rw [List.mem_singleton.mp last]
        exact allowed k made
      · rw [more,List.foldl_append,← holds.content,same,perform_made]
        change (Slots.slot (s.shared.insert slot _) slot).content = _
        rw [slot_insert]
        rfl
      · rw [more]
        simp

omit [DecidableEq ι] in
theorem commits_perform (world : World ι) (i : ι) (request : StoreCall) (fails : Bool) :
    commits (world.perform store i request fails).past = commits world.past ∨
      commits (world.perform store i request fails).past = commits world.past ++ [i] := by
  cases request with
  | write slot content =>
    cases content with
    | none => cases fails <;> exact .inl rfl
    | some body =>
      cases fails
      · exact .inr rfl
      · exact .inl rfl
  | _ => cases fails <;> exact .inl rfl

/-- The call of another process. -/
theorem placed_other {s : State ι} {i j : ι} {request : StoreCall} {fails : Bool}
    (turn : InTurn before s (.call i fails)) (differs : j ≠ i)
    (placed : Placed before (queries j) slot j s.toWorld (s.process j)) :
    Placed before (queries j) slot j (s.toWorld.perform store i request fails) (s.process j) := by
  have mine : j ∈ commits (s.toWorld.perform store i request fails).past ↔ j ∈ commits s.past := by
    rcases commits_perform s.toWorld i request fails with same | more
    · rw [same]
    · rw [more]
      simp [differs]
  constructor
  · rcases placed.stage with ⟨unmade,pending⟩ | made
    · exact .inl ⟨fun made => unmade (mine.mp made),pending_congr (last_other s.toWorld differs request fails) pending⟩
    · exact .inr ⟨mine.mpr made.1,made.2⟩
  · rcases placed.later with ended | allowed
    · exact .inl ended
    · rcases commits_perform s.toWorld i request fails with same | more
      · rw [same]
        exact .inr allowed
      · by_cases earlier : before j i
        · exact .inl (turn j earlier)
        · right
          rw [more]
          intro k made
          rcases List.mem_append.mp made with old | new
          · exact allowed k old
          · rw [List.mem_singleton.mp new]
            exact earlier

/-- Appends whose slot does not change between their calls are all kept. -/
theorem appends_kept (before : ι → ι → Prop) (queries : ι → Query) (slot : Int) (slots : Slots)
    (appends : ∀ i, AppendsTo slot (queries i)) {s : State ι}
    (reach : Transition.Reaches step (fun s action => InTurn before s action ∧ Undisturbed slot s action)
      (startActions slots queries fun _ => false) s) :
    AppendsKept before queries slot (slots.slot slot).content s := by
  have initial : Assertions (Holds before queries slot (slots.slot slot).content)
      (fun i => Placed before (queries i) slot i) (startActions slots queries fun _ => false) := by
    refine ⟨⟨List.nodup_nil,List.Pairwise.nil,rfl⟩,fun i => ⟨.inl ⟨List.not_mem_nil,?_⟩,.inr fun k made => ?_⟩⟩
    · change Pending _ _ _ _ (notepadSlotAction true (queries i) false)
      rw [action_append (appends i)]
      exact .ready rfl
    · cases made
  have kept := assertions_kept _ _
    (fun s i request next fails holds guard outstanding => placed_own appends guard.2 holds.common
      (outstanding ▸ holds.stage i))
    (fun s i request next fails j holds guard outstanding differs => placed_other guard.1 differs (holds.stage j))
    (fun _ event _ _ _ _ => event.elim) reach initial
  refine ⟨commits s.past,kept.common.distinct,fun i => ?_,kept.common.ordered,kept.common.content⟩
  rcases (kept.stage i).stage with ⟨unmade,pending⟩ | ⟨made,body,ceased⟩
  · constructor
    · intro made
      exact absurd made unmade
    · rintro ⟨response,ceased,success⟩
      exact absurd success (pending_unreported pending ceased)
  · constructor
    · intro _
      exact ⟨notepadText body,by rw [ceased]; rfl,rfl⟩
    · intro _
      exact made

end Stages

def appendQuery (data : String) : Query := [("f","append"),("data",data)]

def twoQueries (second : Bool) : Query := appendQuery (if second then "b" else "a")

def oneSlot : Slots := (∅ : Slots).insert 1 none

theorem twoQueries_append (second : Bool) : AppendsTo 1 (twoQueries second) := by
  cases second <;> exact ⟨by decide,by decide⟩

/-- The second run appends after the first. -/
theorem appends_in_turn_kept : ∃ s : State Bool,
    Transition.exec step (startActions oneSlot twoQueries fun _ => false)
      [.call false false,.call false false,.call true false,.call true false] = some s ∧
    (s.shared.slot 1).content = some "a\r\nb" ∧ AppendsKept (fun i j => i = false ∧ j = true) twoQueries 1 none s := by
  obtain ⟨s,ran⟩ : ∃ s, Transition.exec step (startActions oneSlot twoQueries fun _ => false)
      [.call false false,.call false false,.call true false,.call true false] = some s := ⟨_,rfl⟩
  have content := congrArg (Option.map fun s => (s.shared.slot 1).content) ran
  refine ⟨s,ran,(Option.some.inj content).symm,
    appends_kept _ twoQueries 1 oneSlot twoQueries_append (Transition.reaches_of_exec ran ?_)⟩
  refine ⟨⟨?_,?_⟩,?_⟩
  · rintro j ⟨_,second⟩
    cases second
  · intro known learnt
    cases learnt
  rintro _ ⟨⟩
  refine ⟨⟨?_,?_⟩,?_⟩
  · rintro j ⟨_,second⟩
    cases second
  · intro known learnt
    cases learnt
    rfl
  rintro _ ⟨⟩
  refine ⟨⟨?_,?_⟩,?_⟩
  · rintro j ⟨rfl,_⟩
    rfl
  · intro known learnt
    cases learnt
  rintro _ ⟨⟩
  refine ⟨⟨?_,?_⟩,fun _ _ => trivial⟩
  · rintro j ⟨rfl,_⟩
    rfl
  · intro known learnt
    cases learnt
    rfl

/-- Both runs read before either writes. -/
theorem append_lost : ∃ s : State Bool,
    Transition.exec step (startActions oneSlot twoQueries fun _ => false)
      [.call false false,.call true false,.call false false,.call true false] = some s ∧
    reports s false ∧ reports s true ∧ (s.shared.slot 1).content = some "b" ∧
    ¬AppendsKept (fun _ _ => False) twoQueries 1 none s := by
  refine ⟨_,rfl,⟨_,rfl,rfl⟩,⟨_,rfl,rfl⟩,rfl,?_⟩
  rintro ⟨order,distinct,members,_,content⟩
  have both : order.Perm [false,true] := by
    apply (List.perm_ext_iff_of_nodup distinct (by decide)).mpr
    intro i
    cases i with
    | false => exact iff_of_true ((members false).mpr ⟨_,rfl,rfl⟩) (by decide)
    | true => exact iff_of_true ((members true).mpr ⟨_,rfl,rfl⟩) (by decide)
  obtain ⟨first,second,rfl⟩ := List.length_eq_two.mp both.length_eq
  have only : (some "b" : Option String) = [first,second].foldl
      (fun content i => some (appended content (piece (twoQueries i)))) none := content
  revert only
  cases first <;> cases second <;> decide

end Qdrust.Notepad
