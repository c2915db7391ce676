import Qdrust.Notepad.Append

/-! Which slots an account has, over all actions. A number is checked and written
in separate calls, and the number of an add is not checked at all. -/
namespace Qdrust.Notepad
open Library Concurrent

variable {ι : Type} [DecidableEq ι]

def maxI64 : Int := 9223372036854775807

def adding (query : Query) : Bool := Text.contains (flagOf query true) "add"

/-- The number an add counts on from, where it is asked for none. -/
def countsFrom (queries : ι → Query) (list : ι → Bool) : Event ι StoreCall StoreCall.Answer → Option Int
  | ⟨i,.slots,some numbers⟩ =>
    if list i && adding (queries i) && slotOf (queries i) true = some (-1) && numbers.length < notepadLimit then
      (numbers.insertionSort (· ≤ ·)).getLast?
    else none
  | _ => none

/-- Every slot has a positive number, there are not too many, and every next number is one. -/
structure SlotsSound (queries : ι → Query) (list : ι → Bool) (s : State ι) : Prop where
  positive : ∀ slot ∈ s.shared.keys, 0 < slot
  bounded : s.shared.keys.length ≤ notepadLimit
  counted : ∀ event ∈ s.past, ∀ last, countsFrom queries list event = some last → last + 1 ≤ maxI64

/-- A write makes no slot too many and none with a number that is not positive, and no add
counts on from the greatest number there is. -/
def Checked (queries : ι → Query) (list : ι → Bool) (s : State ι) : Action ι Empty → Prop
  | .outside _ => True
  | .call i _ => ∀ request next, s.process i = .call request next →
    match request with
    | .write slot _ => (slot ∈ s.shared.keys ∨ s.shared.keys.length < notepadLimit) ∧
      (list i = true → ∀ asked, slotOf (queries i) true = some asked → asked = -1 ∨ 0 < asked)
    | .slots => adding (queries i) = true → slotOf (queries i) true = some (-1) →
      s.shared.keys.length < notepadLimit → maxI64 ∉ s.shared.keys
    | _ => True

section Stages

variable {queries : ι → Query} {list : ι → Bool} {query : Query}

def addedContent (query : Query) : Option String :=
  match query.lookup "data" with
  | none | some "" => none
  | some data => some data

def nextSlot (slot : Int) (numbers : List Int) : Int :=
  if slot = -1 then Store.addI64 ((numbers.getLast?).getD 0) 1 else slot

/-- What the list route does with the numbers it is answered. -/
def afterSlots (query : Query) (flag : String) (slot : Int) (answered : List Int) : PluginAction :=
  let slots := answered.insertionSort (· ≤ ·)
  if slots = [] then .done (notepadError "无法获取该用户记事本编号")
  else if Text.contains flag "add" then
    if slots.length ≥ notepadLimit then .done (notepadError ("记事本数量超过上限, limit: " ++ toString notepadLimit))
    else if slot ≠ -1 ∧ slot ∈ slots then .done (notepadError ("记事本编号已存在, id_notepad: " ++ toString slot))
    else .call (.write (nextSlot slot slots) (addedContent query))
      (Routine.answered fun _ => .done (notepadText ("添加成功, id_notepad: " ++ toString (nextSlot slot slots))))
  else if Text.contains flag "delete" then
    if slot ≤ 0 then .done (notepadError "id_notepad参数不完整, 请确认")
    else if slot ∉ slots then .done (notepadError ("记事本编号不存在, id_notepad: " ++ toString slot))
    else if slot = 1 then .done (notepadError "默认记事本不能删除")
    else .call (.remove slot) (Routine.answered fun _ => .done (notepadText ("删除成功, id_notepad: " ++ toString slot)))
  else if Text.contains flag "list" then
    .done (notepadText ("[" ++ String.intercalate ", " (slots.map toString) ++ "]"))
  else .done (notepadError notepadIncompleteList)

/-- What an action still has to do; a slot it writes may have been there when it looked. -/
inductive Stage (query : Query) (slots : Slots) : Bool → PluginAction → Prop
  | reading (slot : Int) :
      Stage query slots false (.call (.read slot) (Routine.answered (afterRead query slot)))
  | creating (flag : String) :
      Stage query slots false (.call (.write 1 none) (Routine.answered fun _ => notepadWrite query flag 1 none))
  | writing (slot : Int) (body : String) (response : PluginResponse)
      (known : slot = 1 ∨ 0 < slot ∧ slot ≤ maxI64 ∧ 1 ∈ slots.keys) :
      Stage query slots false (.call (.write slot (some body)) (Routine.answered fun _ => .done response))
  | listing (slot : Int) (asked : slotOf query true = some slot) :
      Stage query slots true (.call .slots (Routine.answered (afterSlots query (flagOf query true) slot)))
  | adding (slot asked : Int) (content : Option String) (response : PluginResponse)
      (named : slotOf query true = some asked) (next : 0 < asked → slot = asked ∧ slot ≤ maxI64)
      (counted : asked = -1 → 0 < slot ∧ slot ≤ maxI64) (default : 1 ∈ slots.keys) :
      Stage query slots true (.call (.write slot content) (Routine.answered fun _ => .done response))
  | removing (slot : Int) (response : PluginResponse) (other : slot ≠ 1) :
      Stage query slots true (.call (.remove slot) (Routine.answered fun _ => .done response))
  | ceased (list : Bool) (action : PluginAction) (ended : action.ended = true) : Stage query slots list action

/-- The slots an account has, the default one among them if it was there before. -/
structure Numbered (present : Prop) (queries : ι → Query) (list : ι → Bool) (world : World ι) : Prop where
  kept : present → 1 ∈ world.shared.keys
  range : ∀ slot ∈ world.shared.keys, 0 < slot ∧ slot ≤ maxI64
  bounded : world.shared.keys.length ≤ notepadLimit
  default : world.shared.keys ≠ [] → 1 ∈ world.shared.keys
  counted : ∀ event ∈ world.past, ∀ last, countsFrom queries list event = some last → last + 1 ≤ maxI64

theorem parseI64_range {text : String} {value : Int} (parsed : parseI64 text = some value) :
    -maxI64 - 1 ≤ value ∧ value ≤ maxI64 := by
  simp only [parseI64,Option.ite_none_right_eq_some,Bool.and_eq_true,decide_eq_true_eq,Option.some.injEq] at parsed
  obtain ⟨_,inside,rfl⟩ := parsed
  exact inside

theorem slotOf_range {list : Bool} {slot : Int} (named : slotOf query list = some slot) :
    -maxI64 - 1 ≤ slot ∧ slot ≤ maxI64 := by
  unfold slotOf at named
  simp only [] at named
  generalize (query.lookup "id_notepad").getD (if list then "" else "1") = raw at named
  by_cases unset : (list && decide (raw = "")) = true
  · rw [if_pos unset] at named
    cases named
    decide
  · rw [if_neg unset] at named
    exact parseI64_range named

/-- The calls of an action on one slot. -/
theorem stage_write {slots : Slots} {slot : Int} (known : slot = 1 ∨ 0 < slot ∧ slot ≤ maxI64 ∧ 1 ∈ slots.keys)
    (flag : String) (stored : Option String) : Stage query slots false (notepadWrite query flag slot stored) := by
  unfold notepadWrite
  simp only [NotepadStore.write_bind,Routine.pure_eq]
  by_cases writes : (writing flag || appending flag) = true
  · rw [if_pos writes]
    by_cases large : String.utf8ByteSize (if writing flag then (query.lookup "data").getD "" else
        if appending flag then appended stored ((query.lookup "data").getD "") else stored.getD "") > notepadContentLimit
    · rw [if_pos large]
      exact .ceased _ _ rfl
    · rw [if_neg large]
      exact .writing _ _ _ known
  · rw [if_neg writes]
    exact .ceased _ _ rfl

theorem numbers_mem {slots : Slots} {slot : Int} : slot ∈ slots.numbers ↔ slot ∈ slots.keys :=
  List.mem_insertionSort _

theorem numbers_length (slots : Slots) : slots.numbers.length = slots.keys.length := List.length_insertionSort _ _

theorem stage_read {slots : Slots} {slot : Int} (range : ∀ slot ∈ slots.keys, 0 < slot ∧ slot ≤ maxI64)
    (default : slots.keys ≠ [] → 1 ∈ slots.keys) :
    Stage query slots false (afterRead query slot (slots.slot slot)) := by
  unfold Slots.slot
  cases found : slots.lookup slot with
  | none =>
    simp only [afterRead]
    by_cases first : slot = 1
    · rw [if_pos first,first]
      exact .creating _
    · rw [if_neg first]
      exact .ceased _ _ rfl
  | some content =>
    have there : slot ∈ slots.keys := AList.lookup_isSome.mp (by simp [found])
    have positive := range slot there
    exact stage_write (.inr ⟨positive.1,positive.2,default (List.ne_nil_of_mem there)⟩) _ _

theorem notepadListAction_slots (flag : String) (slot : Int) :
    notepadListAction query flag slot = .call .slots (Routine.answered (afterSlots query flag slot)) := by
  unfold notepadListAction
  rw [NotepadStore.slots_bind]
  refine congrArg (fun after => Routine.call StoreCall.slots (Routine.answered after)) (funext fun answered => ?_)
  simp only [afterSlots,NotepadStore.write_bind,NotepadStore.remove_bind,Routine.pure_eq]
  rfl

theorem addI64_next {last : Int} (positive : 0 < last) (next : last + 1 ≤ maxI64) : Store.addI64 last 1 = last + 1 := by
  simp only [maxI64] at next
  exact Int.bmod_eq_of_le (by omega) (by omega)

/-- The last number is one of the slots, and there is a next one. -/
theorem last_number {slots : Slots} {last : Int} (range : ∀ slot ∈ slots.keys, 0 < slot ∧ slot ≤ maxI64)
    (room : maxI64 ∉ slots.keys) (found : (slots.numbers.insertionSort (· ≤ ·)).getLast? = some last) :
    0 < last ∧ last + 1 ≤ maxI64 := by
  have there : last ∈ slots.keys := numbers_mem.mp ((List.mem_insertionSort _).mp (List.mem_of_getLast? found))
  obtain ⟨positive,inRange⟩ := range last there
  have other : last ≠ maxI64 := by
    rintro rfl
    exact room there
  exact ⟨positive,by omega⟩

theorem stage_slots {slots : Slots} {slot : Int} (asked : slotOf query true = some slot)
    (range : ∀ slot ∈ slots.keys, 0 < slot ∧ slot ≤ maxI64) (default : slots.keys ≠ [] → 1 ∈ slots.keys)
    (room : adding query = true → slotOf query true = some (-1) → slots.keys.length < notepadLimit → maxI64 ∉ slots.keys) :
    Stage query slots true (afterSlots query (flagOf query true) slot slots.numbers) := by
  unfold afterSlots
  by_cases empty : slots.numbers.insertionSort (· ≤ ·) = []
  · rw [if_pos empty]
    exact .ceased _ _ rfl
  rw [if_neg empty]
  have numbers : slots.keys ≠ [] := by
    intro none
    apply empty
    apply List.eq_nil_of_length_eq_zero
    rw [List.length_insertionSort,numbers_length,none,List.length_nil]
  by_cases adds : Text.contains (flagOf query true) "add" = true
  · rw [if_pos adds]
    by_cases full : (slots.numbers.insertionSort (· ≤ ·)).length ≥ notepadLimit
    · rw [if_pos full]
      exact .ceased _ _ rfl
    rw [if_neg full]
    rw [List.length_insertionSort,numbers_length,not_le] at full
    split
    · exact .ceased _ _ rfl
    · apply Stage.adding _ slot _ _ asked _ _ (default numbers)
      · intro positive
        have unasked : slot ≠ -1 := by omega
        rw [nextSlot,if_neg unasked]
        exact ⟨rfl,(slotOf_range asked).2⟩
      · rintro rfl
        rw [nextSlot,if_pos rfl]
        obtain ⟨last,found⟩ := Option.ne_none_iff_exists'.mp (mt List.getLast?_eq_none_iff.mp empty)
        obtain ⟨positive,next⟩ := last_number range (room adds asked full) found
        rw [found,Option.getD_some,addI64_next positive next]
        exact ⟨by omega,next⟩
  · rw [if_neg adds]
    split
    · by_cases negative : slot ≤ 0
      · rw [if_pos negative]
        exact .ceased _ _ rfl
      rw [if_neg negative]
      by_cases unknown : slot ∉ slots.numbers.insertionSort (· ≤ ·)
      · rw [if_pos unknown]
        exact .ceased _ _ rfl
      rw [if_neg unknown]
      by_cases first : slot = 1
      · rw [if_pos first]
        exact .ceased _ _ rfl
      · rw [if_neg first]
        exact .removing _ _ first
    · split <;> exact .ceased _ _ rfl

variable {present : Prop}

omit [DecidableEq ι] in
theorem countsFrom_other (i : ι) {request : StoreCall} (answer : Option request.Answer)
    (other : request ≠ .slots) : countsFrom queries list ⟨i,request,answer⟩ = none := by
  cases request with
  | slots => exact absurd rfl other
  | _ => rfl

omit [DecidableEq ι] in
/-- A call that is no count keeps the counts, and the slots are what it leaves. -/
theorem numbered_call {world : World ι} (holds : Numbered present queries list world) (i : ι) (request : StoreCall)
    (other : request ≠ .slots)
    (range : ∀ slot ∈ (store request world.shared).2.keys, 0 < slot ∧ slot ≤ maxI64)
    (bounded : (store request world.shared).2.keys.length ≤ notepadLimit)
    (default : (store request world.shared).2.keys ≠ [] → 1 ∈ (store request world.shared).2.keys)
    (kept : 1 ∈ world.shared.keys → 1 ∈ (store request world.shared).2.keys) :
    Numbered present queries list (world.perform store i request false) := by
  refine ⟨fun before => kept (holds.kept before),range,bounded,default,?_⟩
  intro event made last found
  rcases List.mem_cons.mp made with rfl | earlier
  · rw [countsFrom_other i _ other] at found
    cases found
  · exact holds.counted event earlier last found

omit [DecidableEq ι] in
theorem numbered_write {world : World ι} (holds : Numbered present queries list world) (i : ι) {slot : Int}
    {content : Option String} (positive : 0 < slot) (inRange : slot ≤ maxI64)
    (room : slot ∈ world.shared.keys ∨ world.shared.keys.length < notepadLimit)
    (default : slot = 1 ∨ 1 ∈ world.shared.keys) :
    Numbered present queries list (world.perform store i (.write slot content) false) := by
  have members : ∀ k, k ∈ (world.shared.insert slot content).keys ↔ k = slot ∨ k ∈ world.shared.keys := by
    intro k
    exact AList.mem_insert world.shared
  have first : 1 ∈ (world.shared.insert slot content).keys := by
    rw [members]
    exact default.imp Eq.symm id
  apply numbered_call holds i (.write slot content) nofun
  · intro k there
    rcases (members k).mp there with rfl | old
    · exact ⟨positive,inRange⟩
    · exact holds.range k old
  · change (world.shared.insert slot content).keys.length ≤ notepadLimit
    rw [AList.keys_insert,List.length_cons,List.length_erase]
    have old := holds.bounded
    rcases room with there | room
    · have some := List.length_pos_of_mem there
      rw [if_pos there]
      omega
    · split <;> omega
  · exact fun _ => first
  · exact fun _ => first

omit [DecidableEq ι] in
theorem numbered_remove {world : World ι} (holds : Numbered present queries list world) (i : ι) {slot : Int}
    (other : slot ≠ 1) : Numbered present queries list (world.perform store i (.remove slot) false) := by
  have members : ∀ k, k ∈ (world.shared.erase slot).keys ↔ k ≠ slot ∧ k ∈ world.shared.keys := by
    intro k
    exact AList.mem_erase
  have kept : 1 ∈ world.shared.keys → 1 ∈ (world.shared.erase slot).keys :=
    fun there => (members 1).mpr ⟨other.symm,there⟩
  apply numbered_call holds i (.remove slot) nofun
  · intro k there
    exact holds.range k ((members k).mp there).2
  · change (world.shared.erase slot).keys.length ≤ notepadLimit
    rw [AList.keys_erase]
    exact List.length_erase_le.trans holds.bounded
  · intro some
    obtain ⟨k,there⟩ := List.exists_mem_of_ne_nil _ some
    exact kept (holds.default (List.ne_nil_of_mem ((members k).mp there).2))
  · exact kept

omit [DecidableEq ι] in
/-- A call that fails changes no slot. -/
theorem numbered_fails {world : World ι} (holds : Numbered present queries list world) (i : ι) (request : StoreCall) :
    Numbered present queries list (world.perform store i request true) := by
  refine ⟨holds.kept,holds.range,holds.bounded,holds.default,?_⟩
  intro event made last found
  rcases List.mem_cons.mp made with rfl | earlier
  · cases request <;> cases found
  · exact holds.counted event earlier last found

omit [DecidableEq ι] in
/-- The call of one process. -/
theorem stage_own {s : State ι} {i : ι} {request : StoreCall} {next : Option request.Answer → PluginAction} {fails : Bool}
    (checked : Checked queries list s (.call i fails)) (holds : Numbered present queries list s.toWorld)
    (outstanding : s.process i = .call request next) (stage : Stage (queries i) s.shared (list i) (.call request next)) :
    Numbered present queries list (s.toWorld.perform store i request fails) ∧
      Stage (queries i) (s.toWorld.perform store i request fails).shared (list i) (next (answer store s.shared request fails)) := by
  have guard := checked request next outstanding
  cases fails with
  | true =>
    have ceased : next (answer store s.shared request true) = .failed := by
      generalize list i = listing at stage
      cases stage with
      | ceased _ _ ended => cases ended
      | _ => rfl
    rw [ceased]
    exact ⟨numbered_fails holds i request,.ceased _ _ rfl⟩
  | false =>
    generalize which : list i = listing at stage guard
    cases stage with
    | reading slot =>
      exact ⟨numbered_call holds i (.read slot) nofun holds.range holds.bounded holds.default id,stage_read holds.range holds.default⟩
    | creating flag =>
      exact ⟨numbered_write holds i (by decide) (by decide) guard.1 (.inl rfl),stage_write (.inl rfl) _ _⟩
    | writing slot body response known =>
      refine ⟨?_,.ceased _ _ rfl⟩
      rcases known with rfl | ⟨positive,inRange,default⟩
      · exact numbered_write holds i (by decide) (by decide) guard.1 (.inl rfl)
      · exact numbered_write holds i positive inRange guard.1 (.inr default)
    | listing slot asked =>
      refine ⟨⟨holds.kept,holds.range,holds.bounded,holds.default,?_⟩,?_⟩
      · intro event made last found
        rcases List.mem_cons.mp made with rfl | earlier
        · change (if _ then _ else _) = some last at found
          simp only [Option.ite_none_right_eq_some,Bool.and_eq_true,decide_eq_true_eq] at found
          obtain ⟨⟨⟨⟨_,adds⟩,unasked⟩,room⟩,found⟩ := found
          replace room : s.shared.keys.length < notepadLimit := numbers_length s.shared ▸ room
          exact (last_number holds.range (guard adds unasked room) found).2
        · exact holds.counted event earlier last found
      · exact stage_slots asked holds.range holds.default guard
    | adding slot asked content response named next counted default =>
      refine ⟨?_,.ceased _ _ rfl⟩
      rcases guard.2 rfl asked named with unasked | positive
      · exact numbered_write holds i (counted unasked).1 (counted unasked).2 guard.1 (.inr default)
      · obtain ⟨rfl,inRange⟩ := next positive
        exact numbered_write holds i positive inRange guard.1 (.inr default)
    | removing slot response other => exact ⟨numbered_remove holds i other,.ceased _ _ rfl⟩
    | ceased _ _ ended => cases ended

/-- What a stage knows of the slots is kept with the default one. -/
theorem stage_other {slots slots' : Slots} {listing : Bool} {action : PluginAction} (kept : 1 ∈ slots.keys → 1 ∈ slots'.keys)
    (stage : Stage query slots listing action) : Stage query slots' listing action := by
  cases stage with
  | reading slot => exact .reading slot
  | creating flag => exact .creating flag
  | writing slot body response known =>
    exact .writing slot body response (known.imp id fun ⟨positive,inRange,default⟩ => ⟨positive,inRange,kept default⟩)
  | listing slot asked => exact .listing slot asked
  | adding slot asked content response named next counted default =>
    exact .adding slot asked content response named next counted (kept default)
  | removing slot response other => exact .removing slot response other
  | ceased _ _ ended => exact .ceased _ _ ended

theorem stage_start (query : Query) (listing : Bool) : Stage query ∅ listing (notepadSlotAction true query listing) := by
  by_cases flag : flagOf query listing = ""
  · obtain ⟨response,refused,_⟩ := notepadSlotAction_refused (.inl flag)
    rw [refused]
    exact .ceased _ _ rfl
  cases named : slotOf query listing with
  | none =>
    obtain ⟨response,refused,_⟩ := notepadSlotAction_refused (.inr named)
    rw [refused]
    exact .ceased _ _ rfl
  | some slot =>
    cases listing with
    | false =>
      rw [notepadSlotAction_read flag named]
      exact .reading slot
    | true =>
      simp only [notepadSlotAction,Bool.not_true,Bool.false_eq_true,if_false,if_neg flag,named,if_true,
        notepadListAction_slots]
      exact .listing slot named

/-- What a run keeps, from slots that are already numbered. -/
theorem numbered_kept {s t : State ι} (reach : Transition.Reaches step (Checked queries list) s t)
    (initial : Assertions (Numbered present queries list) (fun i world => Stage (queries i) world.shared (list i)) s) :
    Assertions (Numbered present queries list) (fun i world => Stage (queries i) world.shared (list i)) t := by
  apply assertions_kept _ _ _ _ _ reach initial
  · intro s i request next fails holds checked outstanding
    exact stage_own checked holds.common outstanding (outstanding ▸ holds.stage i)
  · intro s i request next fails j holds checked outstanding _
    refine stage_other (fun there => ?_) (holds.stage j)
    have common : Numbered (1 ∈ s.shared.keys) queries list s.toWorld := { holds.common with kept := id }
    exact (stage_own checked common outstanding (outstanding ▸ holds.stage i)).1.kept there
  · exact fun _ event => event.elim

/-- Slots whose writes are checked again stay sound, and the default one is never removed. -/
theorem slots_sound (queries : ι → Query) (list : ι → Bool) {s : State ι}
    (reach : Transition.Reaches step (Checked queries list) (startActions ∅ queries list) s) :
    SlotsSound queries list s ∧
      ∀ t, Transition.Reaches step (Checked queries list) s t → 1 ∈ s.shared.keys → 1 ∈ t.shared.keys := by
  have initial : Assertions (Numbered False queries list) (fun i world => Stage (queries i) world.shared (list i))
      (startActions ∅ queries list) := by
    refine ⟨⟨nofun,nofun,Nat.zero_le _,fun some => absurd rfl some,nofun⟩,fun i => ?_⟩
    exact stage_start (queries i) (list i)
  have kept := numbered_kept reach initial
  refine ⟨⟨fun slot there => (kept.common.range slot there).1,kept.common.bounded,kept.common.counted⟩,?_⟩
  intro t later there
  have here : Numbered (1 ∈ s.shared.keys) queries list s.toWorld := { kept.common with kept := id }
  exact (numbered_kept later ⟨here,kept.stage⟩).common.kept there

end Stages

/-- The default slot is read, and a slot is added with the number that is asked for. -/
def readAndAdd (number : String) (second : Bool) : Query :=
  if second then [("f","add"),("id_notepad",number)] else [("f","read")]

/-- The next number is `2`. -/
theorem slots_sound_added : ∃ s : State Bool,
    Transition.exec step (startActions ∅ (readAndAdd "") id)
      [.call false false,.call false false,.call true false,.call true false] = some s ∧
    s.shared.keys = [2,1] ∧ SlotsSound (readAndAdd "") id s := by
  obtain ⟨s,ran⟩ : ∃ s, Transition.exec step (startActions ∅ (readAndAdd "") id)
      [.call false false,.call false false,.call true false,.call true false] = some s := ⟨_,rfl⟩
  have keys := congrArg (Option.map fun s => s.shared.keys) ran
  refine ⟨s,ran,(Option.some.inj keys).symm,
    (slots_sound (readAndAdd "") id (Transition.reaches_of_exec ran ?_)).1⟩
  refine ⟨?_,?_⟩
  · rintro _ _ ⟨⟩
    trivial
  rintro _ ⟨⟩
  refine ⟨?_,?_⟩
  · rintro _ _ ⟨⟩
    exact ⟨.inr (by decide),nofun⟩
  rintro _ ⟨⟩
  refine ⟨?_,?_⟩
  · rintro _ _ ⟨⟩
    intro _ _ _
    decide
  rintro _ ⟨⟩
  refine ⟨?_,fun _ _ => trivial⟩
  rintro _ _ ⟨⟩
  refine ⟨.inr (by decide),fun _ asked named => .inl ?_⟩
  exact (Option.some.inj named).symm

/-- Slot `0` is added. -/
theorem slot_zero_added : ∃ s : State Bool,
    Transition.exec step (startActions ∅ (readAndAdd "0") id)
      [.call false false,.call false false,.call true false,.call true false] = some s ∧
    s.shared.keys = [0,1] ∧ ¬SlotsSound (readAndAdd "0") id s := by
  refine ⟨_,rfl,rfl,fun sound => ?_⟩
  exact absurd (sound.positive 0 List.mem_cons_self) (by decide)

end Qdrust.Notepad
