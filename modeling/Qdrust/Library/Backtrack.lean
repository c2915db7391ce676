import Mathlib.Data.List.Basic

/-! Patterns that are matched from the start of a text, by backtracking. A repeated class is
tried with the fewest or with the most characters first, and captures what it takes. -/
namespace Qdrust.Library.Backtrack

inductive Item where
  | one (set : Char → Bool)
  | many (fewest : Bool) (set : Char → Bool)
  /-- The end of the text, or the place before a line feed that ends it. -/
  | stop

section Repeated

variable {β : Type} (set : Char → Bool) (next : List Char → List Char → Option β)

/-- `next` is tried on what was taken and what follows it. -/
def takeFewest (taken : List Char) : List Char → Option β
  | [] => next taken []
  | c :: rest => (next taken (c :: rest)).or (if set c then takeFewest (taken ++ [c]) rest else none)

def takeMost (taken : List Char) : List Char → Option β
  | [] => next taken []
  | c :: rest => (if set c then takeMost (taken ++ [c]) rest else none).or (next taken (c :: rest))

def repeated (fewest : Bool) (text : List Char) : Option β :=
  if fewest then takeFewest set next [] text else takeMost set next [] text

end Repeated

/-- The texts that are captured, where the items match. -/
def run : List Item → List Char → Option (List (List Char))
  | [], _ => some []
  | .one _ :: _, [] => none
  | .one set :: items, c :: rest => if set c then run items rest else none
  | .many fewest set :: items, text =>
    repeated set (fun taken rest => (run items rest).map (taken :: ·)) fewest text
  | .stop :: items, text => if text = [] ∨ text = ['\n'] then run items text else none

theorem run_nil (text : List Char) : run [] text = some [] := by
  cases text <;> rfl

theorem run_one (set : Char → Bool) (items : List Item) (c : Char) (rest : List Char) :
    run (.one set :: items) (c :: rest) = if set c then run items rest else none := rfl

theorem run_many (fewest : Bool) (set : Char → Bool) (items : List Item) (text : List Char) :
    run (.many fewest set :: items) text =
      repeated set (fun taken rest => (run items rest).map (taken :: ·)) fewest text := by
  cases text <;> rfl

theorem run_stop (items : List Item) (text : List Char) :
    run (.stop :: items) text = if text = [] ∨ text = ['\n'] then run items text else none := by
  cases text <;> rfl

section Repeated

variable {β : Type} {set : Char → Bool} {next : List Char → List Char → Option β} {r : β}

/-- A text that is cut behind characters of the class, with a result for the cut. -/
def Cut (set : Char → Bool) (next : List Char → List Char → Option β) (taken text : List Char) (r : β) : Prop :=
  ∃ front back, text = front ++ back ∧ (∀ c ∈ front, set c = true) ∧ next (taken ++ front) back = some r

theorem cut_here {taken text : List Char} (found : next taken text = some r) : Cut set next taken text r :=
  ⟨[],text,rfl,List.forall_mem_nil _,by rw [List.append_nil]; exact found⟩

theorem cut_cons {c : Char} {taken text : List Char} (inside : set c = true) (later : Cut set next (taken ++ [c]) text r) :
    Cut set next taken (c :: text) r := by
  obtain ⟨front,back,rfl,all,found⟩ := later
  rw [List.append_assoc] at found
  exact ⟨c :: front,back,rfl,List.forall_mem_cons.mpr ⟨inside,all⟩,found⟩

theorem cut_nil {taken : List Char} : Cut set next taken [] r ↔ next taken [] = some r := by
  refine ⟨?_,cut_here⟩
  rintro ⟨front,back,empty,_,found⟩
  obtain ⟨rfl,rfl⟩ := List.append_eq_nil_iff.mp empty.symm
  rwa [List.append_nil] at found

theorem cut_cases {c : Char} {taken text : List Char} (cut : Cut set next taken (c :: text) r) :
    next taken (c :: text) = some r ∨ set c = true ∧ Cut set next (taken ++ [c]) text r := by
  obtain ⟨front,back,same,all,found⟩ := cut
  cases front with
  | nil =>
    rw [List.append_nil,← List.nil_append back,← same] at found
    exact .inl found
  | cons first front =>
    obtain ⟨rfl,rfl⟩ := List.cons.inj same
    rw [List.forall_mem_cons] at all
    exact .inr ⟨all.1,front,back,rfl,all.2,by rw [List.append_assoc]; exact found⟩

theorem takeFewest_sound {taken text : List Char} (found : takeFewest set next taken text = some r) :
    Cut set next taken text r := by
  induction text generalizing taken with
  | nil => exact cut_nil.mpr found
  | cons c text ih =>
    rw [takeFewest,Option.or_eq_some_iff] at found
    rcases found with here | ⟨_,later⟩
    · exact cut_here here
    · split at later
      · next inside => exact cut_cons inside (ih later)
      · cases later

theorem takeMost_sound {taken text : List Char} (found : takeMost set next taken text = some r) :
    Cut set next taken text r := by
  induction text generalizing taken with
  | nil => exact cut_nil.mpr found
  | cons c text ih =>
    rw [takeMost,Option.or_eq_some_iff] at found
    rcases found with later | ⟨_,here⟩
    · split at later
      · next inside => exact cut_cons inside (ih later)
      · cases later
    · exact cut_here here

theorem takeFewest_complete {taken text : List Char} (cut : Cut set next taken text r) :
    (takeFewest set next taken text).isSome := by
  induction text generalizing taken with
  | nil => rw [takeFewest,cut_nil.mp cut]; rfl
  | cons c text ih =>
    rw [takeFewest,Option.isSome_or]
    rcases cut_cases cut with here | ⟨inside,later⟩
    · rw [here]; rfl
    · rw [if_pos inside,ih later,Bool.or_true]

theorem takeMost_complete {taken text : List Char} (cut : Cut set next taken text r) :
    (takeMost set next taken text).isSome := by
  induction text generalizing taken with
  | nil => rw [takeMost,cut_nil.mp cut]; rfl
  | cons c text ih =>
    rw [takeMost,Option.isSome_or]
    rcases cut_cases cut with here | ⟨inside,later⟩
    · rw [here]; exact Bool.or_true _
    · rw [if_pos inside,ih later,Bool.true_or]

/-- Where all cuts give one result, the order in which they are tried does not matter. -/
theorem repeated_iff (fewest : Bool) {text : List Char} (unique : ∀ r r', Cut set next [] text r → Cut set next [] text r' → r = r') :
    repeated set next fewest text = some r ↔ Cut set next [] text r := by
  have sound {found : β} (some : repeated set next fewest text = .some found) : Cut set next [] text found := by
    cases fewest with
    | true => exact takeFewest_sound some
    | false => exact takeMost_sound some
  refine ⟨sound,fun cut => ?_⟩
  have complete : (repeated set next fewest text).isSome := by
    cases fewest with
    | true => exact takeFewest_complete cut
    | false => exact takeMost_complete cut
  obtain ⟨found,some⟩ := Option.isSome_iff_exists.mp complete
  rw [some,unique _ _ (sound some) cut]

end Repeated
end Qdrust.Library.Backtrack
