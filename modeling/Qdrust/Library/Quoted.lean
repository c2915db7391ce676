import Mathlib.Data.List.Basic

/-! Scanning a text with quoted strings in it, backslash escapes honoured. The
state is the kind of the open quote, with a flag for a pending escape. -/
namespace Qdrust.Library

inductive Quote where
  | outside
  | inside (double escaped : Bool)
  deriving DecidableEq

namespace Quote

/-- The kind of quote a character is. -/
def kind (c : Char) : Option Bool := if c = '\x27' then some false else if c = '\x22' then some true else none

/-- The state after one more character. -/
def step : Quote → Char → Quote
  | outside,c => ((kind c).map fun double => inside double false).getD outside
  | inside double true,_ => inside double false
  | inside double false,c =>
    if c = '\\' then inside double true else if kind c = some double then outside else inside double false

def run (state : Quote) (text : List Char) : Quote := text.foldl step state

/-- What stands before and after the first delimiter outside of strings. -/
def find (first second : Char) : Quote → List Char → Option (List Char × List Char)
  | _,[] => none
  | state,c :: rest =>
    if state = outside ∧ c = first ∧ rest.head? = some second then some ([],rest.tail)
    else (find first second (step state c) rest).map fun sides => (c :: sides.1,sides.2)

/-- The number of characters until the open string is closed. -/
def stringEnd : Quote → List Char → Option Nat
  | _,[] => none
  | state,c :: rest =>
    if step state c = outside then some 1 else (stringEnd (step state c) rest).map (· + 1)

/-- The number of characters until the group is closed, `depth` brackets being open. -/
def groupEnd (opening closing : Char) : Nat → Quote → List Char → Option Nat
  | _,_,[] => none
  | depth,state,c :: rest =>
    if state = outside ∧ c = opening then (groupEnd opening closing (depth + 1) outside rest).map (· + 1)
    else if state = outside ∧ c = closing then
      if depth - 1 = 0 then some 1 else (groupEnd opening closing (depth - 1) outside rest).map (· + 1)
    else (groupEnd opening closing depth (step state c) rest).map (· + 1)

attribute [local simp] find stringEnd groupEnd

/-- Neither a quote nor a backslash. -/
def Inert (c : Char) : Prop := kind c = none ∧ c ≠ '\\'

instance (c : Char) : Decidable (Inert c) := instDecidableAnd

/-- The state with the pending escape used up. -/
def settle : Quote → Quote
  | outside => outside
  | inside double _ => inside double false

section Runs

@[simp] theorem run_nil (state : Quote) : run state [] = state := rfl

@[simp] theorem run_cons (state : Quote) (c : Char) (text : List Char) :
    run state (c :: text) = run (step state c) text := rfl

theorem run_append (state : Quote) (left right : List Char) :
    run state (left ++ right) = run (run state left) right := List.foldl_append

theorem step_inert {c : Char} (inert : Inert c) (state : Quote) : step state c = settle state := by
  cases state with
  | outside => simp [step,settle,inert.1]
  | inside double escaped =>
    cases escaped with
    | true => rfl
    | false => simp [step,settle,inert.1,inert.2]

theorem settle_settle (state : Quote) : settle (settle state) = settle state := by
  cases state <;> rfl

theorem run_settled {text : List Char} (inert : ∀ c ∈ text, Inert c) (state : Quote) :
    run (settle state) text = settle state := by
  induction text with
  | nil => rfl
  | cons c text ih =>
    rw [List.forall_mem_cons] at inert
    rw [run_cons,step_inert inert.1,settle_settle]
    exact ih inert.2

/-- A run over inert characters only uses up an escape. -/
theorem run_inert {text : List Char} (some : text ≠ []) (inert : ∀ c ∈ text, Inert c) (state : Quote) :
    run state text = settle state := by
  cases text with
  | nil => exact absurd rfl some
  | cons c text =>
    rw [List.forall_mem_cons] at inert
    rw [run_cons,step_inert inert.1,run_settled inert.2]

/-- What stands between inert texts decides alone. -/
theorem run_between {front back : List Char} (someFront : front ≠ []) (someBack : back ≠ [])
    (inertFront : ∀ c ∈ front, Inert c) (inertBack : ∀ c ∈ back, Inert c) (state : Quote) (text : List Char) :
    run state (front ++ (text ++ back)) = settle (run (settle state) text) := by
  rw [run_append,run_append,run_inert someFront inertFront,run_inert someBack inertBack]

end Runs

section Find

variable {first second : Char}

theorem find_cons_ne {state : Quote} {c : Char} {rest : List Char}
    (other : ¬(state = outside ∧ c = first ∧ rest.head? = some second)) :
    find first second state (c :: rest) =
      (find first second (step state c) rest).map fun sides => (c :: sides.1,sides.2) := by
  rw [find,if_neg other]

/-- The sides of a delimiter make up the text. -/
theorem find_sides {text before after : List Char} {state : Quote}
    (found : find first second state text = some (before,after)) :
    text = before ++ first :: second :: after := by
  induction text generalizing state before with
  | nil => cases found
  | cons c rest ih =>
    rw [find] at found
    split at found
    · rename_i here
      cases found
      obtain ⟨_,rfl,next⟩ := here
      cases rest with
      | nil => cases next
      | cons d rest =>
        cases next
        rfl
    · obtain ⟨⟨inner,outer⟩,deeper,same⟩ := Option.map_eq_some_iff.mp found
      cases same
      rw [ih deeper]
      rfl

/-- What follows the delimiter does not matter. -/
theorem find_local {text before after : List Char} {state : Quote}
    (found : find first second state text = some (before,after)) (other : List Char) :
    find first second state (before ++ first :: second :: other) = some (before,other) := by
  induction text generalizing state before with
  | nil => cases found
  | cons c rest ih =>
    rw [find] at found
    split at found
    · rename_i here
      cases found
      rw [List.nil_append,find,if_pos ⟨here.1,rfl,rfl⟩]
      rfl
    · rename_i other
      obtain ⟨⟨inner,outer⟩,deeper,same⟩ := Option.map_eq_some_iff.mp found
      cases same
      have again := ih deeper
      rw [List.cons_append,find_cons_ne,again]
      · rfl
      · intro here
        apply other
        refine ⟨here.1,here.2.1,?_⟩
        rw [find_sides deeper]
        rw [← here.2.2]
        cases inner <;> rfl

/-- A text without the second character of the delimiter is passed over. -/
theorem find_append {left right : List Char} (state : Quote) (free : second ∉ left)
    (ahead : right.head? ≠ some second) :
    find first second state (left ++ right) =
      (find first second (run state left) right).map fun sides => (left ++ sides.1,sides.2) := by
  induction left generalizing state with
  | nil => simp
  | cons c left ih =>
    rw [List.mem_cons,not_or] at free
    have next : (left ++ right).head? ≠ some second := by
      cases left with
      | nil => exact ahead
      | cons d left =>
        intro same
        cases same
        exact free.2 List.mem_cons_self
    rw [List.cons_append,find_cons_ne fun here => next here.2.2,ih _ free.2,Option.map_map]
    rfl

/-- The delimiter behind a text without one, whose strings are closed. -/
theorem find_closed (apart : first ≠ second) {text : List Char} :
    ∀ state : Quote, ¬[first,second] <:+: text → run state text = outside → ∀ rest : List Char,
      find first second state (text ++ first :: second :: rest) = some (text,rest) := by
  induction text with
  | nil =>
    intro state _ closed rest
    rw [List.nil_append,find,if_pos ⟨closed,rfl,rfl⟩]
    rfl
  | cons c text ih =>
    intro state free closed rest
    have other : ¬(state = outside ∧ c = first ∧ (text ++ first :: second :: rest).head? = some second) := by
      rintro ⟨_,rfl,next⟩
      cases text with
      | nil => exact apart (Option.some.inj next)
      | cons d text =>
        cases next
        exact free ⟨[],text,rfl⟩
    have deeper := ih (step state c) (fun inner => free (inner.trans (List.suffix_cons c text).isInfix)) closed rest
    rw [List.cons_append,find_cons_ne other,deeper]
    rfl

end Find

section Ends

variable {opening closing : Char}

theorem step_inside (double escaped : Bool) (c : Char) :
    step (inside double escaped) c = outside ∨ ∃ more, step (inside double escaped) c = inside double more := by
  cases escaped with
  | true => exact .inr ⟨false,rfl⟩
  | false =>
    rw [step]
    split
    · exact .inr ⟨true,rfl⟩
    · split
      · exact .inl rfl
      · exact .inr ⟨false,rfl⟩

theorem stringEnd_pos {state : Quote} {text : List Char} {n : Nat} (ends : stringEnd state text = some n) : 0 < n := by
  cases text with
  | nil => cases ends
  | cons c text =>
    rw [stringEnd] at ends
    split at ends
    · cases ends
      exact Nat.one_pos
    · obtain ⟨m,_,rfl⟩ := Option.map_eq_some_iff.mp ends
      exact Nat.succ_pos m

theorem groupEnd_pos {depth : Nat} {state : Quote} {text : List Char} {n : Nat}
    (ends : groupEnd opening closing depth state text = some n) : 0 < n := by
  cases text with
  | nil => cases ends
  | cons c text =>
    rw [groupEnd] at ends
    have later {deeper : Option Nat} (ends : deeper.map (· + 1) = some n) : 0 < n := by
      obtain ⟨m,_,rfl⟩ := Option.map_eq_some_iff.mp ends
      exact Nat.succ_pos m
    split at ends
    · exact later ends
    · split at ends
      · split at ends
        · cases ends
          exact Nat.one_pos
        · exact later ends
      · exact later ends

/-- A group ends with its closing bracket. -/
theorem groupEnd_closes {depth : Nat} {state : Quote} {text : List Char} {n : Nat}
    (ends : groupEnd opening closing depth state text = some n) :
    ∃ inner back, text = inner ++ closing :: back ∧ n = inner.length + 1 := by
  induction text generalizing depth state n with
  | nil => cases ends
  | cons c text ih =>
    rw [groupEnd] at ends
    have later {deeper : Nat} {next : Quote} (ends : (groupEnd opening closing deeper next text).map (· + 1) = some n) :
        ∃ inner back, c :: text = inner ++ closing :: back ∧ n = inner.length + 1 := by
      obtain ⟨m,deeper,rfl⟩ := Option.map_eq_some_iff.mp ends
      obtain ⟨inner,back,rfl,rfl⟩ := ih deeper
      exact ⟨c :: inner,back,rfl,rfl⟩
    split at ends
    · exact later ends
    · split at ends
      · rename_i here
        split at ends
        · cases ends
          exact ⟨[],text,by rw [here.2]; rfl,rfl⟩
        · exact later ends
      · exact later ends

/-- A group goes on behind an open string. -/
theorem groupEnd_inside (depth : Nat) (double : Bool) (text : List Char) (escaped : Bool) :
    groupEnd opening closing depth (inside double escaped) text =
      (stringEnd (inside double escaped) text).bind fun n => (groupEnd opening closing depth outside (text.drop n)).map (· + n) := by
  induction text generalizing escaped with
  | nil => rfl
  | cons c text ih =>
    have strung : ¬ inside double escaped = outside := Quote.noConfusion
    rw [groupEnd,if_neg fun here => strung here.1,if_neg fun here => strung here.1,stringEnd]
    obtain closed | ⟨more,next⟩ := step_inside double escaped c
    · rw [closed,if_pos rfl]
      rfl
    · rw [next,if_neg Quote.noConfusion,ih]
      cases stringEnd (inside double more) text with
      | none => rfl
      | some n => exact Option.map_map _ _ _

/-- A group goes on behind a string. -/
theorem groupEnd_string {c : Char} (quote : (kind c).isSome) (apart : c ≠ opening) (other : c ≠ closing) (depth : Nat)
    (text : List Char) : groupEnd opening closing depth outside (c :: text) =
      (stringEnd outside (c :: text)).bind fun n => (groupEnd opening closing depth outside ((c :: text).drop n)).map (· + n) := by
  obtain ⟨double,is⟩ := Option.isSome_iff_exists.mp quote
  have opened : step outside c = inside double false := by
    rw [step,is]
    rfl
  rw [groupEnd,if_neg fun here => apart here.2,if_neg fun here => other here.2,stringEnd,opened,if_neg Quote.noConfusion,groupEnd_inside]
  cases stringEnd (inside double false) text with
  | none => rfl
  | some n => exact Option.map_map _ _ _

end Ends

end Quote
end Qdrust.Library
