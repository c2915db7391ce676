import Qdrust.Library.Quoted
import Mathlib.Tactic.Common

/-! Texts with brackets and strings in them: strings that are closed, groups that
nest, and what is seen of a text that is read with a look ahead. -/
namespace Qdrust.Library

namespace Quote

/-- A text that closes the open string with its last character. -/
inductive Closing : Quote → List Char → Prop
  | last {state : Quote} {c : Char} : step state c = outside → Closing state [c]
  | more {state : Quote} {c : Char} {rest : List Char} : step state c ≠ outside → Closing (step state c) rest →
      Closing state (c :: rest)

theorem stringEnd_closing {text : List Char} {size : Nat} {state : Quote} (found : stringEnd state text = some size) :
    ∃ front back, text = front ++ back ∧ size = front.length ∧ Closing state front := by
  induction text generalizing state size with
  | nil => cases found
  | cons c rest ih =>
    rw [stringEnd] at found
    split at found
    · rename_i here
      cases found
      exact ⟨[c],rest,rfl,rfl,.last here⟩
    · rename_i further
      obtain ⟨inner,deeper,rfl⟩ := Option.map_eq_some_iff.mp found
      obtain ⟨front,back,rfl,rfl,closing⟩ := ih deeper
      exact ⟨c :: front,back,rfl,rfl,.more further closing⟩

theorem Closing.stringEnd {state : Quote} {front : List Char} (closing : Closing state front) (back : List Char) :
    stringEnd state (front ++ back) = some front.length := by
  induction closing with
  | last here => rw [List.singleton_append,Quote.stringEnd,if_pos here]; rfl
  | more further _ ih => rw [List.cons_append,Quote.stringEnd,if_neg further,ih]; rfl

theorem Closing.run {state : Quote} {front : List Char} (closing : Closing state front) :
    Quote.run state front = outside := by
  induction closing with
  | last here => exact here
  | more _ _ ih => exact ih

/-- A string with its quotes. -/
def Literal (text : List Char) : Prop := ∃ c body, text = c :: body ∧ (kind c).isSome ∧ Closing (step outside c) body

theorem step_opening {c : Char} (quote : (kind c).isSome) : step outside c ≠ outside := by
  obtain ⟨double,same⟩ := Option.isSome_iff_exists.mp quote
  rw [step,same]
  intro outside
  cases outside

theorem Literal.closing {text : List Char} (literal : Literal text) : Closing outside text := by
  obtain ⟨c,body,rfl,quote,closing⟩ := literal
  exact .more (step_opening quote) closing

theorem literal_of_stringEnd {c : Char} {rest : List Char} {size : Nat} (quote : (kind c).isSome)
    (found : stringEnd outside (c :: rest) = some size) :
    ∃ literal after, c :: rest = literal ++ after ∧ size = literal.length ∧ Literal literal := by
  obtain ⟨front,back,same,length,closing⟩ := stringEnd_closing found
  refine ⟨front,back,same,length,?_⟩
  cases closing with
  | last here =>
    cases same
    exact absurd here (step_opening quote)
  | more _ closing =>
    cases same
    exact ⟨_,_,rfl,quote,closing⟩

end Quote

/-- The brackets that are still to come, the next one first, and the open quote. -/
structure Nesting where
  closers : List Char
  quote : Quote

namespace Nesting

def closer (c : Char) : Option Char :=
  if c = '(' then some ')' else if c = '[' then some ']' else if c = '{' then some '}' else none

def isCloser (c : Char) : Bool := c = ')' || c = ']' || c = '}'

def step (state : Nesting) (c : Char) : Option Nesting :=
  if state.quote ≠ .outside then some ⟨state.closers,state.quote.step c⟩
  else match closer c with
    | some closing => some ⟨closing :: state.closers,.outside⟩
    | none =>
      if isCloser c then
        if state.closers.head? = some c then some ⟨state.closers.tail,.outside⟩ else none
      else some ⟨state.closers,Quote.step .outside c⟩

def run (state : Nesting) : List Char → Option Nesting
  | [] => some state
  | c :: rest => (step state c).bind fun next => run next rest

attribute [local simp] step run

/-- Every bracket and every string of the text is closed. -/
def Nested (text : List Char) : Prop := run ⟨[],.outside⟩ text = some ⟨[],.outside⟩

/-- Neither a quote nor a bracket. -/
def Flat (c : Char) : Prop := Quote.kind c = none ∧ closer c = none ∧ isCloser c = false

instance (c : Char) : Decidable (Flat c) := instDecidableAnd

@[simp] theorem run_nil (state : Nesting) : run state [] = some state := rfl

@[simp] theorem run_cons (state : Nesting) (c : Char) (rest : List Char) :
    run state (c :: rest) = (step state c).bind fun next => run next rest := rfl

theorem run_append (state : Nesting) (front back : List Char) :
    run state (front ++ back) = (run state front).bind fun next => run next back := by
  induction front generalizing state with
  | nil => rfl
  | cons c front ih =>
    rw [List.cons_append,run_cons,run_cons,Option.bind_assoc]
    exact Option.bind_congr fun next _ => ih next

theorem step_inside {quote : Quote} (inside : quote ≠ .outside) (closers : List Char) (c : Char) :
    step ⟨closers,quote⟩ c = some ⟨closers,quote.step c⟩ := if_pos inside

theorem step_flat {c : Char} (flat : Flat c) (closers : List Char) :
    step ⟨closers,.outside⟩ c = some ⟨closers,.outside⟩ := by
  obtain ⟨quote,opening,closing⟩ := flat
  simp [step,opening,closing,Quote.step,quote]

theorem run_flat {text : List Char} (flat : ∀ c ∈ text, Flat c) (closers : List Char) :
    run ⟨closers,.outside⟩ text = some ⟨closers,.outside⟩ := by
  induction text with
  | nil => rfl
  | cons c text ih =>
    rw [List.forall_mem_cons] at flat
    rw [run_cons,step_flat flat.1,Option.bind_some,ih flat.2]

theorem step_quote {c : Char} (quote : (Quote.kind c).isSome) (closers : List Char) :
    step ⟨closers,.outside⟩ c = some ⟨closers,Quote.step .outside c⟩ := by
  have single : c = '\x27' ∨ c = '\x22' := by
    unfold Quote.kind at quote
    split at quote
    · exact Or.inl ‹_›
    · split at quote
      · exact Or.inr ‹_›
      · cases quote
  rcases single with rfl | rfl <;> rfl

theorem run_closing {quote : Quote} {text : List Char} (closing : Quote.Closing quote text) (inside : quote ≠ .outside)
    (closers : List Char) : run ⟨closers,quote⟩ text = some ⟨closers,.outside⟩ := by
  induction closing with
  | last here => rw [run_cons,step_inside inside,here]; rfl
  | more further _ ih => rw [run_cons,step_inside inside,Option.bind_some,ih further]

theorem run_literal {literal : List Char} (string : Quote.Literal literal) (closers : List Char) :
    run ⟨closers,.outside⟩ literal = some ⟨closers,.outside⟩ := by
  obtain ⟨c,body,rfl,quote,closing⟩ := string
  rw [run_cons,step_quote quote,Option.bind_some,run_closing closing (Quote.step_opening quote)]

theorem step_opener {opening closing : Char} (pair : closer opening = some closing) (closers : List Char) :
    step ⟨closers,.outside⟩ opening = some ⟨closing :: closers,.outside⟩ := by
  simp [step,pair]

theorem closer_pair {opening closing : Char} (pair : closer opening = some closing) :
    (opening = '(' ∧ closing = ')') ∨ (opening = '[' ∧ closing = ']') ∨ (opening = '{' ∧ closing = '}') := by
  unfold closer at pair
  split at pair
  · exact Or.inl ⟨‹_›,(Option.some.inj pair).symm⟩
  split at pair
  · exact Or.inr (Or.inl ⟨‹_›,(Option.some.inj pair).symm⟩)
  split at pair
  · exact Or.inr (Or.inr ⟨‹_›,(Option.some.inj pair).symm⟩)
  · cases pair

theorem isCloser_pair {opening closing : Char} (pair : closer opening = some closing) :
    isCloser closing = true ∧ closer closing = none := by
  rcases closer_pair pair with ⟨-,rfl⟩ | ⟨-,rfl⟩ | ⟨-,rfl⟩ <;> exact ⟨rfl,rfl⟩

theorem step_closer {opening closing : Char} (pair : closer opening = some closing) (closers : List Char) :
    step ⟨closing :: closers,.outside⟩ closing = some ⟨closers,.outside⟩ := by
  obtain ⟨closes,other⟩ := isCloser_pair pair
  simp [step,closes,other]

/-- More brackets that are open outside do not matter. -/
theorem run_frame (more : List Char) {text : List Char} {state last : Nesting} (ran : run state text = some last) :
    run ⟨state.closers ++ more,state.quote⟩ text = some ⟨last.closers ++ more,last.quote⟩ := by
  induction text generalizing state with
  | nil => cases ran; rfl
  | cons c text ih =>
    rw [run_cons] at ran
    obtain ⟨next,stepped,ran⟩ := Option.bind_eq_some_iff.mp ran
    have framed : step ⟨state.closers ++ more,state.quote⟩ c = some ⟨next.closers ++ more,next.quote⟩ := by
      unfold step at stepped ⊢
      split at stepped
      · rename_i inside
        cases stepped
        rw [if_pos inside]
      · rename_i outside
        rw [if_neg outside]
        split at stepped
        · cases stepped
          rfl
        · split at stepped
          · rename_i closes
            rw [if_pos closes]
            split at stepped
            · rename_i top
              cases stepped
              cases same : state.closers with
              | nil => rw [same] at top; cases top
              | cons first closers =>
                rw [same,List.head?_cons] at top
                rw [List.cons_append,List.head?_cons,if_pos top]
                rfl
            · cases stepped
          · rename_i closes
            cases stepped
            rw [if_neg closes]
    rw [run_cons,framed,Option.bind_some,ih ran]

theorem Nested.run {text : List Char} (nested : Nested text) (closers : List Char) :
    Nesting.run ⟨closers,.outside⟩ text = some ⟨closers,.outside⟩ := run_frame closers nested

theorem run_quote {text : List Char} {state last : Nesting} (ran : run state text = some last) :
    last.quote = Quote.run state.quote text := by
  induction text generalizing state with
  | nil => cases ran; rfl
  | cons c text ih =>
    rw [run_cons] at ran
    obtain ⟨next,stepped,ran⟩ := Option.bind_eq_some_iff.mp ran
    rw [ih ran,Quote.run_cons]
    congr 1
    unfold step at stepped
    split at stepped
    · cases stepped
      rfl
    · rename_i outside
      rw [not_not] at outside
      rw [outside]
      split at stepped
      · rename_i pair
        cases stepped
        rcases closer_pair pair with ⟨rfl,-⟩ | ⟨rfl,-⟩ | ⟨rfl,-⟩ <;> rfl
      · split at stepped
        · rename_i closes
          split at stepped
          · cases stepped
            simp only [isCloser,Bool.or_eq_true,decide_eq_true_eq] at closes
            rcases closes with (rfl | rfl) | rfl <;> rfl
          · cases stepped
        · cases stepped
          rfl

theorem Nested.quote {text : List Char} (nested : Nested text) : Quote.run .outside text = .outside :=
  (run_quote nested).symm

theorem closer_kind {opening closing : Char} (pair : closer opening = some closing) :
    Quote.kind opening = none ∧ Quote.kind closing = none := by
  rcases closer_pair pair with ⟨rfl,rfl⟩ | ⟨rfl,rfl⟩ | ⟨rfl,rfl⟩ <;> exact ⟨rfl,rfl⟩

theorem closer_injective {opening other closing : Char} (pair : closer opening = some closing)
    (same : closer other = some closing) : other = opening := by
  rcases closer_pair pair with ⟨rfl,rfl⟩ | ⟨rfl,rfl⟩ | ⟨rfl,rfl⟩ <;>
    rcases closer_pair same with ⟨rfl,again⟩ | ⟨rfl,again⟩ | ⟨rfl,again⟩ <;>
      first | rfl | exact absurd again (by decide)

/-- The end of a group is found by counting brackets of its own kind only. -/
theorem group_end {opening closing : Char} (pair : closer opening = some closing) {text : List Char} :
    ∀ (inner : List Char) {closers : List Char} {quote : Quote},
      run ⟨inner ++ closing :: closers,quote⟩ text = some ⟨[],.outside⟩ →
      ∃ inside after, text = inside ++ closing :: after ∧
        Quote.groupEnd opening closing (inner.count closing + 1) quote text = some (inside.length + 1) ∧
        run ⟨inner,quote⟩ inside = some ⟨[],.outside⟩ ∧ run ⟨closers,.outside⟩ after = some ⟨[],.outside⟩ := by
  have apart : closing ≠ opening := by
    rintro rfl
    rw [(isCloser_pair pair).2] at pair
    cases pair
  induction text with
  | nil =>
    intro inner closers quote ran
    have empty := congrArg Nesting.closers (Option.some.inj ran)
    exact absurd empty (List.append_ne_nil_of_right_ne_nil _ (List.cons_ne_nil _ _))
  | cons c rest ih =>
    intro inner closers quote whole
    obtain ⟨next,stepped,ran⟩ := Option.bind_eq_some_iff.mp whole
    -- a character that neither opens nor closes a group of this kind
    have passed : ∀ inner' : List Char, next = ⟨inner' ++ closing :: closers,quote.step c⟩ →
        ¬(quote = .outside ∧ c = opening) → ¬(quote = .outside ∧ c = closing) →
        step ⟨inner,quote⟩ c = some ⟨inner',quote.step c⟩ → inner'.count closing = inner.count closing →
        ∃ inside after, c :: rest = inside ++ closing :: after ∧
          Quote.groupEnd opening closing (inner.count closing + 1) quote (c :: rest) = some (inside.length + 1) ∧
          run ⟨inner,quote⟩ inside = some ⟨[],.outside⟩ ∧ run ⟨closers,.outside⟩ after = some ⟨[],.outside⟩ := by
      rintro inner' rfl opens closes same count
      obtain ⟨inside,after,rfl,found,within,behind⟩ := ih inner' ran
      refine ⟨c :: inside,after,rfl,?_,?_,behind⟩
      · rw [Quote.groupEnd,if_neg opens,if_neg closes,← count,found]
        rfl
      · rw [run_cons,same,Option.bind_some,within]
    by_cases outside : quote = .outside
    · subst outside
      cases opened : closer c with
      | some d =>
        rw [step_opener opened] at stepped
        cases stepped
        by_cases own : c = opening
        · subst own
          cases pair.symm.trans opened
          obtain ⟨inside,after,rfl,found,within,behind⟩ := ih (closing :: inner) ran
          refine ⟨c :: inside,after,rfl,?_,?_,behind⟩
          · rw [Quote.groupEnd,if_pos ⟨rfl,rfl⟩]
            rw [List.count_cons_self] at found
            rw [found]
            rfl
          · rw [run_cons,step_opener opened,Option.bind_some,within]
        · have quiet : Quote.step .outside c = .outside := by simp [Quote.step,(closer_kind opened).1]
          refine passed (d :: inner) (by rw [quiet]; rfl) (fun both => own both.2) ?_ ?_ ?_
          · rintro ⟨-,rfl⟩
            rw [(isCloser_pair pair).2] at opened
            cases opened
          · rw [quiet]
            exact step_opener opened inner
          · apply List.count_cons_of_ne
            rintro rfl
            exact own (closer_injective pair opened)
      | none =>
        have opens : ¬(Quote.outside = .outside ∧ c = opening) := by
          rintro ⟨-,rfl⟩
          rw [pair] at opened
          cases opened
        simp only [step,ne_eq,not_true_eq_false,if_false,opened] at stepped
        by_cases closes : isCloser c = true
        · rw [if_pos closes] at stepped
          split at stepped
          · rename_i top
            cases stepped
            cases inner with
            | nil =>
              cases top
              refine ⟨[],rest,rfl,?_,rfl,ran⟩
              rw [Quote.groupEnd,if_neg opens,if_pos ⟨rfl,rfl⟩]
              rfl
            | cons d inner =>
              cases top
              by_cases own : c = closing
              · subst own
                obtain ⟨inside,after,rfl,found,within,behind⟩ := ih inner ran
                refine ⟨c :: inside,after,rfl,?_,?_,behind⟩
                · rw [Quote.groupEnd,if_neg opens,if_pos ⟨rfl,rfl⟩,List.count_cons_self,
                    if_neg (by omega : ¬inner.count c + 1 + 1 - 1 = 0),Nat.add_sub_cancel,found]
                  rfl
                · rw [run_cons,step_closer pair,Option.bind_some,within]
              · have quiet : Quote.step .outside c = .outside := by
                  simp only [isCloser,Bool.or_eq_true,decide_eq_true_eq] at closes
                  rcases closes with (rfl | rfl) | rfl <;> rfl
                refine passed inner (by rw [quiet]; rfl) opens (fun both => own both.2) ?_ ?_
                · rw [quiet]
                  simp [step,opened,closes]
                · exact (List.count_cons_of_ne own).symm
          · cases stepped
        · rw [if_neg closes] at stepped
          cases stepped
          refine passed inner rfl opens ?_ ?_ rfl
          · rintro ⟨-,rfl⟩
            exact closes (isCloser_pair pair).1
          · simp [step,opened,closes]
    · rw [step_inside outside] at stepped
      cases stepped
      exact passed inner rfl (fun both => outside both.1) (fun both => outside both.1) (step_inside outside _ _) rfl

/-- A group that begins a text in which everything is closed. -/
theorem group_split {opening closing : Char} (pair : closer opening = some closing) {rest closers : List Char}
    (ran : run ⟨closers,.outside⟩ (opening :: rest) = some ⟨[],.outside⟩) :
    ∃ inside after, rest = inside ++ closing :: after ∧
      Quote.groupEnd opening closing 0 .outside (opening :: rest) = some (inside.length + 2) ∧
      Nested inside ∧ run ⟨closers,.outside⟩ after = some ⟨[],.outside⟩ := by
  rw [run_cons,step_opener pair,Option.bind_some] at ran
  obtain ⟨inside,after,rfl,found,within,behind⟩ := group_end pair [] ran
  refine ⟨inside,after,rfl,?_,within,behind⟩
  rw [List.count_nil] at found
  rw [Quote.groupEnd,if_pos ⟨rfl,rfl⟩,found]
  rfl

theorem run_behind {closers front back : List Char} {last : Nesting} (nested : Nested front)
    (ran : run ⟨closers,.outside⟩ (front ++ back) = some last) : run ⟨closers,.outside⟩ back = some last := by
  rwa [run_append,nested.run,Option.bind_some] at ran

theorem Nested.append {front back : List Char} (nested : Nested front) (behind : Nested back) : Nested (front ++ back) := by
  rw [Nested,run_append,nested.run]
  exact behind

theorem nested_flat {text : List Char} (flat : ∀ c ∈ text, Flat c) : Nested text := run_flat flat []

theorem nested_literal {literal : List Char} (string : Quote.Literal literal) : Nested literal := run_literal string []

theorem Nested.group {opening closing : Char} (pair : closer opening = some closing) {inside : List Char}
    (nested : Nested inside) : Nested (opening :: (inside ++ [closing])) := by
  rw [Nested,run_cons,step_opener pair,Option.bind_some,run_append,nested.run,Option.bind_some,run_cons,step_closer pair]
  rfl

/-- No group is closed that is not open. -/
theorem not_closer {c : Char} {rest : List Char} (nested : Nested (c :: rest)) : isCloser c = false := by
  cases closes : isCloser c with
  | false => rfl
  | true =>
    simp only [isCloser,Bool.or_eq_true,decide_eq_true_eq] at closes
    rcases closes with (rfl | rfl) | rfl <;> cases nested

end Nesting

namespace Quote

/-- The strings of a text with their quotes, `current` being what is read of the open one. -/
def strings : Quote → List Char → List Char → List (List Char)
  | _,_,[] => []
  | state,current,c :: rest =>
    if step state c ≠ outside then strings (step state c) (current ++ [c]) rest
    else if state = outside then strings outside [] rest
    else (current ++ [c]) :: strings outside [] rest

attribute [local simp] strings

theorem strings_append {front : List Char} (back : List Char) : ∀ {state : Quote} {current : List Char},
    run state front = outside → (state = outside → current = []) →
    strings state current (front ++ back) = strings state current front ++ strings outside [] back := by
  induction front with
  | nil =>
    intro state current closed fresh
    cases closed
    rw [fresh rfl]
    rfl
  | cons c front ih =>
    intro state current closed fresh
    rw [run_cons] at closed
    rw [List.cons_append,strings,strings]
    by_cases further : step state c = outside
    · rw [further] at closed
      have rest : strings outside [] (front ++ back) = strings outside [] front ++ strings outside [] back :=
        ih closed fun _ => rfl
      rw [if_neg (not_not.mpr further),if_neg (not_not.mpr further)]
      split
      · exact rest
      · rw [rest,List.cons_append]
    · rw [if_pos further,if_pos further]
      exact ih closed fun outside => absurd outside further

theorem strings_closing {state : Quote} {text : List Char} (closing : Closing state text) (opened : state ≠ outside)
    (current : List Char) : strings state current text = [current ++ text] := by
  induction closing generalizing current with
  | last here => rw [strings,if_neg (not_not.mpr here),if_neg opened,strings]
  | more further _ ih => rw [strings,if_pos further,ih further,List.append_assoc,List.singleton_append]

theorem strings_literal {literal : List Char} (string : Literal literal) : strings outside [] literal = [literal] := by
  obtain ⟨c,body,rfl,quote,closing⟩ := string
  rw [strings,if_pos (step_opening quote),strings_closing closing (step_opening quote)]
  rfl

theorem strings_plain {text : List Char} (plain : ∀ c ∈ text, kind c = none) : strings outside [] text = [] := by
  induction text with
  | nil => rfl
  | cons c text ih =>
    rw [List.forall_mem_cons] at plain
    have quiet : step outside c = outside := by simp [step,plain.1]
    rw [strings,quiet,if_neg (not_not.mpr rfl),if_pos rfl,ih plain.2]

end Quote

section Seen

variable {σ : Type} (next : σ → Char → σ) (here : σ → Char → List Char → Bool)

/-- Whether something is seen while `front` is read, the rest of the text being in sight. -/
def seen : σ → List Char → List Char → Bool
  | _,[],_ => false
  | state,c :: front,rest => here state c (front ++ rest) || seen (next state c) front rest

attribute [local simp] seen

theorem seen_append (state : σ) (front back rest : List Char) :
    seen next here state (front ++ back) rest =
      (seen next here state front (back ++ rest) || seen next here (front.foldl next state) back rest) := by
  induction front generalizing state with
  | nil => rfl
  | cons c front ih =>
    rw [List.cons_append,seen,seen,ih,List.append_assoc,Bool.or_assoc]
    rfl

/-- What is in sight matters only where it is seen. -/
theorem seen_mono {rest other : List Char}
    (sight : ∀ state c front, here state c (front ++ rest) = true → here state c (front ++ other) = true) :
    ∀ {state : σ} {front : List Char}, seen next here state front rest = true → seen next here state front other = true := by
  intro state front
  induction front generalizing state with
  | nil => exact id
  | cons c front ih =>
    rw [seen,seen,Bool.or_eq_true,Bool.or_eq_true]
    exact Or.imp (sight state c front) ih

theorem seen_congr {rest other : List Char}
    (sight : ∀ state c front, here state c (front ++ rest) = here state c (front ++ other)) (state : σ)
    (front : List Char) : seen next here state front rest = seen next here state front other := by
  induction front generalizing state with
  | nil => rfl
  | cons c front ih => rw [seen,seen,sight,ih]

end Seen
end Qdrust.Library
