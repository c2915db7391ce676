import Qdrust.Expression.Rewrite
import Qdrust.Library.Slices

/-! The scanners of the source: over offsets of bytes. A slice outside of the text or
inside a character is none, and so is a loop that runs out of rounds. -/
namespace Qdrust.Expression.Spans
open Library Slices

section Source

/-- The loops of `identifier_end` and `skip_spaces`. -/
def advance (p : Char → Bool) : Nat → List Char → Nat
  | index,[] => index
  | index,c :: text => if p c then advance p (index + c.utf8Size) text else index

def identifierEnd (tables : CharTables) (text : List Char) (start : Nat) : Option Nat :=
  (sliceFrom text start).map (advance (identifierChar tables) start)

def skipSpaces (text : List Char) (start : Nat) : Option Nat := (sliceFrom text start).map (advance Text.whiteSpace start)

/-- The loop of `string_end`. -/
def closeString (quote : Char) : Nat → Bool → List Char → Option Nat
  | _,_,[] => none
  | index,true,c :: text => closeString quote (index + c.utf8Size) false text
  | index,false,c :: text =>
    if c = '\\' then closeString quote (index + c.utf8Size) true text
    else if c = quote then some (index + c.utf8Size)
    else closeString quote (index + c.utf8Size) false text

def stringEnd (text : List Char) (start : Nat) : Option (Option Nat) :=
  (sliceFrom text start).bind fun rest =>
    match rest with
    | [] => some none
    | quote :: _ => (sliceFrom text (start + quote.utf8Size)).map (closeString quote (start + quote.utf8Size) false)

/-- The `?` operator behind a scan. -/
def found {α : Type} (scan : Option (Option Nat)) (next : Nat → Option (Option α)) : Option (Option α) :=
  scan.bind fun stop => match stop with
    | none => some none
    | some stop => next stop

def closing (c : Char) : Option Char :=
  if c = '(' then some ')' else if c = '[' then some ']' else if c = '{' then some '}' else none

/-- The loop of `group_end`. -/
def closeGroup (text : List Char) (opening close : Char) : Nat → Nat → Nat → Option (Option Nat)
  | 0,_,_ => none
  | fuel + 1,depth,index =>
    if index < size text then
      (sliceFrom text index).bind fun rest =>
        match rest with
        | [] => some none
        | c :: _ =>
          if (Quote.kind c).isSome then found (stringEnd text index) (closeGroup text opening close fuel depth)
          else if c = opening then closeGroup text opening close fuel (depth + 1) (index + c.utf8Size)
          else if c = close then
            if depth - 1 = 0 then some (some (index + c.utf8Size))
            else closeGroup text opening close fuel (depth - 1) (index + c.utf8Size)
          else closeGroup text opening close fuel depth (index + c.utf8Size)
    else some none

def groupEnd (text : List Char) (start : Nat) : Option (Option Nat) :=
  (sliceFrom text start).bind fun rest =>
    match rest with
    | [] => some none
    | opening :: _ => match closing opening with
      | none => some none
      | some close => closeGroup text opening close (text.length + 1) 0 start

/-- The loop of `primary_end`. -/
def postfixEnd (tables : CharTables) (text : List Char) : Nat → Nat → Option (Option Nat)
  | 0,_ => none
  | fuel + 1,index => do
    let next ← skipSpaces text index
    let first := (sliceFrom text next).bind List.head?
    if first = some '(' ∨ first = some '[' then found (groupEnd text next) (postfixEnd tables text fuel)
    else if first = some '.' then
      let nameEnd ← identifierEnd tables text (next + 1)
      if nameEnd = next + 1 then some (some index) else postfixEnd tables text fuel nameEnd
    else some (some index)

def primaryEnd (tables : CharTables) (text : List Char) (start : Nat) : Option (Option Nat) := do
  let index ← skipSpaces text start
  match (sliceFrom text index).bind List.head? with
  | none => some none
  | some first =>
    found
      (if (Quote.kind first).isSome then stringEnd text index
        else if (closing first).isSome then groupEnd text index
        else if identifierChar tables first then (identifierEnd tables text index).map some
        else some none)
      (postfixEnd tables text (text.length + 1))

end Source

section Ends

@[simp] theorem found_none {α : Type} (next : Nat → Option (Option α)) : found (some none) next = some none := rfl

@[simp] theorem found_some {α : Type} (stop : Nat) (next : Nat → Option (Option α)) : found (some (some stop)) next = next stop := rfl

theorem advance_takeWhile (p : Char → Bool) (index : Nat) (text : List Char) :
    advance p index text = index + size (text.takeWhile p) := by
  induction text generalizing index with
  | nil => rfl
  | cons c text ih =>
    rw [advance]
    cases is : p c with
    | true =>
      rw [if_pos rfl,ih,List.takeWhile_cons_of_pos is,size_cons]
      exact Nat.add_assoc _ _ _
    | false =>
      rw [if_neg Bool.false_ne_true,List.takeWhile_cons_of_neg (by simp [is])]
      rfl

theorem take_takeWhile (p : Char → Bool) (text : List Char) : text.take (text.takeWhile p).length = text.takeWhile p :=
  (List.prefix_iff_eq_take.mp (List.takeWhile_prefix p)).symm

theorem identifierEnd_size (tables : CharTables) (front rest : List Char) :
    identifierEnd tables (front ++ rest) (size front) =
      some (size (front ++ rest.take (Expression.identifierEnd tables rest))) := by
  rw [identifierEnd,sliceFrom_size,Option.map_some,advance_takeWhile,← size_append,Expression.identifierEnd,take_takeWhile]

theorem skipSpaces_size (front rest : List Char) :
    skipSpaces (front ++ rest) (size front) = some (size (front ++ rest.take (Expression.skipSpaces rest))) := by
  rw [skipSpaces,sliceFrom_size,Option.map_some,advance_takeWhile,← size_append,Expression.skipSpaces,take_takeWhile]

/-- The quote is closed behind some characters of the text. -/
theorem closeString_take {quote : Char} {index : Nat} {escaped : Bool} {text : List Char} {stop : Nat}
    (closed : closeString quote index escaped text = some stop) : ∃ n, stop = index + size (text.take n) := by
  induction text generalizing index escaped with
  | nil => cases escaped <;> cases closed
  | cons c text ih =>
    have later {more : Bool} (closed : closeString quote (index + c.utf8Size) more text = some stop) :
        ∃ n, stop = index + size ((c :: text).take n) := by
      obtain ⟨n,rfl⟩ := ih closed
      refine ⟨n + 1,?_⟩
      rw [List.take_succ_cons,size_cons,Nat.add_assoc]
    cases escaped with
    | true => exact later closed
    | false =>
      rw [closeString] at closed
      split at closed
      · exact later closed
      · split at closed
        · cases closed
          refine ⟨1,?_⟩
          rw [List.take_succ_cons,List.take_zero,size_singleton]
        · exact later closed

theorem kind_inj {c quote : Char} {double : Bool} (is : Quote.kind quote = some double) :
    Quote.kind c = some double ↔ c = quote := by
  unfold Quote.kind at is ⊢
  split at is
  · grind
  · split at is <;> grind

/-- The loop goes through the states of the string. -/
theorem closeString_eq {quote : Char} {double : Bool} (is : Quote.kind quote = some double) (index : Nat) (escaped : Bool)
    (text : List Char) : closeString quote index escaped text =
      (Quote.stringEnd (.inside double escaped) text).map fun n => index + size (text.take n) := by
  induction text generalizing index escaped with
  | nil => cases escaped <;> rfl
  | cons c text ih =>
    have later (more : Bool) : closeString quote (index + c.utf8Size) more text =
        ((Quote.stringEnd (.inside double more) text).map (· + 1)).map fun n => index + size ((c :: text).take n) := by
      rw [ih,Option.map_map]
      congr 1
      funext n
      rw [Function.comp_apply,List.take_succ_cons,size_cons,Nat.add_assoc]
    cases escaped with
    | true =>
      rw [closeString,Quote.stringEnd]
      exact later false
    | false =>
      rw [closeString,Quote.stringEnd,Quote.step]
      by_cases slash : c = '\\'
      · rw [if_pos slash,if_pos slash,if_neg Quote.noConfusion]
        exact later true
      · rw [if_neg slash,if_neg slash]
        by_cases same : c = quote
        · rw [if_pos same,if_pos ((kind_inj is).mpr same),if_pos rfl,Option.map_some,List.take_succ_cons,List.take_zero,
            size_singleton]
        · rw [if_neg same,if_neg fun also => same ((kind_inj is).mp also),if_neg Quote.noConfusion]
          exact later false

theorem stringEnd_size {c : Char} (quote : (Quote.kind c).isSome) (front rest : List Char) :
    stringEnd (front ++ c :: rest) (size front) =
      some ((Expression.stringEnd (c :: rest)).map fun n => size (front ++ (c :: rest).take n)) := by
  obtain ⟨double,is⟩ := Option.isSome_iff_exists.mp quote
  have moved : front ++ c :: rest = front ++ [c] ++ rest := by simp
  have opened : Quote.step .outside c = .inside double false := by
    rw [Quote.step,is]
    rfl
  rw [stringEnd,sliceFrom_size,Option.bind_some]
  dsimp only
  rw [size_snoc,moved,sliceFrom_size,Option.map_some,closeString_eq is,Expression.stringEnd,Quote.stringEnd,opened,
    if_neg Quote.noConfusion,Option.map_map]
  congr 2
  funext n
  rw [Function.comp_apply,List.take_succ_cons,← size_append,List.append_assoc,List.singleton_append]

theorem take_behind (front rest : List Char) (n m : Nat) : front ++ rest.take n ++ (rest.drop n).take m = front ++ rest.take (m + n) := by
  rw [List.append_assoc,Nat.add_comm,List.take_add]

/-- The loop counts the brackets that are open. -/
theorem closeGroup_size {opening close : Char} (front rest : List Char) (outer : Quote.kind opening = none)
    (inner : Quote.kind close = none) (fuel depth : Nat) (enough : rest.length < fuel) :
    closeGroup (front ++ rest) opening close fuel depth (size front) =
      some ((Quote.groupEnd opening close depth .outside rest).map fun n => size (front ++ rest.take n)) := by
  induction fuel generalizing front rest depth with
  | zero => omega
  | succ fuel ih =>
    rw [closeGroup]
    cases rest with
    | nil =>
      rw [List.append_nil,if_neg (Nat.lt_irrefl _)]
      rfl
    | cons c rest =>
      have inside : size front < size (front ++ c :: rest) := by
        have positive := c.utf8Size_pos
        rw [size_append,size_cons]
        omega
      have moved : front ++ c :: rest = front ++ [c] ++ rest := by simp
      have later (depth : Nat) : closeGroup (front ++ c :: rest) opening close fuel depth (size front + c.utf8Size) =
          some (((Quote.groupEnd opening close depth .outside rest).map (· + 1)).map fun n => size (front ++ (c :: rest).take n)) := by
        rw [size_snoc,moved,ih _ _ _ (by simpa using enough),Option.map_map]
        congr 2
        funext n
        rw [Function.comp_apply,List.take_succ_cons,List.append_assoc,List.singleton_append]
      rw [if_pos inside,sliceFrom_size,Option.bind_some]
      dsimp only
      by_cases quote : (Quote.kind c).isSome
      · have apart : c ≠ opening := fun same => by simp [same,outer] at quote
        have other : c ≠ close := fun same => by simp [same,inner] at quote
        rw [if_pos quote,stringEnd_size quote,Quote.groupEnd_string quote apart other,Expression.stringEnd]
        cases ends : Quote.stringEnd .outside (c :: rest) with
        | none => rfl
        | some n =>
          have positive := Quote.stringEnd_pos ends
          have shorter : ((c :: rest).drop n).length < fuel := by
            rw [List.length_drop]
            rw [List.length_cons] at enough ⊢
            omega
          have cut : front ++ c :: rest = front ++ (c :: rest).take n ++ (c :: rest).drop n := by
            rw [List.append_assoc,List.take_append_drop]
          rw [Option.map_some,found_some,cut,ih _ _ _ shorter,Option.bind_some,Option.map_map]
          congr 2
          funext m
          rw [Function.comp_apply,take_behind]
      · have plain : Quote.step .outside c = .outside := by
          rw [Quote.step,Option.not_isSome_iff_eq_none.mp quote]
          rfl
        rw [if_neg quote,Quote.groupEnd,plain]
        by_cases opens : c = opening
        · rw [if_pos opens,if_pos ⟨rfl,opens⟩]
          exact later _
        · have unopened : ¬(Quote.outside = Quote.outside ∧ c = opening) := fun here => opens here.2
          rw [if_neg opens,if_neg unopened]
          by_cases closes : c = close
          · have closed : Quote.outside = Quote.outside ∧ c = close := ⟨rfl,closes⟩
            rw [if_pos closes,if_pos closed]
            by_cases last : depth - 1 = 0
            · rw [if_pos last,if_pos last,Option.map_some,List.take_succ_cons,List.take_zero,size_snoc]
            · rw [if_neg last,if_neg last]
              exact later _
          · have unclosed : ¬(Quote.outside = Quote.outside ∧ c = close) := fun here => closes here.2
            rw [if_neg closes,if_neg unclosed]
            exact later _

theorem closing_inert {opening close : Char} (is : closing opening = some close) :
    Quote.kind opening = none ∧ Quote.kind close = none := by
  rw [closing] at is
  split at is
  · rename_i same
    cases is
    exact ⟨by rw [same]; rfl,rfl⟩
  · split at is
    · rename_i same
      cases is
      exact ⟨by rw [same]; rfl,rfl⟩
    · split at is
      · rename_i same
        cases is
        exact ⟨by rw [same]; rfl,rfl⟩
      · cases is

theorem closing_isSome (c : Char) : (closing c).isSome ↔ c = '(' ∨ c = '[' ∨ c = '{' := by
  unfold closing
  by_cases round : c = '('
  · simp [round]
  · by_cases square : c = '['
    · simp [square]
    · by_cases curly : c = '{'
      · simp [curly]
      · simp [round,square,curly]

theorem groupEnd_closing (opening : Char) (rest : List Char) :
    Expression.groupEnd (opening :: rest) =
      (closing opening).bind fun close => Quote.groupEnd opening close 0 .outside (opening :: rest) := by
  unfold closing
  by_cases round : opening = '('
  · subst round
    rfl
  · by_cases square : opening = '['
    · subst square
      rfl
    · by_cases curly : opening = '{'
      · subst curly
        rfl
      · rw [if_neg round,if_neg square,if_neg curly]
        unfold Expression.groupEnd
        split <;> grind

theorem groupEnd_size (front rest : List Char) :
    groupEnd (front ++ rest) (size front) = some ((Expression.groupEnd rest).map fun n => size (front ++ rest.take n)) := by
  rw [groupEnd,sliceFrom_size,Option.bind_some]
  cases rest with
  | nil => rfl
  | cons opening rest =>
    rw [groupEnd_closing]
    dsimp only
    cases is : closing opening with
    | none => rfl
    | some close =>
      have inert := closing_inert is
      have enough : (opening :: rest).length < (front ++ opening :: rest).length + 1 := by
        rw [List.length_append]
        omega
      exact closeGroup_size _ _ inert.1 inert.2 _ _ enough

theorem groupEnd_pos {rest : List Char} {n : Nat} (ends : Expression.groupEnd rest = some n) : 0 < n := by
  cases rest with
  | nil => cases ends
  | cons opening rest =>
    rw [groupEnd_closing] at ends
    obtain ⟨close,_,ends⟩ := Option.bind_eq_some_iff.mp ends
    exact Quote.groupEnd_pos ends

theorem closing_width {opening close : Char} (is : closing opening = some close) :
    opening ≠ close ∧ opening.utf8Size = 1 ∧ close.utf8Size = 1 := by
  rw [closing] at is
  split at is
  · rename_i same
    cases is
    subst same
    exact ⟨by decide,rfl,rfl⟩
  · split at is
    · rename_i same
      cases is
      subst same
      exact ⟨by decide,rfl,rfl⟩
    · split at is
      · rename_i same
        cases is
        subst same
        exact ⟨by decide,rfl,rfl⟩
      · cases is

/-- A group is what is between its brackets. -/
theorem groupEnd_interior {opening : Char} {tail : List Char} {n : Nat} (ends : Expression.groupEnd (opening :: tail) = some n) :
    ∃ interior close back, tail = interior ++ close :: back ∧ n = interior.length + 2 ∧ opening.utf8Size = 1 ∧ close.utf8Size = 1 := by
  rw [groupEnd_closing] at ends
  obtain ⟨close,is,ends⟩ := Option.bind_eq_some_iff.mp ends
  obtain ⟨apart,width,also⟩ := closing_width is
  obtain ⟨inner,back,cut,rfl⟩ := Quote.groupEnd_closes ends
  cases inner with
  | nil =>
    cases cut
    exact absurd rfl apart
  | cons c interior =>
    cases cut
    exact ⟨interior,close,back,rfl,rfl,width,also⟩

/-- The slices between the brackets, and of the last one. -/
theorem slice_interior {opening : Char} {tail : List Char} {n : Nat} (ends : Expression.groupEnd (opening :: tail) = some n)
    (front : List Char) :
    slice (front ++ opening :: tail) (size front + 1) (size (front ++ (opening :: tail).take n) - 1) = some (tail.take (n - 2)) ∧
      slice (front ++ opening :: tail) (size (front ++ (opening :: tail).take n) - 1) (size (front ++ (opening :: tail).take n)) =
        some ((tail.drop (n - 2)).take 1) := by
  obtain ⟨interior,close,back,rfl,rfl,width,also⟩ := groupEnd_interior ends
  have start : size front + 1 = size (front ++ [opening]) := by rw [← width,size_snoc]
  have taken : (opening :: (interior ++ close :: back)).take (interior.length + 2) = opening :: interior ++ [close] := by
    rw [List.take_succ_cons,List.take_length_add_append]
    rfl
  have stop : size (front ++ (opening :: interior ++ [close])) - 1 = size (front ++ [opening] ++ interior) := by
    have whole : front ++ (opening :: interior ++ [close]) = front ++ [opening] ++ interior ++ [close] := by simp
    rw [whole,← size_snoc,also]
    rfl
  have text : front ++ opening :: (interior ++ close :: back) = front ++ [opening] ++ interior ++ close :: back := by simp
  constructor
  · rw [taken,stop,start,text,slice_size]
    simp
  · have last := slice_size (front ++ [opening] ++ interior) [close] back
    rw [taken,stop,text]
    simpa using last

theorem identifierEnd_eq_zero (tables : CharTables) (rest : List Char) :
    rest.take (Expression.identifierEnd tables rest) = [] ↔ Expression.identifierEnd tables rest = 0 := by
  rw [Expression.identifierEnd,take_takeWhile,List.length_eq_zero_iff]

/-- What may follow a primary, by the character it begins with. -/
theorem postfixEnd_group (tables : CharTables) (fuel stop : Nat) {text : List Char} {c : Char} {rest : List Char}
    (cut : text.drop (Expression.skipSpaces text) = c :: rest) (opens : c = '(' ∨ c = '[') :
    Expression.postfixEnd tables (fuel + 1) stop text = (Expression.groupEnd (c :: rest)).bind fun n =>
      Expression.postfixEnd tables fuel (stop + Expression.skipSpaces text + n) ((c :: rest).drop n) := by
  rw [Expression.postfixEnd]
  obtain rfl | rfl := opens
  · dsimp only
    rw [cut]
    rfl
  · dsimp only
    rw [cut]
    rfl

theorem postfixEnd_dot (tables : CharTables) (fuel stop : Nat) {text rest : List Char}
    (cut : text.drop (Expression.skipSpaces text) = '.' :: rest) :
    Expression.postfixEnd tables (fuel + 1) stop text =
      if Expression.identifierEnd tables rest = 0 then some stop
      else Expression.postfixEnd tables fuel (stop + Expression.skipSpaces text + 1 + Expression.identifierEnd tables rest)
        (rest.drop (Expression.identifierEnd tables rest)) := by
  rw [Expression.postfixEnd]
  dsimp only
  rw [cut]
  rfl

theorem postfixEnd_other (tables : CharTables) (fuel stop : Nat) {text : List Char}
    (other : ∀ c ∈ (text.drop (Expression.skipSpaces text)).head?, c ≠ '(' ∧ c ≠ '[' ∧ c ≠ '.') :
    Expression.postfixEnd tables (fuel + 1) stop text = some stop := by
  rw [Expression.postfixEnd]
  dsimp only
  split
  · rename_i cut
    rw [cut] at other
    exact absurd rfl (other _ rfl).1
  · rename_i cut
    rw [cut] at other
    exact absurd rfl (other _ rfl).2.1
  · rename_i cut
    rw [cut] at other
    exact absurd rfl (other _ rfl).2.2
  · rfl

section From

variable (base rest : List Char) (k : Nat)

theorem cut_from : base ++ rest.take k ++ rest.drop k = base ++ rest := by
  rw [List.append_assoc,List.take_append_drop]

theorem take_from (n : Nat) : base ++ rest.take k ++ (rest.drop k).take n = base ++ rest.take (k + n) := by
  rw [List.append_assoc,List.take_add]

theorem sliceFrom_from : sliceFrom (base ++ rest) (size (base ++ rest.take k)) = some (rest.drop k) := by
  rw [← cut_from base rest k,sliceFrom_size]

theorem skipSpaces_from : skipSpaces (base ++ rest) (size (base ++ rest.take k)) =
    some (size (base ++ rest.take (k + Expression.skipSpaces (rest.drop k)))) := by
  rw [← cut_from base rest k,skipSpaces_size,take_from]

theorem identifierEnd_from (tables : CharTables) : identifierEnd tables (base ++ rest) (size (base ++ rest.take k)) =
    some (size (base ++ rest.take (k + Expression.identifierEnd tables (rest.drop k)))) := by
  rw [← cut_from base rest k,identifierEnd_size,take_from]

theorem groupEnd_from : groupEnd (base ++ rest) (size (base ++ rest.take k)) =
    some ((Expression.groupEnd (rest.drop k)).map fun n => size (base ++ rest.take (k + n))) := by
  rw [← cut_from base rest k,groupEnd_size]
  congr 2
  funext n
  rw [take_from]

theorem stringEnd_from {c : Char} {tail : List Char} (begins : rest.drop k = c :: tail) (quote : (Quote.kind c).isSome) :
    stringEnd (base ++ rest) (size (base ++ rest.take k)) =
      some ((Expression.stringEnd (rest.drop k)).map fun n => size (base ++ rest.take (k + n))) := by
  rw [← cut_from base rest k,begins,stringEnd_size quote,← begins]
  congr 2
  funext n
  rw [take_from]

theorem drop_from {c : Char} {tail : List Char} (begins : rest.drop k = c :: tail) : rest.drop (k + 1) = tail := by
  rw [← List.drop_drop,begins]
  rfl

/-- The place behind one more character. -/
theorem size_from {c : Char} {tail : List Char} (begins : rest.drop k = c :: tail) :
    size (base ++ rest.take k) + c.utf8Size = size (base ++ rest.take (k + 1)) := by
  rw [size_snoc,← take_from,begins]
  rfl

/-- A place that something stands behind is inside. -/
theorem inside_from {c : Char} {tail : List Char} (begins : rest.drop k = c :: tail) :
    size (base ++ rest.take k) < size (base ++ rest) := by
  have positive := c.utf8Size_pos
  rw [← cut_from base rest k,begins,size_append (base ++ rest.take k),size_cons]
  omega

theorem slice_from (n : Nat) : slice (base ++ rest) (size (base ++ rest.take k)) (size (base ++ rest.take (k + n))) =
    some ((rest.drop k).take n) := by
  have cut : base ++ rest = base ++ rest.take k ++ (rest.drop k).take n ++ (rest.drop k).drop n := by
    rw [List.append_assoc _ (List.take n _),List.take_append_drop,cut_from]
  rw [cut,← take_from,slice_size]

/-- Nothing was taken where the place is the same. -/
theorem size_take_eq (k n : Nat) : size (base ++ rest.take (k + n)) = size (base ++ rest.take k) ↔ (rest.drop k).take n = [] := by
  rw [← take_from,size_append]
  constructor
  · intro same
    by_contra some
    have positive := size_pos.mpr some
    omega
  · intro nothing
    rw [nothing]
    rfl

end From

/-- The chain of calls, indexes and attributes ends where that of the text does. -/
theorem postfixEnd_from (tables : CharTables) (base rest : List Char) (fuel more k : Nat)
    (enough : (rest.drop k).length < fuel) (also : (rest.drop k).length ≤ more) :
    postfixEnd tables (base ++ rest) fuel (size (base ++ rest.take k)) =
      some ((Expression.postfixEnd tables more k (rest.drop k)).map fun n => size (base ++ rest.take n)) := by
  induction fuel generalizing more k with
  | zero => omega
  | succ fuel ih =>
    rw [postfixEnd,skipSpaces_from]
    simp only [Option.bind_eq_bind,Option.bind_some]
    rw [sliceFrom_from,Option.bind_some,← List.drop_drop]
    cases after : (rest.drop k).drop (Expression.skipSpaces (rest.drop k)) with
    | nil =>
      have ended : Expression.postfixEnd tables more k (rest.drop k) = some k := by
        cases more with
        | zero => rfl
        | succ more =>
          apply postfixEnd_other
          rw [after]
          intro c member
          cases member
      rw [ended]
      rfl
    | cons c tail =>
      have there := after
      rw [List.drop_drop] at there
      have short : tail.length + 1 ≤ (rest.drop k).length := by
        rw [← List.length_cons,← after,List.length_drop]
        exact Nat.sub_le _ _
      obtain ⟨more,rfl⟩ := Nat.exists_eq_add_of_lt (show 0 < more by omega)
      rw [Nat.zero_add] at also ⊢
      rw [List.head?_cons]
      by_cases opens : c = '(' ∨ c = '['
      · have opened : some c = some '(' ∨ some c = some '[' := opens.imp (congrArg _) (congrArg _)
        rw [if_pos opened,groupEnd_from,there,postfixEnd_group tables more k after opens]
        cases ends : Expression.groupEnd (c :: tail) with
        | none => rfl
        | some n =>
          have positive := groupEnd_pos ends
          have less : (rest.drop (k + Expression.skipSpaces (rest.drop k) + n)).length ≤ tail.length := by
            rw [← List.drop_drop,there,List.length_drop,List.length_cons]
            omega
          rw [Option.map_some,found_some,ih more _ (by omega) (by omega),← List.drop_drop,there]
          rfl
      · have unopened : ¬(some c = some '(' ∨ some c = some '[') := fun is => opens (is.imp Option.some.inj Option.some.inj)
        rw [if_neg unopened]
        by_cases dot : c = '.'
        · subst dot
          have behind := size_from base rest _ there
          have width : '.'.utf8Size = 1 := rfl
          rw [width] at behind
          rw [if_pos rfl,behind,identifierEnd_from,Option.bind_some,drop_from rest _ there,postfixEnd_dot tables more k after]
          have same := size_take_eq base rest (k + Expression.skipSpaces (rest.drop k) + 1) (Expression.identifierEnd tables tail)
          rw [drop_from rest _ there,identifierEnd_eq_zero] at same
          by_cases nothing : Expression.identifierEnd tables tail = 0
          · rw [if_pos (same.mpr nothing),if_pos nothing]
            rfl
          · have less : (rest.drop (k + Expression.skipSpaces (rest.drop k) + 1 + Expression.identifierEnd tables tail)).length ≤
                tail.length := by
              rw [← List.drop_drop,drop_from rest _ there,List.length_drop]
              exact Nat.sub_le _ _
            rw [if_neg fun is => nothing (same.mp is),if_neg nothing,ih more _ (by omega) (by omega),
              ← @List.drop_drop _ (Expression.identifierEnd tables tail),drop_from rest _ there]
        · have other : ∀ d ∈ ((rest.drop k).drop (Expression.skipSpaces (rest.drop k))).head?, d ≠ '(' ∧ d ≠ '[' ∧ d ≠ '.' := by
            rw [after,List.head?_cons]
            intro d same
            cases same
            exact ⟨fun is => opens (.inl is),fun is => opens (.inr is),dot⟩
          rw [if_neg fun is => dot (Option.some.inj is),postfixEnd_other tables more k other]
          rfl

theorem primaryEnd_size (tables : CharTables) (front rest : List Char) :
    primaryEnd tables (front ++ rest) (size front) =
      some ((Expression.primaryEnd tables rest).map fun n => size (front ++ rest.take n)) := by
  have longer : rest.length < (front ++ rest).length + 1 := by
    rw [List.length_append]
    omega
  have behind (k : Nat) : postfixEnd tables (front ++ rest) ((front ++ rest).length + 1) (size (front ++ rest.take k)) =
      some ((Expression.postfixEnd tables rest.length k (rest.drop k)).map fun n => size (front ++ rest.take n)) := by
    have less : (rest.drop k).length ≤ rest.length := by
      rw [List.length_drop]
      exact Nat.sub_le _ _
    exact postfixEnd_from tables front rest _ _ k (Nat.lt_of_le_of_lt less longer) less
  have step (n : Nat) : (rest.drop (Expression.skipSpaces rest)).drop n = rest.drop (Expression.skipSpaces rest + n) := List.drop_drop
  rw [primaryEnd,skipSpaces_size,Expression.primaryEnd]
  simp only [Option.bind_eq_bind,Option.bind_some]
  rw [sliceFrom_from,Option.bind_some]
  cases after : rest.drop (Expression.skipSpaces rest) with
  | nil => rfl
  | cons c tail =>
    dsimp only [List.head?_cons,Option.bind_some]
    rw [after] at step
    by_cases quote : (Quote.kind c).isSome
    · rw [if_pos quote,if_pos quote,stringEnd_from front rest _ after quote,after]
      cases ends : Expression.stringEnd (c :: tail) with
      | none => rfl
      | some n => rw [Option.map_some,found_some,behind,Option.bind_some,step]
    · rw [if_neg quote,if_neg quote]
      by_cases bracket : (closing c).isSome
      · rw [if_pos bracket,if_pos ((closing_isSome c).mp bracket),groupEnd_from,after]
        cases ends : Expression.groupEnd (c :: tail) with
        | none => rfl
        | some n => rw [Option.map_some,found_some,behind,Option.bind_some,step]
      · rw [if_neg bracket,if_neg fun is => bracket ((closing_isSome c).mpr is)]
        by_cases named : identifierChar tables c = true
        · rw [if_pos named,if_pos named,identifierEnd_from,after,Option.map_some,found_some,behind,step]
        · rw [if_neg named,if_neg named]
          rfl

theorem primaryEnd_from (tables : CharTables) (base rest : List Char) (k : Nat) :
    primaryEnd tables (base ++ rest) (size (base ++ rest.take k)) =
      some ((Expression.primaryEnd tables (rest.drop k)).map fun n => size (base ++ rest.take (k + n))) := by
  rw [← cut_from base rest k,primaryEnd_size]
  congr 2
  funext n
  rw [take_from]

end Ends

end Qdrust.Expression.Spans
