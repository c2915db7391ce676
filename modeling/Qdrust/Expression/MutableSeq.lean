import Mathlib.Algebra.Order.Ring.Int
import Qdrust.Expression.FormatSpec

/-! `MutableSeq`: the list that a template appends to, against a list of Python. -/
namespace Qdrust.Expression.MutableSeq
open Library Digits

/-- A value that a template hands to a list. It may be the list itself. An object is known by its text and by its elements, where it
has any. -/
inductive Value
  | undefined
  | none
  | boolean (value : Bool)
  | integer (value : Int)
  | text (letters : List Char)
  | itself
  | object (shown : Option (List Char)) (elements : Option (List Value))

inductive Method
  | append
  | extend
  | insert
  | pop
  | remove
  | clear
  | other (name : String)

structure Call where
  method : Method
  args : List Value

/-- What the languages around the list have for its values. A comparison of MiniJinja's is `none` where it reads the list. -/
structure Host where
  same : Value → Value → Option Bool
  debug : Value → String
  python : List Value → Value → Value → Bool
  agrees : ∀ items left right answer, same left right = some answer → python items left right = answer

/-- What a call comes to. The lock of the list is not reentrant: a call that reads the list while it holds the lock never returns. -/
inductive Reply
  | blocked
  | failed (message : String)
  | returned (value : Option Value)

section Source

def integerText (value : Int) : List Char :=
  if value < 0 then '-' :: (toString value.natAbs).toList else (toString value.natAbs).toList

/-- `to_string`, `none` where the text shows the list. -/
def Value.shown : Value → Option (List Char)
  | .undefined => some []
  | .none => some "none".toList
  | .boolean value => some (if value then "true".toList else "false".toList)
  | .integer value => some (integerText value)
  | .text letters => some letters
  | .itself => Option.none
  | .object shown _ => shown

/-- The items of `try_iter`, if there are any, `none` where they are those of the list. -/
def Value.tryIter : Value → Option (Option (List Value))
  | .undefined => some (some [])
  | .none => some (some [])
  | .boolean _ => some Option.none
  | .integer _ => some Option.none
  | .text letters => some (some (letters.map fun c => .text [c]))
  | .itself => Option.none
  | .object _ elements => some elements

def clampIndex (index : Int) (len : Nat) : Nat :=
  if index < 0 then len - index.natAbs else min index.toNat len

/-- `wrapping_sub(1)`. -/
def wrappingSub (len : Nat) : Nat := if len = 0 then 2 ^ 64 - 1 else len - 1

/-- `to_string().parse().unwrap_or(i64::MAX)`. -/
def readIndex (value : Value) : Option Int :=
  value.shown.map fun text => (FormatSpec.parseI64 text).getD (2 ^ 63 - 1)

def argumentCount (name : String) (got want : Nat) : String := s!"{name}() takes {want} argument(s), got {got}"

def notAList (host : Host) (name : String) (value : Value) : String := s!"{name}() argument is not iterable: {host.debug value}"

/-- The first item that is equal to a value. -/
def position (host : Host) (value : Value) : List Value → Option (Option Nat)
  | [] => some none
  | item :: items =>
    match host.same item value with
    | none => none
    | some true => some (some 0)
    | some false => (position host value items).map (·.map (· + 1))

def callMethod (host : Host) (items : List Value) (call : Call) : Reply × List Value :=
  match call.method,call.args with
  | .append,[value] => (.returned none,items ++ [value])
  | .append,args => (.failed (argumentCount "append" args.length 1),items)
  | .extend,[value] =>
    match value.tryIter with
    | none => (.blocked,items)
    | some none => (.failed (notAList host "extend" value),items)
    | some (some incoming) => (.returned none,items ++ incoming)
  | .extend,args => (.failed (argumentCount "extend" args.length 1),items)
  | .insert,[index,value] =>
    match readIndex index with
    | none => (.blocked,items)
    | some index => (.returned none,items.insertIdx (clampIndex index items.length) value)
  | .insert,args => (.failed (argumentCount "insert" args.length 2),items)
  | .pop,[] =>
    match items[wrappingSub items.length]? with
    | some popped => (.returned (some popped),items.eraseIdx (wrappingSub items.length))
    | none => (.failed "pop from empty list",items)
  | .pop,[index] =>
    match readIndex index with
    | none => (.blocked,items)
    | some index =>
      match items[clampIndex index items.length]? with
      | some popped => (.returned (some popped),items.eraseIdx (clampIndex index items.length))
      | none => (.failed "pop from empty list",items)
  | .pop,args => (.failed (argumentCount "pop" args.length 1),items)
  | .remove,[value] =>
    match position host value items with
    | none => (.blocked,items)
    | some none => (.failed "remove(x): x not in list",items)
    | some (some index) => (.returned none,items.eraseIdx index)
  | .remove,args => (.failed (argumentCount "remove" args.length 1),items)
  | .clear,_ => (.returned none,[])
  | .other name,_ =>
    (.failed s!"sequence has no method named {name} (mutable lists support append, extend, insert, pop, remove, clear)",items)

/-- The replies to the calls, each with the items that it leaves. Behind a call that never returns there is no other. -/
def run (host : Host) : List Value → List Call → List (Reply × List Value)
  | _,[] => []
  | items,call :: calls =>
    match callMethod host items call with
    | (.blocked,items) => [(.blocked,items)]
    | (reply,items) => (reply,items) :: run host items calls

end Source

section Python

/-- The integer that Python takes a value for. -/
def Value.index : Value → Option Int
  | .boolean value => some (if value then 1 else 0)
  | .integer value => some value
  | _ => Option.none

def Value.iterate (items : List Value) : Value → Option (List Value)
  | .undefined => some []
  | .text letters => some (letters.map fun c => .text [c])
  | .itself => some items
  | .object _ elements => elements
  | _ => Option.none

/-- Where an item is inserted: a negative index counts from the end, and every index is moved into the list. -/
def insertAt (index : Int) (len : Nat) : Nat := (if index < 0 then max 0 (index + len) else min index len).toNat

/-- Where an item is popped, unless there is none. -/
def popAt (index : Int) (len : Nat) : Option Nat :=
  let moved := if index < 0 then index + len else index
  if 0 ≤ moved ∧ moved < len then some moved.toNat else none

/-- One call of a list of Python: what it returns, or `none` where it raises, and the items after it. -/
def pythonCall (host : Host) (items : List Value) (call : Call) : Option (Option Value) × List Value :=
  match call.method,call.args with
  | .append,[value] => (some none,items ++ [value])
  | .extend,[value] =>
    match value.iterate items with
    | some incoming => (some none,items ++ incoming)
    | none => (none,items)
  | .insert,[index,value] =>
    match index.index with
    | some index => (some none,items.insertIdx (insertAt index items.length) value)
    | none => (none,items)
  | .pop,[] => if items = [] then (none,items) else (some items.getLast?,items.dropLast)
  | .pop,[index] =>
    match index.index.bind (popAt · items.length) with
    | some index => (some items[index]?,items.eraseIdx index)
    | none => (none,items)
  | .remove,[value] =>
    if items.any (host.python items · value) then (some none,items.eraseIdx (items.findIdx (host.python items · value)))
    else (none,items)
  | .clear,[] => (some none,[])
  | _,_ => (none,items)

def pythonRun (host : Host) : List Value → List Call → List (Option (Option Value) × List Value)
  | _,[] => []
  | items,call :: calls => pythonCall host items call :: pythonRun host (pythonCall host items call).2 calls

end Python

section Conditions

/-- The index of `pop` is in the list or behind it, or it is before a list without items. A value that is no integer has no text of one. -/
def PopIndex (items : List Value) : Value → Prop
  | .integer index => items = [] ∨ -items.length ≤ index ∨ index < -2 ^ 63
  | .boolean _ => False
  | value => ∃ shown, value.shown = some shown ∧ FormatSpec.parseI64 shown = none

/-- The calls that a list answers as Python does. No `Vec` has as many items as there are values of an `i64`. -/
def Meets (host : Host) (items : List Value) (call : Call) : Prop :=
  match call.method,call.args with
  | .extend,[value] => value.tryIter ≠ Option.none ∧ value ≠ .none
  | .insert,[index,_] => items.length < 2 ^ 63 ∧ ∃ place, index = .integer place ∧ -2 ^ 63 ≤ place
  | .pop,[index] => items.length < 2 ^ 63 ∧ PopIndex items index
  | .remove,[value] => (position host value items).isSome = true
  | .clear,args => args = []
  | _,_ => True

/-- Every call of a run is one that the list, as it is then, answers as Python does. -/
def MeetsAll (host : Host) : List Value → List Call → Prop
  | _,[] => True
  | items,call :: calls => Meets host items call ∧ MeetsAll host (callMethod host items call).2 calls

/-- What a caller sees of a reply. -/
def Reply.seen : Reply → Option (Option (Option Value))
  | .blocked => Option.none
  | .failed _ => some Option.none
  | .returned value => some (some value)

end Conditions

section Indices

theorem parse_unsigned {digits : List Char} (some : digits ≠ []) (all : ∀ c ∈ digits, c.isDigit = true) :
    FormatSpec.parseI64 digits = if (natValue digits : Int) < 2 ^ 63 then .some (natValue digits : Int) else none := by
  have sign (c : Char) (other : c.isDigit = false) : digits.head? ≠ .some c := by
    intro first
    have digit := all c (List.mem_of_head? first)
    rw [other] at digit
    cases digit
  have minus := sign '-' (by decide)
  have plus := sign '+' (by decide)
  rw [FormatSpec.parseI64]
  simp only [if_neg minus,if_neg (not_or.mpr ⟨minus,plus⟩)]
  by_cases small : (natValue digits : Int) < 2 ^ 63
  · rw [if_pos small,if_pos ⟨some,List.all_eq_true.mpr all,by omega,small⟩]
  · rw [if_neg small,if_neg fun all => small all.2.2.2]

theorem parse_negative {digits : List Char} (some : digits ≠ []) (all : ∀ c ∈ digits, c.isDigit = true) :
    FormatSpec.parseI64 ('-' :: digits) =
      if -2 ^ 63 ≤ -(natValue digits : Int) then .some (-(natValue digits : Int)) else none := by
  rw [FormatSpec.parseI64]
  simp only [List.head?_cons,true_or,if_true,List.tail_cons]
  by_cases small : -2 ^ 63 ≤ -(natValue digits : Int)
  · rw [if_pos small,if_pos ⟨some,List.all_eq_true.mpr all,small,by omega⟩]
  · rw [if_neg small,if_neg fun all => small all.2.2.1]

theorem parse_integer (index : Int) :
    FormatSpec.parseI64 (integerText index) = if -2 ^ 63 ≤ index ∧ index < 2 ^ 63 then some index else none := by
  have some : (toString index.natAbs).toList ≠ [] := by
    rw [Nat.toString_eq_repr,Nat.toList_repr]
    exact Nat.toDigits_ne_nil
  have all := toString_isDigit index.natAbs
  have value := natValue_toString index.natAbs
  rw [integerText]
  by_cases negative : index < 0
  · have same : -(index.natAbs : Int) = index := by omega
    rw [if_pos negative,parse_negative some all,value,same]
    have small : index < 2 ^ 63 := by omega
    simp only [small,and_true]
  · have same : (index.natAbs : Int) = index := by omega
    rw [if_neg negative,parse_unsigned some all,value,same]
    have large : -2 ^ 63 ≤ index := by omega
    simp only [large,true_and]

theorem readIndex_integer (index : Int) :
    readIndex (.integer index) = some (if -2 ^ 63 ≤ index ∧ index < 2 ^ 63 then index else 2 ^ 63 - 1) := by
  change some ((FormatSpec.parseI64 (integerText index)).getD (2 ^ 63 - 1)) = _
  rw [parse_integer]
  split <;> rfl

theorem clampIndex_insert (index : Int) (len : Nat) : clampIndex index len = insertAt index len := by
  rw [clampIndex,insertAt]
  split <;> omega

/-- An index behind the integers of the code is one behind the items. -/
theorem clampIndex_read {index : Int} {len : Nat} (few : len < 2 ^ 63) (low : -2 ^ 63 ≤ index) :
    clampIndex (if -2 ^ 63 ≤ index ∧ index < 2 ^ 63 then index else 2 ^ 63 - 1) len = clampIndex index len := by
  by_cases high : index < 2 ^ 63
  · rw [if_pos ⟨low,high⟩]
  · rw [if_neg fun both => high both.2,clampIndex,clampIndex,if_neg (by decide),if_neg (by omega)]
    omega

theorem clampIndex_last {len : Nat} (few : len < 2 ^ 63) : clampIndex (2 ^ 63 - 1) len = len := by
  rw [clampIndex,if_neg (by decide)]
  omega

/-- Where a clamped index is that of an item, and where it is behind every item. -/
theorem clampIndex_pop {index : Int} {len : Nat} (inside : len = 0 ∨ -len ≤ index) :
    (popAt index len = some (clampIndex index len) ∧ clampIndex index len < len) ∨
      (popAt index len = none ∧ len ≤ clampIndex index len) := by
  unfold clampIndex popAt
  by_cases negative : index < 0
  · simp only [if_pos negative]
    by_cases empty : len = 0
    · exact Or.inr ⟨if_neg (by omega),by omega⟩
    · refine Or.inl ⟨?_,by omega⟩
      rw [if_pos (by omega)]
      exact congrArg some (by omega)
  · simp only [if_neg negative]
    by_cases less : index < len
    · refine Or.inl ⟨?_,by omega⟩
      rw [if_pos (by omega)]
      exact congrArg some (by omega)
    · exact Or.inr ⟨if_neg (by omega),by omega⟩

theorem popAt_below {index : Int} {len : Nat} (few : len < 2 ^ 63) (low : index < -2 ^ 63) : popAt index len = none := by
  unfold popAt
  simp only [if_pos (show index < 0 by omega)]
  exact if_neg (by omega)

end Indices

section Calls

variable (host : Host) (items : List Value)

/-- What a call leaves to be seen. -/
def seen (reply : Reply × List Value) : Option (Option (Option Value)) × List Value := (reply.1.seen,reply.2)

/-- A call that does in the code what it does in Python. -/
def Same (call : Call) : Prop :=
  seen (callMethod host items call) = (some (pythonCall host items call).1,(pythonCall host items call).2)

theorem extend_same {value : Value} (read : value.tryIter ≠ Option.none) (is : value ≠ .none) :
    Same host items ⟨.extend,[value]⟩ := by
  cases value with
  | none => exact absurd rfl is
  | itself => exact absurd rfl read
  | object shown elements => cases elements <;> rfl
  | undefined => rfl
  | boolean value => rfl
  | integer value => rfl
  | text letters => rfl

theorem call_insert {index value : Value} {place : Int} (read : readIndex index = some place) :
    callMethod host items ⟨.insert,[index,value]⟩ = (.returned none,items.insertIdx (clampIndex place items.length) value) := by
  rw [callMethod.eq_def]
  dsimp only
  rw [read]

theorem insert_same {place : Int} (few : items.length < 2 ^ 63) (low : -2 ^ 63 ≤ place) (value : Value) :
    Same host items ⟨.insert,[.integer place,value]⟩ := by
  have index := (clampIndex_read few low).trans (clampIndex_insert place items.length)
  rw [Same,call_insert host items (readIndex_integer place),index]
  rfl

theorem pop_last : Same host items ⟨.pop,[]⟩ := by
  rw [Same,callMethod.eq_def,pythonCall.eq_def]
  dsimp only
  cases items with
  | nil => rfl
  | cons first rest =>
    have index : wrappingSub (first :: rest).length = rest.length := if_neg (Nat.succ_ne_zero _)
    have last : (first :: rest)[rest.length]? = (first :: rest).getLast? := List.getLast?_eq_getElem?.symm
    have shorter : (first :: rest).eraseIdx rest.length = (first :: rest).dropLast := by
      rw [List.dropLast_eq_eraseIdx rfl]
    rw [index,if_neg (List.cons_ne_nil first rest),shorter,last]
    rw [List.getLast?_cons]
    rfl

/-- A call of `pop` whose index the code reads, and Python takes, for the same item or for none. -/
theorem pop_agrees {index : Value} {place : Int} (read : readIndex index = some place)
    (agree : (index.index.bind (popAt · items.length) = some (clampIndex place items.length) ∧
        clampIndex place items.length < items.length) ∨
      (index.index.bind (popAt · items.length) = none ∧ items.length ≤ clampIndex place items.length)) :
    Same host items ⟨.pop,[index]⟩ := by
  rw [Same,callMethod.eq_def,pythonCall.eq_def]
  dsimp only
  rw [read]
  dsimp only
  rcases agree with ⟨python,inside⟩ | ⟨python,outside⟩
  · rw [python]
    dsimp only
    rw [List.getElem?_eq_getElem inside]
    rfl
  · rw [python,List.getElem?_eq_none outside]
    rfl

theorem pop_same {index : Value} (few : items.length < 2 ^ 63) (inside : PopIndex items index) :
    Same host items ⟨.pop,[index]⟩ := by
  have unread {index : Value} (python : index.index = none)
      (other : ∃ shown, index.shown = some shown ∧ FormatSpec.parseI64 shown = none) : Same host items ⟨.pop,[index]⟩ := by
    obtain ⟨shown,is,unparsed⟩ := other
    have read : readIndex index = some (2 ^ 63 - 1) := by rw [readIndex,is,Option.map_some,unparsed,Option.getD_none]
    refine pop_agrees host items read (Or.inr ⟨?_,(clampIndex_last few).ge⟩)
    rw [python,Option.bind_none]
  cases index with
  | integer place =>
    by_cases low : -2 ^ 63 ≤ place
    · have same := clampIndex_read few low
      refine pop_agrees host items (readIndex_integer place) ?_
      rw [same]
      refine clampIndex_pop ?_
      rcases inside with empty | inside | below
      · exact Or.inl (List.length_eq_zero_iff.mpr empty)
      · exact Or.inr inside
      · omega
    · have read := readIndex_integer place
      rw [if_neg fun both => low both.1] at read
      exact pop_agrees host items read (Or.inr ⟨popAt_below few (by omega),(clampIndex_last few).ge⟩)
  | boolean value => exact inside.elim
  | undefined => exact unread rfl inside
  | none => exact unread rfl inside
  | text letters => exact unread rfl inside
  | itself => exact unread rfl inside
  | object shown elements => exact unread rfl inside

/-- The item that is found is the first that Python finds. -/
theorem position_python {value : Value} {found : Option Nat} (whole : List Value) (rest : List Value)
    (position : position host value rest = some found) :
    found = if rest.any (host.python whole · value) then some (rest.findIdx (host.python whole · value)) else none := by
  induction rest generalizing found with
  | nil =>
    cases position
    rfl
  | cons item rest ih =>
    rw [MutableSeq.position] at position
    cases same : host.same item value with
    | none =>
      rw [same] at position
      cases position
    | some answer =>
      have python := host.agrees whole item value answer same
      rw [same] at position
      rw [List.any_cons,List.findIdx_cons,python]
      cases answer with
      | true =>
        cases position
        rfl
      | false =>
        obtain ⟨found',after,rfl⟩ := Option.map_eq_some_iff.mp position
        rw [ih after,Bool.false_or,cond_false]
        split <;> rfl

theorem remove_same {value : Value} (compared : (position host value items).isSome = true) : Same host items ⟨.remove,[value]⟩ := by
  obtain ⟨found,position⟩ := Option.isSome_iff_exists.mp compared
  have python := position_python host items items position
  rw [Same,callMethod.eq_def,pythonCall.eq_def]
  dsimp only
  rw [position,python]
  by_cases any : items.any (host.python items · value) = true
  · rw [if_pos any,if_pos any]
    rfl
  · rw [if_neg any,if_neg any]
    rfl

theorem call_same {call : Call} (met : Meets host items call) : Same host items call := by
  obtain ⟨method,args⟩ := call
  cases method with
  | append =>
    match args with
    | [] => rfl
    | [value] => rfl
    | _ :: _ :: _ => rfl
  | extend =>
    match args,met with
    | [],_ => rfl
    | [value],met => exact extend_same host items met.1 met.2
    | _ :: _ :: _,_ => rfl
  | insert =>
    match args,met with
    | [],_ => rfl
    | [_],_ => rfl
    | [index,value],met =>
      obtain ⟨few,place,rfl,low⟩ := met
      exact insert_same host items few low value
    | _ :: _ :: _ :: _,_ => rfl
  | pop =>
    match args,met with
    | [],_ => exact pop_last host items
    | [index],met => exact pop_same host items met.1 met.2
    | _ :: _ :: _,_ => rfl
  | remove =>
    match args,met with
    | [],_ => rfl
    | [value],met => exact remove_same host items met
    | _ :: _ :: _,_ => rfl
  | clear =>
    have none : args = [] := met
    rw [none]
    rfl
  | other name => rfl

/-- A call that fails leaves the items as they were. -/
theorem failed_unchanged {call : Call} {message : String} {after : List Value}
    (failed : callMethod host items call = (.failed message,after)) : after = items := by
  obtain ⟨method,args⟩ := call
  rw [callMethod.eq_def] at failed
  dsimp only at failed
  split at failed
  case h_8 =>
    split at failed
    · cases failed
    · split at failed <;> cases failed
      rfl
  case h_3 | h_5 | h_7 | h_10 => split at failed <;> cases failed <;> rfl
  all_goals
    cases failed
  all_goals rfl

end Calls

/-- Comparisons of integers and of texts. -/
def sampleSame : Value → Value → Bool
  | .integer left,.integer right => left == right
  | .text left,.text right => left == right
  | .itself,.itself => true
  | _,_ => false

def sampleHost : Host where
  same left right := some (sampleSame left right)
  debug _ := "value"
  python _ := sampleSame
  agrees _ _ _ _ same := Option.some.inj same

def sampleCalls : List Call :=
  [⟨.append,[.integer 7]⟩,⟨.insert,[.integer (-5),.text ['z']]⟩,⟨.remove,[.integer 7]⟩,⟨.pop,[.integer (-1)]⟩,⟨.pop,[.integer 3]⟩]

end Qdrust.Expression.MutableSeq
