import Mathlib.Algebra.GroupWithZero.Nat
import Qdrust.Library.Search

/-! The methods `find`, `rfind`, `index` and `rindex` of a string. -/
namespace Qdrust.Expression.Find
open Library Search

def byteLength (text : List Char) : Nat := (text.map Char.utf8Size).sum

/-- `text[..index]`, which panics where no character begins. -/
def sliceTo : Nat → List Char → Option (List Char)
  | index, [] => if index = 0 then some [] else none
  | index, c :: text =>
    if index = 0 then some []
    else if c.utf8Size ≤ index then (sliceTo (index - c.utf8Size) text).map (c :: ·)
    else none

/-- `str::find`: the offset of the first match. -/
def strFind (text needle : List Char) : Option Nat := (Text.splitList needle text).map fun sides => byteLength sides.1

/-- `str::rfind`: the offset of the last match. -/
def strRfind (text needle : List Char) : Option Nat :=
  (Text.splitList needle.reverse text.reverse).map fun sides => byteLength sides.2.reverse

/-- `resolve_bound`. -/
def resolveBound (length : Int) (bound : Option Int) (fallback : Int) : Int :=
  match bound with
  | some bound => if bound < 0 then max (length + bound) 0 else min bound length
  | none => fallback

/-- `char_slice`. -/
def charSlice (text : List Char) (start stop : Option Int) : List Char :=
  let length : Int := text.length
  let start := resolveBound length start 0
  let stop := resolveBound length stop length
  if stop ≤ start then [] else (text.take stop.toNat).drop start.toNat

inductive Method where
  | find
  | rfind
  | index
  | rindex
deriving DecidableEq

/-- `name.starts_with('r')`. -/
def Method.fromRight : Method → Bool
  | .find | .index => false
  | .rfind | .rindex => true

/-- `name.ends_with("index")`. -/
def Method.strict : Method → Bool
  | .find | .rfind => false
  | .index | .rindex => true

/-- The answer where nothing is found. -/
def Method.missing (method : Method) : Except String Int := if method.strict then .error "substring not found" else .ok (-1)

/-- A `none` is a slice that panics. -/
def call (method : Method) (text needle : List Char) (start stop : Option Int) : Option (Except String Int) :=
  let window := charSlice text start stop
  let offset := resolveBound text.length start 0
  match if method.fromRight then strRfind window needle else strFind window needle with
  | some index => (sliceTo index window).map fun front => .ok (offset + front.length)
  | none => some method.missing

/-- Python's start: a negative one counts from the end. -/
def pythonStart (length : Int) (start : Option Int) : Int :=
  match start with
  | some start => if start < 0 then max (start + length) 0 else start
  | none => 0

/-- Python's end, which is not behind the text. -/
def pythonEnd (length : Int) (stop : Option Int) : Int :=
  match stop with
  | some stop => if length < stop then length else if stop < 0 then max (stop + length) 0 else stop
  | none => length

/-- The needle stands at `i`, between the bounds. -/
def Occurs (text needle : List Char) (start stop : Option Int) (i : Nat) : Prop :=
  pythonStart text.length start ≤ i ∧ (i + needle.length : Int) ≤ pythonEnd text.length stop ∧ needle <+: text.drop i

/-- The least place for the methods from the left, the greatest for those from the right. -/
def Chosen (method : Method) (occurs : Nat → Prop) (i : Nat) : Prop :=
  occurs i ∧ ∀ j, occurs j → if method.fromRight then j ≤ i else i ≤ j

/-- Python's answer. -/
def Answers (method : Method) (text needle : List Char) (start stop : Option Int) (answer : Option (Except String Int)) : Prop :=
  (∃ i : Nat, Chosen method (Occurs text needle start stop) i ∧ answer = some (.ok i)) ∨
    (∀ i, ¬Occurs text needle start stop i) ∧ answer = some method.missing

theorem sliceTo_front (front back : List Char) : sliceTo (byteLength front) (front ++ back) = some front := by
  induction front with
  | nil => cases back <;> rfl
  | cons c front ih =>
    have whole : byteLength (c :: front) = c.utf8Size + byteLength front := by rw [byteLength,List.map_cons,List.sum_cons]; rfl
    have positive : byteLength (c :: front) ≠ 0 := by
      have size := Char.utf8Size_pos c
      omega
    rw [List.cons_append,sliceTo,if_neg positive,if_pos (by omega),whole,Nat.add_sub_cancel_left,ih]
    rfl

/-- A search in a window gives the least or the greatest place there. -/
theorem search_found {method : Method} {window needle : List Char} {index : Nat}
    (found : (if method.fromRight then strRfind window needle else strFind window needle) = some index) :
    ∃ front, sliceTo index window = some front ∧ Chosen method (At needle window) front.length := by
  unfold Chosen
  cases side : method.fromRight with
  | false =>
    rw [side,if_neg Bool.false_ne_true] at found
    obtain ⟨⟨front,back⟩,split,rfl⟩ := Option.map_eq_some_iff.mp found
    obtain ⟨whole,least⟩ := splitList_at split
    refine ⟨front,by rw [whole]; exact sliceTo_front front _,⟨?_,?_⟩,least⟩
    · rw [whole,List.length_append,List.length_append]
      omega
    · rw [whole,List.drop_left]
      exact List.prefix_append _ _
  | true =>
    rw [side,if_pos rfl] at found
    obtain ⟨⟨back,front⟩,split,rfl⟩ := Option.map_eq_some_iff.mp found
    obtain ⟨whole,least⟩ := splitList_at split
    have turned : window = front.reverse ++ (needle ++ back.reverse) := by
      rw [← List.reverse_reverse window,whole]
      simp only [List.reverse_append,List.reverse_reverse,List.append_assoc]
    have sizes : window.length = front.length + (needle.length + back.length) := by
      rw [turned,List.length_append,List.length_append,List.length_reverse,List.length_reverse]
    refine ⟨front.reverse,by rw [turned]; exact sliceTo_front front.reverse _,⟨?_,?_⟩,fun j there => ?_⟩
    · rw [List.length_reverse]
      omega
    · rw [turned,List.drop_left]
      exact List.prefix_append _ _
    · have behind := least _ (at_reverse there)
      have inside := there.1
      rw [if_pos rfl,List.length_reverse]
      omega

theorem search_nowhere {method : Method} {window needle : List Char}
    (missing : (if method.fromRight then strRfind window needle else strFind window needle) = none) (j : Nat) :
    ¬At needle window j := by
  cases side : method.fromRight with
  | false =>
    rw [side,if_neg Bool.false_ne_true,strFind,Option.map_eq_none_iff] at missing
    exact splitList_nowhere missing j
  | true =>
    rw [side,if_pos rfl,strRfind,Option.map_eq_none_iff] at missing
    exact fun there => splitList_nowhere missing _ (at_reverse there)

section Bounds

variable {text needle : List Char} {start stop : Option Int}

theorem pythonStart_nonneg (length : Nat) (start : Option Int) : 0 ≤ pythonStart length start := by
  cases start with
  | none => exact Int.le_refl 0
  | some start =>
    rw [pythonStart]
    split <;> omega

theorem pythonEnd_bounds (length : Nat) (stop : Option Int) : 0 ≤ pythonEnd length stop ∧ pythonEnd length stop ≤ length := by
  cases stop with
  | none => exact ⟨Int.natCast_nonneg length,Int.le_refl _⟩
  | some stop =>
    rw [pythonEnd]
    split
    · omega
    split <;> omega

/-- The code's start is not behind the text. -/
theorem resolveBound_start (length : Nat) (start : Option Int) : resolveBound length start 0 = min (pythonStart length start) length := by
  cases start with
  | none =>
    rw [resolveBound,pythonStart]
    omega
  | some start =>
    rw [resolveBound,pythonStart]
    split <;> omega

theorem resolveBound_end (length : Nat) (stop : Option Int) : resolveBound length stop length = pythonEnd length stop := by
  cases stop with
  | none => rfl
  | some stop =>
    rw [resolveBound,pythonEnd]
    split
    · rw [if_neg (by omega)]
      omega
    · split <;> omega

theorem charSlice_eq (text : List Char) (start stop : Option Int) :
    charSlice text start stop =
      (text.take (pythonEnd text.length stop).toNat).drop (min (pythonStart text.length start) text.length).toNat := by
  rw [charSlice,resolveBound_start,resolveBound_end]
  split
  · next empty =>
    refine (List.drop_eq_nil_iff.mpr ?_).symm
    rw [List.length_take]
    omega
  · rfl

/-- The places in the window are those between the bounds, unless the bounds leave no place for an empty needle. -/
theorem at_window (meets : needle ≠ [] ∨ pythonStart text.length start ≤ pythonEnd text.length stop) (j : Nat) :
    At needle (charSlice text start stop) j ↔
      Occurs text needle start stop ((min (pythonStart text.length start) text.length).toNat + j) := by
  have low := pythonStart_nonneg text.length start
  have high := pythonEnd_bounds text.length stop
  have needed : needle ≠ [] → 0 < needle.length := List.length_pos_of_ne_nil
  rw [At,Occurs,charSlice_eq,List.length_drop,List.length_take,List.drop_drop,List.drop_take,List.prefix_take_iff]
  constructor
  · rintro ⟨short,starts,_⟩
    refine ⟨?_,?_,starts⟩
    · rcases meets with some | ordered
      · have length := needed some
        omega
      · omega
    · rcases meets with some | ordered
      · have length := needed some
        omega
      · omega
  · rintro ⟨from_start,to_end,starts⟩
    exact ⟨by omega,starts,by omega⟩

end Bounds

/-- The four methods give Python's answer but for an empty needle between bounds that are out of order. -/
theorem find_iff (method : Method) (text needle : List Char) (start stop : Option Int) :
    Answers method text needle start stop (call method text needle start stop) ↔
      needle ≠ [] ∨ pythonStart text.length start ≤ pythonEnd text.length stop := by
  have low := pythonStart_nonneg text.length start
  have high := pythonEnd_bounds text.length stop
  unfold call
  dsimp only
  rw [resolveBound_start]
  by_cases meets : needle ≠ [] ∨ pythonStart text.length start ≤ pythonEnd text.length stop
  · refine iff_of_true ?_ meets
    split
    · next index found =>
      obtain ⟨front,slice,there,chosen⟩ := search_found found
      refine .inl ⟨(min (pythonStart text.length start) text.length).toNat + front.length,⟨(at_window meets _).mp there,?_⟩,?_⟩
      · intro i occurs
        obtain ⟨j,rfl⟩ := Nat.exists_eq_add_of_le (show (min (pythonStart text.length start) text.length).toNat ≤ i by
          have above := occurs.1
          omega)
        have bound := chosen j ((at_window meets j).mpr occurs)
        cases side : method.fromRight with
        | true =>
          rw [side,if_pos rfl] at bound
          rw [if_pos rfl]
          omega
        | false =>
          rw [side,if_neg Bool.false_ne_true] at bound
          rw [if_neg Bool.false_ne_true]
          omega
      · rw [slice,Option.map_some]
        congr 2
        omega
    · next missing =>
      refine .inr ⟨fun i occurs => ?_,rfl⟩
      obtain ⟨j,rfl⟩ := Nat.exists_eq_add_of_le (show (min (pythonStart text.length start) text.length).toNat ≤ i by
        have above := occurs.1
        omega)
      exact search_nowhere missing j ((at_window meets j).mpr occurs)
  · refine iff_of_false ?_ meets
    rw [not_or,not_not,Int.not_le] at meets
    obtain ⟨rfl,crossed⟩ := meets
    have nowhere (i : Nat) : ¬Occurs text [] start stop i := by
      rintro ⟨above,below,_⟩
      rw [List.length_nil] at below
      omega
    rintro (⟨i,chosen,_⟩ | ⟨_,answer⟩)
    · exact nowhere i chosen.1
    · split at answer
      · next index found =>
        obtain ⟨front,slice,_⟩ := search_found found
        rw [slice,Option.map_some,Option.some.injEq,Method.missing] at answer
        split at answer
        · cases answer
        · have equal := Except.ok.inj answer
          omega
      · next missing =>
        exact search_nowhere missing 0 ⟨Nat.zero_le _,List.nil_prefix⟩

/-- Python finds an empty needle at the end of a text, and not behind it. -/
theorem empty_needle : ¬∀ method text needle start stop, Answers method text needle start stop (call method text needle start stop) := by
  intro claimed
  have answer : call .find ['a'] [] (some 5) none = some (.ok 1) := by decide
  rcases claimed .find ['a'] [] (some 5) none with ⟨i,⟨⟨above,below,_⟩,_⟩,_⟩ | ⟨_,missing⟩
  · have start : pythonStart ['a'].length (some 5) = 5 := rfl
    have stop : pythonEnd ['a'].length none = 1 := rfl
    rw [start] at above
    rw [stop,List.length_nil] at below
    omega
  · rw [answer] at missing
    cases missing

end Qdrust.Expression.Find
