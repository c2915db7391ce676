import Mathlib.Data.List.DropRight
import Mathlib.Data.List.Infix
import Mathlib.Data.List.TakeWhile

/-! Strings read as lists of characters: trimming, searching and truncating. -/
namespace Qdrust.Library.Text

/-- The Unicode property `White_Space`. -/
def whiteSpace (c : Char) : Bool :=
  (9 ≤ c.toNat && c.toNat ≤ 13) || c.toNat == 0x20 || c.toNat == 0x85 || c.toNat == 0xA0 ||
    c.toNat == 0x1680 || (0x2000 ≤ c.toNat && c.toNat ≤ 0x200A) || c.toNat == 0x2028 ||
    c.toNat == 0x2029 || c.toNat == 0x202F || c.toNat == 0x205F || c.toNat == 0x3000

/-- Drop the characters in `set` from both ends. -/
def trimList (set : Char → Bool) (text : List Char) : List Char :=
  (text.dropWhile set).rdropWhile set

def trimBy (set : Char → Bool) (text : String) : String := String.ofList (trimList set text.toList)

/-- Whether nothing is left of `text` after trimming. -/
def blankBy (set : Char → Bool) (text : String) : Bool := text.toList.all set

/-- What follows `pattern` at the start of `text`. -/
def stripPrefix (text pattern : String) : Option String :=
  (pattern.toList.isPrefixOf? text.toList).map String.ofList

/-- What stands before `pattern` at the end of `text`. -/
def stripSuffix (text pattern : String) : Option String :=
  (pattern.toList.isSuffixOf? text.toList).map String.ofList

/-- The two sides of the first occurrence of `pattern`. -/
def splitList (pattern : List Char) : List Char → Option (List Char × List Char)
  | [] => if pattern.isEmpty then some ([],[]) else none
  | c :: text =>
    match pattern.isPrefixOf? (c :: text) with
    | some rest => some ([],rest)
    | none => (splitList pattern text).map fun sides => (c :: sides.1,sides.2)

def splitOnce (text pattern : String) : Option (String × String) :=
  (splitList pattern.toList text.toList).map fun sides => (String.ofList sides.1,String.ofList sides.2)

/-- Whether `pattern` occurs in `text`. -/
def contains (text pattern : String) : Bool := decide (pattern.toList <:+: text.toList)

theorem forall_of_all {p : Char → Prop} [DecidablePred p] {text : List Char} (all : text.all (fun c => decide (p c)) = true) :
    ∀ c ∈ text, p c := fun c inside => of_decide_eq_true (List.all_eq_true.mp all c inside)

theorem trimList_eq_nil (set : Char → Bool) (text : List Char) :
    trimList set text = [] ↔ text.all set = true := by
  rw [trimList,List.rdropWhile_eq_nil_iff,List.all_eq_true]
  constructor
  · intro gone c member
    rw [← List.takeWhile_append_dropWhile (p := set) (l := text)] at member
    rcases List.mem_append.mp member with front | back
    · exact List.mem_takeWhile_imp front
    · exact gone c back
  · intro all c member
    exact all c (List.dropWhile_subset set member)

/-- What is trimmed begins and ends with a character that is kept. -/
theorem trimList_trimList (set : Char → Bool) (text : List Char) : trimList set (trimList set text) = trimList set text := by
  have front : (trimList set text).dropWhile set = trimList set text := by
    cases trimmed : trimList set text with
    | nil => rfl
    | cons c rest =>
      obtain ⟨back,whole⟩ : trimList set text <+: text.dropWhile set := List.rdropWhile_prefix set _
      have solid := List.head?_dropWhile_not set text
      rw [← whole,trimmed] at solid
      exact List.dropWhile_cons_of_neg (by rw [show set c = false from solid]; exact Bool.false_ne_true)
  rw [trimList,front,trimList]
  exact List.rdropWhile_idempotent set _

theorem trimBy_eq_empty (set : Char → Bool) (text : String) :
    trimBy set text = "" ↔ blankBy set text = true := by
  rw [blankBy,← trimList_eq_nil,trimBy,String.ofList_eq_empty_iff]

theorem expect_ok {literal text rest : List Char} :
    literal.isPrefixOf? text = some rest ↔ text = literal ++ rest := by
  rw [List.isPrefixOf?_eq_some_iff_append_eq]
  exact eq_comm

/-- A span is the longest front of a text with a property. -/
theorem span_ok {p : Char → Bool} {text front rest : List Char} :
    text.span p = (front,rest) ↔
      text = front ++ rest ∧ (∀ c ∈ front, p c = true) ∧ ∀ c, rest.head? = some c → p c = false := by
  rw [List.span_eq_takeWhile_dropWhile]
  constructor
  · intro same
    cases same
    refine ⟨List.takeWhile_append_dropWhile.symm,fun c member => List.mem_takeWhile_imp member,?_⟩
    intro c first
    have stop := List.head?_dropWhile_not p text
    rw [first] at stop
    exact stop
  · rintro ⟨rfl,all,stop⟩
    rw [List.takeWhile_append_of_pos all,List.dropWhile_append_of_pos all]
    cases rest with
    | nil => simp
    | cons c rest =>
      have fails := stop c rfl
      rw [List.takeWhile_cons_of_neg (by simp [fails]),List.dropWhile_cons_of_neg (by simp [fails]),List.append_nil]

theorem takeWhile_ends {p : Char → Bool} {front rest : List Char} (all : ∀ c ∈ front, p c = true) (ends : ∀ c ∈ rest.head?, p c = false) :
    (front ++ rest).takeWhile p = front ∧ (front ++ rest).dropWhile p = rest := by
  have span := span_ok.mpr ⟨rfl,all,ends⟩
  rw [List.span_eq_takeWhile_dropWhile] at span
  exact Prod.mk.inj span

end Qdrust.Library.Text
