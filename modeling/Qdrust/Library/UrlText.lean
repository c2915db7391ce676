import Qdrust.Library.FormLoss
import Qdrust.Library.Text

/-! The text of a URL: what is dropped before it is read, and the cuts at the first
`#` and at the first `?` before it. -/
namespace Qdrust.Library.UrlText
open Utf8 Form

/-- A space or a control character. -/
def blank (c : Char) : Bool := decide (c.toNat ≤ 0x20)

def lineBreak (c : Char) : Bool := c == '\t' || c == '\n' || c == '\r'

/-- Blanks at the ends are dropped, and tabs and line breaks anywhere. -/
def cleaned (text : List Char) : List Char := (Text.trimList blank text).filter fun c => !lineBreak c

/-- The blanks at the end that are dropped at the end only. -/
def trailingBlanks (text : List Char) : List Char :=
  ((text.dropWhile blank).rtakeWhile blank).filter fun c => !lineBreak c

/-- The sides of the first `stop`. -/
def cutAt (stop : Char) : List Char → List Char × Option (List Char)
  | [] => ([],none)
  | c :: rest => if c = stop then ([],some rest) else (c :: (cutAt stop rest).1,(cutAt stop rest).2)

def mainText (text : List Char) : List Char := (cutAt '#' text).1

def fragmentText (text : List Char) : Option (List Char) := (cutAt '#' text).2

def frontText (text : List Char) : List Char := (cutAt '?' (mainText text)).1

def queryText (text : List Char) : Option (List Char) := (cutAt '?' (mainText text)).2

/-- The fields of a query, as texts. -/
def textPairs (query : List Char) : List (List Char × List Char) :=
  (formPairs query).map fun pair => (lossy pair.1,lossy pair.2)

section Cuts

variable {stop : Char} {left right : List Char}

theorem cutAt_append (stop : Char) (left right : List Char) :
    cutAt stop (left ++ right) =
      match (cutAt stop left).2 with
      | some rest => ((cutAt stop left).1,some (rest ++ right))
      | none => (left ++ (cutAt stop right).1,(cutAt stop right).2) := by
  induction left with
  | nil => rfl
  | cons c left ih =>
    rw [List.cons_append,cutAt]
    by_cases here : c = stop
    · rw [if_pos here,cutAt,if_pos here]
    · rw [if_neg here,ih,cutAt,if_neg here]
      cases (cutAt stop left).2 <;> rfl

theorem cutAt_free (free : stop ∉ left) : cutAt stop left = (left,none) := by
  induction left with
  | nil => rfl
  | cons c left ih =>
    rw [List.mem_cons,not_or] at free
    rw [cutAt,if_neg (Ne.symm free.1),ih free.2]

theorem cutAt_mem (found : stop ∈ left) : ∃ rest, (cutAt stop left).2 = some rest := by
  induction left with
  | nil => cases found
  | cons c left ih =>
    rw [cutAt]
    by_cases here : c = stop
    · rw [if_pos here]
      exact ⟨left,rfl⟩
    · rw [if_neg here]
      exact ih ((List.mem_cons.mp found).resolve_left (Ne.symm here))

theorem cutAt_append_free (free : stop ∉ left) (right : List Char) :
    cutAt stop (left ++ right) = (left ++ (cutAt stop right).1,(cutAt stop right).2) := by
  rw [cutAt_append,cutAt_free free]

theorem cutAt_append_found {rest : List Char} (found : (cutAt stop left).2 = some rest) (right : List Char) :
    cutAt stop (left ++ right) = ((cutAt stop left).1,some (rest ++ right)) := by
  rw [cutAt_append,found]

end Cuts

section Cleaning

variable {text added : List Char}

/-- Nothing of `added` is dropped, wherever it stands. -/
structure Solid (added : List Char) : Prop where
  first : ∃ c rest, added = c :: rest ∧ blank c = false
  last : ∃ front c, added = front ++ [c] ∧ blank c = false
  unbroken : ∀ c ∈ added, lineBreak c = false

theorem blank_of_lineBreak {c : Char} (breaks : lineBreak c = true) : blank c = true := by
  simp only [lineBreak,Bool.or_eq_true,beq_iff_eq] at breaks
  rcases breaks with (rfl | rfl) | rfl <;> decide

theorem Solid.of_forall (some : added ≠ []) (solid : ∀ c ∈ added, blank c = false) : Solid added := by
  refine ⟨?_,?_,?_⟩
  · obtain ⟨c,rest,rfl⟩ := List.exists_cons_of_ne_nil some
    exact ⟨c,rest,rfl,solid c List.mem_cons_self⟩
  · refine ⟨added.dropLast,added.getLast some,(List.dropLast_append_getLast some).symm,?_⟩
    exact solid _ (List.getLast_mem some)
  · intro c member
    rw [Bool.eq_false_iff]
    intro breaks
    have small := blank_of_lineBreak breaks
    rw [solid c member] at small
    cases small

theorem dropWhile_append_solid (solid : Solid added) (text : List Char) :
    (text ++ added).dropWhile blank = text.dropWhile blank ++ added := by
  obtain ⟨c,rest,rfl,kept⟩ := solid.first
  induction text with
  | nil =>
    rw [List.nil_append,List.dropWhile_cons_of_neg (by rw [kept]; decide)]
    rfl
  | cons d text ih =>
    rw [List.cons_append,List.dropWhile_cons,List.dropWhile_cons]
    split
    · exact ih
    · rfl

/-- With something solid behind it, the blanks at the end of a text are kept. -/
theorem cleaned_append (solid : Solid added) (text : List Char) :
    cleaned (text ++ added) = cleaned text ++ trailingBlanks text ++ added := by
  obtain ⟨front,c,same,kept⟩ := solid.last
  have whole : (text.dropWhile blank ++ added).rdropWhile blank = text.dropWhile blank ++ added := by
    rw [same,← List.append_assoc,List.rdropWhile_concat_neg _ _ _ (by rw [kept]; decide)]
  have unbroken : (added.filter fun c => !lineBreak c) = added := by
    rw [List.filter_eq_self]
    intro c member
    rw [solid.unbroken c member]
    rfl
  rw [cleaned,Text.trimList,dropWhile_append_solid solid,whole,List.filter_append,unbroken,cleaned,trailingBlanks,
    Text.trimList,← List.filter_append,List.rdropWhile_append_rtakeWhile]

theorem mem_trailingBlanks {c : Char} (member : c ∈ trailingBlanks text) : blank c = true ∧ lineBreak c = false := by
  rw [trailingBlanks,List.mem_filter,Bool.not_eq_true'] at member
  exact ⟨List.mem_rtakeWhile_imp member.1,member.2⟩

theorem mem_trimList {c : Char} (solid : blank c = false) (text : List Char) :
    c ∈ Text.trimList blank text ↔ c ∈ text := by
  have parts : text = text.takeWhile blank ++ (Text.trimList blank text ++ (text.dropWhile blank).rtakeWhile blank) := by
    rw [Text.trimList,List.rdropWhile_append_rtakeWhile,List.takeWhile_append_dropWhile]
  have noFront : c ∉ text.takeWhile blank := fun member => by
    rw [List.mem_takeWhile_imp member] at solid
    cases solid
  have noBack : c ∉ (text.dropWhile blank).rtakeWhile blank := fun member => by
    rw [List.mem_rtakeWhile_imp member] at solid
    cases solid
  constructor
  · intro member
    rw [parts]
    exact List.mem_append_right _ (List.mem_append_left _ member)
  · intro member
    rw [parts] at member
    exact ((List.mem_append.mp ((List.mem_append.mp member).resolve_left noFront)).resolve_right noBack)

theorem mem_cleaned {c : Char} (solid : blank c = false) (text : List Char) : c ∈ cleaned text ↔ c ∈ text := by
  have unbroken : lineBreak c = false := by
    rw [Bool.eq_false_iff]
    intro breaks
    rw [blank_of_lineBreak breaks] at solid
    cases solid
  rw [cleaned,List.mem_filter,mem_trimList solid,unbroken]
  exact ⟨And.left,fun member => ⟨member,rfl⟩⟩

end Cleaning

section Pairs

theorem textPairs_append (left right : List Char) : textPairs (left ++ '&' :: right) = textPairs left ++ textPairs right := by
  rw [textPairs,formPairs,formParts_append,List.map_append,List.map_append]
  rfl

theorem textPairs_nil : textPairs [] = [] := rfl

theorem textPairs_single {text : List Char} (free : '&' ∉ text) :
    textPairs text = if text.isEmpty then [] else
      [(lossy (decodeComponent (splitField text).1),lossy (decodeComponent (splitField text).2))] := by
  rw [textPairs,formPairs,formParts_single free]
  cases text <;> rfl

/-- A field with blanks behind it is another field. -/
theorem splitField_blank {text : List Char} {c : Char} {rest : List Char} (small : blank c = true)
    (free : '=' ∉ c :: rest) :
    (lossy (decodeComponent (splitField (text ++ c :: rest)).1),lossy (decodeComponent (splitField (text ++ c :: rest)).2)) ≠
      (lossy (decodeComponent (splitField text).1),lossy (decodeComponent (splitField text).2)) := by
  have bound : c.toNat ≤ 0x20 := of_decide_eq_true small
  intro same
  obtain ⟨names,values⟩ := Prod.mk.inj same
  by_cases separated : '=' ∈ text
  · obtain ⟨name,value,rfl,clean⟩ := List.eq_append_cons_of_mem separated
    change lossy (decodeComponent (splitField (field name value ++ c :: rest)).2) =
      lossy (decodeComponent (splitField (field name value)).2) at values
    rw [field,List.append_assoc,List.cons_append] at values
    change lossy (decodeComponent (splitField (field name (value ++ c :: rest))).2) =
      lossy (decodeComponent (splitField (field name value)).2) at values
    rw [splitField_field clean,splitField_field clean] at values
    exact lossy_component_blank value rest bound values
  · have whole : '=' ∉ text ++ c :: rest := by
      rw [List.mem_append,not_or]
      exact ⟨separated,free⟩
    rw [splitField_free separated,splitField_free whole] at names
    exact lossy_component_blank text rest bound names

/-- The blanks behind a query are part of its last field. -/
theorem textPairs_blanks {blanks : List Char} (some : blanks ≠ []) (small : ∀ c ∈ blanks, blank c = true)
    (query : List Char) : textPairs (query ++ blanks) ≠ textPairs query := by
  have free : ∀ stop, blank stop = false → stop ∉ blanks := fun stop solid member => by
    rw [small stop member] at solid
    cases solid
  obtain ⟨c,rest,rfl⟩ := List.exists_cons_of_ne_nil some
  have last : ∀ text, '&' ∉ text → textPairs (text ++ c :: rest) ≠ textPairs text := by
    intro text clean same
    have whole : '&' ∉ text ++ c :: rest := by
      rw [List.mem_append,not_or]
      exact ⟨clean,free '&' (by decide)⟩
    rw [textPairs_single clean,textPairs_single whole,if_neg (by simp)] at same
    split at same
    · cases same
    · exact splitField_blank (small c List.mem_cons_self) (free '=' (by decide)) (List.singleton_inj.mp same)
  induction size : query.length using Nat.strongRecOn generalizing query with
  | ind n ih =>
    by_cases separated : '&' ∈ query
    · obtain ⟨left,right,rfl,_⟩ := List.eq_append_cons_of_mem separated
      rw [List.length_append,List.length_cons] at size
      intro same
      rw [List.append_assoc,List.cons_append,textPairs_append,textPairs_append,List.append_cancel_left_eq] at same
      exact ih right.length (by omega) right rfl same
    · exact last query separated

end Pairs

end Qdrust.Library.UrlText
