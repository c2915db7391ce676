import Mathlib.Data.List.Chain
import Qdrust.Library.Text
import Qdrust.Library.Words

/-! The `wordwrap` filter: a greedy wrap on whitespace. -/
namespace Qdrust.Expression.WordWrap
open Library Words

/-- The pieces of `width` characters that are broken off a word, and what is left of it. A `none` is a loop that does not
end: with a width of one or more it runs fewer times than the word has characters. -/
def breakWord (width : Nat) : Nat → List Char → Option (List (List Char) × List Char)
  | 0, word => if width < word.length then none else some ([],word)
  | fuel + 1, word =>
    if width < word.length then
      (breakWord width fuel (word.drop width)).map fun (pieces,rest) => (word.take width :: pieces,rest)
    else some ([],word)

structure Wrap where
  lines : List (List Char)
  current : List Char

/-- The line that is being filled is put behind the others. -/
def Wrap.shown (wrap : Wrap) : List (List Char) := if wrap.current = [] then wrap.lines else wrap.lines ++ [wrap.current]

/-- A line without room for the word is full. -/
def Wrap.flush (wrap : Wrap) (width : Nat) (word : List Char) : Wrap :=
  if wrap.current ≠ [] ∧ width < wrap.current.length + 1 + word.length then ⟨wrap.lines ++ [wrap.current],[]⟩ else wrap

def Wrap.word (width : Nat) (breakLongWords : Bool) (wrap : Wrap) (word : List Char) : Option Wrap :=
  let flushed := wrap.flush width word
  (if breakLongWords then breakWord width word.length word else some ([],word)).map fun (pieces,rest) =>
    ⟨flushed.lines ++ pieces,if flushed.current = [] then rest else flushed.current ++ ' ' :: rest⟩

/-- The lines that `wordwrap` joins. -/
def wrapLines (value : List Char) (width : Nat) (breakLongWords : Bool) : Option (List (List Char)) :=
  ((allWords Text.whiteSpace value).foldlM (Wrap.word width breakLongWords) ⟨[],[]⟩).map Wrap.shown

def wordwrap (value : List Char) (width : Nat) (breakLongWords : Bool) (wrapstring : List Char) : Option (List Char) :=
  (wrapLines value width breakLongWords).map fun lines => wrapstring.intercalate lines

/-- What stands on a line up to its first blank. -/
def firstPiece (line : List Char) : List Char := line.takeWhile fun c => !Text.whiteSpace c

/-- Lines that hold some words: none is empty, none is too long, and the first piece of each had no room on the line
before it. -/
structure Wrapped (width : Nat) (breakLongWords : Bool) (words lines : List (List Char)) : Prop where
  nonempty : ∀ line ∈ lines, line ≠ []
  bounded : (breakLongWords = true ∨ ∀ word ∈ words, word.length ≤ width) → ∀ line ∈ lines, line.length ≤ width
  maximal : lines.IsChain fun line next => width < line.length + 1 + (firstPiece next).length
  content : (lines.flatten.filter fun c => !Text.whiteSpace c) = words.flatten

theorem breakWord_ends {width fuel : Nat} (positive : 1 ≤ width) {word : List Char} (enough : word.length ≤ fuel) :
    ∃ pieces rest, breakWord width fuel word = some (pieces,rest) ∧ pieces.flatten ++ rest = word ∧
      (∀ piece ∈ pieces, piece.length = width) ∧ rest.length ≤ width ∧ (word ≠ [] → rest ≠ []) ∧
      (word.length ≤ width → pieces = []) := by
  induction fuel generalizing word with
  | zero =>
    refine ⟨[],word,?_,rfl,nofun,by omega,id,fun _ => rfl⟩
    rw [breakWord,if_neg (by omega)]
  | succ fuel ih =>
    by_cases long : width < word.length
    · have shorter : (word.drop width).length ≤ fuel := by
        rw [List.length_drop]
        omega
      obtain ⟨pieces,rest,broken,whole,full,short,some,_⟩ := ih shorter
      refine ⟨word.take width :: pieces,rest,?_,?_,?_,short,fun _ => some ?_,fun few => absurd long (Nat.not_lt.mpr few)⟩
      · rw [breakWord,if_pos long,broken]
        rfl
      · rw [List.flatten_cons,List.append_assoc,whole,List.take_append_drop]
      · rw [List.forall_mem_cons,List.length_take]
        exact ⟨by omega,full⟩
      · rw [Ne,List.drop_eq_nil_iff]
        omega
    · refine ⟨[],word,?_,rfl,nofun,by omega,id,fun _ => rfl⟩
      rw [breakWord,if_neg long]

/-- The pieces of a word, whether or not long words are broken. -/
theorem pieces_of {width : Nat} (positive : 1 ≤ width) (breakLongWords : Bool) {word : List Char} (some : word ≠ []) :
    ∃ pieces rest, (if breakLongWords then breakWord width word.length word else Option.some ([],word)) = Option.some (pieces,rest) ∧
      pieces.flatten ++ rest = word ∧ (∀ piece ∈ pieces, piece.length = width) ∧ rest ≠ [] ∧
      (breakLongWords = true ∨ word.length ≤ width → rest.length ≤ width) ∧ (word.length ≤ width → pieces = []) := by
  cases breakLongWords with
  | true =>
    obtain ⟨pieces,rest,broken,whole,full,short,left,few⟩ := breakWord_ends positive (Nat.le_refl word.length)
    exact ⟨pieces,rest,broken,whole,full,left some,fun _ => short,few⟩
  | false =>
    refine ⟨[],word,rfl,rfl,nofun,some,?_,fun _ => rfl⟩
    rintro (never | short)
    · cases never
    · exact short

theorem firstPiece_solid {line : List Char} (solid : ∀ c ∈ line, Text.whiteSpace c = false) : firstPiece line = line :=
  List.takeWhile_eq_self_iff.mpr fun c inside => by rw [solid c inside]; rfl

/-- What is put behind a blank is not part of the first piece. -/
theorem firstPiece_blank (line rest : List Char) : firstPiece (line ++ ' ' :: rest) = firstPiece line := by
  induction line with
  | nil => rfl
  | cons c line ih =>
    unfold firstPiece at ih ⊢
    rw [List.cons_append,List.takeWhile_cons,List.takeWhile_cons,ih]

/-- The invariant of the loop. -/
structure Wrapping (width : Nat) (breakLongWords : Bool) (words : List (List Char)) (wrap : Wrap) : Prop where
  started : wrap.current = [] → wrap.lines = []
  wrapped : Wrapped width breakLongWords words wrap.shown

section Step

variable {width : Nat} {breakLongWords : Bool} {words : List (List Char)} {wrap : Wrap} {word : List Char}

/-- A word with room on its line. -/
theorem wrapped_room (wrapped : Wrapped width breakLongWords words (wrap.lines ++ [wrap.current]))
    (room : wrap.current.length + 1 + word.length ≤ width) (solid : ∀ c ∈ word, Text.whiteSpace c = false) :
    Wrapped width breakLongWords (words ++ [word]) (wrap.lines ++ [wrap.current ++ ' ' :: word]) where
  nonempty := by
    rw [List.forall_mem_append,List.forall_mem_singleton]
    exact ⟨fun line inside => wrapped.nonempty line (List.mem_append_left _ inside),by simp⟩
  bounded := by
    intro short
    rw [List.forall_mem_append,List.forall_mem_singleton,List.length_append,List.length_cons]
    refine ⟨fun line inside => wrapped.bounded ?_ line (List.mem_append_left _ inside),by omega⟩
    exact short.imp_right fun all other inside => all other (List.mem_append_left _ inside)
  maximal := by
    have chain := wrapped.maximal
    rw [List.isChain_append] at chain ⊢
    refine ⟨chain.1,List.isChain_singleton _,fun line last next first => ?_⟩
    cases first
    rw [firstPiece_blank]
    exact chain.2.2 line last wrap.current rfl
  content := by
    have content := wrapped.content
    have all : word.filter (fun c => !Text.whiteSpace c) = word :=
      List.filter_eq_self.mpr fun c inside => by rw [solid c inside]; rfl
    rw [List.flatten_append,List.flatten_singleton,List.filter_append] at content ⊢
    rw [List.filter_append,List.filter_cons_of_neg (by decide),all,← List.append_assoc,content,List.flatten_append,List.flatten_singleton]

/-- A word that begins a line. The line before it has no room for its first piece. -/
theorem wrapped_fresh (positive : 1 ≤ width) {shown pieces : List (List Char)} {rest : List Char}
    (wrapped : Wrapped width breakLongWords words shown) (full : ∀ line ∈ shown.getLast?, width < line.length + 1 + word.length)
    (solid : ∀ c ∈ word, Text.whiteSpace c = false) (whole : pieces.flatten ++ rest = word)
    (sized : ∀ piece ∈ pieces, piece.length = width) (some : rest ≠ [])
    (short : breakLongWords = true ∨ word.length ≤ width → rest.length ≤ width) :
    Wrapped width breakLongWords (words ++ [word]) (shown ++ (pieces ++ [rest])) := by
  have clear : ∀ piece ∈ pieces ++ [rest], ∀ c ∈ piece, Text.whiteSpace c = false := by
    intro piece there c inside
    refine solid c ?_
    rw [← whole]
    rcases List.mem_append.mp there with there | there
    · exact List.mem_append_left _ (List.mem_flatten.mpr ⟨piece,there,inside⟩)
    · rw [List.mem_singleton.mp there] at inside
      exact List.mem_append_right _ inside
  refine ⟨?_,?_,?_,?_⟩
  · intro line inside
    rcases List.mem_append.mp inside with inside | inside
    · exact wrapped.nonempty line inside
    rcases List.mem_append.mp inside with inside | inside
    · refine List.ne_nil_of_length_pos ?_
      rw [sized line inside]
      exact positive
    · rw [List.mem_singleton.mp inside]
      exact some
  · intro limits line inside
    rcases List.mem_append.mp inside with inside | inside
    · exact wrapped.bounded (limits.imp_right fun all other there => all other (List.mem_append_left _ there)) line inside
    rcases List.mem_append.mp inside with inside | inside
    · exact Nat.le_of_eq (sized line inside)
    · rw [List.mem_singleton.mp inside]
      exact short (limits.imp_right fun all => all word (List.mem_append_right _ (List.mem_singleton_self word)))
  · rw [List.isChain_append]
    refine ⟨wrapped.maximal,?_,fun line last next first => ?_⟩
    · rw [List.isChain_append]
      refine ⟨?_,List.isChain_singleton _,fun piece last _ _ => ?_⟩
      · refine List.isChain_iff_forall_rel_of_append_cons_cons.mpr fun piece next front back parts => ?_
        rw [sized piece (by rw [parts]; simp)]
        omega
      · rw [sized piece (List.mem_of_mem_getLast? last)]
        omega
    · rw [firstPiece_solid (clear next (List.mem_of_mem_head? first))]
      cases pieces with
      | nil =>
        cases first
        rw [show rest = word from whole]
        exact full line last
      | cons piece pieces =>
        have same : piece = next := Option.some.inj first
        rw [← same,sized piece List.mem_cons_self]
        omega
  · have all : (pieces ++ [rest]).flatten.filter (fun c => !Text.whiteSpace c) = word := by
      rw [List.flatten_append,List.flatten_singleton,whole]
      exact List.filter_eq_self.mpr fun c inside => by rw [solid c inside]; rfl
    rw [List.flatten_append,List.filter_append,wrapped.content,all,List.flatten_append,List.flatten_singleton]

theorem wrapping_word (positive : 1 ≤ width) (wrapping : Wrapping width breakLongWords words wrap) (some : word ≠ [])
    (solid : ∀ c ∈ word, Text.whiteSpace c = false) :
    ∃ next, wrap.word width breakLongWords word = Option.some next ∧ Wrapping width breakLongWords (words ++ [word]) next := by
  obtain ⟨pieces,rest,broken,whole,sized,left,short,few⟩ := pieces_of positive breakLongWords some
  unfold Wrap.word
  rw [broken]
  refine ⟨_,rfl,?_⟩
  by_cases room : wrap.current ≠ [] ∧ wrap.current.length + 1 + word.length ≤ width
  · -- The word is put on the line, in one piece.
    have kept : wrap.flush width word = wrap := if_neg fun full => Nat.not_lt.mpr room.2 full.2
    have none : pieces = [] := few (by omega)
    subst none
    have wrapped := wrapping.wrapped
    rw [Wrap.shown,if_neg room.1] at wrapped
    dsimp only
    rw [kept,if_neg room.1,List.append_nil,show rest = word from whole]
    refine ⟨fun empty => absurd empty (by simp),?_⟩
    rw [Wrap.shown,if_neg (by simp)]
    exact wrapped_room wrapped room.2 solid
  · -- The word begins a line.
    have flushed : wrap.flush width word = ⟨wrap.shown,[]⟩ := by
      unfold Wrap.flush Wrap.shown
      by_cases empty : wrap.current = []
      · rw [if_neg (fun full => full.1 empty),if_pos empty,← empty]
      · rw [if_pos ⟨empty,Nat.not_le.mp fun fits => room ⟨empty,fits⟩⟩,if_neg empty]
    dsimp only
    rw [flushed,if_pos rfl]
    refine ⟨fun empty => absurd empty left,?_⟩
    rw [Wrap.shown,if_neg left,List.append_assoc]
    refine wrapped_fresh positive wrapping.wrapped (fun line last => ?_) solid whole sized left short
    unfold Wrap.shown at last
    split at last
    · next empty =>
      rw [wrapping.started empty] at last
      cases last
    · next filled =>
      rw [List.getLast?_concat] at last
      cases last
      exact Nat.not_le.mp fun fits => room ⟨filled,fits⟩

theorem wrapping_words (positive : 1 ≤ width) {more : List (List Char)} (wrapping : Wrapping width breakLongWords words wrap)
    (clear : ∀ word ∈ more, word ≠ [] ∧ ∀ c ∈ word, Text.whiteSpace c = false) :
    ∃ last, more.foldlM (Wrap.word width breakLongWords) wrap = some last ∧ Wrapping width breakLongWords (words ++ more) last := by
  induction more generalizing words wrap with
  | nil => exact ⟨wrap,rfl,by rwa [List.append_nil]⟩
  | cons word more ih =>
    rw [List.forall_mem_cons] at clear
    obtain ⟨next,taken,after⟩ := wrapping_word positive wrapping clear.1.1 clear.1.2
    obtain ⟨last,done,final⟩ := ih after clear.2
    refine ⟨last,?_,by rwa [List.append_assoc] at final⟩
    rw [List.foldlM_cons,taken]
    exact done

end Step

/-- For a width of one or more the loop ends, and its lines are those of a greedy wrap. -/
theorem wordwrap_wrapped {width : Nat} (positive : 1 ≤ width) (value wrapstring : List Char) (breakLongWords : Bool) :
    ∃ lines, wordwrap value width breakLongWords wrapstring = some (wrapstring.intercalate lines) ∧
      Wrapped width breakLongWords (allWords Text.whiteSpace value) lines ∧
      (lines.flatten.filter fun c => !Text.whiteSpace c) = value.filter fun c => !Text.whiteSpace c := by
  have start : Wrapping width breakLongWords [] ⟨[],[]⟩ := ⟨fun _ => rfl,nofun,fun _ => nofun,.nil,rfl⟩
  obtain ⟨last,done,final⟩ := wrapping_words positive start fun word inside => allWords_solid_of inside
  refine ⟨last.shown,?_,final.wrapped,?_⟩
  · rw [wordwrap,wrapLines,done]
    rfl
  · rw [final.wrapped.content,List.nil_append,flatten_allWords]

theorem wordwrap_three : wordwrap "ab cdefghi j".toList 3 true ['\n'] = some "ab\ncde\nfgh\ni j".toList ∧
    ∃ lines, wordwrap "ab cdefghi j".toList 3 true ['\n'] = some (['\n'].intercalate lines) ∧
      Wrapped 3 true (allWords Text.whiteSpace "ab cdefghi j".toList) lines ∧
      (lines.flatten.filter fun c => !Text.whiteSpace c) = "ab cdefghi j".toList.filter fun c => !Text.whiteSpace c :=
  ⟨by decide +kernel,wordwrap_wrapped (by decide) "ab cdefghi j".toList ['\n'] true⟩

end Qdrust.Expression.WordWrap
