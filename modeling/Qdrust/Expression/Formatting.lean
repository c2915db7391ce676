import Qdrust.Expression.Rewrite
import Qdrust.Library.Nesting

/-! The format operators of an expression, each a `%` behind a string, and what
the first pass of the rewriting makes of them. -/
namespace Qdrust.Expression
open Library

variable {tables : CharTables}

section Operators

/-- What follows the format operator that a text begins with. -/
def formatValues (after : List Char) : Option (List Char) :=
  match after.dropWhile Text.whiteSpace with
  | '%' :: values => if values.head? = some '%' ∨ values.head? = some '=' then none else some values
  | _ => none

/-- A string ends here, with a format operator behind it. -/
def formatsHere (state : Quote) (c : Char) (rest : List Char) : Bool :=
  state ≠ .outside && state.step c = .outside && (formatValues rest).isSome

/-- Whether a format operator with a string before it stands anywhere in the text. -/
def formats (text : List Char) : Bool := seen Quote.step formatsHere .outside text []

/-- The right operand of the format operator that a text begins with, and what follows it. -/
def formatOperand (tables : CharTables) (after : List Char) : Option (List Char × List Char) :=
  (formatValues after).bind fun values =>
    (primaryEnd tables values).map fun stop => (values.take stop,values.drop stop)

/-- The right operands of the format operators from left to right, without those in
another operand; `none` for one that begins with no primary. -/
def formatOperandsFrom (tables : CharTables) : Nat → List Char → List (Option (List Char))
  | 0,_ => []
  | _,[] => []
  | fuel + 1,c :: rest =>
    if (Quote.kind c).isNone then formatOperandsFrom tables fuel rest
    else match stringEnd (c :: rest) with
      | none => []
      | some size =>
        let after := (c :: rest).drop size
        match formatOperand tables after with
        | some (operand,behind) => some operand :: formatOperandsFrom tables fuel behind
        | none =>
          if (formatValues after).isSome then none :: formatOperandsFrom tables fuel after
          else formatOperandsFrom tables fuel after

def formatOperands (tables : CharTables) (text : List Char) : List (Option (List Char)) :=
  formatOperandsFrom tables text.length text

/-- The text with its format operators rewritten. -/
def formatted (tables : CharTables) (text : List Char) : List Char := (rewritePercent tables text).getD text

/-- The call that replaces a format operator. -/
@[irreducible] def percentCall (literal operand : List Char) : List Char :=
  "__qdm_percent(".toList ++ (literal ++ (", ".toList ++ (trim operand ++ [')'])))

end Operators

section Equations

attribute [local simp] rewritePercentFrom

theorem drop_skipSpaces (text : List Char) : text.drop (skipSpaces text) = text.dropWhile Text.whiteSpace := by
  calc text.drop (skipSpaces text)
      = (text.takeWhile Text.whiteSpace ++ text.dropWhile Text.whiteSpace).drop (skipSpaces text) := by
        rw [List.takeWhile_append_dropWhile]
    _ = text.dropWhile Text.whiteSpace := List.drop_left

theorem formatValues_eq_some {after values : List Char} : formatValues after = some values ↔
    after.dropWhile Text.whiteSpace = '%' :: values ∧ ¬(values.head? = some '%' ∨ values.head? = some '=') := by
  unfold formatValues
  constructor
  · intro valued
    split at valued
    · rename_i same
      split at valued
      · cases valued
      · cases valued
        exact ⟨same,‹_›⟩
    · cases valued
  · rintro ⟨same,other⟩
    rw [same]
    exact if_neg other

theorem formatOperand_shorter {after operand behind : List Char}
    (found : formatOperand tables after = some (operand,behind)) : behind.length < after.length := by
  obtain ⟨values,valued,found⟩ := Option.bind_eq_some_iff.mp found
  obtain ⟨stop,-,same⟩ := Option.map_eq_some_iff.mp found
  cases same
  have least : (after.dropWhile Text.whiteSpace).length ≤ after.length := List.length_dropWhile_le _ _
  rw [(formatValues_eq_some.mp valued).1,List.length_cons] at least
  rw [List.length_drop]
  omega

/-- A text is empty, begins with a character or an open string, or with a string
that a format operator follows or not. -/
theorem format_induction (tables : CharTables) {P : List Char → Prop} (empty : P [])
    (char : ∀ c rest, Quote.kind c = none → P rest → P (c :: rest))
    (unclosed : ∀ c rest, Quote.kind c ≠ none → stringEnd (c :: rest) = none → P (c :: rest))
    (string : ∀ literal after, Quote.Literal literal → formatOperand tables after = none → P after →
      P (literal ++ after))
    (operator : ∀ literal after operand behind, Quote.Literal literal →
      formatOperand tables after = some (operand,behind) → P behind → P (literal ++ after))
    (text : List Char) : P text := by
  induction size : text.length using Nat.strong_induction_on generalizing text with
  | _ n ih =>
    cases text with
    | nil => exact empty
    | cons c rest =>
      by_cases quote : Quote.kind c = none
      · exact char c rest quote (ih rest.length (by rw [← size]; exact Nat.lt_succ_self _) rest rfl)
      cases closed : stringEnd (c :: rest) with
      | none => exact unclosed c rest quote closed
      | some stop =>
        obtain ⟨literal,after,same,-,isLiteral⟩ :=
          Quote.literal_of_stringEnd (Option.isSome_iff_ne_none.mpr quote) closed
        have shorter : after.length < n := by
          obtain ⟨d,body,rfl,-⟩ := isLiteral
          rw [← size,same,List.length_append,List.length_cons]
          omega
        rw [same]
        cases found : formatOperand tables after with
        | none => exact string literal after isLiteral found (ih _ shorter after rfl)
        | some parts =>
          obtain ⟨operand,behind⟩ := parts
          exact operator literal after operand behind isLiteral found
            (ih _ ((formatOperand_shorter found).trans shorter) behind rfl)

theorem stringEnd_literal {literal : List Char} (string : Quote.Literal literal) (after : List Char) :
    stringEnd (literal ++ after) = some literal.length := string.closing.stringEnd after

/-- What the pass does at a string. -/
theorem rewritePercentFrom_string {literal after : List Char} (string : Quote.Literal literal)
    (none_ : formatOperand tables after = none) (fuel : Nat) (out : List Char) (changed : Bool) :
    rewritePercentFrom tables (fuel + 1) out changed (literal ++ after) =
      rewritePercentFrom tables fuel (out ++ literal) changed after := by
  have stop := stringEnd_literal string after
  obtain ⟨c,body,rfl,quote,-⟩ := string
  rw [List.cons_append] at stop
  rw [List.cons_append,rewritePercentFrom,if_neg (by rw [Option.isNone_iff_eq_none]; exact Option.isSome_iff_ne_none.mp quote),
    stop]
  dsimp only
  rw [← List.cons_append,List.take_left,List.drop_left,drop_skipSpaces]
  split
  · rename_i values same
    split
    · rfl
    · rename_i other
      rw [formatOperand,formatValues_eq_some.mpr ⟨same,other⟩,Option.bind_some,Option.map_eq_none_iff] at none_
      rw [none_]
  · rfl

theorem rewritePercentFrom_operator {literal after operand behind : List Char} (string : Quote.Literal literal)
    (found : formatOperand tables after = some (operand,behind)) (fuel : Nat) (out : List Char) (changed : Bool) :
    rewritePercentFrom tables (fuel + 1) out changed (literal ++ after) =
      rewritePercentFrom tables fuel (out ++ percentCall literal operand) true behind := by
  have stop := stringEnd_literal string after
  obtain ⟨c,body,rfl,quote,-⟩ := string
  rw [List.cons_append] at stop
  rw [List.cons_append,rewritePercentFrom,if_neg (by rw [Option.isNone_iff_eq_none]; exact Option.isSome_iff_ne_none.mp quote),
    stop]
  dsimp only
  rw [← List.cons_append,List.take_left,List.drop_left,drop_skipSpaces]
  split
  · rename_i values same
    obtain ⟨own,valued,found⟩ := Option.bind_eq_some_iff.mp found
    obtain ⟨again,other⟩ := formatValues_eq_some.mp valued
    cases same.symm.trans again
    obtain ⟨size,ends,parts⟩ := Option.map_eq_some_iff.mp found
    cases parts
    rw [if_neg other,ends]
    simp only [percentCall,List.append_assoc]
  · rename_i absent
    obtain ⟨own,valued,-⟩ := Option.bind_eq_some_iff.mp found
    exact absurd (formatValues_eq_some.mp valued).1 (absent own)

theorem rewritePercentFrom_unclosed {c : Char} {rest : List Char} (quote : Quote.kind c ≠ none)
    (unclosed : stringEnd (c :: rest) = none) (fuel : Nat) (out : List Char) (changed : Bool) :
    rewritePercentFrom tables (fuel + 1) out changed (c :: rest) = if changed then some (out ++ c :: rest) else none := by
  rw [rewritePercentFrom,if_neg (by rw [Option.isNone_iff_eq_none]; exact quote),unclosed]

theorem rewritePercentFrom_char {c : Char} {rest : List Char} (plain : Quote.kind c = none) (fuel : Nat)
    (out : List Char) (changed : Bool) :
    rewritePercentFrom tables (fuel + 1) out changed (c :: rest) =
      rewritePercentFrom tables fuel (out ++ [c]) changed rest := by
  rw [rewritePercentFrom,if_pos (Option.isNone_iff_eq_none.mpr plain)]

/-- Neither the fuel nor what is out already matters. -/
theorem rewritePercentFrom_eq (tables : CharTables) (text : List Char) : ∀ {fuel : Nat}, text.length ≤ fuel →
    ∀ (out : List Char) (changed : Bool), rewritePercentFrom tables fuel out changed text =
      (rewritePercent tables text).elim (if changed then some (out ++ text) else none) fun rest => some (out ++ rest) := by
  induction text using format_induction tables with
  | empty =>
    intro fuel _ out changed
    cases fuel <;> simp [rewritePercentFrom,rewritePercent]
  | char c rest plain ih =>
    intro fuel enough out changed
    obtain ⟨less,rfl⟩ : ∃ less, fuel = less + 1 := ⟨fuel - 1,by rw [List.length_cons] at enough; omega⟩
    rw [rewritePercent,List.length_cons,rewritePercentFrom_char plain,rewritePercentFrom_char plain,
      ih (Nat.le_of_succ_le_succ enough),ih (Nat.le_refl _)]
    cases rewritePercent tables rest <;> simp
  | unclosed c rest quote unclosed =>
    intro fuel enough out changed
    obtain ⟨less,rfl⟩ : ∃ less, fuel = less + 1 := ⟨fuel - 1,by rw [List.length_cons] at enough; omega⟩
    rw [rewritePercent,List.length_cons,rewritePercentFrom_unclosed quote unclosed,rewritePercentFrom_unclosed quote unclosed]
    rfl
  | string literal after string none_ ih =>
    intro fuel enough out changed
    have size : 0 < literal.length := by
      obtain ⟨c,body,rfl,-⟩ := string
      exact Nat.succ_pos _
    rw [List.length_append] at enough
    obtain ⟨less,rfl⟩ : ∃ less, fuel = less + 1 := ⟨fuel - 1,by omega⟩
    obtain ⟨own,same⟩ : ∃ own, (literal ++ after).length = own + 1 := ⟨(literal ++ after).length - 1,by
      rw [List.length_append]; omega⟩
    rw [rewritePercent,same,rewritePercentFrom_string string none_,rewritePercentFrom_string string none_,
      ih (by omega),ih (by rw [List.length_append] at same; omega)]
    cases rewritePercent tables after <;> simp
  | operator literal after operand behind string found ih =>
    intro fuel enough out changed
    have shorter := formatOperand_shorter found
    rw [List.length_append] at enough
    obtain ⟨less,rfl⟩ : ∃ less, fuel = less + 1 := ⟨fuel - 1,by omega⟩
    obtain ⟨own,same⟩ : ∃ own, (literal ++ after).length = own + 1 := ⟨(literal ++ after).length - 1,by
      rw [List.length_append]; omega⟩
    rw [rewritePercent,same,rewritePercentFrom_operator string found,rewritePercentFrom_operator string found,
      ih (by omega),ih (by rw [List.length_append] at same; omega)]
    cases rewritePercent tables behind <;> simp

theorem rewritePercent_nil : rewritePercent tables [] = none := rfl

theorem rewritePercent_char {c : Char} {rest : List Char} (plain : Quote.kind c = none) :
    rewritePercent tables (c :: rest) = (rewritePercent tables rest).map (c :: ·) := by
  rw [rewritePercent,List.length_cons,rewritePercentFrom_char plain,rewritePercentFrom_eq tables rest (Nat.le_refl _)]
  cases rewritePercent tables rest <;> rfl

theorem rewritePercent_string {literal after : List Char} (string : Quote.Literal literal)
    (none_ : formatOperand tables after = none) :
    rewritePercent tables (literal ++ after) = (rewritePercent tables after).map (literal ++ ·) := by
  obtain ⟨own,same⟩ : ∃ own, (literal ++ after).length = own + 1 := by
    obtain ⟨c,body,rfl,-⟩ := string
    exact ⟨(body ++ after).length,rfl⟩
  have enough : after.length ≤ own := by
    obtain ⟨c,body,rfl,-⟩ := string
    rw [List.length_append,List.length_cons] at same
    omega
  rw [rewritePercent,same,rewritePercentFrom_string string none_,rewritePercentFrom_eq tables after enough]
  cases rewritePercent tables after <;> rfl

theorem rewritePercent_operator {literal after operand behind : List Char} (string : Quote.Literal literal)
    (found : formatOperand tables after = some (operand,behind)) :
    rewritePercent tables (literal ++ after) = some (percentCall literal operand ++ formatted tables behind) := by
  have shorter := formatOperand_shorter found
  obtain ⟨own,same⟩ : ∃ own, (literal ++ after).length = own + 1 := by
    obtain ⟨c,body,rfl,-⟩ := string
    exact ⟨(body ++ after).length,rfl⟩
  have enough : behind.length ≤ own := by
    rw [List.length_append] at same
    omega
  rw [rewritePercent,same,rewritePercentFrom_operator string found,rewritePercentFrom_eq tables behind enough,formatted]
  cases rewritePercent tables behind <;> rfl

theorem rewritePercent_unclosed {c : Char} {rest : List Char} (quote : Quote.kind c ≠ none)
    (unclosed : stringEnd (c :: rest) = none) : rewritePercent tables (c :: rest) = none :=
  rewritePercentFrom_unclosed quote unclosed rest.length [] false

@[simp] theorem formatted_nil : formatted tables [] = [] := rfl

theorem formatted_char {c : Char} {rest : List Char} (plain : Quote.kind c = none) :
    formatted tables (c :: rest) = c :: formatted tables rest := by
  rw [formatted,formatted,rewritePercent_char plain]
  cases rewritePercent tables rest <;> rfl

theorem formatted_string {literal after : List Char} (string : Quote.Literal literal)
    (none_ : formatOperand tables after = none) :
    formatted tables (literal ++ after) = literal ++ formatted tables after := by
  rw [formatted,formatted,rewritePercent_string string none_]
  cases rewritePercent tables after <;> rfl

theorem formatted_operator {literal after operand behind : List Char} (string : Quote.Literal literal)
    (found : formatOperand tables after = some (operand,behind)) :
    formatted tables (literal ++ after) = percentCall literal operand ++ formatted tables behind := by
  rw [formatted,rewritePercent_operator string found]
  rfl

theorem formatted_unclosed {c : Char} {rest : List Char} (quote : Quote.kind c ≠ none)
    (unclosed : stringEnd (c :: rest) = none) : formatted tables (c :: rest) = c :: rest := by
  rw [formatted,rewritePercent_unclosed quote unclosed]
  rfl

end Equations
end Qdrust.Expression
