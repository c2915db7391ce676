import Qdrust.Expression.Declarations

/-! Templates as texts, tags and comments one after the other: each tag is
rewritten on its own, and everything between the tags stays as it is. -/
namespace Qdrust.Expression
open Library

variable {tables : CharTables}

section Replacing

attribute [local simp] replaceDeclarations

/-- The text with its declarations replaced. -/
def replaced (tables : CharTables) (text : List Char) : List Char :=
  (replaceDeclarations tables text.length text).1

theorem replaceDeclarations_fuel (fuel : Nat) : ∀ (other : Nat) (text : List Char), text.length ≤ fuel →
    text.length ≤ other → replaceDeclarations tables fuel text = replaceDeclarations tables other text := by
  induction fuel with
  | zero =>
    intro other text small _
    rw [List.eq_nil_of_length_eq_zero (by omega : text.length = 0)]
    cases other <;> rfl
  | succ fuel ih =>
    intro other text small large
    cases text with
    | nil => cases other <;> rfl
    | cons c rest =>
      rw [List.length_cons] at small large
      obtain ⟨less,rfl⟩ : ∃ less, other = less + 1 := ⟨other - 1,by omega⟩
      rw [replaceDeclarations,replaceDeclarations]
      cases read : listDeclaration tables (c :: rest) with
      | none =>
        dsimp only
        rw [ih less rest (by omega) (by omega)]
      | some found =>
        obtain ⟨d,after⟩ := found
        have shorter : after.length ≤ rest.length := by
          have size := congrArg List.length (listDeclaration_sound read).2
          simp only [ListDeclaration.text,List.length_cons,List.length_append] at size
          omega
        dsimp only
        rw [ih less after (by omega) (by omega)]

@[simp] theorem replaced_nil : replaced tables [] = [] := rfl

theorem replaced_cons {c : Char} {rest : List Char} (none_ : listDeclaration tables (c :: rest) = none) :
    replaced tables (c :: rest) = c :: replaced tables rest := by
  rw [replaced,List.length_cons,replaceDeclarations,none_]
  rfl

theorem replaced_text {d : ListDeclaration} (valid : d.Valid tables) (after : List Char) :
    replaced tables (d.text ++ after) = d.rewritten ++ replaced tables after := by
  have read := listDeclaration_complete valid after
  have size : after.length ≤ ('%' :: (d.before ++ (d.items ++ d.after) ++ ['%','}'] ++ after)).length := by
    rw [List.length_cons,List.length_append]
    omega
  change replaced tables ('{' :: '%' :: (d.before ++ (d.items ++ d.after) ++ ['%','}'] ++ after)) = _
  change listDeclaration tables ('{' :: '%' :: (d.before ++ (d.items ++ d.after) ++ ['%','}'] ++ after)) = _ at read
  rw [replaced,List.length_cons,replaceDeclarations,read]
  dsimp only
  rw [replaceDeclarations_fuel _ after.length after size (Nat.le_refl _)]
  rfl

/-- A declaration begins with its delimiter. -/
theorem listDeclaration_none {c : Char} {rest : List Char} (other : c ≠ '{' ∨ rest.head? ≠ some '%') :
    listDeclaration tables (c :: rest) = none := by
  cases read : listDeclaration tables (c :: rest) with
  | none => rfl
  | some found =>
    have same := (listDeclaration_sound read).2
    cases same
    rcases other with brace | percent
    · exact absurd rfl brace
    · exact absurd rfl percent

/-- The first character stays. -/
theorem replaced_head (text : List Char) : (replaced tables text).head? = text.head? := by
  cases text with
  | nil => rfl
  | cons c rest =>
    cases read : listDeclaration tables (c :: rest) with
    | none => rw [replaced_cons read]; rfl
    | some found =>
      obtain ⟨valid,same⟩ := listDeclaration_sound read
      rw [same,replaced_text valid]
      rfl

/-- Without a match the text stays. -/
theorem replaceDeclarations_unmatched (fuel : Nat) : ∀ text : List Char,
    (replaceDeclarations tables fuel text).2 = false → (replaceDeclarations tables fuel text).1 = text := by
  induction fuel with
  | zero => exact fun _ _ => rfl
  | succ fuel ih =>
    intro text unmatched
    cases text with
    | nil => rfl
    | cons c rest =>
      rw [replaceDeclarations] at unmatched ⊢
      cases read : listDeclaration tables (c :: rest) with
      | none =>
        rw [read] at unmatched
        exact congrArg (c :: ·) (ih rest unmatched)
      | some found =>
        rw [read] at unmatched
        cases unmatched

/-- Induction along the matches of a text. -/
theorem replaced_induction (tables : CharTables) {P : List Char → Prop} (empty : P [])
    (char : ∀ c rest, listDeclaration tables (c :: rest) = none → P rest → P (c :: rest))
    (found : ∀ (d : ListDeclaration) (after : List Char), d.Valid tables → P ('%' :: '}' :: after) → P (d.text ++ after))
    (text : List Char) : P text := by
  induction size : text.length using Nat.strong_induction_on generalizing text with
  | _ n ih =>
    cases text with
    | nil => exact empty
    | cons c rest =>
      cases read : listDeclaration tables (c :: rest) with
      | none => exact char c rest read (ih rest.length (by rw [← size]; exact Nat.lt_succ_self _) rest rfl)
      | some result =>
        obtain ⟨d,after⟩ := result
        obtain ⟨valid,same⟩ := listDeclaration_sound read
        rw [same]
        apply found d after valid
        refine ih _ ?_ _ rfl
        rw [← size,same]
        simp only [ListDeclaration.text,List.length_cons,List.length_append]
        omega

theorem replaced_close (after : List Char) :
    replaced tables ('%' :: '}' :: after) = '%' :: '}' :: replaced tables after := by
  rw [replaced_cons (listDeclaration_none (Or.inl (by decide))),replaced_cons (listDeclaration_none (Or.inl (by decide)))]

/-- The end of a tag is found behind a declaration as it is found behind what
replaces the declaration. -/
theorem find_declared {first : Char} {d : ListDeclaration} (valid : d.Valid tables) {front after : List Char}
    (free : '}' ∉ front) {state : Quote} {inside rest : List Char}
    (behind : ∀ state inside rest, Quote.find first '}' state ('%' :: '}' :: after) = some (inside,rest) →
      ∃ changed, Quote.find first '}' state (replaced tables ('%' :: '}' :: after)) = some (changed,replaced tables rest))
    (found : Quote.find first '}' state (front ++ (d.before ++ (d.items ++ d.after)) ++ '%' :: '}' :: after) =
      some (inside,rest)) :
    ∃ changed, Quote.find first '}' state
      (front ++ (d.rewrittenBefore ++ (d.items ++ d.rewrittenAfter)) ++ replaced tables ('%' :: '}' :: after)) =
        some (changed,replaced tables rest) := by
  obtain ⟨braces,written⟩ := between_braces valid
  have passed : '}' ∉ front ++ (d.before ++ (d.items ++ d.after)) := by
    intro member
    rcases List.mem_append.mp member with here | there
    · exact free here
    · exact (braces _ there).2 rfl
  have passedWritten : '}' ∉ front ++ (d.rewrittenBefore ++ (d.items ++ d.rewrittenAfter)) := by
    intro member
    rcases List.mem_append.mp member with here | there
    · exact free here
    · exact (written _ there).2 rfl
  rw [Quote.find_append state passed (by simp)] at found
  obtain ⟨⟨inner,outer⟩,deeper,same⟩ := Option.map_eq_some_iff.mp found
  cases same
  obtain ⟨changed,again⟩ := behind _ _ _ deeper
  rw [Quote.run_append,run_between valid,← Quote.run_append] at again
  refine ⟨front ++ (d.rewrittenBefore ++ (d.items ++ d.rewrittenAfter)) ++ changed,?_⟩
  rw [Quote.find_append state passedWritten (by rw [replaced_close]; simp),again]
  rfl

/-- The text between the delimiters of a tag changes, its end does not. -/
theorem find_replaced (tables : CharTables) {first : Char} (text : List Char) :
    ∀ (state : Quote) (inside after : List Char), Quote.find first '}' state text = some (inside,after) →
      ∃ changed, Quote.find first '}' state (replaced tables text) = some (changed,replaced tables after) := by
  induction text using replaced_induction tables with
  | empty =>
    intro state inside after found
    cases found
  | char c rest read ih =>
    intro state inside after found
    rw [replaced_cons read]
    rw [Quote.find] at found
    split at found
    · rename_i here
      cases found
      refine ⟨[],?_⟩
      cases rest with
      | nil => cases here.2.2
      | cons d rest =>
        cases here.2.2
        rw [replaced_cons (listDeclaration_none (Or.inl (by decide))),Quote.find,if_pos ⟨here.1,here.2.1,rfl⟩]
        rfl
    · rename_i other
      obtain ⟨⟨inner,outer⟩,deeper,same⟩ := Option.map_eq_some_iff.mp found
      cases same
      obtain ⟨changed,again⟩ := ih _ _ _ deeper
      refine ⟨c :: changed,?_⟩
      rw [Quote.find_cons_ne (by rw [replaced_head]; exact other),again]
      rfl
  | found d after valid ih =>
    intro state inside rest found
    have shape : d.text ++ after = ['{','%'] ++ (d.before ++ (d.items ++ d.after)) ++ '%' :: '}' :: after := by
      simp [ListDeclaration.text]
    have written : replaced tables (d.text ++ after) =
        ['{','%'] ++ (d.rewrittenBefore ++ (d.items ++ d.rewrittenAfter)) ++ replaced tables ('%' :: '}' :: after) := by
      rw [replaced_text valid,replaced_close]
      simp [ListDeclaration.rewritten]
    rw [shape] at found
    rw [written]
    exact find_declared valid (by decide) ih found

/-- The only closing brace of a declaration is its last character. -/
theorem text_closing {d : ListDeclaration} (valid : d.Valid tables) : ∃ front, d.text = front ++ ['}'] ∧ '}' ∉ front := by
  refine ⟨'{' :: '%' :: (d.before ++ (d.items ++ d.after) ++ ['%']),by simp [ListDeclaration.text],?_⟩
  intro member
  rw [List.mem_cons,List.mem_cons,List.mem_append,List.mem_singleton] at member
  rcases member with same | same | inside | same
  · exact absurd same (by decide)
  · exact absurd same (by decide)
  · exact ((between_braces valid).1 _ inside).2 rfl
  · exact absurd same (by decide)

/-- A declaration does not reach beyond a closing brace. -/
theorem listDeclaration_append {text : List Char} (rest : List Char) (ends : text.getLast? = some '}')
    (unread : listDeclaration tables text = none) : listDeclaration tables (text ++ rest) = none := by
  cases read : listDeclaration tables (text ++ rest) with
  | none => rfl
  | some found =>
    obtain ⟨d,after⟩ := found
    obtain ⟨valid,same⟩ := listDeclaration_sound read
    rcases List.append_eq_append_iff.mp same with ⟨beyond,longer,_⟩ | ⟨left,shorter,_⟩
    · obtain ⟨front,rfl⟩ := List.getLast?_eq_some_iff.mp ends
      rcases List.eq_nil_or_concat beyond with rfl | ⟨between,last,rfl⟩
      · have whole := listDeclaration_complete valid []
        rw [List.append_nil,longer,List.append_nil,unread] at whole
        cases whole
      · obtain ⟨inner,shape,free⟩ := text_closing valid
        rw [shape,List.concat_eq_append,← List.append_assoc] at longer
        refine absurd ?_ free
        rw [(List.append_inj' longer rfl).1]
        simp
    · rw [shorter,listDeclaration_complete valid] at unread
      cases unread

/-- A text that ends in a brace is replaced on its own. -/
theorem replaced_append (rest text : List Char) (ends : text.getLast? = some '}') :
    replaced tables (text ++ rest) = replaced tables text ++ replaced tables rest := by
  induction text using replaced_induction tables with
  | empty => cases ends
  | char c text read ih =>
    have unread := listDeclaration_append rest ends read
    rw [List.cons_append] at unread
    rw [List.cons_append,replaced_cons unread,replaced_cons read,List.cons_append]
    cases text with
    | nil => rfl
    | cons d text => rw [ih ends]
  | found d after valid ih =>
    have same := ih (by
      rw [show d.text ++ after = '{' :: '%' :: (d.before ++ (d.items ++ d.after)) ++ '%' :: '}' :: after by
        simp [ListDeclaration.text],List.getLast?_append_of_ne_nil _ (by simp)] at ends
      exact ends)
    rw [List.cons_append,List.cons_append,replaced_close,replaced_close] at same
    rw [List.append_assoc,replaced_text valid,replaced_text valid,List.append_assoc]
    congr 1
    exact (List.cons.inj (List.cons.inj same).2).2

end Replacing

section Rewriting

attribute [local simp] rewriteTags

/-- The text with its tags rewritten. -/
def tagsRewritten (tables : CharTables) (text : List Char) : List Char := (rewriteTags tables text.length text).1

/-- What stands in a tag after the rewriting. -/
def insideRewritten (tables : CharTables) (expression : Bool) (inside : List Char) : List Char :=
  (if expression then rewriteExpression tables inside else none).getD inside

theorem rewriteTags_fuel (fuel : Nat) : ∀ (other : Nat) (text : List Char), text.length ≤ fuel →
    text.length ≤ other → rewriteTags tables fuel text = rewriteTags tables other text := by
  induction fuel with
  | zero =>
    intro other text small _
    rw [List.eq_nil_of_length_eq_zero (by omega : text.length = 0)]
    cases other <;> rfl
  | succ fuel ih =>
    intro other text small large
    cases text with
    | nil => cases other <;> rfl
    | cons c rest =>
      rw [List.length_cons] at small large
      obtain ⟨less,rfl⟩ : ∃ less, other = less + 1 := ⟨other - 1,by omega⟩
      rw [rewriteTags,rewriteTags]
      cases kind : if c = '{' then opened rest.head? else none with
      | none =>
        dsimp only
        rw [ih less rest (by omega) (by omega)]
      | some tag =>
        obtain ⟨first,expression⟩ := tag
        dsimp only
        cases found : Quote.find first '}' .outside rest.tail with
        | none => rfl
        | some sides =>
          obtain ⟨inside,after⟩ := sides
          have size := congrArg List.length (Quote.find_sides found)
          rw [List.length_tail,List.length_append,List.length_cons,List.length_cons] at size
          dsimp only
          rw [ih less after (by omega) (by omega)]

theorem tagsRewritten_cons {c : Char} {rest : List Char} (other : c ≠ '{' ∨ opened rest.head? = none) :
    tagsRewritten tables (c :: rest) = c :: tagsRewritten tables rest := by
  have closed : (if c = '{' then opened rest.head? else none) = none := by
    split
    · rename_i brace
      rcases other with ne | unopened
      · exact absurd brace ne
      · exact unopened
    · rfl
  rw [tagsRewritten,List.length_cons,rewriteTags,closed]
  rfl

theorem tagsRewritten_tag {mark first : Char} {expression : Bool} {inside after : List Char}
    (opens : opened (some mark) = some (first,expression))
    (found : Quote.find first '}' .outside (inside ++ [first,'}']) = some (inside,[])) :
    tagsRewritten tables ('{' :: mark :: (inside ++ first :: '}' :: after)) =
      '{' :: mark :: (insideRewritten tables expression inside ++ first :: '}' :: tagsRewritten tables after) := by
  have here := Quote.find_local found after
  have size : after.length ≤ (mark :: (inside ++ first :: '}' :: after)).length := by
    rw [List.length_cons,List.length_append,List.length_cons,List.length_cons]
    omega
  rw [tagsRewritten,List.length_cons,rewriteTags,if_pos rfl,List.head?_cons,opens]
  dsimp only [List.tail_cons]
  rw [here]
  dsimp only
  rw [rewriteTags_fuel _ after.length after size (Nat.le_refl _)]
  unfold insideRewritten
  cases (if expression then rewriteExpression tables inside else none) <;> rfl

theorem rewriteTags_unchanged (fuel : Nat) : ∀ text : List Char,
    (rewriteTags tables fuel text).2 = false → (rewriteTags tables fuel text).1 = text := by
  induction fuel with
  | zero => exact fun _ _ => rfl
  | succ fuel ih =>
    intro text unchanged
    cases text with
    | nil => rfl
    | cons c rest =>
      rw [rewriteTags] at unchanged ⊢
      cases kind : if c = '{' then opened rest.head? else none with
      | none =>
        rw [kind] at unchanged
        exact congrArg (c :: ·) (ih rest unchanged)
      | some tag =>
        obtain ⟨first,expression⟩ := tag
        rw [kind] at unchanged
        dsimp only at unchanged ⊢
        cases found : Quote.find first '}' .outside rest.tail with
        | none => rfl
        | some sides =>
          obtain ⟨inside,after⟩ := sides
          rw [found] at unchanged
          dsimp only at unchanged ⊢
          cases written : if expression then rewriteExpression tables inside else none with
          | some text =>
            rw [written] at unchanged
            cases unchanged
          | none =>
            rw [written] at unchanged
            dsimp only
            rw [ih after unchanged,← Quote.find_sides found]
            cases rest with
            | nil => cases found
            | cons mark rest => rfl

/-- The text with its declarations replaced, in a template that mutates. -/
def declared (tables : CharTables) (mutating : Bool) (text : List Char) : List Char :=
  if mutating then replaced tables text else text

/-- The rewriting of a part of a template. -/
def rewriteWith (tables : CharTables) (mutating : Bool) (text : List Char) : List Char :=
  tagsRewritten tables (declared tables mutating text)

/-- Only whether there is a mutator call is decided for the template as a whole. -/
theorem compat_eq_rewriteWith (source : List Char) :
    compatPythonTemplate tables source = rewriteWith tables (looksMutating source) source := by
  have text : (rewriteLiteralLists tables source).getD source = declared tables (looksMutating source) source := by
    unfold rewriteLiteralLists declared
    cases looksMutating source with
    | false => rfl
    | true =>
      cases found : (replaceDeclarations tables source.length source).2 with
      | false =>
        rw [if_pos rfl,replaced,replaceDeclarations_unmatched _ _ found]
        simp [found]
      | true => simp [found,replaced]
  unfold compatPythonTemplate rewriteTemplate
  dsimp only
  rw [text]
  change _ = (rewriteTags tables _ _).1
  split
  · rfl
  · rename_i unchanged
    rw [Bool.or_eq_true,not_or,Bool.not_eq_true,Bool.not_eq_true] at unchanged
    have undeclared : rewriteLiteralLists tables source = none := by simpa using unchanged.1
    have same : declared tables (looksMutating source) source = source := by
      rw [← text,undeclared]
      rfl
    rw [rewriteTags_unchanged _ _ unchanged.2,same]
    rfl

end Rewriting

section Pieces

/-- No tag and no comment begins in the text or at its end. -/
def plain : List Char → Bool
  | [] => true
  | [c] => c != '{'
  | c :: d :: rest => (c != '{' || (opened (some d)).isNone) && plain (d :: rest)

/-- A piece of a template. -/
inductive Piece where
  | text (chars : List Char)
  | braces (inside : List Char)
  | percent (inside : List Char)
  | comment (inside : List Char)

def tag (mark first : Char) (inside : List Char) : List Char := '{' :: mark :: (inside ++ [first,'}'])

def Piece.source : Piece → List Char
  | .text chars => chars
  | .braces inside => tag '{' '}' inside
  | .percent inside => tag '%' '%' inside
  | .comment inside => tag '#' '#' inside

/-- A comment that ends where it should, with its quotes closed and without a
declaration in it. -/
structure ClosedComment (tables : CharTables) (inside : List Char) : Prop where
  unended : ¬['#','}'] <:+: inside
  quotes : Quote.run .outside inside = .outside
  undeclared : ∀ d : ListDeclaration, d.Valid tables → ¬d.text <:+: inside

def Piece.Closed (tables : CharTables) : Piece → Prop
  | .text chars => plain chars = true
  | .braces inside => Quote.find '}' '}' .outside (inside ++ ['}','}']) = some (inside,[])
  | .percent inside => Quote.find '%' '}' .outside (inside ++ ['%','}']) = some (inside,[])
  | .comment inside => ClosedComment tables inside

/-- Only the tags are rewritten, each on its own. -/
def Piece.rewritten (tables : CharTables) (mutating : Bool) (piece : Piece) : List Char :=
  match piece with
  | .text chars => chars
  | .comment inside => tag '#' '#' inside
  | _ => rewriteWith tables mutating piece.source

def sourceOf (pieces : List Piece) : List Char := pieces.flatMap Piece.source

/-- A text in which the end of a tag is found is that tag. -/
theorem tag_of_find (mark : Char) {first : Char} {text changed : List Char}
    (found : Quote.find first '}' .outside text = some (changed,[])) :
    '{' :: mark :: text = tag mark first changed ∧
      Quote.find first '}' .outside (changed ++ [first,'}']) = some (changed,[]) := by
  have same := Quote.find_sides found
  rw [same] at found ⊢
  exact ⟨rfl,found⟩

/-- What replaces the declarations in a tag is a tag again. -/
theorem replaced_tag {mark first : Char} {inside : List Char}
    (found : Quote.find first '}' .outside (inside ++ [first,'}']) = some (inside,[])) :
    ∃ changed, replaced tables (tag mark first inside) = tag mark first changed ∧
      Quote.find first '}' .outside (changed ++ [first,'}']) = some (changed,[]) := by
  unfold tag at *
  cases whole : listDeclaration tables ('{' :: mark :: (inside ++ [first,'}'])) with
  | some result =>
    -- the tag is a declaration itself, perhaps with more behind it
    obtain ⟨d,after⟩ := result
    obtain ⟨valid,same⟩ := listDeclaration_sound whole
    rw [same,replaced_text valid]
    simp only [ListDeclaration.text,List.cons_append,List.append_assoc,List.cons.injEq,List.nil_append] at same
    obtain ⟨_,rfl,body⟩ := same
    rw [body,← List.append_assoc d.items,← List.append_assoc] at found
    obtain ⟨changed,again⟩ := find_declared valid (List.not_mem_nil (a := '}'))
      (fun state before rest => find_replaced tables _ state before rest) found
    rw [List.nil_append,replaced_close] at again
    obtain ⟨shape,ends⟩ := tag_of_find '%' again
    refine ⟨changed,?_,ends⟩
    unfold tag at shape
    rw [← shape]
    simp [ListDeclaration.rewritten]
  | none =>
    rw [replaced_cons whole]
    cases second : listDeclaration tables (mark :: (inside ++ [first,'}'])) with
    | some result =>
      obtain ⟨d,after⟩ := result
      obtain ⟨valid,same⟩ := listDeclaration_sound second
      rw [same,replaced_text valid]
      simp only [ListDeclaration.text,List.cons_append,List.append_assoc,List.cons.injEq,List.nil_append] at same
      obtain ⟨rfl,body⟩ := same
      have front : '%' :: (d.before ++ (d.items ++ (d.after ++ '%' :: '}' :: after))) =
          ['%'] ++ (d.before ++ (d.items ++ d.after)) ++ '%' :: '}' :: after := by
        simp
      rw [body,front] at found
      obtain ⟨changed,again⟩ := find_declared valid (by decide)
        (fun state before rest => find_replaced tables _ state before rest) found
      rw [replaced_close] at again
      obtain ⟨shape,ends⟩ := tag_of_find '{' again
      refine ⟨changed,?_,ends⟩
      unfold tag at shape
      rw [← shape]
      simp [ListDeclaration.rewritten]
    | none =>
      rw [replaced_cons second]
      obtain ⟨changed,again⟩ := find_replaced tables _ _ _ _ found
      obtain ⟨shape,ends⟩ := tag_of_find mark again
      exact ⟨changed,shape,ends⟩

theorem plain_cons {c : Char} {chars : List Char} (even : plain (c :: chars) = true) :
    plain chars = true ∧ ∀ rest : List Char, c ≠ '{' ∨ opened (chars ++ rest).head? = none := by
  cases chars with
  | nil =>
    refine ⟨rfl,fun rest => Or.inl ?_⟩
    simpa [plain] using even
  | cons d chars =>
    rw [plain,Bool.and_eq_true,Bool.or_eq_true] at even
    refine ⟨even.2,fun rest => ?_⟩
    rcases even.1 with ne | unopened
    · exact Or.inl (by simpa using ne)
    · exact Or.inr (by simpa using unopened)

/-- A text between the tags stays as it is. -/
theorem rewriteWith_text (mutating : Bool) (chars rest : List Char) (even : plain chars = true) :
    rewriteWith tables mutating (chars ++ rest) = chars ++ rewriteWith tables mutating rest := by
  induction chars with
  | nil => rfl
  | cons c chars ih =>
    obtain ⟨others,next⟩ := plain_cons even
    have unread : listDeclaration tables (c :: (chars ++ rest)) = none := by
      apply listDeclaration_none
      rcases next rest with brace | unopened
      · exact Or.inl brace
      · refine Or.inr fun percent => ?_
        rw [percent] at unopened
        cases unopened
    have headed : ∀ mutating, (declared tables mutating (chars ++ rest)).head? = (chars ++ rest).head? := by
      intro mutating
      cases mutating with
      | false => rfl
      | true => exact replaced_head _
    have step : declared tables mutating (c :: (chars ++ rest)) = c :: declared tables mutating (chars ++ rest) := by
      cases mutating with
      | false => rfl
      | true => exact replaced_cons unread
    rw [List.cons_append,rewriteWith,step,tagsRewritten_cons (by rw [headed]; exact next rest)]
    exact congrArg (c :: ·) (ih others)

theorem declared_append (mutating : Bool) {mark first : Char} (inside rest : List Char) :
    declared tables mutating (tag mark first inside ++ rest) =
      declared tables mutating (tag mark first inside) ++ declared tables mutating rest := by
  cases mutating with
  | false => rfl
  | true =>
    apply replaced_append
    rw [tag,List.append_cons,← List.cons_append,← List.cons_append,List.getLast?_concat]

/-- A tag is rewritten on its own. -/
theorem rewriteWith_tag (mutating : Bool) {mark first : Char} {inside : List Char} {expression : Bool}
    (opens : opened (some mark) = some (first,expression))
    (found : Quote.find first '}' .outside (inside ++ [first,'}']) = some (inside,[])) (rest : List Char) :
    rewriteWith tables mutating (tag mark first inside ++ rest) =
      rewriteWith tables mutating (tag mark first inside) ++ rewriteWith tables mutating rest := by
  obtain ⟨changed,shape,ends⟩ : ∃ changed, declared tables mutating (tag mark first inside) = tag mark first changed ∧
      Quote.find first '}' .outside (changed ++ [first,'}']) = some (changed,[]) := by
    cases mutating with
    | false => exact ⟨inside,rfl,found⟩
    | true => exact replaced_tag found
  have written : ∀ after, tagsRewritten tables (tag mark first changed ++ after) =
      '{' :: mark :: (insideRewritten tables expression changed ++ first :: '}' :: tagsRewritten tables after) := by
    intro after
    rw [← tagsRewritten_tag opens ends]
    simp [tag]
  have alone := written []
  rw [List.append_nil] at alone
  rw [rewriteWith,declared_append,shape,written,rewriteWith,shape,alone]
  simp [rewriteWith,tagsRewritten,rewriteTags]

theorem undeclared_replaced (text : List Char)
    (undeclared : ∀ d : ListDeclaration, d.Valid tables → ¬d.text <:+: text) : replaced tables text = text := by
  induction text using replaced_induction tables with
  | empty => rfl
  | char c rest read ih =>
    rw [replaced_cons read,ih fun d valid inner => undeclared d valid (inner.trans (List.suffix_cons c rest).isInfix)]
  | found d after valid ih => exact absurd (List.prefix_append d.text after).isInfix (undeclared d valid)

/-- A declaration in a comment is one in its text. -/
theorem declared_inside {d : ListDeclaration} {inside : List Char}
    (declares : d.text <:+: tag '#' '#' inside) : d.text <:+: inside := by
  have shape : d.text = '{' :: '%' :: (d.before ++ (d.items ++ d.after)) ++ ['%'] ++ ['}'] := by
    simp [ListDeclaration.text]
  rw [tag,List.append_cons,List.infix_cons_iff,List.infix_cons_iff,List.infix_concat_iff,List.infix_concat_iff] at declares
  rcases declares with first | second | last | last | inner
  · simp [shape] at first
  · simp [shape] at second
  · rw [shape] at last
    rcases List.suffix_concat_iff.mp last with none_ | ⟨front,same,before⟩
    · simp at none_
    · rw [← (List.append_inj' same rfl).1] at before
      rcases List.suffix_concat_iff.mp before with none_ | ⟨front,same,_⟩
      · simp at none_
      · exact absurd (List.append_inj' same rfl).2 (by decide)
  · rw [shape] at last
    rcases List.suffix_concat_iff.mp last with none_ | ⟨front,same,_⟩
    · simp at none_
    · exact absurd (List.append_inj' same rfl).2 (by decide)
  · exact inner

/-- A closed comment stays as it is. -/
theorem rewriteWith_comment (mutating : Bool) {inside : List Char} (closed : ClosedComment tables inside)
    (rest : List Char) :
    rewriteWith tables mutating (tag '#' '#' inside ++ rest) = tag '#' '#' inside ++ rewriteWith tables mutating rest := by
  have found := Quote.find_closed (by decide) .outside closed.unended closed.quotes []
  have same : declared tables mutating (tag '#' '#' inside) = tag '#' '#' inside := by
    cases mutating with
    | false => rfl
    | true => exact undeclared_replaced _ fun d valid inner => closed.undeclared d valid (declared_inside inner)
  have written : tagsRewritten tables ('{' :: '#' :: (inside ++ '#' :: '}' :: declared tables mutating rest)) = _ :=
    tagsRewritten_tag rfl found
  unfold rewriteWith
  rw [declared_append,same]
  simpa [tag,insideRewritten] using written

/-- A piece is rewritten without regard to what follows it. -/
theorem rewriteWith_piece (mutating : Bool) {piece : Piece} (closed : piece.Closed tables) (rest : List Char) :
    rewriteWith tables mutating (piece.source ++ rest) =
      piece.rewritten tables mutating ++ rewriteWith tables mutating rest := by
  cases piece with
  | text chars => exact rewriteWith_text mutating chars rest closed
  | braces inside => exact rewriteWith_tag mutating rfl closed rest
  | percent inside => exact rewriteWith_tag mutating rfl closed rest
  | comment inside => exact rewriteWith_comment mutating closed rest

theorem rewriteWith_pieces (mutating : Bool) {pieces : List Piece} (closed : ∀ piece ∈ pieces, piece.Closed tables)
    (rest : List Char) :
    rewriteWith tables mutating (sourceOf pieces ++ rest) =
      pieces.flatMap (Piece.rewritten tables mutating) ++ rewriteWith tables mutating rest := by
  induction pieces with
  | nil => rfl
  | cons piece pieces ih =>
    rw [List.forall_mem_cons] at closed
    change rewriteWith tables mutating ((piece.source ++ sourceOf pieces) ++ rest) = _
    rw [List.append_assoc,rewriteWith_piece mutating closed.1,ih closed.2,List.flatMap_cons,List.append_assoc]

/-- What stands before and after a closed comment is rewritten as if it stood
alone, in a template that mutates as a whole or not at all; texts and comments
stay as they are. -/
theorem rewrite_around_comment (tables : CharTables) (pieces : List Piece) (comment after : List Char)
    (closed : ∀ piece ∈ pieces, piece.Closed tables) (quiet : ClosedComment tables comment) :
    let whole := sourceOf pieces ++ (tag '#' '#' comment ++ after)
    let mutating := looksMutating whole
    compatPythonTemplate tables whole =
        pieces.flatMap (Piece.rewritten tables mutating) ++ (tag '#' '#' comment ++ rewriteWith tables mutating after) ∧
      rewriteWith tables mutating (sourceOf pieces) = pieces.flatMap (Piece.rewritten tables mutating) ∧
      (looksMutating (sourceOf pieces) = mutating → looksMutating after = mutating →
        compatPythonTemplate tables whole = compatPythonTemplate tables (sourceOf pieces) ++
          (tag '#' '#' comment ++ compatPythonTemplate tables after)) := by
  intro whole mutating
  have split : compatPythonTemplate tables whole =
      pieces.flatMap (Piece.rewritten tables mutating) ++ (tag '#' '#' comment ++ rewriteWith tables mutating after) := by
    rw [compat_eq_rewriteWith,rewriteWith_pieces _ closed,rewriteWith_comment _ quiet]
  have front : rewriteWith tables mutating (sourceOf pieces) = pieces.flatMap (Piece.rewritten tables mutating) := by
    have alone := rewriteWith_pieces mutating closed []
    have empty : rewriteWith tables mutating [] = [] := by cases mutating <;> rfl
    rw [List.append_nil,empty,List.append_nil] at alone
    exact alone
  refine ⟨split,front,fun first last => ?_⟩
  rw [split,compat_eq_rewriteWith,compat_eq_rewriteWith,first,last,front]

/-- A mutator call after the comment changes the declaration before it, an
apostrophe in the comment keeps the tag after it as it was, and the tags of a raw
block are rewritten. -/
theorem comment_changes_tags :
    compatPythonTemplate asciiTables
        ("\x7b% set xs = [] %\x7d".toList ++ (tag '#' '#' [] ++ "\x7b\x7b xs.append(1) \x7d\x7d".toList)) ≠
      compatPythonTemplate asciiTables "\x7b% set xs = [] %\x7d".toList ++
        (tag '#' '#' [] ++ compatPythonTemplate asciiTables "\x7b\x7b xs.append(1) \x7d\x7d".toList) ∧
    compatPythonTemplate asciiTables (tag '#' '#' "it's".toList ++ "\x7b\x7b x.split(',') \x7d\x7d".toList) =
      tag '#' '#' "it's".toList ++ "\x7b\x7b x.split(',') \x7d\x7d".toList ∧
    compatPythonTemplate asciiTables "\x7b\x7b x.split(',') \x7d\x7d".toList =
      "\x7b\x7b __qdm_call(x, \x22split\x22, ',') \x7d\x7d".toList ∧
    compatPythonTemplate asciiTables "\x7b% raw %\x7d\x7b\x7b x.split(',') \x7d\x7d\x7b% endraw %\x7d".toList ≠
      "\x7b% raw %\x7d\x7b\x7b x.split(',') \x7d\x7d\x7b% endraw %\x7d".toList := by
  decide +kernel

theorem rewrite_around_note :
    compatPythonTemplate asciiTables
        (sourceOf [.text "a".toList,.braces " x ".toList] ++ (tag '#' '#' "note".toList ++ "\x7b\x7b x.upper() \x7d\x7d".toList)) =
      compatPythonTemplate asciiTables (sourceOf [.text "a".toList,.braces " x ".toList]) ++
        (tag '#' '#' "note".toList ++ compatPythonTemplate asciiTables "\x7b\x7b x.upper() \x7d\x7d".toList) := by
  have closed : ∀ piece ∈ [Piece.text "a".toList,Piece.braces " x ".toList], piece.Closed asciiTables := by
    intro piece member
    simp only [List.mem_cons,List.not_mem_nil,or_false] at member
    rcases member with rfl | rfl
    · exact (by decide : plain "a".toList = true)
    · exact (by decide : Quote.find '}' '}' .outside (" x ".toList ++ ['}','}']) = some (" x ".toList,[]))
  have quiet : ClosedComment asciiTables "note".toList := by
    refine ⟨by decide,by decide,fun d _ inner => ?_⟩
    have brace : '{' ∈ "note".toList := inner.subset List.mem_cons_self
    exact absurd brace (by decide)
  exact (rewrite_around_comment asciiTables _ _ "\x7b\x7b x.upper() \x7d\x7d".toList closed quiet).2.2 (by decide) (by decide)

end Pieces

end Qdrust.Expression
