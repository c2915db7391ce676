import Qdrust.Library.Search
import Qdrust.Library.Words

/-! Placeholders of a text that are replaced by values: all in one pass, or one placeholder after
the other. -/
namespace Qdrust.Library.Substitution
open Search Words

/-- A placeholder as it is written, and its value. -/
abbrev Var := List Char × List Char

/-- `str::replace`. -/
def replaceAll (var : Var) (text : List Char) : List Char :=
  var.2.intercalate (splitN (Text.splitList var.1) text.length text)

inductive Token where
  | plain (c : Char)
  | hole (var : Var)

def readTokens (vars : List Var) : Nat → List Char → List Token
  | 0, _ => []
  | _ + 1, [] => []
  | fuel + 1, c :: text =>
    match vars.find? fun var => var.1.isPrefixOf (c :: text) with
    | some var => .hole var :: readTokens vars fuel ((c :: text).drop var.1.length)
    | none => .plain c :: readTokens vars fuel text

/-- A text with its placeholders. -/
def tokens (vars : List Var) (text : List Char) : List Token := readTokens vars text.length text

def Token.value : Token → List Char
  | .plain c => [c]
  | .hole var => var.2

/-- All placeholders are replaced in one pass. -/
def simultaneous (vars : List Var) (text : List Char) : List Char := (tokens vars text).flatMap Token.value

/-- One placeholder after the other is replaced. -/
def sequential (vars : List Var) (text : List Char) : List Char := vars.foldl (fun text var => replaceAll var text) text

/-- A token when some placeholders have been replaced. -/
def Token.shown (filled : List Var) : Token → List Char
  | .plain c => [c]
  | .hole var => if var ∈ filled then var.2 else var.1

/-- Wherever the placeholder stands once the earlier ones have been replaced, it stood in the text from the start. -/
def Genuine (filled : List Var) (var : Var) (tokens : List Token) : Prop :=
  ∀ front back, tokens.flatMap (Token.shown filled) = front ++ (var.1 ++ back) →
    ∃ before after, tokens = before ++ .hole var :: after ∧ front = before.flatMap (Token.shown filled)

/-- No value that was put in is part of a placeholder that is replaced later. -/
def Untouched (vars : List Var) (text : List Char) : Prop :=
  ∀ filled var rest, vars = filled ++ var :: rest → Genuine filled var (tokens vars text)

section Stage

variable {filled : List Var} {var : Var} {tokens : List Token}

theorem shown_self (fresh : var ∉ filled) : Token.shown filled (.hole var) = var.1 := if_neg fresh

/-- Tokens of other placeholders stay as they are. -/
theorem shown_more {token : Token} (other : token ≠ .hole var) : Token.shown (filled ++ [var]) token = Token.shown filled token := by
  cases token with
  | plain c => rfl
  | hole var' =>
    have differ : var' ≠ var := fun same => other (by rw [same])
    simp only [Token.shown,List.mem_append,List.mem_singleton,differ,or_false]

theorem shown_more_all (without : ∀ token ∈ tokens, token ≠ .hole var) :
    tokens.flatMap (Token.shown (filled ++ [var])) = tokens.flatMap (Token.shown filled) :=
  List.flatMap_congr fun token inside => shown_more (without token inside)

/-- Behind a placeholder the others stand as before. -/
theorem genuine_after (some : var.1 ≠ []) (fresh : var ∉ filled) {before after : List Token}
    (genuine : Genuine filled var (before ++ .hole var :: after)) : Genuine filled var after := by
  intro front back whole
  have placed : (before ++ .hole var :: after).flatMap (Token.shown filled) =
      (before.flatMap (Token.shown filled) ++ (var.1 ++ front)) ++ (var.1 ++ back) := by
    rw [List.flatMap_append,List.flatMap_cons,shown_self fresh,whole]
    simp only [List.append_assoc]
  obtain ⟨before',after',same,front'⟩ := genuine _ _ placed
  have length : 0 < var.1.length := List.length_pos_of_ne_nil some
  have sizes := congrArg List.length front'
  rw [List.length_append,List.length_append] at sizes
  rcases List.append_eq_append_iff.mp same with ⟨middle,rfl,rest⟩ | ⟨middle,rfl,_⟩
  · cases middle with
    | nil =>
      rw [List.append_nil] at sizes
      omega
    | cons token middle =>
      obtain ⟨rfl,rfl⟩ := List.cons.inj rest
      rw [List.flatMap_append,List.flatMap_cons,shown_self fresh,List.append_cancel_left_eq,List.append_cancel_left_eq] at front'
      exact ⟨middle,after',rfl,front'⟩
  · rw [List.flatMap_append,List.length_append] at sizes
    omega

/-- The first placeholder that a search finds has none before it. -/
theorem first_hole (some : var.1 ≠ []) (fresh : var ∉ filled) {before after : List Token} {front back : List Char}
    (found : Text.splitList var.1 ((before ++ .hole var :: after).flatMap (Token.shown filled)) = .some (front,back))
    (placed : front = before.flatMap (Token.shown filled)) : ∀ token ∈ before, token ≠ .hole var := by
  rintro token inside rfl
  obtain ⟨earlier,later,rfl⟩ := List.append_of_mem inside
  have least := (splitList_at found).2 (earlier.flatMap (Token.shown filled)).length
  have stands : At var.1 ((earlier ++ .hole var :: later ++ .hole var :: after).flatMap (Token.shown filled))
      (earlier.flatMap (Token.shown filled)).length := by
    rw [List.append_assoc,List.flatMap_append,List.cons_append,List.flatMap_cons,shown_self fresh]
    refine ⟨?_,?_⟩
    · simp only [List.length_append]
      omega
    · rw [List.drop_left]
      exact List.prefix_append _ _
  have bound := least stands
  have length : 0 < var.1.length := List.length_pos_of_ne_nil some
  rw [placed,List.flatMap_append,List.flatMap_cons,shown_self fresh,List.length_append,List.length_append] at bound
  omega

/-- One stage replaces the placeholders that stood in the text. -/
theorem replace_genuine (some : var.1 ≠ []) (fresh : var ∉ filled) (limit : Nat)
    (enough : (tokens.flatMap (Token.shown filled)).length ≤ limit) (genuine : Genuine filled var tokens) :
    var.2.intercalate (splitN (Text.splitList var.1) limit (tokens.flatMap (Token.shown filled))) =
      tokens.flatMap (Token.shown (filled ++ [var])) := by
  have length : 0 < var.1.length := List.length_pos_of_ne_nil some
  induction limit generalizing tokens with
  | zero =>
    have nothing : tokens.flatMap (Token.shown filled) = [] := List.eq_nil_of_length_eq_zero (Nat.le_zero.mp enough)
    have without : ∀ token ∈ tokens, token ≠ .hole var := by
      rintro token inside rfl
      have empty := List.flatMap_eq_nil_iff.mp nothing _ inside
      rw [shown_self fresh] at empty
      exact some empty
    rw [shown_more_all without,nothing]
    rfl
  | succ limit ih =>
    rw [splitN]
    split
    · next front back found =>
      obtain ⟨whole,_⟩ := splitList_at found
      obtain ⟨before,after,rfl,placed⟩ := genuine front back whole
      have behind : back = after.flatMap (Token.shown filled) := by
        rw [List.flatMap_append,List.flatMap_cons,shown_self fresh,placed,List.append_cancel_left_eq,
          List.append_cancel_left_eq] at whole
        exact whole.symm
      have shorter : (after.flatMap (Token.shown filled)).length ≤ limit := by
        rw [List.flatMap_append,List.flatMap_cons,shown_self fresh,List.length_append,List.length_append] at enough
        omega
      have rest := ih shorter (genuine_after some fresh genuine)
      rw [← behind] at rest
      rw [List.intercalate_cons_of_ne_nil (splitN_ne_nil _ limit back),rest,List.flatMap_append,List.flatMap_cons,
        shown_more_all (first_hole some fresh found placed),placed,List.append_assoc]
      have value : Token.shown (filled ++ [var]) (.hole var) = var.2 :=
        if_pos (List.mem_append_right filled (List.mem_singleton_self var))
      rw [value]
    · next missing =>
      have without : ∀ token ∈ tokens, token ≠ .hole var := by
        rintro token inside rfl
        obtain ⟨before,after,rfl⟩ := List.append_of_mem inside
        refine splitList_nowhere missing (before.flatMap (Token.shown filled)).length ?_
        rw [List.flatMap_append,List.flatMap_cons,shown_self fresh]
        refine ⟨?_,?_⟩
        · simp only [List.length_append]
          omega
        · rw [List.drop_left]
          exact List.prefix_append _ _
      rw [shown_more_all without]
      exact List.intercalate_singleton

end Stage

section Run

variable {vars : List Var}

theorem find_starts {text : List Char} {var : Var} (found : vars.find? (fun var => var.1.isPrefixOf text) = .some var) :
    var ∈ vars ∧ var.1 <+: text := by
  have starts := @List.find?_some _ (fun var : Var => var.1.isPrefixOf text) _ _ found
  exact ⟨List.mem_of_find?_eq_some found,List.isPrefixOf_iff_prefix.mp starts⟩

theorem holes_known {fuel : Nat} {text : List Char} {var : Var} (inside : .hole var ∈ readTokens vars fuel text) :
    var ∈ vars := by
  induction fuel generalizing text with
  | zero => cases inside
  | succ fuel ih =>
    cases text with
    | nil => cases inside
    | cons c text =>
      rw [readTokens] at inside
      split at inside
      · next found known =>
        rcases List.mem_cons.mp inside with same | later
        · cases same
          exact List.mem_of_find?_eq_some known
        · exact ih later
      · next unknown =>
        rcases List.mem_cons.mp inside with same | later
        · cases same
        · exact ih later

/-- Before any stage the tokens show the text. -/
theorem shown_nil (some : ∀ var ∈ vars, var.1 ≠ []) {fuel : Nat} {text : List Char} (enough : text.length ≤ fuel) :
    (readTokens vars fuel text).flatMap (Token.shown []) = text := by
  induction fuel generalizing text with
  | zero => rw [List.eq_nil_of_length_eq_zero (Nat.le_zero.mp enough)]; rfl
  | succ fuel ih =>
    cases text with
    | nil => rfl
    | cons c text =>
      have less : text.length ≤ fuel := Nat.le_of_succ_le_succ enough
      rw [readTokens]
      split
      · next found known =>
        obtain ⟨inside,back,whole⟩ := find_starts known
        have length : 0 < found.1.length := List.length_pos_of_ne_nil (some found inside)
        have sizes := congrArg List.length whole
        rw [List.length_append,List.length_cons] at sizes
        have dropped : (c :: text).drop found.1.length = back := by
          rw [← whole,List.drop_left]
        rw [dropped,List.flatMap_cons,ih (by omega)]
        exact whole
      · next unknown =>
        rw [List.flatMap_cons,ih less]
        rfl

/-- After all stages they show the values. -/
theorem shown_all (text : List Char) : (tokens vars text).flatMap (Token.shown vars) = simultaneous vars text := by
  refine List.flatMap_congr fun token inside => ?_
  cases token with
  | plain c => rfl
  | hole var => exact if_pos (holes_known inside)

/-- From a text on in which the first placeholders have been replaced. -/
theorem sequential_shown (some : ∀ var ∈ vars, var.1 ≠ []) (distinct : vars.Nodup) {text : List Char}
    (untouched : Untouched vars text) (rest : List Var) (filled : List Var) (order : vars = filled ++ rest) :
    sequential rest ((tokens vars text).flatMap (Token.shown filled)) = simultaneous vars text := by
  induction rest generalizing filled with
  | nil =>
    rw [List.append_nil] at order
    rw [← order]
    exact shown_all text
  | cons var rest ih =>
    have inside : var ∈ vars := by
      rw [order]
      exact List.mem_append_right filled List.mem_cons_self
    have fresh : var ∉ filled := by
      intro twice
      rw [order] at distinct
      exact (List.nodup_append.mp distinct).2.2 var twice var List.mem_cons_self rfl
    have stage : replaceAll var ((tokens vars text).flatMap (Token.shown filled)) =
        (tokens vars text).flatMap (Token.shown (filled ++ [var])) :=
      replace_genuine (some var inside) fresh _ (Nat.le_refl _) (untouched filled var rest order)
    have next : vars = (filled ++ [var]) ++ rest := by
      rw [List.append_assoc]
      exact order
    calc
      sequential (var :: rest) ((tokens vars text).flatMap (Token.shown filled)) =
          sequential rest (replaceAll var ((tokens vars text).flatMap (Token.shown filled))) := rfl
      _ = sequential rest ((tokens vars text).flatMap (Token.shown (filled ++ [var]))) := by rw [stage]
      _ = simultaneous vars text := ih (filled ++ [var]) next

/-- Where no value is taken for a placeholder, the stages come to the same as one pass. -/
theorem sequential_simultaneous (some : ∀ var ∈ vars, var.1 ≠ []) (distinct : vars.Nodup) {text : List Char}
    (untouched : Untouched vars text) : sequential vars text = simultaneous vars text := by
  have whole := sequential_shown some distinct untouched vars [] rfl
  rw [tokens,shown_nil some (Nat.le_refl _)] at whole
  exact whole

/-- No placeholder starts another one. -/
def PrefixFree (vars : List Var) : Prop := vars.Pairwise fun var var' => ¬ var.1 <+: var'.1 ∧ ¬ var'.1 <+: var.1

theorem PrefixFree.perm {order : List Var} (free : PrefixFree vars) (same : order.Perm vars) : PrefixFree order :=
  List.Pairwise.perm free same.symm fun apart => ⟨apart.2,apart.1⟩

/-- At most one placeholder starts at a place. -/
theorem find_starting (free : PrefixFree vars) {text : List Char} {var : Var} (inside : var ∈ vars) (starts : var.1 <+: text) :
    vars.find? (fun var => var.1.isPrefixOf text) = .some var := by
  induction vars with
  | nil => cases inside
  | cons first vars ih =>
    obtain ⟨apart,later⟩ := List.pairwise_cons.mp free
    rcases List.mem_cons.mp inside with rfl | inside
    · rw [List.find?_cons,List.isPrefixOf_iff_prefix.mpr starts]
    · have other : first.1.isPrefixOf text = false := by
        refine Bool.eq_false_iff.mpr fun both => ?_
        rcases List.prefix_or_prefix_of_prefix (List.isPrefixOf_iff_prefix.mp both) starts with short | long
        · exact (apart var inside).1 short
        · exact (apart var inside).2 long
      rw [List.find?_cons,other]
      exact ih later inside

theorem find_perm {order : List Var} (free : PrefixFree vars) (same : order.Perm vars) (text : List Char) :
    order.find? (fun var => var.1.isPrefixOf text) = vars.find? fun var => var.1.isPrefixOf text := by
  cases found : order.find? fun var => var.1.isPrefixOf text with
  | some var =>
    obtain ⟨inside,starts⟩ := find_starts found
    exact (find_starting free (same.mem_iff.mp inside) starts).symm
  | none =>
    refine (List.find?_eq_none.mpr fun var inside => ?_).symm
    exact List.find?_eq_none.mp found var (same.mem_iff.mpr inside)

/-- The order of the placeholders does not matter in one pass. -/
theorem simultaneous_perm {order : List Var} (free : PrefixFree vars) (same : order.Perm vars) (text : List Char) :
    simultaneous order text = simultaneous vars text := by
  have read (fuel : Nat) (text : List Char) : readTokens order fuel text = readTokens vars fuel text := by
    induction fuel generalizing text with
    | zero => rfl
    | succ fuel ih =>
      cases text with
      | nil => rfl
      | cons c text =>
        rw [readTokens,readTokens,find_perm free same]
        split <;> rw [ih]
  rw [simultaneous,simultaneous,tokens,tokens,read]

end Run
end Qdrust.Library.Substitution
