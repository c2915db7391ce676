import Mathlib.Data.List.Find
import Mathlib.Data.List.Infix
import Qdrust.Library.Substitution

/-! Placeholders that begin with a mark which stands nowhere else in them. Replacing one after
the other is one pass over the text, unless a value is the mark and stands before the rest of a
placeholder. -/
namespace Qdrust.Library.Marked
open Search Words Substitution

section Steps

variable {var : Var} {vars : List Var}

theorem splitList_self (pattern rest : List Char) (some : pattern ≠ []) :
    Text.splitList pattern (pattern ++ rest) = .some ([],rest) := by
  obtain ⟨c,tail,rfl⟩ := List.exists_cons_of_ne_nil some
  have found : (c :: tail).isPrefixOf? (c :: (tail ++ rest)) = .some rest :=
    List.isPrefixOf?_eq_some_iff_append_eq.mpr rfl
  rw [List.cons_append,Text.splitList,found]

theorem splitList_skip {pattern text : List Char} {c : Char} (other : ¬pattern <+: c :: text) :
    Text.splitList pattern (c :: text) = (Text.splitList pattern text).map fun sides => (c :: sides.1,sides.2) := by
  rw [Text.splitList]
  cases found : pattern.isPrefixOf? (c :: text) with
  | none => rfl
  | some rest => exact absurd ⟨rest,List.isPrefixOf?_eq_some_iff_append_eq.mp found⟩ other

theorem splitN_fuel (some : var.1 ≠ []) {limit limit' : Nat} {text : List Char} (enough : text.length ≤ limit)
    (enough' : text.length ≤ limit') :
    splitN (Text.splitList var.1) limit text = splitN (Text.splitList var.1) limit' text := by
  induction limit generalizing limit' text with
  | zero =>
    rw [List.eq_nil_of_length_eq_zero (Nat.le_zero.mp enough)]
    refine (splitN_isolated _ limit' ?_).symm
    rw [Text.splitList,if_neg (by simpa using some)]
  | succ limit ih =>
    cases found : Text.splitList var.1 text with
    | none => rw [splitN_isolated _ _ found,splitN_isolated _ _ found]
    | some sides =>
      obtain ⟨front,back⟩ := sides
      have whole := congrArg List.length (splitList_at found).1
      have size := List.length_pos_of_ne_nil some
      rw [List.length_append,List.length_append] at whole
      obtain ⟨limit',rfl⟩ := Nat.exists_eq_add_of_lt (show 0 < limit' by omega)
      rw [splitN,splitN,found]
      dsimp only
      rw [ih (by omega) (show back.length ≤ 0 + limit' by omega)]

theorem replaceAll_nil : replaceAll var [] = [] := List.intercalate_singleton

theorem replaceAll_hole (some : var.1 ≠ []) (rest : List Char) :
    replaceAll var (var.1 ++ rest) = var.2 ++ replaceAll var rest := by
  have size := List.length_pos_of_ne_nil some
  unfold replaceAll
  obtain ⟨fuel,same⟩ := Nat.exists_eq_add_of_lt (show 0 < (var.1 ++ rest).length by rw [List.length_append]; omega)
  rw [same,splitN,splitList_self var.1 rest some]
  dsimp only
  rw [List.intercalate_cons_of_ne_nil (splitN_ne_nil _ _ _),List.nil_append]
  rw [List.length_append] at same
  rw [splitN_fuel some (show rest.length ≤ 0 + fuel by omega) (Nat.le_refl _)]

theorem replaceAll_plain (some : var.1 ≠ []) {c : Char} {text : List Char} (other : ¬var.1 <+: c :: text) :
    replaceAll var (c :: text) = c :: replaceAll var text := by
  unfold replaceAll
  cases found : Text.splitList var.1 text with
  | none =>
    have whole : Text.splitList var.1 (c :: text) = none := by rw [splitList_skip other,found]; rfl
    rw [splitN_isolated _ _ found,splitN_isolated _ _ whole,List.intercalate_singleton,List.intercalate_singleton]
  | some sides =>
    obtain ⟨front,back⟩ := sides
    have parts := congrArg List.length (splitList_at found).1
    have size := List.length_pos_of_ne_nil some
    rw [List.length_append,List.length_append] at parts
    obtain ⟨fuel,same⟩ := Nat.exists_eq_add_of_lt (show 0 < text.length by omega)
    rw [List.length_cons,same,splitN,splitList_skip other,found,splitN,found]
    change var.2.intercalate ((c :: front) :: splitN _ (0 + fuel + 1) back) = _
    dsimp only
    rw [List.intercalate_cons_of_ne_nil (splitN_ne_nil _ _ _),List.intercalate_cons_of_ne_nil (splitN_ne_nil _ _ _),
      splitN_fuel some (show back.length ≤ 0 + fuel + 1 by omega) (show back.length ≤ 0 + fuel by omega)]
    rfl

theorem readTokens_fuel (some : ∀ var ∈ vars, var.1 ≠ []) {fuel fuel' : Nat} {text : List Char} (enough : text.length ≤ fuel)
    (enough' : text.length ≤ fuel') : readTokens vars fuel text = readTokens vars fuel' text := by
  induction fuel generalizing fuel' text with
  | zero =>
    rw [List.eq_nil_of_length_eq_zero (Nat.le_zero.mp enough)]
    cases fuel' <;> rfl
  | succ fuel ih =>
    cases text with
    | nil => cases fuel' <;> rfl
    | cons c text =>
      rw [List.length_cons] at enough enough'
      obtain ⟨fuel',rfl⟩ := Nat.exists_eq_add_of_lt (show 0 < fuel' by omega)
      rw [readTokens,readTokens]
      split
      · next found known =>
        have size := List.length_pos_of_ne_nil (some found (find_starts known).1)
        have shorter : ((c :: text).drop found.1.length).length ≤ text.length := by
          rw [List.length_drop,List.length_cons]
          omega
        rw [ih (show _ ≤ fuel by omega) (show _ ≤ 0 + fuel' by omega)]
      · rw [ih (show _ ≤ fuel by omega) (show _ ≤ 0 + fuel' by omega)]

theorem sequential_cons (var : Var) (vars : List Var) (text : List Char) :
    sequential (var :: vars) text = sequential vars (replaceAll var text) := rfl

theorem simultaneous_hole (some : ∀ var ∈ vars, var.1 ≠ []) {c : Char} {text : List Char}
    (found : vars.find? (fun var => var.1.isPrefixOf (c :: text)) = .some var) :
    simultaneous vars (c :: text) = var.2 ++ simultaneous vars ((c :: text).drop var.1.length) := by
  have size := List.length_pos_of_ne_nil (some var (find_starts found).1)
  have shorter : ((c :: text).drop var.1.length).length ≤ text.length := by
    rw [List.length_drop,List.length_cons]
    omega
  unfold simultaneous tokens
  rw [List.length_cons,readTokens,found]
  dsimp only
  rw [List.flatMap_cons,readTokens_fuel some shorter (Nat.le_refl _)]
  rfl

theorem simultaneous_plain {c : Char} {text : List Char}
    (missing : vars.find? (fun var => var.1.isPrefixOf (c :: text)) = none) :
    simultaneous vars (c :: text) = c :: simultaneous vars text := by
  unfold simultaneous tokens
  rw [List.length_cons,readTokens,missing]
  rfl

end Steps

/-- Every placeholder is the mark and a body without it. -/
def Shaped (mark : Char) (vars : List Var) : Prop := ∀ var ∈ vars, ∃ body, var.1 = mark :: body ∧ mark ∉ body

section Stage

variable {mark : Char} {var : Var} {vars : List Var}

theorem Shaped.some (shaped : Shaped mark vars) : ∀ var ∈ vars, var.1 ≠ [] := by
  intro var inside
  obtain ⟨body,same,_⟩ := shaped var inside
  rw [same]
  exact List.cons_ne_nil _ _

/-- What has no mark is passed over. -/
theorem find_unmarked (shaped : Shaped mark vars) {c : Char} (other : c ≠ mark) (text : List Char) :
    vars.find? (fun var => var.1.isPrefixOf (c :: text)) = none := by
  refine List.find?_eq_none.mpr fun var inside starts => ?_
  obtain ⟨body,same,_⟩ := shaped var inside
  rw [List.isPrefixOf_iff_prefix,same,List.cons_prefix_cons] at starts
  exact other starts.1.symm

theorem simultaneous_body (shaped : Shaped mark vars) {body : List Char} (unmarked : mark ∉ body) (text : List Char) :
    simultaneous vars (body ++ text) = body ++ simultaneous vars text := by
  induction body with
  | nil => rfl
  | cons c body ih =>
    rw [List.mem_cons,not_or] at unmarked
    rw [List.cons_append,simultaneous_plain (find_unmarked shaped (Ne.symm unmarked.1) _),ih unmarked.2,List.cons_append]

variable (shape : ∃ body, var.1 = mark :: body ∧ mark ∉ body)
include shape

theorem shape_some : var.1 ≠ [] := by
  obtain ⟨body,same,_⟩ := shape
  rw [same]
  exact List.cons_ne_nil _ _

theorem unmarked_start {c : Char} (other : c ≠ mark) (text : List Char) : ¬var.1 <+: c :: text := by
  obtain ⟨body,same,_⟩ := shape
  rw [same,List.cons_prefix_cons]
  exact fun starts => other starts.1.symm

theorem replaceAll_body {body : List Char} (unmarked : mark ∉ body) (text : List Char) :
    replaceAll var (body ++ text) = body ++ replaceAll var text := by
  induction body with
  | nil => rfl
  | cons c body ih =>
    rw [List.mem_cons,not_or] at unmarked
    rw [List.cons_append,replaceAll_plain (shape_some shape) (unmarked_start shape (Ne.symm unmarked.1) _),ih unmarked.2,
      List.cons_append]

/-- A body stands at the front of a text with replacements exactly when it stood there before. -/
theorem body_replaced {value : Char} (single : var.2 = [value]) {body text : List Char} (unmarked : mark ∉ body)
    (foreign : value ∉ body) : body <+: replaceAll var text ↔ body <+: text := by
  induction text generalizing body with
  | nil => rw [replaceAll_nil]
  | cons c text ih =>
    cases body with
    | nil => exact ⟨fun _ => List.nil_prefix,fun _ => List.nil_prefix⟩
    | cons d body =>
      rw [List.mem_cons,not_or] at unmarked foreign
      by_cases starts : var.1 <+: c :: text
      · obtain ⟨rest,whole⟩ := starts
        obtain ⟨own,same,_⟩ := shape
        have head : mark = c := by
          rw [same] at whole
          exact (List.cons.inj whole).1
        rw [← whole,replaceAll_hole (shape_some ⟨own,same,‹_›⟩),single,whole,List.singleton_append,List.cons_prefix_cons,
          List.cons_prefix_cons]
        constructor
        · intro absurd
          exact (foreign.1 absurd.1.symm).elim
        · intro absurd
          exact (unmarked.1 (head.trans absurd.1.symm)).elim
      · rw [replaceAll_plain (shape_some shape) starts,List.cons_prefix_cons,List.cons_prefix_cons,ih unmarked.2 foreign.2]

omit shape in
/-- The mark begins nothing inside of a body. -/
theorem infix_body {body pattern text : List Char} (unmarked : mark ∉ body) :
    mark :: pattern <:+: body ++ text ↔ mark :: pattern <:+: text := by
  induction body with
  | nil => rfl
  | cons c body ih =>
    rw [List.mem_cons,not_or] at unmarked
    rw [List.cons_append,List.infix_cons_iff,List.cons_prefix_cons,ih unmarked.2]
    exact or_iff_right fun starts => unmarked.1 starts.1

end Stage

/-- What the letters of a text weigh. -/
def weigh (weight : Char → Nat) : List Char → Nat
  | [] => 0
  | c :: rest => weight c + weigh weight rest

theorem weigh_append (weight : Char → Nat) (front back : List Char) :
    weigh weight (front ++ back) = weigh weight front + weigh weight back := by
  induction front with
  | nil => exact (Nat.zero_add _).symm
  | cons c front ih => rw [List.cons_append,weigh,ih,weigh,Nat.add_assoc]

/-- The placeholder in front of the body of another one. -/
def Doubled (var : Var) (vars : List Var) (text : List Char) : Prop :=
  ∃ other ∈ vars, var.1 ++ other.1.tail <:+: text

section Stages

variable {mark value : Char} {var : Var} {vars : List Var} {weight : Char → Nat}

/-- As in one pass, or doubled and lighter. -/
def Staged (weight : Char → Nat) (mark value : Char) (var : Var) (vars : List Var) (text : List Char) : Prop :=
  (¬(value = mark ∧ Doubled var vars text) ∧ simultaneous vars (replaceAll var text) = simultaneous (var :: vars) text) ∨
  ((value = mark ∧ Doubled var vars text) ∧
    weigh weight (simultaneous vars (replaceAll var text)) < weigh weight (simultaneous (var :: vars) text))

theorem Staged.le {text : List Char} (staged : Staged weight mark value var vars text) :
    weigh weight (simultaneous vars (replaceAll var text)) ≤ weigh weight (simultaneous (var :: vars) text) := by
  rcases staged with ⟨_,same⟩ | ⟨_,less⟩
  · rw [same]
  · exact less.le

/-- From a rest of the text to the text, where both passes do the same before it. -/
theorem Staged.carry (front : List Char) {text whole : List Char} (staged : Staged weight mark value var vars text)
    (doubled : value = mark → (Doubled var vars whole ↔ Doubled var vars text))
    (left : simultaneous vars (replaceAll var whole) = front ++ simultaneous vars (replaceAll var text))
    (right : simultaneous (var :: vars) whole = front ++ simultaneous (var :: vars) text) :
    Staged weight mark value var vars whole := by
  unfold Staged
  rw [and_congr_right doubled,left,right]
  rcases staged with ⟨plain,same⟩ | ⟨both,less⟩
  · exact .inl ⟨plain,by rw [same]⟩
  · refine .inr ⟨both,?_⟩
    rw [weigh_append,weigh_append]
    exact Nat.add_lt_add_left less _

theorem doubled_carry {c : Char} {text rest : List Char} (other : ¬var.1 <+: c :: text)
    (same : ∀ pattern, var.1 ++ pattern <:+: text ↔ var.1 ++ pattern <:+: rest) :
    Doubled var vars (c :: text) ↔ Doubled var vars rest := by
  unfold Doubled
  refine exists_congr fun placeholder => and_congr_right fun _ => ?_
  rw [List.infix_cons_iff,same]
  exact or_iff_right fun starts => other ((List.prefix_append _ _).trans starts)

/-- A placeholder that is replaced before the others: as in one pass, or its value is the mark and came to stand before
the body of another one, which then weighs less than the mark. -/
theorem stage (shaped : Shaped mark (var :: vars)) (single : var.2 = [value]) (foreign : ∀ other ∈ vars, value ∉ other.1.tail)
    (light : value = mark → ∀ other ∈ vars, weigh weight other.2 < weight mark) (text : List Char) :
    Staged weight mark value var vars text := by
  have shape := shaped var List.mem_cons_self
  have others : Shaped mark vars := fun other inside => shaped other (List.mem_cons_of_mem _ inside)
  obtain ⟨own,ownShape,ownFree⟩ := shaped var List.mem_cons_self
  have bodies {other : Var} (inside : other ∈ vars) {c : Char} {text : List Char} :
      other.1 <+: c :: replaceAll var text ↔ other.1 <+: c :: text := by
    obtain ⟨body,same,free⟩ := others other inside
    have tail := foreign other inside
    rw [same,List.tail_cons] at tail
    rw [same,List.cons_prefix_cons,List.cons_prefix_cons,body_replaced shape single free tail]
  induction size : text.length using Nat.strongRecOn generalizing text with
  | ind size' ih =>
  cases text with
  | nil =>
    refine .inl ⟨fun both => ?_,by rw [replaceAll_nil]; rfl⟩
    obtain ⟨_,_,_,absurd⟩ := both
    rw [List.infix_nil,ownShape] at absurd
    cases absurd
  | cons c text =>
    by_cases starts : var.1 <+: c :: text
    · obtain ⟨rest,whole⟩ := starts
      have head : mark = c := by
        rw [ownShape] at whole
        exact (List.cons.inj whole).1
      have taken : (var :: vars).find? (fun other => other.1.isPrefixOf (c :: text)) = .some var :=
        List.find?_cons_of_pos (by rw [List.isPrefixOf_iff_prefix]; exact ⟨rest,whole⟩)
      have right : simultaneous (var :: vars) (c :: text) = [value] ++ simultaneous (var :: vars) rest := by
        rw [simultaneous_hole shaped.some taken,single,← whole,List.drop_left]
      have left : replaceAll var (c :: text) = value :: replaceAll var rest := by
        rw [← whole,replaceAll_hole (shape_some shape),single]
        rfl
      have shorter : rest.length < size' := by
        have sizes := congrArg List.length whole
        have some := List.length_pos_of_ne_nil (shape_some shape)
        rw [List.length_append] at sizes
        omega
      have inner (pattern : List Char) : var.1 ++ pattern <:+: c :: text ↔ pattern <+: rest ∨ var.1 ++ pattern <:+: rest := by
        rw [← whole,ownShape,List.cons_append,List.cons_append,List.infix_cons_iff,List.cons_prefix_cons,
          List.prefix_append_right_inj,infix_body ownFree]
        exact or_congr_left (and_iff_right rfl)
      cases found : vars.find? (fun other => other.1.isPrefixOf (value :: replaceAll var rest)) with
      | none =>
        refine (ih rest.length shorter rest rfl).carry [value] (fun marks => ?_) (by rw [left,simultaneous_plain found]; rfl)
          right
        refine exists_congr fun other => and_congr_right fun inside => ?_
        rw [inner]
        refine or_iff_right fun starts => List.find?_eq_none.mp found other inside ?_
        obtain ⟨body,otherShape,free⟩ := others other inside
        rw [List.isPrefixOf_iff_prefix,bodies inside,marks,otherShape,List.cons_prefix_cons]
        rw [otherShape] at starts
        exact ⟨rfl,starts⟩
      | some other =>
        obtain ⟨inside,begins⟩ := find_starts found
        obtain ⟨body,otherShape,free⟩ := others other inside
        obtain ⟨behind,parts⟩ := (bodies inside).mp begins
        rw [otherShape] at parts
        obtain ⟨marks,tail⟩ := List.cons.inj parts
        have both : rest = body ++ behind := tail.symm
        subst both
        have doubled : Doubled var vars (c :: text) := by
          refine ⟨other,inside,(inner _).mpr (.inl ?_)⟩
          rw [otherShape]
          exact List.prefix_append body behind
        have less : behind.length < size' := by
          rw [List.length_append] at shorter
          omega
        have later := (ih behind.length less behind rfl).le
        have lighter := light marks.symm other inside
        have dropped : (value :: (body ++ replaceAll var behind)).drop other.1.length = replaceAll var behind := by
          rw [otherShape,List.length_cons,List.drop_succ_cons,List.drop_left]
        rw [replaceAll_body shape free] at found left
        refine .inr ⟨⟨marks.symm,doubled⟩,?_⟩
        rw [left,simultaneous_hole others.some found,dropped,right,simultaneous_body shaped free,weigh_append,weigh_append,
          weigh_append]
        have own : weigh weight [value] = weight mark := by
          rw [← marks]
          rfl
        omega
    · have same : vars.find? (fun other => other.1.isPrefixOf (c :: replaceAll var text)) =
          vars.find? (fun other => other.1.isPrefixOf (c :: text)) :=
        List.find?_congr fun other inside => by
          rw [Bool.eq_iff_iff,List.isPrefixOf_iff_prefix,List.isPrefixOf_iff_prefix,bodies inside]
      have skipped : (var :: vars).find? (fun other => other.1.isPrefixOf (c :: text)) =
          vars.find? (fun other => other.1.isPrefixOf (c :: text)) :=
        List.find?_cons_of_neg (by rw [List.isPrefixOf_iff_prefix]; exact starts)
      cases found : vars.find? (fun other => other.1.isPrefixOf (c :: text)) with
      | none =>
        rw [found] at same skipped
        refine (ih text.length (by rw [← size]; exact Nat.lt_succ_self _) text rfl).carry [c]
          (fun _ => doubled_carry starts fun _ => Iff.rfl) ?_ ?_
        · rw [replaceAll_plain (shape_some shape) starts,simultaneous_plain same]
          rfl
        · rw [simultaneous_plain skipped]
          rfl
      | some other =>
        obtain ⟨inside,begins⟩ := find_starts found
        obtain ⟨body,otherShape,free⟩ := others other inside
        obtain ⟨rest,whole⟩ := begins
        rw [found] at same skipped
        rw [otherShape] at whole
        obtain ⟨rfl,tail⟩ := List.cons.inj whole
        have parts : text = body ++ rest := tail.symm
        subst parts
        have dropped (text : List Char) : (mark :: (body ++ text)).drop other.1.length = text := by
          rw [otherShape,List.length_cons,List.drop_succ_cons,List.drop_left]
        have replaced := replaceAll_body shape free rest
        refine (ih rest.length ?_ rest rfl).carry other.2 (fun _ => doubled_carry starts fun pattern => ?_) ?_ ?_
        · rw [← size,List.length_cons,List.length_append]
          omega
        · rw [ownShape]
          exact infix_body free
        · rw [replaceAll_plain (shape_some shape) starts,simultaneous_hole others.some same,replaced,dropped]
        · rw [simultaneous_hole shaped.some skipped,dropped]

/-- A placeholder with a value that is in no other one is replaced as in one pass. -/
theorem stage_foreign (shaped : Shaped mark (var :: vars)) (single : var.2 = [value]) (other : value ≠ mark)
    (foreign : ∀ other ∈ vars, value ∉ other.1.tail) (text : List Char) :
    simultaneous vars (replaceAll var text) = simultaneous (var :: vars) text := by
  have staged : Staged (fun _ => 0) mark value var vars text :=
    stage shaped single foreign (fun same => (other same).elim) text
  rcases staged with ⟨_,same⟩ | ⟨both,_⟩
  · exact same
  · exact (other both.1).elim

theorem simultaneous_none (text : List Char) : simultaneous [] text = text := by
  induction text with
  | nil => rfl
  | cons c text ih => rw [simultaneous_plain rfl,ih]

theorem sequential_foreign (shaped : Shaped mark vars) (values : ∀ var ∈ vars, ∃ value, var.2 = [value] ∧ value ≠ mark ∧
    ∀ other ∈ vars, value ∉ other.1.tail) (text : List Char) : sequential vars text = simultaneous vars text := by
  induction vars generalizing text with
  | nil => exact (simultaneous_none text).symm
  | cons var vars ih =>
    obtain ⟨⟨value,single,other,foreign⟩,rest⟩ := List.forall_mem_cons.mp values
    have tail : Shaped mark vars := fun later inside => shaped later (List.mem_cons_of_mem _ inside)
    have values : ∀ var ∈ vars, ∃ value, var.2 = [value] ∧ value ≠ mark ∧ ∀ other ∈ vars, value ∉ other.1.tail := by
      intro later inside
      obtain ⟨value,single,other,foreign⟩ := rest later inside
      exact ⟨value,single,other,(List.forall_mem_cons.mp foreign).2⟩
    rw [sequential_cons,ih tail values,stage_foreign shaped single other (List.forall_mem_cons.mp foreign).2]

/-- A pattern that no replacement touches stands where it stood before. -/
theorem infix_replaced (shape : ∃ body, var.1 = mark :: body ∧ mark ∉ body) (single : var.2 = [value]) (other : value ≠ mark)
    {pattern : List Char} (unmarked : mark ∉ pattern) (foreign : value ∉ pattern)
    (apart : ∀ rest, ¬pattern <+: var.1.tail ++ rest) (text : List Char) :
    mark :: pattern <:+: replaceAll var text ↔ mark :: pattern <:+: text := by
  obtain ⟨own,ownShape,ownFree⟩ := id shape
  induction size : text.length using Nat.strongRecOn generalizing text with
  | ind size' ih =>
  cases text with
  | nil => rw [replaceAll_nil]
  | cons c text =>
    by_cases starts : var.1 <+: c :: text
    · obtain ⟨rest,whole⟩ := starts
      have shorter : rest.length < size' := by
        have sizes := congrArg List.length whole
        have some := List.length_pos_of_ne_nil (shape_some shape)
        rw [List.length_append] at sizes
        omega
      have clash : ¬pattern <+: own ++ rest := by
        have separate := apart rest
        rw [ownShape,List.tail_cons] at separate
        exact separate
      rw [← whole,replaceAll_hole (shape_some shape),single,ownShape,List.singleton_append,List.cons_append,
        List.infix_cons_iff,List.infix_cons_iff,List.cons_prefix_cons,List.cons_prefix_cons,infix_body ownFree,
        ih rest.length shorter rest rfl]
      constructor
      · rintro (absurd | inside)
        · exact (other absurd.1.symm).elim
        · exact .inr inside
      · rintro (absurd | inside)
        · exact (clash absurd.2).elim
        · exact .inr inside
    · rw [replaceAll_plain (shape_some shape) starts,List.infix_cons_iff,List.infix_cons_iff,List.cons_prefix_cons,
        List.cons_prefix_cons,body_replaced shape single unmarked foreign,
        ih text.length (by rw [← size]; exact Nat.lt_succ_self _) text rfl]

end Stages

end Qdrust.Library.Marked
