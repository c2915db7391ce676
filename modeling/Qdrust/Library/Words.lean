import Mathlib.Data.List.DropRight
import Mathlib.Data.List.TakeWhile

/-! Texts that are split at separators or into words, a number of times at most. A split from
the right is one of the reversed text. -/
namespace Qdrust.Library.Words

variable {α : Type}

/-- At most `limit` cuts, from the left. -/
def splitN (cut : List α → Option (List α × List α)) : Nat → List α → List (List α)
  | 0, text => [text]
  | limit + 1, text =>
    match cut text with
    | some (front,back) => front :: splitN cut limit back
    | none => [text]

/-- Around the first element of the set. -/
def cutAt (space : α → Bool) (text : List α) : Option (List α × List α) :=
  match text.dropWhile (fun c => !space c) with
  | [] => none
  | _ :: back => some (text.takeWhile (fun c => !space c),back)

/-- The runs without blanks, the first `limit` of them. What follows is one more element, from its
first run on. -/
def words (space : α → Bool) : Nat → List α → List (List α)
  | 0, text => if text.dropWhile space = [] then [] else [text.dropWhile space]
  | limit + 1, text =>
    let rest := text.dropWhile space
    if rest = [] then []
    else rest.takeWhile (fun c => !space c) :: words space limit (rest.dropWhile fun c => !space c)

attribute [local simp] splitN words

/-- All runs without blanks. -/
def allWords (space : α → Bool) (text : List α) : List (List α) := (text.splitOnP space).filter fun word => !word.isEmpty

/-- What is split from the right. -/
def mirrored (split : List α → List (List α)) (text : List α) : List (List α) :=
  ((split text.reverse).map List.reverse).reverse

theorem splitN_isolated (cut : List α → Option (List α × List α)) (limit : Nat) {text : List α} (whole : cut text = none) :
    splitN cut limit text = [text] := by
  cases limit with
  | zero => rfl
  | succ limit => rw [splitN,whole]

theorem splitN_ne_nil (cut : List α → Option (List α × List α)) (limit : Nat) (text : List α) : splitN cut limit text ≠ [] := by
  cases limit with
  | zero => exact List.cons_ne_nil _ _
  | succ limit =>
    rw [splitN]
    split <;> exact List.cons_ne_nil _ _

/-- What is cut out between the parts is put back between them. -/
theorem join_splitN {cut : List α → Option (List α × List α)} {separator : List α}
    (cuts : ∀ text front back, cut text = some (front,back) → text = front ++ separator ++ back) (limit : Nat) (text : List α) :
    separator.intercalate (splitN cut limit text) = text := by
  induction limit generalizing text with
  | zero => exact List.intercalate_singleton
  | succ limit ih =>
    rw [splitN]
    split
    · next front back found =>
      rw [List.intercalate_cons_of_ne_nil (splitN_ne_nil cut limit back),ih,cuts text front back found,List.append_assoc]
    · exact List.intercalate_singleton

theorem join_append (separator : List α) {parts : List (List α)} (some : parts ≠ []) (last : List α) :
    separator.intercalate (parts ++ [last]) = separator.intercalate parts ++ (separator ++ last) := by
  induction parts with
  | nil => exact absurd rfl some
  | cons first parts ih =>
    by_cases single : parts = []
    · subst single
      simp [List.intercalate_cons_cons,List.intercalate_singleton]
    · rw [List.cons_append,List.intercalate_cons_of_ne_nil (by simp),List.intercalate_cons_of_ne_nil single,ih single]
      simp only [List.append_assoc]

/-- Parts that are turned with their order. -/
theorem join_turned (separator : List α) (parts : List (List α)) :
    separator.intercalate (parts.map List.reverse).reverse = (separator.reverse.intercalate parts).reverse := by
  induction parts with
  | nil => rfl
  | cons first parts ih =>
    by_cases single : parts = []
    · subst single
      rw [List.map_cons,List.map_nil,List.reverse_singleton,List.intercalate_singleton,List.intercalate_singleton]
    · rw [List.map_cons,List.reverse_cons,join_append separator (by simpa using single),ih,
        List.intercalate_cons_of_ne_nil single,List.reverse_append,List.reverse_append,List.reverse_reverse]

theorem join_mirrored {cut : List α → Option (List α × List α)} {separator : List α}
    (cuts : ∀ text front back, cut text = some (front,back) → text = front ++ separator.reverse ++ back) (limit : Nat)
    (text : List α) : separator.intercalate (mirrored (splitN cut limit) text) = text := by
  rw [mirrored,join_turned,join_splitN cuts,List.reverse_reverse]

section Segments

variable {space : α → Bool}

/-- The elements of the set alone, or a first word with what is around it. -/
inductive Segmented (space : α → Bool) : List α → Prop where
  | blank {gap : List α} (blank : ∀ c ∈ gap, space c = true) : Segmented space gap
  | word {gap word back : List α} (blank : ∀ c ∈ gap, space c = true) (some : word ≠ [])
    (solid : ∀ c ∈ word, space c = false) (ends : ∀ c ∈ back.head?, space c = true) : Segmented space (gap ++ (word ++ back))

theorem head_dropWhile (space : α → Bool) (text : List α) : ∀ c ∈ (text.dropWhile space).head?, space c = false := by
  intro c first
  have stopped := List.head?_dropWhile_not space text
  rw [Option.mem_def.mp first] at stopped
  simpa using stopped

theorem segmented (space : α → Bool) (text : List α) : Segmented space text := by
  have gap (c : α) (inside : c ∈ text.takeWhile space) : space c = true := List.mem_takeWhile_imp inside
  by_cases nothing : text.dropWhile space = []
  · exact .blank (List.dropWhile_eq_nil_iff.mp nothing)
  · have whole : text = text.takeWhile space ++ ((text.dropWhile space).takeWhile (fun c => !space c) ++
        (text.dropWhile space).dropWhile fun c => !space c) := by
      rw [List.takeWhile_append_dropWhile,List.takeWhile_append_dropWhile]
    rw [whole]
    refine .word gap ?_ (fun c inside => by simpa using List.mem_takeWhile_imp inside) ?_
    · obtain ⟨first,rest,same⟩ := List.exists_cons_of_ne_nil nothing
      have solid := head_dropWhile space text first (by rw [same]; rfl)
      rw [same,List.takeWhile_cons_of_pos (by rw [solid]; rfl)]
      exact List.cons_ne_nil _ _
    · intro c first
      simpa using head_dropWhile (fun c => !space c) (text.dropWhile space) c first

theorem dropWhile_gap {gap : List α} (blank : ∀ c ∈ gap, space c = true) (text : List α) :
    (gap ++ text).dropWhile space = text.dropWhile space := List.dropWhile_append_of_pos blank

theorem dropWhile_word {text : List α} (solid : ∀ c ∈ text.head?, space c = false) : text.dropWhile space = text := by
  cases text with
  | nil => rfl
  | cons first rest => exact List.dropWhile_cons_of_neg (by simp [solid first rfl])

theorem head_solid {word back : List α} (some : word ≠ []) (solid : ∀ c ∈ word, space c = false) :
    ∀ c ∈ (word ++ back).head?, space c = false := by
  obtain ⟨first,rest,rfl⟩ := List.exists_cons_of_ne_nil some
  rintro c ⟨⟩
  exact solid first List.mem_cons_self

theorem takeWhile_solid {word back : List α} (solid : ∀ c ∈ word, space c = false) (ends : ∀ c ∈ back.head?, space c = true) :
    (word ++ back).takeWhile (fun c => !space c) = word := by
  rw [List.takeWhile_append_of_pos fun c inside => by rw [solid c inside]; rfl]
  cases back with
  | nil => exact List.append_nil word
  | cons c back => rw [List.takeWhile_cons_of_neg (by simp [ends c rfl]),List.append_nil]

theorem dropWhile_solid {word back : List α} (solid : ∀ c ∈ word, space c = false) (ends : ∀ c ∈ back.head?, space c = true) :
    (word ++ back).dropWhile (fun c => !space c) = back := by
  rw [List.dropWhile_append_of_pos fun c inside => by rw [solid c inside]; rfl]
  cases back with
  | nil => rfl
  | cons c back => exact List.dropWhile_cons_of_neg (by simp [ends c rfl])

theorem words_blank (limit : Nat) {gap : List α} (blank : ∀ c ∈ gap, space c = true) : words space limit gap = [] := by
  have nothing : gap.dropWhile space = [] := List.dropWhile_eq_nil_iff.mpr blank
  cases limit with
  | zero => rw [words,if_pos nothing]
  | succ limit =>
    rw [words]
    exact if_pos nothing

theorem words_zero {gap text : List α} (blank : ∀ c ∈ gap, space c = true) (some : text ≠ [])
    (solid : ∀ c ∈ text.head?, space c = false) : words space 0 (gap ++ text) = [text] := by
  rw [words,dropWhile_gap blank,dropWhile_word solid,if_neg some]

theorem words_succ (limit : Nat) {gap word back : List α} (blank : ∀ c ∈ gap, space c = true) (some : word ≠ [])
    (solid : ∀ c ∈ word, space c = false) (ends : ∀ c ∈ back.head?, space c = true) :
    words space (limit + 1) (gap ++ (word ++ back)) = word :: words space limit back := by
  rw [words,dropWhile_gap blank,dropWhile_word (head_solid some solid),if_neg (List.append_ne_nil_of_left_ne_nil some _),
    takeWhile_solid solid ends,dropWhile_solid solid ends]

theorem words_word (limit : Nat) {word back : List α} (some : word ≠ []) (solid : ∀ c ∈ word, space c = false)
    (ends : ∀ c ∈ back.head?, space c = true) : words space (limit + 1) (word ++ back) = word :: words space limit back :=
  words_succ limit (List.forall_mem_nil _) some solid ends

theorem words_single (limit : Nat) {word : List α} (some : word ≠ []) (solid : ∀ c ∈ word, space c = false) :
    words space limit word = [word] := by
  cases limit with
  | zero =>
    refine words_zero (List.forall_mem_nil _) some fun c first => ?_
    exact solid c (List.mem_of_mem_head? first)
  | succ limit =>
    have whole := @words_word _ space limit word [] some solid nofun
    rwa [List.append_nil,words_blank limit (List.forall_mem_nil _)] at whole

theorem words_skip (limit : Nat) {c : α} (blank : space c = true) (text : List α) :
    words space limit (c :: text) = words space limit text := by
  have skipped : (c :: text).dropWhile space = text.dropWhile space := List.dropWhile_cons_of_pos blank
  cases limit with
  | zero => rw [words,words,skipped]
  | succ limit => rw [words,words,skipped]

theorem words_gap (limit : Nat) {gap : List α} (blank : ∀ c ∈ gap, space c = true) (text : List α) :
    words space limit (gap ++ text) = words space limit text := by
  induction gap with
  | nil => rfl
  | cons c gap ih =>
    rw [List.forall_mem_cons] at blank
    rw [List.cons_append,words_skip limit blank.1,ih blank.2]

/-- The first element begins with no blank. -/
theorem words_first {limit : Nat} {text first : List α} {others : List (List α)} (same : words space limit text = first :: others) :
    ∃ c ∈ first.head?, space c = false := by
  cases segmented space text with
  | blank blank =>
    rw [words_blank limit blank] at same
    cases same
  | @word gap word back blank some solid ends =>
    obtain ⟨c,rest,rfl⟩ := List.exists_cons_of_ne_nil some
    have clear := solid c List.mem_cons_self
    cases limit with
    | zero =>
      rw [words_zero blank (List.append_ne_nil_of_left_ne_nil some _) (head_solid some solid)] at same
      cases same
      exact ⟨c,rfl,clear⟩
    | succ limit =>
      rw [words_succ limit blank some solid ends] at same
      cases same
      exact ⟨c,rfl,clear⟩

/-- Only the element behind all splits has blanks. -/
theorem words_early {limit : Nat} {text last : List α} {before after : List (List α)}
    (same : words space limit text = before ++ last :: after) (early : before.length < limit) : ∀ c ∈ last, space c = false := by
  induction limit generalizing text before with
  | zero => cases early
  | succ limit ih =>
    cases segmented space text with
    | blank blank =>
      rw [words_blank _ blank] at same
      cases before <;> cases same
    | word blank some solid ends =>
      rw [words_succ limit blank some solid ends] at same
      cases before with
      | nil =>
        cases same
        exact solid
      | cons first before =>
        obtain ⟨_,rest⟩ := List.cons.inj same
        exact ih rest (Nat.lt_of_succ_lt_succ early)

/-- The elements up to the first of the set, if there is one. -/
theorem first_blank (space : α → Bool) (text : List α) :
    (∀ c ∈ text, space c = false) ∨
      ∃ word c back, text = word ++ c :: back ∧ (∀ c ∈ word, space c = false) ∧ space c = true := by
  induction text with
  | nil => exact .inl nofun
  | cons c text ih =>
    cases blank : space c with
    | true => exact .inr ⟨[],c,text,rfl,nofun,blank⟩
    | false =>
      rcases ih with solid | ⟨word,stop,back,rfl,solid,stops⟩
      · exact .inl (List.forall_mem_cons.mpr ⟨blank,solid⟩)
      · exact .inr ⟨c :: word,stop,back,rfl,List.forall_mem_cons.mpr ⟨blank,solid⟩,stops⟩

end Segments

section Classes

/-- Two sets agree on the runs that are split off, and on where what follows begins. -/
def Unmixed (narrow wide : α → Bool) : Nat → List α → Prop
  | 0, text => ∀ c ∈ (text.dropWhile narrow).head?, wide c = false
  | limit + 1, text =>
    (∀ c ∈ (text.dropWhile narrow).takeWhile (fun c => !narrow c), wide c = false) ∧
      Unmixed narrow wide limit ((text.dropWhile narrow).dropWhile fun c => !narrow c)

variable {narrow wide : α → Bool}

theorem unmixed_blank (limit : Nat) {gap : List α} (blank : ∀ c ∈ gap, narrow c = true) : Unmixed narrow wide limit gap := by
  induction limit generalizing gap with
  | zero =>
    rw [Unmixed,List.dropWhile_eq_nil_iff.mpr blank]
    exact nofun
  | succ limit ih =>
    rw [Unmixed,List.dropWhile_eq_nil_iff.mpr blank]
    exact ⟨nofun,ih nofun⟩

theorem unmixed_zero {gap text : List α} (blank : ∀ c ∈ gap, narrow c = true) (solid : ∀ c ∈ text.head?, narrow c = false) :
    Unmixed narrow wide 0 (gap ++ text) ↔ ∀ c ∈ text.head?, wide c = false := by
  rw [Unmixed,dropWhile_gap blank,dropWhile_word solid]

theorem unmixed_succ (limit : Nat) {gap word back : List α} (blank : ∀ c ∈ gap, narrow c = true) (some : word ≠ [])
    (solid : ∀ c ∈ word, narrow c = false) (ends : ∀ c ∈ back.head?, narrow c = true) :
    Unmixed narrow wide (limit + 1) (gap ++ (word ++ back)) ↔ (∀ c ∈ word, wide c = false) ∧ Unmixed narrow wide limit back := by
  rw [Unmixed,dropWhile_gap blank,dropWhile_word (head_solid some solid),takeWhile_solid solid ends,dropWhile_solid solid ends]

theorem unmixed_word (limit : Nat) {word back : List α} (some : word ≠ []) (solid : ∀ c ∈ word, narrow c = false)
    (ends : ∀ c ∈ back.head?, narrow c = true) :
    Unmixed narrow wide (limit + 1) (word ++ back) ↔ (∀ c ∈ word, wide c = false) ∧ Unmixed narrow wide limit back :=
  unmixed_succ limit (List.forall_mem_nil _) some solid ends

theorem unmixed_skip (limit : Nat) {c : α} (blank : narrow c = true) (text : List α) :
    Unmixed narrow wide limit (c :: text) ↔ Unmixed narrow wide limit text := by
  have skipped : (c :: text).dropWhile narrow = text.dropWhile narrow := List.dropWhile_cons_of_pos blank
  cases limit with
  | zero => rw [Unmixed,Unmixed,skipped]
  | succ limit => rw [Unmixed,Unmixed,skipped]

/-- Where everything is split the sets agree on the text. -/
theorem unmixed_all (contained : ∀ c, narrow c = true → wide c = true) {limit : Nat} {text : List α} (enough : text.length ≤ limit) :
    Unmixed narrow wide limit text ↔ ∀ c ∈ text, wide c = narrow c := by
  induction length : text.length using Nat.strongRecOn generalizing limit text with
  | ind length' ih =>
  rcases first_blank narrow text with solid | ⟨word,c,back,rfl,solid,blank⟩
  · by_cases empty : text = []
    · subst empty
      exact iff_of_true (unmixed_blank limit (List.forall_mem_nil _)) (List.forall_mem_nil _)
    · obtain ⟨limit,rfl⟩ := Nat.exists_eq_add_of_lt (Nat.lt_of_lt_of_le (List.length_pos_of_ne_nil empty) enough)
      have whole := @unmixed_word _ narrow wide (0 + limit) text [] empty solid nofun
      rw [List.append_nil] at whole
      rw [whole,and_iff_left (unmixed_blank _ (List.forall_mem_nil _))]
      exact forall₂_congr fun c inside => by rw [solid c inside]
  · rw [List.length_append,List.length_cons] at enough length
    obtain ⟨limit,rfl⟩ := Nat.exists_eq_add_of_lt (show 0 < limit by omega)
    have both : wide c = narrow c := (contained c blank).trans blank.symm
    by_cases empty : word = []
    · subst empty
      rw [List.nil_append,unmixed_skip _ blank,ih back.length (by omega) (by omega) rfl,List.forall_mem_cons,and_iff_right both]
    · rw [unmixed_word (0 + limit) empty solid (by rintro _ ⟨⟩; exact blank),unmixed_skip _ blank,
        ih back.length (by omega) (by have := List.length_pos_of_ne_nil empty; omega) rfl,List.forall_mem_append,
        List.forall_mem_cons,and_iff_right both]
      exact and_congr (forall₂_congr fun c inside => by rw [solid c inside]) Iff.rfl

/-- The sets split a text alike exactly when none of its words has an element of the wider one. -/
theorem words_eq_iff (contained : ∀ c, narrow c = true → wide c = true) (limit : Nat) (text : List α) :
    words narrow limit text = words wide limit text ↔ Unmixed narrow wide limit text := by
  induction limit generalizing text with
  | zero =>
    cases segmented narrow text with
    | blank blank =>
      rw [words_blank 0 blank,words_blank 0 fun c inside => contained c (blank c inside)]
      exact iff_of_true rfl (unmixed_blank 0 blank)
    | @word gap word back blank some solid ends =>
      have nonempty := List.append_ne_nil_of_left_ne_nil some back
      have clear := @head_solid _ narrow word back some solid
      rw [unmixed_zero blank clear,words_zero blank nonempty clear]
      constructor
      · intro same c first
        obtain ⟨c',first',outside⟩ := words_first same.symm
        cases (Option.mem_def.mp first).symm.trans (Option.mem_def.mp first')
        exact outside
      · intro outside
        exact (words_zero (fun c inside => contained c (blank c inside)) nonempty outside).symm
  | succ limit ih =>
    cases segmented narrow text with
    | blank blank =>
      rw [words_blank _ blank,words_blank _ fun c inside => contained c (blank c inside)]
      exact iff_of_true rfl (unmixed_blank _ blank)
    | @word gap word back blank some solid ends =>
      rw [unmixed_succ limit blank some solid ends,words_succ limit blank some solid ends,← ih]
      have wider := fun c inside => contained c (blank c inside)
      constructor
      · intro same
        have outside : ∀ c ∈ word, wide c = false := @words_early _ _ _ _ _ [] _ same.symm (Nat.succ_pos limit)
        rw [words_succ limit wider some outside fun c first => contained c (ends c first)] at same
        exact ⟨outside,(List.cons.inj same).2⟩
      · rintro ⟨outside,rest⟩
        rw [words_succ limit wider some outside fun c first => contained c (ends c first),rest]

end Classes

section Whole

variable {space : α → Bool}

theorem allWords_nil : allWords space [] = [] := rfl

theorem allWords_solid {word : List α} (some : word ≠ []) (solid : ∀ c ∈ word, space c = false) : allWords space word = [word] := by
  rw [allWords,List.splitOnP_eq_singleton solid,List.filter_cons_of_pos (by simpa using some),List.filter_nil]

theorem allWords_append (front back : List α) {c : α} (blank : space c = true) :
    allWords space (front ++ c :: back) = allWords space front ++ allWords space back := by
  rw [allWords,List.splitOnP_append_cons front back blank,List.filter_append]
  rfl

theorem allWords_skip {c : α} (blank : space c = true) (text : List α) : allWords space (c :: text) = allWords space text :=
  allWords_append [] text blank

theorem allWords_reverse (text : List α) : mirrored (allWords space) text = allWords space text := by
  induction length : text.length using Nat.strongRecOn generalizing text with
  | ind length' ih =>
  rcases first_blank space text with solid | ⟨word,c,back,rfl,solid,blank⟩
  · by_cases empty : text = []
    · subst empty
      rfl
    · have turned : ∀ c ∈ text.reverse, space c = false := fun c inside => solid c (List.mem_reverse.mp inside)
      rw [mirrored,allWords_solid (by simpa using empty) turned,allWords_solid empty solid]
      simp
  · have before := ih word.length (by rw [← length,List.length_append,List.length_cons]; omega) word rfl
    have behind := ih back.length (by rw [← length,List.length_append,List.length_cons]; omega) back rfl
    unfold mirrored at before behind ⊢
    rw [List.reverse_append,List.reverse_cons,List.append_assoc,List.singleton_append,allWords_append _ _ blank,
      allWords_append _ _ blank,List.map_append,List.reverse_append,before,behind]

theorem countP_solid {word : List α} (solid : ∀ c ∈ word, space c = false) : word.countP space = 0 :=
  List.countP_eq_zero.mpr fun c inside => by simp [solid c inside]

theorem countP_blank (word back : List α) {c : α} (blank : space c = true) :
    (word ++ c :: back).countP space = word.countP space + back.countP space + 1 := by
  rw [List.countP_append,List.countP_cons_of_pos blank]
  omega

/-- A word has an element, and no blank. -/
theorem allWords_solid_of {text word : List α} (inside : word ∈ allWords space text) : word ≠ [] ∧ ∀ c ∈ word, space c = false := by
  induction length : text.length using Nat.strongRecOn generalizing text with
  | ind length' ih =>
  rcases first_blank space text with solid | ⟨front,c,back,rfl,solid,blank⟩
  · by_cases empty : text = []
    · subst empty
      cases inside
    · rw [allWords_solid empty solid,List.mem_singleton] at inside
      subst inside
      exact ⟨empty,solid⟩
  · rw [List.length_append,List.length_cons] at length
    rw [allWords_append front back blank,List.mem_append] at inside
    rcases inside with inside | inside
    · exact ih front.length (by omega) inside rfl
    · exact ih back.length (by omega) inside rfl

/-- The words hold what is no blank, in its order. -/
theorem flatten_allWords (text : List α) : (allWords space text).flatten = text.filter fun c => !space c := by
  induction length : text.length using Nat.strongRecOn generalizing text with
  | ind length' ih =>
  rcases first_blank space text with solid | ⟨front,c,back,rfl,solid,blank⟩
  · have all : text.filter (fun c => !space c) = text := List.filter_eq_self.mpr fun c inside => by rw [solid c inside]; rfl
    rw [all]
    by_cases empty : text = []
    · subst empty
      rfl
    · rw [allWords_solid empty solid,List.flatten_singleton]
  · rw [List.length_append,List.length_cons] at length
    rw [allWords_append front back blank,List.flatten_append,ih front.length (by omega) front rfl,ih back.length (by omega) back rfl,
      List.filter_append,List.filter_cons_of_neg (by rw [blank]; exact Bool.false_ne_true)]

/-- As many splits as there are blanks split everything. -/
theorem words_all {limit : Nat} {text : List α} (enough : text.countP space ≤ limit) :
    words space limit text = allWords space text := by
  induction length : text.length using Nat.strongRecOn generalizing limit text with
  | ind length' ih =>
  rcases first_blank space text with solid | ⟨word,c,back,rfl,solid,blank⟩
  · by_cases empty : text = []
    · subst empty
      rw [words_blank limit (List.forall_mem_nil _)]
      rfl
    · rw [words_single limit empty solid,allWords_solid empty solid]
  · rw [countP_blank word back blank,countP_solid solid] at enough
    rw [List.length_append,List.length_cons] at length
    obtain ⟨limit,rfl⟩ := Nat.exists_eq_add_of_lt (show 0 < limit by omega)
    rw [allWords_append word back blank]
    by_cases empty : word = []
    · subst empty
      rw [List.nil_append,words_skip _ blank,ih back.length (by omega) (by omega) rfl]
      rfl
    · rw [words_word (0 + limit) empty solid (by rintro _ ⟨⟩; exact blank),words_skip _ blank,
        ih back.length (by omega) (by omega) rfl,allWords_solid empty solid]
      rfl

end Whole

section Cuts

variable {space : α → Bool}

/-- The parts that are not empty, when every blank counts as a split. -/
def filled (space : α → Bool) (limit : Nat) (text : List α) : List (List α) :=
  (splitN (cutAt space) limit text).filter fun part => !part.isEmpty

/-- The first blanks stand alone, and none is at the start. -/
def Isolated (space : α → Bool) : Nat → List α → Prop
  | 0, text => ∀ c ∈ text.head?, space c = false
  | limit + 1, text =>
    (∀ c ∈ text.head?, space c = false) ∧ Isolated space limit (text.dropWhile fun c => !space c).tail

theorem cutAt_solid {text : List α} (solid : ∀ c ∈ text, space c = false) : cutAt space text = none := by
  rw [cutAt,List.dropWhile_eq_nil_iff.mpr fun c inside => by rw [solid c inside]; rfl]

theorem cutAt_blank {word : List α} (solid : ∀ c ∈ word, space c = false) {c : α} (blank : space c = true) (back : List α) :
    cutAt space (word ++ c :: back) = some (word,back) := by
  have ends : ∀ first ∈ (c :: back).head?, space first = true := by
    rintro _ ⟨⟩
    exact blank
  rw [cutAt,dropWhile_solid solid ends,takeWhile_solid solid ends]

theorem filled_solid (limit : Nat) {text : List α} (solid : ∀ c ∈ text, space c = false) :
    filled space limit text = if text = [] then [] else [text] := by
  rw [filled,splitN_isolated _ limit (cutAt_solid solid)]
  cases text with
  | nil => rfl
  | cons c text => rfl

theorem filled_blank (limit : Nat) {word : List α} (solid : ∀ c ∈ word, space c = false) {c : α} (blank : space c = true)
    (back : List α) :
    filled space (limit + 1) (word ++ c :: back) = (if word = [] then [] else [word]) ++ filled space limit back := by
  rw [filled,splitN,cutAt_blank solid blank]
  cases word with
  | nil => rfl
  | cons c word => rfl

theorem filled_all {limit : Nat} {text : List α} (enough : text.countP space ≤ limit) :
    filled space limit text = allWords space text := by
  induction limit generalizing text with
  | zero =>
    have solid : ∀ c ∈ text, space c = false := fun c inside => by
      simpa using List.countP_eq_zero.mp (Nat.le_zero.mp enough) c inside
    rw [filled_solid 0 solid]
    split
    · next empty => rw [empty,allWords_nil]
    · next some => exact (allWords_solid some solid).symm
  | succ limit ih =>
    rcases first_blank space text with solid | ⟨word,c,back,rfl,solid,blank⟩
    · rw [filled_solid _ solid]
      split
      · next empty => rw [empty,allWords_nil]
      · next some => exact (allWords_solid some solid).symm
    · rw [countP_blank word back blank] at enough
      rw [filled_blank limit solid blank,ih (by omega),allWords_append word back blank]
      split
      · next empty => rw [empty,allWords_nil]
      · next some => rw [allWords_solid some solid]

/-- Where blanks are left, the last part has one. -/
theorem filled_rest {limit : Nat} {text : List α} (more : limit < text.countP space) :
    ∃ before last, filled space limit text = before ++ [last] ∧ before.length ≤ limit ∧ ∃ c ∈ last, space c = true := by
  induction limit generalizing text with
  | zero =>
    obtain ⟨c,inside,blank⟩ := List.countP_pos_iff.mp more
    refine ⟨[],text,?_,Nat.le_refl 0,c,inside,blank⟩
    rw [filled,splitN,List.filter_cons_of_pos (by simpa using List.ne_nil_of_mem inside),List.filter_nil,List.nil_append]
  | succ limit ih =>
    rcases first_blank space text with solid | ⟨word,c,back,rfl,solid,blank⟩
    · rw [countP_solid solid] at more
      cases more
    · rw [countP_blank word back blank,countP_solid solid] at more
      obtain ⟨before,last,same,short,some⟩ := ih (show limit < back.countP space by omega)
      refine ⟨(if word = [] then [] else [word]) ++ before,last,?_,?_,some⟩
      · rw [filled_blank limit solid blank,same,List.append_assoc]
      · rw [List.length_append]
        have single : (if word = [] then [] else [word]).length ≤ 1 := by
          split <;> simp
        omega

theorem filled_isolated {limit : Nat} {text : List α} (isolated : Isolated space limit text) :
    filled space limit text = words space limit text := by
  induction limit generalizing text with
  | zero =>
    by_cases empty : text = []
    · subst empty
      rfl
    · have whole : words space 0 text = [text] := words_zero (List.forall_mem_nil _) empty isolated
      rw [whole,filled,splitN,List.filter_cons_of_pos (by simpa using empty),List.filter_nil]
  | succ limit ih =>
    rcases first_blank space text with solid | ⟨word,c,back,rfl,solid,blank⟩
    · rw [filled_solid _ solid]
      split
      · next empty => rw [empty,words_blank _ (List.forall_mem_nil _)]
      · next some => exact (words_single _ some solid).symm
    · have ends : ∀ first ∈ (c :: back).head?, space first = true := by
        rintro _ ⟨⟩
        exact blank
      obtain ⟨start,rest⟩ := isolated
      rw [dropWhile_solid solid ends,List.tail_cons] at rest
      have some : word ≠ [] := by
        rintro rfl
        rw [start c rfl] at blank
        cases blank
      rw [filled_blank limit solid blank,if_neg some,ih rest,words_word limit some solid ends,words_skip limit blank]
      rfl

section Classes

variable {narrow wide : α → Bool}

/-- A text that begins with a blank loses a split to it. -/
theorem filled_wasted (contained : ∀ c, narrow c = true → wide c = true) {limit : Nat} {c : α} {back : List α}
    (blank : narrow c = true) (more : limit < (c :: back).countP narrow) :
    filled narrow limit (c :: back) ≠ words wide limit (c :: back) := by
  intro same
  cases limit with
  | zero =>
    rw [filled,splitN,List.filter_cons_of_pos rfl,List.filter_nil] at same
    obtain ⟨_,⟨⟩,clear⟩ := words_first same.symm
    rw [contained c blank] at clear
    cases clear
  | succ limit =>
    rw [List.countP_cons_of_pos blank] at more
    obtain ⟨before,last,parts,short,c',inside,blank'⟩ := filled_rest (Nat.lt_of_succ_lt_succ more)
    have shifted := filled_blank limit (List.forall_mem_nil _) blank back
    rw [List.nil_append,if_pos rfl,List.nil_append,parts] at shifted
    have clear := words_early (same.symm.trans shifted) (Nat.lt_succ_of_le short) c' inside
    rw [contained c' blank'] at clear
    cases clear

theorem filled_crowded (contained : ∀ c, narrow c = true → wide c = true) {limit : Nat} {text : List α}
    (more : limit < text.countP narrow) (crowded : ¬Isolated narrow limit text) : filled narrow limit text ≠ words wide limit text := by
  induction limit generalizing text with
  | zero =>
    cases text with
    | nil => cases more
    | cons c back =>
      cases blank : narrow c with
      | true => exact filled_wasted contained blank more
      | false => exact absurd (show Isolated narrow 0 (c :: back) by rintro _ ⟨⟩; exact blank) crowded
  | succ limit ih =>
    rcases first_blank narrow text with solid | ⟨word,c,back,rfl,solid,blank⟩
    · rw [countP_solid solid] at more
      cases more
    by_cases empty : word = []
    · subst empty
      exact filled_wasted contained blank more
    intro same
    have ends : ∀ first ∈ (c :: back).head?, narrow first = true := by
      rintro _ ⟨⟩
      exact blank
    rw [filled_blank limit solid blank,if_neg empty,List.singleton_append] at same
    -- The first word is one for both sets, so they have the same to split behind it.
    have outside : ∀ c ∈ word, wide c = false := @words_early _ _ _ _ _ [] _ same.symm (Nat.succ_pos limit)
    rw [words_word limit empty outside fun c first => contained c (ends c first),words_skip limit (contained c blank)] at same
    rw [countP_blank word back blank,countP_solid solid] at more
    refine ih (by omega) (fun isolated => crowded ⟨head_solid empty solid,?_⟩) (List.cons.inj same).2
    rwa [dropWhile_solid solid ends]

/-- Splits at single blanks are splits into words exactly when all blanks are split at or the first stand
alone, and the sets agree. -/
theorem filled_eq_iff (contained : ∀ c, narrow c = true → wide c = true) (limit : Nat) (text : List α) :
    filled narrow limit text = words wide limit text ↔
      (text.countP narrow ≤ limit ∨ Isolated narrow limit text) ∧ Unmixed narrow wide limit text := by
  rw [← words_eq_iff contained]
  by_cases enough : text.countP narrow ≤ limit
  · rw [filled_all enough,words_all enough,and_iff_right (.inl enough)]
  by_cases isolated : Isolated narrow limit text
  · rw [filled_isolated isolated,and_iff_right (.inr isolated)]
  · refine iff_of_false (filled_crowded contained (Nat.lt_of_not_le enough) isolated) ?_
    rintro ⟨few | alone,_⟩
    · exact enough few
    · exact isolated alone

end Classes
end Cuts
end Qdrust.Library.Words
