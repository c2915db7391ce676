import Qdrust.Library.Search
import Qdrust.Library.Words

/-! `str.split` and `str.rsplit` of the expressions, and Python's own. -/
namespace Qdrust.Expression.PythonSplit
open Library Words

/-- `trim_start`. -/
def trimStart (text : List Char) : List Char := text.dropWhile Text.whiteSpace

/-- `trim_end`. -/
def trimEnd (text : List Char) : List Char := text.rdropWhile Text.whiteSpace

/-- `splitn`. -/
def splitn (cut : List Char → Option (List Char × List Char)) : Nat → List Char → List (List Char)
  | 0, _ => []
  | count + 1, text => splitN cut count text

/-- `split`. A text has no more separators than characters. -/
def split (cut : List Char → Option (List Char × List Char)) (text : List Char) : List (List Char) :=
  splitN cut text.length text

/-- `rsplitn` and `rsplit` look for the separator from the right, and the last part is the first they give. -/
def fromEnd (splits : List Char → List (List Char)) (text : List Char) : List (List Char) :=
  (splits text.reverse).map List.reverse

/-- `split_whitespace`. -/
def splitWhitespace (text : List Char) : List (List Char) :=
  (split (cutAt Text.whiteSpace) text).filter fun part => !part.isEmpty

/-- The loop that takes a word and leaves the blanks behind it, while `left` parts are to be pushed. -/
def splitLoop : Nat → List Char → List (List Char)
  | 0, rest => [Text.trimList Text.whiteSpace rest]
  | left + 1, rest =>
    let trimmed := trimStart rest
    if trimmed.all fun c => !Text.whiteSpace c then [Text.trimList Text.whiteSpace trimmed]
    else trimmed.takeWhile (fun c => !Text.whiteSpace c) :: splitLoop left (trimmed.dropWhile fun c => !Text.whiteSpace c)

/-- A negative `maxsplit` is none. -/
def limited (maxsplit : Option Int) : Option Nat := (maxsplit.filter (0 ≤ ·)).map Int.toNat

/-- `python_split`. -/
def pythonSplit (text : List Char) (separator : Option (List Char)) (maxsplit : Option Int) (fromRight : Bool) :
    Except String (List (List Char)) :=
  match separator,limited maxsplit,fromRight with
  | some [],_,_ => .error "empty separator"
  | some separator,some maxsplit,false => .ok (splitn (Text.splitList separator) (maxsplit + 1) text)
  | some separator,some maxsplit,true => .ok (fromEnd (splitn (Text.splitList separator.reverse) (maxsplit + 1)) text).reverse
  | some separator,none,false => .ok (split (Text.splitList separator) text)
  | some separator,none,true => .ok (fromEnd (split (Text.splitList separator.reverse)) text)
  | none,some 0,_ => .ok [trimStart text]
  | none,some maxsplit,false => .ok (splitLoop maxsplit (trimStart text))
  | none,some maxsplit,true =>
    .ok ((fromEnd (splitn (cutAt Text.whiteSpace) (maxsplit + 1)) (trimEnd text)).filter fun part => !part.isEmpty).reverse
  | none,none,_ => .ok (splitWhitespace text)

/-- `str.isspace`: the separators U+001C to U+001F are blanks too. -/
def pythonSpace (c : Char) : Bool := Text.whiteSpace c || (0x1C ≤ c.toNat && c.toNat ≤ 0x1F)

/-- Python's list. Without a limit everything is split, and a text has no more separators or words than characters. -/
def strSplit (text : List Char) (separator : Option (List Char)) (maxsplit : Option Int) (fromRight : Bool) : List (List Char) :=
  let limit := (limited maxsplit).getD text.length
  match separator,fromRight with
  | some separator,false => splitN (Text.splitList separator) limit text
  | some separator,true => mirrored (splitN (Text.splitList separator.reverse) limit) text
  | none,false => words pythonSpace limit text
  | none,true => mirrored (words pythonSpace limit) text

theorem splitList_sound {separator text front back : List Char} (found : Text.splitList separator text = some (front,back)) :
    text = front ++ separator ++ back := by
  rw [List.append_assoc]
  exact (Search.splitList_at found).1

/-- Python's parts, with the separator between them, are the text. -/
theorem join_strSplit (text separator : List Char) (maxsplit : Option Int) (fromRight : Bool) :
    separator.intercalate (strSplit text (some separator) maxsplit fromRight) = text := by
  cases fromRight with
  | false => exact join_splitN (fun _ _ _ => splitList_sound) _ text
  | true => exact join_mirrored (fun _ _ _ => splitList_sound) _ text

/-- Where the code meets Python. -/
def Agrees (text : List Char) (separator : Option (List Char)) (maxsplit : Option Int) (fromRight : Bool) : Prop :=
  match separator,limited maxsplit,fromRight with
  | some _,none,true => (strSplit text separator maxsplit true).reverse = strSplit text separator maxsplit true
  | some _,_,_ => True
  | none,none,_ => ∀ c ∈ text, pythonSpace c = Text.whiteSpace c
  | none,some 0,false => (∃ c ∈ text, Text.whiteSpace c = false) ∧ Unmixed Text.whiteSpace pythonSpace 0 text
  | none,some 0,true => (∃ c ∈ text.head?, Text.whiteSpace c = false) ∧ ∃ c ∈ text.getLast?, pythonSpace c = false
  | none,some maxsplit,false => (∃ c ∈ text.getLast?, Text.whiteSpace c = false) ∧ Unmixed Text.whiteSpace pythonSpace maxsplit text
  | none,some maxsplit,true =>
    ((trimEnd text).countP Text.whiteSpace ≤ maxsplit ∨ Isolated Text.whiteSpace maxsplit (trimEnd text).reverse) ∧
      Unmixed Text.whiteSpace pythonSpace maxsplit (trimEnd text).reverse

theorem pythonSpace_of {c : Char} (blank : Text.whiteSpace c = true) : pythonSpace c = true := by
  rw [pythonSpace,blank,Bool.true_or]

theorem mirrored_inj {splits splits' : List (List Char)} :
    ((splits.map List.reverse).reverse = (splits'.map List.reverse).reverse) ↔ splits = splits' := by
  rw [List.reverse_inj]
  exact (List.map_injective_iff.mpr List.reverse_injective).eq_iff

section Loop

theorem getLast?_append_ne {front back : List Char} (some : back ≠ []) : (front ++ back).getLast? = back.getLast? := by
  rw [List.getLast?_append]
  cases last : back.getLast? with
  | none => exact absurd (List.getLast?_eq_none_iff.mp last) some
  | some c => rfl

theorem trimList_solid {text : List Char} (first : ∀ c ∈ text.head?, Text.whiteSpace c = false)
    (last : ∀ c ∈ text.getLast?, Text.whiteSpace c = false) : Text.trimList Text.whiteSpace text = text := by
  rw [Text.trimList,dropWhile_word first,List.rdropWhile_eq_self_iff]
  intro some
  rw [last _ (List.getLast?_eq_some_getLast some)]
  exact Bool.false_ne_true

theorem splitLoop_blank (left : Nat) {gap : List Char} (blank : ∀ c ∈ gap, Text.whiteSpace c = true) : splitLoop left gap = [[]] := by
  have nothing : gap.dropWhile Text.whiteSpace = [] := List.dropWhile_eq_nil_iff.mpr blank
  cases left with
  | zero => rw [splitLoop,Text.trimList,nothing]; rfl
  | succ left => rw [splitLoop,trimStart,nothing]; rfl

theorem splitLoop_word (left : Nat) {gap word : List Char} (blank : ∀ c ∈ gap, Text.whiteSpace c = true)
    (solid : ∀ c ∈ word, Text.whiteSpace c = false) : splitLoop left (gap ++ word) = [word] := by
  have first : ∀ c ∈ word.head?, Text.whiteSpace c = false := fun c first => solid c (List.mem_of_mem_head? first)
  have last : ∀ c ∈ word.getLast?, Text.whiteSpace c = false := fun c last => solid c (List.mem_of_mem_getLast? last)
  cases left with
  | zero =>
    rw [splitLoop,Text.trimList,dropWhile_gap blank,← Text.trimList,trimList_solid first last]
  | succ left =>
    have all : word.all (fun c => !Text.whiteSpace c) = true := List.all_eq_true.mpr fun c inside => by rw [solid c inside]; rfl
    rw [splitLoop,trimStart,dropWhile_gap blank,dropWhile_word first]
    rw [if_pos all,trimList_solid first last]

theorem splitLoop_more (left : Nat) {gap word back : List Char} (blank : ∀ c ∈ gap, Text.whiteSpace c = true) (some : word ≠ [])
    (solid : ∀ c ∈ word, Text.whiteSpace c = false) (ends : ∀ c ∈ back.head?, Text.whiteSpace c = true) (more : back ≠ []) :
    splitLoop (left + 1) (gap ++ (word ++ back)) = word :: splitLoop left back := by
  have stops : (word ++ back).all (fun c => !Text.whiteSpace c) = false := by
    obtain ⟨c,rest,rfl⟩ := List.exists_cons_of_ne_nil more
    simp [ends c rfl]
  rw [splitLoop,trimStart,dropWhile_gap blank,dropWhile_word (head_solid some solid)]
  rw [stops,if_neg Bool.false_ne_true,takeWhile_solid solid ends,dropWhile_solid solid ends]

/-- Where a text ends with no blank the loop splits it into words. -/
theorem splitLoop_words {left : Nat} {text : List Char} (last : ∃ c ∈ text.getLast?, Text.whiteSpace c = false) :
    splitLoop left text = words Text.whiteSpace left text := by
  induction left generalizing text with
  | zero =>
    cases segmented Text.whiteSpace text with
    | blank blank =>
      obtain ⟨c,there,clear⟩ := last
      rw [blank c (List.mem_of_mem_getLast? there)] at clear
      cases clear
    | @word gap word back blank some solid ends =>
      have nonempty := List.append_ne_nil_of_left_ne_nil some back
      have clear := @head_solid _ Text.whiteSpace word back some solid
      rw [getLast?_append_ne nonempty] at last
      obtain ⟨c,there,clear'⟩ := last
      have same := trimList_solid clear fun c' there' => by
        cases (Option.mem_def.mp there).symm.trans (Option.mem_def.mp there')
        exact clear'
      rw [words_zero blank nonempty clear,splitLoop,Text.trimList,dropWhile_gap blank,← Text.trimList,same]
  | succ left ih =>
    cases segmented Text.whiteSpace text with
    | blank blank =>
      obtain ⟨c,there,clear⟩ := last
      rw [blank c (List.mem_of_mem_getLast? there)] at clear
      cases clear
    | @word gap word back blank some solid ends =>
      rw [words_succ left blank some solid ends]
      by_cases more : back = []
      · subst more
        rw [List.append_nil,splitLoop_word (left + 1) blank solid,words_blank left (List.forall_mem_nil _)]
      · rw [getLast?_append_ne (List.append_ne_nil_of_right_ne_nil _ more),getLast?_append_ne more] at last
        rw [splitLoop_more left blank some solid ends more,ih last]

/-- Where it ends with a blank, or is empty, the last part is not Python's. -/
theorem splitLoop_other {left : Nat} {text : List Char} (last : ∀ c ∈ text.getLast?, Text.whiteSpace c = true) :
    splitLoop left text ≠ words pythonSpace left text := by
  induction left generalizing text with
  | zero =>
    intro same
    rw [splitLoop,words] at same
    split at same
    · cases same
    · next some =>
      have trimmed := (List.cons.inj same).1
      have ends := @getLast?_append_ne (text.takeWhile pythonSpace) _ some
      rw [List.takeWhile_append_dropWhile] at ends
      rw [Text.trimList] at trimmed
      have clear := List.rdropWhile_last_not Text.whiteSpace (text.dropWhile Text.whiteSpace) (by rw [trimmed]; exact some)
      simp only [trimmed] at clear
      exact clear (last _ (ends.trans (List.getLast?_eq_some_getLast some)))
  | succ left ih =>
    intro same
    cases segmented Text.whiteSpace text with
    | blank blank =>
      rw [splitLoop_blank _ blank,words_blank _ fun c inside => pythonSpace_of (blank c inside)] at same
      cases same
    | @word gap word back blank some solid ends =>
      by_cases more : back = []
      · subst more
        rw [List.append_nil,getLast?_append_ne some] at last
        have blank' := last _ (List.getLast?_eq_some_getLast some)
        rw [solid _ (List.getLast_mem some)] at blank'
        cases blank'
      · rw [getLast?_append_ne (List.append_ne_nil_of_right_ne_nil _ more),getLast?_append_ne more] at last
        rw [splitLoop_more left blank some solid ends more] at same
        have outside : ∀ c ∈ word, pythonSpace c = false := @words_early _ _ _ _ _ [] _ same.symm (Nat.succ_pos left)
        rw [words_succ left (fun c inside => pythonSpace_of (blank c inside)) some outside fun c first =>
          pythonSpace_of (ends c first)] at same
        exact ih last (List.cons.inj same).2

theorem splitLoop_trimmed (left : Nat) (text : List Char) : splitLoop (left + 1) (trimStart text) = splitLoop (left + 1) text := by
  have twice : trimStart (trimStart text) = trimStart text := List.dropWhile_idempotent _ _
  rw [splitLoop,splitLoop,twice]

theorem splitLoop_eq_iff (left : Nat) (text : List Char) :
    splitLoop left text = words pythonSpace left text ↔
      (∃ c ∈ text.getLast?, Text.whiteSpace c = false) ∧ Unmixed Text.whiteSpace pythonSpace left text := by
  by_cases last : ∃ c ∈ text.getLast?, Text.whiteSpace c = false
  · rw [splitLoop_words last,words_eq_iff fun c => pythonSpace_of,and_iff_right last]
  · refine iff_of_false (splitLoop_other fun c there => ?_) fun both => last both.1
    cases blank : Text.whiteSpace c with
    | true => rfl
    | false => exact absurd ⟨c,there,blank⟩ last

end Loop

section Cases

variable {text : List Char}

theorem turned_iff (text : List Char) (cut : List Char → Option (List Char × List Char)) :
    fromEnd (split cut) text = mirrored (splitN cut text.length) text ↔
      (mirrored (splitN cut text.length) text).reverse = mirrored (splitN cut text.length) text := by
  rw [fromEnd,split,List.length_reverse,mirrored,List.reverse_reverse]

theorem splitWhitespace_eq (text : List Char) : splitWhitespace text = allWords Text.whiteSpace text :=
  filled_all List.countP_le_length

theorem words_both (text : List Char) : mirrored (words pythonSpace text.length) text = words pythonSpace text.length text := by
  have turned : words pythonSpace text.length text.reverse = allWords pythonSpace text.reverse :=
    words_all (by rw [← List.length_reverse]; exact List.countP_le_length)
  rw [words_all List.countP_le_length,← allWords_reverse,mirrored,mirrored,turned]

theorem whitespace_iff (text : List Char) :
    splitWhitespace text = words pythonSpace text.length text ↔ ∀ c ∈ text, pythonSpace c = Text.whiteSpace c := by
  rw [splitWhitespace_eq,← words_all List.countP_le_length,words_eq_iff fun c => pythonSpace_of,
    unmixed_all (fun c => pythonSpace_of) (Nat.le_refl _)]

theorem whole_left_iff (text : List Char) :
    [trimStart text] = words pythonSpace 0 text ↔
      (∃ c ∈ text, Text.whiteSpace c = false) ∧ Unmixed Text.whiteSpace pythonSpace 0 text := by
  cases segmented Text.whiteSpace text with
  | blank blank =>
    rw [words_blank 0 fun c inside => pythonSpace_of (blank c inside)]
    refine iff_of_false (List.cons_ne_nil _ _) ?_
    rintro ⟨⟨c,inside,clear⟩,_⟩
    rw [blank c inside] at clear
    cases clear
  | @word gap word back blank some solid ends =>
    obtain ⟨c,rest,rfl⟩ := List.exists_cons_of_ne_nil some
    have content : ∃ c' ∈ gap ++ (c :: rest ++ back), Text.whiteSpace c' = false := ⟨c,by simp,solid c List.mem_cons_self⟩
    have start := words_zero blank (List.append_ne_nil_of_left_ne_nil some back) (head_solid some solid)
    rw [and_iff_right content,← words_eq_iff fun c => pythonSpace_of,start,trimStart,dropWhile_gap blank,
      dropWhile_word (head_solid some solid)]

theorem whole_right_iff (text : List Char) :
    [trimStart text] = mirrored (words pythonSpace 0) text ↔
      (∃ c ∈ text.head?, Text.whiteSpace c = false) ∧ ∃ c ∈ text.getLast?, pythonSpace c = false := by
  constructor
  · intro same
    rw [mirrored,words] at same
    split at same
    · cases same
    next some =>
    have turned : trimStart text = (text.reverse.dropWhile pythonSpace).reverse := (List.cons.inj same).1
    have whole : trimStart text ++ (text.reverse.takeWhile pythonSpace).reverse = text := by
      rw [turned,← List.reverse_append,List.takeWhile_append_dropWhile,List.reverse_reverse]
    obtain ⟨first,rest,starts⟩ := List.exists_cons_of_ne_nil (show trimStart text ≠ [] by simpa [turned] using some)
    have clear := head_dropWhile Text.whiteSpace text first (by rw [← trimStart,starts]; rfl)
    have head : text.head? = .some first := by rw [← whole,starts]; rfl
    -- The text begins with what is left of it, so nothing was trimmed.
    have untouched : trimStart text = text := dropWhile_word fun c there => by
      cases head.symm.trans there
      exact clear
    refine ⟨⟨first,head,clear⟩,?_⟩
    obtain ⟨last,others,ends⟩ := List.exists_cons_of_ne_nil some
    refine ⟨last,?_,head_dropWhile pythonSpace text.reverse last (by rw [ends]; rfl)⟩
    rw [← untouched,turned,ends,List.getLast?_reverse]
    rfl
  · rintro ⟨⟨first,starts,clear⟩,last,stops,clear'⟩
    have nonempty : text.reverse ≠ [] := by
      rw [List.reverse_ne_nil_iff]
      rintro rfl
      cases starts
    have begins : trimStart text = text := dropWhile_word fun c there => by
      cases (Option.mem_def.mp starts).symm.trans (Option.mem_def.mp there)
      exact clear
    have solid : ∀ c ∈ text.reverse.head?, pythonSpace c = false := fun c there => by
      rw [List.head?_reverse] at there
      cases (Option.mem_def.mp stops).symm.trans (Option.mem_def.mp there)
      exact clear'
    have ends : words pythonSpace 0 text.reverse = [text.reverse] := words_zero (List.forall_mem_nil _) nonempty solid
    rw [begins,mirrored,ends]
    simp

/-- Splitting from the right at single blanks. -/
theorem blanks_right_iff (maxsplit : Nat) (text : List Char) :
    ((fromEnd (splitn (cutAt Text.whiteSpace) (maxsplit + 1)) (trimEnd text)).filter fun part => !part.isEmpty).reverse =
        mirrored (words pythonSpace maxsplit) text ↔
      ((trimEnd text).countP Text.whiteSpace ≤ maxsplit ∨ Isolated Text.whiteSpace maxsplit (trimEnd text).reverse) ∧
        Unmixed Text.whiteSpace pythonSpace maxsplit (trimEnd text).reverse := by
  have trimmed : (trimEnd text).reverse = text.reverse.dropWhile Text.whiteSpace := List.reverse_reverse _
  have shorter : words pythonSpace maxsplit text.reverse = words pythonSpace maxsplit (trimEnd text).reverse := by
    have gap : ∀ c ∈ text.reverse.takeWhile Text.whiteSpace, pythonSpace c = true :=
      fun c inside => pythonSpace_of (List.mem_takeWhile_imp inside)
    have whole := words_gap maxsplit gap (text.reverse.dropWhile Text.whiteSpace)
    rwa [List.takeWhile_append_dropWhile,← trimmed] at whole
  have turned : (fromEnd (splitn (cutAt Text.whiteSpace) (maxsplit + 1)) (trimEnd text)).filter (fun part => !part.isEmpty) =
      (filled Text.whiteSpace maxsplit (trimEnd text).reverse).map List.reverse := by
    rw [fromEnd,splitn,filled,List.filter_map]
    congr 1
    refine List.filter_congr fun part _ => ?_
    rw [Function.comp_apply,List.isEmpty_reverse]
  rw [turned,mirrored,shorter,mirrored_inj,filled_eq_iff fun c => pythonSpace_of,List.countP_reverse]

end Cases

/-- When the list of the code is Python's. -/
theorem python_split_iff (text : List Char) {separator : Option (List Char)} (given : separator ≠ some []) (maxsplit : Option Int)
    (fromRight : Bool) :
    pythonSplit text separator maxsplit fromRight = .ok (strSplit text separator maxsplit fromRight) ↔
      Agrees text separator maxsplit fromRight := by
  have lists (list list' : List (List Char)) : (Except.ok list : Except String _) = .ok list' ↔ list = list' := by
    rw [Except.ok.injEq]
  unfold pythonSplit Agrees
  cases separator with
  | some separator =>
    obtain ⟨c,rest,rfl⟩ := List.exists_cons_of_ne_nil (show separator ≠ [] by rintro rfl; exact given rfl)
    unfold strSplit
    cases limited maxsplit with
    | some maxsplit => cases fromRight <;> exact iff_of_true rfl trivial
    | none =>
      cases fromRight with
      | false => exact iff_of_true rfl trivial
      | true => exact (lists _ _).trans (turned_iff text (Text.splitList (c :: rest).reverse))
  | none =>
    unfold strSplit
    cases limited maxsplit with
    | none =>
      cases fromRight with
      | false => exact (lists _ _).trans (whitespace_iff text)
      | true =>
        refine (lists _ _).trans ?_
        change splitWhitespace text = mirrored (words pythonSpace text.length) text ↔ _
        rw [words_both]
        exact whitespace_iff text
    | some maxsplit =>
      cases maxsplit with
      | zero =>
        cases fromRight with
        | false => exact (lists _ _).trans (whole_left_iff text)
        | true => exact (lists _ _).trans (whole_right_iff text)
      | succ maxsplit =>
        cases fromRight with
        | false =>
          refine (lists _ _).trans ?_
          rw [splitLoop_trimmed]
          exact splitLoop_eq_iff (maxsplit + 1) text
        | true => exact (lists _ _).trans (blanks_right_iff (maxsplit + 1) text)

theorem rsplit_comma : pythonSplit "a,b,c".toList (some [',']) (some 1) true = .ok ["a,b".toList,"c".toList] :=
  (python_split_iff "a,b,c".toList (by decide) (some 1) true).mpr trivial

/-- Without a limit the parts come from the right, in the order in which they were found. -/
theorem rsplit_backwards :
    (¬∀ text separator maxsplit fromRight, separator ≠ some [] →
      pythonSplit text separator maxsplit fromRight = .ok (strSplit text separator maxsplit fromRight)) ∧
    pythonSplit ['a',',','b'] (some [',']) none true = .ok [['b'],['a']] := by
  have found : pythonSplit ['a',',','b'] (some [',']) none true = .ok [['b'],['a']] := by decide
  refine ⟨fun claimed => ?_,found⟩
  have same := claimed ['a',',','b'] (some [',']) none true (by decide)
  rw [found] at same
  exact absurd same (by decide)

end Qdrust.Expression.PythonSplit
