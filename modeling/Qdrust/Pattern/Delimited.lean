import Qdrust.Library.Backtrack

/-! A pattern between two slashes, with its flags. The code looks for the last slash; QD
matches `^/(.*?)/([gimsu]*)$`. -/
namespace Qdrust.Pattern
open Library.Backtrack

structure QdFlags where
  /-- Python's `re.findall` rather than `re.search`. -/
  global : Bool
  caseInsensitive : Bool
  multiLine : Bool
  dotMatchesNewLine : Bool
deriving DecidableEq

/-- `QdFlags::default`. -/
def QdFlags.default : QdFlags := ⟨false,false,false,false⟩

/-- `u` is accepted and changes nothing. -/
def QdFlags.parse (flags : List Char) : QdFlags :=
  ⟨flags.contains 'g',flags.contains 'i',flags.contains 'm',flags.contains 's'⟩

/-- `"gimsu".contains(flag)`. -/
def qdFlag (flag : Char) : Bool := ['g','i','m','s','u'].contains flag

/-- `rfind('/')`: what is before the last slash, and what is behind it. -/
def splitLast : List Char → Option (List Char × List Char)
  | [] => none
  | c :: rest =>
    match splitLast rest with
    | some (body,flags) => some (c :: body,flags)
    | none => if c = '/' then some ([],rest) else none

/-- `split_qd_regex`. -/
def splitQdRegex (pattern : List Char) : Option (List Char × QdFlags) :=
  if pattern.head? = some '/' then
    match splitLast pattern.tail with
    | some (body,flags) => if flags.all qdFlag then some (body,.parse flags) else none
    | none => none
  else none

/-- `qd_pattern`. A pattern that is not delimited carries no flags. -/
def qdPattern (pattern : List Char) : List Char × QdFlags :=
  (splitQdRegex pattern).getD (pattern,.default)

/-- `^/(.*?)/([gimsu]*)$`. -/
def delimited : List Item :=
  [.one (· == '/'),.many true (· != '\n'),.one (· == '/'),.many false qdFlag,.stop]

/-- The `flags |=` for one letter. -/
def QdFlags.with (flags : QdFlags) (letter : Char) : QdFlags :=
  if letter = 'g' then { flags with global := true }
  else if letter = 'i' then { flags with caseInsensitive := true }
  else if letter = 'm' then { flags with multiLine := true }
  else if letter = 's' then { flags with dotMatchesNewLine := true }
  else flags

/-- What QD reads: the first group, and the flags of the second. -/
def qdReads (pattern : List Char) : Option (List Char × QdFlags) :=
  match run delimited pattern with
  | some [body,letters] => some (body,letters.foldl QdFlags.with .default)
  | _ => none

theorem splitLast_none {text : List Char} : splitLast text = none ↔ '/' ∉ text := by
  induction text with
  | nil => exact iff_of_true rfl List.not_mem_nil
  | cons c text ih =>
    rw [splitLast,List.mem_cons,not_or]
    cases later : splitLast text with
    | some pair =>
      refine iff_of_false (Option.some_ne_none _) fun without => ?_
      rw [ih.mpr without.2] at later
      cases later
    | none =>
      have without := ih.mp later
      simp only [ite_eq_right_iff,Option.some_ne_none,imp_false]
      exact ⟨fun other => ⟨fun same => other same.symm,without⟩,fun both same => both.1 same.symm⟩

theorem splitLast_append {body flags : List Char} (without : '/' ∉ flags) :
    splitLast (body ++ '/' :: flags) = some (body,flags) := by
  induction body with
  | nil =>
    rw [List.nil_append,splitLast,splitLast_none.mpr without]
    rfl
  | cons c body ih => rw [List.cons_append,splitLast,ih]

theorem splitLast_sound {text body flags : List Char} (found : splitLast text = some (body,flags)) :
    text = body ++ '/' :: flags ∧ '/' ∉ flags := by
  induction text generalizing body with
  | nil => cases found
  | cons c text ih =>
    rw [splitLast] at found
    cases later : splitLast text with
    | some pair =>
      rw [later] at found
      obtain ⟨rfl,rfl⟩ := Prod.mk.inj (Option.some.inj found)
      obtain ⟨rfl,without⟩ := ih later
      exact ⟨rfl,without⟩
    | none =>
      rw [later] at found
      simp only [Option.ite_none_right_eq_some,Option.some.injEq,Prod.mk.injEq] at found
      obtain ⟨rfl,rfl,rfl⟩ := found
      exact ⟨rfl,splitLast_none.mp later⟩

theorem flag_ordinary {letter : Char} (flag : qdFlag letter = true) : letter ≠ '/' ∧ letter ≠ '\n' := by
  constructor <;> rintro rfl <;> exact absurd flag (by decide)

theorem flags_ordinary {letters : List Char} (flags : letters.all qdFlag = true) : '/' ∉ letters ∧ '\n' ∉ letters :=
  have ordinary := List.all_eq_true.mp flags
  ⟨fun inside => (flag_ordinary (ordinary _ inside)).1 rfl,fun inside => (flag_ordinary (ordinary _ inside)).2 rfl⟩

/-- The code takes every pattern with flags alone behind its last slash. -/
theorem splitQdRegex_iff {pattern body : List Char} {flags : QdFlags} :
    splitQdRegex pattern = some (body,flags) ↔
      ∃ letters, pattern = '/' :: (body ++ '/' :: letters) ∧ letters.all qdFlag = true ∧ flags = .parse letters := by
  constructor
  · intro read
    unfold splitQdRegex at read
    split at read
    · next first =>
      split at read
      · next found =>
        obtain ⟨whole,_⟩ := splitLast_sound found
        split at read
        · next all =>
          obtain ⟨rfl,rfl⟩ := Prod.mk.inj (Option.some.inj read)
          refine ⟨_,?_,all,rfl⟩
          rw [← whole]
          exact (List.cons_head?_tail first).symm
        · cases read
      · cases read
    · cases read
  · rintro ⟨letters,rfl,all,rfl⟩
    unfold splitQdRegex
    rw [if_pos List.head?_cons,List.tail_cons,splitLast_append (flags_ordinary all).1]
    exact if_pos all

/-- The flags, and the end of the pattern or the line feed before it. -/
theorem run_flags {text : List Char} {captures : List (List Char)} :
    run [.many false qdFlag,.stop] text = some captures ↔
      ∃ letters ending, text = letters ++ ending ∧ letters.all qdFlag = true ∧ (ending = [] ∨ ending = ['\n']) ∧
        captures = [letters] := by
  have cuts (r : List (List Char)) :
      Cut qdFlag (fun taken rest => (run [.stop] rest).map (taken :: ·)) [] text r ↔
        ∃ letters ending, text = letters ++ ending ∧ letters.all qdFlag = true ∧ (ending = [] ∨ ending = ['\n']) ∧
          r = [letters] := by
    unfold Cut
    refine exists_congr fun letters => exists_congr fun ending => and_congr Iff.rfl (and_congr List.all_eq_true.symm ?_)
    dsimp only
    rw [run_stop]
    by_cases last : ending = [] ∨ ending = ['\n']
    · rw [if_pos last,run_nil,List.nil_append,Option.map_some,Option.some.injEq]
      exact ⟨fun same => ⟨last,same.symm⟩,fun both => both.2.symm⟩
    · rw [if_neg last]
      exact iff_of_false (fun none => by cases none) fun both => last both.1
  rw [run_many,← cuts]
  refine repeated_iff false fun r r' first second => ?_
  obtain ⟨letters,ending,rfl,all,last,rfl⟩ := (cuts r).mp first
  obtain ⟨letters',ending',same,all',last',rfl⟩ := (cuts r').mp second
  have front {letters ending : List Char} (all : letters.all qdFlag = true) (last : ending = [] ∨ ending = ['\n']) :
      (letters ++ ending).takeWhile qdFlag = letters := by
    rw [List.takeWhile_append_of_pos (List.all_eq_true.mp all)]
    rcases last with rfl | rfl
    · exact List.append_nil letters
    · exact List.append_nil letters
  rw [← front all last,same,front all' last']

theorem run_slash {items : List Item} {text : List Char} {captures : List (List Char)} :
    run (.one (· == '/') :: items) text = some captures ↔ ∃ rest, text = '/' :: rest ∧ run items rest = some captures := by
  cases text with
  | nil =>
    rw [run]
    exact iff_of_false nofun nofun
  | cons c rest =>
    rw [run_one]
    by_cases slash : c = '/'
    · subst slash
      rw [if_pos (beq_self_eq_true '/')]
      exact ⟨fun found => ⟨rest,rfl,found⟩,fun ⟨_,same,found⟩ => (List.cons.inj same).2 ▸ found⟩
    · rw [if_neg (by rwa [beq_iff_eq])]
      exact iff_of_false nofun fun ⟨_,same,_⟩ => slash (List.cons.inj same).1

/-- A body on one line and its flags. A line feed that ends the text is not part of them. -/
def Parted (text : List Char) (captures : List (List Char)) : Prop :=
  ∃ body letters ending, text = body ++ '/' :: (letters ++ ending) ∧ '\n' ∉ body ∧ letters.all qdFlag = true ∧
    (ending = [] ∨ ending = ['\n']) ∧ captures = [body,letters]

theorem parted_unique {text : List Char} {captures captures' : List (List Char)} (first : Parted text captures)
    (second : Parted text captures') : captures = captures' := by
  obtain ⟨body,letters,ending,rfl,_,all,last,rfl⟩ := first
  obtain ⟨body',letters',ending',same,_,all',last',rfl⟩ := second
  have behind {letters ending : List Char} (all : letters.all qdFlag = true) (last : ending = [] ∨ ending = ['\n']) :
      '/' ∉ letters ++ ending := by
    rw [List.mem_append,not_or]
    refine ⟨(flags_ordinary all).1,?_⟩
    rcases last with rfl | rfl <;> decide
  have found := @splitLast_append body _ (behind all last)
  rw [same,splitLast_append (behind all' last')] at found
  obtain ⟨rfl,rest⟩ := Prod.mk.inj (Option.some.inj found)
  have captured := run_flags.mpr ⟨letters,ending,rfl,all,last,rfl⟩
  rw [← rest,run_flags.mpr ⟨letters',ending',rfl,all',last',rfl⟩] at captured
  rw [(List.cons.inj (Option.some.inj captured)).1]

theorem run_delimited {pattern : List Char} {captures : List (List Char)} :
    run delimited pattern = some captures ↔ ∃ text, pattern = '/' :: text ∧ Parted text captures := by
  have cuts (text : List Char) (r : List (List Char)) :
      Cut (· != '\n') (fun taken rest => (run [.one (· == '/'),.many false qdFlag,.stop] rest).map (taken :: ·)) [] text r ↔
        Parted text r := by
    constructor
    · rintro ⟨body,back,rfl,line,found⟩
      obtain ⟨captures,matched,rfl⟩ := Option.map_eq_some_iff.mp found
      obtain ⟨rest,rfl,flags⟩ := run_slash.mp matched
      obtain ⟨letters,ending,rfl,all,last,rfl⟩ := run_flags.mp flags
      exact ⟨body,letters,ending,rfl,fun inside => absurd (line _ inside) (by decide),all,last,rfl⟩
    · rintro ⟨body,letters,ending,rfl,line,all,last,rfl⟩
      refine ⟨body,_,rfl,fun c inside => bne_iff_ne.mpr fun same => line (same ▸ inside),?_⟩
      exact Option.map_eq_some_iff.mpr ⟨_,run_slash.mpr ⟨_,rfl,run_flags.mpr ⟨letters,ending,rfl,all,last,rfl⟩⟩,rfl⟩
  rw [delimited,run_slash]
  refine exists_congr fun text => and_congr Iff.rfl ?_
  rw [run_many,← cuts]
  exact repeated_iff true fun r r' first second => parted_unique ((cuts text r).mp first) ((cuts text r').mp second)

theorem foldl_with (letters : List Char) (flags : QdFlags) :
    letters.foldl QdFlags.with flags =
      ⟨flags.global || letters.contains 'g',flags.caseInsensitive || letters.contains 'i',
        flags.multiLine || letters.contains 'm',flags.dotMatchesNewLine || letters.contains 's'⟩ := by
  induction letters generalizing flags with
  | nil => simp
  | cons letter letters ih =>
    rw [List.foldl_cons,ih]
    simp only [List.contains_cons]
    unfold QdFlags.with
    split
    · next same => subst same; simp
    split
    · next same => subst same; simp
    split
    · next same => subst same; simp
    split
    · next same => subst same; simp
    · next g i m s => simp [beq_false_of_ne (Ne.symm g),beq_false_of_ne (Ne.symm i),beq_false_of_ne (Ne.symm m),beq_false_of_ne (Ne.symm s)]

theorem foldl_parse (letters : List Char) : letters.foldl QdFlags.with .default = .parse letters := by
  rw [foldl_with]
  rfl

theorem qdReads_iff {pattern body : List Char} {flags : QdFlags} :
    qdReads pattern = some (body,flags) ↔
      ∃ letters ending, pattern = '/' :: (body ++ '/' :: (letters ++ ending)) ∧ '\n' ∉ body ∧
        letters.all qdFlag = true ∧ (ending = [] ∨ ending = ['\n']) ∧ flags = .parse letters := by
  constructor
  · intro read
    unfold qdReads at read
    split at read
    · next captured =>
      obtain ⟨_,rfl,body,letters,ending,rfl,line,all,last,same⟩ := run_delimited.mp captured
      rw [List.cons.injEq,List.cons.injEq] at same
      obtain ⟨rfl,rfl,_⟩ := same
      obtain ⟨rfl,rfl⟩ := Prod.mk.inj (Option.some.inj read)
      exact ⟨_,ending,rfl,line,all,last,foldl_parse _⟩
    · cases read
  · rintro ⟨letters,ending,rfl,line,all,last,rfl⟩
    unfold qdReads
    rw [run_delimited.mpr ⟨_,rfl,body,letters,ending,rfl,line,all,last,rfl⟩]
    exact congrArg (fun flags => some (body,flags)) (foldl_parse letters)

/-- The code and QD read a pattern alike but for line feeds: one within the body, which only the
code allows, and one behind the flags, which only QD does. -/
theorem split_qd_regex_iff (pattern : List Char) :
    splitQdRegex pattern = qdReads pattern ↔
      (∀ body letters, letters.all qdFlag = true → pattern = '/' :: (body ++ '/' :: letters) → '\n' ∉ body) ∧
        ∀ body letters, letters.all qdFlag = true → pattern = '/' :: (body ++ '/' :: (letters ++ ['\n'])) → '\n' ∈ body := by
  constructor
  · intro same
    constructor
    · intro body letters all whole
      have taken := splitQdRegex_iff.mpr ⟨letters,whole,all,rfl⟩
      rw [same] at taken
      obtain ⟨_,_,_,line,_⟩ := qdReads_iff.mp taken
      exact line
    · intro body letters all whole
      by_contra line
      have taken := qdReads_iff.mpr ⟨letters,['\n'],whole,line,all,.inr rfl,rfl⟩
      rw [← same,splitQdRegex_iff] at taken
      obtain ⟨letters',whole',all',_⟩ := taken
      rw [whole,List.cons.injEq,List.append_cancel_left_eq,List.cons.injEq] at whole'
      obtain ⟨_,_,rfl⟩ := whole'
      exact (flags_ordinary all').2 (List.mem_append_right _ (List.mem_singleton_self _))
  · rintro ⟨within,behind⟩
    refine Option.ext fun ⟨body,flags⟩ => ?_
    rw [splitQdRegex_iff,qdReads_iff]
    constructor
    · rintro ⟨letters,whole,all,rfl⟩
      exact ⟨letters,[],by rw [List.append_nil]; exact whole,within body letters all whole,all,.inl rfl,rfl⟩
    · rintro ⟨letters,ending,whole,line,all,last,rfl⟩
      rcases last with rfl | rfl
      · rw [List.append_nil] at whole
        exact ⟨letters,whole,all,rfl⟩
      · exact absurd (behind body letters all whole) line

theorem trailing_line_feed : ¬∀ pattern, splitQdRegex pattern = qdReads pattern := by
  intro agree
  have differ : splitQdRegex ['/','a','/','g','\n'] ≠ qdReads ['/','a','/','g','\n'] := by decide
  exact differ (agree _)

/-- QD reads these as patterns without flags. -/
example : qdPattern "/a\nb/i".toList = ("a\nb".toList,.parse ['i']) ∧ qdReads "/a\nb/i".toList = none := by decide

end Qdrust.Pattern
