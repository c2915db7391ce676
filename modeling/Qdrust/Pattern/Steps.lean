import Qdrust.Library.Checked
import Qdrust.Library.Text
import Qdrust.Pattern.Python

/-! What a step of the translation reads, and what Python makes of those characters. -/
namespace Qdrust.Pattern
open Expression

/-- The marks of the characters a step reads. -/
def Piece.marks (piece : Piece) : List Mark :=
  ⟨piece.inClass,piece.step.counted⟩ :: List.replicate (piece.step.length - 1) ⟨piece.inClass,false⟩

def marksOf (pieces : List Piece) (final : Scan) : List Mark :=
  pieces.flatMap Piece.marks ++ [⟨final.inClass,false⟩]

theorem marksOf_cons (piece : Piece) (pieces : List Piece) (final : Scan) :
    marksOf (piece :: pieces) final = piece.marks ++ marksOf pieces final := by
  simp [marksOf]

/-! What Python makes of a run of characters. -/
section Reads

/-- A character that is a member of a class and nothing special elsewhere. -/
def ordinary (c : Char) : Bool := !("\\[]()#^\n".toList.contains c)

variable (tables : CharTables)

/-- Python reads on from one place to the next and notes `marks`; the readings agree between. -/
structure Reads (skip : Nat) (scan : PythonScan) (text : List Char) (marks : List Mark)
    (skip' : Nat) (scan' : PythonScan) (text' : List Char) : Prop where
  marked : pythonMarks scan text = marks ++ pythonMarks scan' text'
  plain : plainFrom tables skip scan text = plainFrom tables skip' scan' text'

variable {tables}

theorem Reads.trans {skip skip' skip'' : Nat} {scan scan' scan'' : PythonScan} {text text' text'' : List Char}
    {marks marks' : List Mark} (first : Reads tables skip scan text marks skip' scan' text')
    (second : Reads tables skip' scan' text' marks' skip'' scan'' text'') :
    Reads tables skip scan text (marks ++ marks') skip'' scan'' text'' := by
  constructor
  · rw [first.marked,second.marked,List.append_assoc]
  · rw [first.plain,second.plain]

variable (tables)

theorem reads_skipped (skip : Nat) (scan : PythonScan) (c : Char) (rest : List Char) :
    Reads tables (skip + 1) scan (c :: rest) [scan.mark c rest] skip (pythonStep scan c rest) rest :=
  ⟨rfl,rfl⟩

variable {tables} in
theorem reads_plain {scan : PythonScan} {c : Char} {rest : List Char}
    (plain : plainHere tables scan c rest = true) :
    Reads tables 0 scan (c :: rest) [scan.mark c rest] (readWithHere tables scan c rest)
      (pythonStep scan c rest) rest := by
  constructor
  · rfl
  · simp [plainFrom,plain]

theorem plainHere_other (scan : PythonScan) {c : Char} (rest : List Char) (bracket : c ≠ '[')
    (parenthesis : c ≠ '(') : plainHere tables scan c rest = true := by
  unfold plainHere
  cases scan.mode <;> simp [bracket,parenthesis]

theorem readWithHere_other (scan : PythonScan) {c : Char} (rest : List Char) (parenthesis : c ≠ '(') :
    readWithHere tables scan c rest = 0 := by
  simp [readWithHere,parenthesis]

theorem mark_other (scan : PythonScan) {c : Char} (rest : List Char) (parenthesis : c ≠ '(') :
    scan.mark c rest = ⟨scan.mode.inside,false⟩ := by
  simp [PythonScan.mark,parenthesis]

theorem reads_other (scan : PythonScan) {c : Char} (rest : List Char) (bracket : c ≠ '[') (parenthesis : c ≠ '(') :
    Reads tables 0 scan (c :: rest) [⟨scan.mode.inside,false⟩] 0 (pythonStep scan c rest) rest := by
  have read := reads_plain (plainHere_other tables scan rest bracket parenthesis)
  rwa [mark_other scan rest parenthesis,readWithHere_other tables scan rest parenthesis] at read

/-- Python is past the head of a class, or in none. -/
structure Settled (scan : PythonScan) : Prop where
  awake : scan.escaped = false
  started : scan.mode ≠ .classStart
  negated : scan.mode ≠ .classNegated

theorem ordinary_ne {c : Char} (plain : ordinary c = true) :
    c ≠ '\\' ∧ c ≠ '[' ∧ c ≠ ']' ∧ c ≠ '(' ∧ c ≠ ')' ∧ c ≠ '#' ∧ c ≠ '\n' := by
  refine ⟨?_,?_,?_,?_,?_,?_,?_⟩ <;> (intro same; rw [same] at plain; exact absurd plain (by decide))

theorem pythonStep_ordinary {scan : PythonScan} {c : Char} (settled : Settled scan) (plain : ordinary c = true)
    (rest : List Char) : pythonStep scan c rest = scan := by
  obtain ⟨mode,escaped,verbose,outer⟩ := scan
  obtain ⟨awake,started,negated⟩ := settled
  obtain ⟨backslash,opens,closes,parenthesis,closed,hash,line⟩ := ordinary_ne plain
  cases mode <;> simp_all [pythonStep]

theorem reads_ordinary_one (skip : Nat) {scan : PythonScan} {c : Char} (settled : Settled scan)
    (plain : ordinary c = true) (rest : List Char) :
    Reads tables skip scan (c :: rest) [⟨scan.mode.inside,false⟩] (skip - 1) scan rest := by
  obtain ⟨_,bracket,_,parenthesis,_⟩ := ordinary_ne plain
  cases skip with
  | zero =>
    have read := reads_other tables scan rest bracket parenthesis
    rwa [pythonStep_ordinary settled plain] at read
  | succ skip =>
    have read := reads_skipped tables skip scan c rest
    rwa [pythonStep_ordinary settled plain,mark_other scan rest parenthesis] at read

theorem reads_ordinary {chunk : List Char} (skip : Nat) {scan : PythonScan} (settled : Settled scan)
    (plain : ∀ c ∈ chunk, ordinary c = true) (rest : List Char) :
    Reads tables skip scan (chunk ++ rest) (List.replicate chunk.length ⟨scan.mode.inside,false⟩)
      (skip - chunk.length) scan rest := by
  induction chunk generalizing skip with
  | nil => exact ⟨rfl,rfl⟩
  | cons c chunk ih =>
    have first := reads_ordinary_one tables skip settled (plain c (by simp)) (chunk ++ rest)
    have others := ih (skip - 1) (fun other member => plain other (by simp [member]))
    have both := first.trans others
    rwa [Nat.sub_sub,Nat.add_comm 1] at both

end Reads

/-! What a step of the translation reads. -/
section Steps

/-- What stands between the braces of a repetition. -/
inductive RepetitionText : List Char → Prop where
  | exact {digits : List Char} (nonempty : digits ≠ []) (all : ∀ c ∈ digits, c.isDigit = true) : RepetitionText digits
  | range (minimum maximum : List Char) (all : ∀ c ∈ minimum, c.isDigit = true)
      (more : ∀ c ∈ maximum, c.isDigit = true) : RepetitionText (minimum ++ ',' :: maximum)

def BeginsRepetition (text : List Char) : Prop :=
  ∃ inner rest, text = '\x7b' :: (inner ++ '\x7d' :: rest) ∧ RepetitionText inner

variable {tables : CharTables}

/-- Ordinary, and no brace. -/
def inert (c : Char) : Bool := !("\\[]()#^\n\x7b".toList.contains c)

theorem inert_of {holds : Char → Bool} (special : ("\\[]()#^\n\x7b".toList.all fun c => !holds c) = true) {c : Char}
    (held : holds c = true) : inert c = true := by
  cases member : "\\[]()#^\n\x7b".toList.contains c with
  | false => exact congrArg not member
  | true =>
    have fails := List.all_eq_true.mp special c (List.contains_iff_mem.mp member)
    rw [held] at fails
    cases fails

theorem inert_ordinary {c : Char} (plain : inert c = true) : ordinary c = true := by
  have apart : "\\[]()#^\n\x7b".toList.contains c = false := by simpa [inert] using plain
  rw [ordinary,Bool.not_eq_true',Bool.eq_false_iff]
  intro member
  rw [Bool.eq_false_iff] at apart
  apply apart
  rw [List.contains_iff_mem] at member ⊢
  exact List.mem_append_left ['\x7b'] member

theorem inert_ne {c : Char} (plain : inert c = true) : c ≠ '\\' ∧ c ≠ '\x7b' := by
  constructor <;> (rintro rfl; exact absurd plain (by decide))

theorem digit_inert {c : Char} (digit : c.isDigit = true) : inert c = true := inert_of rfl digit

theorem nameChar_inert {c : Char} (name : nameChar tables c = true) : inert c = true := inert_of rfl name

theorem octalSpan_le (digits : List Char) (inClass : Bool) {span : Nat}
    (octal : octalSpan digits inClass = some span) : 1 ≤ span ∧ span ≤ digits.length := by
  have bound : (digits.takeWhile octalDigit).length ≤ digits.length := (List.takeWhile_prefix _).length_le
  unfold octalSpan at octal
  cases digits with
  | nil => cases octal
  | cons first rest =>
    simp only [List.length_cons] at *
    split_ifs at octal <;> simp at octal <;> omega

theorem numberedEscape_octal {digits : List Char} {inClass : Bool} {written : List Char} {span : Nat}
    (read : pythonNumberedEscape digits inClass = .ok (.octal written span)) :
    1 ≤ span ∧ span ≤ digits.length := by
  unfold pythonNumberedEscape at read
  cases octal : octalSpan digits inClass with
  | none => simp [octal] at read
  | some size =>
    simp only [octal] at read
    split_ifs at read
    cases read
    exact octalSpan_le digits inClass octal

/-- A front no longer than the run of digits a text starts with. -/
theorem take_digits {text : List Char} {span : Nat} (few : span ≤ (text.takeWhile Char.isDigit).length) :
    ∀ c ∈ text.take span, c.isDigit = true := by
  intro c member
  have front : text.take span <+: text.takeWhile Char.isDigit := by
    apply List.prefix_of_prefix_length_le (List.take_prefix _ _) (List.takeWhile_prefix _)
    exact (List.length_take_le _ _).trans few
  exact List.mem_takeWhile_imp (front.subset member)

theorem translateEscape_reads {scan : Scan} {text : List Char} {step : Step}
    (done : translateEscape scan text = .ok step) :
    step.counted = false ∧ step.scan = { scan with classHead := false } ∧
      (text = [] ∧ step.length = 1 ∨ ∃ escaped digits rest, text = escaped :: (digits ++ rest) ∧
        step.length = 2 + digits.length ∧ ∀ digit ∈ digits, digit.isDigit = true) := by
  cases text with
  | nil =>
    cases done
    exact ⟨rfl,rfl,.inl ⟨rfl,rfl⟩⟩
  | cons escaped text =>
    have single : ∃ digits rest, escaped :: text = escaped :: (digits ++ rest) ∧ 2 = 2 + digits.length ∧
        ∀ digit ∈ digits, digit.isDigit = true := ⟨[],text,rfl,rfl,by simp⟩
    simp only [translateEscape,List.head?_cons] at done
    by_cases atEnd : (!scan.inClass && decide (escaped = 'Z')) = true
    · rw [if_pos atEnd] at done
      cases done
      exact ⟨rfl,rfl,.inr ⟨escaped,single⟩⟩
    · rw [if_neg atEnd] at done
      by_cases named : escaped = 'N'
      · rw [if_pos named] at done
        cases done
      · rw [if_neg named] at done
        obtain ⟨numbered,read,done⟩ := Library.bind_ok.mp done
        cases numbered with
        | octal written span =>
          cases done
          have few := numberedEscape_octal read
          have whole := (List.takeWhile_prefix Char.isDigit (l := escaped :: text)).length_le
          have digits := take_digits few.2
          obtain ⟨size,rfl⟩ := Nat.exists_eq_add_of_le' few.1
          refine ⟨rfl,rfl,.inr ⟨escaped,text.take size,text.drop size,?_,?_,?_⟩⟩
          · rw [List.take_append_drop]
          · simp only [List.length_cons] at whole
            simp only [List.length_take]
            omega
          · intro digit member
            exact digits digit (by simp [member])
        | backReference =>
          by_cases itself : meansItself escaped = true
          · simp only [if_pos itself] at done
            cases done
            exact ⟨rfl,rfl,.inr ⟨escaped,single⟩⟩
          · simp only [if_neg itself] at done
            split at done
            · cases done
            · cases done
              exact ⟨rfl,rfl,.inr ⟨escaped,single⟩⟩

theorem drop_front (p : Char → Bool) (text : List Char) : text.drop (text.takeWhile p).length = text.dropWhile p := by
  have both := congrArg (List.drop (text.takeWhile p).length) (List.takeWhile_append_dropWhile (p := p) (l := text))
  rw [List.drop_left] at both
  exact both.symm

theorem pythonCondition_name {text name : List Char} (read : pythonCondition tables text = .name name) :
    ∃ rest, text = name ++ ')' :: rest ∧ ∀ c ∈ name, inert c = true := by
  unfold pythonCondition at read
  simp only [] at read
  split_ifs at read with numbered closed named
  cases read
  have stop := named.1
  rw [← List.head?_drop,drop_front] at stop
  refine ⟨(text.dropWhile (nameChar tables)).tail,?_,?_⟩
  · rw [← List.eq_cons_of_mem_head? stop,List.takeWhile_append_dropWhile]
  · intro c member
    exact nameChar_inert (List.mem_takeWhile_imp member)

/-- The condition of a group, where it is a name. -/
theorem pythonGroup_named {text name : List Char}
    (read : pythonGroup tables ('(' :: text) = .ok (.conditional (.name name))) :
    ∃ rest, text = '?' :: '(' :: (name ++ ')' :: rest) ∧ ∀ c ∈ name, inert c = true := by
  unfold pythonGroup at read
  split at read
  · cases read
  · split at read
    · cases read
    · rename_i question
      split at read
      · cases read
      · split at read
        · rename_i opens
          injection read with same
          injection same with same
          obtain ⟨rest,shape,plain⟩ := pythonCondition_name same
          refine ⟨rest,?_,plain⟩
          rw [← shape]
          cases text with
          | nil => simp at question
          | cons first text =>
            cases text with
            | nil => simp at opens
            | cons second text => simp_all
        · split at read
          · unfold pythonNamedGroup at read
            simp only [] at read
            split at read <;> cases read
          · cases read

theorem translateGroup_reads {scan : Scan} {text : List Char} {step : Step}
    (done : translateGroup tables scan text = .ok step) :
    step.counted = countsGroup tables text ∧ step.length = 1 + readWith tables text ∧
      step.scan.inClass = scan.inClass ∧
      step.scan.groups.length = scan.groups.length + if step.counted then 1 else 0 := by
  obtain ⟨group,read,done⟩ := Library.bind_ok.mp done
  simp only [countsGroup,readWith,read]
  cases group with
  | capturing name =>
    cases done
    exact ⟨rfl,rfl,rfl,by simp⟩
  | plain =>
    cases done
    exact ⟨rfl,rfl,rfl,rfl⟩
  | conditional condition =>
    cases condition with
    | number number =>
      simp only [] at done
      split at done
      · cases done
      · cases done
        exact ⟨rfl,rfl,rfl,rfl⟩
    | name name =>
      simp only [] at done
      split at done
      · cases done
        exact ⟨rfl,by rw [← Nat.add_assoc],rfl,rfl⟩
      · cases done
    | other =>
      cases done
      exact ⟨rfl,rfl,rfl,rfl⟩

theorem takeWhile_digits {digits : List Char} (all : ∀ c ∈ digits, c.isDigit = true) {stop : Char}
    (ends : stop.isDigit = false) (rest : List Char) : (digits ++ stop :: rest).takeWhile Char.isDigit = digits := by
  rw [List.takeWhile_append_of_pos all,List.takeWhile_cons_of_neg (by simp [ends]),List.append_nil]

theorem pythonRepetition_isSome {text : List Char} (shape : BeginsRepetition ('\x7b' :: text)) :
    (pythonRepetition ('\x7b' :: text)).isSome := by
  obtain ⟨inner,rest,same,repeated⟩ := shape
  injection same with _ same
  subst same
  cases repeated with
  | exact nonempty all =>
    have digits := takeWhile_digits all (show ('\x7d').isDigit = false by decide) rest
    simp [pythonRepetition,digits,nonempty]
  | range minimum maximum all more =>
    have low := takeWhile_digits all (show (',').isDigit = false by decide) (maximum ++ '\x7d' :: rest)
    have high := takeWhile_digits more (show ('\x7d').isDigit = false by decide) rest
    simp [pythonRepetition,low,high]

theorem pythonRepetition_some {text : List Char} {repetition : PythonRepetition}
    (read : pythonRepetition ('\x7b' :: text) = some repetition) :
    ∃ inner rest, text = inner ++ '\x7d' :: rest ∧ RepetitionText inner ∧ repetition.length = 2 + inner.length := by
  have all : ∀ text : List Char, ∀ c ∈ text.takeWhile Char.isDigit, c.isDigit = true :=
    fun text c member => List.mem_takeWhile_imp member
  have whole := List.takeWhile_append_dropWhile (p := Char.isDigit) (l := text)
  unfold pythonRepetition at read
  simp only [List.tail_cons,drop_front] at read
  cases comma : decide ((text.dropWhile Char.isDigit).head? = some ',') with
  | false =>
    have other := of_decide_eq_false comma
    simp only [other,if_false] at read
    split at read
    · cases read
    · rename_i passed
      cases read
      have closes : (text.dropWhile Char.isDigit).head? = some '\x7d' := by tauto
      refine ⟨text.takeWhile Char.isDigit,(text.dropWhile Char.isDigit).tail,?_,.exact ?_ (all text),?_⟩
      · rw [← List.eq_cons_of_mem_head? closes,whole]
      · tauto
      · simp
        omega
  | true =>
    have comes := of_decide_eq_true comma
    simp only [comes,if_true,drop_front] at read
    split at read
    · cases read
    · rename_i passed
      cases read
      set more := (text.dropWhile Char.isDigit).tail with named
      have closes : (more.dropWhile Char.isDigit).head? = some '\x7d' := by tauto
      refine ⟨text.takeWhile Char.isDigit ++ ',' :: more.takeWhile Char.isDigit,(more.dropWhile Char.isDigit).tail,
        ?_,.range _ _ (all text) (all more),?_⟩
      · rw [List.append_assoc,List.cons_append,← List.eq_cons_of_mem_head? closes,List.takeWhile_append_dropWhile,
          named,← List.eq_cons_of_mem_head? comes,whole]
      · simp
        omega

theorem repetition_inert {inner : List Char} (repeated : RepetitionText inner) :
    ∀ c ∈ inner, inert c = true := by
  intro c member
  cases repeated with
  | exact nonempty all => exact digit_inert (all c member)
  | range minimum maximum all more =>
    rcases List.mem_append.mp member with low | rest
    · exact digit_inert (all c low)
    · rcases List.mem_cons.mp rest with rfl | high
      · decide
      · exact digit_inert (more c high)

theorem translateBrace_reads {scan : Scan} {text : List Char} {step : Step}
    (done : translateBrace scan ('\x7b' :: text) = .ok step) :
    step.counted = false ∧ step.scan = scan ∧ ∃ chunk rest, text = chunk ++ rest ∧
      step.length = 1 + chunk.length ∧ ∀ c ∈ chunk, inert c = true := by
  unfold translateBrace at done
  cases read : pythonRepetition ('\x7b' :: text) with
  | none =>
    simp only [read] at done
    cases done
    exact ⟨rfl,rfl,[],text,rfl,rfl,by simp⟩
  | some repetition =>
    obtain ⟨inner,rest,shape,repeated,size⟩ := pythonRepetition_some read
    have chunk : ∃ chunk rest, text = chunk ++ rest ∧ repetition.length = 1 + chunk.length ∧
        ∀ c ∈ chunk, inert c = true := by
      refine ⟨inner ++ ['\x7d'],rest,by simp [shape],by simp [size]; omega,?_⟩
      intro c member
      rcases List.mem_append.mp member with front | last
      · exact repetition_inert repeated c front
      · rw [List.mem_singleton.mp last]
        decide
    simp only [read] at done
    split at done
    · cases done
    · split at done
      · cases done
        exact ⟨rfl,rfl,chunk⟩
      · cases done
        exact ⟨rfl,rfl,chunk⟩

end Steps

end Qdrust.Pattern
