import Qdrust.Pattern.Steps

/-! Both readings of a pattern in step. The head of a class is where they may part. -/
namespace Qdrust.Pattern
open Expression

variable {tables : CharTables}

/-- Both readings are at the same place of a pattern, before `text`. -/
structure Related (scan : Scan) (python : PythonScan) (text : List Char) : Prop where
  awake : text = [] ∨ python.escaped = false
  inside : scan.inClass = python.mode.inside
  started : python.mode = .classStart → scan.classHead = true ∧ negatesCarets text = false
  negated : python.mode = .classNegated →
    scan.classHead = true ∧ (text.head? = some '^' → caretsClosed text = false)
  rest : python.mode = .classRest → scan.classHead = true → caretsClosed text = false

theorem related_start (text : List Char) : Related Scan.start PythonScan.start text := by
  constructor
  · exact .inr rfl
  · rfl
  · intro mode
    cases mode
  · intro mode
    cases mode
  · intro mode
    cases mode

theorem related_outside {scan : Scan} {python : PythonScan} {text : List Char}
    (awake : text = [] ∨ python.escaped = false) (left : scan.inClass = false)
    (right : python.mode.inside = false) : Related scan python text := by
  constructor
  · exact awake
  · rw [left,right]
  · intro mode
    rw [mode] at right
    cases right
  · intro mode
    rw [mode] at right
    cases right
  · intro mode
    rw [mode] at right
    cases right

theorem related_rest {scan : Scan} {python : PythonScan} {text : List Char}
    (awake : text = [] ∨ python.escaped = false) (left : scan.inClass = true) (right : python.mode = .classRest)
    (head : scan.classHead = true → caretsClosed text = false) : Related scan python text := by
  constructor
  · exact awake
  · rw [left,right]
    rfl
  · intro mode
    rw [right] at mode
    cases mode
  · intro mode
    rw [right] at mode
    cases mode
  · intro _
    exact head

theorem settled_outside {scan : PythonScan} (awake : scan.escaped = false) (outside : scan.mode.inside = false) :
    Settled scan := by
  constructor
  · exact awake
  · intro mode
    rw [mode] at outside
    cases outside
  · intro mode
    rw [mode] at outside
    cases outside

/-- What the readings keep over a step. -/
def Keeps (tables : CharTables) (scan : Scan) (python : PythonScan) (text : List Char) (step : Step) : Prop :=
  1 ≤ step.length ∧ ∃ python', Reads tables 0 python text (Piece.marks ⟨text,scan.inClass,step⟩) 0 python'
    (text.drop step.length) ∧ Related step.scan python' (text.drop step.length)

theorem afterEscape_inside (mode : PythonMode) : mode.afterEscape.inside = mode.inside := by
  cases mode <;> rfl

theorem related_escape {scan : Scan} {python python' : PythonScan} {text text' : List Char}
    (related : Related scan python text) (mode : python'.mode = python.mode.afterEscape)
    (awake : text' = [] ∨ python'.escaped = false) : Related { scan with classHead := false } python' text' := by
  cases inside : python.mode.inside with
  | false =>
    apply related_outside awake
    · exact related.inside.trans inside
    · rw [mode,afterEscape_inside,inside]
  | true =>
    apply related_rest awake
    · exact related.inside.trans inside
    · rw [mode,PythonMode.afterEscape,if_pos inside]
    · intro head
      cases head

theorem keeps_escape {scan : Scan} {python : PythonScan} {text : List Char} {step : Step}
    (related : Related scan python ('\\' :: text)) (done : translateEscape scan text = .ok step) :
    Keeps tables scan python ('\\' :: text) step := by
  have awake : python.escaped = false := by simpa using related.awake
  have stepped : pythonStep python '\\' text = { python with escaped := true, mode := python.mode.afterEscape } := by
    simp [pythonStep,awake]
  have first := reads_other tables python text (show '\\' ≠ '[' by decide) (by decide)
  rw [stepped] at first
  obtain ⟨uncounted,same,alone | ⟨escaped,digits,rest,shape,size,plain⟩⟩ := translateEscape_reads done
  · obtain ⟨rfl,size⟩ := alone
    refine ⟨size.ge,{ python with escaped := true, mode := python.mode.afterEscape },?_,?_⟩
    · simpa [Piece.marks,uncounted,size,related.inside] using first
    · rw [same,size]
      exact related_escape related rfl (.inl rfl)
  · subst shape
    set waiting : PythonScan := { python with escaped := true, mode := python.mode.afterEscape } with named
    set after : PythonScan := { python with escaped := false, mode := python.mode.afterEscape } with afterNamed
    have second : Reads tables 0 waiting (escaped :: (digits ++ rest)) [⟨python.mode.inside,false⟩] 0 after
        (digits ++ rest) := by
      have read := reads_plain (show plainHere tables waiting escaped (digits ++ rest) = true by simp [plainHere,named])
      simpa [named,afterNamed,PythonScan.mark,readWithHere,pythonStep,afterEscape_inside] using read
    have settled : Settled after := by
      constructor
      · rfl
      · cases mode : python.mode <;> simp [afterNamed,mode,PythonMode.afterEscape,PythonMode.inside]
      · cases mode : python.mode <;> simp [afterNamed,mode,PythonMode.afterEscape,PythonMode.inside]
    have third := reads_ordinary tables 0 settled (fun digit member => inert_ordinary (digit_inert (plain digit member))) rest
    have inside : after.mode.inside = python.mode.inside := afterEscape_inside _
    have left : ('\\' :: escaped :: (digits ++ rest)).drop step.length = rest := by
      rw [size,Nat.add_comm]
      simp
    have marks : Piece.marks ⟨'\\' :: escaped :: (digits ++ rest),scan.inClass,step⟩ =
        [⟨python.mode.inside,false⟩] ++ [⟨python.mode.inside,false⟩] ++
          List.replicate digits.length ⟨python.mode.inside,false⟩ := by
      have next : 2 + digits.length - 1 = digits.length + 1 := by omega
      simp [Piece.marks,uncounted,size,related.inside,next,List.replicate_succ]
    rw [inside,Nat.zero_sub] at third
    refine ⟨by omega,after,?_,?_⟩
    · rw [left,marks]
      exact (first.trans second).trans third
    · rw [same]
      exact related_escape related rfl (.inr rfl)

theorem keeps_one {scan : Scan} {python : PythonScan} {c : Char} {rest : List Char} {step : Step}
    (one : step.length = 1) (plain : plainHere tables python c rest = true)
    (alone : readWithHere tables python c rest = 0) (mark : python.mark c rest = ⟨scan.inClass,step.counted⟩)
    (related : Related step.scan (pythonStep python c rest) rest) : Keeps tables scan python (c :: rest) step := by
  have read := reads_plain plain
  rw [alone] at read
  refine ⟨one.ge,pythonStep python c rest,?_,?_⟩
  · simpa [Piece.marks,one,mark] using read
  · simpa [one] using related

@[simp] theorem caretsClosed_caret (rest : List Char) : caretsClosed ('^' :: rest) = caretsClosed rest := by
  simp [caretsClosed]

theorem caretsClosed_bracket (rest : List Char) : caretsClosed (']' :: rest) = true := by
  simp [caretsClosed]

theorem translateMember_head (scan : Scan) (c : Char) :
    (translateMember scan c).scan.classHead = (scan.classHead && c = '^') := by
  unfold translateMember
  split
  · rename_i bracket
    simp [bracket]
  · rfl

theorem translateMember_inClass {scan : Scan} (inside : scan.inClass = true) (c : Char) :
    (translateMember scan c).scan.inClass = !(c = ']' && !scan.classHead) := by
  unfold translateMember
  split
  · rename_i bracket
    simp [bracket,inside]
  · rfl

theorem related_member {scan : Scan} {python : PythonScan} {c : Char} {rest : List Char}
    (related : Related scan python (c :: rest)) (other : c ≠ '\\') (inside : python.mode.inside = true) :
    Related (translateMember scan c).scan (pythonStep python c rest) rest := by
  have awake : python.escaped = false := by simpa using related.awake
  have inClass : scan.inClass = true := related.inside.trans inside
  have stays : (pythonStep python c rest).escaped = false := by
    cases mode : python.mode <;> simp [mode,PythonMode.inside] at inside <;> simp [pythonStep,awake,other,mode]
  have head := translateMember_head scan c
  have within := translateMember_inClass inClass c
  cases mode : python.mode with
  | body => simp [mode,PythonMode.inside] at inside
  | aside => simp [mode,PythonMode.inside] at inside
  | remark => simp [mode,PythonMode.inside] at inside
  | classStart =>
    obtain ⟨first,unclosed⟩ := related.started mode
    by_cases caret : c = '^'
    · subst caret
      have next : (pythonStep python '^' rest).mode = .classNegated := by simp [pythonStep,awake,mode]
      constructor
      · exact .inr stays
      · rw [within,next]
        rfl
      · rw [next]
        intro same
        cases same
      · intro _
        refine ⟨by simp [head,first],?_⟩
        intro again
        obtain ⟨rest,rfl⟩ := List.head?_eq_some_iff.mp again
        simpa [negatesCarets] using unclosed
      · rw [next]
        intro same
        cases same
    · apply related_rest (.inr stays)
      · simp [within,first]
      · simp [pythonStep,awake,mode,other,caret]
      · simp [head,caret]
  | classNegated =>
    obtain ⟨first,unclosed⟩ := related.negated mode
    apply related_rest (.inr stays)
    · simp [within,first]
    · simp [pythonStep,awake,mode,other]
    · intro stale
      have caret : c = '^' := by simpa [head,first] using stale
      subst caret
      simpa using unclosed rfl
  | classRest =>
    have unclosed := related.rest mode
    by_cases closes : c = ']'
    · subst closes
      have started : scan.classHead = false := by
        by_contra stale
        have closed := unclosed (by simpa using stale)
        rw [caretsClosed_bracket] at closed
        cases closed
      apply related_outside (.inr stays)
      · simp [within,started]
      · simp [pythonStep,awake,mode,PythonMode.inside]
    · apply related_rest (.inr stays)
      · simp [within,closes]
      · simp [pythonStep,awake,mode,other,closes]
      · intro stale
        have both : scan.classHead = true ∧ c = '^' := by simpa [head] using stale
        obtain ⟨first,rfl⟩ := both
        simpa using unclosed first

theorem keeps_member {scan : Scan} {python : PythonScan} {c : Char} {rest : List Char}
    (related : Related scan python (c :: rest)) (other : c ≠ '\\') (inside : python.mode.inside = true) :
    Keeps tables scan python (c :: rest) (translateMember scan c) := by
  have single : (translateMember scan c).length = 1 ∧ (translateMember scan c).counted = false := by
    unfold translateMember
    split <;> exact ⟨rfl,rfl⟩
  apply keeps_one single.1 _ _ _ (related_member related other inside)
  · unfold plainHere
    cases mode : python.mode <;> simp [mode,PythonMode.inside] at inside <;> simp
  · simp [readWithHere,inside]
  · have body : python.mode ≠ .body := by
      intro mode
      simp [mode,PythonMode.inside] at inside
    simp [PythonScan.mark,related.inside,single.2,body]

theorem pythonOpen_outside (scan : PythonScan) (rest : List Char) (outside : scan.mode.inside = false) :
    (pythonOpen scan rest).escaped = scan.escaped ∧ (pythonOpen scan rest).mode.inside = false := by
  unfold pythonOpen
  simp only []
  split_ifs
  all_goals exact ⟨rfl,by first | exact outside | rfl⟩

theorem pythonStep_outside {scan : PythonScan} {c : Char} (rest : List Char) (awake : scan.escaped = false)
    (outside : scan.mode.inside = false) (backslash : c ≠ '\\') (bracket : c ≠ '[') :
    (pythonStep scan c rest).escaped = false ∧ (pythonStep scan c rest).mode.inside = false := by
  cases mode : scan.mode with
  | classStart | classNegated | classRest => simp [mode,PythonMode.inside] at outside
  | aside | remark =>
    simp only [pythonStep,awake,backslash,mode,if_false,Bool.false_eq_true]
    refine ⟨trivial,?_⟩
    split <;> rfl
  | body =>
    simp only [pythonStep,awake,backslash,bracket,mode,if_false,Bool.false_eq_true]
    split_ifs
    · have opened := pythonOpen_outside scan rest outside
      exact ⟨opened.1.trans awake,opened.2⟩
    · exact ⟨rfl,rfl⟩
    · exact ⟨rfl,rfl⟩
    · exact ⟨awake,outside⟩

theorem keeps_class {scan : Scan} {python : PythonScan} {rest : List Char}
    (related : Related scan python ('[' :: rest)) (outside : python.mode.inside = false)
    (plain : plainHere tables python '[' rest = true) :
    Keeps tables scan python ('[' :: rest) ⟨1,['['],false,{ scan with inClass := true, classHead := true }⟩ := by
  have awake : python.escaped = false := by simpa using related.awake
  have here := plain
  cases mode : python.mode with
  | classStart | classNegated | classRest => simp [mode,PythonMode.inside] at outside
  | aside | remark => simp [plainHere,awake,mode] at here
  | body =>
    have unclosed : negatesCarets rest = false := by simpa [plainHere,awake,mode] using here
    have next : pythonStep python '[' rest = { python with mode := .classStart } := by simp [pythonStep,awake,mode]
    apply keeps_one rfl plain
    · simp [readWithHere]
    · simp [PythonScan.mark,related.inside]
    · rw [next]
      constructor
      · exact .inr awake
      · rfl
      · intro _
        exact ⟨rfl,unclosed⟩
      · intro same
        cases same
      · intro same
        cases same

/-- What Python notes at a parenthesis is what is counted there. -/
theorem mark_group {scan : PythonScan} {rest : List Char} (awake : scan.escaped = false)
    (outside : scan.mode.inside = false) (plain : plainHere tables scan '(' rest = true) :
    scan.mark '(' rest = ⟨false,countsGroup tables ('(' :: rest)⟩ := by
  cases mode : scan.mode with
  | classStart | classNegated | classRest => simp [mode,PythonMode.inside] at outside
  | aside | remark =>
    have uncounted : countsGroup tables ('(' :: rest) = false := by simpa [plainHere,awake,mode] using plain
    simp [PythonScan.mark,mode,PythonMode.inside,uncounted]
  | body =>
    have counted : countsGroup tables ('(' :: rest) = capturing rest := by simpa [plainHere,awake,mode] using plain
    simp [PythonScan.mark,mode,PythonMode.inside,counted,awake]

/-- The condition of a group is no body of the pattern. -/
theorem pythonStep_condition {scan : PythonScan} (rest : List Char) (awake : scan.escaped = false)
    (outside : scan.mode.inside = false) :
    (pythonStep scan '(' ('?' :: '(' :: rest)).mode = .aside ∨
      (pythonStep scan '(' ('?' :: '(' :: rest)).mode = .remark := by
  cases mode : scan.mode with
  | classStart | classNegated | classRest => simp [mode,PythonMode.inside] at outside
  | aside => simp [pythonStep,awake,mode]
  | remark => simp [pythonStep,awake,mode]
  | body => simp [pythonStep,awake,mode,pythonOpen]

variable (tables) in
/-- A name of a condition, to the parenthesis after it. -/
theorem reads_condition {scan : PythonScan} {name : List Char} (rest : List Char) (awake : scan.escaped = false)
    (away : scan.mode = .aside ∨ scan.mode = .remark) (plain : ∀ c ∈ name, ordinary c = true) :
    Reads tables (3 + name.length) scan ('?' :: '(' :: (name ++ ')' :: rest))
      (List.replicate (3 + name.length) ⟨false,false⟩) 0 (pythonStep scan ')' rest) rest := by
  have outside : scan.mode.inside = false := by
    rcases away with mode | mode <;> rw [mode] <;> rfl
  have body : scan.mode ≠ .body := by
    rcases away with mode | mode <;> rw [mode] <;> decide
  have settled := settled_outside awake outside
  have question := reads_ordinary_one tables (3 + name.length) settled (show ordinary '?' = true by decide)
    ('(' :: (name ++ ')' :: rest))
  have stays : pythonStep scan '(' (name ++ ')' :: rest) = scan := by
    obtain ⟨mode,escaped,verbose,outer⟩ := scan
    rcases away with rfl | rfl <;> simp at awake <;> simp [pythonStep,awake]
  have inner := reads_skipped tables (1 + name.length) scan '(' (name ++ ')' :: rest)
  have named := reads_ordinary tables (1 + name.length) settled plain (')' :: rest)
  have closing := reads_skipped tables 0 scan ')' rest
  have first : 3 + name.length - 1 = 1 + name.length + 1 := by omega
  have last : 1 + name.length - name.length = 0 + 1 := by omega
  rw [first] at question
  rw [stays] at inner
  rw [last] at named
  have read := ((question.trans inner).trans named).trans closing
  have marks : List.replicate (3 + name.length) (⟨false,false⟩ : Mark) =
      [⟨scan.mode.inside,false⟩] ++ [scan.mark '(' (name ++ ')' :: rest)] ++
        List.replicate name.length ⟨scan.mode.inside,false⟩ ++ [scan.mark ')' rest] := by
    have size : 3 + name.length = 2 + (name.length + 1) := by omega
    rw [size,List.replicate_add,List.replicate_succ' (n := name.length)]
    simp [PythonScan.mark,outside,body,List.replicate_succ]
  rw [marks]
  exact read

theorem readWith_named {text : List Char} (more : readWith tables text ≠ 0) :
    ∃ name, pythonGroup tables text = .ok (.conditional (.name name)) ∧ readWith tables text = 3 + name.length := by
  unfold readWith at *
  split at more
  · rename_i name read
    exact ⟨name,read,rfl⟩
  · exact absurd rfl more

theorem keeps_group {scan : Scan} {python : PythonScan} {rest : List Char} {step : Step}
    (related : Related scan python ('(' :: rest)) (outside : python.mode.inside = false)
    (plain : plainHere tables python '(' rest = true) (done : translateGroup tables scan ('(' :: rest) = .ok step) :
    Keeps tables scan python ('(' :: rest) step := by
  have awake : python.escaped = false := by simpa using related.awake
  have inClass : scan.inClass = false := related.inside.trans outside
  obtain ⟨counted,size,same,_⟩ := translateGroup_reads done
  have here : readWithHere tables python '(' rest = readWith tables ('(' :: rest) := by
    simp [readWithHere,awake,outside]
  have mark := mark_group awake outside plain
  have next := pythonStep_outside rest awake outside (show '(' ≠ '\\' by decide) (by decide)
  by_cases alone : readWith tables ('(' :: rest) = 0
  · apply keeps_one (by omega) plain (here.trans alone)
    · rw [mark,inClass,counted]
    · exact related_outside (.inr next.1) (same.trans inClass) next.2
  · obtain ⟨name,read,more⟩ := readWith_named alone
    obtain ⟨left,rfl,plainName⟩ := pythonGroup_named read
    have away := pythonStep_condition (name ++ ')' :: left) awake outside
    have first := reads_plain plain
    rw [here,more,mark] at first
    have second := reads_condition tables left next.1 away fun c member => inert_ordinary (plainName c member)
    have last := pythonStep_outside left next.1 next.2 (show ')' ≠ '\\' by decide) (by decide)
    have marks : Piece.marks ⟨'(' :: '?' :: '(' :: (name ++ ')' :: left),scan.inClass,step⟩ =
        [⟨false,countsGroup tables ('(' :: '?' :: '(' :: (name ++ ')' :: left))⟩] ++
          List.replicate (3 + name.length) ⟨false,false⟩ := by
      simp [Piece.marks,inClass,counted,size,more]
    have rest : ('(' :: '?' :: '(' :: (name ++ ')' :: left)).drop step.length = left := by
      have length : step.length = name.length + 1 + 1 + 1 + 1 := by omega
      rw [length]
      simp
    refine ⟨by omega,pythonStep (pythonStep python '(' ('?' :: '(' :: (name ++ ')' :: left))) ')' left,?_,?_⟩
    · rw [rest,marks]
      exact first.trans second
    · rw [rest]
      exact related_outside (.inr last.1) (same.trans inClass) last.2

theorem keeps_brace {scan : Scan} {python : PythonScan} {rest : List Char} {step : Step}
    (related : Related scan python ('\x7b' :: rest)) (outside : python.mode.inside = false)
    (done : translateBrace scan ('\x7b' :: rest) = .ok step) : Keeps tables scan python ('\x7b' :: rest) step := by
  have awake : python.escaped = false := by simpa using related.awake
  have inClass : scan.inClass = false := related.inside.trans outside
  have settled := settled_outside awake outside
  obtain ⟨uncounted,same,chunk,left,rfl,size,plain⟩ := translateBrace_reads done
  have brace : ∀ c ∈ '\x7b' :: chunk, ordinary c = true := by
    intro c member
    rcases List.mem_cons.mp member with rfl | inner
    · decide
    · exact inert_ordinary (plain c inner)
  have read := reads_ordinary tables 0 settled brace left
  refine ⟨by omega,python,?_,?_⟩
  · rw [size,Nat.add_comm]
    simpa [Piece.marks,uncounted,size,inClass,outside,List.replicate_succ] using read
  · rw [same]
    exact related_outside (.inr awake) inClass outside

theorem keeps_other {scan : Scan} {python : PythonScan} {c : Char} {rest : List Char}
    (related : Related scan python (c :: rest)) (outside : python.mode.inside = false) (backslash : c ≠ '\\')
    (bracket : c ≠ '[') (parenthesis : c ≠ '(') : Keeps tables scan python (c :: rest) ⟨1,[c],false,scan⟩ := by
  have awake : python.escaped = false := by simpa using related.awake
  have next := pythonStep_outside rest awake outside backslash bracket
  apply keeps_one rfl (plainHere_other tables python rest bracket parenthesis)
    (readWithHere_other tables python rest parenthesis)
  · rw [mark_other python rest parenthesis,related.inside]
  · exact related_outside (.inr next.1) (related.inside.trans outside) next.2

/-- A step at which the readings agree leaves them at the same place. -/
theorem keeps_step {scan : Scan} {python : PythonScan} {c : Char} {rest : List Char} {step : Step}
    (related : Related scan python (c :: rest)) (plain : plainHere tables python c rest = true)
    (done : translateStep tables scan c rest = .ok step) : Keeps tables scan python (c :: rest) step := by
  unfold translateStep at done
  split at done
  · rename_i backslash
    subst backslash
    exact keeps_escape related done
  · rename_i backslash
    split at done
    · rename_i inClass
      cases done
      exact keeps_member related backslash (related.inside.symm.trans inClass)
    · rename_i inClass
      have outside : python.mode.inside = false := by
        rw [← related.inside]
        simpa using inClass
      split at done
      · rename_i bracket
        subst bracket
        cases done
        exact keeps_class related outside plain
      · rename_i bracket
        split at done
        · rename_i parenthesis
          subst parenthesis
          exact keeps_group related outside plain done
        · rename_i parenthesis
          split at done
          · rename_i brace
            subst brace
            exact keeps_brace related outside done
          · cases done
            exact keeps_other related outside backslash bracket parenthesis

end Qdrust.Pattern
