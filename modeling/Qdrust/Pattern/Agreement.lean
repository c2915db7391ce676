import Qdrust.Pattern.Lockstep

/-! When the translation and Python read the same classes and groups of a pattern. -/
namespace Qdrust.Pattern
open Expression

/-- What is written for the characters of a step. -/
structure Piece.Conforms (piece : Piece) : Prop where
  brace : ∀ rest, piece.inClass = false → piece.text = '\x7b' :: rest → ¬BeginsRepetition piece.text →
    piece.step.length = 1 ∧ piece.step.output = ['\\','\x7b']
  anchor : ∀ rest, piece.inClass = false → piece.text = '\\' :: 'Z' :: rest →
    piece.step.length = 2 ∧ piece.step.output = ['\\','z']
  bracket : ∀ rest, piece.inClass = true → piece.text = '[' :: rest →
    piece.step.length = 1 ∧ piece.step.output = ['\\','[']
  member : ∀ c rest, piece.inClass = true → piece.text = c :: rest → c ≠ '[' → c ≠ '\\' →
    piece.step.length = 1 ∧ piece.step.output = [c]

/-- A reading that notes what Python notes, counts its groups and writes what it has to. -/
structure Follows (pieces : List Piece) (final : Scan) (marks : List Mark) : Prop where
  marked : marksOf pieces final = marks
  counted : final.groups.length = marks.countP Mark.group
  written : ∀ piece ∈ pieces, piece.Conforms

variable {tables : CharTables}

theorem translateFrom_succ {fuel : Nat} {scan final : Scan} {c : Char} {rest : List Char} {pieces : List Piece}
    (done : translateFrom tables (fuel + 1) scan (c :: rest) = .ok (pieces,final)) :
    ∃ step left, translateStep tables scan c rest = .ok step ∧
      translateFrom tables fuel step.scan ((c :: rest).drop step.length) = .ok (left,final) ∧
      pieces = ⟨c :: rest,scan.inClass,step⟩ :: left := by
  obtain ⟨step,stepped,done⟩ := Library.bind_ok.mp done
  obtain ⟨⟨left,last⟩,further,done⟩ := Library.bind_ok.mp done
  cases done
  exact ⟨step,left,stepped,further,rfl⟩

theorem translateFrom_nil {fuel : Nat} {scan final : Scan} {pieces : List Piece}
    (done : translateFrom tables fuel scan [] = .ok (pieces,final)) : pieces = [] ∧ final = scan := by
  unfold translateFrom at done
  cases done
  exact ⟨rfl,rfl⟩

theorem marksOf_head {fuel : Nat} {scan final : Scan} {text : List Char} {pieces : List Piece}
    (done : translateFrom tables fuel scan text = .ok (pieces,final)) (enough : text.length ≤ fuel) :
    (marksOf pieces final).head?.map Mark.inside = some scan.inClass := by
  cases text with
  | nil =>
    obtain ⟨rfl,rfl⟩ := translateFrom_nil done
    rfl
  | cons c rest =>
    obtain ⟨fuel,rfl⟩ := Nat.exists_eq_add_of_le' (Nat.le_trans (Nat.succ_le_succ (Nat.zero_le _)) enough)
    obtain ⟨step,left,_,_,rfl⟩ := translateFrom_succ done
    rfl

theorem pythonMarks_head (scan : PythonScan) (text : List Char) :
    (pythonMarks scan text).head?.map Mark.inside = some scan.mode.inside := by
  cases text <;> rfl

theorem parts_tail {scan final : Scan} {python : PythonScan} {c : Char} {rest : List Char} {step : Step}
    {left : List Piece} (one : step.length = 1)
    (apart : marksOf left final ≠ pythonMarks (pythonStep python c rest) rest) :
    marksOf (⟨c :: rest,scan.inClass,step⟩ :: left) final ≠ pythonMarks python (c :: rest) := by
  intro same
  rw [marksOf_cons] at same
  apply apart
  simpa [Piece.marks,one,pythonMarks] using congrArg List.tail same

/-- After a step of one character the readings are in a class together or not at all. -/
theorem parts_next {fuel : Nat} {scan final : Scan} {python : PythonScan} {c : Char} {rest : List Char}
    {step : Step} {left : List Piece} (one : step.length = 1)
    (further : translateFrom tables fuel step.scan rest = .ok (left,final)) (enough : rest.length ≤ fuel)
    (apart : step.scan.inClass ≠ (pythonStep python c rest).mode.inside) :
    marksOf (⟨c :: rest,scan.inClass,step⟩ :: left) final ≠ pythonMarks python (c :: rest) := by
  apply parts_tail one
  intro same
  have heads := marksOf_head further enough
  rw [same,pythonMarks_head] at heads
  exact apart (Option.some.inj heads).symm

theorem translateStep_caret {scan : Scan} {rest : List Char} {step : Step} (inClass : scan.inClass = true)
    (head : scan.classHead = true) (done : translateStep tables scan '^' rest = .ok step) :
    step = ⟨1,['^'],false,scan⟩ := by
  obtain ⟨_,_,_,_⟩ := scan
  simp at inClass head
  simpa [translateStep,translateMember,inClass,head,eq_comm] using done

/-- After a second `^` the translation takes the next bracket for a member, and Python does not. -/
theorem parts_stale {fuel : Nat} {scan final : Scan} {python : PythonScan} {text : List Char}
    {pieces : List Piece} (inClass : scan.inClass = true) (head : scan.classHead = true)
    (awake : python.escaped = false) (mode : python.mode = .classRest) (closed : caretsClosed text = true)
    (done : translateFrom tables fuel scan text = .ok (pieces,final)) (enough : text.length ≤ fuel) :
    marksOf pieces final ≠ pythonMarks python text := by
  induction text generalizing fuel pieces with
  | nil => simp [caretsClosed] at closed
  | cons c rest ih =>
    cases fuel with
    | zero => simp at enough
    | succ fuel =>
      have few : rest.length ≤ fuel := by simpa using enough
      obtain ⟨step,left,stepped,further,rfl⟩ := translateFrom_succ done
      by_cases caret : c = '^'
      · subst caret
        have moved : pythonStep python '^' rest = python := by
          obtain ⟨_,_,_,_⟩ := python
          simp at awake mode
          simp [pythonStep,awake,mode]
        obtain rfl := translateStep_caret inClass head stepped
        apply parts_tail rfl
        rw [moved]
        exact ih (by simpa using closed) further few
      · have bracket : c = ']' := by simpa [caretsClosed,caret] using closed
        subst bracket
        have same : step = ⟨1,[']'],false,{ scan with classHead := false }⟩ := by
          simpa [translateStep,translateMember,inClass,head,eq_comm] using stepped
        subst same
        apply parts_next rfl further few
        simp [inClass,pythonStep,awake,mode,PythonMode.inside]

theorem parts_carets {fuel : Nat} {scan final : Scan} {python : PythonScan} {rest : List Char}
    {left : List Piece} (inClass : scan.inClass = true) (head : scan.classHead = true)
    (awake : python.escaped = false) (mode : python.mode = .classStart) (closed : negatesCarets rest = true)
    (done : translateFrom tables fuel scan rest = .ok (left,final)) (enough : rest.length ≤ fuel) :
    marksOf left final ≠ pythonMarks python rest := by
  have twice : rest.take 2 = ['^','^'] ∧ caretsClosed rest = true := by simpa [negatesCarets] using closed
  obtain ⟨last,rfl⟩ : ∃ last, rest = '^' :: '^' :: last := by
    refine ⟨rest.drop 2,?_⟩
    conv_lhs => rw [← List.take_append_drop 2 rest,twice.1]
    rfl
  obtain ⟨fuel,rfl⟩ := Nat.exists_eq_add_of_le' (Nat.le_trans (Nat.le_add_left 2 _) enough)
  have few : last.length ≤ fuel := by simpa using enough
  obtain ⟨first,left,stepped,further,rfl⟩ := translateFrom_succ done
  obtain rfl := translateStep_caret inClass head stepped
  apply parts_tail rfl
  obtain ⟨second,left,again,onward,rfl⟩ := translateFrom_succ further
  obtain rfl := translateStep_caret inClass head again
  apply parts_tail rfl
  apply parts_stale inClass head _ _ (by simpa using twice.2) onward few
  · simp [pythonStep,awake,mode]
  · simp [pythonStep,awake,mode]

theorem parts_group {scan final : Scan} {python : PythonScan} {c : Char} {rest : List Char} {step : Step}
    {left : List Piece} (apart : step.counted ≠ (python.mark c rest).group) :
    marksOf (⟨c :: rest,scan.inClass,step⟩ :: left) final ≠ pythonMarks python (c :: rest) := by
  intro same
  rw [marksOf_cons] at same
  exact apart (congrArg Mark.group (List.head_eq_of_cons_eq same))

/-- Where the readings cannot agree, they part. -/
theorem parts_here {fuel : Nat} {scan final : Scan} {python : PythonScan} {c : Char} {rest : List Char}
    {pieces : List Piece} (related : Related scan python (c :: rest)) (special : plainHere tables python c rest = false)
    (done : translateFrom tables (fuel + 1) scan (c :: rest) = .ok (pieces,final)) (enough : rest.length ≤ fuel) :
    marksOf pieces final ≠ pythonMarks python (c :: rest) := by
  have awake : python.escaped = false := by simpa using related.awake
  obtain ⟨step,left,stepped,further,rfl⟩ := translateFrom_succ done
  have outside : python.mode.inside = false := by
    cases mode : python.mode <;> simp [plainHere,awake,mode] at special <;> rfl
  have inClass : scan.inClass = false := related.inside.trans outside
  by_cases parenthesis : c = '('
  · subst parenthesis
    have group : translateGroup tables scan ('(' :: rest) = .ok step := by simpa [translateStep,inClass] using stepped
    apply parts_group
    rw [(translateGroup_reads group).1]
    cases mode : python.mode <;> simp [mode,PythonMode.inside] at outside <;>
      simp [plainHere,awake,mode] at special <;> simp [PythonScan.mark,mode,awake,special]
  · have bracket : c = '[' := by
      by_contra other
      rw [plainHere_other tables python rest other parenthesis] at special
      cases special
    subst bracket
    have same : step = ⟨1,['['],false,{ scan with inClass := true, classHead := true }⟩ := by
      simpa [translateStep,inClass,eq_comm] using stepped
    subst same
    cases mode : python.mode with
    | classStart | classNegated | classRest => simp [mode,PythonMode.inside] at outside
    | aside | remark =>
      apply parts_next rfl further enough
      simp [pythonStep,awake,mode,PythonMode.inside]
    | body =>
      apply parts_tail rfl
      apply parts_carets rfl rfl _ _ _ further enough
      · simp [pythonStep,awake,mode]
      · simp [pythonStep,awake,mode]
      · simpa [plainHere,awake,mode] using special

/-- The marks of both readings are the same if and only if nothing sets them apart. -/
theorem marked_iff {fuel : Nat} {scan final : Scan} {python : PythonScan} {text : List Char}
    {pieces : List Piece} (related : Related scan python text)
    (done : translateFrom tables fuel scan text = .ok (pieces,final)) (enough : text.length ≤ fuel) :
    marksOf pieces final = pythonMarks python text ↔ plainFrom tables 0 python text = true := by
  induction fuel generalizing scan python text pieces with
  | zero =>
    obtain rfl := List.length_eq_zero_iff.mp (Nat.le_zero.mp enough)
    obtain ⟨rfl,rfl⟩ := translateFrom_nil done
    simp [marksOf,pythonMarks,plainFrom,related.inside]
  | succ fuel ih =>
    cases text with
    | nil =>
      obtain ⟨rfl,rfl⟩ := translateFrom_nil done
      simp [marksOf,pythonMarks,plainFrom,related.inside]
    | cons c rest =>
      have few : rest.length ≤ fuel := by simpa using enough
      cases plain : plainHere tables python c rest with
      | false =>
        have apart := parts_here related plain done few
        simp [apart,plainFrom,plain]
      | true =>
        obtain ⟨step,left,stepped,further,rfl⟩ := translateFrom_succ done
        obtain ⟨positive,python',reads,later⟩ := keeps_step related plain stepped
        have shorter : ((c :: rest).drop step.length).length ≤ fuel := by
          simp only [List.length_drop,List.length_cons]
          omega
        rw [marksOf_cons,reads.marked,reads.plain,List.append_cancel_left_eq]
        exact ih later further shorter

theorem conforms_step {scan : Scan} {c : Char} {rest : List Char} {step : Step}
    (done : translateStep tables scan c rest = .ok step) : Piece.Conforms ⟨c :: rest,scan.inClass,step⟩ := by
  constructor
  · intro left outside same literal
    cases same
    have brace : translateBrace scan ('\x7b' :: rest) = .ok step := by
      simpa [translateStep,show scan.inClass = false from outside] using done
    cases read : pythonRepetition ('\x7b' :: rest) with
    | none =>
      rw [translateBrace,read] at brace
      cases brace
      exact ⟨rfl,rfl⟩
    | some repetition =>
      obtain ⟨inner,left,shape,repeated,_⟩ := pythonRepetition_some read
      exact absurd ⟨inner,left,by rw [shape],repeated⟩ literal
  · intro left outside same
    cases same
    have written : step = ⟨2,['\\','z'],false,{ scan with classHead := false }⟩ := by
      simpa [translateStep,translateEscape,show scan.inClass = false from outside,eq_comm] using done
    rw [written]
    exact ⟨rfl,rfl⟩
  · intro left inside same
    cases same
    have written : translateMember scan '[' = step := by
      simpa [translateStep,show scan.inClass = true from inside] using done
    rw [← written]
    exact ⟨rfl,rfl⟩
  · intro other left inside same bracket backslash
    cases same
    have written : translateMember scan c = step := by
      simpa [translateStep,show scan.inClass = true from inside,show c ≠ '\\' from backslash] using done
    rw [← written,translateMember,if_neg bracket]
    exact ⟨rfl,rfl⟩

theorem written_from {fuel : Nat} {scan final : Scan} {text : List Char} {pieces : List Piece}
    (done : translateFrom tables fuel scan text = .ok (pieces,final)) : ∀ piece ∈ pieces, piece.Conforms := by
  induction fuel generalizing scan text pieces with
  | zero =>
    cases text <;> cases done <;> simp
  | succ fuel ih =>
    cases text with
    | nil =>
      obtain ⟨rfl,rfl⟩ := translateFrom_nil done
      simp
    | cons c rest =>
      obtain ⟨step,left,stepped,further,rfl⟩ := translateFrom_succ done
      intro piece member
      rcases List.mem_cons.mp member with rfl | later
      · exact conforms_step stepped
      · exact ih further piece later

/-- A step adds a group where it counts one. -/
theorem groups_step {scan : Scan} {c : Char} {rest : List Char} {step : Step}
    (done : translateStep tables scan c rest = .ok step) :
    step.scan.groups.length = scan.groups.length + if step.counted then 1 else 0 := by
  unfold translateStep at done
  split at done
  · obtain ⟨uncounted,same,_⟩ := translateEscape_reads done
    simp [uncounted,same]
  · split at done
    · cases done
      unfold translateMember
      split <;> rfl
    · split at done
      · cases done
        rfl
      · split at done
        · exact (translateGroup_reads done).2.2.2
        · split at done
          · rename_i brace
            subst brace
            obtain ⟨uncounted,same,_⟩ := translateBrace_reads done
            simp [uncounted,same]
          · cases done
            rfl

theorem marks_groups (piece : Piece) :
    piece.marks.countP Mark.group = if piece.step.counted then 1 else 0 := by
  simp [Piece.marks,List.countP_cons,List.countP_replicate]

theorem counted_from {fuel : Nat} {scan final : Scan} {text : List Char} {pieces : List Piece}
    (done : translateFrom tables fuel scan text = .ok (pieces,final)) :
    final.groups.length = scan.groups.length + (marksOf pieces final).countP Mark.group := by
  induction fuel generalizing scan text pieces with
  | zero =>
    cases text <;> cases done <;> rfl
  | succ fuel ih =>
    cases text with
    | nil =>
      obtain ⟨rfl,rfl⟩ := translateFrom_nil done
      rfl
    | cons c rest =>
      obtain ⟨step,left,stepped,further,rfl⟩ := translateFrom_succ done
      rw [marksOf_cons,List.countP_append,marks_groups,ih further,groups_step stepped,Nat.add_assoc]

end Qdrust.Pattern
