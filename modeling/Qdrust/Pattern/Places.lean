import Qdrust.Pattern.Lockstep

/-! The places of a pattern the translation gets to, and Python's reading there. -/
namespace Qdrust.Pattern
open Expression

/-- Python's reading some characters further on. -/
def pythonAt : Nat → PythonScan → List Char → PythonScan
  | 0,scan,_ => scan
  | _ + 1,scan,[] => scan
  | n + 1,scan,c :: rest => pythonAt n (pythonStep scan c rest) rest

variable (tables : CharTables)

/-- Where a step of the translation begins: its state, Python's, and the text that is left. -/
inductive Reached (body : List Char) : Scan → PythonScan → List Char → Prop where
  | start : Reached body Scan.start PythonScan.start body
  | step {scan : Scan} {python : PythonScan} {c : Char} {rest : List Char} {step : Step}
      (before : Reached body scan python (c :: rest)) (done : translateStep tables scan c rest = .ok step) :
      Reached body step.scan (pythonAt step.length python (c :: rest)) ((c :: rest).drop step.length)

variable {tables} {body : List Char} {scan : Scan} {python : PythonScan} {text : List Char}

theorem pythonOpen_escaped (scan : PythonScan) (rest : List Char) : (pythonOpen scan rest).escaped = scan.escaped := by
  unfold pythonOpen
  simp only []
  split_ifs <;> rfl

theorem pythonStep_awake {c : Char} (awake : python.escaped = false) (plain : c ≠ '\\') (rest : List Char) :
    (pythonStep python c rest).escaped = false := by
  unfold pythonStep
  rw [awake,if_neg (by decide),if_neg plain]
  cases python.mode with
  | body =>
    simp only []
    split_ifs
    · rfl
    · exact (pythonOpen_escaped python rest).trans awake
    · rfl
    · rfl
    · exact awake
  | _ => rfl

theorem pythonStep_backslash (awake : python.escaped = false) (rest : List Char) :
    pythonStep python '\\' rest = { python with escaped := true, mode := python.mode.afterEscape } := by
  simp [pythonStep,awake]

theorem pythonStep_escaped (asleep : python.escaped = true) (c : Char) (rest : List Char) :
    pythonStep python c rest = { python with escaped := false } := by
  simp [pythonStep,asleep]

theorem pythonAt_awake {chunk : List Char} (awake : python.escaped = false) (plain : ∀ c ∈ chunk, c ≠ '\\')
    (last : List Char) : (pythonAt chunk.length python (chunk ++ last)).escaped = false := by
  induction chunk generalizing python with
  | nil => exact awake
  | cons c chunk ih =>
    rw [List.forall_mem_cons] at plain
    exact ih (pythonStep_awake awake plain.1 _) plain.2

/-- What a step reads: an escape, or a character and others that neither escape nor open a brace. -/
inductive Shape : Char → List Char → Prop where
  | dangling : Shape '\\' []
  | escape (escaped : Char) {digits : List Char} (all : ∀ c ∈ digits, c.isDigit = true) : Shape '\\' (escaped :: digits)
  | plain {c : Char} {chunk : List Char} (first : c ≠ '\\') (all : ∀ d ∈ chunk, d ≠ '\\' ∧ d ≠ '\x7b') : Shape c chunk

theorem shape_alone {c : Char} (first : c ≠ '\\') : Shape c [] := .plain first (by simp)

theorem translateStep_shape {c : Char} {rest : List Char} {step : Step} (done : translateStep tables scan c rest = .ok step) :
    ∃ chunk last, rest = chunk ++ last ∧ step.length = 1 + chunk.length ∧ (chunk = [] → c = '\\' → rest = []) ∧
      Shape c chunk := by
  unfold translateStep at done
  split at done
  · rename_i backslash
    subst backslash
    obtain ⟨_,_,⟨rfl,size⟩ | ⟨escaped,digits,last,rfl,size,all⟩⟩ := translateEscape_reads done
    · exact ⟨[],[],rfl,size,fun _ _ => rfl,.dangling⟩
    · exact ⟨escaped :: digits,last,rfl,by rw [size,List.length_cons]; omega,fun none => (by cases none),.escape escaped all⟩
  · rename_i backslash
    have single : ∀ size, size = 1 → ∃ chunk last, rest = chunk ++ last ∧ size = 1 + chunk.length ∧
        (chunk = [] → c = '\\' → rest = []) ∧ Shape c chunk := fun size one =>
      ⟨[],rest,rfl,one,fun _ same => absurd same backslash,shape_alone backslash⟩
    split at done
    · cases done
      apply single
      unfold translateMember
      split <;> rfl
    · split at done
      · cases done
        exact single 1 rfl
      · split at done
        · rename_i parenthesis
          subst parenthesis
          obtain ⟨_,size,_⟩ := translateGroup_reads done
          by_cases alone : readWith tables ('(' :: rest) = 0
          · exact single _ (by omega)
          · obtain ⟨name,read,more⟩ := readWith_named alone
            obtain ⟨last,rfl,plain⟩ := pythonGroup_named read
            refine ⟨'?' :: '(' :: (name ++ [')']),last,by simp,by simp [size,more]; omega,fun none => (by cases none),
              .plain backslash ?_⟩
            intro d member
            simp only [List.mem_cons,List.mem_append,List.not_mem_nil,or_false] at member
            rcases member with rfl | rfl | inside | rfl
            · decide
            · decide
            · exact inert_ne (plain d inside)
            · decide
        · split at done
          · rename_i brace
            subst brace
            obtain ⟨_,_,chunk,last,rfl,size,plain⟩ := translateBrace_reads done
            exact ⟨chunk,last,rfl,size,fun _ same => absurd same backslash,.plain backslash fun d member => inert_ne (plain d member)⟩
          · cases done
            exact single 1 rfl

/-- Where a step begins, nothing is escaped. -/
theorem Reached.awake (reached : Reached tables body scan python text) : text = [] ∨ python.escaped = false := by
  induction reached with
  | start => exact .inr rfl
  | step before done ih =>
    have awake := ih.resolve_left (List.cons_ne_nil _ _)
    obtain ⟨chunk,last,rfl,size,ends,shape⟩ := translateStep_shape done
    rw [size,Nat.add_comm]
    cases shape with
    | dangling =>
      left
      rw [ends rfl rfl]
      rfl
    | escape escaped all =>
      right
      change (pythonAt (_ + 1) (pythonStep _ '\\' _) (escaped :: (_ ++ last))).escaped = false
      rw [pythonStep_backslash awake]
      change (pythonAt _ (pythonStep _ escaped _) (_ ++ last)).escaped = false
      rw [pythonStep_escaped rfl]
      apply pythonAt_awake rfl
      rintro c member rfl
      exact absurd (all _ member) (by decide)
    | plain first all =>
      right
      exact pythonAt_awake (pythonStep_awake awake first _) (fun d member => (all d member).1) last

/-- The place some steps further on. -/
def placeAfter (tables : CharTables) : Nat → Scan → PythonScan → List Char → Option (Scan × PythonScan × List Char)
  | 0,scan,python,text => some (scan,python,text)
  | _ + 1,_,_,[] => none
  | n + 1,scan,python,c :: rest =>
    match translateStep tables scan c rest with
    | .ok step => placeAfter tables n step.scan (pythonAt step.length python (c :: rest)) ((c :: rest).drop step.length)
    | .error _ => none

theorem Reached.after {n : Nat} {place : Scan × PythonScan × List Char} (reached : Reached tables body scan python text)
    (run : placeAfter tables n scan python text = some place) : Reached tables body place.1 place.2.1 place.2.2 := by
  induction n generalizing scan python text with
  | zero =>
    cases run
    exact reached
  | succ n ih =>
    cases text with
    | nil => cases run
    | cons c rest =>
      rw [placeAfter] at run
      cases done : translateStep tables scan c rest with
      | error failure =>
        rw [done] at run
        cases run
      | ok step =>
        rw [done] at run
        exact ih (reached.step done) run

/-! Characters that are written as they are, inside of classes and outside. -/
section Copies

def copies (c : Char) : Bool := !("\\[](\x7b".toList.contains c)

theorem copies_of {holds : Char → Bool} (special : ("\\[](\x7b".toList.all fun c => !holds c) = true) {c : Char}
    (held : holds c = true) : copies c = true := by
  cases member : "\\[](\x7b".toList.contains c with
  | false => exact congrArg not member
  | true =>
    have fails := List.all_eq_true.mp special c (List.contains_iff_mem.mp member)
    rw [held] at fails
    cases fails

theorem translateStep_copies {c : Char} (plain : copies c = true) (scan : Scan) (rest : List Char) :
    ∃ after, translateStep tables scan c rest = .ok ⟨1,[c],false,after⟩ ∧ after.inClass = scan.inClass := by
  have apart : ∀ d ∈ "\\[](\x7b".toList, c ≠ d := by
    rintro d member rfl
    have found : "\\[](\x7b".toList.contains c = true := List.contains_iff_mem.mpr member
    rw [copies,found] at plain
    cases plain
  have backslash := apart '\\' (by decide)
  have bracket := apart '[' (by decide)
  have closes := apart ']' (by decide)
  have parenthesis := apart '(' (by decide)
  have brace := apart '\x7b' (by decide)
  cases inside : scan.inClass with
  | true =>
    refine ⟨(translateMember scan c).scan,by simp [translateStep,translateMember,inside,backslash,bracket],?_⟩
    rw [translateMember_inClass inside,decide_eq_false closes]
    rfl
  | false => exact ⟨scan,by simp [translateStep,inside,backslash,bracket,parenthesis,brace],inside⟩

theorem translateFrom_copies {chunk : List Char} (plain : ∀ c ∈ chunk, copies c = true) (scan : Scan) (rest : List Char) :
    ∃ pieces final, translateFrom tables chunk.length scan (chunk ++ rest) = .ok (pieces,final) ∧
      (pieces.flatMap fun piece => piece.step.output) = chunk := by
  induction chunk generalizing scan with
  | nil =>
    refine ⟨[],scan,?_,rfl⟩
    cases rest <;> rfl
  | cons c chunk ih =>
    rw [List.forall_mem_cons] at plain
    obtain ⟨after,stepped,_⟩ := translateStep_copies plain.1 scan (chunk ++ rest)
    obtain ⟨pieces,final,further,outputs⟩ := ih plain.2 after
    refine ⟨⟨c :: (chunk ++ rest),scan.inClass,⟨1,[c],false,after⟩⟩ :: pieces,final,?_,?_⟩
    · rw [List.length_cons,List.cons_append,translateFrom,stepped]
      change (translateFrom tables chunk.length after (chunk ++ rest) >>= _) = _
      rw [further]
      rfl
    · rw [List.flatMap_cons,outputs]
      rfl

end Copies

end Qdrust.Pattern
