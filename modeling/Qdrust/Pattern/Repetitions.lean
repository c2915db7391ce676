import Qdrust.Library.Digits
import Qdrust.Pattern.Places

/-! What follows a brace: Python's reading of it, and what is written for it, at every
place of a pattern. -/
namespace Qdrust.Pattern
open Expression Library Digits

inductive BraceReading where
  | literal
  | refused
  | repeated (length low : Nat) (high : Option Nat)
deriving DecidableEq

/-- The branch of `sre_parse` for a brace, on the text after it. -/
def sreBrace (rest : List Char) : BraceReading :=
  if rest.head? = some '\x7d' then .literal
  else
    let lo := rest.takeWhile Char.isDigit
    let after := rest.dropWhile Char.isDigit
    let comma := after.head? = some ','
    let hi := if comma then after.tail.takeWhile Char.isDigit else lo
    let closing := if comma then after.tail.dropWhile Char.isDigit else after
    if closing.head? ≠ some '\x7d' then .literal
    else if hi ≠ [] ∧ natValue hi < natValue lo then .refused
    else .repeated (2 + rest.length - closing.length) (natValue lo) (if hi = [] then none else some (natValue hi))

/-- Neither in a class nor in a comment, and not escaped. -/
def PythonScan.ReadsBody (scan : PythonScan) : Prop := scan.escaped = false ∧ scan.mode = .body

instance (scan : PythonScan) : Decidable scan.ReadsBody := by unfold PythonScan.ReadsBody; infer_instance

def pythonBrace (scan : PythonScan) (text : List Char) : BraceReading :=
  if scan.ReadsBody then sreBrace text.tail else .literal

/-- What the translation makes of a brace some characters into a step: no repetition, an error,
or a repetition of the same length and with the same bounds, the first of them written. -/
def BraceRead (tables : CharTables) (scan : Scan) (c : Char) (rest : List Char) (offset : Nat) : BraceReading → Prop
  | .literal => ∃ step, translateStep tables scan c rest = .ok step ∧
      (offset = 0 ∧ step.length = 1 ∧ step.output = (if scan.inClass then ['\x7b'] else ['\\','\x7b']) ∨
        offset = 1 ∧ step.length = 2 ∧ step.output = ['\\','\x7b'])
  | .refused => offset = 0 ∧
      translateStep tables scan c rest = .error "a repetition whose minimum is greater than its maximum"
  | .repeated length low high => offset = 0 ∧ ∃ step digit written, translateStep tables scan c rest = .ok step ∧
      step.length = length ∧ step.output = '\x7b' :: digit :: written ∧ digit.isDigit = true ∧
        sreBrace (digit :: written) = .repeated step.output.length low high

/-- The comparison of digits is that of numbers. -/
theorem exceeds_iff {minimum maximum : List Char} (all : ∀ c ∈ minimum, c.isDigit = true)
    (more : ∀ c ∈ maximum, c.isDigit = true) : exceeds minimum maximum = true ↔ natValue maximum < natValue minimum := by
  have low : ∀ c ∈ minimum.dropWhile (· == '0'), c.isDigit = true := fun c member =>
    all c ((List.dropWhile_suffix _).subset member)
  have high : ∀ c ∈ maximum.dropWhile (· == '0'), c.isDigit = true := fun c member =>
    more c ((List.dropWhile_suffix _).subset member)
  simp only [exceeds,Bool.or_eq_true,Bool.and_eq_true,decide_eq_true_eq,beq_iff_eq]
  rcases Nat.lt_trichotomy (minimum.dropWhile (· == '0')).length (maximum.dropWhile (· == '0')).length with
    shorter | same | longer
  · have less := natValue_lt_of_length all more shorter
    exact iff_of_false (by omega) (by omega)
  · have order := natValue_lt_iff same.symm high low
    rw [natValue_dropZeros,natValue_dropZeros] at order
    rw [order]
    constructor
    · rintro (longer | ⟨_,below⟩)
      · omega
      · exact below
    · exact fun below => .inr ⟨same,below⟩
  · exact iff_of_true (.inl longer) (natValue_lt_of_length more all longer)

section Shapes

variable {digits minimum maximum : List Char}

theorem dropWhile_digits (all : ∀ c ∈ digits, c.isDigit = true) {stop : Char} (ends : stop.isDigit = false)
    (rest : List Char) : (digits ++ stop :: rest).dropWhile Char.isDigit = stop :: rest := by
  rw [List.dropWhile_append_of_pos all,List.dropWhile_cons_of_neg (by simp [ends])]

theorem head_digits (all : ∀ c ∈ digits, c.isDigit = true) (nonempty : digits ≠ []) (rest : List Char) :
    (digits ++ rest).head? ≠ some '\x7d' := by
  obtain ⟨digit,others,rfl⟩ := List.exists_cons_of_ne_nil nonempty
  intro same
  have brace : digit = '\x7d' := Option.some.inj same
  have digit := all digit List.mem_cons_self
  rw [brace] at digit
  exact absurd digit (by decide)

theorem sreBrace_exact (all : ∀ c ∈ digits, c.isDigit = true) (nonempty : digits ≠ []) (rest : List Char) :
    sreBrace (digits ++ '\x7d' :: rest) = .repeated (2 + digits.length) (natValue digits) (some (natValue digits)) := by
  have low := takeWhile_digits all (show ('\x7d').isDigit = false by decide) rest
  have after := dropWhile_digits all (show ('\x7d').isDigit = false by decide) rest
  simp only [sreBrace,low,after,if_neg (head_digits all nonempty _)]
  simp [nonempty]
  omega

theorem sreBrace_range (all : ∀ c ∈ minimum, c.isDigit = true) (more : ∀ c ∈ maximum, c.isDigit = true)
    (rest : List Char) : sreBrace (minimum ++ ',' :: (maximum ++ '\x7d' :: rest)) =
      if maximum ≠ [] ∧ natValue maximum < natValue minimum then .refused
      else .repeated (3 + minimum.length + maximum.length) (natValue minimum)
        (if maximum = [] then none else some (natValue maximum)) := by
  have first : (minimum ++ ',' :: (maximum ++ '\x7d' :: rest)).head? ≠ some '\x7d' := by
    cases minimum with
    | nil => simp
    | cons digit others => exact head_digits all (List.cons_ne_nil digit others) _
  have low := takeWhile_digits all (show (',').isDigit = false by decide) (maximum ++ '\x7d' :: rest)
  have after := dropWhile_digits all (show (',').isDigit = false by decide) (maximum ++ '\x7d' :: rest)
  have high := takeWhile_digits more (show ('\x7d').isDigit = false by decide) rest
  have closing := dropWhile_digits more (show ('\x7d').isDigit = false by decide) rest
  have size : 2 + (minimum ++ ',' :: (maximum ++ '\x7d' :: rest)).length - ('\x7d' :: rest).length =
      3 + minimum.length + maximum.length := by
    simp only [List.length_append,List.length_cons]
    omega
  simp only [sreBrace,if_neg first,low,after,List.head?_cons,if_true,List.tail_cons,high,closing,size]
  simp

/-- Whatever Python does not take for a brace is a repetition. -/
theorem sreBrace_begins {rest : List Char} (read : sreBrace rest ≠ .literal) : BeginsRepetition ('\x7b' :: rest) := by
  have all : ∀ text : List Char, ∀ c ∈ text.takeWhile Char.isDigit, c.isDigit = true :=
    fun text c member => List.mem_takeWhile_imp member
  have whole := List.takeWhile_append_dropWhile (p := Char.isDigit) (l := rest)
  unfold sreBrace at read
  split at read
  · exact absurd rfl read
  · rename_i closed
    by_cases comma : (rest.dropWhile Char.isDigit).head? = some ','
    · simp only [comma,if_true] at read
      split at read
      · exact absurd rfl read
      · rename_i passed
        rw [not_not] at passed
        set more := (rest.dropWhile Char.isDigit).tail with named
        refine ⟨rest.takeWhile Char.isDigit ++ ',' :: more.takeWhile Char.isDigit,(more.dropWhile Char.isDigit).tail,?_,
          .range _ _ (all rest) (all more)⟩
        rw [List.append_assoc,List.cons_append,← List.eq_cons_of_mem_head? passed,List.takeWhile_append_dropWhile,named,
          ← List.eq_cons_of_mem_head? comma,whole]
    · simp only [comma,if_false] at read
      split at read
      · exact absurd rfl read
      · rename_i passed
        rw [not_not] at passed
        refine ⟨rest.takeWhile Char.isDigit,(rest.dropWhile Char.isDigit).tail,?_,.exact ?_ (all rest)⟩
        · rw [← List.eq_cons_of_mem_head? passed,whole]
        · intro none
          rw [none,List.nil_append] at whole
          rw [whole] at passed
          exact closed passed

theorem sreBrace_literal {rest : List Char} (plain : ¬BeginsRepetition ('\x7b' :: rest)) : sreBrace rest = .literal := by
  by_contra read
  exact plain (sreBrace_begins read)

end Shapes

/-! What is written for a brace. -/
section Written

variable {digits minimum maximum : List Char} (scan : Scan)

theorem translateBrace_literal {rest : List Char} (plain : ¬BeginsRepetition ('\x7b' :: rest)) :
    translateBrace scan ('\x7b' :: rest) = .ok ⟨1,['\\','\x7b'],false,scan⟩ := by
  unfold translateBrace
  cases read : pythonRepetition ('\x7b' :: rest) with
  | none => rfl
  | some repetition =>
    obtain ⟨inner,last,rfl,repeated,_⟩ := pythonRepetition_some read
    exact absurd ⟨inner,last,rfl,repeated⟩ plain

theorem translateBrace_exact (all : ∀ c ∈ digits, c.isDigit = true) (nonempty : digits ≠ []) (rest : List Char) :
    translateBrace scan ('\x7b' :: (digits ++ '\x7d' :: rest)) =
      .ok ⟨2 + digits.length,'\x7b' :: (digits ++ ['\x7d']),false,scan⟩ := by
  have low := takeWhile_digits all (show ('\x7d').isDigit = false by decide) rest
  have read : pythonRepetition ('\x7b' :: (digits ++ '\x7d' :: rest)) = some ⟨2 + digits.length,false,false⟩ := by
    simp [pythonRepetition,low,nonempty]
    omega
  have taken : ('\x7b' :: (digits ++ '\x7d' :: rest)).take (2 + digits.length) = '\x7b' :: (digits ++ ['\x7d']) := by
    rw [show 2 + digits.length = ('\x7b' :: (digits ++ ['\x7d'])).length by simp; omega]
    rw [show '\x7b' :: (digits ++ '\x7d' :: rest) = '\x7b' :: (digits ++ ['\x7d']) ++ rest by simp,List.take_left]
  rw [translateBrace,read]
  simp only [Bool.false_eq_true,if_false,taken]

theorem translateBrace_range (all : ∀ c ∈ minimum, c.isDigit = true) (more : ∀ c ∈ maximum, c.isDigit = true)
    (rest : List Char) : translateBrace scan ('\x7b' :: (minimum ++ ',' :: (maximum ++ '\x7d' :: rest))) =
      if maximum ≠ [] ∧ natValue maximum < natValue minimum then
        .error "a repetition whose minimum is greater than its maximum"
      else .ok ⟨3 + minimum.length + maximum.length,
        '\x7b' :: ((if minimum = [] then ['0'] else minimum) ++ ',' :: (maximum ++ ['\x7d'])),false,scan⟩ := by
  have low := takeWhile_digits all (show (',').isDigit = false by decide) (maximum ++ '\x7d' :: rest)
  have high := takeWhile_digits more (show ('\x7d').isDigit = false by decide) rest
  have read : pythonRepetition ('\x7b' :: (minimum ++ ',' :: (maximum ++ '\x7d' :: rest))) =
      some ⟨3 + minimum.length + maximum.length,minimum.isEmpty,
        decide (minimum ≠ []) && decide (maximum ≠ []) && exceeds minimum maximum⟩ := by
    simp [pythonRepetition,low,high]
    omega
  have split : '\x7b' :: (minimum ++ ',' :: (maximum ++ '\x7d' :: rest)) =
      ('\x7b' :: (minimum ++ ',' :: (maximum ++ ['\x7d']))) ++ rest := by simp
  have taken : ('\x7b' :: (minimum ++ ',' :: (maximum ++ '\x7d' :: rest))).take (3 + minimum.length + maximum.length) =
      '\x7b' :: (minimum ++ ',' :: (maximum ++ ['\x7d'])) := by
    rw [split]
    apply List.take_left'
    simp
    omega
  have verdict : (decide (minimum ≠ []) && decide (maximum ≠ []) && exceeds minimum maximum) = true ↔
      maximum ≠ [] ∧ natValue maximum < natValue minimum := by
    rw [Bool.and_eq_true,Bool.and_eq_true,decide_eq_true_eq,decide_eq_true_eq,exceeds_iff all more]
    constructor
    · exact fun both => ⟨both.1.2,both.2⟩
    · rintro ⟨some,greater⟩
      refine ⟨⟨?_,some⟩,greater⟩
      rintro rfl
      exact absurd greater (Nat.not_lt_zero _)
  rw [translateBrace,read]
  simp only [taken,verdict]
  split
  · rfl
  · cases minimum <;> rfl

end Written

section Places

variable {tables : CharTables} {scan : Scan} {python : PythonScan} {rest : List Char}

theorem translateStep_brace (outside : scan.inClass = false) :
    translateStep tables scan '\x7b' rest = translateBrace scan ('\x7b' :: rest) := by
  simp [translateStep,outside]

theorem translateStep_member (inside : scan.inClass = true) :
    translateStep tables scan '\x7b' rest = .ok ⟨1,['\x7b'],false,{ scan with classHead := false }⟩ := by
  simp [translateStep,inside,translateMember]

theorem translateStep_escaped (last : List Char) : translateStep tables scan '\\' ('\x7b' :: last) =
    .ok ⟨2,['\\','\x7b'],false,{ scan with classHead := false }⟩ := by
  have known : meansItself '\x7b' = false ∧ knowsEscape '\x7b' = true := by decide
  simp [translateStep,translateEscape,pythonNumberedEscape,octalSpan,known,bind,Except.bind,pure,Except.pure]

/-- Outside of a class the brace is read as `sre_parse` reads it. -/
theorem brace_outside (outside : scan.inClass = false) : BraceRead tables scan '\x7b' rest 0 (sreBrace rest) := by
  have written : translateStep tables scan '\x7b' rest = _ := translateStep_brace outside
  by_cases begins : BeginsRepetition ('\x7b' :: rest)
  · obtain ⟨inner,last,same,repeated⟩ := begins
    obtain rfl := (List.cons.inj same).2
    cases repeated with
    | exact nonempty all =>
      rw [sreBrace_exact all nonempty]
      rw [translateBrace_exact scan all nonempty] at written
      obtain ⟨digit,others,rfl⟩ := List.exists_cons_of_ne_nil nonempty
      refine ⟨rfl,_,digit,others ++ ['\x7d'],written,rfl,rfl,all digit List.mem_cons_self,?_⟩
      have again := sreBrace_exact all nonempty []
      rw [List.cons_append] at again
      rw [again]
      congr 1
      simp
      omega
    | range minimum maximum all more =>
      rw [List.append_assoc,List.cons_append] at written ⊢
      rw [translateBrace_range scan all more] at written
      rw [sreBrace_range all more]
      split
      · rename_i greater
        rw [if_pos greater] at written
        exact ⟨rfl,written⟩
      · rename_i fits
        rw [if_neg fits] at written
        obtain ⟨digit,others,shape,digits,value⟩ : ∃ digit others,
            (if minimum = [] then ['0'] else minimum) = digit :: others ∧ (∀ c ∈ digit :: others, c.isDigit = true) ∧
              natValue (digit :: others) = natValue minimum := by
          cases minimum with
          | nil => exact ⟨'0',[],rfl,List.all_eq_true.mp rfl,by decide⟩
          | cons digit others => exact ⟨digit,others,rfl,all,rfl⟩
        rw [shape] at written
        refine ⟨rfl,_,digit,others ++ ',' :: (maximum ++ ['\x7d']),written,rfl,rfl,digits digit List.mem_cons_self,?_⟩
        have again := sreBrace_range digits more []
        rw [value,if_neg fits,List.cons_append] at again
        rw [again]
        congr 1
        simp
        omega
  · rw [sreBrace_literal begins]
    rw [translateBrace_literal scan begins] at written
    refine ⟨_,written,.inl ⟨rfl,rfl,?_⟩⟩
    rw [outside]
    rfl

theorem sreBrace_repetition (begins : BeginsRepetition ('\x7b' :: rest)) : sreBrace rest ≠ .literal := by
  obtain ⟨inner,last,same,repeated⟩ := begins
  obtain rfl := (List.cons.inj same).2
  cases repeated with
  | exact nonempty all =>
    rw [sreBrace_exact all nonempty]
    exact fun same => by cases same
  | range minimum maximum all more =>
    rw [List.append_assoc,List.cons_append,sreBrace_range all more]
    split <;> exact fun same => by cases same

/-- A repetition is more than a character. -/
theorem brace_not_literal (outside : scan.inClass = false) (begins : BeginsRepetition ('\x7b' :: rest)) :
    ¬BraceRead tables scan '\x7b' rest 0 .literal := by
  have read : BraceRead tables scan '\x7b' rest 0 (sreBrace rest) := brace_outside outside
  rintro ⟨step,done,⟨_,_,single⟩ | ⟨one,_⟩⟩
  · cases kind : sreBrace rest with
    | literal => exact sreBrace_repetition begins kind
    | refused =>
      rw [kind] at read
      rw [read.2] at done
      cases done
    | repeated length low high =>
      rw [kind] at read
      obtain ⟨_,step',digit,written,again,_,output,is,_⟩ := read
      obtain rfl := Except.ok.inj (again.symm.trans done)
      rw [outside,output] at single
      have front := List.head_eq_of_cons_eq single
      exact absurd front (by decide)
  · cases one

theorem brace_member (inside : scan.inClass = true) (reading : BraceReading) :
    BraceRead tables scan '\x7b' rest 0 reading ↔ reading = .literal := by
  have written : translateStep tables scan '\x7b' rest = _ := translateStep_member inside
  constructor
  · intro read
    cases reading with
    | literal => rfl
    | refused =>
      rw [read.2] at written
      cases written
    | repeated length low high =>
      obtain ⟨_,step,digit,more,again,_,output,_⟩ := read
      obtain rfl := Except.ok.inj (again.symm.trans written)
      cases output
  · rintro rfl
    refine ⟨_,written,.inl ⟨rfl,rfl,?_⟩⟩
    rw [inside]
    rfl

theorem brace_head (scan : Scan) (python : PythonScan) (rest : List Char) :
    BraceRead tables scan '\x7b' rest 0 (pythonBrace python ('\x7b' :: rest)) ↔
      (BeginsRepetition ('\x7b' :: rest) → (scan.inClass = false ↔ python.ReadsBody)) := by
  unfold pythonBrace
  cases inside : scan.inClass with
  | true =>
    rw [brace_member inside]
    by_cases body : python.ReadsBody
    · rw [if_pos body]
      constructor
      · intro literal begins
        exact absurd literal (sreBrace_repetition begins)
      · intro alike
        exact sreBrace_literal fun begins => absurd ((alike begins).mpr body) (by decide)
    · rw [if_neg body]
      exact iff_of_true rfl fun _ => iff_of_false (by decide) body
  | false =>
    by_cases body : python.ReadsBody
    · rw [if_pos body]
      exact iff_of_true (brace_outside inside) fun _ => iff_of_true rfl body
    · rw [if_neg body]
      constructor
      · exact fun literal begins => absurd literal (brace_not_literal inside begins)
      · intro alike
        have plain : ¬BeginsRepetition ('\x7b' :: rest) := fun begins => body ((alike begins).mp rfl)
        have read : BraceRead tables scan '\x7b' rest 0 (sreBrace rest) := brace_outside inside
        rwa [sreBrace_literal plain] at read

/-- A brace inside a step is part of an escape. -/
theorem brace_inner {c : Char} {step : Step} {offset : Nat} (done : translateStep tables scan c rest = .ok step)
    (within : offset + 1 < step.length) (brace : rest[offset]? = some '\x7b') :
    c = '\\' ∧ offset = 0 ∧ ∃ last, rest = '\x7b' :: last := by
  obtain ⟨chunk,last,rfl,size,_,shape⟩ := translateStep_shape done
  rw [List.getElem?_append_left (by omega)] at brace
  have member := List.mem_of_getElem? brace
  cases shape with
  | dangling => cases member
  | plain first all => exact absurd rfl (all _ member).2
  | escape escaped all =>
    cases offset with
    | zero =>
      obtain rfl : escaped = '\x7b' := Option.some.inj brace
      exact ⟨rfl,rfl,_,rfl⟩
    | succ offset =>
      have digit := all _ (List.mem_of_getElem? brace)
      exact absurd digit (by decide)

end Places

end Qdrust.Pattern
