import Qdrust.Library.Digits
import Qdrust.Pattern.Places

/-! A backslash before digits: the character or the group that Python reads, and the one
the engines read in what is written for it. -/
namespace Qdrust.Pattern
open Expression Library Digits

inductive NumberToken where
  | character (value : Nat)
  | reference (group : Nat)
  | refused
deriving DecidableEq

/-- A character no larger than a byte, and the digits behind it. -/
def octalCharacter (digits left : List Char) : NumberToken × List Char :=
  if octalValue digits > 255 then (.refused,[]) else (.character (octalValue digits),left)

/-- `source.getwhile(2, OCTDIGITS)`. -/
def twoOctal (digits : List Char) : List Char := (digits.take 2).takeWhile octalDigit

/-- Outside of a class, where the first digit is no zero: one or two digits name a group. -/
def sreReference (first : Char) : List Char → NumberToken × List Char
  | second :: third :: last =>
    if octalDigit first && octalDigit second && octalDigit third then octalCharacter [first,second,third] last
    else (.reference (natValue [first,second]),third :: last)
  | rest => (.reference (natValue (first :: rest)),[])

/-- How `sre_parse` reads the digits after a backslash, inside of a class or outside. -/
def sreNumber (inside : Bool) : List Char → NumberToken × List Char
  | [] => (.refused,[])
  | first :: rest =>
    if first = '0' then (.character (octalValue (first :: twoOctal rest)),rest.drop (twoOctal rest).length)
    else if inside then
      if octalDigit first then octalCharacter (first :: twoOctal rest) (rest.drop (twoOctal rest).length) else (.refused,[])
    else sreReference first rest

def hexValue (c : Char) : Nat := if c.isDigit then c.toNat - 48 else c.toNat - 87

/-- How the engines read it: `\x` and two digits are a character, other digits are the number of a
group, which no class has. -/
def engineNumber (inside : Bool) : List Char → NumberToken × List Char
  | '\\' :: 'x' :: high :: low :: left => (.character (hexValue high * 16 + hexValue low),left)
  | '\\' :: digits => if inside then (.refused,[]) else (.reference (natValue digits),[])
  | _ => (.refused,[])

/-- What is written for a step, and for the single characters after it, up to a length. -/
def writtenFor (tables : CharTables) (length : Nat) (scan : Scan) (c : Char) (rest : List Char) :
    Except String (List Char) := do
  let step ← translateStep tables scan c rest
  let (pieces,_) ← translateFrom tables (length - step.length) step.scan ((c :: rest).drop step.length)
  return step.output ++ pieces.flatMap fun piece => piece.step.output

/-- The token an escape is translated to. -/
def translatedNumber (tables : CharTables) (scan : Scan) (digits rest : List Char) : NumberToken × List Char :=
  match writtenFor tables (1 + digits.length) scan '\\' (digits ++ rest) with
  | .error _ => (.refused,[])
  | .ok written => engineNumber scan.inClass written

/-- Python's token for digits after a backslash; a comment has none, and an escaped backslash. -/
def pythonNumber (python : PythonScan) (digits : List Char) : Option (NumberToken × List Char) :=
  if python.escaped then none
  else match python.mode with
    | .aside | .remark => none
    | mode => some (sreNumber mode.inside digits)

/-- The token is the one Python reads; where Python reads none, the pattern is not refused. -/
def NumberRead (tables : CharTables) (scan : Scan) (digits rest : List Char) : Option (NumberToken × List Char) → Prop
  | some token => translatedNumber tables scan digits rest = token
  | none => ∃ written, writtenFor tables (1 + digits.length) scan '\\' (digits ++ rest) = .ok written

/-- A zero or three octal digits: a character inside of classes and outside. -/
def classFree (digits : List Char) : Bool :=
  digits.head? = some '0' || (decide (3 ≤ digits.length) && (digits.take 3).all octalDigit)

/-- Three octal digits of a number that is no byte. -/
def aboveByte (digits : List Char) : Bool :=
  decide (3 ≤ digits.length) && (digits.take 3).all octalDigit && decide (octalValue (digits.take 3) > 255)

section Reading

variable {first : Char} {rest : List Char}

theorem twoOctal_eq (rest : List Char) : twoOctal rest = rest.take (min (rest.takeWhile octalDigit).length 2) := by
  match rest with
  | [] => rfl
  | [a] => cases octal : octalDigit a <;> simp [twoOctal,octal]
  | a :: b :: last => cases octal : octalDigit a <;> cases more : octalDigit b <;> simp [twoOctal,octal,more]

theorem twoOctal_length (rest : List Char) : (twoOctal rest).length = min (rest.takeWhile octalDigit).length 2 := by
  have bound : (rest.takeWhile octalDigit).length ≤ rest.length := (List.takeWhile_prefix _).length_le
  rw [twoOctal_eq,List.length_take]
  omega

theorem octalSpan_zero (rest : List Char) (inClass : Bool) :
    octalSpan ('0' :: rest) inClass = some (1 + (twoOctal rest).length) := by
  have octal : octalDigit '0' = true := by decide
  simp [octalSpan,octal,twoOctal_length]

theorem octalSpan_inside (nonzero : first ≠ '0') (rest : List Char) :
    octalSpan (first :: rest) true = if octalDigit first then some (1 + (twoOctal rest).length) else none := by
  cases octal : octalDigit first with
  | false => simp [octalSpan,nonzero,octal]
  | true =>
    simp [octalSpan,nonzero,octal,twoOctal_length]
    omega

theorem octalSpan_outside (nonzero : first ≠ '0') (rest : List Char) :
    octalSpan (first :: rest) false = if octalDigit first ∧ (twoOctal rest).length = 2 then some 3 else none := by
  cases octal : octalDigit first with
  | false => simp [octalSpan,nonzero,octal]
  | true =>
    simp only [octalSpan,nonzero,octal,twoOctal_length,List.takeWhile_cons_of_pos,List.length_cons,if_false,
      Bool.false_eq_true,true_and]
    split_ifs <;> first | rfl | omega

theorem twoOctal_two (rest : List Char) :
    (twoOctal rest).length = 2 ↔ ∃ second third last, rest = second :: third :: last ∧
      octalDigit second = true ∧ octalDigit third = true := by
  match rest with
  | [] => simp [twoOctal]
  | [a] => cases octal : octalDigit a <;> simp [twoOctal,octal]
  | a :: b :: last => cases octal : octalDigit a <;> cases more : octalDigit b <;> simp [twoOctal,octal,more]

/-- The reading the translation has of digits. -/
def codeNumber (inside : Bool) (digits : List Char) : NumberToken × List Char :=
  match octalSpan digits inside with
  | none => if inside then (.refused,[]) else (.reference (natValue digits),[])
  | some span => octalCharacter (digits.take span) (digits.drop span)

theorem octal_small {c : Char} (octal : octalDigit c = true) : c.toNat - 48 ≤ 7 := by
  simp only [octalDigit,Bool.and_eq_true,decide_eq_true_eq] at octal
  have bound : c.toNat ≤ 55 := octal.2
  omega

theorem zero_small (rest : List Char) : ¬octalValue ('0' :: twoOctal rest) > 255 := by
  match rest with
  | [] => decide
  | [a] =>
    cases octal : octalDigit a with
    | false => simp [twoOctal,octal,octalValue]
    | true =>
      have small := octal_small octal
      simp [twoOctal,octal,octalValue]
      omega
  | a :: b :: last =>
    cases octal : octalDigit a with
    | false => simp [twoOctal,octal,octalValue]
    | true =>
      have small := octal_small octal
      cases more : octalDigit b with
      | false =>
        simp [twoOctal,octal,more,octalValue]
        omega
      | true =>
        have smaller := octal_small more
        simp [twoOctal,octal,more,octalValue]
        omega

theorem octal_taken (first : Char) (rest left : List Char) :
    octalCharacter ((first :: rest).take (1 + (twoOctal rest).length)) left = octalCharacter (first :: twoOctal rest) left := by
  rw [Nat.add_comm,List.take_succ_cons,twoOctal_length,← twoOctal_eq]

theorem codeNumber_zero (inside other : Bool) (rest : List Char) :
    codeNumber inside ('0' :: rest) = sreNumber other ('0' :: rest) := by
  rw [codeNumber,octalSpan_zero]
  simp only []
  rw [octal_taken,octalCharacter,if_neg (zero_small rest),sreNumber,if_pos rfl,Nat.add_comm,List.drop_succ_cons]

theorem codeNumber_three {second third : Char} {last : List Char} (nonzero : first ≠ '0') (one : octalDigit first = true)
    (two : octalDigit second = true) (three : octalDigit third = true) (inside other : Bool) :
    codeNumber inside (first :: second :: third :: last) = sreNumber other (first :: second :: third :: last) := by
  have both : twoOctal (second :: third :: last) = [second,third] := by simp [twoOctal,two,three]
  have read : codeNumber inside (first :: second :: third :: last) = octalCharacter [first,second,third] last := by
    cases inside with
    | true =>
      rw [codeNumber,octalSpan_inside nonzero,if_pos one,both]
      rfl
    | false =>
      rw [codeNumber,octalSpan_outside nonzero,if_pos ⟨one,by rw [both]; rfl⟩]
      rfl
  rw [read,sreNumber,if_neg nonzero]
  cases other with
  | true =>
    rw [if_pos rfl,if_pos one,both]
    rfl
  | false =>
    rw [if_neg (by decide),sreReference,one,two,three]
    rfl

theorem codeNumber_inside (nonzero : first ≠ '0') (rest : List Char) :
    codeNumber true (first :: rest) = sreNumber true (first :: rest) := by
  rw [codeNumber,octalSpan_inside nonzero,sreNumber,if_neg nonzero,if_pos rfl]
  cases octal : octalDigit first with
  | false => rfl
  | true =>
    simp only [if_true]
    rw [octal_taken,Nat.add_comm,List.drop_succ_cons]

theorem classFree_cons (nonzero : first ≠ '0') (rest : List Char) :
    classFree (first :: rest) = true ↔ octalDigit first = true ∧ (twoOctal rest).length = 2 := by
  match rest with
  | [] => simp [classFree,nonzero,twoOctal]
  | [a] => cases octal : octalDigit a <;> simp [classFree,nonzero,twoOctal,octal]
  | a :: b :: last =>
    cases octal : octalDigit a <;> cases more : octalDigit b <;> simp [classFree,nonzero,twoOctal,octal,more]

/-- Digits that are one character wherever they stand are read so by both. -/
theorem codeNumber_free {digits : List Char} (free : classFree digits = true) (inside other : Bool) :
    codeNumber inside digits = sreNumber other digits := by
  cases digits with
  | nil => cases free
  | cons first rest =>
    by_cases zero : first = '0'
    · subst zero
      exact codeNumber_zero inside other rest
    · obtain ⟨one,two⟩ := (classFree_cons zero rest).mp free
      obtain ⟨second,third,last,rfl,both,three⟩ := (twoOctal_two rest).mp two
      exact codeNumber_three zero one both three inside other

theorem octalCharacter_no_reference (digits left : List Char) (group : Nat) (other : List Char) :
    octalCharacter digits left ≠ (.reference group,other) := by
  unfold octalCharacter
  split <;> exact fun same => by cases same

/-- Otherwise they are a reference outside of classes, and none inside. -/
theorem sreReference_of {rest : List Char} (free : classFree (first :: rest) = false) (nonzero : first ≠ '0') :
    ∃ group left, sreReference first rest = (.reference group,left) ∧
      ((.reference (natValue (first :: rest)),[]) = sreReference first rest ↔ rest.length ≤ 1) := by
  match rest with
  | [] => exact ⟨_,_,rfl,iff_of_true rfl (by decide)⟩
  | [second] => exact ⟨_,_,rfl,iff_of_true rfl (Nat.le_refl 1)⟩
  | second :: third :: last =>
    have apart : (octalDigit first && octalDigit second && octalDigit third) = false := by
      rw [Bool.eq_false_iff]
      intro all
      simp only [Bool.and_eq_true] at all
      have two : (twoOctal (second :: third :: last)).length = 2 := (twoOctal_two _).mpr ⟨_,_,_,rfl,all.1.2,all.2⟩
      rw [(classFree_cons nonzero _).mpr ⟨all.1.1,two⟩] at free
      cases free
    have read : sreReference first (second :: third :: last) = (.reference (natValue [first,second]),third :: last) := by
      rw [sreReference,apart]
      rfl
    refine ⟨_,_,read,?_⟩
    rw [read]
    exact iff_of_false (fun same => by cases (Prod.mk.inj same).2) (by simp)

theorem codeNumber_outside {rest : List Char} (free : classFree (first :: rest) = false) (nonzero : first ≠ '0') :
    codeNumber false (first :: rest) = (.reference (natValue (first :: rest)),[]) := by
  have plain : ¬(octalDigit first = true ∧ (twoOctal rest).length = 2) := by
    rw [← classFree_cons nonzero,free]
    decide
  rw [codeNumber,octalSpan_outside nonzero,if_neg plain]
  rfl

theorem sreNumber_inside_no_reference (nonzero : first ≠ '0') (rest : List Char) (group : Nat) (left : List Char) :
    sreNumber true (first :: rest) ≠ (.reference group,left) := by
  rw [sreNumber,if_neg nonzero,if_pos rfl]
  split
  · exact octalCharacter_no_reference _ _ group left
  · exact fun same => by cases same

/-- When the two readings of digits are the same. -/
theorem codeNumber_iff {digits : List Char} (nonempty : digits ≠ []) (code inside : Bool) :
    codeNumber code digits = sreNumber inside digits ↔
      classFree digits = true ∨ code = inside ∧ (inside = true ∨ digits.length ≤ 2) := by
  cases free : classFree digits with
  | true => exact iff_of_true (codeNumber_free free code inside) (.inl rfl)
  | false =>
    obtain ⟨first,rest,rfl⟩ := List.exists_cons_of_ne_nil nonempty
    have nonzero : first ≠ '0' := by
      rintro rfl
      cases free
    have outside : sreNumber false (first :: rest) = sreReference first rest := by
      rw [sreNumber,if_neg nonzero]
      rfl
    obtain ⟨group,left,reference,short⟩ := sreReference_of free nonzero
    rw [or_iff_right (by decide)]
    cases code with
    | true =>
      cases inside with
      | true => exact iff_of_true (codeNumber_inside nonzero rest) ⟨rfl,.inl rfl⟩
      | false =>
        refine iff_of_false ?_ fun both => absurd both.1 (by decide)
        rw [codeNumber_inside nonzero,outside,reference]
        exact sreNumber_inside_no_reference nonzero rest group left
    | false =>
      rw [codeNumber_outside free nonzero]
      cases inside with
      | true =>
        refine iff_of_false (fun same => ?_) fun both => absurd both.1 (by decide)
        exact sreNumber_inside_no_reference nonzero rest _ _ same.symm
      | false =>
        rw [outside,short,List.length_cons]
        constructor
        · exact fun few => ⟨rfl,.inr (by omega)⟩
        · rintro ⟨_,absurd' | few⟩
          · cases absurd'
          · omega

theorem take_octal (first : Char) (rest : List Char) :
    (first :: rest).take (1 + (twoOctal rest).length) = first :: twoOctal rest := by
  rw [Nat.add_comm,List.take_succ_cons,twoOctal_length,← twoOctal_eq]

theorem value_small (one : octalDigit first = true) (few : (twoOctal rest).length ≠ 2) :
    ¬octalValue (first :: twoOctal rest) > 255 := by
  have small := octal_small one
  match rest with
  | [] =>
    simp [twoOctal,octalValue]
    omega
  | [a] =>
    cases octal : octalDigit a with
    | false =>
      simp [twoOctal,octal,octalValue]
      omega
    | true =>
      have smaller := octal_small octal
      simp [twoOctal,octal,octalValue]
      omega
  | a :: b :: last =>
    cases octal : octalDigit a with
    | false =>
      simp [twoOctal,octal,octalValue]
      omega
    | true =>
      have smaller := octal_small octal
      cases more : octalDigit b with
      | false =>
        simp [twoOctal,octal,more,octalValue]
        omega
      | true => simp [twoOctal,octal,more] at few

theorem aboveByte_cons (first : Char) (rest : List Char) : aboveByte (first :: rest) = true ↔
    octalDigit first = true ∧ (twoOctal rest).length = 2 ∧ octalValue (first :: twoOctal rest) > 255 := by
  match rest with
  | [] => simp [aboveByte,twoOctal]
  | [a] => cases octal : octalDigit a <;> simp [aboveByte,twoOctal,octal]
  | a :: b :: last =>
    cases octal : octalDigit a <;> cases more : octalDigit b <;> simp [aboveByte,twoOctal,octal,more]

/-- The numbers that are refused. -/
theorem refuses_iff (digits : List Char) (inside : Bool) :
    (∃ span, octalSpan digits inside = some span ∧ octalValue (digits.take span) > 255) ↔ aboveByte digits = true := by
  cases digits with
  | nil => simp [octalSpan,aboveByte]
  | cons first rest =>
    rw [aboveByte_cons]
    by_cases zero : first = '0'
    · subst zero
      refine iff_of_false ?_ fun above => zero_small rest above.2.2
      rintro ⟨span,read,large⟩
      rw [octalSpan_zero] at read
      rw [← Option.some.inj read,take_octal] at large
      exact zero_small rest large
    · cases inside with
      | true =>
        rw [octalSpan_inside zero]
        constructor
        · rintro ⟨span,read,large⟩
          split at read
          · rename_i one
            rw [← Option.some.inj read,take_octal] at large
            refine ⟨one,?_,large⟩
            by_contra few
            exact value_small one few large
          · cases read
        · rintro ⟨one,_,large⟩
          rw [if_pos one]
          exact ⟨_,rfl,by rw [take_octal]; exact large⟩
      | false =>
        rw [octalSpan_outside zero]
        constructor
        · rintro ⟨span,read,large⟩
          split at read
          · rename_i three
            rw [← Option.some.inj read,show 3 = 1 + (twoOctal rest).length by rw [three.2],take_octal] at large
            exact ⟨three.1,three.2,large⟩
          · cases read
        · rintro ⟨one,two,large⟩
          rw [if_pos ⟨one,two⟩]
          exact ⟨3,rfl,by rw [show 3 = 1 + (twoOctal rest).length by rw [two],take_octal]; exact large⟩

end Reading

section Written

variable {tables : CharTables} {digits rest : List Char}

theorem hexValue_hexDigit : ∀ n < 16, hexValue (hexDigit n) = n := by
  decide

theorem hexValue_written {value : Nat} (small : ¬value > 255) :
    hexValue (hexDigit (value / 16)) * 16 + hexValue (hexDigit (value % 16)) = value := by
  rw [hexValue_hexDigit _ (by omega),hexValue_hexDigit _ (by omega)]
  omega

theorem digit_plain {c : Char} (digit : c.isDigit = true) :
    c ≠ 'Z' ∧ c ≠ 'N' ∧ c ≠ 'x' ∧ meansItself c = false ∧ knowsEscape c = true ∧ copies c = true := by
  have bound := isDigit_iff.mp digit
  have other : ∀ d : Char, d.isDigit = false → c ≠ d := by
    rintro d no rfl
    rw [digit] at no
    cases no
  refine ⟨other 'Z' (by decide),other 'N' (by decide),other 'x' (by decide),?_,?_,?_⟩
  · have outside : asciiPunctuation c = false := by
      simp only [asciiPunctuation,Bool.or_eq_false_iff,Bool.and_eq_false_iff,decide_eq_false_iff_not]
      omega
    rw [meansItself,outside]
    rfl
  · have letter : c.isAlpha = false := by
      rw [Bool.eq_false_iff]
      intro alpha
      have last : c.toNat ≤ 57 := bound.2
      have cased : c.isUpper = true ∨ c.isLower = true := (Bool.or_eq_true _ _).mp alpha
      rcases cased with upper | lower
      · have first : 65 ≤ c.toNat := (of_decide_eq_true upper).1
        omega
      · have first : 97 ≤ c.toNat := of_decide_eq_true ((Bool.and_eq_true _ _).mp lower).1
        omega
    rw [knowsEscape,letter]
    rfl
  · exact copies_of rfl digit

theorem translateStep_number (nonempty : digits ≠ []) (all : ∀ c ∈ digits, c.isDigit = true)
    (ends : ∀ c ∈ rest.head?, c.isDigit = false) (scan : Scan) :
    translateStep tables scan '\\' (digits ++ rest) =
      match octalSpan digits scan.inClass with
      | none => .ok ⟨2,'\\' :: digits.take 1,false,{ scan with classHead := false }⟩
      | some span =>
        if octalValue (digits.take span) > 255 then .error "an octal escape above `\\377`, which Python refuses"
        else .ok ⟨1 + span,['\\','x',hexDigit (octalValue (digits.take span) / 16),
          hexDigit (octalValue (digits.take span) % 16)],false,{ scan with classHead := false }⟩ := by
  obtain ⟨first,others,rfl⟩ := List.exists_cons_of_ne_nil nonempty
  obtain ⟨noZ,noN,_,notItself,known,_⟩ := digit_plain (all first List.mem_cons_self)
  have run : (first :: others ++ rest).takeWhile Char.isDigit = first :: others := by
    rw [List.takeWhile_append_of_pos all]
    cases rest with
    | nil => simp
    | cons c last => rw [List.takeWhile_cons_of_neg (by rw [ends c rfl]; decide),List.append_nil]
  have step : translateStep tables scan '\\' (first :: others ++ rest) =
      translateEscape scan (first :: others ++ rest) := by
    rw [translateStep,if_pos rfl]
  rw [step]
  unfold translateEscape
  rw [run]
  simp only [List.cons_append,List.head?_cons,noZ,noN,decide_false,Bool.and_false,Bool.false_eq_true,if_false]
  unfold pythonNumberedEscape
  cases octalSpan (first :: others) scan.inClass with
  | none =>
    simp only [bind,Except.bind,notItself,known]
    rfl
  | some span =>
    simp only []
    split <;> rfl

/-- What is written for a step and the characters after it. -/
theorem writtenFor_copies {scan : Scan} {c : Char} {chunk copied last : List Char} {step : Step}
    (done : translateStep tables scan c (chunk ++ (copied ++ last)) = .ok step) (size : step.length = 1 + chunk.length)
    (plain : ∀ d ∈ copied, copies d = true) :
    writtenFor tables (1 + chunk.length + copied.length) scan c (chunk ++ (copied ++ last)) = .ok (step.output ++ copied) := by
  obtain ⟨pieces,final,further,outputs⟩ : ∃ pieces final,
      translateFrom tables copied.length step.scan (copied ++ last) = .ok (pieces,final) ∧
        (pieces.flatMap fun piece => piece.step.output) = copied := translateFrom_copies plain step.scan last
  have left : (c :: (chunk ++ (copied ++ last))).drop step.length = copied ++ last := by
    rw [size,Nat.add_comm,List.drop_succ_cons,List.drop_left]
  have few : 1 + chunk.length + copied.length - step.length = copied.length := by omega
  rw [writtenFor,done]
  change (translateFrom tables (1 + chunk.length + copied.length - step.length) step.scan
    ((c :: (chunk ++ (copied ++ last))).drop step.length) >>= _) = _
  rw [left,few,further]
  change Except.ok (step.output ++ pieces.flatMap fun piece => piece.step.output) = _
  rw [outputs]

theorem writtenFor_error {scan : Scan} {c : Char} {rest : List Char} {failure : String} (length : Nat)
    (failed : translateStep tables scan c rest = .error failure) : writtenFor tables length scan c rest = .error failure := by
  rw [writtenFor,failed]
  rfl

theorem octalSpan_bound {span : Nat} {inside : Bool} (read : octalSpan digits inside = some span) :
    digits = digits.take span ++ digits.drop span ∧ (digits.take span).length = span ∧ 1 ≤ span := by
  obtain ⟨positive,bound⟩ := octalSpan_le digits inside read
  exact ⟨(List.take_append_drop span digits).symm,by rw [List.length_take]; omega,positive⟩

/-- The text that is written for an escape with digits, or its refusal. -/
theorem writtenFor_number (nonempty : digits ≠ []) (all : ∀ c ∈ digits, c.isDigit = true)
    (ends : ∀ c ∈ rest.head?, c.isDigit = false) (scan : Scan) :
    writtenFor tables (1 + digits.length) scan '\\' (digits ++ rest) =
      match octalSpan digits scan.inClass with
      | none => .ok ('\\' :: digits)
      | some span =>
        if octalValue (digits.take span) > 255 then .error "an octal escape above `\\377`, which Python refuses"
        else .ok ('\\' :: 'x' :: hexDigit (octalValue (digits.take span) / 16) ::
          hexDigit (octalValue (digits.take span) % 16) :: digits.drop span) := by
  have step : translateStep tables scan '\\' (digits ++ rest) = _ := translateStep_number nonempty all ends scan
  have copied : ∀ size, ∀ d ∈ digits.drop size, copies d = true := fun size d member =>
    (digit_plain (all d (List.mem_of_mem_drop member))).2.2.2.2.2
  cases read : octalSpan digits scan.inClass with
  | none =>
    rw [read] at step
    obtain ⟨first,others,rfl⟩ := List.exists_cons_of_ne_nil nonempty
    have single : ∀ d ∈ others, copies d = true := copied 1
    have one : translateStep tables scan '\\' ([first] ++ (others ++ rest)) =
        .ok ⟨2,['\\',first],false,{ scan with classHead := false }⟩ := step
    have written : writtenFor tables (1 + [first].length + others.length) scan '\\' ([first] ++ (others ++ rest)) =
        .ok (['\\',first] ++ others) := writtenFor_copies one rfl single
    have size : 1 + (first :: others).length = 1 + [first].length + others.length := by
      rw [List.length_cons,List.length_singleton]
      omega
    rw [size]
    exact written
  | some span =>
    rw [read] at step
    obtain ⟨whole,size,_⟩ := octalSpan_bound read
    simp only [] at step ⊢
    split
    · rename_i large
      rw [if_pos large] at step
      exact writtenFor_error _ step
    · rename_i small
      rw [if_neg small] at step
      have front : digits ++ rest = digits.take span ++ (digits.drop span ++ rest) := by
        rw [← List.append_assoc,← whole]
      have lengths : 1 + digits.length = 1 + (digits.take span).length + (digits.drop span).length := by
        rw [Nat.add_assoc,← List.length_append,← whole]
      rw [front] at step
      rw [front,lengths]
      exact writtenFor_copies step (by rw [size]) (copied span)

theorem engineNumber_digits {first : Char} (noX : first ≠ 'x') (inside : Bool) (others : List Char) :
    engineNumber inside ('\\' :: first :: others) =
      if inside then (.refused,[]) else (.reference (natValue (first :: others)),[]) := by
  unfold engineNumber
  split
  · rename_i same
    exact absurd (List.cons.inj (List.cons.inj same).2).1 noX
  · rename_i same
    rw [(List.cons.inj same).2]
  · rename_i other
    exact absurd rfl (other _)

/-- The token of what is written. -/
theorem translatedNumber_eq (nonempty : digits ≠ []) (all : ∀ c ∈ digits, c.isDigit = true)
    (ends : ∀ c ∈ rest.head?, c.isDigit = false) (scan : Scan) :
    translatedNumber tables scan digits rest = codeNumber scan.inClass digits := by
  rw [translatedNumber,writtenFor_number nonempty all ends,codeNumber]
  cases octalSpan digits scan.inClass with
  | none =>
    obtain ⟨first,others,rfl⟩ := List.exists_cons_of_ne_nil nonempty
    exact engineNumber_digits (digit_plain (all first List.mem_cons_self)).2.2.1 scan.inClass others
  | some span =>
    simp only []
    rw [octalCharacter]
    by_cases large : octalValue (digits.take span) > 255
    · rw [if_pos large,if_pos large]
    · rw [if_neg large,if_neg large]
      simp only [engineNumber]
      rw [hexValue_written large]

theorem written_iff (nonempty : digits ≠ []) (all : ∀ c ∈ digits, c.isDigit = true)
    (ends : ∀ c ∈ rest.head?, c.isDigit = false) (scan : Scan) :
    (∃ written, writtenFor tables (1 + digits.length) scan '\\' (digits ++ rest) = .ok written) ↔
      aboveByte digits = false := by
  rw [writtenFor_number nonempty all ends,← Bool.not_eq_true,← refuses_iff digits scan.inClass]
  cases octalSpan digits scan.inClass with
  | none => exact iff_of_true ⟨_,rfl⟩ fun ⟨_,read,_⟩ => by cases read
  | some span =>
    simp only [Option.some.injEq,exists_eq_left']
    split
    · rename_i large
      exact iff_of_false (fun ⟨_,written⟩ => by cases written) fun small => small large
    · rename_i small
      exact iff_of_true ⟨_,rfl⟩ small

/-- When an escape with digits is translated to what Python reads. -/
def NumberAlike (scan : Scan) (python : PythonScan) (digits : List Char) : Prop :=
  if python.mode = .aside ∨ python.mode = .remark then aboveByte digits = false
  else classFree digits = true ∨ scan.inClass = python.mode.inside ∧ (python.mode.inside = true ∨ digits.length ≤ 2)

theorem number_iff (nonempty : digits ≠ []) (all : ∀ c ∈ digits, c.isDigit = true)
    (ends : ∀ c ∈ rest.head?, c.isDigit = false) {scan : Scan} {python : PythonScan} (awake : python.escaped = false) :
    NumberRead tables scan digits rest (pythonNumber python digits) ↔ NumberAlike scan python digits := by
  have comment : (∃ written, writtenFor tables _ scan '\\' (digits ++ rest) = .ok written) ↔ _ :=
    written_iff nonempty all ends scan
  have read : translatedNumber tables scan digits rest = _ := translatedNumber_eq nonempty all ends scan
  have token := codeNumber_iff nonempty scan.inClass python.mode.inside
  rw [← read] at token
  unfold pythonNumber NumberAlike
  rw [awake,if_neg (by decide)]
  cases mode : python.mode with
  | aside => exact comment
  | remark => exact comment
  | _ =>
    rw [mode] at token
    exact token

end Written

end Qdrust.Pattern
