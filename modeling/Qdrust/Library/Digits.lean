import Mathlib.Data.List.Lex
import Mathlib.Algebra.Order.Ring.Nat

/-! The number a string of decimal digits stands for, however long it is, and how such
strings compare. -/
namespace Qdrust.Library.Digits

def digitValue (c : Char) : Nat := c.toNat - 48

def natValue (digits : List Char) : Nat := Nat.ofDigitChars 10 digits 0

theorem isDigit_iff {c : Char} : c.isDigit = true ↔ 48 ≤ c.toNat ∧ c.toNat ≤ 57 := by
  simp only [Char.isDigit,Bool.and_eq_true,decide_eq_true_eq]
  exact Iff.rfl

theorem digitValue_lt {c : Char} (digit : c.isDigit = true) : digitValue c < 10 := by
  have bound := (isDigit_iff.mp digit).2
  unfold digitValue
  omega

theorem natValue_cons (digit : Char) (digits : List Char) :
    natValue (digit :: digits) = digitValue digit * 10 ^ digits.length + natValue digits := by
  rw [natValue,Nat.ofDigitChars_cons,Nat.ofDigitChars_eq_ofDigitChars_zero,Nat.mul_zero,Nat.zero_add,Nat.mul_comm]
  rfl

theorem natValue_toString (n : Nat) : natValue (toString n).toList = n := by
  rw [natValue,Nat.toString_eq_repr,Nat.toList_repr,Nat.ofDigitChars_ten_toDigits]

theorem toString_isDigit (n : Nat) : ∀ c ∈ (toString n).toList, c.isDigit = true := by
  intro c member
  rw [Nat.toString_eq_repr,Nat.toList_repr] at member
  exact Nat.isDigit_of_mem_toDigits (by decide) (by decide) member

theorem natValue_lt {digits : List Char} (all : ∀ c ∈ digits, c.isDigit = true) : natValue digits < 10 ^ digits.length := by
  induction digits with
  | nil => decide
  | cons digit digits ih =>
    rw [List.forall_mem_cons] at all
    have first := digitValue_lt all.1
    have rest := ih all.2
    have most : (digitValue digit + 1) * 10 ^ digits.length ≤ 10 * 10 ^ digits.length := Nat.mul_le_mul_right _ first
    rw [natValue_cons,List.length_cons,Nat.pow_succ']
    rw [Nat.succ_mul] at most
    omega

/-- Zeros in front change nothing. -/
theorem natValue_dropZeros (digits : List Char) : natValue (digits.dropWhile (· == '0')) = natValue digits := by
  induction digits with
  | nil => rfl
  | cons digit digits ih =>
    rw [List.dropWhile_cons]
    split
    · rename_i zero
      have same : digit = '0' := eq_of_beq zero
      have nothing : digitValue '0' = 0 := by decide
      rw [ih,natValue_cons,same,nothing,Nat.zero_mul,Nat.zero_add]
    · rfl

/-- A string that does not start with a zero is as large as its length says. -/
theorem pow_le_natValue {digit : Char} {digits : List Char} (is : digit.isDigit = true) (nonzero : digit ≠ '0') :
    10 ^ digits.length ≤ natValue (digit :: digits) := by
  have low := (isDigit_iff.mp is).1
  have differs : digit.toNat ≠ 48 := fun same => nonzero (Char.toNat_inj.mp same)
  have positive : 1 ≤ digitValue digit := by
    unfold digitValue
    omega
  have enough : 1 * 10 ^ digits.length ≤ digitValue digit * 10 ^ digits.length := Nat.mul_le_mul_right _ positive
  rw [natValue_cons]
  omega

/-- Strings of one length compare as their numbers do. -/
theorem natValue_lt_iff {left right : List Char} (size : left.length = right.length)
    (all : ∀ c ∈ left, c.isDigit = true) (more : ∀ c ∈ right, c.isDigit = true) :
    natValue left < natValue right ↔ left < right := by
  induction left generalizing right with
  | nil =>
    have none : right = [] := List.length_eq_zero_iff.mp size.symm
    subst none
    simp
  | cons first left ih =>
    obtain ⟨second,right,rfl⟩ : ∃ second others, right = second :: others := by
      cases right with
      | nil => cases size
      | cons second others => exact ⟨second,others,rfl⟩
    rw [List.forall_mem_cons] at all more
    have lengths : left.length = right.length := by simpa using size
    have leftBound := natValue_lt all.2
    have rightBound := natValue_lt more.2
    have firstDigit := isDigit_iff.mp all.1
    have secondDigit := isDigit_iff.mp more.1
    rw [lengths] at leftBound
    rw [natValue_cons,natValue_cons,lengths,List.cons_lt_cons_iff,← ih lengths all.2 more.2]
    have order : first < second ↔ first.toNat < second.toNat := Iff.rfl
    have equal : first = second ↔ first.toNat = second.toNat := Char.toNat_inj.symm
    rw [order,equal]
    unfold digitValue
    rcases Nat.lt_trichotomy first.toNat second.toNat with less | same | greater
    · have apart : (first.toNat - 48 + 1) * 10 ^ right.length ≤ (second.toNat - 48) * 10 ^ right.length :=
        Nat.mul_le_mul_right _ (by omega)
      rw [Nat.succ_mul] at apart
      exact iff_of_true (by omega) (.inl less)
    · rw [same]
      constructor
      · intro below
        exact .inr ⟨rfl,by omega⟩
      · rintro (less | ⟨_,below⟩)
        · omega
        · omega
    · have apart : (second.toNat - 48 + 1) * 10 ^ right.length ≤ (first.toNat - 48) * 10 ^ right.length :=
        Nat.mul_le_mul_right _ (by omega)
      rw [Nat.succ_mul] at apart
      refine iff_of_false (by omega) ?_
      rintro (less | ⟨same,_⟩) <;> omega

/-- What is left without the zeros in front tells the size of the number. -/
theorem pow_le_of_dropZeros {digits : List Char} (all : ∀ c ∈ digits, c.isDigit = true) {first : Char} {rest : List Char}
    (left : digits.dropWhile (· == '0') = first :: rest) : 10 ^ rest.length ≤ natValue digits := by
  have nonzero : first ≠ '0' := by
    have stops := List.head?_dropWhile_not (· == '0') digits
    rw [left] at stops
    simpa using stops
  have member : first ∈ digits := (List.dropWhile_suffix _).subset (left ▸ List.mem_cons_self)
  rw [← natValue_dropZeros,left]
  exact pow_le_natValue (all first member) nonzero

/-- Longer without the zeros in front is larger. -/
theorem natValue_lt_of_length {left right : List Char} (all : ∀ c ∈ left, c.isDigit = true)
    (more : ∀ c ∈ right, c.isDigit = true)
    (shorter : (left.dropWhile (· == '0')).length < (right.dropWhile (· == '0')).length) :
    natValue left < natValue right := by
  have small := natValue_lt fun c member => all c ((List.dropWhile_suffix (· == '0')).subset member)
  rw [natValue_dropZeros] at small
  cases found : right.dropWhile (· == '0') with
  | nil =>
    rw [found] at shorter
    exact absurd shorter (Nat.not_lt_zero _)
  | cons first rest =>
    rw [found,List.length_cons] at shorter
    exact Nat.lt_of_lt_of_le small
      (Nat.le_trans (Nat.pow_le_pow_right (by decide) (Nat.le_of_lt_succ shorter)) (pow_le_of_dropZeros more found))

end Qdrust.Library.Digits
