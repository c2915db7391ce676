import Mathlib.Algebra.CharP.Two
import Mathlib.Algebra.Polynomial.Div
import Mathlib.Algebra.Polynomial.Degree.Lemmas
import Mathlib.Algebra.Field.ZMod

/-! Registers that are shifted by one bit and changed by a generator when a one leaves them.
To the right they are linear, so several shifts can be looked up; to the left they hold the
remainder of a division of polynomials over the field of two elements. -/
namespace Qdrust.Library.Remainder
open Polynomial

variable {w : ℕ}

/-- One shift to the right. -/
def right (generator x : BitVec w) : BitVec w := if x.getLsbD 0 then generator ^^^ x >>> 1 else x >>> 1

/-- One shift to the left. -/
def left (generator x : BitVec w) : BitVec w := if x.getLsbD (w - 1) then x <<< 1 ^^^ generator else x <<< 1

def repeated (shift : BitVec w → BitVec w) : ℕ → BitVec w → BitVec w
  | 0, x => x
  | n + 1, x => shift (repeated shift n x)

section Right

variable (generator : BitVec w)

theorem xor_cancel (a b c : BitVec w) : a ^^^ b ^^^ (a ^^^ c) = b ^^^ c := by
  rw [BitVec.xor_comm a b,BitVec.xor_assoc,← BitVec.xor_assoc a a c,BitVec.xor_self,BitVec.zero_xor]

theorem right_xor (x y : BitVec w) : right generator (x ^^^ y) = right generator x ^^^ right generator y := by
  unfold right
  rw [BitVec.getLsbD_xor,BitVec.ushiftRight_xor_distrib]
  cases x.getLsbD 0 <;> cases y.getLsbD 0
  · rfl
  · simp only [Bool.false_xor,Bool.false_eq_true,if_true,if_false]
    ac_rfl
  · simp only [Bool.true_xor,Bool.not_false,Bool.false_eq_true,if_true,if_false]
    ac_rfl
  · exact (xor_cancel generator (x >>> 1) (y >>> 1)).symm

theorem repeated_xor (n : ℕ) (x y : BitVec w) : repeated (right generator) n (x ^^^ y) =
    repeated (right generator) n x ^^^ repeated (right generator) n y := by
  induction n with
  | zero => rfl
  | succ n ih =>
    change right generator (repeated _ n _) = right generator _ ^^^ right generator _
    rw [ih,right_xor]

/-- Zeros leave the register without a change. -/
theorem repeated_clear {x : BitVec w} {n : ℕ} (clear : ∀ i < n, x.getLsbD i = false) :
    repeated (right generator) n x = x >>> n := by
  induction n with
  | zero => rw [BitVec.ushiftRight_zero]; rfl
  | succ n ih =>
    have last : (x >>> n).getLsbD 0 = false := by
      rw [BitVec.getLsbD_ushiftRight]
      exact clear n (by omega)
    change right generator (repeated _ n x) = _
    rw [ih fun i small => clear i (by omega)]
    unfold right
    rw [last,if_neg Bool.false_ne_true,BitVec.shiftRight_add]

/-- Several shifts: those of what leaves the register, and the rest moved down. -/
theorem repeated_split (n : ℕ) (x low : BitVec w) (same : ∀ i < n, low.getLsbD i = x.getLsbD i)
    (gone : low >>> n = 0#w) :
    repeated (right generator) n x = repeated (right generator) n low ^^^ x >>> n := by
  have parts : x = low ^^^ (low ^^^ x) := by
    rw [← BitVec.xor_assoc,BitVec.xor_self,BitVec.zero_xor]
  have clear : ∀ i < n, (low ^^^ x).getLsbD i = false := by
    intro i small
    rw [BitVec.getLsbD_xor,same i small,Bool.xor_self]
  conv_lhs => rw [parts]
  rw [repeated_xor,repeated_clear generator clear,BitVec.ushiftRight_xor_distrib,gone,BitVec.zero_xor]

/-- The register fed with one bit at a time. -/
def fed (x : BitVec w) (bit : Bool) : BitVec w := if x.getLsbD 0 ^^ bit then generator ^^^ x >>> 1 else x >>> 1

/-- Feeding the bits of a word is shifting the register with the word in it. -/
theorem fed_word (x word : BitVec w) (n : ℕ) : ((List.range n).map word.getLsbD).foldl (fed generator) x =
    repeated (right generator) n (x ^^^ word) ^^^ word >>> n := by
  induction n with
  | zero =>
    rw [BitVec.ushiftRight_zero]
    change x = x ^^^ word ^^^ word
    rw [BitVec.xor_assoc,BitVec.xor_self,BitVec.xor_zero]
  | succ n ih =>
    rw [List.range_succ,List.map_append,List.foldl_append,ih]
    change fed generator _ (word.getLsbD n) = right generator (repeated _ n _) ^^^ _
    generalize repeated (right generator) n (x ^^^ word) = state
    unfold fed right
    rw [BitVec.getLsbD_xor,BitVec.getLsbD_ushiftRight,BitVec.ushiftRight_xor_distrib,BitVec.shiftRight_add]
    rw [show n + 0 = n from rfl,Bool.xor_assoc,Bool.xor_self,Bool.xor_false]
    split
    · rw [BitVec.xor_assoc]
    · rfl

end Right

section Left

/-- The polynomial whose coefficients are the bits. -/
noncomputable def poly (x : BitVec w) : (ZMod 2)[X] := ∑ i ∈ Finset.range w, if x.getLsbD i then X ^ i else 0

theorem coeff_poly (x : BitVec w) (n : ℕ) : (poly x).coeff n = if x.getLsbD n then 1 else 0 := by
  unfold poly
  rw [finsetSum_coeff]
  have single (i : ℕ) : (if x.getLsbD i then (X : (ZMod 2)[X]) ^ i else 0).coeff n =
      if n = i then if x.getLsbD n then 1 else 0 else 0 := by
    by_cases same : n = i
    · subst same
      cases x.getLsbD n <;> simp
    · cases x.getLsbD i <;> simp [coeff_X_pow,same]
  rw [Finset.sum_congr rfl fun i _ => single i,Finset.sum_ite_eq]
  split
  · rfl
  · next outside =>
    rw [BitVec.getLsbD_of_ge x n (by simpa using outside)]
    rfl

theorem poly_xor (x y : BitVec w) : poly (x ^^^ y) = poly x + poly y := by
  ext n
  rw [coeff_add,coeff_poly,coeff_poly,coeff_poly,BitVec.getLsbD_xor]
  cases x.getLsbD n <;> cases y.getLsbD n <;> decide

theorem poly_degree (x : BitVec w) : (poly x).degree < w := by
  rw [degree_lt_iff_coeff_zero]
  intro n outside
  rw [coeff_poly,BitVec.getLsbD_of_ge x n outside]
  rfl

/-- A word that is moved up is multiplied. -/
theorem poly_setWidth {v n : ℕ} (x : BitVec v) (fits : v + n ≤ w) : poly (x.setWidth w <<< n) = X ^ n * poly x := by
  ext i
  rw [coeff_X_pow_mul',coeff_poly,coeff_poly,BitVec.getLsbD_shiftLeft,BitVec.getLsbD_setWidth]
  by_cases low : i < n
  · simp [low,Nat.not_le.mpr low]
  · have up : n ≤ i := Nat.not_lt.mp low
    rw [if_pos up]
    by_cases inside : i - n < v
    · simp [low,show i < w by omega,show i - n < w by omega]
    · rw [BitVec.getLsbD_of_ge x (i - n) (Nat.not_lt.mp inside)]
      simp

/-- The divisor of a generator. -/
noncomputable def divisor (generator : BitVec w) : (ZMod 2)[X] := X ^ w + poly generator

theorem divisor_monic (generator : BitVec w) : (divisor generator).Monic :=
  monic_X_pow_add (poly_degree generator)

theorem divisor_degree (generator : BitVec w) : (divisor generator).degree = w := by
  have less : (poly generator).degree < ((X : (ZMod 2)[X]) ^ w).degree := by
    rw [degree_X_pow]
    exact poly_degree generator
  exact (degree_add_eq_left_of_degree_lt less).trans (degree_X_pow w)

/-- A shift multiplies, up to a multiple of the divisor. -/
theorem poly_left (positive : 0 < w) (generator x : BitVec w) :
    divisor generator ∣ X * poly x - poly (left generator x) := by
  -- what is shifted out is the coefficient of the power of the width
  have moved : X * poly x = poly (x <<< 1) + if x.getLsbD (w - 1) then X ^ w else 0 := by
    ext i
    rw [coeff_add,coeff_poly,BitVec.getLsbD_shiftLeft]
    cases i with
    | zero =>
      rw [coeff_X_mul_zero]
      cases x.getLsbD (w - 1) <;> simp [coeff_X_pow,positive.ne]
    | succ i =>
      rw [coeff_X_mul,coeff_poly]
      rcases Nat.lt_trichotomy (i + 1) w with less | same | more
      · cases x.getLsbD (w - 1) <;> simp [coeff_X_pow,less,less.ne]
      · subst same
        rw [Nat.add_sub_cancel]
        cases x.getLsbD i <;> simp [coeff_X_pow]
      · rw [BitVec.getLsbD_of_ge x i (by omega)]
        cases x.getLsbD (w - 1) <;> simp [coeff_X_pow,more.ne',more.not_gt]
  unfold left divisor
  rw [moved]
  cases x.getLsbD (w - 1) with
  | false => exact ⟨0,by simp⟩
  | true =>
    refine ⟨1,?_⟩
    rw [if_pos rfl,if_pos rfl,poly_xor,mul_one,sub_add_eq_sub_sub,add_sub_cancel_left,CharTwo.sub_eq_add]

theorem poly_repeated (positive : 0 < w) (generator x : BitVec w) (n : ℕ) :
    divisor generator ∣ X ^ n * poly x - poly (repeated (left generator) n x) := by
  induction n with
  | zero =>
    rw [pow_zero,one_mul]
    exact ⟨0,by rw [mul_zero]; exact sub_self _⟩
  | succ n ih =>
    have step := poly_left positive generator (repeated (left generator) n x)
    have parts : X ^ (n + 1) * poly x - poly (repeated (left generator) (n + 1) x) =
        X * (X ^ n * poly x - poly (repeated (left generator) n x)) +
          (X * poly (repeated (left generator) n x) - poly (left generator (repeated (left generator) n x))) := by
      change _ - poly (left generator (repeated (left generator) n x)) = _
      ring
    rw [parts]
    exact dvd_add (dvd_mul_of_dvd_right ih X) step

/-- A register is the remainder of what it is congruent to. -/
theorem remainder_of_dvd {generator x : BitVec w} {p : (ZMod 2)[X]} (divides : divisor generator ∣ p - poly x) :
    p %ₘ divisor generator = poly x := by
  obtain ⟨quotient,same⟩ := divides
  refine (div_modByMonic_unique quotient (poly x) (divisor_monic generator) ⟨?_,?_⟩).2
  · rw [← same]
    ring
  · rw [divisor_degree]
    exact poly_degree x

end Left

end Qdrust.Library.Remainder
