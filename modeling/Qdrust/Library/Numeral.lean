import Mathlib.Algebra.Group.Nat.Defs
import Mathlib.Data.Nat.Basic
import Mathlib.Data.List.Basic

/-! Numerals of a fixed number of digits, the highest first. -/
namespace Qdrust.Library.Numeral

variable {base : Nat}

/-- The last `n` digits of a number. -/
def numeral (base : Nat) : Nat → Nat → List Nat
  | 0, _ => []
  | n + 1, v => numeral base n (v / base) ++ [v % base]

attribute [local simp] numeral

def value (base : Nat) (digits : List Nat) : Nat := digits.foldl (fun front digit => front * base + digit) 0

theorem value_append (digits : List Nat) (digit : Nat) : value base (digits ++ [digit]) = value base digits * base + digit := by
  simp only [value,List.foldl_append,List.foldl_cons,List.foldl_nil]

@[simp] theorem numeral_length (n v : Nat) : (numeral base n v).length = n := by
  induction n generalizing v with
  | zero => rfl
  | succ n ih => rw [numeral,List.length_append,ih,List.length_singleton]

theorem numeral_zero (n : Nat) : numeral base n 0 = List.replicate n 0 := by
  induction n with
  | zero => rfl
  | succ n ih => rw [numeral,Nat.zero_div,Nat.zero_mod,ih,List.replicate_succ']

theorem value_numeral (n v : Nat) : value base (numeral base n v) = v % base ^ n := by
  induction n generalizing v with
  | zero => rw [Nat.pow_zero,Nat.mod_one]; rfl
  | succ n ih =>
    rw [numeral,value_append,ih,Nat.pow_succ',Nat.mod_mul,Nat.mul_comm,Nat.add_comm]

/-- A decimal number that is padded with zeros. -/
theorem leftpad_decimal (n v : Nat) (fits : v < 10 ^ n) (some : n ≠ 0) :
    List.leftpad n '0' (toString v).toList = (numeral 10 n v).map Nat.digitChar := by
  rw [Nat.toString_eq_repr,Nat.toList_repr]
  induction n generalizing v with
  | zero => exact absurd rfl some
  | succ n ih =>
    rw [numeral,List.map_append,List.map_singleton]
    by_cases small : v < 10
    · rw [Nat.toDigits_of_lt_base small,Nat.div_eq_of_lt small,Nat.mod_eq_of_lt small,numeral_zero,List.map_replicate]
      rfl
    · have large : 10 ≤ v := Nat.not_lt.mp small
      have more : n ≠ 0 := by
        rintro rfl
        exact small fits
      have rest := ih (v / 10) (Nat.div_lt_of_lt_mul (by rw [← Nat.pow_succ']; exact fits)) more
      rw [Nat.toDigits_of_base_le (by decide) large,← rest,List.leftpad,List.leftpad,List.length_append,List.length_singleton,
        Nat.add_sub_add_right,List.append_assoc]

end Qdrust.Library.Numeral
