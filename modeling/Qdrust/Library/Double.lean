import Mathlib.Algebra.Order.Round
import Mathlib.Data.Int.Log
import Mathlib.Data.Rat.Floor
import Mathlib.Tactic.Linarith
import Mathlib.Tactic.Positivity
import Mathlib.Tactic.NormNum

/-! Rational numbers rounded to double precision, ties to even, and the numbers of a
language that computes with them. -/
namespace Qdrust.Library.Double

/-- The nearest integer. -/
def roundEven (x : ℚ) : ℤ :=
  if x - ⌊x⌋ < 1 / 2 then ⌊x⌋ else if 1 / 2 < x - ⌊x⌋ then ⌊x⌋ + 1 else if 2 ∣ ⌊x⌋ then ⌊x⌋ else ⌊x⌋ + 1

theorem roundEven_int (n : ℤ) : roundEven n = n := by
  unfold roundEven
  rw [Int.floor_intCast,sub_self,if_pos (by norm_num)]

theorem roundEven_near (x : ℚ) : ⌊x⌋ ≤ roundEven x ∧ roundEven x ≤ ⌊x⌋ + 1 := by
  unfold roundEven
  split_ifs <;> omega

theorem roundEven_error (x : ℚ) : |roundEven x - x| ≤ 1 / 2 := by
  have low := Int.floor_le x
  have high := Int.lt_floor_add_one x
  rw [abs_le]
  unfold roundEven
  split_ifs <;> push_cast <;> constructor <;> linarith

theorem roundEven_mono {x y : ℚ} (le : x ≤ y) : roundEven x ≤ roundEven y := by
  rcases eq_or_lt_of_le (Int.floor_le_floor le) with same | less
  · unfold roundEven
    rw [same]
    split_ifs <;> first | omega | linarith
  · have left := (roundEven_near x).2
    have right := (roundEven_near y).1
    omega

/-- The distance of the doubles around a number. -/
def step (x : ℚ) : ℚ := 2 ^ max (Int.log 2 |x| - 52) (-1074)

/-- The nearest double, if the exponent had no upper bound. -/
def nearest (x : ℚ) : ℚ := roundEven (x / step x) * step x

theorem step_pos (x : ℚ) : 0 < step x := by
  unfold step
  exact zpow_pos (by norm_num) _

/-- A multiple of the distance is a double. -/
theorem nearest_exact {x : ℚ} {n : ℤ} (multiple : x = n * step x) : nearest x = x := by
  have apart := (step_pos x).ne'
  unfold nearest
  rw [show x / step x = n by rw [div_eq_iff apart]; exact multiple,roundEven_int,← multiple]

/-- Rounding does not cross a multiple of the distance. -/
theorem nearest_le {x bound : ℚ} {n : ℤ} (multiple : bound = n * step x) (le : x ≤ bound) : nearest x ≤ bound := by
  have below : x / step x ≤ n := by
    rw [div_le_iff₀ (step_pos x),← multiple]
    exact le
  have rounded := roundEven_mono below
  rw [roundEven_int] at rounded
  rw [multiple]
  exact mul_le_mul_of_nonneg_right (Int.cast_le.mpr rounded) (step_pos x).le

theorem le_nearest {x bound : ℚ} {n : ℤ} (multiple : bound = n * step x) (le : bound ≤ x) : bound ≤ nearest x := by
  have above : (n : ℚ) ≤ x / step x := by
    rw [le_div_iff₀ (step_pos x),← multiple]
    exact le
  have rounded := roundEven_mono above
  rw [roundEven_int] at rounded
  rw [multiple]
  exact mul_le_mul_of_nonneg_right (Int.cast_le.mpr rounded) (step_pos x).le

theorem nearest_zero : nearest 0 = 0 := @nearest_exact 0 0 (by simp)

theorem nearest_nonneg {x : ℚ} (nonneg : 0 ≤ x) : 0 ≤ nearest x :=
  @le_nearest x 0 0 (by simp) nonneg

theorem nearest_error (x : ℚ) : |nearest x - x| ≤ step x / 2 := by
  have positive := step_pos x
  have scaled : nearest x - x = (roundEven (x / step x) - x / step x) * step x := by
    rw [sub_mul,div_mul_cancel₀ _ positive.ne']
    rfl
  rw [scaled,abs_mul,abs_of_pos positive]
  have error := mul_le_mul_of_nonneg_right (roundEven_error (x / step x)) positive.le
  linarith

/-- A power of two that is no smaller than the distance is a multiple of it. -/
theorem power_multiple {e d : ℤ} (le : d ≤ e) : ∃ n : ℤ, (2 : ℚ) ^ e = n * 2 ^ d := by
  refine ⟨2 ^ (e - d).toNat,?_⟩
  have whole : ((2 ^ (e - d).toNat : ℤ) : ℚ) = (2 : ℚ) ^ (e - d) := by
    rw [Int.cast_pow,Int.cast_ofNat,← zpow_natCast,Int.toNat_of_nonneg (by omega)]
  rw [whole,← zpow_add₀ (by norm_num),Int.sub_add_cancel]

/-- Rounding keeps the order, up to the next power of two and beyond it. -/
theorem nearest_mono {x y : ℚ} (nonneg : 0 ≤ x) (le : x ≤ y) : nearest x ≤ nearest y := by
  rcases eq_or_lt_of_le nonneg with rfl | positive
  · rw [nearest_zero]
    exact nearest_nonneg le
  have logs : Int.log 2 |x| ≤ Int.log 2 |y| := by
    rw [abs_of_pos positive,abs_of_pos (positive.trans_le le)]
    exact Int.log_mono_right positive le
  rcases eq_or_lt_of_le (max_le_max_right (-1074) (sub_le_sub_right logs 52)) with same | less
  · have steps : step x = step y := congrArg ((2 : ℚ) ^ ·) same
    unfold nearest
    rw [steps]
    have rounded := roundEven_mono (div_le_div_of_nonneg_right le (step_pos y).le)
    exact mul_le_mul_of_nonneg_right (Int.cast_le.mpr rounded) (step_pos y).le
  · obtain ⟨n,left⟩ := power_multiple (show max (Int.log 2 |x| - 52) (-1074) ≤ Int.log 2 |y| by omega)
    obtain ⟨m,right⟩ := power_multiple (show max (Int.log 2 |y| - 52) (-1074) ≤ Int.log 2 |y| by omega)
    have low : x ≤ 2 ^ Int.log 2 |y| := by
      have upper := Int.lt_zpow_succ_log_self Nat.one_lt_two |x|
      rw [abs_of_pos positive] at upper
      refine upper.le.trans (zpow_le_zpow_right₀ (by norm_num) ?_)
      rw [← abs_of_pos positive]
      omega
    have high : 2 ^ Int.log 2 |y| ≤ y := by
      have lower := Int.zpow_log_le_self Nat.one_lt_two (abs_pos_of_pos (positive.trans_le le))
      rw [abs_of_pos (positive.trans_le le)] at lower ⊢
      exact lower
    exact (nearest_le left low).trans (le_nearest right high)

theorem nearest_power {e : ℤ} (normal : -1074 ≤ e) : nearest (2 ^ e) = 2 ^ e := by
  have positive : (0 : ℚ) < 2 ^ e := zpow_pos (by norm_num) e
  have log : Int.log 2 |(2 : ℚ) ^ e| = e := by
    rw [abs_of_pos positive]
    exact Int.log_zpow Nat.one_lt_two e
  obtain ⟨n,multiple⟩ := power_multiple (show max (e - 52) (-1074) ≤ e by omega)
  refine @nearest_exact _ n ?_
  unfold step
  rw [log]
  exact multiple

/-- Integers up to the precision are doubles. -/
theorem nearest_int {n : ℤ} (small : |n| < 2 ^ 53) : nearest n = n := by
  rcases eq_or_ne n 0 with rfl | some
  · exact @nearest_exact 0 0 (by simp)
  have positive : (0 : ℚ) < |(n : ℚ)| := abs_pos.mpr (Int.cast_ne_zero.mpr some)
  have log : Int.log 2 |(n : ℚ)| < 53 := by
    rw [← Int.lt_zpow_iff_log_lt (by norm_num) positive]
    have cast : ((|n| : ℤ) : ℚ) < ((2 ^ 53 : ℤ) : ℚ) := Int.cast_lt.mpr small
    rw [Int.cast_abs] at cast
    norm_num at cast ⊢
    exact cast
  obtain ⟨m,one⟩ := power_multiple (show max (Int.log 2 |(n : ℚ)| - 52) (-1074) ≤ 0 by omega)
  refine @nearest_exact n (n * m) ?_
  rw [Int.cast_mul,mul_assoc]
  unfold step
  rw [← one,zpow_zero,mul_one]

/-- Rounding a number from one on changes it by a part of its size. -/
theorem nearest_relative {x : ℚ} (one : 1 ≤ x) : |nearest x - x| ≤ x / 2 ^ 53 := by
  have positive : 0 < x := by linarith
  have log : 0 ≤ Int.log 2 x := (Int.log_one_right 2).symm.le.trans (Int.log_mono_right one_pos one)
  have steps : step x = 2 ^ Int.log 2 x / 2 ^ 52 := by
    unfold step
    rw [abs_of_pos positive,max_eq_left (by omega),zpow_sub₀ (by norm_num)]
    norm_num
  have power := Int.zpow_log_le_self Nat.one_lt_two positive
  have error := nearest_error x
  rw [steps] at error
  refine error.trans ?_
  rw [div_div,show (2 : ℚ) ^ 52 * 2 = 2 ^ 53 by norm_num]
  exact div_le_div_of_nonneg_right power (by norm_num)

/-- The quotient of integers is rounded up as if it was exact. -/
theorem ceil_nearest_div {total size : ℕ} (positive : 0 < size) (le : size ≤ total) (small : total < 2 ^ 53) :
    ⌈nearest ((total : ℚ) / size)⌉ = ⌈(total : ℚ) / size⌉ := by
  have some : (0 : ℚ) < size := Nat.cast_pos.mpr positive
  by_cases divides : size ∣ total
  · obtain ⟨k,rfl⟩ := divides
    have whole : ((size * k : ℕ) : ℚ) / size = ((k : ℤ) : ℚ) := by
      rw [Nat.cast_mul,mul_div_cancel_left₀ _ some.ne',Int.cast_natCast]
    have bound : |(k : ℤ)| < 2 ^ 53 := by
      have more := Nat.le_mul_of_pos_left k positive
      rw [abs_of_nonneg (by omega)]
      omega
    rw [whole,nearest_int bound]
  · have rest := Nat.emod_pos_of_not_dvd divides
    have cut := Nat.div_add_mod total size
    have short := Nat.mod_lt total positive
    generalize total / size = k at cut
    have low : (k : ℚ) * size + 1 ≤ total := by
      have nat : k * size + 1 ≤ total := by
        rw [Nat.mul_comm]
        omega
      exact_mod_cast nat
    have high : (total : ℚ) + 1 ≤ (k + 1) * size := by
      have nat : total + 1 ≤ (k + 1) * size := by
        rw [Nat.add_mul,Nat.mul_comm k]
        omega
      exact_mod_cast nat
    have one : 1 ≤ (total : ℚ) / size := by
      rw [le_div_iff₀ some,one_mul]
      exact_mod_cast le
    have error := nearest_relative one
    have near : |nearest ((total : ℚ) / size) - total / size| * size < 1 := by
      refine (mul_le_mul_of_nonneg_right error some.le).trans_lt ?_
      rw [div_mul_eq_mul_div,div_mul_cancel₀ _ some.ne',div_lt_one (by norm_num)]
      exact_mod_cast small
    have same : (total : ℚ) / size * size = total := div_mul_cancel₀ _ some.ne'
    have left := mul_le_mul_of_nonneg_right (neg_le_abs (nearest ((total : ℚ) / size) - total / size)) some.le
    have right := mul_le_mul_of_nonneg_right (le_abs_self (nearest ((total : ℚ) / size) - total / size)) some.le
    have ceiling {x : ℚ} (above : k * size < x * size) (below : x * size ≤ (k + 1) * size) : ⌈x⌉ = (k : ℤ) + 1 := by
      rw [Int.ceil_eq_iff]
      push_cast
      have lower := lt_of_mul_lt_mul_right above some.le
      have upper := le_of_mul_le_mul_right below some
      constructor <;> linarith
    rw [ceiling (by linarith) (by linarith),ceiling (by linarith) (by linarith)]

/-- The values of an IEEE number type. Zero has one sign. -/
inductive Binary64 where
  | nan
  | infinity (negative : Bool)
  | finite (value : ℚ)

namespace Binary64

/-- The result of an operation, rounded. -/
def ofRat (x : ℚ) : Binary64 := if |nearest x| < 2 ^ 1024 then .finite (nearest x) else .infinity (x < 0)

def isFinite : Binary64 → Bool
  | .finite _ => true
  | _ => false

def le : Binary64 → Binary64 → Bool
  | .nan, _ => false
  | _, .nan => false
  | .infinity true, _ => true
  | _, .infinity false => true
  | .finite a, .finite b => a ≤ b
  | _, _ => false

def neg : Binary64 → Binary64
  | .nan => .nan
  | .infinity negative => .infinity !negative
  | .finite a => .finite (-a)

def add : Binary64 → Binary64 → Binary64
  | .nan, _ => .nan
  | _, .nan => .nan
  | .infinity a, .infinity b => if a = b then .infinity a else .nan
  | .infinity a, .finite _ => .infinity a
  | .finite _, .infinity b => .infinity b
  | .finite a, .finite b => ofRat (a + b)

def sub (a b : Binary64) : Binary64 := a.add b.neg

def mul : Binary64 → Binary64 → Binary64
  | .nan, _ => .nan
  | _, .nan => .nan
  | .infinity a, .infinity b => .infinity (a != b)
  | .infinity a, .finite b => if b = 0 then .nan else .infinity (a != (b < 0 : Bool))
  | .finite a, .infinity b => if a = 0 then .nan else .infinity (b != (a < 0 : Bool))
  | .finite a, .finite b => ofRat (a * b)

def div : Binary64 → Binary64 → Binary64
  | .nan, _ => .nan
  | _, .nan => .nan
  | .infinity _, .infinity _ => .nan
  | .infinity a, .finite b => .infinity (a != (b < 0 : Bool))
  | .finite _, .infinity _ => .finite 0
  | .finite a, .finite b => if b = 0 then if a = 0 then .nan else .infinity (a < 0) else ofRat (a / b)

def floor : Binary64 → Binary64
  | .finite a => .finite ⌊a⌋
  | other => other

def ceil : Binary64 → Binary64
  | .finite a => .finite ⌈a⌉
  | other => other

/-- `Math.max`, `Math.min`: not a number when one of them is not. -/
def max : Binary64 → Binary64 → Binary64
  | .nan, _ => .nan
  | _, .nan => .nan
  | a, b => if a.le b then b else a

def min : Binary64 → Binary64 → Binary64
  | .nan, _ => .nan
  | _, .nan => .nan
  | a, b => if a.le b then a else b

theorem max_finite (a b : ℚ) : max (.finite a) (.finite b) = .finite (Max.max a b) := by
  change (if decide (a ≤ b) = true then Binary64.finite b else .finite a) = _
  simp only [decide_eq_true_eq,max_def]
  split <;> rfl

theorem min_finite (a b : ℚ) : min (.finite a) (.finite b) = .finite (Min.min a b) := by
  change (if decide (a ≤ b) = true then Binary64.finite a else .finite b) = _
  simp only [decide_eq_true_eq,min_def]
  split <;> rfl

theorem ofRat_int {n : ℤ} (small : |n| < 2 ^ 53) : ofRat n = .finite n := by
  unfold ofRat
  rw [nearest_int small,if_pos]
  have cast : ((|n| : ℤ) : ℚ) < ((2 ^ 53 : ℤ) : ℚ) := Int.cast_lt.mpr small
  rw [Int.cast_abs,Int.cast_pow,Int.cast_ofNat] at cast
  exact cast.trans (pow_lt_pow_right₀ (by norm_num) (by norm_num))

/-- Nothing below an integer of the precision overflows. -/
theorem ofRat_below {x : ℚ} {n : ℕ} (small : n < 2 ^ 53) (nonneg : 0 ≤ x) (le : x ≤ n) :
    ofRat x = .finite (nearest x) ∧ nearest x ≤ n := by
  have bound : |(n : ℤ)| < 2 ^ 53 := by
    rw [abs_of_nonneg (by omega)]
    omega
  have rounded := nearest_mono nonneg le
  rw [← Int.cast_natCast n,nearest_int bound,Int.cast_natCast] at rounded
  refine ⟨?_,rounded⟩
  have cast : (n : ℚ) < ((2 ^ 53 : ℕ) : ℚ) := Nat.cast_lt.mpr small
  rw [Nat.cast_pow,Nat.cast_ofNat] at cast
  unfold ofRat
  rw [abs_of_nonneg (nearest_nonneg nonneg),if_pos]
  exact (rounded.trans_lt cast).trans (pow_lt_pow_right₀ (by norm_num) (by norm_num))

end Binary64
end Qdrust.Library.Double
