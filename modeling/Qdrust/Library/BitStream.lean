import Mathlib.Data.List.Basic
import Mathlib.Algebra.Group.Nat.Defs
import Mathlib.Data.Nat.Basic

/-! Streams of bits, and a buffer that digits of some width are pushed into on the right and
taken out of on the left. What it has pending are its low bits; the bits above are stale. -/
namespace Qdrust.Library.BitStream

variable {w k : Nat}

/-- The low `n` bits, the highest first. -/
def low (x : BitVec w) : Nat → List Bool
  | 0 => []
  | n + 1 => x.getLsbD n :: low x n

attribute [local simp] low

/-- The bits of some digits, one after the other. -/
def stream (digits : List (BitVec k)) : List Bool := digits.flatMap fun digit => low digit k

@[simp] theorem stream_nil : stream ([] : List (BitVec k)) = [] := rfl

@[simp] theorem stream_cons (digit : BitVec k) (digits : List (BitVec k)) :
    stream (digit :: digits) = low digit k ++ stream digits := rfl

theorem stream_append (left right : List (BitVec k)) : stream (left ++ right) = stream left ++ stream right :=
  List.flatMap_append

@[simp] theorem low_length (x : BitVec w) (n : Nat) : (low x n).length = n := by
  induction n with
  | zero => rfl
  | succ n ih => rw [low,List.length_cons,ih]

theorem low_congr {x : BitVec w} {y : BitVec k} {n : Nat} (same : ∀ i < n, x.getLsbD i = y.getLsbD i) : low x n = low y n := by
  induction n with
  | zero => rfl
  | succ n ih => rw [low,low,same n (Nat.lt_succ_self n),ih fun i below => same i (Nat.lt_succ_of_lt below)]

/-- A digit that is pushed stands behind what is pending. -/
theorem low_push (x : BitVec w) (digit : BitVec k) (n : Nat) (fits : n + k ≤ w) :
    low (x <<< k ||| digit.setWidth w) (n + k) = low x n ++ low digit k := by
  induction n with
  | zero =>
    rw [Nat.zero_add]
    refine low_congr fun i below => ?_
    rw [BitVec.getLsbD_or,BitVec.getLsbD_shiftLeft,BitVec.getLsbD_setWidth]
    have inside : i < w := by omega
    simp [below,inside]
  | succ n ih =>
    rw [Nat.succ_add,low,low,ih (by omega),List.cons_append]
    congr 1
    rw [BitVec.getLsbD_or,BitVec.getLsbD_shiftLeft,BitVec.getLsbD_setWidth]
    have inside : n + k < w := by omega
    have past : ¬n + k < k := by omega
    simp [inside,past]

/-- What is pending starts with the digit that a shift takes out. -/
theorem low_split (x : BitVec w) (n m : Nat) : low x (n + m) = low (x >>> m) n ++ low x m := by
  induction n with
  | zero => rw [Nat.zero_add,low,List.nil_append]
  | succ n ih =>
    rw [Nat.succ_add,low,low,ih,BitVec.getLsbD_ushiftRight,Nat.add_comm m n,List.cons_append]

theorem low_setWidth (x : BitVec w) (n : Nat) (fits : n ≤ k) : low (x.setWidth k) n = low x n := by
  refine low_congr fun i below => ?_
  rw [BitVec.getLsbD_setWidth]
  have inside : i < k := by omega
  simp [inside]

/-- A mask of `n` ones keeps the low bits. -/
theorem low_mask (x : BitVec w) (n : Nat) : low (x &&& BitVec.ofNat w (2 ^ n - 1)) n = low x n := by
  refine low_congr fun i below => ?_
  rw [BitVec.getLsbD_and,BitVec.getLsbD_ofNat,Nat.testBit_two_pow_sub_one]
  by_cases inside : i < w
  · simp [inside,below]
  · simp [BitVec.getLsbD_of_ge x i (by omega)]

theorem low_injective {x y : BitVec w} (same : low x w = low y w) : x = y := by
  have all : ∀ n, low x n = low y n → ∀ i < n, x.getLsbD i = y.getLsbD i := by
    intro n
    induction n with
    | zero => exact fun _ i below => absurd below (Nat.not_lt_zero i)
    | succ n ih =>
      intro equal i below
      rw [low,low,List.cons.injEq] at equal
      rcases Nat.lt_succ_iff_lt_or_eq.mp below with below | rfl
      · exact ih equal.2 i below
      · exact equal.1
  exact BitVec.eq_of_getLsbD_eq fun i below => all w same i below

/-- A stream has its digits, whatever incomplete digit is behind them. -/
theorem stream_unique {left right : List (BitVec k)} {behind other : List Bool} (few : behind.length < k)
    (few' : other.length < k) (same : stream left ++ behind = stream right ++ other) : left = right := by
  induction left generalizing right with
  | nil =>
    cases right with
    | nil => rfl
    | cons digit right =>
      have size := congrArg List.length same
      simp only [stream_nil,List.nil_append,stream_cons,List.append_assoc,List.length_append,low_length] at size
      omega
  | cons digit left ih =>
    cases right with
    | nil =>
      have size := congrArg List.length same
      simp only [stream_nil,List.nil_append,stream_cons,List.append_assoc,List.length_append,low_length] at size
      omega
    | cons digit' right =>
      rw [stream_cons,stream_cons,List.append_assoc,List.append_assoc] at same
      obtain ⟨first,rest⟩ := List.append_inj same (by rw [low_length,low_length])
      rw [low_injective first,ih rest]

end Qdrust.Library.BitStream
