import Mathlib.Algebra.Group.Nat.Defs
import Mathlib.Data.Nat.Basic

/-! Arithmetic on unsigned integers of a fixed width. Where a result does not fit, a debug
build stops and a release build wraps it. -/
namespace Qdrust.Library.Machine

inductive Build where
  | debug
  | release

/-- A sum, a product or a power of so many bits, `none` where the build stops. -/
def fit (build : Build) (width result : Nat) : Option Nat :=
  if result < 2 ^ width then some result
  else match build with
    | .debug => none
    | .release => some (result % 2 ^ width)

/-- A difference. -/
def sub (build : Build) (width first second : Nat) : Option Nat :=
  if second ≤ first then some (first - second)
  else match build with
    | .debug => none
    | .release => some (first + 2 ^ width - second)

theorem fit_inside (build : Build) {width result : Nat} (inside : result < 2 ^ width) : fit build width result = some result :=
  if_pos inside

theorem fit_outside {width result : Nat} (outside : ¬result < 2 ^ width) : fit .debug width result = none := if_neg outside

theorem sub_inside (build : Build) {width first second : Nat} (inside : second ≤ first) :
    sub build width first second = some (first - second) := if_pos inside

theorem sub_outside {width first second : Nat} (outside : ¬second ≤ first) : sub .debug width first second = none :=
  if_neg outside

end Qdrust.Library.Machine
