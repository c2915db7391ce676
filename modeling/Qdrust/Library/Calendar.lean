import Mathlib.Algebra.Order.Group.Int

/-! The Gregorian calendar. Days are counted from the first of March of year 0, months and
years from that March. -/
namespace Qdrust.Library.Calendar

/-- The first day of a year that begins in March. -/
def yearStart (year : Int) : Int := 365 * year + year / 4 - year / 100 + year / 400

/-- The first day of a month; February, the one of uneven length, is the last of its year. -/
def monthStart (month : Int) : Int := yearStart (month / 12) + (153 * (month % 12) + 2) / 5

/-- The mean year gives the year, or one of its neighbours. -/
def yearOf (day : Int) : Int :=
  let guess := 400 * day / 146097
  if yearStart (guess + 1) ≤ day then guess + 1 else if day < yearStart guess then guess - 1 else guess

def monthOf (day : Int) : Int := 12 * yearOf day + (5 * (day - yearStart (yearOf day)) + 2) / 153

theorem year_length (year : Int) : yearStart year + 365 ≤ yearStart (year + 1) ∧ yearStart (year + 1) ≤ yearStart year + 366 := by
  unfold yearStart
  omega

theorem yearOf_spec (day : Int) : yearStart (yearOf day) ≤ day ∧ day < yearStart (yearOf day + 1) := by
  unfold yearOf yearStart
  dsimp only
  split
  · omega
  · split <;> omega

theorem monthStart_split {year month : Int} (low : 0 ≤ month) (high : month < 12) :
    monthStart (12 * year + month) = yearStart year + (153 * month + 2) / 5 := by
  unfold monthStart
  rw [show (12 * year + month) / 12 = year by omega,show (12 * year + month) % 12 = month by omega]

theorem monthStart_next {year month : Int} (low : 0 ≤ month) (high : month < 12) :
    monthStart (12 * year + month + 1) =
      if month < 11 then yearStart year + (153 * (month + 1) + 2) / 5 else yearStart (year + 1) := by
  split
  · rw [Int.add_assoc,monthStart_split (by omega) (by omega)]
  · rw [show 12 * year + month + 1 = 12 * (year + 1) + 0 by omega,monthStart_split (by omega) (by omega)]
    omega

theorem monthOf_spec (day : Int) : monthStart (monthOf day) ≤ day ∧ day < monthStart (monthOf day + 1) := by
  have spec := yearOf_spec day
  have length := year_length (yearOf day)
  unfold monthOf
  generalize yearOf day = year at *
  rw [monthStart_split (by omega) (by omega),monthStart_next (by omega) (by omega)]
  split <;> omega

theorem month_length (month : Int) : monthStart month + 28 ≤ monthStart (month + 1) ∧
    monthStart (month + 1) ≤ monthStart month + 31 := by
  have length := year_length (month / 12)
  have parts : month = 12 * (month / 12) + month % 12 := by omega
  rw [parts,monthStart_split (by omega) (by omega),monthStart_next (by omega) (by omega)]
  split <;> omega

theorem monthStart_mono {month later : Int} (le : month ≤ later) : monthStart month ≤ monthStart later := by
  obtain ⟨n,rfl⟩ := Int.le.dest le
  induction n with
  | zero => rw [Int.ofNat_zero,Int.add_zero]
  | succ n ih =>
    have next := (month_length (month + n)).1
    have before := ih (by omega)
    rw [Int.natCast_succ,← Int.add_assoc]
    omega

/-- A month has begun exactly when the month of the day is no earlier. -/
theorem monthStart_le_iff (month day : Int) : monthStart month ≤ day ↔ month ≤ monthOf day := by
  obtain ⟨low,high⟩ := monthOf_spec day
  constructor
  · intro begun
    by_contra later
    have mono := monthStart_mono (show monthOf day + 1 ≤ month by omega)
    omega
  · intro le
    exact (monthStart_mono le).trans low

theorem monthOf_mono {day later : Int} (le : day ≤ later) : monthOf day ≤ monthOf later :=
  (monthStart_le_iff _ _).mp ((monthOf_spec day).1.trans le)

/-- No month lies between two days that are few apart. -/
theorem monthOf_near {day later : Int} (near : later ≤ day + 28) : monthOf later ≤ monthOf day + 1 := by
  have before := (monthOf_spec day).2
  have next := (month_length (monthOf day + 1)).1
  by_contra far
  have begun := (monthStart_le_iff (monthOf day + 2) later).mpr (by omega)
  rw [show monthOf day + 2 = monthOf day + 1 + 1 by omega] at begun
  omega

/-- The day of its month, from one on. -/
def dayOf (day : Int) : Int := day - monthStart (monthOf day) + 1

theorem dayOf_bounds (day : Int) : 1 ≤ dayOf day ∧ dayOf day ≤ 31 := by
  have spec := monthOf_spec day
  have length := (month_length (monthOf day)).2
  unfold dayOf
  omega

/-- `getMonth`: January is 0. -/
def getMonth (day : Int) : Int := (monthOf day + 2) % 12

def getFullYear (day : Int) : Int := (monthOf day + 2) / 12

/-- `getDay`: Sunday is 0. -/
def getDay (day : Int) : Int := (day + 3) % 7

/-- The day of a date. -/
def ofDate (year month day : Int) : Int := monthStart (12 * year + month - 3) + day - 1

/-- A date has one day. -/
theorem ofDate_date (day : Int) : ofDate (getFullYear day) (getMonth day + 1) (dayOf day) = day := by
  unfold ofDate getFullYear getMonth dayOf
  rw [show 12 * ((monthOf day + 2) / 12) + ((monthOf day + 2) % 12 + 1) - 3 = monthOf day by omega]
  omega

/-- 14 October 2026 was a Wednesday. -/
example : getDay (ofDate 2026 10 14) = 3 ∧ getMonth (ofDate 2026 10 14) = 9 ∧ getFullYear (ofDate 2026 10 14) = 2026 := by
  decide

end Qdrust.Library.Calendar
