import Mathlib.Order.Bounds.Basic
import Qdrust.Library.Calendar
import Qdrust.Library.Digits
import Qdrust.Library.Double

/-! The check-in calendar: weeks as columns, Monday first, up to the week of a day. A local
midnight is its day. -/
namespace Qdrust.Webui.Calendar
open Library Library.Calendar Library.Double

structure RunDay where
  date : String
  total : ℕ
  failed : ℕ

structure CalendarCell where
  date : String
  total : ℕ
  failed : ℕ
  level : ℤ

structure MonthLabel where
  label : String
  column : ℕ

/-- `stop` is the source's `end`. -/
structure CalendarGrid where
  weeks : List (List (Option CalendarCell))
  months : List MonthLabel
  start : ℤ
  stop : ℤ
  max : ℕ

/-- A moment as its local day and the time of that day. -/
structure Date where
  day : ℤ
  time : ℕ

def startOfDay (value : Date) : ℤ := value.day

/-- `padStart(2, "0")` of a number's text. -/
def padded (n : ℕ) : String :=
  let text := toString n
  String.ofList (List.replicate (2 - text.length) '0') ++ text

def dayKey (day : ℤ) : String :=
  toString (getFullYear day) ++ "-" ++ padded (getMonth day + 1).toNat ++ "-" ++ padded (dayOf day).toNat

def weekdayIndex (day : ℤ) : ℤ := (getDay day + 6) % 7

def addDays (day days : ℤ) : ℤ := day + days

def shadeLevel (total max : ℕ) : ℤ :=
  if total ≤ 0 then 0
  else if max ≤ 1 then 2
  else Min.min 4 (Max.max 1 ⌈nearest (nearest ((total : ℚ) / max) * 4)⌉)

/-- `new Map(…).get`: the last day of a date. -/
def byDate (days : List RunDay) (date : String) : Option RunDay := days.reverse.find? fun day => day.date = date

def highest (days : List RunDay) : ℕ := days.foldl (fun highest day => Nat.max highest day.total) 0

/-- The cell of a day, unless the day is still to come. -/
def cellOf (days : List RunDay) (max : ℕ) (stop day : ℤ) : Option CalendarCell :=
  if day > stop then none
  else
    let stat := byDate days (dayKey day)
    let total := (stat.map RunDay.total).getD 0
    some ⟨dayKey day,total,(stat.map RunDay.failed).getD 0,shadeLevel total max⟩

/-- What the loop over the columns has built. -/
structure Progress where
  columns : List (List (Option CalendarCell))
  months : List MonthLabel
  labelledMonth : ℤ

section Build

variable (days : List RunDay) (monthFormat : ℤ → String) (stop start : ℤ)

def weekOf (column : ℕ) : List (Option CalendarCell) :=
  (List.range 7).map fun row => cellOf days (highest days) stop (addDays start (column * 7 + row : ℕ))

def columnStep (progress : Progress) (column : ℕ) : Progress :=
  let firstOfColumn := addDays start (column * 7 : ℕ)
  let starts := column = 0 || getMonth firstOfColumn != progress.labelledMonth
  { columns := progress.columns ++ [weekOf days stop start column]
    months := if starts then progress.months ++ [⟨monthFormat (getMonth firstOfColumn),column⟩] else progress.months
    labelledMonth := if starts then getMonth firstOfColumn else progress.labelledMonth }

end Build

def startOf (stop : ℤ) (weeks : ℕ) : ℤ := addDays (addDays stop (-weekdayIndex stop)) (-(weeks - 1) * 7)

def buildRunCalendar (days : List RunDay) (ending : Date) (weeks : ℚ) (monthFormat : ℤ → String) : CalendarGrid :=
  let stop := startOfDay ending
  let weeks := (Max.max 1 ⌊weeks⌋).toNat
  let start := startOf stop weeks
  let progress := (List.range weeks).foldl (columnStep days monthFormat stop start) ⟨[],[],-1⟩
  ⟨progress.columns,progress.months,start,stop,highest days⟩

theorem weekdayIndex_eq (day : ℤ) : weekdayIndex day = (day + 2) % 7 := by
  unfold weekdayIndex getDay
  omega

/-- The grid begins on a Monday and ends in the week of its last day. -/
theorem startOf_spec (stop : ℤ) {weeks : ℕ} (_ : 1 ≤ weeks) : weekdayIndex (startOf stop weeks) = 0 ∧
    startOf stop weeks + 7 * (weeks - 1) ≤ stop ∧ stop < startOf stop weeks + 7 * weeks := by
  have week := weekdayIndex_eq stop
  rw [weekdayIndex_eq]
  unfold startOf addDays
  omega

section Keys

theorem padded_spec : ∀ n < 100, (padded n).toList.length = 2 ∧ Digits.natValue (padded n).toList = n := by
  decide +kernel

theorem toString_injective {n m : ℤ} (same : toString n = toString m) : n = m := by
  have sign {n m : ℕ} (same : toString n = "-" ++ toString m) : False := by
    have minus : '-' ∈ (toString n).toList := by
      rw [same,String.toList_append]
      exact List.mem_cons_self
    exact absurd (Digits.toString_isDigit n '-' minus) (by decide)
  have value {n m : ℕ} (same : toString n = toString m) : n = m := by
    rw [← Digits.natValue_toString n,same,Digits.natValue_toString]
  cases n with
  | ofNat n =>
    cases m with
    | ofNat m => exact congrArg Int.ofNat (value same)
    | negSucc m => exact (sign same).elim
  | negSucc n =>
    cases m with
    | ofNat m => exact (sign same.symm).elim
    | negSucc m =>
      change "-" ++ toString (n + 1) = "-" ++ toString (m + 1) at same
      have digits := congrArg String.toList same
      rw [String.toList_append,String.toList_append,List.append_cancel_left_eq,String.toList_inj] at digits
      exact congrArg Int.negSucc (Nat.succ.inj (value digits))

/-- A text with a padded number at its end is both. -/
theorem padded_end {front front' : String} {n m : ℕ} (left : n < 100) (right : m < 100)
    (same : front ++ padded n = front' ++ padded m) : front = front' ∧ n = m := by
  obtain ⟨length,value⟩ := padded_spec n left
  obtain ⟨length',value'⟩ := padded_spec m right
  have chars := congrArg String.toList same
  rw [String.toList_append,String.toList_append] at chars
  obtain ⟨fronts,ends⟩ := List.append_inj' chars (length.trans length'.symm)
  refine ⟨String.toList_inj.mp fronts,?_⟩
  rw [← value,ends,value']

theorem dash_end {front front' : String} (same : front ++ "-" = front' ++ "-") : front = front' := by
  have chars := congrArg String.toList same
  rw [String.toList_append,String.toList_append,List.append_cancel_right_eq] at chars
  exact String.toList_inj.mp chars

/-- Different days have different keys. -/
theorem dayKey_injective {day other : ℤ} (same : dayKey day = dayKey other) : day = other := by
  have month (day : ℤ) : 0 ≤ getMonth day ∧ getMonth day < 12 := by
    unfold getMonth
    omega
  have days := And.intro (dayOf_bounds day) (dayOf_bounds other)
  have months := And.intro (month day) (month other)
  unfold dayKey at same
  obtain ⟨front,sameDay⟩ := padded_end (by omega) (by omega) same
  obtain ⟨front,sameMonth⟩ := padded_end (by omega) (by omega) (dash_end front)
  have sameYear := toString_injective (dash_end front)
  have month : getMonth day = getMonth other := by omega
  have dayOfMonth : dayOf day = dayOf other := by omega
  rw [← ofDate_date day,← ofDate_date other,sameYear,month,dayOfMonth]

end Keys

section Loop

variable {days : List RunDay} {monthFormat : ℤ → String} {stop start : ℤ}

/-- The column begins in another month than the one before it. -/
def starts (start : ℤ) (column : ℕ) : Bool :=
  column = 0 || monthOf (start + (column * 7 : ℕ)) != monthOf (start + ((column - 1) * 7 : ℕ))

def labelOf (monthFormat : ℤ → String) (start : ℤ) (column : ℕ) : MonthLabel :=
  ⟨monthFormat (getMonth (start + (column * 7 : ℕ))),column⟩

/-- Within a week the month is the same, or the next one. -/
theorem getMonth_week (day : ℤ) : getMonth (day + 7) = getMonth day ↔ monthOf (day + 7) = monthOf day := by
  have near := @monthOf_near day (day + 7) (by omega)
  have mono := @monthOf_mono day (day + 7) (by omega)
  unfold getMonth
  omega

theorem columnStep_run (weeks : ℕ) : (List.range (weeks + 1)).foldl (columnStep days monthFormat stop start) ⟨[],[],-1⟩ =
    ⟨(List.range (weeks + 1)).map (weekOf days stop start),
      ((List.range (weeks + 1)).filter (starts start)).map (labelOf monthFormat start),
      getMonth (start + (weeks * 7 : ℕ))⟩ := by
  induction weeks with
  | zero => rfl
  | succ weeks ih =>
    rw [List.range_succ,List.foldl_append,ih,List.map_append,List.filter_append,List.map_append]
    have next : start + ((weeks + 1) * 7 : ℕ) = start + (weeks * 7 : ℕ) + 7 := by
      push_cast
      ring
    have changes : (getMonth (addDays start ((weeks + 1) * 7 : ℕ)) != getMonth (start + (weeks * 7 : ℕ))) =
        starts start (weeks + 1) := by
      have week := getMonth_week (start + (weeks * 7 : ℕ))
      unfold starts addDays
      rw [Nat.add_sub_cancel,next,Bool.eq_iff_iff,bne_iff_ne]
      simpa using not_congr week
    change columnStep days monthFormat stop start _ (weeks + 1) = _
    unfold columnStep
    dsimp only
    rw [changes,decide_eq_false (Nat.succ_ne_zero weeks),Bool.false_or,List.filter_singleton]
    cases begins : starts start (weeks + 1) with
    | true => rfl
    | false =>
      rw [begins] at changes
      have same : getMonth (addDays start ((weeks + 1) * 7 : ℕ)) = getMonth (start + (weeks * 7 : ℕ)) :=
        bne_eq_false_iff_eq.mp changes
      unfold addDays at same
      rw [same]
      simp

/-- The grid, without the loop. -/
theorem buildRunCalendar_eq (days : List RunDay) (ending : Date) {weeks : ℚ} (one : 1 ≤ weeks) (monthFormat : ℤ → String) :
    ∃ count : ℕ, 1 ≤ count ∧ (count : ℤ) = ⌊weeks⌋ ∧ buildRunCalendar days ending weeks monthFormat =
      ⟨(List.range count).map (weekOf days ending.day (startOf ending.day count)),
        ((List.range count).filter (starts (startOf ending.day count))).map (labelOf monthFormat (startOf ending.day count)),
        startOf ending.day count,ending.day,highest days⟩ := by
  have whole : 1 ≤ ⌊weeks⌋ := Int.le_floor.mpr (by exact_mod_cast one)
  refine ⟨⌊weeks⌋.toNat,by omega,by omega,?_⟩
  obtain ⟨count,same⟩ := Nat.exists_eq_add_of_le' (show 1 ≤ ⌊weeks⌋.toNat by omega)
  unfold buildRunCalendar startOfDay
  dsimp only
  rw [max_eq_right whole,same,columnStep_run]

end Loop

section Shades

/-- How dark a square is before it is cut to the palette. -/
def scale (total max : ℕ) : ℤ := ⌈nearest (nearest ((total : ℚ) / max) * 4)⌉

theorem shadeLevel_scale {total max : ℕ} (some : 0 < total) (many : 1 < max) :
    shadeLevel total max = Min.min 4 (Max.max 1 (scale total max)) := by
  unfold shadeLevel scale
  rw [if_neg (by omega),if_neg (by omega)]

theorem scale_mono {total total' max : ℕ} (le : total ≤ total') : scale total max ≤ scale total' max := by
  have quotients : (total : ℚ) / max ≤ total' / max :=
    div_le_div_of_nonneg_right (by exact_mod_cast le) (Nat.cast_nonneg max)
  have nonneg : 0 ≤ (total : ℚ) / max := div_nonneg (Nat.cast_nonneg total) (Nat.cast_nonneg max)
  have rounded := nearest_mono nonneg quotients
  have least := nearest_nonneg nonneg
  exact Int.ceil_le_ceil (nearest_mono (by linarith) (by linarith))

theorem scale_top {max : ℕ} (some : 0 < max) : scale max max = 4 := by
  have one : nearest 1 = 1 := by
    have power := nearest_power (show (-1074 : ℤ) ≤ 0 by omega)
    rw [zpow_zero] at power
    exact power
  have four : nearest 4 = 4 := by
    have power := nearest_power (show (-1074 : ℤ) ≤ 2 by omega)
    norm_num at power
    exact power
  unfold scale
  rw [div_self (Nat.cast_ne_zero.mpr some.ne'),one,one_mul,four]
  rfl

theorem scale_half {max : ℕ} (many : 1 < max) : scale 1 max ≤ 2 := by
  have half : nearest (1 / 2) = 1 / 2 := by
    have power := nearest_power (show (-1074 : ℤ) ≤ -1 by omega)
    norm_num at power
    exact power
  have two : nearest 2 = 2 := by
    have power := nearest_power (show (-1074 : ℤ) ≤ 1 by omega)
    norm_num at power
    exact power
  have quotient : ((1 : ℕ) : ℚ) / max ≤ 1 / 2 := by
    rw [Nat.cast_one]
    exact one_div_le_one_div_of_le (by norm_num) (by exact_mod_cast many)
  have nonneg : 0 ≤ ((1 : ℕ) : ℚ) / max := div_nonneg (Nat.cast_nonneg 1) (Nat.cast_nonneg max)
  have rounded := nearest_mono nonneg quotient
  have least := nearest_nonneg nonneg
  rw [half] at rounded
  have whole := nearest_mono (show 0 ≤ nearest (((1 : ℕ) : ℚ) / max) * 4 by linarith) (show _ ≤ (2 : ℚ) by linarith)
  rw [two] at whole
  exact Int.ceil_le.mpr whole

theorem shadeLevel_zero (total max : ℕ) : shadeLevel total max = 0 ↔ total = 0 := by
  rcases Nat.eq_zero_or_pos total with rfl | some
  · exact ⟨fun _ => rfl,fun _ => rfl⟩
  · rcases Nat.lt_or_ge 1 max with many | few
    · rw [shadeLevel_scale some many]
      omega
    · unfold shadeLevel
      rw [if_neg (by omega),if_pos few]
      omega

theorem shadeLevel_mono {total total' max : ℕ} (le : total ≤ total') : shadeLevel total max ≤ shadeLevel total' max := by
  rcases Nat.eq_zero_or_pos total with rfl | some
  · rw [(shadeLevel_zero 0 max).mpr rfl]
    unfold shadeLevel
    split
    · rfl
    · split <;> omega
  · rcases Nat.lt_or_ge 1 max with many | few
    · have grows := @scale_mono total total' max le
      rw [shadeLevel_scale some many,shadeLevel_scale (by omega) many]
      omega
    · unfold shadeLevel
      rw [if_neg (by omega),if_pos few,if_neg (by omega),if_pos few]

/-- One run is never the darkest square. -/
theorem shadeLevel_one (max : ℕ) : shadeLevel 1 max ≠ 4 := by
  rcases Nat.lt_or_ge 1 max with many | few
  · have half := scale_half many
    rw [shadeLevel_scale (by omega) many]
    omega
  · unfold shadeLevel
    rw [if_neg (by omega),if_pos few]
    omega

theorem shadeLevel_top {max : ℕ} (many : 1 < max) : shadeLevel max max = 4 := by
  rw [shadeLevel_scale (by omega) many,scale_top (by omega)]
  rfl

end Shades

section Cells

variable {days : List RunDay}

/-- The cell of a day that is drawn. -/
def drawnCell (days : List RunDay) (day : ℤ) : CalendarCell :=
  let total := ((byDate days (dayKey day)).map RunDay.total).getD 0
  ⟨dayKey day,total,((byDate days (dayKey day)).map RunDay.failed).getD 0,shadeLevel total (highest days)⟩

def drawn (grid : CalendarGrid) : List CalendarCell := grid.weeks.flatten.filterMap id

theorem cellOf_drawn {stop day : ℤ} (past : day ≤ stop) : cellOf days (highest days) stop day = some (drawnCell days day) := by
  unfold cellOf drawnCell
  rw [if_neg (by omega)]

theorem cellOf_later {stop day : ℤ} (later : stop < day) : cellOf days (highest days) stop day = none := if_pos later

theorem weeks_flatten (stop start : ℤ) (count : ℕ) : ((List.range count).map (weekOf days stop start)).flatten =
    (List.range (count * 7)).map fun k => cellOf days (highest days) stop (start + (k : ℕ)) := by
  induction count with
  | zero => rfl
  | succ count ih =>
    rw [List.range_succ,List.map_append,List.flatten_append,ih,Nat.succ_mul,List.range_add,List.map_append,List.map_map]
    simp [weekOf,addDays]

/-- The days from the first to the last, in order. -/
theorem drawn_cells {stop start : ℤ} {count : ℕ} (reach : stop < start + 7 * count) :
    ((List.range count).map (weekOf days stop start)).flatten.filterMap id =
      (List.range (stop - start + 1).toNat).map fun k => drawnCell days (start + (k : ℕ)) := by
  obtain ⟨rest,same⟩ := Nat.exists_eq_add_of_le (show (stop - start + 1).toNat ≤ count * 7 by omega)
  rw [weeks_flatten,same,List.range_add,List.map_append,List.filterMap_append]
  have now : (List.range (stop - start + 1).toNat).filterMap (fun k => cellOf days (highest days) stop (start + (k : ℕ))) =
      (List.range (stop - start + 1).toNat).map fun k => drawnCell days (start + (k : ℕ)) := by
    rw [← List.filterMap_eq_map]
    refine List.filterMap_congr fun k inside => cellOf_drawn ?_
    have bound := List.mem_range.mp inside
    omega
  have none : (((List.range rest).map ((stop - start + 1).toNat + ·)).map
      fun k => cellOf days (highest days) stop (start + (k : ℕ))).filterMap id = [] := by
    refine List.filterMap_eq_nil_iff.mpr fun cell inside => ?_
    obtain ⟨k,listed,rfl⟩ := List.mem_map.mp inside
    obtain ⟨j,_,rfl⟩ := List.mem_map.mp listed
    exact cellOf_later (by push_cast; omega)
  rw [none,List.append_nil,List.filterMap_map]
  exact now

theorem mem_drawn {stop start : ℤ} {cells : List CalendarCell} (same : cells =
      (List.range (stop - start + 1).toNat).map fun k => drawnCell days (start + (k : ℕ))) {cell : CalendarCell} :
    cell ∈ cells ↔ ∃ day, start ≤ day ∧ day ≤ stop ∧ cell = drawnCell days day := by
  rw [same,List.mem_map]
  constructor
  · rintro ⟨k,inside,rfl⟩
    have bound := List.mem_range.mp inside
    exact ⟨_,by omega,by omega,rfl⟩
  · rintro ⟨day,first,last,rfl⟩
    refine ⟨(day - start).toNat,List.mem_range.mpr (by omega),?_⟩
    rw [show start + ((day - start).toNat : ℕ) = day by omega]

/-- A date has the counts of its own entry. -/
theorem byDate_some (distinct : (days.map RunDay.date).Nodup) {day : RunDay} (inside : day ∈ days) {date : String}
    (same : day.date = date) : byDate days date = some day := by
  unfold byDate
  cases found : days.reverse.find? fun day => day.date = date with
  | none =>
    have missing := List.find?_eq_none.mp found day (List.mem_reverse.mpr inside)
    exact absurd (decide_eq_true same) missing
  | some other =>
    have listed := List.mem_reverse.mp (List.mem_of_find?_eq_some found)
    have dated := of_decide_eq_true (@List.find?_some _ (fun day : RunDay => decide (day.date = date)) _ _ found)
    rw [List.inj_on_of_nodup_map distinct listed inside (dated.trans same.symm)]

theorem byDate_cases (date : String) : (∃ day ∈ days, day.date = date ∧ byDate days date = some day) ∨
    (∀ day ∈ days, day.date ≠ date) ∧ byDate days date = none := by
  cases found : byDate days date with
  | some day =>
    have dated := of_decide_eq_true (@List.find?_some _ (fun day : RunDay => decide (day.date = date)) _ _ found)
    exact .inl ⟨day,List.mem_reverse.mp (List.mem_of_find?_eq_some found),dated,rfl⟩
  | none =>
    refine .inr ⟨fun day inside same => ?_,rfl⟩
    exact absurd (decide_eq_true same) (List.find?_eq_none.mp found day (List.mem_reverse.mpr inside))

theorem foldl_highest (days : List RunDay) (least : ℕ) :
    least ≤ days.foldl (fun highest day => Nat.max highest day.total) least ∧
    (∀ day ∈ days, day.total ≤ days.foldl (fun highest day => Nat.max highest day.total) least) ∧
    (days.foldl (fun highest day => Nat.max highest day.total) least = least ∨
      ∃ day ∈ days, days.foldl (fun highest day => Nat.max highest day.total) least = day.total) := by
  induction days generalizing least with
  | nil => exact ⟨le_refl _,List.forall_mem_nil _,.inl rfl⟩
  | cons day days ih =>
    obtain ⟨bound,above,reached⟩ := ih (Nat.max least day.total)
    rw [List.foldl_cons]
    have left : least ≤ Nat.max least day.total := Nat.le_max_left _ _
    have right : day.total ≤ Nat.max least day.total := Nat.le_max_right _ _
    refine ⟨left.trans bound,List.forall_mem_cons.mpr ⟨right.trans bound,above⟩,?_⟩
    rcases reached with same | ⟨other,inside,same⟩
    · rcases Nat.le_total least day.total with less | more
      · exact .inr ⟨day,List.mem_cons_self,by rw [same]; exact Nat.max_eq_right less⟩
      · exact .inl (by rw [same]; exact Nat.max_eq_left more)
    · exact .inr ⟨other,List.mem_cons_of_mem _ inside,same⟩

theorem highest_spec (days : List RunDay) : (∀ day ∈ days, day.total ≤ highest days) ∧
    (highest days = 0 ∨ ∃ day ∈ days, highest days = day.total) := (foldl_highest days 0).2

end Cells

/-- The grid of the days up to `stop`: Monday first, every day once and in order, with its own counts, and nothing behind. -/
structure Laid (days : List RunDay) (stop : ℤ) (weeks : ℚ) (grid : CalendarGrid) : Prop where
  columns : (grid.weeks.length : ℤ) = ⌊weeks⌋
  rows : ∀ week ∈ grid.weeks, week.length = 7
  monday : weekdayIndex grid.start = 0
  ends : grid.stop = stop
  places : ∀ column week, grid.weeks[column]? = some week → ∀ row : ℕ, row < 7 →
    weekdayIndex (grid.start + (column * 7 + row : ℕ)) = row ∧
    ∃ cell, week[row]? = some cell ∧ (cell = none ↔ stop < grid.start + (column * 7 + row : ℕ)) ∧
      ∀ found, cell = some found → found.date = dayKey (grid.start + (column * 7 + row : ℕ))
  dates : (drawn grid).map CalendarCell.date =
    (List.range (stop - grid.start + 1).toNat).map fun k => dayKey (grid.start + (k : ℕ))
  last : grid.start ≤ stop ∧ stop < grid.start + 7 * ⌊weeks⌋
  once : ((drawn grid).map CalendarCell.date).Nodup
  counts : ∀ cell ∈ drawn grid,
    (∀ day ∈ days, day.date = cell.date → cell.total = day.total ∧ cell.failed = day.failed) ∧
    ((∀ day ∈ days, day.date ≠ cell.date) → cell.total = 0 ∧ cell.failed = 0)

structure Shaded (grid : CalendarGrid) : Prop where
  blank : ∀ cell ∈ drawn grid, cell.level = 0 ↔ cell.total = 0
  grows : ∀ cell ∈ drawn grid, ∀ other ∈ drawn grid, cell.total ≤ other.total → cell.level ≤ other.level
  single : ∀ cell ∈ drawn grid, cell.total = 1 → cell.level ≠ 4
  busiest : ∀ cell ∈ drawn grid, (∀ other ∈ drawn grid, other.total ≤ cell.total) → 1 < cell.total → cell.level = 4

/-- `max` is the largest total among the days that are drawn. -/
def Scaled (grid : CalendarGrid) : Prop := IsGreatest { total | ∃ cell ∈ drawn grid, cell.total = total } grid.max

/-- A column shows a day of a month. -/
def Shows (grid : CalendarGrid) (month : ℤ) (column : ℕ) : Prop :=
  ∃ day, grid.start + (column * 7 : ℕ) ≤ day ∧ day < grid.start + (column * 7 : ℕ) + 7 ∧ day ≤ grid.stop ∧ monthOf day = month

/-- The labels of a month: a label is that of the day its column begins with. -/
def labelsOf (grid : CalendarGrid) (month : ℤ) : List MonthLabel :=
  grid.months.filter fun label => monthOf (grid.start + (label.column * 7 : ℕ)) = month

/-- Every month that is drawn has one label, on the first column that shows it. -/
def Labelled (monthFormat : ℤ → String) (grid : CalendarGrid) : Prop :=
  ∀ month, (∃ day, grid.start ≤ day ∧ day ≤ grid.stop ∧ monthOf day = month) → ∃ label,
    labelsOf grid month = [label] ∧ label.label = monthFormat ((month + 2) % 12) ∧ IsLeast { column | Shows grid month column } label.column

/-- The days that are drawn: from the Monday of the first week on. -/
def InWindow (stop : ℤ) (weeks : ℚ) (day : ℤ) : Prop := stop - weekdayIndex stop - 7 * (⌊weeks⌋ - 1) ≤ day ∧ day ≤ stop

/-- A day outside of the window has no more runs than one inside. -/
def BusiestDrawn (days : List RunDay) (stop : ℤ) (weeks : ℚ) : Prop :=
  ∀ day ∈ days, day.total = 0 ∨ ∃ shown ∈ days, day.total ≤ shown.total ∧ ∃ date, InWindow stop weeks date ∧ shown.date = dayKey date

/-- A month that begins in the window begins on a Monday. -/
def BeginOnMondays (stop : ℤ) (weeks : ℚ) : Prop := ∀ day, InWindow stop weeks day → dayOf day = 1 → weekdayIndex day = 0

section Claim

variable {days : List RunDay} {ending : Date} {weeks : ℚ} {monthFormat : ℤ → String}

/-- What is drawn, and the window. -/
theorem drawn_calendar (one : 1 ≤ weeks) : ∃ start count, buildRunCalendar days ending weeks monthFormat =
      ⟨(List.range count).map (weekOf days ending.day start),
        ((List.range count).filter (starts start)).map (labelOf monthFormat start),start,ending.day,highest days⟩ ∧
    (count : ℤ) = ⌊weeks⌋ ∧ weekdayIndex start = 0 ∧ start ≤ ending.day ∧ ending.day < start + 7 * count ∧
    (∀ day, InWindow ending.day weeks day ↔ start ≤ day ∧ day ≤ ending.day) ∧
    drawn (buildRunCalendar days ending weeks monthFormat) =
      (List.range (ending.day - start + 1).toNat).map fun k => drawnCell days (start + (k : ℕ)) := by
  obtain ⟨count,some,whole,same⟩ := buildRunCalendar_eq days ending one monthFormat
  obtain ⟨monday,before,reach⟩ := startOf_spec ending.day some
  refine ⟨_,count,same,whole,monday,by omega,reach,fun day => ?_,?_⟩
  · unfold InWindow startOf addDays
    rw [← whole]
    omega
  · rw [same]
    exact drawn_cells reach

theorem laid (one : 1 ≤ weeks) (distinct : (days.map RunDay.date).Nodup) :
    Laid days ending.day weeks (buildRunCalendar days ending weeks monthFormat) := by
  obtain ⟨start,count,same,whole,monday,before,reach,_,cells⟩ := @drawn_calendar days ending weeks monthFormat one
  have dates : (drawn (buildRunCalendar days ending weeks monthFormat)).map CalendarCell.date =
      (List.range (ending.day - start + 1).toNat).map fun k => dayKey (start + (k : ℕ)) := by
    rw [cells,List.map_map]
    rfl
  have started : (buildRunCalendar days ending weeks monthFormat).start = start := by rw [same]
  constructor
  case columns =>
    rw [same,List.length_map,List.length_range,whole]
  case rows =>
    rw [same]
    intro week inside
    obtain ⟨column,_,rfl⟩ := List.mem_map.mp inside
    unfold weekOf
    rw [List.length_map,List.length_range]
  case monday => rw [started,monday]
  case ends => rw [same]
  case places =>
    rw [same]
    intro column week there row small
    dsimp only at there ⊢
    rw [List.getElem?_map,Option.map_eq_some_iff] at there
    obtain ⟨index,at_,rfl⟩ := there
    obtain ⟨_,rfl⟩ := List.getElem?_eq_some_iff.mp at_
    rw [List.getElem_range]
    refine ⟨?_,cellOf days (highest days) ending.day (start + (column * 7 + row : ℕ)),?_,?_,?_⟩
    · rw [weekdayIndex_eq] at monday ⊢
      push_cast
      omega
    · unfold weekOf addDays
      rw [List.getElem?_map,List.getElem?_range small]
      rfl
    · rcases le_or_gt (start + (column * 7 + row : ℕ)) ending.day with past | later
      · rw [cellOf_drawn past]
        exact ⟨nofun,fun later => absurd past (not_le.mpr later)⟩
      · rw [cellOf_later later]
        exact ⟨fun _ => later,fun _ => rfl⟩
    · rcases le_or_gt (start + (column * 7 + row : ℕ)) ending.day with past | later
      · rw [cellOf_drawn past]
        intro found equal
        cases equal
        rfl
      · rw [cellOf_later later]
        exact nofun
  case dates =>
    rw [started]
    exact dates
  case last =>
    rw [started,← whole]
    exact ⟨before,reach⟩
  case once =>
    rw [dates]
    refine List.Nodup.map (fun k j equal => ?_) List.nodup_range
    have days := dayKey_injective equal
    omega
  case counts =>
    intro cell inside
    obtain ⟨day,_,_,rfl⟩ := (mem_drawn cells).mp inside
    constructor
    · intro entry listed dated
      have found := byDate_some distinct listed dated
      unfold drawnCell at found ⊢
      dsimp only at found ⊢
      rw [found]
      exact ⟨rfl,rfl⟩
    · intro missing
      rcases @byDate_cases days (dayKey day) with ⟨entry,listed,dated,_⟩ | ⟨_,nothing⟩
      · exact absurd dated (missing entry listed)
      · unfold drawnCell
        dsimp only
        rw [nothing]
        exact ⟨rfl,rfl⟩

theorem scaled_iff (one : 1 ≤ weeks) (distinct : (days.map RunDay.date).Nodup) :
    Scaled (buildRunCalendar days ending weeks monthFormat) ↔ BusiestDrawn days ending.day weeks := by
  obtain ⟨start,count,same,_,_,before,_,window,cells⟩ := @drawn_calendar days ending weeks monthFormat one
  obtain ⟨above,reached⟩ := highest_spec days
  have top : (buildRunCalendar days ending weeks monthFormat).max = highest days := by rw [same]
  have bounded (day : ℤ) : (drawnCell days day).total ≤ highest days := by
    unfold drawnCell
    dsimp only
    rcases @byDate_cases days (dayKey day) with ⟨entry,listed,_,found⟩ | ⟨_,nothing⟩
    · rw [found]
      exact above entry listed
    · rw [nothing]
      exact Nat.zero_le _
  unfold Scaled
  rw [top]
  constructor
  · rintro ⟨⟨cell,inside,total⟩,_⟩ day listed
    obtain ⟨date,first,last,rfl⟩ := (mem_drawn cells).mp inside
    have most := above day listed
    rcases @byDate_cases days (dayKey date) with ⟨entry,shown,dated,found⟩ | ⟨_,nothing⟩
    · unfold drawnCell at total
      rw [found] at total
      exact .inr ⟨entry,shown,most.trans total.ge,date,(window date).mpr ⟨first,last⟩,dated⟩
    · unfold drawnCell at total
      rw [nothing] at total
      exact .inl (Nat.le_zero.mp (most.trans total.ge))
  · intro busiest
    refine ⟨?_,?_⟩
    · have nothing (none : highest days = 0) : ∃ cell ∈ drawn (buildRunCalendar days ending weeks monthFormat),
          cell.total = highest days := by
        refine ⟨_,(mem_drawn cells).mpr ⟨ending.day,before,le_refl _,rfl⟩,?_⟩
        have bound := bounded ending.day
        omega
      rcases reached with none | ⟨day,listed,most⟩
      · exact nothing none
      · rcases busiest day listed with none | ⟨entry,shown,less,date,inside,dated⟩
        · exact nothing (most.trans none)
        · obtain ⟨first,last⟩ := (window date).mp inside
          refine ⟨_,(mem_drawn cells).mpr ⟨date,first,last,rfl⟩,?_⟩
          have bound := above entry shown
          unfold drawnCell
          dsimp only
          rw [byDate_some distinct shown dated]
          change entry.total = _
          omega
    · rintro total ⟨cell,inside,rfl⟩
      obtain ⟨date,_,_,rfl⟩ := (mem_drawn cells).mp inside
      exact bounded date

theorem shaded (one : 1 ≤ weeks) (scaled : Scaled (buildRunCalendar days ending weeks monthFormat)) :
    Shaded (buildRunCalendar days ending weeks monthFormat) := by
  obtain ⟨start,count,same,_,_,_,_,_,cells⟩ := @drawn_calendar days ending weeks monthFormat one
  have top : (buildRunCalendar days ending weeks monthFormat).max = highest days := by rw [same]
  have level {cell : CalendarCell} (inside : cell ∈ drawn (buildRunCalendar days ending weeks monthFormat)) :
      cell.level = shadeLevel cell.total (highest days) := by
    obtain ⟨date,_,_,rfl⟩ := (mem_drawn cells).mp inside
    rfl
  constructor
  case blank =>
    intro cell inside
    rw [level inside]
    exact shadeLevel_zero _ _
  case grows =>
    intro cell inside other listed le
    rw [level inside,level listed]
    exact shadeLevel_mono le
  case single =>
    intro cell inside one
    rw [level inside,one]
    exact shadeLevel_one _
  case busiest =>
    intro cell inside most many
    obtain ⟨⟨best,listed,equal⟩,upper⟩ := scaled
    have bound := upper ⟨cell,inside,rfl⟩
    have less := most best listed
    rw [top] at equal bound
    have total : cell.total = highest days := by omega
    rw [level inside,total]
    exact shadeLevel_top (by omega)

theorem monthOf_start (month : ℤ) : monthOf (monthStart month) = month := by
  have low := (monthStart_le_iff month (monthStart month)).mp (le_refl _)
  have next := (month_length month).1
  have high : ¬month + 1 ≤ monthOf (monthStart month) := fun later => by
    have begun := (monthStart_le_iff (month + 1) (monthStart month)).mpr later
    omega
  omega

theorem filter_single {count column : ℕ} {p : ℕ → Bool} (inside : column < count)
    (only : ∀ other < count, p other = true ↔ other = column) : (List.range count).filter p = [column] := by
  have same : (List.range count).filter p = (List.range count).filter (· == column) := by
    refine List.filter_congr fun other listed => ?_
    rw [Bool.eq_iff_iff,beq_iff_eq]
    exact only other (List.mem_range.mp listed)
  rw [same,List.filter_beq,List.nodup_range.count,if_pos (List.mem_range.mpr inside)]
  rfl

/-- The label of a month, where one column alone begins in it as the first. -/
theorem labelsOf_single {start stop : ℤ} {count column : ℕ} {month : ℤ} {cells : List (List (Option CalendarCell))} {max : ℕ}
    (inside : column < count) (only : ∀ other < count,
      (starts start other = true ∧ monthOf (start + (other * 7 : ℕ)) = month) ↔ other = column) :
    labelsOf ⟨cells,((List.range count).filter (starts start)).map (labelOf monthFormat start),start,stop,max⟩ month =
      [labelOf monthFormat start column] := by
  unfold labelsOf
  dsimp only
  rw [List.filter_map,List.filter_filter]
  have columns : (List.range count).filter (fun other =>
      ((fun label : MonthLabel => decide (monthOf (start + (label.column * 7 : ℕ)) = month)) ∘ labelOf monthFormat start) other &&
        starts start other) = [column] := by
    refine filter_single inside fun other small => ?_
    rw [← only other small,Bool.and_eq_true,and_comm]
    exact and_congr_right fun _ => decide_eq_true_iff
  rw [columns]
  rfl

theorem labelled_iff (one : 1 ≤ weeks) :
    Labelled monthFormat (buildRunCalendar days ending weeks monthFormat) ↔ BeginOnMondays ending.day weeks := by
  obtain ⟨start,count,same,_,monday,before,reach,window,_⟩ := @drawn_calendar days ending weeks monthFormat one
  rw [same]
  rw [weekdayIndex_eq] at monday
  constructor
  · intro labelled day inside first
    obtain ⟨low,high⟩ := (window day).mp inside
    obtain ⟨label,labels,_,_,least⟩ := labelled (monthOf day) ⟨day,low,high,rfl⟩
    have listed := List.mem_singleton_self label
    rw [← labels] at listed
    have begins := of_decide_eq_true (List.mem_filter.mp listed).2
    have bound : label.column ≤ ((day - start) / 7).toNat :=
      least ⟨day,by dsimp only; omega,by dsimp only; omega,high,rfl⟩
    have begun := (monthStart_le_iff (monthOf day) (start + (label.column * 7 : ℕ))).mpr begins.ge
    unfold dayOf at first
    rw [weekdayIndex_eq]
    omega
  · rintro mondays month ⟨day,low,high,rfl⟩
    dsimp only at low high
    have order := monthOf_mono low
    rcases eq_or_lt_of_le order with first | less
    · -- the month of the first day: its label is on the first column
      have zero : start + (0 * 7 : ℕ) = start := by omega
      refine ⟨labelOf monthFormat start 0,labelsOf_single (by omega) fun other small => ?_,?_,?_,?_⟩
      · constructor
        · rintro ⟨begins,there⟩
          by_contra some
          have before := @monthOf_mono start (start + ((other - 1) * 7 : ℕ)) (by omega)
          have behind := @monthOf_mono (start + ((other - 1) * 7 : ℕ)) (start + (other * 7 : ℕ)) (by omega)
          unfold starts at begins
          rw [decide_eq_false some,Bool.false_or,bne_iff_ne] at begins
          omega
        · rintro rfl
          exact ⟨rfl,by rw [zero,first]⟩
      · unfold labelOf getMonth
        rw [zero,first]
      · exact ⟨start,by change start + (0 * 7 : ℕ) ≤ start; omega,by change start < start + (0 * 7 : ℕ) + 7; omega,before,first⟩
      · exact fun column _ => Nat.zero_le column
    · -- a later month: its first day is a Monday
      have begun := (monthStart_le_iff (monthOf day) day).mpr (le_refl _)
      have own := monthOf_start (monthOf day)
      have behind : start < monthStart (monthOf day) := by
        by_contra early
        exact absurd ((monthStart_le_iff (monthOf day) start).mp (by omega)) (not_le.mpr less)
      have monday' := mondays (monthStart (monthOf day)) ((window _).mpr ⟨behind.le,by omega⟩)
        (by unfold dayOf; rw [own]; omega)
      rw [weekdayIndex_eq] at monday'
      obtain ⟨column,place⟩ : ∃ column : ℕ, monthStart (monthOf day) = start + (column * 7 : ℕ) :=
        ⟨((monthStart (monthOf day) - start) / 7).toNat,by omega⟩
      rw [place] at own
      refine ⟨labelOf monthFormat start column,labelsOf_single (by omega) fun other small => ?_,?_,?_,?_⟩
      · constructor
        · rintro ⟨begins,there⟩
          have reached := (monthStart_le_iff (monthOf day) _).mpr there.ge
          by_contra differs
          have later := @monthOf_mono (start + ((other - 1) * 7 : ℕ)) (start + (other * 7 : ℕ)) (by omega)
          have earlier := (monthStart_le_iff (monthOf day) (start + ((other - 1) * 7 : ℕ))).mp (by omega)
          unfold starts at begins
          rw [decide_eq_false (by omega),Bool.false_or,bne_iff_ne] at begins
          omega
        · rintro rfl
          have before : ¬monthOf day ≤ monthOf (start + ((other - 1) * 7 : ℕ)) := fun le => by
            have early := (monthStart_le_iff (monthOf day) (start + ((other - 1) * 7 : ℕ))).mpr le
            omega
          refine ⟨?_,own⟩
          unfold starts
          rw [Bool.or_eq_true,bne_iff_ne]
          exact .inr (by omega)
      · unfold labelOf getMonth
        rw [own]
      · exact ⟨start + (column * 7 : ℕ),le_refl _,by change start + (column * 7 : ℕ) < start + (column * 7 : ℕ) + 7; omega,
          by change start + (column * 7 : ℕ) ≤ ending.day; omega,own⟩
      · rintro other ⟨shown,first,last,_,there⟩
        dsimp only at first last
        have reached := (monthStart_le_iff (monthOf day) shown).mpr there.ge
        change column ≤ other
        omega

/-- The calendar is as it should be exactly when no day outside of the window is busier than those inside, and the
months that begin in the window begin on a Monday. -/
theorem run_calendar_iff (one : 1 ≤ weeks) (distinct : (days.map RunDay.date).Nodup) :
    (Laid days ending.day weeks (buildRunCalendar days ending weeks monthFormat) ∧
      Shaded (buildRunCalendar days ending weeks monthFormat) ∧
      Scaled (buildRunCalendar days ending weeks monthFormat) ∧
      Labelled monthFormat (buildRunCalendar days ending weeks monthFormat)) ↔
    BusiestDrawn days ending.day weeks ∧ BeginOnMondays ending.day weeks := by
  rw [labelled_iff one,scaled_iff one distinct]
  constructor
  · rintro ⟨_,_,busiest,mondays⟩
    exact ⟨busiest,mondays⟩
  · rintro ⟨busiest,mondays⟩
    exact ⟨laid one distinct,shaded one ((scaled_iff one distinct).mpr busiest),busiest,mondays⟩

end Claim

def october : Date := ⟨ofDate 2026 10 14,0⟩

theorem october_calendar :
    (Laid [⟨"2026-10-13",3,1⟩] october.day 53 (buildRunCalendar [⟨"2026-10-13",3,1⟩] october 53 toString) ∧
      Shaded (buildRunCalendar [⟨"2026-10-13",3,1⟩] october 53 toString) ∧
      Scaled (buildRunCalendar [⟨"2026-10-13",3,1⟩] october 53 toString) ∧
      Labelled toString (buildRunCalendar [⟨"2026-10-13",3,1⟩] october 53 toString)) ↔
    BusiestDrawn [⟨"2026-10-13",3,1⟩] october.day 53 ∧ BeginOnMondays october.day 53 :=
  run_calendar_iff (by norm_num) (List.nodup_singleton _)

/-- November 2025 begins on a Saturday, and its label is on the next column. -/
theorem november_late : ¬(Laid [] october.day 53 (buildRunCalendar [] october 53 toString) ∧
    Shaded (buildRunCalendar [] october 53 toString) ∧ Scaled (buildRunCalendar [] october 53 toString) ∧
    Labelled toString (buildRunCalendar [] october 53 toString)) := by
  rw [labelled_iff (by norm_num)]
  rintro ⟨_,_,_,mondays⟩
  have inside : InWindow october.day 53 (ofDate 2025 11 1) := by
    unfold InWindow
    rw [Int.floor_ofNat]
    decide
  exact absurd (mondays _ inside (by decide)) (by decide)

end Qdrust.Webui.Calendar
