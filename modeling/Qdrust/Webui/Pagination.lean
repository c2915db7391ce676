import Qdrust.Library.Chunks
import Qdrust.Library.Double

/-! Lists cut into numbered pages, for page sizes and page numbers that can be any number. -/
namespace Qdrust.Webui.Pagination
open Library Library.Double

def defaultPageSize : Binary64 := .finite 10

/-- An array has a length below 2^32. -/
abbrev Items (α : Type) := { items : List α // items.length < 2 ^ 32 }

variable {α : Type}

def Items.length (items : Items α) : Binary64 := .finite items.1.length

/-- The position an argument of `slice` stands for. -/
def relative (length : ℕ) : Binary64 → ℕ
  | .nan => 0
  | .infinity negative => if negative then 0 else length
  | .finite a =>
    let whole : ℤ := if a < 0 then ⌈a⌉ else ⌊a⌋
    if whole < 0 then (length + whole).toNat else min whole.toNat length

/-- `Array.prototype.slice`. -/
def slice (items : Items α) (start stop : Binary64) : List α :=
  (items.1.take (relative items.1.length stop)).drop (relative items.1.length start)

def usableSize (pageSize : Binary64) : Binary64 :=
  if pageSize.isFinite && (Binary64.finite 1).le pageSize then pageSize.floor else defaultPageSize

def pageCount (total pageSize : Binary64) : Binary64 :=
  (Binary64.finite 1).max (((Binary64.finite 0).max total).div (usableSize pageSize)).ceil

def clampPage (page total pageSize : Binary64) : Binary64 :=
  if page.isFinite then ((Binary64.finite 1).max page.floor).min (pageCount total pageSize) else .finite 1

def pageSlice (items : Items α) (page pageSize : Binary64) : List α :=
  let size := usableSize pageSize
  let start := ((clampPage page items.length size).sub (.finite 1)).mul size
  slice items start (start.add size)

/-- A usable size is a whole number from one on, and stays what it is. -/
theorem usableSize_whole (pageSize : Binary64) :
    ∃ size : ℕ, 0 < size ∧ usableSize pageSize = .finite size ∧ usableSize (.finite size) = .finite size := by
  have fixed {size : ℕ} (positive : 0 < size) : usableSize (.finite size) = .finite size := by
    have one : (1 : ℚ) ≤ size := by exact_mod_cast positive
    unfold usableSize
    rw [if_pos (by simpa [Binary64.isFinite,Binary64.le] using one)]
    simp [Binary64.floor]
  cases pageSize with
  | nan => exact ⟨10,by omega,rfl,fixed (by omega)⟩
  | infinity negative => exact ⟨10,by omega,rfl,fixed (by omega)⟩
  | finite a =>
    by_cases one : 1 ≤ a
    · have whole : 1 ≤ ⌊a⌋ := Int.le_floor.mpr (by exact_mod_cast one)
      have cast : ((⌊a⌋.toNat : ℕ) : ℚ) = (⌊a⌋ : ℤ) := by
        rw [← Int.cast_natCast,Int.toNat_of_nonneg (by omega)]
      refine ⟨⌊a⌋.toNat,by omega,?_,fixed (by omega)⟩
      unfold usableSize
      rw [if_pos (by simpa [Binary64.isFinite,Binary64.le] using one),cast]
      rfl
    · refine ⟨10,by omega,?_,fixed (by omega)⟩
      unfold usableSize
      rw [if_neg (by simpa [Binary64.isFinite,Binary64.le] using one)]
      rfl

/-- The number of pages of a length: that of the exact quotient. -/
def pages (total size : ℕ) : ℕ := max 1 ⌈(total : ℚ) / size⌉₊

theorem pageCount_exact {total size : ℕ} {pageSize : Binary64} (bound : total < 2 ^ 32) (positive : 0 < size)
    (usable : usableSize pageSize = .finite size) : pageCount (.finite total) pageSize = .finite (pages total size) := by
  have some : (0 : ℚ) < size := Nat.cast_pos.mpr positive
  have nonneg : (0 : ℚ) ≤ (total : ℚ) / size := div_nonneg (Nat.cast_nonneg total) some.le
  have least : (total : ℚ) / size ≤ total := div_le_self (Nat.cast_nonneg total) (by exact_mod_cast positive)
  have divides : (Binary64.finite total).div (.finite size) = .finite (nearest ((total : ℚ) / size)) := by
    change (if (size : ℚ) = 0 then _ else Binary64.ofRat ((total : ℚ) / size)) = _
    rw [if_neg some.ne',(Binary64.ofRat_below (by omega) nonneg least).1]
  unfold pageCount
  rw [Binary64.max_finite,usable,max_eq_right (Nat.cast_nonneg total),divides]
  change (Binary64.finite 1).max (.finite ⌈nearest ((total : ℚ) / size)⌉) = _
  rw [Binary64.max_finite]
  congr 1
  unfold pages
  by_cases le : size ≤ total
  · rw [ceil_nearest_div positive le (by omega)]
    push_cast
    rw [natCast_ceil_eq_intCast_ceil nonneg]
  · have less : (total : ℚ) / size ≤ (1 : ℕ) := by
      rw [div_le_iff₀ some,Nat.cast_one,one_mul]
      exact_mod_cast (Nat.not_le.mp le).le
    have rounded := (Binary64.ofRat_below (by norm_num) nonneg less).2
    rw [max_eq_left,max_eq_left (Nat.ceil_le.mpr less),Nat.cast_one]
    exact_mod_cast Int.ceil_le.mpr (by exact_mod_cast rounded)

/-- A page number is pulled into the range of the pages. -/
theorem clampPage_exact {total size : ℕ} {pageSize : Binary64} (bound : total < 2 ^ 32) (positive : 0 < size)
    (usable : usableSize pageSize = .finite size) (page : Binary64) :
    ∃ number : ℕ, 1 ≤ number ∧ number ≤ pages total size ∧ clampPage page (.finite total) pageSize = .finite number := by
  have first : 1 ≤ pages total size := le_max_left 1 _
  cases page with
  | nan => exact ⟨1,le_refl 1,first,by unfold clampPage; simp [Binary64.isFinite]⟩
  | infinity negative => exact ⟨1,le_refl 1,first,by unfold clampPage; simp [Binary64.isFinite]⟩
  | finite a =>
    refine ⟨min (max 1 ⌊a⌋.toNat) (pages total size),by omega,by omega,?_⟩
    unfold clampPage
    rw [pageCount_exact bound positive usable]
    change ((Binary64.finite 1).max (.finite ⌊a⌋)).min _ = _
    rw [Binary64.max_finite,Binary64.min_finite]
    congr 1
    have whole : max (1 : ℚ) (⌊a⌋ : ℤ) = ((max 1 ⌊a⌋.toNat : ℕ) : ℚ) := by
      have cast : max (1 : ℤ) ⌊a⌋ = ((max 1 ⌊a⌋.toNat : ℕ) : ℤ) := by omega
      exact_mod_cast congrArg (Int.cast : ℤ → ℚ) cast
    rw [whole]
    exact_mod_cast rfl

theorem clampPage_number {total size number : ℕ} {pageSize : Binary64} (bound : total < 2 ^ 32) (positive : 0 < size)
    (usable : usableSize pageSize = .finite size) (first : 1 ≤ number) (last : number ≤ pages total size) :
    clampPage (.finite number) (.finite total) pageSize = .finite number := by
  unfold clampPage
  rw [pageCount_exact bound positive usable]
  change ((Binary64.finite 1).max (.finite ⌊(number : ℚ)⌋)).min _ = _
  rw [Int.floor_natCast,Binary64.max_finite,Int.cast_natCast,max_eq_right (by exact_mod_cast first),Binary64.min_finite,
    min_eq_left (by exact_mod_cast last)]

/-- Only the first page can begin at the end of the list. -/
theorem page_begins {total size number : ℕ} (positive : 0 < size) (last : number ≤ pages total size) :
    number ≤ 1 ∨ (number - 1) * size < total := by
  rcases le_max_iff.mp last with one | some
  · exact .inl one
  · by_cases one : number ≤ 1
    · exact .inl one
    · have less : number - 1 < ⌈(total : ℚ) / size⌉₊ := by omega
      rw [Nat.lt_ceil,lt_div_iff₀ (Nat.cast_pos.mpr positive)] at less
      exact .inr (by exact_mod_cast less)

/-- The pages reach the end of the list. -/
theorem pages_reach {total size : ℕ} (positive : 0 < size) : total ≤ pages total size * size := by
  have enough : (total : ℚ) / size ≤ (pages total size : ℕ) :=
    (Nat.le_ceil _).trans (by exact_mod_cast le_max_right 1 ⌈(total : ℚ) / size⌉₊)
  rw [div_le_iff₀ (Nat.cast_pos.mpr positive)] at enough
  exact_mod_cast enough

theorem relative_nat (length position : ℕ) : relative length (.finite position) = min position length := by
  have whole : (if (position : ℚ) < 0 then ⌈(position : ℚ)⌉ else ⌊(position : ℚ)⌋) = (position : ℤ) := by
    rw [if_neg (not_lt.mpr (Nat.cast_nonneg position)),Int.floor_natCast]
  change (if (if (position : ℚ) < 0 then ⌈(position : ℚ)⌉ else ⌊(position : ℚ)⌋) < 0 then _ else _) = _
  rw [whole,if_neg (by omega),Int.toNat_natCast]

/-- Positions behind the end are the end. -/
theorem relative_beyond {length : ℕ} {a : ℚ} (beyond : (length : ℚ) ≤ a) : relative length (.finite a) = length := by
  have nonneg : ¬a < 0 := not_lt.mpr ((Nat.cast_nonneg length).trans beyond)
  have floor : (length : ℤ) ≤ ⌊a⌋ := Int.le_floor.mpr (by exact_mod_cast beyond)
  change (if (if a < 0 then ⌈a⌉ else ⌊a⌋) < 0 then _ else min (if a < 0 then ⌈a⌉ else ⌊a⌋).toNat length) = _
  rw [if_neg nonneg,if_neg (by omega)]
  omega

theorem ofRat_nat {n : ℕ} (small : n < 2 ^ 53) : Binary64.ofRat n = .finite n := by
  have exact := @Binary64.ofRat_int n (by rw [abs_of_nonneg (by omega)]; omega)
  rw [Int.cast_natCast] at exact
  exact exact

/-- A sum is exact, or behind every list. -/
theorem relative_sum {length : ℕ} (bound : length < 2 ^ 32) (start size : ℕ) :
    relative length ((Binary64.finite start).add (.finite size)) = min (start + size) length := by
  change relative length (Binary64.ofRat ((start : ℚ) + size)) = _
  rw [← Nat.cast_add]
  by_cases small : start + size < 2 ^ 53
  · rw [ofRat_nat small,relative_nat]
  · have order : (length : ℚ) ≤ ((start + size : ℕ) : ℚ) := Nat.cast_le.mpr (by omega)
    have rounded := nearest_mono (Nat.cast_nonneg length) order
    rw [← Int.cast_natCast length,nearest_int (by rw [abs_of_nonneg (by omega)]; omega),Int.cast_natCast] at rounded
    rw [min_eq_right (by omega)]
    unfold Binary64.ofRat
    split
    · exact relative_beyond rounded
    · rw [decide_eq_false (not_lt.mpr (Nat.cast_nonneg (start + size)))]
      rfl

/-- The rows of a page that exists. -/
theorem pageSlice_exact (items : Items α) {size number : ℕ} {page pageSize : Binary64} (positive : 0 < size)
    (usable : usableSize pageSize = .finite size) (first : 1 ≤ number) (last : number ≤ pages items.1.length size)
    (named : clampPage page items.length (.finite size) = .finite number) :
    pageSlice items page pageSize = (items.1.drop ((number - 1) * size)).take size := by
  have begins : (number - 1) * size < 2 ^ 32 := by
    rcases page_begins positive last with one | less
    · rw [Nat.sub_eq_zero_of_le one,Nat.zero_mul]
      norm_num
    · exact less.trans items.2
  have fewer : number - 1 < 2 ^ 32 := lt_of_le_of_lt (Nat.le_mul_of_pos_right _ positive) begins
  have before : (Binary64.finite number).sub (.finite 1) = .finite ((number - 1 : ℕ) : ℚ) := by
    change Binary64.ofRat ((number : ℚ) + -1) = _
    rw [← sub_eq_add_neg,← Nat.cast_one,← Nat.cast_sub first,ofRat_nat (by omega)]
  have start : ((Binary64.finite number).sub (.finite 1)).mul (.finite size) =
      .finite (((number - 1) * size : ℕ) : ℚ) := by
    rw [before]
    change Binary64.ofRat (((number - 1 : ℕ) : ℚ) * size) = _
    rw [← Nat.cast_mul,ofRat_nat (by omega)]
  unfold pageSlice
  dsimp only
  rw [usable,named,start]
  unfold slice
  rw [relative_sum items.2,relative_nat,List.drop_take]
  have inside : (number - 1) * size ≤ items.1.length := by
    rcases page_begins positive last with one | less
    · rw [Nat.sub_eq_zero_of_le one,Nat.zero_mul]
      exact Nat.zero_le _
    · exact less.le
  rw [min_eq_left inside]
  rcases le_total ((number - 1) * size + size) items.1.length with fits | short
  · rw [min_eq_left fits,Nat.add_sub_cancel_left]
  · rw [min_eq_right short,List.take_of_length_le (by rw [List.length_drop]),List.take_of_length_le]
    rw [List.length_drop]
    omega

theorem flatten_pages (items : List α) (size count : ℕ) :
    ((List.range' 1 count).map fun number => (items.drop ((number - 1) * size)).take size).flatten =
      items.take (count * size) := by
  induction count with
  | zero => rw [Nat.zero_mul]; rfl
  | succ count ih =>
    have next : (count + 1) * size = count * size + size := Nat.succ_mul count size
    rw [List.range'_concat,List.map_append,List.flatten_append,ih,next,List.take_add]
    simp

/-- The pages of every list are its rows in their order, none of them is empty, and every page number stands for the
page that `clampPage` names. -/
theorem pages_partition (items : Items α) (pageSize : Binary64) : ∃ count : ℕ, 1 ≤ count ∧
    pageCount items.length pageSize = .finite count ∧
    ((List.range' 1 count).map fun number : ℕ => pageSlice items (.finite number) pageSize).flatten = items.1 ∧
    (items.1 ≠ [] → ∀ number : ℕ, 1 ≤ number → number ≤ count → pageSlice items (.finite number) pageSize ≠ []) ∧
    ∀ page, ∃ number : ℕ, 1 ≤ number ∧ number ≤ count ∧ clampPage page items.length pageSize = .finite number ∧
      pageSlice items page pageSize = pageSlice items (.finite number) pageSize := by
  obtain ⟨size,positive,usable,fixed⟩ := usableSize_whole pageSize
  have slices {number : ℕ} (first : 1 ≤ number) (last : number ≤ pages items.1.length size) :
      pageSlice items (.finite number) pageSize = (items.1.drop ((number - 1) * size)).take size :=
    pageSlice_exact items positive usable first last (clampPage_number items.2 positive fixed first last)
  refine ⟨pages items.1.length size,le_max_left 1 _,pageCount_exact items.2 positive usable,?_,?_,?_⟩
  · have same := List.map_congr_left fun number (inside : number ∈ List.range' 1 (pages items.1.length size)) =>
      slices (List.mem_range'_1.mp inside).1 (by have last := (List.mem_range'_1.mp inside).2; omega)
    rw [same,flatten_pages,List.take_of_length_le (pages_reach positive)]
  · intro some number first last
    rw [slices first last]
    intro empty
    have rows := List.length_pos_of_ne_nil some
    rw [List.take_eq_nil_iff,List.drop_eq_nil_iff] at empty
    rcases page_begins positive last with one | less
    · rw [Nat.sub_eq_zero_of_le one,Nat.zero_mul] at empty
      omega
    · omega
  · intro page
    obtain ⟨number,first,last,named⟩ := clampPage_exact items.2 positive usable page
    obtain ⟨number',first',last',named'⟩ := clampPage_exact items.2 positive fixed page
    refine ⟨number,first,last,named,?_⟩
    have same : number = number' := by
      unfold clampPage pageCount at named named'
      rw [usable] at named
      rw [fixed,named] at named'
      exact_mod_cast Binary64.finite.inj named'
    subst same
    rw [slices first last]
    exact pageSlice_exact items positive usable first last named'

end Qdrust.Webui.Pagination
