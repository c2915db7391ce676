import Mathlib.Data.List.Basic

/-! Texts in parts of one size. The last part may be shorter, or the first one when the parts are
counted from the end. -/
namespace Qdrust.Library.Chunks

variable {α β : Type}

def chunksFrom (size : Nat) : Nat → List α → List (List α)
  | 0, _ => []
  | _ + 1, [] => []
  | fuel + 1, c :: text => (c :: text).take size :: chunksFrom size fuel ((c :: text).drop size)

/-- A text has no more parts than elements. -/
def chunks (size : Nat) (text : List α) : List (List α) := chunksFrom size text.length text

/-- Parts of one size, the last one of at most that size. -/
structure Grouped (size : Nat) (parts : List (List α)) : Prop where
  full : ∀ part ∈ parts.dropLast, part.length = size
  last : ∀ part ∈ parts.getLast?, 0 < part.length ∧ part.length ≤ size

theorem chunks_nil (size : Nat) : chunks size ([] : List α) = [] := rfl

variable {size : Nat}

theorem chunksFrom_fuel (positive : 0 < size) {fuel fuel' : Nat} {text : List α} (enough : text.length ≤ fuel)
    (enough' : text.length ≤ fuel') : chunksFrom size fuel text = chunksFrom size fuel' text := by
  induction fuel generalizing text fuel' with
  | zero =>
    rw [List.eq_nil_of_length_eq_zero (Nat.le_zero.mp enough)]
    cases fuel' <;> rfl
  | succ fuel ih =>
    cases text with
    | nil => cases fuel' <;> rfl
    | cons c text =>
      rw [List.length_cons] at enough enough'
      obtain ⟨fuel',rfl⟩ := Nat.exists_eq_add_of_lt (show 0 < fuel' by omega)
      have shorter : ((c :: text).drop size).length ≤ text.length := by
        rw [List.length_drop,List.length_cons]
        omega
      rw [chunksFrom,chunksFrom,ih (show _ ≤ fuel by omega) (show _ ≤ 0 + fuel' by omega)]

theorem chunks_cut (positive : 0 < size) {text : List α} (some : text ≠ []) :
    chunks size text = text.take size :: chunks size (text.drop size) := by
  obtain ⟨c,rest,rfl⟩ := List.exists_cons_of_ne_nil some
  rw [chunks,List.length_cons,chunksFrom,chunks]
  congr 1
  refine chunksFrom_fuel positive ?_ (Nat.le_refl _)
  rw [List.length_drop,List.length_cons]
  omega

/-- A property of the parts of every text, from the empty one and from what one cut leaves. -/
theorem chunks_induction (positive : 0 < size) {motive : List α → Prop} (empty : motive [])
    (cut : ∀ text, text ≠ [] → motive (text.drop size) → motive text) (text : List α) : motive text := by
  induction length : text.length using Nat.strongRecOn generalizing text with
  | ind length' ih =>
  by_cases nothing : text = []
  · subst nothing
    exact empty
  · refine cut text nothing (ih (text.drop size).length ?_ _ rfl)
    have some := List.length_pos_of_ne_nil nothing
    rw [List.length_drop]
    omega

theorem flatten_chunks (positive : 0 < size) (text : List α) : (chunks size text).flatten = text := by
  induction text using chunks_induction positive with
  | empty => rfl
  | cut text some ih => rw [chunks_cut positive some,List.flatten_cons,ih,List.take_append_drop]

theorem chunks_grouped (positive : 0 < size) (text : List α) : Grouped size (chunks size text) := by
  induction text using chunks_induction positive with
  | empty => exact ⟨nofun,nofun⟩
  | cut text some ih =>
    have length := List.length_pos_of_ne_nil some
    rw [chunks_cut positive some]
    by_cases final : text.drop size = []
    · rw [final,chunks_nil]
      refine ⟨nofun,?_⟩
      rintro _ ⟨⟩
      rw [List.getLast_singleton,List.length_take]
      omega
    · have more : chunks size (text.drop size) ≠ [] := by
        rw [chunks_cut positive final]
        exact List.cons_ne_nil _ _
      have long : size < text.length := by
        rw [List.drop_eq_nil_iff] at final
        omega
      constructor
      · rw [List.dropLast_cons_of_ne_nil more,List.forall_mem_cons,List.length_take]
        exact ⟨by omega,ih.full⟩
      · obtain ⟨first,rest,same⟩ := List.exists_cons_of_ne_nil more
        rw [same,List.getLast?_cons_cons,← same]
        exact ih.last

theorem Grouped.map {parts : List (List α)} (grouped : Grouped size parts) {f : List α → List β} (keeps : ∀ part, (f part).length = part.length) :
    Grouped size (parts.map f) := by
  constructor
  · intro part inside
    rw [← List.map_dropLast] at inside
    obtain ⟨source,there,rfl⟩ := List.mem_map.mp inside
    rw [keeps]
    exact grouped.full source there
  · intro part last
    rw [List.getLast?_map] at last
    obtain ⟨source,there,rfl⟩ := Option.map_eq_some_iff.mp last
    rw [keeps]
    exact grouped.last source there

theorem chunks_map (positive : 0 < size) (f : α → β) (text : List α) : chunks size (text.map f) = (chunks size text).map (List.map f) := by
  induction text using chunks_induction positive with
  | empty => rfl
  | cut text some ih =>
    rw [chunks_cut positive some,chunks_cut positive (by simpa using some),← List.map_take,← List.map_drop,ih,List.map_cons]

theorem take_flatMap {width : Nat} {f : α → List β} (each : ∀ a, (f a).length = width) (count : Nat) (text : List α) :
    (text.flatMap f).take (count * width) = (text.take count).flatMap f ∧
      (text.flatMap f).drop (count * width) = (text.drop count).flatMap f := by
  induction count generalizing text with
  | zero => simp
  | succ count ih =>
    cases text with
    | nil => simp
    | cons a text =>
      have size : (count + 1) * width = (f a).length + count * width := by
        rw [each,Nat.succ_mul,Nat.add_comm]
      rw [List.flatMap_cons,size,List.take_length_add_append,List.drop_length_add_append,(ih text).1,(ih text).2,
        List.take_succ_cons,List.drop_succ_cons,List.flatMap_cons]
      exact ⟨rfl,rfl⟩

/-- Where every element stands for as many others, so do the parts. -/
theorem chunks_flatMap (positive : 0 < size) {width : Nat} (wide : 0 < width) {f : α → List β} (each : ∀ a, (f a).length = width)
    (text : List α) : chunks (size * width) (text.flatMap f) = (chunks size text).map (List.flatMap f) := by
  induction text using chunks_induction positive with
  | empty => rfl
  | cut text some ih =>
    have nonempty : text.flatMap f ≠ [] := by
      obtain ⟨a,rest,rfl⟩ := List.exists_cons_of_ne_nil some
      rw [List.flatMap_cons]
      refine List.append_ne_nil_of_left_ne_nil (List.ne_nil_of_length_pos ?_) _
      rw [each]
      exact wide
    rw [chunks_cut (Nat.mul_pos positive wide) nonempty,chunks_cut positive some,(take_flatMap each size text).1,
      (take_flatMap each size text).2,ih,List.map_cons]

/-- Deleting what is put between the parts. -/
theorem filter_intercalate {keep : α → Bool} {separator : List α} (foreign : ∀ c ∈ separator, keep c = false) (parts : List (List α)) :
    (separator.intercalate parts).filter keep = parts.flatten.filter keep := by
  induction parts with
  | nil => rfl
  | cons part parts ih =>
    by_cases last : parts = []
    · subst last
      rw [List.intercalate_singleton,List.flatten_singleton]
    · have gone : separator.filter keep = [] := List.filter_eq_nil_iff.mpr fun c inside => by rw [foreign c inside]; exact Bool.false_ne_true
      rw [List.intercalate_cons_of_ne_nil last,List.filter_append,List.filter_append,gone,ih,List.flatten_cons,List.filter_append,
        List.append_nil]

end Qdrust.Library.Chunks
