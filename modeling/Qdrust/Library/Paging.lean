import Qdrust.Library.Table

/-! Lists that are handed out in pages. The cursor of a page is the key of its last row, and
the next page holds rows with smaller keys. -/
namespace Qdrust.Library

structure Page (ρ : Type) where
  items : List ρ
  hasMore : Bool
  nextCursor : Option Int

namespace Paging

/-- Whether a row is on a page behind the cursor. -/
def below {ρ : Type} (key : ρ → Int) : Option Int → ρ → Bool
  | none, _ => true
  | some cursor, row => key row < cursor

/-- The page of at most `size` rows, when one row more is looked at. -/
def lookAhead {ρ : Type} (key : ρ → Int) (size : Nat) (rows : List ρ) : Page ρ :=
  if size < rows.length then ⟨rows.take size,true,(rows.take size).getLast?.map key⟩ else ⟨rows,false,none⟩

section Walks

variable {ρ : Type} (fetch : Option Int → Option (Page ρ))

/-- The pages that a client gets who follows the cursors while there is more. -/
inductive Walk : Option Int → List (Page ρ) → Prop where
  | last {cursor : Option Int} {page : Page ρ} (fetched : fetch cursor = some page) (ended : page.hasMore = false) :
    Walk cursor [page]
  | more {cursor : Option Int} {page : Page ρ} {pages : List (Page ρ)} (fetched : fetch cursor = some page)
    (goes : page.hasMore = true) (rest : Walk page.nextCursor pages) : Walk cursor (page :: pages)

/-- A page says there is more exactly when a later one has a row. -/
def Marked : List (Page ρ) → Prop
  | [] => True
  | page :: later => (page.hasMore = true ↔ ∃ next ∈ later, next.items ≠ []) ∧ Marked later

/-- Following the cursors from the start ends, and visits the rows once and in their order. -/
def Lists (rows : List ρ) : Prop :=
  ∃ pages, Walk fetch none pages ∧ pages.flatMap Page.items = rows ∧ Marked pages

variable {fetch}

/-- Where all pages that can be reached say there is more, no client comes to an end. -/
theorem walk_endless (reached : Option Int → Prop) {cursor : Option Int} {pages : List (Page ρ)}
    (goes : ∀ cursor page, reached cursor → fetch cursor = some page → page.hasMore = true ∧ reached page.nextCursor)
    (start : reached cursor) : ¬Walk fetch cursor pages := by
  intro walk
  induction walk with
  | last fetched ended =>
    rw [(goes _ _ start fetched).1] at ended
    cases ended
  | more fetched _ _ ih => exact ih (goes _ _ start fetched).2

/-- Where the first page is the last one, it is all the client gets. -/
theorem lists_single {page : Page ρ} {rows : List ρ} (fetched : fetch none = some page) (ended : page.hasMore = false) :
    Lists fetch rows ↔ page.items = rows := by
  constructor
  · rintro ⟨pages,walk,items,_⟩
    cases walk with
    | last again _ =>
      cases fetched.symm.trans again
      rwa [List.flatMap_singleton] at items
    | more again goes _ =>
      cases fetched.symm.trans again
      rw [goes] at ended
      cases ended
  · rintro rfl
    refine ⟨[page],.last fetched ended,List.flatMap_singleton _ _,?_,trivial⟩
    rw [ended]
    exact iff_of_false Bool.false_ne_true fun ⟨_,inside,_⟩ => absurd inside List.not_mem_nil

end Walks

variable {ρ : Type} {key : ρ → Int}

theorem filter_below_none (rows : List ρ) : rows.filter (below key none) = rows := List.filter_eq_self.mpr fun _ _ => rfl

/-- Rows with descending keys, cut behind one of them. -/
theorem filter_below {front rest : List ρ} {row : ρ}
    (descending : (front ++ row :: rest).Pairwise fun a b => key b < key a) :
    (front ++ row :: rest).filter (below key (some (key row))) = rest := by
  rw [List.pairwise_append,List.pairwise_cons] at descending
  obtain ⟨_,⟨behind,_⟩,across⟩ := descending
  rw [List.filter_append,List.filter_cons_of_neg (by simp [below])]
  have earlier : front.filter (below key (some (key row))) = [] := by
    refine List.filter_eq_nil_iff.mpr fun other inside => ?_
    have larger := across other inside row List.mem_cons_self
    simp only [below,decide_eq_true_eq]
    omega
  have later : rest.filter (below key (some (key row))) = rest :=
    List.filter_eq_self.mpr fun other inside => decide_eq_true (behind other inside)
  rw [earlier,later,List.nil_append]

/-- A look ahead past one row or more makes pages that list all rows. -/
theorem lists_lookAhead {rows : List ρ} {size : Nat} {fetch : Option Int → Option (Page ρ)}
    (descending : rows.Pairwise fun a b => key b < key a) (positive : 0 < size)
    (looks : ∀ cursor, fetch cursor = some (lookAhead key size (rows.filter (below key cursor)))) : Lists fetch rows := by
  -- What is behind a cursor is a tail of the rows, and shrinks with every page.
  have from_cursor (cursor : Option Int) (front rest : List ρ) (whole : rows = front ++ rest)
      (behind : rows.filter (below key cursor) = rest) :
      ∃ pages, Walk fetch cursor pages ∧ pages.flatMap Page.items = rest ∧ Marked pages := by
    induction length : rest.length using Nat.strongRecOn generalizing cursor front rest with
    | ind length' ih =>
    have fetched := looks cursor
    rw [behind,lookAhead] at fetched
    by_cases fits : size < rest.length
    · rw [if_pos fits] at fetched
      have some_taken : rest.take size ≠ [] := by
        intro empty
        have none := congrArg List.length empty
        rw [List.length_take,List.length_nil] at none
        omega
      obtain ⟨taken,row,split⟩ := (List.eq_nil_or_concat (rest.take size)).resolve_left some_taken
      rw [List.concat_eq_append] at split
      have parts : rows = (front ++ taken) ++ row :: rest.drop size := by
        calc
          rows = front ++ (rest.take size ++ rest.drop size) := by rw [List.take_append_drop]; exact whole
          _ = (front ++ taken) ++ row :: rest.drop size := by rw [split]; simp only [List.append_assoc,List.cons_append,List.nil_append]
      have later : rows.filter (below key (some (key row))) = rest.drop size := by
        rw [parts] at descending ⊢
        exact filter_below descending
      obtain ⟨pages,walk,items,marked⟩ := ih (rest.drop size).length (by rw [List.length_drop]; omega)
        (some (key row)) (front ++ taken ++ [row]) (rest.drop size) (by rw [parts]; simp) later rfl
      have next : (rest.take size).getLast?.map key = some (key row) := by rw [split,List.getLast?_concat]; rfl
      rw [next] at fetched
      refine ⟨_ :: pages,.more fetched rfl walk,?_,⟨?_,marked⟩⟩
      · rw [List.flatMap_cons,items]
        exact List.take_append_drop size rest
      · refine iff_of_true rfl ?_
        by_contra empty
        push Not at empty
        have nothing : pages.flatMap Page.items = [] := List.flatMap_eq_nil_iff.mpr empty
        rw [items] at nothing
        have none := congrArg List.length nothing
        rw [List.length_drop,List.length_nil] at none
        omega
    · rw [if_neg fits] at fetched
      refine ⟨[_],.last fetched rfl,List.flatMap_singleton _ _,?_,trivial⟩
      exact iff_of_false Bool.false_ne_true fun ⟨_,inside,_⟩ => absurd inside List.not_mem_nil
  exact from_cursor none [] rows rfl (filter_below_none rows)

end Paging

namespace Table

variable {ρ : Type} {key : ρ → Int} (table : Table ρ key) (chosen : ρ → Bool)

/-- `WHERE chosen ORDER BY id DESC`. -/
def newest : List ρ := (table.rows.filter chosen).reverse

/-- `WHERE chosen AND id < ? ORDER BY id DESC LIMIT ?`; without a cursor there is no bound. -/
def newestBelow (cursor : Option Int) (limit : Int) : List ρ :=
  (table.newest fun row => chosen row && Paging.below key cursor row).take limit.toNat

theorem newest_descending : (table.newest chosen).Pairwise fun a b => key b < key a := by
  rw [newest,List.pairwise_reverse]
  exact (List.pairwise_map.mp table.ascending).sublist List.filter_sublist

theorem newestBelow_eq (cursor : Option Int) (limit : Int) :
    table.newestBelow chosen cursor limit = ((table.newest chosen).filter (Paging.below key cursor)).take limit.toNat := by
  rw [newestBelow,newest,newest,List.filter_reverse,List.filter_filter]
  simp only [Bool.and_comm]

end Table
end Qdrust.Library
