import Mathlib.Data.List.Basic
import Mathlib.Data.List.Pairwise
import Mathlib.Data.List.Nodup
import Mathlib.Data.List.Count

/-! Tables whose integer key is handed out by the table itself, in ascending
order and never twice. Statements select rows by a predicate and rewrite them. -/
namespace Qdrust.Library

/-- Rows in key order. `last` is the greatest key ever handed out, so a deleted
key is never handed out again. -/
structure Table (ρ : Type) (key : ρ → Int) where
  rows : List ρ
  last : Int
  ascending : (rows.map key).Pairwise (· < ·)
  bounded : ∀ r ∈ rows, key r ≤ last

namespace Table

variable {ρ : Type} {key : ρ → Int}

def empty : Table ρ key := ⟨[],0,List.Pairwise.nil,by simp⟩

/-- `UPDATE .. SET set WHERE chosen`. -/
def update (table : Table ρ key) (chosen : ρ → Bool) (set : ρ → ρ)
    (keeps : ∀ r, key (set r) = key r) : Table ρ key where
  rows := table.rows.map fun r => if chosen r then set r else r
  last := table.last
  ascending := by
    have same : (table.rows.map fun r => if chosen r then set r else r).map key = table.rows.map key := by
      rw [List.map_map]
      exact List.map_congr_left fun r _ => by simp only [Function.comp]; split <;> simp [keeps]
    rw [same]
    exact table.ascending
  bounded := by
    intro r member
    obtain ⟨old,present,rfl⟩ := List.mem_map.mp member
    split
    · rw [keeps]; exact table.bounded old present
    · exact table.bounded old present

/-- The number of rows a statement's condition selects. -/
def affected (table : Table ρ key) (chosen : ρ → Bool) : Nat := table.rows.countP chosen

/-- `DELETE WHERE chosen`. -/
def delete (table : Table ρ key) (chosen : ρ → Bool) : Table ρ key where
  rows := table.rows.filter fun r => !chosen r
  last := table.last
  ascending := table.ascending.sublist (List.filter_sublist.map key)
  bounded := fun r member => table.bounded r (List.mem_of_mem_filter member)

/-- `INSERT` of one row under the next key. -/
def insert (table : Table ρ key) (make : Int → ρ) (keyed : ∀ id, key (make id) = id) : Table ρ key where
  rows := table.rows ++ [make (table.last + 1)]
  last := table.last + 1
  ascending := by
    rw [List.map_append,List.pairwise_append]
    refine ⟨table.ascending,by simp,?_⟩
    intro a old b new
    obtain ⟨r,present,rfl⟩ := List.mem_map.mp old
    have bound := table.bounded r present
    simp only [List.map_cons,List.map_nil,keyed,List.mem_singleton] at new
    omega
  bounded := by
    intro r member
    rcases List.mem_append.mp member with old | new
    · have bound := table.bounded r old
      omega
    · rw [List.mem_singleton.mp new]
      exact Int.le_of_eq (keyed _)

/-- The row with a given key. -/
def find (table : Table ρ key) (id : Int) : Option ρ := table.rows.find? fun r => key r == id

theorem key_unique (table : Table ρ key) {a b : ρ} (first : a ∈ table.rows) (second : b ∈ table.rows)
    (same : key a = key b) : a = b := by
  have distinct : (table.rows.map key).Nodup := table.ascending.imp (fun h => by omega)
  exact List.inj_on_of_nodup_map distinct first second same

/-- At most one row is counted when all counted rows have one key. -/
theorem countP_le_one (table : Table ρ key) {p : ρ → Bool} {k : Int}
    (keyed : ∀ r ∈ table.rows, p r = true → key r = k) : table.rows.countP p ≤ 1 := by
  have distinct : (table.rows.map key).Nodup := table.ascending.imp (fun h => by omega)
  calc
    table.rows.countP p ≤ table.rows.countP fun r => key r == k :=
      List.countP_mono_left fun r member holds => by simp [keyed r member holds]
    _ = (table.rows.map key).count k := by rw [List.count_eq_countP,List.countP_map]; rfl
    _ ≤ 1 := List.nodup_iff_count_le_one.mp distinct k

theorem find_eq_some (table : Table ρ key) {id : Int} {r : ρ} :
    table.find id = some r ↔ r ∈ table.rows ∧ key r = id := by
  constructor
  · intro found
    exact ⟨List.mem_of_find?_eq_some found,by simpa using List.find?_some found⟩
  · rintro ⟨present,keyed⟩
    cases found : table.find id with
    | none =>
      have absent := List.find?_eq_none.mp found r present
      simp [keyed] at absent
    | some other =>
      have member := List.mem_of_find?_eq_some found
      have same : key other = id := by simpa using List.find?_some found
      rw [table.key_unique member present (same.trans keyed.symm)]

theorem mem_update (table : Table ρ key) {chosen : ρ → Bool} {set : ρ → ρ}
    (keeps : ∀ r, key (set r) = key r) {r : ρ} :
    r ∈ (table.update chosen set keeps).rows ↔
      ∃ old ∈ table.rows, r = if chosen old then set old else old := by
  simp only [update,List.mem_map]
  exact exists_congr fun old => and_congr_right fun _ => eq_comm

/-- Under each key an update leaves the row it rewrites there. -/
theorem find_update (table : Table ρ key) {chosen : ρ → Bool} {set : ρ → ρ} (keeps : ∀ r, key (set r) = key r)
    (id : Int) :
    (table.update chosen set keeps).find id = (table.find id).map fun r => if chosen r then set r else r := by
  rw [find,find,update,List.find?_map]
  congr 2
  funext r
  simp only [Function.comp]
  split
  · rw [keeps]
  · rfl

theorem mem_delete (table : Table ρ key) {chosen : ρ → Bool} {r : ρ} :
    r ∈ (table.delete chosen).rows ↔ r ∈ table.rows ∧ chosen r = false := by
  simp [delete]

theorem mem_insert (table : Table ρ key) {make : Int → ρ} (keyed : ∀ id, key (make id) = id) {r : ρ} :
    r ∈ (table.insert make keyed).rows ↔ r ∈ table.rows ∨ r = make (table.last + 1) := by
  simp [insert]

/-- The row just inserted is found under its key. -/
theorem find_insert (table : Table ρ key) {make : Int → ρ} (keyed : ∀ id, key (make id) = id) :
    (table.insert make keyed).find (table.last + 1) = some (make (table.last + 1)) :=
  (find_eq_some _).mpr ⟨(table.mem_insert keyed).mpr (Or.inr rfl),keyed _⟩

/-- An update under which no unselected row becomes selected cannot raise a count. -/
theorem countP_update_le (table : Table ρ key) {chosen : ρ → Bool} {set : ρ → ρ}
    (keeps : ∀ r, key (set r) = key r) {p : ρ → Bool} (shrinks : ∀ r, chosen r → p (set r) → p r) :
    (table.update chosen set keeps).rows.countP p ≤ table.rows.countP p := by
  simp only [update,List.countP_map]
  refine List.countP_mono_left fun r _ holds => ?_
  simp only [Function.comp] at holds
  split at holds
  next picked => exact shrinks r picked holds
  next kept => exact holds

/-- `after` continues `before`: every row is still there, moved by `R`, and the
rows that were not there before follow under fresh keys. -/
structure Evolves (R : ρ → ρ → Prop) (before after : Table ρ key) : Prop where
  grows : before.last ≤ after.last
  rows : ∃ (move : ρ → ρ) (added : List ρ), after.rows = before.rows.map move ++ added ∧
    (∀ r, key (move r) = key r ∧ R r (move r)) ∧ ∀ r ∈ added, before.last < key r

variable {R : ρ → ρ → Prop} {a b c : Table ρ key}

theorem Evolves.refl (reflexive : ∀ r, R r r) (a : Table ρ key) : Evolves R a a :=
  ⟨Int.le_refl _,id,[],by simp,fun r => ⟨rfl,reflexive r⟩,by simp⟩

theorem Evolves.trans (transitive : ∀ r s t, R r s → R s t → R r t) (first : Evolves R a b)
    (second : Evolves R b c) : Evolves R a c := by
  obtain ⟨grows,move,added,rows,moves,fresh⟩ := first
  obtain ⟨grows',move',added',rows',moves',fresh'⟩ := second
  refine ⟨Int.le_trans grows grows',move' ∘ move,added.map move' ++ added',?_,?_,?_⟩
  · rw [rows',rows,List.map_append,List.map_map,List.append_assoc]
  · intro r
    exact ⟨(moves' (move r)).1.trans (moves r).1,transitive _ _ _ (moves r).2 (moves' (move r)).2⟩
  · intro r member
    rcases List.mem_append.mp member with old | new
    · obtain ⟨s,there,rfl⟩ := List.mem_map.mp old
      rw [(moves' s).1]
      exact fresh s there
    · exact Int.lt_of_le_of_lt grows (fresh' r new)

/-- Every row is still there. -/
theorem Evolves.moved (evolved : Evolves R a b) (r : ρ) (member : r ∈ a.rows) :
    ∃ r' ∈ b.rows, key r' = key r ∧ R r r' := by
  obtain ⟨_,move,added,rows,moves,_⟩ := evolved
  refine ⟨move r,?_,moves r⟩
  rw [rows]
  exact List.mem_append_left added (List.mem_map_of_mem member)

/-- A row under an old key was there before. -/
theorem Evolves.origin (evolved : Evolves R a b) (r' : ρ) (member : r' ∈ b.rows) (old : key r' ≤ a.last) :
    ∃ r ∈ a.rows, key r = key r' := by
  obtain ⟨_,move,added,rows,moves,fresh⟩ := evolved
  rw [rows] at member
  rcases List.mem_append.mp member with there | new
  · obtain ⟨r,origin,rfl⟩ := List.mem_map.mp there
    exact ⟨r,origin,(moves r).1.symm⟩
  · have later := fresh r' new
    omega

/-- The rows with one key are related. -/
theorem Evolves.related (evolved : Evolves R a b) {r r' : ρ} (before : r ∈ a.rows) (after : r' ∈ b.rows)
    (same : key r' = key r) : R r r' := by
  obtain ⟨s,member,keyed,related⟩ := evolved.moved r before
  rwa [b.key_unique after member (same.trans keyed.symm)]

/-- A count of what `R` keeps grows by the rows that are added. -/
theorem Evolves.countP (evolved : Evolves R a b) {p : ρ → Bool} (kept : ∀ r r', R r r' → p r' = p r) :
    b.rows.countP p = a.rows.countP p + b.rows.countP fun r => decide (a.last < key r) && p r := by
  obtain ⟨_,move,added,rows,moves,fresh⟩ := evolved
  have old : (a.rows.map move).countP p = a.rows.countP p := by
    rw [List.countP_map]
    exact List.countP_congr fun r _ => by rw [Function.comp,kept r _ (moves r).2]
  have none : (a.rows.map move).countP (fun r => decide (a.last < key r) && p r) = 0 := by
    rw [List.countP_map,List.countP_eq_zero]
    intro r member
    have bound := a.bounded r member
    simp only [Function.comp,(moves r).1,Bool.and_eq_true,decide_eq_true_eq]
    omega
  have all : added.countP (fun r => decide (a.last < key r) && p r) = added.countP p :=
    List.countP_congr fun r member => by simp [fresh r member]
  rw [rows,List.countP_append,List.countP_append,old,none,all,Nat.zero_add]

theorem evolves_update (table : Table ρ key) {chosen : ρ → Bool} {set : ρ → ρ}
    (keeps : ∀ r, key (set r) = key r) (reflexive : ∀ r, R r r) (sets : ∀ r, chosen r → R r (set r)) :
    Evolves R table (table.update chosen set keeps) := by
  refine ⟨Int.le_refl _,fun r => if chosen r then set r else r,[],by simp [update],fun r => ?_,by simp⟩
  dsimp only
  split
  next picked => exact ⟨keeps r,sets r picked⟩
  next => exact ⟨rfl,reflexive r⟩

theorem evolves_insert (table : Table ρ key) {make : Int → ρ} (keyed : ∀ id, key (make id) = id)
    (reflexive : ∀ r, R r r) : Evolves R table (table.insert make keyed) := by
  refine ⟨by simp only [insert]; omega,id,[make (table.last + 1)],by simp [insert],
    fun r => ⟨rfl,reflexive r⟩,fun r member => ?_⟩
  rw [List.mem_singleton.mp member,keyed]
  omega

end Table
end Qdrust.Library
