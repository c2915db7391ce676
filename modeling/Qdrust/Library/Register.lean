import Mathlib.Logic.Function.Basic
import Qdrust.Library.Table

/-! Who owns which key of a table. A key is entered when its row is inserted, and the entry
stays, whatever becomes of the row. -/
namespace Qdrust.Library

variable {ρ ω : Type} {key : ρ → Int} {owner : ρ → ω} {register after : Int → Option ω} {table : Table ρ key}

/-- The register has the owners of the rows, and no key that was not handed out. -/
structure Registered (register : Int → Option ω) (owner : ρ → ω) (table : Table ρ key) : Prop where
  rows : ∀ r ∈ table.rows, register (key r) = some (owner r)
  fresh : ∀ k, table.last < k → register k = none

/-- No entry is changed. -/
def Extends (register after : Int → Option ω) : Prop := ∀ k o, register k = some o → after k = some o

theorem Extends.refl (register : Int → Option ω) : Extends register register := fun _ _ entry => entry

theorem Registered.empty : Registered (fun _ => none) owner (Table.empty : Table ρ key) := ⟨nofun,fun _ _ => rfl⟩

theorem Registered.update (registered : Registered register owner table) {chosen : ρ → Bool} {set : ρ → ρ}
    (keeps : ∀ r, key (set r) = key r) (owned : ∀ r, owner (set r) = owner r) :
    Registered register owner (table.update chosen set keeps) where
  rows := by
    intro r member
    obtain ⟨old,there,rfl⟩ := (table.mem_update keeps).mp member
    split
    · rw [keeps,owned]
      exact registered.rows old there
    · exact registered.rows old there
  fresh := registered.fresh

theorem Registered.delete (registered : Registered register owner table) (chosen : ρ → Bool) :
    Registered register owner (table.delete chosen) where
  rows r member := registered.rows r (table.mem_delete.mp member).1
  fresh := registered.fresh

/-- The register with the owner of the next row. -/
def entered (register : Int → Option ω) (table : Table ρ key) (o : ω) : Int → Option ω :=
  Function.update register (table.last + 1) (some o)

theorem entered_next (register : Int → Option ω) (table : Table ρ key) (o : ω) :
    entered register table o (table.last + 1) = some o := Function.update_self ..

theorem Registered.extends_entered (registered : Registered register owner table) (o : ω) :
    Extends register (entered register table o) := by
  intro k other entry
  have differs : k ≠ table.last + 1 := by
    rintro rfl
    rw [registered.fresh _ (by omega)] at entry
    cases entry
  rw [entered,Function.update_of_ne differs]
  exact entry

theorem Registered.insert (registered : Registered register owner table) {make : Int → ρ}
    (keyed : ∀ id, key (make id) = id) :
    Registered (entered register table (owner (make (table.last + 1)))) owner (table.insert make keyed) where
  rows := by
    intro r member
    rcases (table.mem_insert keyed).mp member with old | rfl
    · exact registered.extends_entered _ _ _ (registered.rows r old)
    · rw [keyed]
      exact entered_next _ _ _
  fresh := by
    intro k beyond
    have later : table.last + 1 < k := beyond
    rw [entered,Function.update_of_ne (by omega)]
    exact registered.fresh k (by omega)

end Qdrust.Library
