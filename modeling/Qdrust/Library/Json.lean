import Mathlib.Data.List.Forall2

/-! JSON values as a parser delivers them, and the two ways a record is read
from one. Object lookups take the first field of a name, so a map with unique
keys in any order behaves the same. -/
namespace Qdrust.Library

/-- The decimal `mantissa * 10 ^ exponent`. -/
structure Number where
  mantissa : Int
  exponent : Int
  deriving DecidableEq

inductive Json where
  | null
  | bool (value : Bool)
  | num (value : Number)
  | str (value : String)
  | arr (items : List Json)
  | obj (fields : List (String × Json))

/-- The fields of an object. -/
abbrev Fields := List (String × Json)

namespace Json

def asStr : Json → Option String
  | .str value => some value
  | _ => none

def asBool : Json → Option Bool
  | .bool value => some value
  | _ => none

def asArr : Json → Option (List Json)
  | .arr items => some items
  | _ => none

def asObj : Json → Option Fields
  | .obj fields => some fields
  | _ => none

end Json

namespace Fields

def get (fields : Fields) (name : String) : Option Json :=
  (fields.find? fun field => field.1 == name).map (·.2)

def containsKey (fields : Fields) (name : String) : Bool := (fields.get name).isSome

/-- Insert under a name that is not there. -/
def insertNew (fields : Fields) (name : String) (value : Json) : Fields :=
  if fields.containsKey name then fields else fields ++ [(name,value)]

/-- Insert a value, if there is one, under a name that is not there. -/
def insertSome (fields : Fields) (name : String) (value : Option Json) : Fields :=
  match value with
  | some json => fields.insertNew name json
  | none => fields

/-- Replace the value under a name that is there. -/
def modify (fields : Fields) (name : String) (change : Json → Json) : Fields :=
  fields.map fun field => if field.1 == name then (field.1,change field.2) else field

def remove (fields : Fields) (name : String) : Fields := fields.filter fun field => field.1 != name

/-- The text under a name, if there is one. -/
def text (fields : Fields) (name : String) : Option String := (fields.get name).bind Json.asStr

def list (fields : Fields) (name : String) : Option (List Json) := (fields.get name).bind Json.asArr

/-- The items of a list, none where there is no list. -/
def items (fields : Fields) (name : String) : List Json := (fields.list name).getD []

def object (fields : Fields) (name : String) : Option Fields := (fields.get name).bind Json.asObj

theorem get_append (first rest : Fields) (name : String) :
    get (first ++ rest) name = (first.get name).or (rest.get name) := by
  simp only [get,List.find?_append]
  cases first.find? fun field => field.1 == name <;> rfl

theorem get_single (name key : String) (value : Json) :
    get [(name,value)] key = if name = key then some value else none := by
  by_cases same : name = key <;> simp [get,same]

theorem get_insertNew (fields : Fields) (name key : String) (value : Json) :
    (fields.insertNew name value).get key =
      if key = name then some ((fields.get name).getD value) else fields.get key := by
  unfold insertNew containsKey
  by_cases same : key = name
  · subst key
    cases present : fields.get name <;> simp [present,get_append,get_single]
  · cases present : fields.get name <;> simp [same,Ne.symm same,get_append,get_single]

theorem get_insertSome (fields : Fields) (name key : String) (value : Option Json) :
    (fields.insertSome name value).get key =
      if key = name then (fields.get name).or value else fields.get key := by
  cases value with
  | none =>
    by_cases same : key = name
    · subst key
      simp [insertSome]
    · simp [insertSome,same]
  | some json =>
    rw [insertSome,get_insertNew]
    cases fields.get name <;> rfl

theorem get_modify (fields : Fields) (name key : String) (change : Json → Json) :
    (fields.modify name change).get key =
      if key = name then (fields.get name).map change else fields.get key := by
  induction fields with
  | nil => simp [get,modify]
  | cons field rest ih =>
    simp only [get,modify,List.map_cons] at ih ⊢
    by_cases here : field.1 = name
    · by_cases same : key = name
      · simp [here,same]
      · have other : (name == key) = false := by simpa using Ne.symm same
        simpa [here,same,other] using ih
    · by_cases found : field.1 = key
      · have other : key ≠ name := found ▸ here
        simp [found,other]
      · by_cases same : key = name
        · subst key
          simpa [here] using ih
        · simpa [here,found,same] using ih

theorem get_remove (fields : Fields) (name key : String) :
    (fields.remove name).get key = if key = name then none else fields.get key := by
  simp only [get,remove,List.find?_filter]
  by_cases same : key = name
  · subst key
    simp
  · rw [if_neg same]
    congr 2
    funext field
    by_cases here : field.1 = key
    · simp [here,same]
    · simp [here]

theorem text_eq (fields : Fields) (name : String) : fields.text name = (fields.get name).bind Json.asStr := rfl

theorem containsKey_eq (fields : Fields) (name : String) :
    fields.containsKey name = (fields.get name).isSome := rfl

end Fields

namespace Json

/-- An integer between `low` and `high`. -/
def asInt (low high : Int) : Json → Option Int
  | .num value =>
    if value.exponent = 0 ∧ low ≤ value.mantissa ∧ value.mantissa ≤ high then some value.mantissa else none
  | _ => none

variable {α β : Type}

/-- Change the fields of an object and leave any other value. -/
def onObj (change : Fields → Fields) : Json → Json
  | .obj fields => .obj (change fields)
  | json => json

/-- Change the items of an array and leave any other value. -/
def onArr (change : List Json → List Json) : Json → Json
  | .arr items => .arr (change items)
  | json => json

/-- A list field: an array whose items all decode. -/
def vec (item : Json → Option α) (json : Json) : Option (List α) := json.asArr.bind fun items => items.mapM item

/-- An optional field: `null` decodes to no value. -/
def opt (value : Json → Option α) : Json → Option (Option α)
  | .null => some none
  | json => (value json).map some

/-- A field that must be there. -/
def field (fields : Fields) (name : String) (value : Json → Option α) : Option α :=
  (fields.get name).bind value

/-- A value with a default for its absence. -/
def readD (default : α) (value : Json → Option α) : Option Json → Option α
  | none => some default
  | some json => value json

/-- A field with a default for its absence. -/
def fieldD (fields : Fields) (name : String) (default : α) (value : Json → Option α) : Option α :=
  readD default value (fields.get name)

/-- The fields of a record that is read from an object or, as a positional
sequence of exactly its fields, from an array. -/
def record (names : List String) : Json → Option Fields
  | .obj fields => some fields
  | .arr items => if items.length = names.length then some (names.zip items) else none
  | _ => none

theorem asArr_eq_some {json : Json} {items : List Json} : json.asArr = some items ↔ json = .arr items := by
  cases json <;> simp [asArr]

theorem asObj_eq_some {json : Json} {fields : Fields} : json.asObj = some fields ↔ json = .obj fields := by
  cases json <;> simp [asObj]

theorem asStr_eq_some {json : Json} {value : String} : json.asStr = some value ↔ json = .str value := by
  cases json <;> simp [asStr]

theorem asBool_eq_some {json : Json} {value : Bool} : json.asBool = some value ↔ json = .bool value := by
  cases json <;> simp [asBool]

theorem opt_of_ne_null {value : Json → Option α} {json : Json} (present : json ≠ .null) :
    opt value json = (value json).map some := by
  cases json <;> first | rfl | exact absurd rfl present

theorem vec_eq_some {item : Json → Option α} {json : Json} {values : List α} :
    json.vec item = some values ↔ ∃ items, json = .arr items ∧ items.mapM item = some values := by
  simp only [vec,Option.bind_eq_some_iff,asArr_eq_some]

/-- A field that is inserted where it is absent is a default. -/
theorem fieldD_insertNew {fields : Fields} {name : String} {default inserted : α} {value : Json → Option α}
    {json : Json} (decoded : value json = some inserted) :
    fieldD (fields.insertNew name json) name default value = fieldD fields name inserted value := by
  rw [fieldD,fieldD,Fields.get_insertNew,if_pos rfl]
  cases fields.get name with
  | none => exact decoded
  | some present => rfl

/-- Reading with another default differs only where the default is used and is
another value. -/
theorem fieldD_other {fields : Fields} {name : String} {default read : α} {value : Json → Option α}
    (decoded : fieldD fields name default value = some read) (other : α) :
    ∃ plain, fieldD fields name other value = some plain ∧
      (plain = read ↔ fields.containsKey name = true ∨ other = default) := by
  rw [fieldD] at decoded
  rw [fieldD,Fields.containsKey]
  cases present : fields.get name with
  | none =>
    rw [present] at decoded
    cases decoded
    exact ⟨other,rfl,by simp⟩
  | some json =>
    rw [present] at decoded
    exact ⟨read,decoded,by simp⟩

theorem fieldD_congr {first second : Fields} {name : String} (same : first.get name = second.get name)
    (default : α) (value : Json → Option α) :
    fieldD first name default value = fieldD second name default value := by
  rw [fieldD,fieldD,same]

/-- A list decodes to the values its items decode to, in order. -/
theorem mapM_eq_some {item : α → Option β} {items : List α} {values : List β} :
    items.mapM item = some values ↔ List.Forall₂ (fun a b => item a = some b) items values := by
  induction items generalizing values with
  | nil =>
    constructor
    · intro none
      cases Option.some.inj none
      exact .nil
    · intro related
      cases related
      rfl
  | cons a rest ih =>
    rw [List.mapM_cons]
    constructor
    · intro decoded
      obtain ⟨b,head,tail⟩ := Option.bind_eq_some_iff.mp decoded
      obtain ⟨bs,others,same⟩ := Option.bind_eq_some_iff.mp tail
      cases Option.some.inj same
      exact .cons head (ih.mp others)
    · intro related
      cases related with
      | cons head tail => simp [head,ih.mpr tail]

/-- An encoded list decodes item by item. -/
theorem vec_map {item : Json → Option α} {encode : β → Json} {decoded : β → α}
    (each : ∀ value, item (encode value) = some (decoded value)) (values : List β) :
    vec item (.arr (values.map encode)) = some (values.map decoded) := by
  refine vec_eq_some.mpr ⟨_,rfl,mapM_eq_some.mpr ?_⟩
  rw [List.forall₂_map_left_iff,List.forall₂_map_right_iff]
  exact List.forall₂_same.mpr fun value _ => each value

/-- Absent or a list. -/
def ListOrAbsent (value : Option Json) : Prop := value = none ∨ ∃ items, value = some (.arr items)

theorem readD_vec {value : Option Json} {item : Json → Option α} {rows : List α} :
    readD [] (vec item) value = some rows ↔
      ListOrAbsent value ∧ List.Forall₂ (fun json row => item json = some row) ((value.bind asArr).getD []) rows := by
  cases value with
  | none =>
    simp only [readD,Option.some.injEq,ListOrAbsent,true_or,true_and,Option.bind_none,Option.getD_none,
      List.forall₂_nil_left_iff]
    exact eq_comm
  | some json =>
    simp only [readD,vec_eq_some,mapM_eq_some,ListOrAbsent,reduceCtorEq,false_or,Option.some.injEq]
    constructor
    · rintro ⟨items,rfl,related⟩
      exact ⟨⟨items,rfl⟩,related⟩
    · rintro ⟨⟨items,rfl⟩,related⟩
      exact ⟨items,rfl,related⟩

end Json
end Qdrust.Library
