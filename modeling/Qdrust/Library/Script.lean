import Qdrust.Library.Json
import Qdrust.Library.Text

/-! What a script makes of parsed JSON: `String(v)`, `trim`, and the tests on
values of any type. An absent field is no value; `number` prints a number. -/
namespace Qdrust.Library.Script

/-- White space and line ends. -/
def space (c : Char) : Bool := (Text.whiteSpace c && c.toNat != 0x85) || c.toNat == 0xFEFF

def trim (text : String) : String := Text.trimBy space text

section
variable (number : Number → String)

mutual
/-- `String(v)`, for objects without a `toString` of their own. -/
def string : Json → String
  | .null => "null"
  | .bool value => if value then "true" else "false"
  | .num value => number value
  | .str value => value
  | .arr items => String.intercalate "," (strings items)
  | .obj _ => "[object Object]"
def strings : List Json → List String
  | [] => []
  | .null :: rest => "" :: strings rest
  | item :: rest => string item :: strings rest
end

end

/-- `String(n)` of an integer. -/
def decimal (number : Number) : String := toString number.mantissa

/-- `v ?? default`. -/
def orElse (value : Option Json) (default : Json) : Json :=
  match value with
  | none => default
  | some .null => default
  | some json => json

/-- An object that is neither `null` nor an array. -/
def record (value : Option Json) : Fields := (value.bind Json.asObj).getD []

/-- `Array.isArray(v) ? v : []`. -/
def array (value : Option Json) : List Json := (value.bind Json.asArr).getD []

/-- A field of a record that is written only where there is a value. -/
def present (name : String) (value : Option Json) : Fields := (value.map fun json => (name,json)).toList

end Qdrust.Library.Script
