import Graft.Json.Basic

/-!
# Values of TOML

The values that a TOML document can hold.  Numbers other than integers, and dates and times, are
kept as they are written.
-/

namespace Graft.Toml

/-- A value.  The entries of a table keep their order. -/
inductive Value where
  | string (text : Text)
  | boolean (value : Bool)
  | integer (value : Int)
  | float (written : Text)
  | moment (written : Text)
  | array (items : List Value)
  | table (entries : List (Text × Value))
  deriving Repr

namespace Value

/-- The key under which a date or time stands in JSON. -/
def momentKey : String := "$__toml_private_datetime"

mutual

/-- A value in JSON.  A number that is no integer becomes `null`, and a date or time an object with
one key of its own. -/
def toJson : Value → Json
  | .string t => .string t
  | .boolean b => .boolean b
  | .integer n => .number n 0
  | .float _ => .null
  | .moment t => .object [(momentKey, .string t)]
  | .array items => .array (itemsToJson items)
  | .table entries => .object (entriesToJson entries)

def itemsToJson : List Value → List Json
  | [] => []
  | v :: vs => v.toJson :: itemsToJson vs

def entriesToJson : List (Text × Value) → List (String × Json)
  | [] => []
  | (k, v) :: es => (String.ofList k, v.toJson) :: entriesToJson es

end

end Value

end Graft.Toml
