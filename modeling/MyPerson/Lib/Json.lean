import Mathlib.Data.Rat.Defs
import Mathlib.Data.List.Basic

/-!
# `Lib.Json` — JSON values

Values as a reader of JSON holds them: numbers without a fraction apart from the others, an object as its fields in
the order they come. `Json.truthy` is what a test of the value decides in a language where empty values are false.
-/

namespace Lib

inductive Json
  | null
  | bool (b : Bool)
  | int (n : Int)
  | real (q : Rat)
  | str (s : String)
  | arr (items : List Json)
  | obj (fields : List (String × Json))

namespace Json

/-- The value of the first field of that name. -/
def field (name : String) (fields : List (String × Json)) : Option Json :=
  (fields.find? fun f => f.1 = name).map Prod.snd

/-- A field of an object; nothing of another value. -/
def get? (name : String) : Json → Option Json
  | .obj fields => field name fields
  | _ => none

def truthy : Json → Bool
  | .null => false
  | .bool b => b
  | .int n => n ≠ 0
  | .real q => q ≠ 0
  | .str s => s ≠ ""
  | .arr items => !items.isEmpty
  | .obj fields => !fields.isEmpty

/-- The value is an object. -/
def isObj : Json → Bool
  | .obj _ => true
  | _ => false

end Json

end Lib
