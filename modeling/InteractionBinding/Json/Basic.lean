import InteractionBinding.Json.Number
import InteractionBinding.KeyMap
/-!
# JSON values

A `Json` is a JSON value. The members of an object are kept as a list; `Json.object` builds an
object from members in any order, of which the last one of a name counts, so that objects built by
it have one representation.
-/

namespace InteractionBinding

/-- A JSON value. -/
inductive Json where
  | null
  | bool (value : Bool)
  | number (value : Json.Number)
  | string (value : String)
  | array (items : List Json)
  | members (fields : List (String × Json))
deriving Repr, Inhabited

namespace Json

/-- The object with the given members. -/
def object (fields : List (String × Json)) : Json := .members (KeyMap.ofList fields).toList

/-- The object with the entries of a table as members. -/
def ofTable (table : KeyMap Json) : Json := .members table.toList

/-- The integer as a JSON number. -/
def ofNat (n : Nat) : Json := .number (.integer n)

/-- A missing value is written as null. -/
def ofOption (value : Option Json) : Json := value.getD .null

/-- The members of an object as a table. -/
def toTable? : Json → Option (KeyMap Json)
  | .members fields => some (KeyMap.ofList fields)
  | _ => none

/-- The member of an object with the given name. -/
def get? (value : Json) (name : String) : Option Json :=
  match value with
  | .members fields => KeyMap.lookup name fields
  | _ => none

end Json

end InteractionBinding
