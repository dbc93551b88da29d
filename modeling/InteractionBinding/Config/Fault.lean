import InteractionBinding.Json.Number
import InteractionBinding.Text.Quoted
/-!
# Faults of configuration documents

Why a document is no configuration: its text is not JSON, or a value has the wrong shape. The first
fault from left to right is the one reported.
-/

namespace InteractionBinding

/-- What kind of value a place in a document asks for. -/
inductive Expected where
  | string
  | sequence
  | map
  | config
  | interaction
  | effect
  | condition
  | sequenceDef
  | conditionKind
  | unit
deriving DecidableEq, Repr

namespace Expected

def text : Expected → String
  | .string => "a string"
  | .sequence => "a sequence"
  | .map => "a map"
  | .config => "struct InteractConfig"
  | .interaction => "struct InteractionConfig"
  | .effect => "struct EffectRef"
  | .condition => "struct Condition"
  | .sequenceDef => "struct SequenceConfig"
  | .conditionKind => "string or map"
  | .unit => "unit"

end Expected

/-- What stands in the place of the expected value. -/
inductive Found where
  | null
  | bool (value : Bool)
  | number (value : Json.Number)
  | string (value : String)
  | sequence
  | map
deriving DecidableEq, Repr

namespace Found

def text : Found → String
  | .null => "null"
  | .bool value => if value then "boolean `true`" else "boolean `false`"
  | .number (.integer value) => "integer `" ++ toString value ++ "`"
  | .number (.double value) => "floating point `" ++ Json.renderDouble value ++ "`"
  | .string value => "string " ++ Text.quote value
  | .sequence => "sequence"
  | .map => "map"

end Found

/-- The ways in which a value has the wrong shape. -/
inductive ShapeError where
  | wrongType (found : Found) (expected : Expected)
  | missingField (name : String)
  | duplicateField (name : String)
  /-- An array stands for a record of `fields` fields and lacks those from `length` on. -/
  | tooShort (length : Nat) (expected : Expected) (fields : Nat)
  | tooLong (length : Nat)
  | unknownConditionKind (name : String)
  | notOneKey
  | noSequenceForm
deriving DecidableEq, Repr

namespace ShapeError

def message : ShapeError → String
  | .wrongType found expected => "invalid type: " ++ found.text ++ ", expected " ++ expected.text
  | .missingField name => "missing field `" ++ name ++ "`"
  | .duplicateField name => "duplicate field `" ++ name ++ "`"
  | .tooShort length expected fields =>
    "invalid length " ++ toString length ++ ", expected " ++ expected.text ++ " with " ++
      toString fields ++ " elements"
  | .tooLong length =>
    "invalid length " ++ toString length ++ ", expected fewer elements in array"
  | .unknownConditionKind name =>
    "unknown variant `" ++ name ++ "`, expected one of `media`, `container`, `selector`"
  | .notOneKey => "invalid value: map, expected map with a single key"
  | .noSequenceForm => "data did not match any variant of untagged enum SequenceEntry"

end ShapeError

/-- Why a document could not be converted. -/
inductive Fault where
  /-- The text is not JSON. -/
  | malformed
  | shape (error : ShapeError)
deriving DecidableEq, Repr

namespace Fault

/-- The code under which a configuration document is refused. -/
def code : String := "interweave::config::parse"

/-- The message for a configuration document of the wrong shape. -/
def configMessage (error : ShapeError) : String := "invalid interaction config: " ++ error.message

end Fault

end InteractionBinding
