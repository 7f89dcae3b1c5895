import Fixture.Json.Decoder

/-!
The types of fixture values.
-/

namespace Fixture

inductive TypeTag where
  | undefined
  | null
  | boolean
  | number
  | string
  | array
  | object
deriving DecidableEq, Repr, Inhabited

namespace TypeTag

def name : TypeTag → String
  | .undefined => "undefined"
  | .null => "null"
  | .boolean => "boolean"
  | .number => "number"
  | .string => "string"
  | .array => "array"
  | .object => "object"

def all : List TypeTag := [.undefined, .null, .boolean, .number, .string, .array, .object]

theorem mem_all (t : TypeTag) : t ∈ all := by cases t <;> decide

/-- The type of a value, which is never `undefined`. -/
def ofValue : Json → TypeTag
  | .null => .null
  | .bool _ => .boolean
  | .num _ => .number
  | .str _ => .string
  | .arr _ => .array
  | .obj _ => .object

def isComposite : TypeTag → Bool
  | .array | .object => true
  | _ => false

def carriesValue : TypeTag → Bool
  | .undefined | .null => false
  | _ => true

def restrict (t : TypeTag) (value : Option Json) : Option Json :=
  if t.carriesValue then value else none

def decode : Json.Decoder TypeTag := .name (all.map fun t => (t.name, t))

def encode (t : TypeTag) : Json := .str t.name

end TypeTag

def Json.isComposite (v : Json) : Bool := (TypeTag.ofValue v).isComposite

end Fixture
