import Fixture.Draft.TypeTag
import Fixture.Text.Quoted

/-!
Keys of the fields of a value: indices of an array and names of an object's members. A list of keys
is a path into a value, and `segment` gives each key a text such that different paths never have
the same one.
-/

namespace Fixture

open Json (Decoder)

/-- An index has 64 bits. -/
inductive FieldKey where
  | index (i : UInt64)
  | property (name : String)
deriving DecidableEq

namespace FieldKey

instance : Inhabited FieldKey := ⟨.index 0⟩

/-- The number of a run of digits, possibly after a plus sign, that fits into 64 bits. -/
def parseIndex? (raw : String) : Option UInt64 :=
  let digits := match raw.toList with
    | '+' :: rest => rest
    | cs => cs
  if digits.isEmpty || !digits.all Char.isDigit then none
  else
    let n := Nat.ofDigitChars 10 digits 0
    if n < UInt64.size then some (UInt64.ofNat n) else none

/-- What a key that was typed in means for a value: an index only within an array. -/
def ofRaw (parent : Json) (raw : String) : FieldKey :=
  match parent, parseIndex? raw with
  | .arr _, some i => .index i
  | _, _ => .property raw

def get? : FieldKey → Json → Option Json
  | .index i, .arr items => items[i.toNat]?
  | .property name, .obj members => Json.lookup name members
  | _, _ => none

def replaceMember (name : String) (value : Json) : List (String × Json) → List (String × Json)
  | [] => []
  | (key, old) :: rest =>
    if key = name then (key, value) :: rest else (key, old) :: replaceMember name value rest

def set (key : FieldKey) (value : Json) : Json → Json
  | .arr items => match key with
    | .index i => .arr (items.set i.toNat value)
    | .property _ => .arr items
  | .obj members => match key with
    | .property name => .obj (replaceMember name value members)
    | .index _ => .obj members
  | v => v

def isComposite (key : FieldKey) (parent : Json) : Bool := (key.get? parent).any Json.isComposite

def display : FieldKey → String
  | .index i => toString i.toNat
  | .property name => name

/-- Whether a name cannot be mistaken for anything but a single name. -/
def isPlain (name : String) : Bool :=
  !name.isEmpty && name.toList.all fun c => !(['.', '[', ']', '"'].contains c)

def segment : FieldKey → String
  | .index i => "[" ++ toString i.toNat ++ "]"
  | .property name =>
    if isPlain name then "." ++ name else "[" ++ Text.Quoted.quote name ++ "]"

def decode : Decoder FieldKey := fun _ d => do
  match ← Decoder.ofFault d.toJson with
  | .num (.int n) =>
    if 0 ≤ n ∧ n < UInt64.size then return .index (UInt64.ofNat n.toNat)
    else .error (.noVariant "FieldKey")
  | .str name => return .property name
  | _ => .error (.noVariant "FieldKey")

def encode : FieldKey → Json
  | .index i => .num (.int i.toNat)
  | .property name => .str name

end FieldKey

end Fixture
