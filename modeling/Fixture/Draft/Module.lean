import Fixture.Draft.TypeTag

/-!
The three modules a draft may have, and what each of them holds.
-/

namespace Fixture

open Json (Decoder)

inductive ModuleName where
  | argumentList
  | returnValue
  | exception
deriving DecidableEq, Repr

namespace ModuleName

def name : ModuleName → String
  | .argumentList => "argumentList"
  | .returnValue => "returnValue"
  | .exception => "exception"

def all : List ModuleName := [.argumentList, .returnValue, .exception]

theorem mem_all (m : ModuleName) : m ∈ all := by cases m <;> decide

def parse? (s : String) : Option ModuleName := all.find? fun m => m.name == s

def decode : Decoder ModuleName := .name (all.map fun m => (m.name, m))

def encode (m : ModuleName) : Json := .str m.name

end ModuleName

def Json.optionalMember (name : String) (value : Option Json) : List (String × Json) :=
  value.toList.map (name, ·)

structure Slot where
  functionName : String
  argument : String
  type : TypeTag := .undefined
  value : Option Json := none
deriving BEq, ReflBEq, Inhabited

namespace Slot

def key (s : Slot) : String × String := (s.functionName, s.argument)

def withValue (s : Slot) (type : TypeTag) (value : Option Json) : Slot :=
  { s with type, value := type.restrict value }

def normalized (s : Slot) : Slot := s.withValue s.type s.value

def decode : Decoder Slot :=
  .record "struct FlattenedArgument" [["subFunctionName"], ["argument"], ["type"], ["value"]]
    fun r =>
      Slot.mk <$> r.required "subFunctionName" .text <*> r.required "argument" .text <*>
        r.withDefault "type" .undefined TypeTag.decode <*> r.optional "value" .json

def encode (s : Slot) : Json :=
  .obj <| [("subFunctionName", .str s.functionName), ("argument", .str s.argument),
    ("type", s.type.encode)] ++ Json.optionalMember "value" s.value

end Slot

structure ReturnValue where
  type : TypeTag := .undefined
  value : Option Json := none
deriving BEq, ReflBEq, Inhabited

namespace ReturnValue

def ofTyped (type : TypeTag) (value : Option Json) : ReturnValue := ⟨type, type.restrict value⟩

def normalized (r : ReturnValue) : ReturnValue := ofTyped r.type r.value

def decode : Decoder ReturnValue :=
  .record "struct ReturnValue" [["type"], ["value"]] fun r =>
    ReturnValue.mk <$> r.withDefault "type" .undefined TypeTag.decode <*> r.optional "value" .json

def encode (r : ReturnValue) : Json :=
  .obj <| ("type", r.type.encode) :: Json.optionalMember "value" r.value

end ReturnValue

/-- The exception a test expects. A part that is not there is not checked. -/
structure ExpectedException where
  equal : Bool := true
  value : Option String := some ""
  message : Option String := none
deriving DecidableEq, Inhabited

namespace ExpectedException

def decode : Decoder ExpectedException :=
  .record "struct ExpectedException" [["equal"], ["value"], ["message"]] fun r =>
    ExpectedException.mk <$> r.required "equal" .bool <*> r.optional "value" .text <*>
      r.optional "message" .text

def encode (e : ExpectedException) : Json :=
  .obj <| ("equal", .bool e.equal) :: Json.optionalMember "value" (e.value.map .str) ++
    Json.optionalMember "message" (e.message.map .str)

end ExpectedException

/-- The modules of a draft. A module is enabled if it is there. -/
structure Modules where
  argumentList : Option (List Slot) := none
  returnValue : Option ReturnValue := none
  exception : Option ExpectedException := none
deriving BEq, ReflBEq, Inhabited

namespace Modules

def contains (ms : Modules) : ModuleName → Bool
  | .argumentList => ms.argumentList.isSome
  | .returnValue => ms.returnValue.isSome
  | .exception => ms.exception.isSome

def enabled (ms : Modules) : List ModuleName := ModuleName.all.filter ms.contains

def remove (ms : Modules) : ModuleName → Modules
  | .argumentList => { ms with argumentList := none }
  | .returnValue => { ms with returnValue := none }
  | .exception => { ms with exception := none }

def slot? (ms : Modules) (functionName argument : String) : Option Slot :=
  ms.argumentList.bind fun slots => slots.find? fun s => s.key == (functionName, argument)

def decode : Decoder Modules :=
  .record "struct ModuleMap" [["argumentList"], ["returnValue"], ["exception"]] fun r =>
    Modules.mk <$> r.optional "argumentList" (.list Slot.decode) <*>
      r.optional "returnValue" ReturnValue.decode <*>
      r.optional "exception" ExpectedException.decode

def encode (ms : Modules) : Json :=
  .obj <|
    Json.optionalMember "argumentList"
      (ms.argumentList.map fun slots => .arr (slots.map Slot.encode))
    ++ Json.optionalMember "returnValue" (ms.returnValue.map ReturnValue.encode)
    ++ Json.optionalMember "exception" (ms.exception.map ExpectedException.encode)

end Modules

end Fixture
