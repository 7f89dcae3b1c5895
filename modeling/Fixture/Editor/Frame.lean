import Fixture.Editor.FieldKey

/-!
Frames: single editors of an array or an object.
-/

namespace Fixture

open Json (Decoder)

inductive Target where
  | returnValue
  | argument (functionName argument : String)
  | field (key : FieldKey)
deriving DecidableEq

namespace Target

instance : Inhabited Target := ⟨.returnValue⟩

def decode : Decoder Target :=
  .tagged "internally tagged enum FrameTarget" "kind" [
    ("returnValue", .noFields .returnValue),
    ("argument", .record "struct variant FrameTarget::Argument" [["subFunctionName"], ["argument"]]
      fun r => Target.argument <$> r.required "subFunctionName" .text <*>
        r.required "argument" .text),
    ("field", .record "struct variant FrameTarget::Field" [["key"]]
      fun r => Target.field <$> r.required "key" FieldKey.decode)]

def encode : Target → Json
  | .returnValue => .obj [("kind", .str "returnValue")]
  | .argument functionName name =>
    .obj [("kind", .str "argument"), ("subFunctionName", .str functionName),
      ("argument", .str name)]
  | .field key => .obj [("kind", .str "field"), ("key", key.encode)]

end Target

/-- An open editor. Its parent is a module, or another editor by its label. -/
structure Frame where
  label : String
  initialValue : Json
  value : Json
  parent : String
  target : Target
deriving BEq, Inhabited

namespace Frame

def opened (label parent : String) (target : Target) (value : Json) : Frame :=
  ⟨label, value, value, parent, target⟩

def isModified (f : Frame) : Bool := !(f.value.same f.initialValue)

def decode : Decoder Frame :=
  .record "struct EditorFrame"
    [["label"], ["initialValue"], ["value"], ["parentEventKey"], ["target"]] fun r =>
      Frame.mk <$> r.required "label" .text <*> r.required "initialValue" .json <*>
        r.required "value" .json <*> r.required "parentEventKey" .text <*>
        r.required "target" Target.decode

def members (f : Frame) : List (String × Json) :=
  [("label", .str f.label), ("initialValue", f.initialValue), ("value", f.value),
    ("parentEventKey", .str f.parent), ("target", f.target.encode)]

def encode (f : Frame) : Json := .obj f.members

end Frame

end Fixture
