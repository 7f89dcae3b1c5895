import Fixture.Command.Effect
import Fixture.Editor.Frame

/-!
The open editors, in the order in which they were opened, so that an editor comes after its parent,
and the selected tab. Each operation either gives the editors after it or leaves them alone.
-/

namespace Fixture

open Json (Decoder)

structure Editors where
  frames : List Frame := []
  selected : Option String := none
deriving BEq, Inhabited

inductive EditorError where
  | unknownFrame (label : String)
  | orphanFrame (label parent : String)
  | notComposite (what : String)
  | missingField (label key : String)
  | refused (e : Refusal)
deriving DecidableEq

namespace EditorError

def message : EditorError → String
  | .unknownFrame label => "no editor frame labelled `" ++ label ++ "`"
  | .orphanFrame label parent => "frame `" ++ label ++ "` has no live parent `" ++ parent ++ "`"
  | .notComposite what => "`" ++ what ++ "` does not hold an object or array value"
  | .missingField label key => "field `" ++ key ++ "` does not exist in frame `" ++ label ++ "`"
  | .refused e => e.message

end EditorError

def returnValueLabel : String := "Return value"

def argumentLabel : String := "Argument"

def startingValue? : TypeTag → Option Json → Option Json
  | .object, some (.obj members) => some (.obj members)
  | .array, some (.arr items) => some (.arr items)
  | .object, _ => some (.obj [])
  | .array, _ => some (.arr [])
  | _, _ => none

namespace Editors

def frame? (es : Editors) (label : String) : Option Frame :=
  es.frames.find? fun f => f.label == label

def subtree (es : Editors) (label : String) : List String :=
  if (es.frame? label).isSome then
    es.frames.foldl (fun labels f =>
      if labels.contains f.parent then labels ++ [f.label] else labels) [label]
  else []

def isLive (es : Editors) (d : Draft) (key : String) : Bool :=
  match ModuleName.parse? key with
  | some m => d.modules.contains m
  | none => (es.frame? key).isSome

def close? (es : Editors) (label : String) : Option (Frame × Editors) :=
  (es.frame? label).map fun frame =>
    let closed := es.subtree label
    (frame,
      { frames := es.frames.filter fun f => !closed.contains f.label
        selected := if es.selected.any closed.contains then some frame.parent else es.selected })

def without (es : Editors) (label : String) : Editors := ((es.close? label).map (·.2)).getD es

/-- Opens an editor and selects it, in the place of one with the same label. -/
def push (es : Editors) (frame : Frame) (d : Draft) : Except EditorError Editors :=
  if (es.subtree frame.label).contains frame.parent || !es.isLive d frame.parent then
    .error (.orphanFrame frame.label frame.parent)
  else
    .ok { frames := (es.without frame.label).frames ++ [frame], selected := some frame.label }

def pushed (es : Editors) (frame : Frame) (d : Draft) : Except EditorError (Frame × Editors) :=
  (es.push frame d).map (frame, ·)

def openReturnValue (es : Editors) (d : Draft) : Except EditorError (Frame × Editors) :=
  match d.modules.returnValue with
  | none => .error (.refused (.moduleDisabled .returnValue))
  | some r =>
    match startingValue? r.type r.value with
    | none => .error (.notComposite ModuleName.returnValue.name)
    | some value =>
      es.pushed (.opened returnValueLabel ModuleName.returnValue.name .returnValue value) d

def openArgument (es : Editors) (d : Draft) (functionName argument : String) :
    Except EditorError (Frame × Editors) :=
  if !d.modules.contains .argumentList then .error (.refused (.moduleDisabled .argumentList))
  else match d.modules.slot? functionName argument with
    | none => .error (.refused (.slotNotFound functionName argument))
    | some slot =>
      match startingValue? slot.type slot.value with
      | none => .error (.notComposite (functionName ++ "." ++ argument))
      | some value =>
        es.pushed (.opened argumentLabel ModuleName.argumentList.name
          (.argument functionName argument) value) d

def openField (es : Editors) (d : Draft) (parent : String) (key : FieldKey) :
    Except EditorError (Frame × Editors) :=
  match es.frame? parent with
  | none => .error (.unknownFrame parent)
  | some frame =>
    match key.get? frame.value with
    | none => .error (.missingField parent key.display)
    | some field =>
      let label := parent ++ key.segment
      if field.isComposite then es.pushed (.opened label parent (.field key) field) d
      else .error (.notComposite label)

def modifyFirst (label : String) (change : Frame → Frame) : List Frame → List Frame
  | [] => []
  | f :: fs => if f.label = label then change f :: fs else f :: modifyFirst label change fs

def holdsComposite (frames : List Frame) (label : String) (key : FieldKey) : Bool :=
  (frames.find? fun f => f.label == label).any fun f => key.isComposite f.value

/-- Goes through editors in order and keeps those that stand given the ones kept before. The labels
of the others come second. -/
def sift (stands : List Frame → Frame → Bool) (frames : List Frame) : List Frame × List String :=
  frames.foldl (fun acc f =>
    if stands acc.1 f then (acc.1 ++ [f], acc.2) else (acc.1, acc.2 ++ [f.label])) ([], [])

def fieldStands (kept : List Frame) (f : Frame) : Bool :=
  match f.target with
  | .field key => holdsComposite kept f.parent key
  | _ => true

/-- Replaces the value of an editor and closes the editors of fields that are gone. -/
def setValue (es : Editors) (label : String) (value : Json) : Except EditorError Editors :=
  if (es.frame? label).isSome then
    let (kept, closed) :=
      sift fieldStands (modifyFirst label (fun f => { f with value }) es.frames)
    .ok { frames := kept
          selected := if es.selected.any closed.contains then some label else es.selected }
  else .error (.unknownFrame label)

/-- Puts a value where the editor's value belongs and closes the editor. Values of the draft go
through its commands, the value of a field into the value of the parent editor. -/
def commit (es : Editors) (label : String) (value : Json) (d : Draft) (ctx : Context) :
    Except EditorError (Draft × Editors) :=
  match es.frame? label with
  | none => .error (.unknownFrame label)
  | some frame =>
    match frame.target with
    | .returnValue =>
      match d.modules.returnValue with
      | none => .error (.refused (.moduleDisabled .returnValue))
      | some r =>
        match d.apply ctx (.updateReturnValue (.ofTyped r.type (some value))) with
        | .error e => .error (.refused e)
        | .ok next => .ok (next, es.without label)
    | .argument functionName argument =>
      match d.modules.slot? functionName argument with
      | none => .error (.refused (.slotNotFound functionName argument))
      | some slot =>
        match d.apply ctx (.changeArgument (slot.withValue slot.type (some value))) with
        | .error e => .error (.refused e)
        | .ok next => .ok (next, es.without label)
    | .field key =>
      match es.frame? frame.parent with
      | none => .error (.unknownFrame frame.parent)
      | some parent =>
        match key.get? parent.value with
        | none => .error (.missingField frame.parent key.display)
        | some old =>
          if old.isComposite then
            let change (f : Frame) : Frame := { f with value := key.set value f.value }
            let changed := { es with frames := modifyFirst frame.parent change es.frames }
            .ok (d, changed.without label)
          else .error (.notComposite label)

def select (es : Editors) (key : String) : Editors := { es with selected := some key }

/-- The selected tab if it is still there, else the first enabled module. -/
def selectedTab (es : Editors) (d : Draft) : Option String :=
  match es.selected with
  | some key => if es.isLive d key then some key else (d.modules.enabled.head?).map ModuleName.name
  | none => (d.modules.enabled.head?).map ModuleName.name

def targetStands (d : Draft) (kept : List Frame) (f : Frame) : Bool :=
  match f.target with
  | .returnValue => d.modules.returnValue.any fun r => r.type.isComposite
  | .argument functionName argument =>
    (d.modules.slot? functionName argument).any fun s => s.type.isComposite
  | .field key => holdsComposite kept f.parent key

def parentStands (d : Draft) (kept : List Frame) (f : Frame) : Bool :=
  match ModuleName.parse? f.parent with
  | some m => d.modules.contains m
  | none => kept.any fun p => p.label == f.parent

/-- Closes the editors that have lost what they edit. Their labels come second. -/
def reconcile (es : Editors) (d : Draft) : Editors × List String :=
  let (kept, closed) :=
    sift (fun kept f => targetStands d kept f && parentStands d kept f) es.frames
  ({ es with frames := kept }, closed)

def decode : Decoder Editors :=
  .record "struct Navigator" [["frames"], ["selected"]] fun r =>
    Editors.mk <$> r.required "frames" (.list Frame.decode) <*> r.optional "selected" .text

def encode (es : Editors) : Json :=
  .obj <| ("frames", .arr (es.frames.map Frame.encode)) ::
    Json.optionalMember "selected" (es.selected.map .str)

end Editors

end Fixture
