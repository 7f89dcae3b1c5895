import Fixture.Editor.InPlace
import Fixture.Session.Operation

/-!
The operations of a session as they are carried out, one write after the other: first in the editors
or the draft, and after another draft in the editors again.
-/

namespace Fixture

namespace Session

variable {α : Type}

def onEditors (code : InPlace EditorError Editors α) : InPlace SessionError Session α := do
  let (result, editors) := code.run (← get).editors
  modify fun s => { s with editors }
  .ofExcept .editor result

def replaceDraftInPlace (d : Draft) : InPlace SessionError Session Unit := do
  modify fun s => { s with draft := d }
  let _ ← onEditors (Editors.reconcileInPlace (← get).draft)

def runInPlace (c : Command) : InPlace SessionError Session Unit := do
  let s ← get
  let next ← .ofExcept .refused (s.draft.apply s.context c)
  replaceDraftInPlace next

def dispatchInPlace (envelope : Json) : InPlace SessionError Session Unit := do
  match Command.ofEnvelope envelope with
  | .error e => throw (.command e)
  | .ok (.ignored _) => return ()
  | .ok (.command c) => runInPlace c

def markPersistedInPlace (saved : Draft) : InPlace SessionError Session Unit := do
  modify fun s => { s with persisted := some saved }
  replaceDraftInPlace saved

def openFieldInPlace (parent key : String) : InPlace SessionError Session Frame := do
  let s ← get
  match s.editors.frame? parent with
  | none => throw (.editor (.unknownFrame parent))
  | some frame =>
    onEditors (Editors.openFieldInPlace s.draft parent (FieldKey.ofRaw frame.value key))

def commitInPlace (label : String) : InPlace SessionError Session Unit := do
  let s ← get
  match s.editors.frame? label with
  | none => throw (.editor (.unknownFrame label))
  | some frame =>
    let next ← onEditors (Editors.commitInPlace label frame.value s.draft s.context)
    replaceDraftInPlace next

def closeInPlace (label : String) : InPlace SessionError Session Frame := do
  match ← onEditors (Editors.closeInPlace label) with
  | some frame => return frame
  | none => throw (.editor (.unknownFrame label))

def selectInPlace (key : String) : InPlace SessionError Session Unit :=
  modify fun s => { s with editors := s.editors.select key }

end Session

def Operation.perform : Operation → InPlace SessionError Session (Option Frame)
  | .run c => do
    Session.runInPlace c
    return none
  | .dispatch envelope => do
    Session.dispatchInPlace envelope
    return none
  | .markPersisted saved => do
    Session.markPersistedInPlace saved
    return none
  | .openReturnValue => do
    let s ← get
    return some (← Session.onEditors (Editors.openReturnValueInPlace s.draft))
  | .openArgument functionName argument => do
    let s ← get
    return some (← Session.onEditors (Editors.openArgumentInPlace s.draft functionName argument))
  | .openField parent key => do
    return some (← Session.openFieldInPlace parent key)
  | .setValue label value => do
    Session.onEditors (Editors.setValueInPlace label value)
    return none
  | .commit label => do
    Session.commitInPlace label
    return none
  | .close label => do
    return some (← Session.closeInPlace label)
  | .select key => do
    Session.selectInPlace key
    return none

end Fixture
