import Fixture.Editor.Editors

/-!
Sessions: all that is needed to edit one test. The draft changes only by commands, and after each
change the editors that have lost what they edit are closed. An operation that is refused gives no
new session.
-/

namespace Fixture

open Json (Decoder)

/-- The editing of one test: the function under test, the draft, the draft as last saved, and the
open editors. -/
structure Session where
  function : AnalyzedFunction
  draft : Draft
  persisted : Option Draft := none
  editors : Editors := {}
deriving Inhabited

inductive SessionError where
  | command (e : CommandError)
  | refused (e : Refusal)
  | editor (e : EditorError)
deriving DecidableEq

namespace SessionError

def message : SessionError → String
  | .command e => e.message
  | .refused e => e.message
  | .editor e => e.message

end SessionError

namespace Session

def fresh (f : AnalyzedFunction) : Session := { function := f, draft := f.initialDraft }

def ofPersisted (f : AnalyzedFunction) (saved : Draft) : Session :=
  { function := f, draft := saved, persisted := some saved }

def context (s : Session) : Context := ⟨some s.function, s.persisted⟩

def isDirty (s : Session) : Bool :=
  match s.persisted with
  | some saved => !(saved == s.draft)
  | none => true

/-- The session with another draft, without the editors that lose what they edit by it. -/
def replaceDraft (s : Session) (d : Draft) : Session :=
  { s with draft := d, editors := (s.editors.reconcile d).1 }

def run (s : Session) (c : Command) : Except SessionError Session :=
  match s.draft.apply s.context c with
  | .ok d => .ok (s.replaceDraft d)
  | .error e => .error (.refused e)

def dispatch (s : Session) (envelope : Json) : Except SessionError Session :=
  match Command.ofEnvelope envelope with
  | .error e => .error (.command e)
  | .ok (.ignored _) => .ok s
  | .ok (.command c) => s.run c

def markPersisted (s : Session) (saved : Draft) : Session :=
  { s with persisted := some saved }.replaceDraft saved

def withEditors {α : Type} (s : Session) (result : Except EditorError (α × Editors)) :
    Except SessionError (α × Session) :=
  match result with
  | .ok (a, editors) => .ok (a, { s with editors })
  | .error e => .error (.editor e)

def openReturnValue (s : Session) : Except SessionError (Frame × Session) :=
  s.withEditors (s.editors.openReturnValue s.draft)

def openArgument (s : Session) (functionName argument : String) :
    Except SessionError (Frame × Session) :=
  s.withEditors (s.editors.openArgument s.draft functionName argument)

/-- Opens the editor of a field; what the key means depends on the value it is a key of. -/
def openField (s : Session) (parent key : String) : Except SessionError (Frame × Session) :=
  match s.editors.frame? parent with
  | none => .error (.editor (.unknownFrame parent))
  | some frame =>
    s.withEditors (s.editors.openField s.draft parent (FieldKey.ofRaw frame.value key))

def setValue (s : Session) (label : String) (value : Json) : Except SessionError Session :=
  match s.editors.setValue label value with
  | .ok editors => .ok { s with editors }
  | .error e => .error (.editor e)

def commit (s : Session) (label : String) : Except SessionError Session :=
  match s.editors.frame? label with
  | none => .error (.editor (.unknownFrame label))
  | some frame =>
    match s.editors.commit label frame.value s.draft s.context with
    | .ok (d, editors) => .ok ({ s with editors }.replaceDraft d)
    | .error e => .error (.editor e)

def close? (s : Session) (label : String) : Option (Frame × Session) :=
  (s.editors.close? label).map fun (frame, editors) => (frame, { s with editors })

def select (s : Session) (key : String) : Session := { s with editors := s.editors.select key }

def selectedTab (s : Session) : Option String := s.editors.selectedTab s.draft

def decode : Decoder Session :=
  .record "struct DraftSession" [["function"], ["draft"], ["persisted"], ["navigator"]] fun r =>
    Session.mk <$> r.required "function" AnalyzedFunction.decode <*>
      r.required "draft" Draft.decode <*> r.optional "persisted" Draft.decode <*>
      r.withDefault "navigator" {} Editors.decode

def encode (s : Session) : Json :=
  .obj <| [("function", s.function.encode), ("draft", s.draft.encode)] ++
    Json.optionalMember "persisted" (s.persisted.map Draft.encode) ++
    [("navigator", s.editors.encode)]

def same (s t : Session) : Bool := s.encode.same t.encode

end Session

end Fixture
