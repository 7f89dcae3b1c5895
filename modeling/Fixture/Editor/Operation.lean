import Fixture.Editor.Editors

/-!
The operations on the open editors alone, as data. Each is tried against a draft of its own, so that
nothing ties the editors to one draft.
-/

namespace Fixture

inductive EditorOperation where
  | push (frame : Frame) (d : Draft)
  | openReturnValue (d : Draft)
  | openArgument (d : Draft) (functionName argument : String)
  | openField (d : Draft) (parent : String) (key : FieldKey)
  | setValue (label : String) (value : Json)
  | commit (label : String) (value : Json) (d : Draft) (ctx : Context)
  | close (label : String)
  | select (key : String)
  | reconcile (d : Draft)

namespace Editors

def step? (es : Editors) : EditorOperation → Option Editors
  | .push frame d => (es.push frame d).toOption
  | .openReturnValue d => ((es.openReturnValue d).toOption).map (·.2)
  | .openArgument d functionName argument =>
    ((es.openArgument d functionName argument).toOption).map (·.2)
  | .openField d parent key => ((es.openField d parent key).toOption).map (·.2)
  | .setValue label value => (es.setValue label value).toOption
  | .commit label value d ctx => ((es.commit label value d ctx).toOption).map (·.2)
  | .close label => (es.close? label).map (·.2)
  | .select key => some (es.select key)
  | .reconcile d => some (es.reconcile d).1

/-- The editors after an operation; one that is refused changes nothing. -/
def after (es : Editors) (op : EditorOperation) : Editors := (es.step? op).getD es

def afterAll (es : Editors) (ops : List EditorOperation) : Editors := ops.foldl after es

end Editors

end Fixture
