import Fixture.Session.Basic

/-!
The operations of a session as data, and the sessions that they lead to.
-/

namespace Fixture

inductive Operation where
  | run (c : Command)
  | dispatch (envelope : Json)
  | markPersisted (saved : Draft)
  | openReturnValue
  | openArgument (functionName argument : String)
  | openField (parent key : String)
  | setValue (label : String) (value : Json)
  | commit (label : String)
  | close (label : String)
  | select (key : String)

namespace Session

def step? (s : Session) : Operation → Option Session
  | .run c => (s.run c).toOption
  | .dispatch envelope => (s.dispatch envelope).toOption
  | .markPersisted saved => some (s.markPersisted saved)
  | .openReturnValue => (s.openReturnValue.toOption).map (·.2)
  | .openArgument functionName argument =>
    ((s.openArgument functionName argument).toOption).map (·.2)
  | .openField parent key => ((s.openField parent key).toOption).map (·.2)
  | .setValue label value => (s.setValue label value).toOption
  | .commit label => (s.commit label).toOption
  | .close label => (s.close? label).map (·.2)
  | .select key => some (s.select key)

/-- What an operation gives: the editor that it opens or closes, if it does that, with the session
after it, or why it is refused. An editor that is not there cannot be closed. -/
def result (s : Session) : Operation → Except SessionError (Option Frame × Session)
  | .run c => (s.run c).map (none, ·)
  | .dispatch envelope => (s.dispatch envelope).map (none, ·)
  | .markPersisted saved => .ok (none, s.markPersisted saved)
  | .openReturnValue => s.openReturnValue.map fun opened => (some opened.1, opened.2)
  | .openArgument functionName argument =>
    (s.openArgument functionName argument).map fun opened => (some opened.1, opened.2)
  | .openField parent key =>
    (s.openField parent key).map fun opened => (some opened.1, opened.2)
  | .setValue label value => (s.setValue label value).map (none, ·)
  | .commit label => (s.commit label).map (none, ·)
  | .close label =>
    match s.close? label with
    | some (frame, t) => .ok (some frame, t)
    | none => .error (.editor (.unknownFrame label))
  | .select key => .ok (none, s.select key)

def after (s : Session) (op : Operation) : Session := (s.step? op).getD s

def afterAll (s : Session) (ops : List Operation) : Session := ops.foldl after s

/-- The sessions that can come about. -/
inductive Reachable : Session → Prop where
  | fresh (f : AnalyzedFunction) : Reachable (fresh f)
  | ofPersisted (f : AnalyzedFunction) (saved : Draft) : Reachable (ofPersisted f saved)
  | after {s : Session} (op : Operation) : Reachable s → Reachable (s.after op)

end Session

end Fixture
