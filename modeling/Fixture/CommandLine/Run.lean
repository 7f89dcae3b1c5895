import Fixture.CommandLine.Input
import Fixture.CommandLine.Menu
import Fixture.CommandLine.Output
import Fixture.Host.Memory
import Fixture.Session.InPlace

/-!
Running of commands. Each gives the text that it prints; a command that fails prints nothing.
-/

namespace Fixture.CommandLine

def applyAll (s : Session) (index : Nat) : List Json → Except Failure Session
  | [] => .ok s
  | envelope :: rest =>
    match s.dispatch envelope with
    | .ok s => applyAll s (index + 1) rest
    | .error e => .error (.commandFailed index e)

def envelopesOf : Json → List Json
  | .arr items => items
  | v => [v]

def asked {α : Type} (result : Except SessionError α) : Except Failure α := result.mapError .session

def checkFunction (r : Record) (f : AnalyzedFunction) (id : String) : Except Failure Unit :=
  if r.functionId = f.functionId ∧ r.fileId = f.fileId then .ok ()
  else .error (.otherFunction id r.fileId r.functionId f.fileId f.functionId)

variable {m : Type → Type} [Monad m] [Host m]

def change {α : Type} (path : String) (step : Session → Except Failure (α × Session)) :
    ExceptT Failure m α :=
  SessionFile.modify path fun s => liftM (step s)

def changed (path : String) (step : Session → Except Failure Session) : ExceptT Failure m Session :=
  change path fun s => do
    let s ← step s
    return (s, s)

namespace SessionCommand

def sessionsIn (directory : String) : ExceptT Failure m (List (String × SessionFile)) := do
  let names ← Host.during (.readDirectory directory) (Host.names directory)
  let found ← (names.filter SessionFile.isSessionName).mapM fun name =>
    SessionFile.load? (m := m) (Path.join directory name)
  return (found.filterMap id).mergeSort fun a b => a.2.createdAt ≤ b.2.createdAt

def closeFile (path : String) (force : Bool) : ExceptT Failure m Unit := do
  let f ← SessionFile.load path
  if f.session.isDirty ∧ ¬force then throw .unsavedChanges
  Host.during (.deleteSession path) (Host.remove path)

def run (pretty : Bool) : SessionCommand → ExceptT Failure m String
  | new function name directory => do
    let s := Session.fresh (← functionOf function)
    let s ← match name with
      | some name => liftM (asked (s.run (.rename name)))
      | none => pure s
    return line (← SessionFile.create (← sessionDirectory (m := m) directory) s)
  | load function id storeDirectory directory => do
    let store ← storeIn storeDirectory
    let f ← functionOf function
    let r ← (store.get id).adapt (.loadTest id)
    checkFunction r f id
    let path ← SessionFile.create (← sessionDirectory (m := m) directory)
      (.ofPersisted f r.toDraft)
    return line path
  | print session => return printed pretty (← SessionFile.load session).session.draft.encode
  | apply session command => do
    let input ← valueOf command "command"
    let s ← changed session fun s => applyAll s 0 (envelopesOf input)
    return printed pretty s.draft.encode
  | discard session => do
    let s ← changed session fun s => asked (s.run .discard)
    return printed pretty s.draft.encode
  | status session => do
    let f ← SessionFile.load session
    return printed pretty (CommandLine.status f.session)
  | list directory json => do
    let found ← sessionsIn (← sessionDirectory (m := m) directory)
    if json then return printed true (.arr (found.map fun (path, f) => sessionSummary path f))
    else return linesOr "No draft sessions." (found.map fun (path, f) => sessionLine path f)
  | close session force => do
    closeFile session force
    return ""

end SessionCommand

namespace EditCommand

def closeEditor (label : String) (s : Session) : Except Failure Session :=
  match s.close? label with
  | some (_, s) => .ok s
  | none => .error (.unknownEditor label)

def run (pretty : Bool) : EditCommand → ExceptT Failure m String
  | openReturnValue session => do
    let frame ← change session fun s => asked s.openReturnValue
    return printed pretty frame.encode
  | openArgument session functionName argument => do
    let frame ← change session fun s => asked (s.openArgument functionName argument)
    return printed pretty frame.encode
  | openField session parent key => do
    let frame ← change session fun s => asked (s.openField parent key)
    return printed pretty frame.encode
  | setValue session label value => do
    let value ← valueOf value "value"
    let s ← changed session fun s => asked (s.setValue label value)
    return printed pretty (listing s)
  | commit session label => do
    let s ← changed session fun s => asked (s.commit label)
    return printed pretty s.draft.encode
  | close session label => do
    let s ← changed session (closeEditor label)
    return printed pretty (listing s)
  | select session tab => do
    let s ← changed session fun s => .ok (s.select tab)
    return printed pretty (listing s)
  | frames session => return printed pretty (listing (← SessionFile.load session).session)

end EditCommand

namespace StoreCommand

def saveDraft (store : Store) (s : Session) : ExceptT Failure m (Draft × Session) := do
  let saved ← (store.save s.draft).adapt .saveTest
  return (saved, s.markPersisted saved)

/-- Saves the draft of a session as it is carried out: first in the store, then in the session. -/
def saveDraftInPlace (store : Store) : InPlace Failure (Session × Memory) Draft := do
  let (s, memory) ← MonadState.get
  let (result, left) := Memory.run (store.save s.draft) memory
  modify fun (s, _) => (s, left)
  let saved ← .ofExcept .saveTest result
  modify fun (s, memory) => (((Session.markPersistedInPlace saved).run s).2, memory)
  return saved

def run (pretty : Bool) : StoreCommand → ExceptT Failure m String
  | save session directory => do
    let store ← storeIn directory
    return printed pretty (← SessionFile.modify session (saveDraft store)).encode
  | list directory filter json => do
    let store ← storeIn directory
    let records ← (store.list filter).adapt .listTests
    if json then return printed true (.arr (records.map Record.encode))
    else return linesOr "No tests." (records.map recordLine)
  | get id directory => do
    let store ← storeIn directory
    return printed pretty (← (store.get id).adapt (.loadTest id)).encode
  | delete id directory => do
    let store ← storeIn directory
    (store.delete id).adapt (.deleteTest id)
    return ""

end StoreCommand

def flatten (pretty : Bool) (input : String) : ExceptT Failure m String := do
  let text ← textOf input
  let lists ← liftM ((ParameterList.decodeChoice.ofText text).mapError Failure.parseParameters)
  return printed pretty (.arr (lists.map fun l => (LeafList.ofParameters l).encode))

def Invocation.run (pretty : Bool) : Invocation → ExceptT Failure m String
  | .flatten input => CommandLine.flatten pretty input
  | .session c => c.run pretty
  | .edit c => c.run pretty
  | .store c => c.run pretty

end Fixture.CommandLine
