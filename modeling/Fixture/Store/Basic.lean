import Fixture.Host.Fresh
import Fixture.Json.Printer
import Fixture.Store.Location
import Fixture.Store.Record

/-!
The store of records: a directory with one file for each record, named by its id. An id has letters,
digits, hyphens and underscores only, so that no record lies outside of the directory.
-/

namespace Fixture

open Json (DecodeError)

inductive StoreError where
  | file (e : FileError)
  | json (e : DecodeError)
  | persist (e : FileError)
  | notFound (id : String)
  | invalidId (id : String)
deriving DecidableEq

namespace StoreError

def message : StoreError → String
  | .file e => "IO error: " ++ e.name
  | .json e => "JSON error: " ++ e.message
  | .persist e => "failed to persist record: " ++ e.name
  | .notFound id => "test not found: " ++ id
  | .invalidId id => "invalid test id: " ++ Text.Visible.quote id

def ofReplace : ReplaceError → StoreError
  | .staging e => .file e
  | .placing e => .persist e

/-- A file that is not there is a record that is not there. -/
def ofFile (id : String) : FileError → StoreError
  | .notFound => .notFound id
  | e => .file e

end StoreError

structure Store where
  directory : String

namespace Store

def isIdChar (c : Char) : Bool := c.isAlphanum || c == '-' || c == '_'

def isValidId (id : String) : Bool := !id.isEmpty && id.toList.all isIdChar

def fileName (id : String) : String := id ++ ".json"

def isRecordName (name : String) : Bool := Path.extension? name == some "json"

def path (s : Store) (id : String) : Except StoreError String :=
  if isValidId id then .ok (Path.join s.directory (fileName id)) else .error (.invalidId id)

def numberedId (now : Timestamp) (n : Nat) : String := "test-" ++ now.toStamp ++ "-" ++ toString n

def found? (f : Filter) (text : Except FileError String) : Option Record :=
  match text with
  | .error _ => none
  | .ok text =>
    match Record.decode.ofText text with
    | .error _ => none
    | .ok r => if f.admitsRecord r then some r else none

variable {m : Type → Type} [Monad m] [Host m]

def inDirectory (directory : String) : ExceptT StoreError m Store := do
  Host.during .file (Host.makeDirectories directory)
  return ⟨directory⟩

def atLocation (l : Location) : ExceptT StoreError m Store := do
  match l.path? with
  | some path => inDirectory path
  | none => inDirectory (l.pathFrom (← Host.during .file Host.currentDirectory))

def get (s : Store) (id : String) : ExceptT StoreError m Record := do
  let path ← s.path id
  let text ← Host.during (.ofFile id) (Host.readText path)
  liftM ((Record.decode.ofText text).mapError StoreError.json)

/-- Writes a record under the id that it has. -/
def write (s : Store) (r : Record) : ExceptT StoreError m Unit := do
  let path ← s.path r.id
  Host.during .ofReplace (Host.replaceText s.directory path r.encode.pretty)

def isUsed (s : Store) (id : String) : ExceptT StoreError m Bool := do
  let path ← s.path id
  Host.isTaken (m := m) path

def nextId (s : Store) : ExceptT StoreError m String := do
  let id := numberedId (← Host.now (m := m))
  let tries ← Host.nameBound (m := m)
  return id (← firstFree (fun n => s.isUsed (id n)) tries 1)

def create (s : Store) (n : NewRecord) : ExceptT StoreError m Record := do
  let now ← Host.now (m := m)
  let r := n.toRecord (← s.nextId) now
  s.write r
  return r

def update (s : Store) (id : String) (modules : Modules) (customName : String) :
    ExceptT StoreError m Record := do
  let old ← s.get id
  let r := { old with modules, customName, updatedAt := ← Host.now (m := m) }
  s.write r
  return r

def delete (s : Store) (id : String) : ExceptT StoreError m Unit := do
  let path ← s.path id
  Host.during (.ofFile id) (Host.remove path)

/-- The records that a search is for, in order. Files that hold no record are passed over. -/
def list (s : Store) (f : Filter) : ExceptT StoreError m (List Record) := do
  let names ← Host.during .file (Host.names s.directory)
  let texts ← (names.filter isRecordName).mapM fun name =>
    Host.readText (m := m) (Path.join s.directory name)
  return (texts.filterMap (found? f)).mergeSort Record.isBefore

/-- Saves a draft, under its id if it has one. The result takes the place of the draft. -/
def save (s : Store) (d : Draft) : ExceptT StoreError m Draft := do
  match d.id with
  | some id => return (← s.update id d.modules d.customName).toDraft
  | none => return (← s.create (.ofDraft d)).toDraft

end Store

end Fixture
