import Fixture.Session.Basic
import Fixture.Store.Basic

/-!
Why a command fails. A failure is told from the outermost circumstance to the innermost cause.
-/

namespace Fixture.CommandLine

open Json (DecodeError)

inductive Failure where
  | readSession (path : String) (e : FileError)
  | parseSession (path : String) (e : DecodeError)
  | sessionVersion (version : UInt32) (path : String)
  | makeSessionDirectory (directory : String) (e : FileError)
  | stageSession (e : FileError)
  | persistSession (path : String) (e : FileError)
  | deleteSession (path : String) (e : FileError)
  | readDirectory (directory : String) (e : FileError)
  | readFile (path : String) (e : FileError)
  | readInput (e : FileError)
  | parseJson (what : String) (e : DecodeError)
  | parseFunction (path : String) (e : DecodeError)
  | parseParameters (e : DecodeError)
  | openStore (e : StoreError)
  | saveTest (e : StoreError)
  | loadTest (id : String) (e : StoreError)
  | deleteTest (id : String) (e : StoreError)
  | listTests (e : StoreError)
  | otherFunction (id fileId functionId wantedFile wantedFunction : String)
  | session (e : SessionError)
  | commandFailed (index : Nat) (e : SessionError)
  | unknownEditor (label : String)
  | unsavedChanges
deriving DecidableEq

inductive Link where
  | text (s : String)
  | file (e : FileError)
  | json (e : DecodeError)
  | store (e : StoreError)
deriving DecidableEq

namespace Link

def message : Link → String
  | .text s => s
  | .file e => e.name
  | .json e => e.message
  | .store e => e.message

def ofStore (e : StoreError) : List Link :=
  .store e :: match e with
    | .file cause | .persist cause => [.file cause]
    | .json cause => [.json cause]
    | .notFound _ | .invalidId _ => []

def ofSession (e : SessionError) : List Link :=
  .text e.message :: match e with
    | .command cause => (cause.cause?.map Link.json).toList
    | .refused _ | .editor _ => []

end Link

namespace Failure

/-- The explanation of a failure, the outermost circumstance first. -/
def links : Failure → List Link
  | .readSession path e => [.text ("failed to read session file: " ++ path), .file e]
  | .parseSession path e => [.text ("failed to parse session file: " ++ path), .json e]
  | .sessionVersion version path =>
    [.text ("unsupported session version " ++ toString version.toNat ++ " in " ++ path)]
  | .makeSessionDirectory directory e =>
    [.text ("failed to create session directory: " ++ directory), .file e]
  | .stageSession e => [.text "failed to create temp file for atomic write", .file e]
  | .persistSession path e => [.text ("failed to persist session file: " ++ path), .file e]
  | .deleteSession path e => [.text ("failed to delete session file: " ++ path), .file e]
  | .readDirectory directory e => [.text ("failed to read directory: " ++ directory), .file e]
  | .readFile path e => [.text ("failed to read " ++ path), .file e]
  | .readInput e => [.text "failed to read stdin", .file e]
  | .parseJson what e => [.text ("failed to parse " ++ what ++ " JSON"), .json e]
  | .parseFunction path e => [.text ("failed to parse function descriptor: " ++ path), .json e]
  | .parseParameters e => [.text "expected a function descriptor or parameter trees", .json e]
  | .openStore e => .text "failed to open test store" :: Link.ofStore e
  | .saveTest e => .text "failed to save test" :: Link.ofStore e
  | .loadTest id e => .text ("failed to load test " ++ id) :: Link.ofStore e
  | .deleteTest id e => .text ("failed to delete test " ++ id) :: Link.ofStore e
  | .listTests e => .text "failed to list tests" :: Link.ofStore e
  | .otherFunction id fileId functionId wantedFile wantedFunction =>
    [.text ("test " ++ id ++ " belongs to " ++ fileId ++ ":" ++ functionId ++ ", not " ++
      wantedFile ++ ":" ++ wantedFunction)]
  | .session e => Link.ofSession e
  | .commandFailed index e => .text ("command " ++ toString index ++ " failed") :: Link.ofSession e
  | .unknownEditor label => [.text ("no open editor labelled " ++ Text.Visible.quote label)]
  | .unsavedChanges =>
    [.text "session has unsaved changes (save it with `testdraft store save` or pass --force)"]

def report (f : Failure) : String :=
  match f.links.map Link.message with
  | [] => "Error"
  | [text] => "Error: " ++ text
  | [text, cause] => "Error: " ++ text ++ "\n\nCaused by:\n    " ++ cause
  | text :: causes =>
    "Error: " ++ text ++ "\n\nCaused by:" ++
      String.join (causes.mapIdx fun i cause => "\n    " ++ toString i ++ ": " ++ cause)

end Failure

end Fixture.CommandLine
