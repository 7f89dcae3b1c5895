import Fixture.CommandLine.Failure

/-!
Session files. Each holds one session with the version of the form it is in and the time of its
making. A session file is written whole or not at all.
-/

namespace Fixture.CommandLine

open Json (Decoder)

structure SessionFile where
  version : UInt32
  createdAt : String
  session : Session
deriving Inhabited

namespace SessionFile

def currentVersion : UInt32 := 1

def decode : Decoder SessionFile :=
  .record "struct SessionFile" [["version"], ["createdAt"], ["session"]] fun r =>
    SessionFile.mk <$> r.required "version" .word <*> r.required "createdAt" .text <*>
      r.required "session" Session.decode

def encode (f : SessionFile) : Json :=
  .obj [("version", .num (.int f.version.toNat)), ("createdAt", .str f.createdAt),
    ("session", f.session.encode)]

def ofSession (s : Session) (now : Timestamp) : SessionFile :=
  ⟨currentVersion, now.toSecondsText, s⟩

def namePrefix : String := "draft-"

def isSessionName (name : String) : Bool :=
  namePrefix.toList.isPrefixOf name.toList && ".json".toList.isSuffixOf name.toList

def numberedName (now : Timestamp) (processId n : Nat) : String :=
  namePrefix ++ now.toStamp ++ "-" ++ toString processId ++
    (if n ≤ 1 then "" else "-" ++ toString n) ++ ".json"

def ofText (path text : String) : Except Failure SessionFile :=
  match decode.ofText text with
  | .error e => .error (.parseSession path e)
  | .ok f => if f.version = currentVersion then .ok f else .error (.sessionVersion f.version path)

variable {m : Type → Type} {α : Type} [Monad m] [Host m]

def load (path : String) : ExceptT Failure m SessionFile := do
  let text ← Host.during (.readSession path) (Host.readText path)
  liftM (ofText path text)

def load? (path : String) : m (Option (String × SessionFile)) := do
  match ← (load path).run with
  | .ok f => return some (path, f)
  | .error _ => return none

def save (path : String) (f : SessionFile) : ExceptT Failure m Unit := do
  let directory := (Path.parent? path).getD "."
  let failure : ReplaceError → Failure
    | .staging e => .stageSession e
    | .placing e => .persistSession path e
  Host.during (.makeSessionDirectory directory) (Host.makeDirectories directory)
  Host.during failure (Host.replaceText directory path f.encode.pretty)

def newPath (directory : String) : m String := do
  let name := numberedName (← Host.now) (← Host.processId)
  let path (n : Nat) := Path.join directory (name n)
  return path (← firstFree (fun n => Host.isTaken (path n)) (← Host.nameBound) 1)

def create (directory : String) (s : Session) : ExceptT Failure m String := do
  let path ← newPath (m := m) directory
  save path (ofSession s (← Host.now (m := m)))
  return path

/-- Changes the session in a file. If the change fails, the file stays as it is. -/
def modify (path : String) (change : Session → ExceptT Failure m (α × Session)) :
    ExceptT Failure m α := do
  let f ← load path
  let (a, session) ← change f.session
  save path { f with session }
  return a

end SessionFile

end Fixture.CommandLine
