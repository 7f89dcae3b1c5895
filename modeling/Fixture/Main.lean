import Fixture.CommandLine.Run
import Std.Time.DateTime.Timestamp

/-!
The program: commands on the files, the clock and the input of the machine.
-/

namespace Fixture

def FileError.ofNumber (number : UInt32) : FileError :=
  match number.toNat with
  | 1 | 13 => .permissionDenied
  | 2 => .notFound
  | 17 => .alreadyExists
  | 20 => .notADirectory
  | 21 => .isADirectory
  | 22 => .invalidInput
  | 28 => .storageFull
  | 30 => .readOnlyFilesystem
  | 36 => .invalidFilename
  | 39 => .directoryNotEmpty
  | _ => .other

/-- The kind of a failure on the machine. A text that cannot be read as one has no number. -/
def FileError.ofMachine : IO.Error → FileError
  | .alreadyExists _ n _ | .otherError n _ | .resourceBusy n _ | .resourceVanished n _
  | .unsupportedOperation n _ | .hardwareFault n _ | .unsatisfiedConstraints n _
  | .illegalOperation n _ | .protocolError n _ | .timeExpired n _ | .interrupted _ n _
  | .noFileOrDirectory _ n _ | .invalidArgument _ n _ | .permissionDenied _ n _
  | .resourceExhausted _ n _ | .inappropriateType _ n _ | .noSuchThing _ n _ => .ofNumber n
  | .unexpectedEof => .other
  | .userError _ => .invalidData

def attempt {α : Type} (operation : IO α) : IO (Except FileError α) := do
  match ← operation.toBaseIO with
  | .ok a => return .ok a
  | .error e => return .error (.ofMachine e)

def machineTime : IO Timestamp := do
  let time ← Std.Time.Timestamp.now
  let seconds : Int := time.val.second.val
  return ⟨seconds / 86400, (seconds % 86400).toNat, time.val.nano.val.toNat⟩

def machineProcess : IO Nat := do
  match ← attempt (IO.FS.readFile "/proc/self/stat") with
  | .ok text => return ((String.ofList (text.toList.takeWhile Char.isDigit)).toNat?).getD 0
  | .error _ => return 0

def replaceOnMachine (directory path text : String) : IO (Except ReplaceError Unit) := do
  let time ← machineTime
  let name := ".tmp" ++ toString (← machineProcess) ++ "-" ++ toString time.nanosecond
  let aside := Path.join directory name
  match ← attempt (IO.FS.writeFile aside text) with
  | .error e => return .error (.staging e)
  | .ok _ =>
    match ← attempt (IO.FS.rename aside path) with
    | .ok _ => return .ok ()
    | .error e =>
      let _ ← attempt (IO.FS.removeFile aside)
      return .error (.placing e)

instance : Host IO where
  readText path := attempt (IO.FS.readFile path)
  names path := attempt do
    let entries ← (← IO.FS.realPath path).readDir
    return entries.toList.map fun entry => entry.fileName
  isTaken path := return (← attempt (IO.FS.realPath path)) matches .ok _
  nameBound := return UInt64.size
  makeDirectories path := if path.isEmpty then return .ok () else attempt (IO.FS.createDirAll path)
  replaceText := replaceOnMachine
  remove path := attempt (IO.FS.removeFile path)
  now := machineTime
  processId := machineProcess
  input := attempt do (← IO.getStdin).readToEnd
  storeVariable := IO.getEnv "TESTDRAFT_STORE_DIR"
  temporaryDirectory := return (← IO.getEnv "TMPDIR").getD "/tmp"
  currentDirectory := attempt do return (← IO.FS.realPath ".").toString

end Fixture

open Fixture CommandLine in
def main (arguments : List String) : IO UInt32 := do
  match Invocation.ofArguments arguments with
  | .error .displayHelp => return 0
  | .error e =>
    IO.eprintln ("error: " ++ e.name)
    return 2
  | .ok (invocation, pretty) =>
    match ← (invocation.run (m := IO) pretty).run with
    | .ok text =>
      IO.print text
      return 0
    | .error f =>
      IO.eprintln f.report
      return 1
