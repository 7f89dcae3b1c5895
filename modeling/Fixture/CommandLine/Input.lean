import Fixture.CommandLine.SessionFile

/-!
What commands read besides session files.
-/

namespace Fixture.CommandLine

open Json (Decoder)

def isInput (path : String) : Bool :=
  match Path.parts path with
  | first :: rest => first == "-" && (Path.trim rest).isEmpty
  | [] => false

variable {m : Type → Type} [Monad m] [Host m]

def inputText : ExceptT Failure m String := Host.during .readInput Host.input

def textOf (path : String) : ExceptT Failure m String :=
  if isInput path then inputText else Host.during (.readFile path) (Host.readText path)

def valueOf (text : Option String) (what : String) : ExceptT Failure m Json := do
  let text ← match text with
    | some text => pure text
    | none => inputText
  liftM ((Decoder.json.ofText text).mapError (Failure.parseJson what))

def functionOf (path : String) : ExceptT Failure m AnalyzedFunction := do
  let text ← textOf path
  liftM ((AnalyzedFunction.decode.ofText text).mapError (Failure.parseFunction path))

def storeIn (directory : Option String) : ExceptT Failure m Store := do
  let location : Location ← match directory with
    | some path => pure { directory := some path }
    | none => Location.ofVariable <$> Host.storeVariable (m := m)
  (Store.atLocation location).adapt .openStore

def sessionDirectory (directory : Option String) : m String :=
  match directory with
  | some path => pure path
  | none => Host.temporaryDirectory

end Fixture.CommandLine
