import Fixture.CommandLine.Invocation

/-!
Reading of arguments. A menu has groups of commands, and each command has settings. Arguments are
read from left to right, and the first that does not fit decides the error; a setting that waits for
its text is looked at only when the next one is given or the arguments end.
-/

namespace Fixture.CommandLine

/-- Why arguments are refused. Asking for help is no request that can be carried out. -/
inductive UsageError where
  | missingRequiredArgument
  | unknownArgument
  | argumentConflict
  | invalidValue
  | tooManyValues
  | invalidSubcommand
  | missingSubcommand
  | displayHelp
  | displayHelpOnMissingArgumentOrSubcommand
deriving DecidableEq, Repr

namespace UsageError

def name : UsageError → String
  | .missingRequiredArgument => "MissingRequiredArgument"
  | .unknownArgument => "UnknownArgument"
  | .argumentConflict => "ArgumentConflict"
  | .invalidValue => "InvalidValue"
  | .tooManyValues => "TooManyValues"
  | .invalidSubcommand => "InvalidSubcommand"
  | .missingSubcommand => "MissingSubcommand"
  | .displayHelp => "DisplayHelp"
  | .displayHelpOnMissingArgumentOrSubcommand => "DisplayHelpOnMissingArgumentOrSubcommand"

end UsageError

/-- What a setting takes: nothing, a path, which is not empty, or any text. -/
inductive Taking where
  | nothing
  | path
  | text
deriving DecidableEq, Repr

structure Setting where
  name : String
  letter : Option Char := none
  taking : Taking := .nothing
  isRequired : Bool := false

def commonSettings : List Setting :=
  [{ name := "pretty" }, { name := "verbose", letter := some 'v' },
    { name := "help", letter := some 'h' }]

structure Given where
  flags : List String := []
  texts : List (String × String) := []

namespace Given

def flag (g : Given) (name : String) : Bool := g.flags.contains name

def text? (g : Given) (name : String) : Option String := g.texts.lookup name

def text (g : Given) (name : String) : String := (g.text? name).getD ""

end Given

inductive Menu where
  | command (settings : List Setting) (invocation : Given → Invocation)
  | group (choices : List (String × Menu))

/-- The reading of arguments at one place of the menu. A setting may wait for its text, or have it
without having been looked at. -/
structure Level where
  menu : Menu
  given : Given := {}
  waiting : Option (Setting × Option String) := none

namespace Level

def settings (l : Level) : List Setting :=
  match l.menu with
  | .command settings _ => settings ++ commonSettings
  | .group _ => commonSettings

def withName? (l : Level) (name : String) : Option Setting :=
  l.settings.find? fun s => s.name == name

def withLetter? (l : Level) (letter : Char) : Option Setting :=
  l.settings.find? fun s => s.letter == some letter

def take (l : Level) (s : Setting) (text : String) : Except UsageError Level :=
  if (l.given.text? s.name).isSome then .error .argumentConflict
  else if s.taking = .path ∧ text.isEmpty then .error .invalidValue
  else .ok { l with given := { l.given with texts := l.given.texts ++ [(s.name, text)] } }

def settle (l : Level) : Except UsageError Level :=
  match l.waiting with
  | none => .ok l
  | some (_, none) => .error .invalidValue
  | some (s, some text) => { l with waiting := none }.take s text

def raise (l : Level) (s : Setting) : Except UsageError Level := do
  let l ← l.settle
  if s.name = "help" then .error .displayHelp
  else if l.given.flag s.name then .error .argumentConflict
  else .ok { l with given := { l.given with flags := s.name :: l.given.flags } }

def start (l : Level) (s : Setting) (text : Option String) : Except UsageError Level := do
  let l ← l.settle
  match text with
  | some text => l.take s text
  | none => .ok { l with waiting := some (s, none) }

def readName (l : Level) (body : List Char) : Except UsageError Level :=
  let name := String.ofList (body.takeWhile (· ≠ '='))
  let text := match body.dropWhile (· ≠ '=') with
    | [] => none
    | _ :: text => some (String.ofList text)
  match l.withName? name with
  | none => .error .unknownArgument
  | some s =>
    match s.taking, text with
    | .nothing, none => l.raise s
    | .nothing, some _ => .error .tooManyValues
    | _, text => l.start s text

/-- An argument after one hyphen: letters, the last of which may take what follows as its text. -/
def readLetters (l : Level) : List Char → Except UsageError Level
  | [] => .ok l
  | letter :: rest =>
    match l.withLetter? letter with
    | none => .error .unknownArgument
    | some s =>
      if s.taking = .nothing then do
        let l ← l.raise s
        l.readLetters rest
      else match rest with
        | [] => l.start s none
        | '=' :: text => l.start s (some (String.ofList text))
        | text => l.start s (some (String.ofList text))

def finish (l : Level) (pretty : Bool) : Except UsageError (Invocation × Bool) := do
  let l ← l.settle
  match l.menu with
  | .command settings invocation =>
    if settings.all fun s => !s.isRequired || (l.given.text? s.name).isSome then
      .ok (invocation l.given, pretty || l.given.flag "pretty")
    else .error .missingRequiredArgument
  | .group _ =>
    if l.given.flags.isEmpty then .error .displayHelpOnMissingArgumentOrSubcommand
    else .error .missingSubcommand

/-- A word that is no choice, after the mark that nothing but words follow. -/
def misplacedWord (l : Level) (word : String) : UsageError :=
  match l.menu with
  | .command _ _ => .unknownArgument
  | .group choices =>
    if word = "help" ∨ (choices.lookup word).isSome then .unknownArgument else .invalidSubcommand

end Level

def helpOn : Menu → List String → UsageError
  | _, [] => .displayHelp
  | .command _ _, _ :: _ => .invalidSubcommand
  | .group choices, word :: rest =>
    match choices.lookup word with
    | some menu => helpOn menu rest
    | none => if word = "help" ∧ rest = [] then .displayHelp else .invalidSubcommand

/-- What is asked for by arguments at a place in the menu, and whether it is to be printed with one
item a line. -/
def Level.read (l : Level) (pretty : Bool) : List String → Except UsageError (Invocation × Bool)
  | [] => l.finish pretty
  | argument :: rest =>
    match argument.toList with
    | ['-', '-'] =>
      match rest with
      | [] => l.finish pretty
      | word :: _ => .error (l.misplacedWord word)
    | '-' :: '-' :: body => do
      let l ← l.readName body
      l.read pretty rest
    | '-' :: letter :: letters => do
      let l ← l.readLetters (letter :: letters)
      l.read pretty rest
    | _ =>
      match l.menu, l.waiting with
      | .group choices, _ =>
        match choices.lookup argument with
        | some menu => Level.read { menu } (pretty || l.given.flag "pretty") rest
        | none => .error (if argument = "help" then helpOn l.menu rest else .invalidSubcommand)
      | .command _ _, some (s, none) =>
        Level.read { l with waiting := some (s, some argument) } pretty rest
      | .command _ _, _ => .error .unknownArgument

end Fixture.CommandLine
