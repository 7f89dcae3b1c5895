import Fixture.Calendar.Timestamp

/-!
What a command needs from the place it runs in: files, a clock, the input, and a few settings. A
command is written for any such place.
-/

namespace Fixture

inductive FileError where
  | notFound
  | alreadyExists
  | notADirectory
  | isADirectory
  | directoryNotEmpty
  | permissionDenied
  | readOnlyFilesystem
  | storageFull
  | invalidFilename
  | invalidInput
  | invalidData
  | other
deriving DecidableEq, Repr

namespace FileError

def name : FileError → String
  | .notFound => "NotFound"
  | .alreadyExists => "AlreadyExists"
  | .notADirectory => "NotADirectory"
  | .isADirectory => "IsADirectory"
  | .directoryNotEmpty => "DirectoryNotEmpty"
  | .permissionDenied => "PermissionDenied"
  | .readOnlyFilesystem => "ReadOnlyFilesystem"
  | .storageFull => "StorageFull"
  | .invalidFilename => "InvalidFilename"
  | .invalidInput => "InvalidInput"
  | .invalidData => "InvalidData"
  | .other => "Other"

end FileError

/-- Why a file was not replaced: the new text could not be set aside in the directory, or it could
not be put in the place of the old one. -/
inductive ReplaceError where
  | staging (e : FileError)
  | placing (e : FileError)
deriving DecidableEq, Repr

class Host (m : Type → Type) where
  /-- The text of a file. -/
  readText : String → m (Except FileError String)
  /-- The names in a directory, in no order that can be relied on. -/
  names : String → m (Except FileError (List String))
  /-- Whether a path leads to anything. -/
  isTaken : String → m Bool
  /-- More than the number of names that there can be in a directory. -/
  nameBound : m Nat
  /-- Makes a directory, and those above it, unless it is there. -/
  makeDirectories : String → m (Except FileError Unit)
  /-- Gives a file a new text, set aside in a directory first, so that there is never half of it. -/
  replaceText : (directory path text : String) → m (Except ReplaceError Unit)
  /-- Deletes a file. -/
  remove : String → m (Except FileError Unit)
  /-- The time at which it is called. -/
  now : m Timestamp
  /-- What tells this run of the program from others. -/
  processId : m Nat
  /-- All of the input. -/
  input : m (Except FileError String)
  /-- The directory of records that the surroundings ask for. -/
  storeVariable : m (Option String)
  /-- The directory for passing files. -/
  temporaryDirectory : m String
  /-- The directory that paths start from. -/
  currentDirectory : m (Except FileError String)

namespace Host

variable {m : Type → Type} {ε ε' α : Type}

def during [Functor m] (failure : ε → ε') (operation : m (Except ε α)) : ExceptT ε' m α :=
  ExceptT.mk ((·.mapError failure) <$> operation)

end Host

end Fixture
