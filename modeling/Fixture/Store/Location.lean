import Fixture.Host.Basic
import Fixture.Host.Path

/-!
Where records are kept: in a directory that is named, or else in a fixed place below a base.
-/

namespace Fixture

/-- Where records are kept. Without a base the current directory is meant. -/
structure Location where
  directory : Option String := none
  base : Option String := none

namespace Location

def defaultPath : String := ".testdraft/tests"

/-- The directory that the surroundings ask for; an empty one is none. -/
def ofVariable (value : Option String) : Location :=
  { directory := value.filter fun path => !path.isEmpty }

def path? (l : Location) : Option String :=
  match l.directory with
  | some path => some path
  | none => l.base.map fun base => Path.join base defaultPath

def pathFrom (l : Location) (current : String) : String :=
  l.path?.getD (Path.join current defaultPath)

end Location

end Fixture
