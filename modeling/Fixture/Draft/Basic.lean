import Fixture.Draft.Module
import Fixture.Parameter.Function

/-!
Drafts of tests, and the modules a function starts with.
-/

namespace Fixture

open Json (Decoder)

/-- A test being edited. It has an id once it has been saved. -/
structure Draft where
  id : Option String := none
  pathToProject : String
  fileId : String
  functionId : String
  customName : String := ""
  modules : Modules := {}
deriving BEq, ReflBEq, Inhabited

namespace Draft

def isPersisted (d : Draft) : Bool := d.id.isSome

def decode : Decoder Draft :=
  .record "struct TestDraft"
    [["id"], ["pathToProject"], ["fileId"], ["functionId"], ["customName"], ["moduleData"]]
    fun r =>
      Draft.mk <$> r.optional "id" .text <*> r.required "pathToProject" .text <*>
        r.required "fileId" .text <*> r.required "functionId" .text <*>
        r.withDefault "customName" "" .text <*> r.withDefault "moduleData" {} Modules.decode

def encode (d : Draft) : Json :=
  .obj <| Json.optionalMember "id" (d.id.map .str) ++
    [("pathToProject", .str d.pathToProject), ("fileId", .str d.fileId),
      ("functionId", .str d.functionId), ("customName", .str d.customName),
      ("moduleData", d.modules.encode)]

end Draft

namespace AnalyzedFunction

/-- One slot for each name that the parameters bind. A name that a function binds twice keeps its
first place. -/
def defaultSlots (lists : List ParameterList) : List Slot :=
  (ParameterList.leafPairs lists).eraseDups.map fun pair =>
    { functionName := pair.1, argument := pair.2 }

def defaultModules (f : AnalyzedFunction) : Modules :=
  { argumentList := some (defaultSlots f.arguments), returnValue := some {} }

def emptyDraft (f : AnalyzedFunction) : Draft :=
  { pathToProject := f.pathToProject, fileId := f.fileId, functionId := f.functionId }

def initialDraft (f : AnalyzedFunction) : Draft := { f.emptyDraft with modules := f.defaultModules }

end AnalyzedFunction

end Fixture
