import Fixture.Draft.Basic

/-!
Records of saved tests, what a new record is made from, and which records a search is for.
-/

namespace Fixture

open Json (Decoder)

structure Record where
  id : String
  pathToProject : String
  fileId : String
  functionId : String
  customName : String := ""
  modules : Modules := {}
  createdAt : Timestamp
  updatedAt : Timestamp
deriving BEq, Inhabited

namespace Record

def toDraft (r : Record) : Draft :=
  ⟨some r.id, r.pathToProject, r.fileId, r.functionId, r.customName, r.modules⟩

/-- Whether a record comes no later than another in a list: the older one comes first, and of two
of one age the one with the smaller id. -/
def isBefore (r s : Record) : Bool :=
  ((r.createdAt.compare s.createdAt).then (compare r.id s.id)).isLE

def decode : Decoder Record :=
  .record "struct TestRecord"
    [["id"], ["pathToProject"], ["fileId"], ["functionId"], ["customName"], ["moduleData"],
      ["createdAt"], ["updatedAt"]]
    fun r =>
      Record.mk <$> r.required "id" .text <*> r.required "pathToProject" .text <*>
        r.required "fileId" .text <*> r.required "functionId" .text <*>
        r.withDefault "customName" "" .text <*> r.withDefault "moduleData" {} Modules.decode <*>
        r.required "createdAt" .time <*> r.required "updatedAt" .time

def encode (r : Record) : Json :=
  .obj [("id", .str r.id), ("pathToProject", .str r.pathToProject), ("fileId", .str r.fileId),
    ("functionId", .str r.functionId), ("customName", .str r.customName),
    ("moduleData", r.modules.encode), ("createdAt", .str r.createdAt.toText),
    ("updatedAt", .str r.updatedAt.toText)]

end Record

/-- What a new record is made from; its id and its times come with the saving. -/
structure NewRecord where
  pathToProject : String
  fileId : String
  functionId : String
  modules : Modules
  customName : Option String

namespace NewRecord

/-- A draft without its id. An empty name is no name. -/
def ofDraft (d : Draft) : NewRecord :=
  { pathToProject := d.pathToProject, fileId := d.fileId, functionId := d.functionId
    modules := d.modules, customName := if d.customName.isEmpty then none else some d.customName }

def toRecord (n : NewRecord) (id : String) (now : Timestamp) : Record :=
  { id, pathToProject := n.pathToProject, fileId := n.fileId, functionId := n.functionId
    customName := n.customName.getD "", modules := n.modules, createdAt := now, updatedAt := now }

end NewRecord

/-- What the records of a search have in common; what is not given may be anything. -/
structure Filter where
  pathToProject : Option String := none
  fileId : Option String := none
  functionId : Option String := none

namespace Filter

def admits (wanted : Option String) (text : String) : Bool := wanted.all fun w => w == text

def admitsRecord (f : Filter) (r : Record) : Bool :=
  admits f.pathToProject r.pathToProject && admits f.fileId r.fileId &&
    admits f.functionId r.functionId

end Filter

end Fixture
