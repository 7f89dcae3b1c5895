import Fixture.Parameter.Pattern

/-!
A function found by the analyzer, with the parameter lists of the functions inside it.
-/

namespace Fixture

open Json (Decoder)

structure ParameterList where
  functionName : String
  body : List Pattern
deriving Inhabited

namespace ParameterList

def decode : Decoder ParameterList :=
  .record "struct ParameterTree" [["functionName", "name"], ["body"]] fun r =>
    ParameterList.mk <$> r.required "functionName" .text <*>
      r.withDefault "body" [] fun _ d => Pattern.listOfNode <$> Decoder.ofFault d.toJson

def encode (l : ParameterList) : Json :=
  .obj [("functionName", .str l.functionName), ("body", .arr (Pattern.encodeProperties l.body))]

def leaves (l : ParameterList) : List String := Pattern.leavesOfAll l.body

end ParameterList

structure LeafList where
  functionName : String
  arguments : List String
deriving DecidableEq, Inhabited

namespace LeafList

def decode : Decoder LeafList :=
  .record "struct FlattenedParameters" [["functionName"], ["arguments"]] fun r =>
    LeafList.mk <$> r.required "functionName" .text <*> r.required "arguments" (.list .text)

def encode (l : LeafList) : Json :=
  .obj [("functionName", .str l.functionName), ("arguments", .arr (l.arguments.map .str))]

def ofParameters (l : ParameterList) : LeafList := ⟨l.functionName, l.leaves⟩

end LeafList

structure AnalyzedFunction where
  pathToProject : String
  fileId : String
  functionId : String
  arguments : List ParameterList := []
deriving Inhabited

namespace AnalyzedFunction

def decode : Decoder AnalyzedFunction :=
  .record "struct FunctionDescriptor" [["pathToProject"], ["fileId"], ["functionId"], ["arguments"]]
    fun r =>
      AnalyzedFunction.mk <$> r.required "pathToProject" .text <*> r.required "fileId" .text <*>
        r.required "functionId" .text <*> r.withDefault "arguments" [] (.list ParameterList.decode)

def encode (f : AnalyzedFunction) : Json :=
  .obj [("pathToProject", .str f.pathToProject), ("fileId", .str f.fileId),
    ("functionId", .str f.functionId), ("arguments", .arr (f.arguments.map ParameterList.encode))]

end AnalyzedFunction

def ParameterList.leafPairs (lists : List ParameterList) : List (String × String) :=
  lists.flatMap fun l => l.leaves.map (l.functionName, ·)

/-- The parameter lists to be flattened: those of a function, or a list of them. -/
def ParameterList.decodeChoice : Decoder (List ParameterList) := fun _ d => do
  let _ ← Decoder.ofFault d.toJson
  match AnalyzedFunction.decode .buffer d, Decoder.list ParameterList.decode .buffer d with
  | .ok f, _ => return f.arguments
  | _, .ok lists => return lists
  | _, _ => .error (.noVariant "FlattenInput")

end Fixture
