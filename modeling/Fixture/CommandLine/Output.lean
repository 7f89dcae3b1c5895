import Fixture.CommandLine.SessionFile

/-!
What commands print.
-/

namespace Fixture.CommandLine

def line (text : String) : String := text ++ "\n"

def printed (pretty : Bool) (v : Json) : String := line (if pretty then v.pretty else v.compact)

def orNull (text : Option String) : Json := (text.map Json.str).getD .null

def status (s : Session) : Json :=
  .obj [("id", orNull s.draft.id), ("functionId", .str s.draft.functionId),
    ("customName", .str s.draft.customName), ("dirty", .bool s.isDirty),
    ("enabledModules", .arr (s.draft.modules.enabled.map ModuleName.encode)),
    ("selected", orNull s.selectedTab),
    ("openEditors", .arr (s.editors.frames.map fun f => .str f.label))]

def listing (s : Session) : Json :=
  .obj [("selected", orNull s.selectedTab),
    ("frames", .arr (s.editors.frames.map fun f =>
      .obj (f.members ++ [("modified", .bool f.isModified)])))]

def sessionSummary (path : String) (f : SessionFile) : Json :=
  .obj [("sessionFile", .str path), ("functionId", .str f.session.draft.functionId),
    ("id", orNull f.session.draft.id), ("dirty", .bool f.session.isDirty),
    ("createdAt", .str f.createdAt)]

def columns (texts : List String) : String := line (" | ".intercalate texts)

def sessionLine (path : String) (f : SessionFile) : String :=
  columns [path, f.session.draft.functionId, f.session.draft.id.getD "(unsaved)",
    if f.session.isDirty then "modified" else "clean", f.createdAt]

def recordLine (r : Record) : String :=
  columns [r.id, r.fileId ++ ":" ++ r.functionId,
    if r.customName.isEmpty then "(unnamed)" else r.customName, r.updatedAt.toSecondsText]

def linesOr (none : String) (lines : List String) : String :=
  if lines.isEmpty then line none else String.join lines

end Fixture.CommandLine
