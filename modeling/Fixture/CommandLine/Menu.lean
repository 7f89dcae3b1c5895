import Fixture.CommandLine.Arguments

/-!
The menu of the program.
-/

namespace Fixture.CommandLine

namespace Setting

def path (name : String) : Setting := { name, taking := .path }

def text (name : String) : Setting := { name, taking := .text }

def required (s : Setting) : Setting := { s with isRequired := true }

end Setting

namespace Menu

open Setting

def session : Setting := (path "session").required

def sessionMenu : Menu := .group [
  ("new", .command [(path "function").required, text "name", path "session-dir"] fun g =>
    .session (.new (g.text "function") (g.text? "name") (g.text? "session-dir"))),
  ("load", .command [(path "function").required, (text "id").required, path "store-dir",
      path "session-dir"] fun g =>
    .session (.load (g.text "function") (g.text "id") (g.text? "store-dir")
      (g.text? "session-dir"))),
  ("show", .command [session] fun g => .session (.print (g.text "session"))),
  ("apply", .command [session, text "command"] fun g =>
    .session (.apply (g.text "session") (g.text? "command"))),
  ("discard", .command [session] fun g => .session (.discard (g.text "session"))),
  ("status", .command [session] fun g => .session (.status (g.text "session"))),
  ("list", .command [path "session-dir", { name := "json" }] fun g =>
    .session (.list (g.text? "session-dir") (g.flag "json"))),
  ("close", .command [session, { name := "force" }] fun g =>
    .session (.close (g.text "session") (g.flag "force")))]

def editMenu : Menu := .group [
  ("open-return", .command [session] fun g => .edit (.openReturnValue (g.text "session"))),
  ("open-argument", .command [session, (text "function-name").required, (text "argument").required]
    fun g => .edit (.openArgument (g.text "session") (g.text "function-name") (g.text "argument"))),
  ("open-field", .command [session, (text "parent").required, (text "key").required] fun g =>
    .edit (.openField (g.text "session") (g.text "parent") (g.text "key"))),
  ("set", .command [session, (text "label").required, text "value"] fun g =>
    .edit (.setValue (g.text "session") (g.text "label") (g.text? "value"))),
  ("commit", .command [session, (text "label").required] fun g =>
    .edit (.commit (g.text "session") (g.text "label"))),
  ("close", .command [session, (text "label").required] fun g =>
    .edit (.close (g.text "session") (g.text "label"))),
  ("select", .command [session, (text "tab").required] fun g =>
    .edit (.select (g.text "session") (g.text "tab"))),
  ("frames", .command [session] fun g => .edit (.frames (g.text "session")))]

def storeMenu : Menu := .group [
  ("save", .command [session, path "store-dir"] fun g =>
    .store (.save (g.text "session") (g.text? "store-dir"))),
  ("list", .command [path "store-dir", text "project", text "file-id", text "function-id",
      { name := "json" }] fun g =>
    .store (.list (g.text? "store-dir")
      ⟨g.text? "project", g.text? "file-id", g.text? "function-id"⟩ (g.flag "json"))),
  ("get", .command [(text "id").required, path "store-dir"] fun g =>
    .store (.get (g.text "id") (g.text? "store-dir"))),
  ("delete", .command [(text "id").required, path "store-dir"] fun g =>
    .store (.delete (g.text "id") (g.text? "store-dir")))]

def program : Menu := .group [
  ("flatten", .command [{ (path "input").required with letter := some 'i' }] fun g =>
    .flatten (g.text "input")),
  ("session", sessionMenu),
  ("edit", editMenu),
  ("store", storeMenu)]

end Menu

def Invocation.ofArguments (arguments : List String) : Except UsageError (Invocation × Bool) :=
  Level.read { menu := .program } false arguments

end Fixture.CommandLine
