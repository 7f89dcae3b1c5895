import Fixture.Store.Record

/-!
What the program can be asked to do.
-/

namespace Fixture.CommandLine

inductive SessionCommand where
  | new (function : String) (name sessionDirectory : Option String)
  | load (function id : String) (storeDirectory sessionDirectory : Option String)
  | print (session : String)
  | apply (session : String) (command : Option String)
  | discard (session : String)
  | status (session : String)
  | list (sessionDirectory : Option String) (json : Bool)
  | close (session : String) (force : Bool)

inductive EditCommand where
  | openReturnValue (session : String)
  | openArgument (session functionName argument : String)
  | openField (session parent key : String)
  | setValue (session label : String) (value : Option String)
  | commit (session label : String)
  | close (session label : String)
  | select (session tab : String)
  | frames (session : String)

inductive StoreCommand where
  | save (session : String) (storeDirectory : Option String)
  | list (storeDirectory : Option String) (filter : Filter) (json : Bool)
  | get (id : String) (storeDirectory : Option String)
  | delete (id : String) (storeDirectory : Option String)

inductive Invocation where
  | flatten (input : String)
  | session (c : SessionCommand)
  | edit (c : EditCommand)
  | store (c : StoreCommand)

end Fixture.CommandLine
