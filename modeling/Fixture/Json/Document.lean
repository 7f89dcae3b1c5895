import Fixture.Json.Token

/-!
JSON documents: what a text holds, in its own order, with repeated names and with the place where
it stops being JSON. A fault in a document counts only when a reader reaches it, so that of several
faults the first on the reader's way is the one reported.
-/

namespace Fixture.Json

inductive Found where
  | null
  | bool (b : Bool)
  | int (n : Int)
  | float (x : Binary64)
  | str (s : String)
  | sequence
  | map
deriving DecidableEq

namespace Scalar

def found : Scalar → Except Fault Found
  | .null => .ok .null
  | .bool b => .ok (.bool b)
  | .num value => value.map fun
    | .int n => .int n
    | .float x => .float x
  | .str value => value.map .str
  | .brokenText wanted _ | .brokenWord wanted _ => .error wanted

/-- The fault met by a reader that only passes over the scalar. -/
def skip : Scalar → Except Fault Unit
  | .brokenText _ skipped | .brokenWord _ skipped => .error skipped
  | _ => .ok ()

def toJson : Scalar → Except Fault Json
  | .null => .ok .null
  | .bool b => .ok (.bool b)
  | .num value => value.map .num
  | .str value => value.map .str
  | .brokenText wanted _ | .brokenWord wanted _ => .error wanted

end Scalar

/-- How a list of items or members ends. After a comma or an opening brace, `noName` tells what
stands where a name should. -/
inductive Ending where
  | closed
  | cut (fault : Fault)
  | noName (fault : Fault) (found : Except Fault Found)

namespace Ending

def check : Ending → Except Fault Unit
  | .closed => .ok ()
  | .cut fault | .noName fault _ => .error fault

end Ending

/-- A document. `tooDeep` is an array or object inside 127 others, which may only be skipped;
`missing` is a place where a value should stand. -/
inductive Document where
  | scalar (s : Scalar)
  | arr (items : List Document) (ending : Ending)
  | obj (members : List (Except Fault String × Document)) (ending : Ending)
  | tooDeep (skipped : Except Fault Unit)
  | missing (fault : Fault)

/-- A member as it stands; its name may hold surrogates that only a skipping reader accepts. -/
abbrev Member := Except Fault String × Document

namespace Document

def found : Document → Except Fault Found
  | .scalar s => s.found
  | .arr _ _ => .ok .sequence
  | .obj _ _ => .ok .map
  | .tooDeep _ => .error .malformed
  | .missing fault => .error fault

mutual

def skip : Document → Except Fault Unit
  | .scalar s => s.skip
  | .arr items ending => do skipItems items; ending.check
  | .obj members ending => do skipMembers members; ending.check
  | .tooDeep skipped => skipped
  | .missing fault => .error fault

def skipItems : List Document → Except Fault Unit
  | [] => .ok ()
  | d :: ds => do skip d; skipItems ds

def skipMembers : List (Except Fault String × Document) → Except Fault Unit
  | [] => .ok ()
  | (_, d) :: ms => do skip d; skipMembers ms

end

mutual

def toJson : Document → Except Fault Json
  | .scalar s => s.toJson
  | .arr items ending => do
    let items ← itemsToJson items
    ending.check
    return .arr items
  | .obj members ending => do
    let members ← membersToJson members
    ending.check
    return ofMembers members
  | .tooDeep _ => .error .malformed
  | .missing fault => .error fault

def itemsToJson : List Document → Except Fault (List Json)
  | [] => .ok []
  | d :: ds => do return (← toJson d) :: (← itemsToJson ds)

def membersToJson : List (Except Fault String × Document) → Except Fault (List (String × Json))
  | [] => .ok []
  | (name, d) :: ms => do
    let name ← name
    let value ← toJson d
    return (name, value) :: (← membersToJson ms)

end

mutual

def ofJson : Json → Document
  | .null => .scalar .null
  | .bool b => .scalar (.bool b)
  | .num n => .scalar (.num (.ok n))
  | .str s => .scalar (.str (.ok s))
  | .arr items => .arr (itemsOf items) .closed
  | .obj members => .obj (membersOf members) .closed

def itemsOf : List Json → List Document
  | [] => []
  | v :: vs => ofJson v :: itemsOf vs

def membersOf : List (String × Json) → List (Except Fault String × Document)
  | [] => []
  | (name, v) :: ms => (.ok name, ofJson v) :: membersOf ms

end

end Document

/-! ## From tokens -/

/-- What becomes of the value that stands next inside an array or object. Lists are in reverse. -/
inductive Surrounding where
  | item (before : List Document)
  | member (before : List Member) (name : Except Fault String)

namespace Document

def maxDepth : Nat := 127

def atDepth (outer : Nat) (d : Document) : Document :=
  if outer < maxDepth then d else .tooDeep d.skip

/-- The whole document when the text stops being JSON right after, or within, a part. -/
def sealIn : List Surrounding → Document → Document
  | [], d => d
  | .item before :: outer, d =>
    sealIn outer (atDepth outer.length (.arr (d :: before).reverse (.cut .malformed)))
  | .member before name :: outer, d =>
    sealIn outer (atDepth outer.length (.obj ((name, d) :: before).reverse (.cut .malformed)))

end Document

inductive Reading where
  | atValue (around : List Surrounding)
  | atFirstItem (around : List Surrounding)
  | afterItem (items : List Document) (around : List Surrounding)
  | atFirstName (around : List Surrounding)
  | atName (members : List Member) (around : List Surrounding)
  | atColon (members : List Member) (name : Except Fault String) (around : List Surrounding)
  | afterMember (members : List Member) (around : List Surrounding)
  | done (d : Document) (trailing : Bool)

namespace Reading

open Document (atDepth sealIn)

def place (d : Document) : List Surrounding → Reading
  | [] => .done d false
  | .item before :: around => .afterItem (d :: before) around
  | .member before name :: around => .afterMember ((name, d) :: before) around

def stop (d : Document) (around : List Surrounding) : Reading := .done (sealIn around d) false

def closeArray (items : List Document) (ending : Ending) (around : List Surrounding) : Document :=
  atDepth around.length (.arr items.reverse ending)

def closeObject (members : List Member) (ending : Ending) (around : List Surrounding) : Document :=
  atDepth around.length (.obj members.reverse ending)

def readValue (around : List Surrounding) : Token → Reading
  | .scalar s => if s.skip.isOk then place (.scalar s) around else stop (.scalar s) around
  | .openArray => .atFirstItem around
  | .openObject => .atFirstName around
  | _ => stop (.missing .malformed) around

def readName (members : List Member) (around : List Surrounding) : Token → Reading
  | .scalar (.str value) => .atColon members value around
  | .scalar (.brokenText wanted skipped) =>
    stop (closeObject ((.error wanted, .missing skipped) :: members) .closed around) around
  | .scalar s => stop (closeObject members (.noName .malformed s.found) around) around
  | .openArray => stop (closeObject members (.noName .malformed (.ok .sequence)) around) around
  | .openObject => stop (closeObject members (.noName .malformed (.ok .map)) around) around
  | _ => stop (closeObject members (.noName .malformed (.error .malformed)) around) around

def next (token : Token) : Reading → Reading
  | .atValue around => readValue around token
  | .atFirstItem around =>
    match token with
    | .closeArray => place (closeArray [] .closed around) around
    | _ => readValue (.item [] :: around) token
  | .afterItem items around =>
    match token with
    | .comma => .atValue (.item items :: around)
    | .closeArray => place (closeArray items .closed around) around
    | _ => stop (closeArray items (.cut .malformed) around) around
  | .atFirstName around =>
    match token with
    | .closeObject => place (closeObject [] .closed around) around
    | _ => readName [] around token
  | .atName members around => readName members around token
  | .atColon members name around =>
    match token with
    | .colon => .atValue (.member members name :: around)
    | _ => stop (.missing .malformed) (.member members name :: around)
  | .afterMember members around =>
    match token with
    | .comma => .atName members around
    | .closeObject => place (closeObject members .closed around) around
    | _ => stop (closeObject members (.cut .malformed) around) around
  | .done d _ => .done d true

def noName (members : List Member) (around : List Surrounding) : Document :=
  sealIn around (closeObject members (.noName .truncated (.error .truncated)) around)

def finish : Reading → Document × Bool
  | .atValue around => (sealIn around (.missing .truncated), false)
  | .atFirstItem around => (sealIn around (closeArray [] (.cut .truncated) around), false)
  | .afterItem items around => (sealIn around (closeArray items (.cut .truncated) around), false)
  | .atFirstName around => (noName [] around, false)
  | .atName members around => (noName members around, false)
  | .atColon members name around =>
    (sealIn (.member members name :: around) (.missing .truncated), false)
  | .afterMember members around =>
    (sealIn around (closeObject members (.cut .truncated) around), false)
  | .done d trailing => (d, trailing)

end Reading

def Document.ofChars (cs : List Char) : Document × Bool :=
  ((tokens cs).foldl (fun reading token => reading.next token) (Reading.atValue [])).finish

def Document.ofText (text : String) : Document × Bool := ofChars text.toList

def ofText (text : String) : Except Fault Json := do
  let (d, trailing) := Document.ofText text
  let v ← d.toJson
  if trailing then throw .malformed
  return v

end Fixture.Json
