import Fixture.Calendar.Reading
import Fixture.Json.Document
import Fixture.Text.Visible

/-!
Decoding of documents into values of a given type. A record may be given by name, as an object, or
by place, as an array. Whatever the form, the fault reported is the first in the order of the
document, and a missing part is reported only if nothing that is there is wrong.
-/

namespace Fixture.Json

/-- Where a document comes from: a value at hand, a text being read, or a part of either that was
set aside until its kind was known. -/
inductive Origin where
  | value
  | text
  | buffer

inductive DecodeError where
  | fault (f : Fault)
  | missingField (name : String)
  | duplicateField (name : String)
  | wrongType (found : Found) (wanted : String)
  | wrongValue (found : Found) (wanted : String)
  | wrongLength (length : Nat) (wanted : String)
  | unknownVariant (name : String) (known : List String)
  | noVariant (type : String)
  | badTime (f : Timestamp.Fault)
deriving DecidableEq

namespace Found

def message : Found → String
  | .null => "null"
  | .bool b => "boolean `" ++ (if b then "true" else "false") ++ "`"
  | .int n => "integer `" ++ toString n ++ "`"
  | .float x => "floating point `" ++ x.toText ++ "`"
  | .str s => "string " ++ Text.Visible.quote s
  | .sequence => "sequence"
  | .map => "map"

end Found

namespace DecodeError

def message : DecodeError → String
  | .fault .truncated => "eof"
  | .fault .malformed => "syntax"
  | .missingField name => "missing field `" ++ name ++ "`"
  | .duplicateField name => "duplicate field `" ++ name ++ "`"
  | .wrongType found wanted => "invalid type: " ++ found.message ++ ", expected " ++ wanted
  | .wrongValue found wanted => "invalid value: " ++ found.message ++ ", expected " ++ wanted
  | .wrongLength length wanted => "invalid length " ++ toString length ++ ", expected " ++ wanted
  | .unknownVariant name known =>
    "unknown variant `" ++ name ++ "`, expected one of " ++
      ", ".intercalate (known.map fun k => "`" ++ k ++ "`")
  | .noVariant type => "data did not match any variant of untagged enum " ++ type
  | .badTime f => f.message

end DecodeError

abbrev Decoded (α : Type) := Except DecodeError α

abbrev Decoder (α : Type) := Origin → Document → Decoded α

namespace Decoder

variable {α β : Type}

/-- A value of another kind stands there, unless the text goes wrong before that can be told. -/
def mismatch (d : Document) (wanted : String) : Decoded α :=
  match d.found with
  | .ok found => .error (.wrongType found wanted)
  | .error f => .error (.fault f)

def ofFault (outcome : Except Fault α) : Decoded α := outcome.mapError .fault

def json : Decoder Json := fun _ d => ofFault d.toJson

def text : Decoder String := fun _ d =>
  match d with
  | .scalar (.str value) => ofFault value
  | _ => mismatch d "a string"

def bool : Decoder Bool := fun _ d =>
  match d with
  | .scalar (.bool b) => .ok b
  | _ => mismatch d "a boolean"

def word : Decoder UInt32 := fun _ d =>
  match d with
  | .scalar (.num (.ok (.int n))) =>
    if 0 ≤ n ∧ n < UInt32.size then .ok (UInt32.ofNat n.toNat)
    else .error (.wrongValue (.int n) "u32")
  | _ => mismatch d "u32"

def time : Decoder Timestamp := fun _ d =>
  match d with
  | .scalar (.str value) => do (Timestamp.ofText (← ofFault value)).mapError .badTime
  | _ => mismatch d "an RFC 3339 formatted date and time string"

def unit : Decoder Unit := fun _ d =>
  match d with
  | .scalar .null => .ok ()
  | _ => mismatch d "unit"

def option (inner : Decoder α) : Decoder (Option α) := fun origin d =>
  match d with
  | .scalar .null => .ok none
  | _ => some <$> inner origin d

def list (inner : Decoder α) : Decoder (List α) := fun origin d =>
  match d with
  | .arr items ending => do
    let values ← items.mapM (inner origin)
    ofFault ending.check
    return values
  | _ => mismatch d "a sequence"

def named (known : List (String × α)) (name : String) : Decoded α :=
  match known.lookup name with
  | some a => .ok a
  | none => .error (.unknownVariant name (known.map (·.1)))

/-- A name out of a list, given as a string or as an object with that name and null. -/
def name (known : List (String × α)) : Decoder α := fun origin d =>
  match origin, d with
  | _, .scalar (.str value) => do named known (← ofFault value)
  | .text, .obj [] (.noName _ found) => do
    .error (.wrongType (← ofFault found) "variant identifier")
  | .text, .obj [] ending => do
    ofFault ending.check
    .error (.fault .malformed)
  | .text, .obj ((key, d) :: more) ending => do
    let a ← named known (← ofFault key)
    unit .text d
    match more, ending with
    | [], .closed => return a
    | [], .cut f => .error (.fault f)
    | _, _ => .error (.fault .malformed)
  | .text, .scalar (.brokenText wanted _) => .error (.fault wanted)
  | .text, .missing f => .error (.fault f)
  | .text, _ => .error (.fault .malformed)
  | origin, .obj [(key, d)] _ => do
    let a ← named known (← ofFault key)
    unit origin d
    return a
  | _, .obj _ _ => .error (.wrongValue .map "map with a single key")
  | _, d => mismatch d "string or map"

end Decoder

/-! ## Records -/

/-- A part of a record, or what is wrong with it and where in the document. -/
structure Part (α : Type) where
  outcome : Except (Nat × DecodeError) α

namespace Part

variable {α β : Type}

def error (place : Nat) (e : DecodeError) : Part α := ⟨.error (place, e)⟩

def ofDecoded (place : Nat) (decoded : Decoded α) : Part α := ⟨decoded.mapError (place, ·)⟩

/-- Two parts together; of two faults the earlier one counts. -/
def both (f : Part (α → β)) (x : Part α) : Part β :=
  match f.outcome, x.outcome with
  | .ok f, .ok x => ⟨.ok (f x)⟩
  | .error e, .ok _ => ⟨.error e⟩
  | .ok _, .error e => ⟨.error e⟩
  | .error e, .error e' => ⟨.error (if e'.1 < e.1 then e' else e)⟩

instance : Applicative Part where
  pure a := ⟨.ok a⟩
  seq f x := both f (x ())

end Part

/-- The members of an object or the items of an array, for a record with the given fields. Each
field has its name first and then the other names that count as it. -/
structure Parts where
  label : String
  fields : List (List String)
  origin : Origin
  body : List Member ⊕ List Document
  ending : Ending

namespace Parts

variable {α : Type}

def counted (n : Nat) : String := toString n ++ (if n = 1 then " element" else " elements")

def size (p : Parts) : Nat :=
  match p.body with
  | .inl members => members.length
  | .inr items => items.length

def place (p : Parts) (field : String) : Nat :=
  p.fields.findIdx fun names => names.head? == some field

def membersUnder (names : List String) (place : Nat) : List Member → List (Nat × Document)
  | [] => []
  | (.ok name, d) :: ms =>
    if names.contains name then (place, d) :: membersUnder names (place + 1) ms
    else membersUnder names (place + 1) ms
  | (.error _, _) :: ms => membersUnder names (place + 1) ms

def given (p : Parts) (field : String) : List (Nat × Document) :=
  let place := p.place field
  match p.body with
  | .inl members => membersUnder (p.fields.getD place []) 0 members
  | .inr items => (items[place]?.map (place, ·)).toList

/-- The fault for a field that is not there, which comes after everything that is there. -/
def absent (p : Parts) (field : String) : Part α :=
  let place := p.place field
  .error (p.size + 1 + place) <| match p.body with
    | .inl _ => .missingField field
    | .inr _ => .wrongLength place (p.label ++ " with " ++ counted p.fields.length)

def fieldOr (p : Parts) (field : String) (decode : Decoder α) (otherwise : Part α) : Part α :=
  match p.given field with
  | [] => otherwise
  | [(place, d)] => .ofDecoded place (decode p.origin d)
  | (place, d) :: (again, _) :: _ =>
    Function.const Unit <$> .ofDecoded place (decode p.origin d) <*>
      .error again (.duplicateField field)

def required (p : Parts) (field : String) (decode : Decoder α) : Part α :=
  p.fieldOr field decode (p.absent field)

def withDefault (p : Parts) (field : String) (default : α) (decode : Decoder α) : Part α :=
  p.fieldOr field decode (pure default)

def optional (p : Parts) (field : String) (decode : Decoder α) : Part (Option α) :=
  p.withDefault field none (.option decode)

def unknownMembers (known : List String) (ending : Ending) (place : Nat) :
    List Member → Part Unit
  | [] => .ofDecoded place (Decoder.ofFault ending.check)
  | (.error f, _) :: _ => .error place (.fault f)
  | (.ok name, d) :: ms =>
    if known.contains name then unknownMembers known ending (place + 1) ms
    else match d.skip with
      | .ok _ => unknownMembers known ending (place + 1) ms
      | .error f => .error place (.fault f)

/-- The first fault outside of the record's fields. An array may not have more items than the
record has fields. -/
def surplus (p : Parts) : Part Unit :=
  match p.body with
  | .inl members => unknownMembers p.fields.flatten p.ending 0 members
  | .inr items =>
    let size := p.fields.length
    if items.length ≤ size then .ofDecoded items.length (Decoder.ofFault p.ending.check)
    else .error size <| match p.origin with
      | .text => .fault .malformed
      | .value => .wrongLength items.length "fewer elements in array"
      | .buffer => .wrongLength items.length (counted size ++ " in sequence")

end Parts

namespace Decoder

variable {α : Type}

def record (label : String) (fields : List (List String)) (build : Parts → Part α) : Decoder α :=
  fun origin d =>
    let run (body : List Member ⊕ List Document) (ending : Ending) : Decoded α :=
      let parts : Parts := ⟨label, fields, origin, body, ending⟩
      ((fun _ a => a) <$> parts.surplus <*> build parts).outcome.mapError (·.2)
    match d with
    | .obj members ending => run (.inl members) ending
    | .arr items ending => run (.inr items) ending
    | _ => mismatch d label

def variant (known : List (String × α)) : Decoder α := fun _ d =>
  match d with
  | .scalar (.str value) => do named known (← ofFault value)
  | _ => mismatch d "variant identifier"

def noFields (a : α) : Decoder α := fun _ d =>
  match d with
  | .arr (_ :: items) _ =>
    .error (.wrongLength (items.length + 1) (Parts.counted 0 ++ " in sequence"))
  | _ => .ok a

def setAside (place : Nat) (tag : String) (ending : Ending) : List Member → Part Unit
  | [] => .ofDecoded place (ofFault ending.check)
  | (.error f, _) :: _ => .error place (.fault f)
  | (.ok name, d) :: ms =>
    if name = tag then setAside (place + 1) tag ending ms
    else match d.toJson with
      | .ok _ => setAside (place + 1) tag ending ms
      | .error f => .error place (.fault f)

/-- One of several records, told apart by the member under `tag`, or by the first item of an array.
The rest is set aside until the tag is known. -/
def tagged (label tag : String) (variants : List (String × Decoder α)) : Decoder α :=
  fun origin d =>
    match d with
    | .obj members ending => do
      let parts : Parts := ⟨label, [[tag]], origin, .inl members, ending⟩
      let chosen := (fun _ decode => decode) <$> setAside 0 tag ending members <*>
        parts.required tag (variant variants)
      let decode ← chosen.outcome.mapError (·.2)
      let others := members.filter fun m => !(m.1.toOption == some tag)
      decode .buffer (.obj others .closed)
    | .arr [] ending => do
      ofFault ending.check
      .error (.missingField tag)
    | .arr (first :: items) ending => do
      let decode ← variant variants origin first
      ofFault (do let _ ← Document.itemsToJson items; ending.check)
      decode .buffer (.arr items .closed)
    | _ => mismatch d label

def ofValue (decode : Decoder α) (v : Json) : Decoded α := decode .value (.ofJson v)

def ofText (decode : Decoder α) (text : String) : Decoded α := do
  let (d, trailing) := Document.ofText text
  let a ← decode .text d
  if trailing then .error (.fault .malformed)
  return a

end Decoder

end Fixture.Json
