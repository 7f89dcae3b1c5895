import Fixture.Json.Decoder

/-!
How a function destructures one of its inputs: patterns, their encoding, and the names they bind.
Decoding never fails: a node of an unknown kind, or one that lacks what its kind needs, becomes
`unrecognized` on its own and leaves its neighbours alone.
-/

namespace Fixture

/-- A binding pattern. The elements of an array pattern may be holes. -/
inductive Pattern where
  | identifier (name : String)
  | property (key : String)
  | object (properties : List Pattern)
  | array (elements : List (Option Pattern))
  | rest (inner : Pattern)
  | unrecognized

namespace Pattern

instance : Inhabited Pattern := ⟨unrecognized⟩

structure Child where
  text : Option String
  pattern : Pattern
  elements : List (Option Pattern)

def assemble (children : List (String × Child)) : Pattern :=
  let text (key : String) := (children.lookup key).bind Child.text
  let elements (key : String) := ((children.lookup key).map Child.elements).getD []
  match text "type" with
  | some "Identifier" => ((text "name").map identifier).getD unrecognized
  | some "PropertyBinding" => ((text "keyName").map property).getD unrecognized
  | some "ObjectPattern" => .object ((elements "properties").map (·.getD unrecognized))
  | some "ArrayPattern" => .array (elements "elements")
  | some "RestElement" =>
    .rest <| (((children.lookup "inner").or (children.lookup "argument")).map
      Child.pattern).getD unrecognized
  | _ => unrecognized

mutual

def ofNode : Json → Pattern
  | .obj members => assemble (childrenOf members)
  | _ => unrecognized

def elementsOf : Json → List (Option Pattern)
  | .arr items => ofItems items
  | _ => []

def ofItems : List Json → List (Option Pattern)
  | [] => []
  | v :: vs => (if v.isNull then none else some (ofNode v)) :: ofItems vs

def childrenOf : List (String × Json) → List (String × Child)
  | [] => []
  | (key, v) :: ms => (key, ⟨v.str?, ofNode v, elementsOf v⟩) :: childrenOf ms

end

mutual

def encode : Pattern → Json
  | identifier name => .obj [("type", .str "Identifier"), ("name", .str name)]
  | property key => .obj [("type", .str "PropertyBinding"), ("keyName", .str key)]
  | object properties =>
    .obj [("type", .str "ObjectPattern"), ("properties", .arr (encodeProperties properties))]
  | array elements =>
    .obj [("type", .str "ArrayPattern"), ("elements", .arr (encodeElements elements))]
  | rest inner => .obj [("type", .str "RestElement"), ("inner", encode inner)]
  | unrecognized => .obj [("type", .str "Unrecognized")]

def encodeProperties : List Pattern → List Json
  | [] => []
  | p :: ps => encode p :: encodeProperties ps

def encodeElements : List (Option Pattern) → List Json
  | [] => []
  | none :: ps => .null :: encodeElements ps
  | some p :: ps => encode p :: encodeElements ps

end

mutual

/-- The names a pattern binds, from left to right. A rest element counts as one name of its own,
whatever it captures. -/
def leaves : Pattern → List String
  | identifier name => [name]
  | property key => [key]
  | object properties => leavesOfAll properties
  | array elements => leavesOfElements elements
  | rest _ => ["RestElement"]
  | unrecognized => []

def leavesOfAll : List Pattern → List String
  | [] => []
  | p :: ps => leaves p ++ leavesOfAll ps

def leavesOfElements : List (Option Pattern) → List String
  | [] => []
  | none :: ps => leavesOfElements ps
  | some p :: ps => leaves p ++ leavesOfElements ps

end

def same (p q : Pattern) : Bool := p.encode.same q.encode

def decode : Json.Decoder Pattern := fun _ d => ofNode <$> Json.Decoder.ofFault d.toJson

/-- A list of nodes; null is the empty list, and a node that is no list stands for itself. -/
def listOfNode : Json → List Pattern
  | .arr items => (ofItems items).map (·.getD unrecognized)
  | .null => []
  | node => [ofNode node]

end Pattern

end Fixture
