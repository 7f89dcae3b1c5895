import Fixture.Proofs.Editor.Values
import Fixture.Proofs.Parameter.Encoding

/-!
Nodes among their neighbours. A place leads into a parameter body through the lists of object and
array patterns, and any node may be put there. What the body then binds is what it binds before the
place, what the node binds by itself, and what it binds after the place: no node, however faulty,
hides a name that another one binds.
-/

namespace Fixture

open Json

namespace Pattern

def kind? (node : Json) : Option String := (node.get? "type").bind str?

def listing? (node : Json) : Option FieldKey :=
  match kind? node with
  | some "ObjectPattern" => some (.property "properties")
  | some "ArrayPattern" => some (.property "elements")
  | _ => none

def inner (node : Json) : List Json :=
  match (listing? node).bind (·.get? node) with
  | some (.arr items) => items
  | _ => []

def nodeAt? : List Nat → Json → Option Json
  | [], node => some node
  | i :: place, node => (inner node)[i]?.bind (nodeAt? place)

def putAt (new : Json) : List Nat → Json → Json
  | [], _ => new
  | i :: place, node =>
    match listing? node with
    | some key => key.set (.arr ((inner node).modify i (putAt new place))) node
    | none => node

/-- The node at a place in a body. A place in a list starts with an index; a body that is one node is
itself at the empty place. -/
def bodyAt? : List Nat → Json → Option Json
  | [], .arr _ => none
  | i :: place, .arr nodes => nodes[i]?.bind (nodeAt? place)
  | place, node => nodeAt? place node

def putInBody (new : Json) : List Nat → Json → Json
  | [], .arr nodes => .arr nodes
  | i :: place, .arr nodes => .arr (nodes.modify i (putAt new place))
  | place, node => putAt new place node

/-- A node without a known type, or without what its type needs. A rest element needs nothing. -/
def Faulty (node : Json) : Prop :=
  match kind? node with
  | some "Identifier" => ∀ name, node.get? "name" ≠ some (.str name)
  | some "PropertyBinding" => ∀ key, node.get? "keyName" ≠ some (.str key)
  | some "ObjectPattern" => ∀ nodes, node.get? "properties" ≠ some (.arr nodes)
  | some "ArrayPattern" => ∀ nodes, node.get? "elements" ≠ some (.arr nodes)
  | some "RestElement" => False
  | _ => True

/-! ## What a node binds -/

def bound (nodes : List Json) : List String := nodes.flatMap fun node => (ofNode node).leaves

theorem leavesOfElements_ofItems (nodes : List Json) :
    leavesOfElements (ofItems nodes) = bound nodes := by
  induction nodes with
  | nil => rfl
  | cons node nodes ih =>
    rw [ofItems, bound, List.flatMap_cons, ← bound, ← ih]
    cases node <;> rfl

theorem leavesOfAll_ofItems (nodes : List Json) :
    leavesOfAll ((ofItems nodes).map (·.getD unrecognized)) = bound nodes := by
  induction nodes with
  | nil => rfl
  | cons node nodes ih =>
    rw [ofItems, List.map_cons, leavesOfAll, bound, List.flatMap_cons, ← bound, ih]
    cases node <;> rfl

theorem bound_modify {nodes : List Json} {i : Nat} {node : Json} (here : nodes[i]? = some node)
    (f : Json → Json) : bound (nodes.modify i f) =
      bound (nodes.take i) ++ (ofNode (f node)).leaves ++ bound (nodes.drop (i + 1)) := by
  obtain ⟨inside, rfl⟩ := List.getElem?_eq_some_iff.1 here
  rw [List.modify_eq_take_cons_drop inside, bound, List.flatMap_append, List.flatMap_cons,
    List.append_assoc]
  rfl

section

variable {members : List (String × Json)} {node : Json} {key : FieldKey}

theorem text_childrenOf (name : String) (members : List (String × Json)) :
    ((childrenOf members).lookup name).bind Child.text = (lookup name members).bind str? := by
  rw [lookup_childrenOf, Option.bind_map]
  rfl

theorem elements_childrenOf {name : String}
    (lists : listing? (.obj members) = some (.property name)) :
    (((childrenOf members).lookup name).map Child.elements).getD [] =
      ofItems (inner (.obj members)) := by
  rw [lookup_childrenOf, inner, lists, Option.bind_some, FieldKey.get?]
  cases lookup name members with
  | none => rfl
  | some v => cases v <;> rfl

theorem listing?_eq_some_iff : listing? node = some key ↔
    (kind? node = some "ObjectPattern" ∧ key = .property "properties") ∨
      (kind? node = some "ArrayPattern" ∧ key = .property "elements") := by
  constructor
  · intro lists
    unfold listing? at lists
    split at lists
    next object => exact .inl ⟨object, (Option.some.inj lists).symm⟩
    next array => exact .inr ⟨array, (Option.some.inj lists).symm⟩
    next => cases lists
  · rintro (⟨kind, rfl⟩ | ⟨kind, rfl⟩) <;> simp only [listing?, kind]

theorem leaves_of_listing (lists : listing? node = some key) :
    (ofNode node).leaves = bound (inner node) := by
  cases node with
  | obj members =>
    rcases listing?_eq_some_iff.1 lists with ⟨object, rfl⟩ | ⟨array, rfl⟩
    · have type := (text_childrenOf "type" members).trans object
      simp only [ofNode, assemble, type, elements_childrenOf lists, leaves, leavesOfAll_ofItems]
    · have type := (text_childrenOf "type" members).trans array
      simp only [ofNode, assemble, type, elements_childrenOf lists, leaves,
        leavesOfElements_ofItems]
  | _ => cases lists

theorem leaves_of_rest (rest : kind? node = some "RestElement") :
    (ofNode node).leaves = ["RestElement"] := by
  cases node with
  | obj members =>
    have type := (text_childrenOf "type" members).trans rest
    simp only [ofNode, assemble, type, leaves]
  | _ => cases rest

theorem str?_eq_none {name : String} (missing : ∀ s, node.get? name ≠ some (.str s)) :
    (node.get? name).bind str? = none := by
  cases found : node.get? name with
  | none => rfl
  | some v =>
    cases v with
    | str s => exact absurd found (missing s)
    | _ => rfl

theorem inner_eq_nil {name : String} (lists : listing? node = some (.property name))
    (missing : ∀ nodes, node.get? name ≠ some (.arr nodes)) : inner node = [] := by
  have found : (FieldKey.property name).get? node = node.get? name := by cases node <;> rfl
  unfold inner
  rw [lists, Option.bind_some, found]
  split
  next nodes here => exact absurd here (missing nodes)
  next => rfl

theorem leaves_of_faulty (faulty : Faulty node) : (ofNode node).leaves = [] := by
  cases node with
  | obj members =>
    have type := text_childrenOf "type" members
    unfold Faulty at faulty
    split at faulty
    next kind =>
      have name := (text_childrenOf "name" members).trans (str?_eq_none faulty)
      simp only [ofNode, assemble, type.trans kind, name, Option.map_none, Option.getD_none, leaves]
    next kind =>
      have key := (text_childrenOf "keyName" members).trans (str?_eq_none faulty)
      simp only [ofNode, assemble, type.trans kind, key, Option.map_none, Option.getD_none, leaves]
    next kind =>
      have lists := listing?_eq_some_iff.2 (.inl ⟨kind, rfl⟩)
      rw [leaves_of_listing lists, inner_eq_nil lists faulty]
      rfl
    next kind =>
      have lists := listing?_eq_some_iff.2 (.inr ⟨kind, rfl⟩)
      rw [leaves_of_listing lists, inner_eq_nil lists faulty]
      rfl
    next => exact faulty.elim
    next identifier property object array rest =>
      rw [ofNode, assemble]
      split
      next kind => exact absurd (type.symm.trans kind) identifier
      next kind => exact absurd (type.symm.trans kind) property
      next kind => exact absurd (type.symm.trans kind) object
      next kind => exact absurd (type.symm.trans kind) array
      next kind => exact absurd (type.symm.trans kind) rest
      next => rfl
  | _ => rfl

theorem accepts_node (canonical : node.Canonical) : decode.Accepts node (ofNode node) := by
  intro origin w arranged
  rw [decode, Document.toJson_ofJson, arranged.sorted_eq, canonical]
  rfl

end

/-! ## Putting a node at a place -/

section

variable {node new old v : Json} {nodes : List Json} {key : FieldKey} {i : Nat} {place : List Nat}

theorem kind?_set {name : String} (other : name ≠ "type") (v : Json) :
    kind? ((FieldKey.property name).set v node) = kind? node := by
  have type (u : Json) : u.get? "type" = (FieldKey.property "type").get? u := by cases u <;> rfl
  rw [kind?, type, FieldKey.get?_set_of_ne (fun same => other (FieldKey.property.inj same)), ← type]
  rfl

theorem listing?_set (lists : listing? node = some key) (v : Json) :
    listing? (key.set v node) = some key := by
  rcases listing?_eq_some_iff.1 lists with ⟨kind, rfl⟩ | ⟨kind, rfl⟩
  all_goals rw [listing?, kind?_set (by decide), ← listing?, lists]

/-- A node that lists another one has an array to list it in. -/
theorem listing_of_inner (here : (inner node)[i]? = some v) :
    ∃ key, listing? node = some key ∧ key.get? node = some (.arr (inner node)) := by
  have given : inner node ≠ [] := by
    intro empty
    rw [empty] at here
    cases here
  unfold inner at given ⊢
  split at given
  next nodes found =>
    obtain ⟨key, lists, found⟩ := Option.bind_eq_some_iff.1 found
    exact ⟨key, lists, by rw [found]⟩
  next => exact absurd rfl given

theorem lists_putAt (here : (inner node)[i]? = some v) (new : Json) (place : List Nat) :
    ∃ key, listing? node = some key ∧ listing? (putAt new (i :: place) node) = some key ∧
      inner (putAt new (i :: place) node) = (inner node).modify i (putAt new place) := by
  obtain ⟨key, lists, found⟩ := listing_of_inner here
  have put : putAt new (i :: place) node =
      key.set (.arr ((inner node).modify i (putAt new place))) node := by rw [putAt, lists]
  refine ⟨key, lists, put ▸ listing?_set lists _, ?_⟩
  rw [put, inner, listing?_set lists, Option.bind_some, FieldKey.get?_set_self key _ found]

theorem nodeAt?_putAt (reached : nodeAt? place node = some old) :
    nodeAt? place (putAt new place node) = some new := by
  induction place generalizing node with
  | nil => rfl
  | cons i place ih =>
    obtain ⟨v, here, below⟩ := Option.bind_eq_some_iff.1 reached
    obtain ⟨key, -, -, within⟩ := lists_putAt here new place
    rw [nodeAt?, within, List.getElem?_modify_eq, here, Option.map_eq_map, Option.map_some,
      Option.bind_some, ih below]

theorem leaves_putAt (reached : nodeAt? place node = some old) :
    ∃ before after, ∀ new,
      (ofNode (putAt new place node)).leaves = before ++ (ofNode new).leaves ++ after := by
  induction place generalizing node with
  | nil => exact ⟨[], [], fun new => by rw [putAt, List.nil_append, List.append_nil]⟩
  | cons i place ih =>
    obtain ⟨v, here, below⟩ := Option.bind_eq_some_iff.1 reached
    obtain ⟨before, after, between⟩ := ih below
    refine ⟨bound ((inner node).take i) ++ before, after ++ bound ((inner node).drop (i + 1)),
      fun new => ?_⟩
    obtain ⟨key, -, lists, within⟩ := lists_putAt here new place
    rw [leaves_of_listing lists, within, bound_modify here, between]
    simp only [List.append_assoc]

theorem canonical_modify {f : Json → Json} (canonical : (arr nodes).Canonical)
    (keeps : ∀ node : Json, node.Canonical → (f node).Canonical) (i : Nat) :
    (arr (nodes.modify i f)).Canonical := by
  refine canonical_arr_iff.2 fun node member => ?_
  obtain ⟨j, here⟩ := List.mem_iff_getElem?.1 member
  rw [List.getElem?_modify, Option.map_eq_map] at here
  obtain ⟨old, found, rfl⟩ := Option.map_eq_some_iff.1 here
  have given := canonical_arr_iff.1 canonical old (List.mem_of_getElem? found)
  split
  · exact keeps old given
  · exact given

theorem canonical_inner (canonical : node.Canonical) : (arr (inner node)).Canonical := by
  unfold inner
  split
  next nodes found =>
    obtain ⟨key, -, found⟩ := Option.bind_eq_some_iff.1 found
    exact editable_canonical.field canonical found rfl
  next => rfl

theorem canonical_putAt (canonical : node.Canonical) (canonical' : new.Canonical) :
    (putAt new place node).Canonical := by
  induction place generalizing node with
  | nil => exact canonical'
  | cons i place ih =>
    rw [putAt]
    split
    next key _ =>
      exact editable_canonical.change canonical
        (canonical_modify (canonical_inner canonical) (fun _ => ih) i)
    next => exact canonical

end

/-! ## Bodies -/

def IsSingle (v : Json) : Prop := ∀ nodes, v ≠ .arr nodes

section

variable {body new old : Json} {place : List Nat}

theorem bodyAt?_of_single (single : IsSingle body) : bodyAt? place body = nodeAt? place body := by
  cases body with
  | arr nodes => exact absurd rfl (single nodes)
  | _ => cases place <;> rfl

theorem putInBody_of_single (single : IsSingle body) :
    putInBody new place body = putAt new place body := by
  cases body with
  | arr nodes => exact absurd rfl (single nodes)
  | _ => cases place <;> rfl

theorem leavesOfAll_of_single (single : IsSingle body) :
    leavesOfAll (listOfNode body) = (ofNode body).leaves := by
  cases body with
  | arr nodes => exact absurd rfl (single nodes)
  | null => rfl
  | _ => exact List.append_nil _

theorem putAt_single (reached : nodeAt? place body = some old) (root : place = [] → IsSingle new) :
    IsSingle (putAt new place body) := by
  cases place with
  | nil => exact root rfl
  | cons i place =>
    obtain ⟨v, here, -⟩ := Option.bind_eq_some_iff.1 reached
    obtain ⟨key, lists, -⟩ := listing_of_inner here
    cases body with
    | obj members =>
      intro nodes same
      rw [putAt, lists] at same
      cases key <;> cases same
    | _ => cases lists

theorem bodyAt?_putInBody (reached : bodyAt? place body = some old)
    (root : place = [] → IsSingle new) : bodyAt? place (putInBody new place body) = some new := by
  by_cases list : ∃ nodes, body = .arr nodes
  · obtain ⟨nodes, rfl⟩ := list
    cases place with
    | nil => cases reached
    | cons i inside =>
      obtain ⟨node, here, below⟩ := Option.bind_eq_some_iff.1 reached
      rw [putInBody, bodyAt?, List.getElem?_modify_eq, here, Option.map_eq_map, Option.map_some,
        Option.bind_some, nodeAt?_putAt below]
  · have single : IsSingle body := fun nodes same => list ⟨nodes, same⟩
    rw [bodyAt?_of_single single] at reached
    rw [putInBody_of_single single, bodyAt?_of_single (putAt_single reached root),
      nodeAt?_putAt reached]

theorem canonical_putInBody (canonical : body.Canonical) (canonical' : new.Canonical) :
    (putInBody new place body).Canonical := by
  unfold putInBody
  split
  · exact canonical
  · exact canonical_modify canonical (fun node given => canonical_putAt given canonical') _
  · exact canonical_putAt canonical canonical'

theorem leaves_putInBody (reached : bodyAt? place body = some old) :
    ∃ before after, ∀ new, (place = [] → IsSingle new) →
      leavesOfAll (listOfNode (putInBody new place body)) =
        before ++ (ofNode new).leaves ++ after := by
  by_cases list : ∃ nodes, body = .arr nodes
  · obtain ⟨nodes, rfl⟩ := list
    cases place with
    | nil => cases reached
    | cons i inside =>
      obtain ⟨node, here, below⟩ := Option.bind_eq_some_iff.1 reached
      obtain ⟨before, after, between⟩ := leaves_putAt below
      refine ⟨bound (nodes.take i) ++ before, after ++ bound (nodes.drop (i + 1)),
        fun new _ => ?_⟩
      rw [putInBody, listOfNode, leavesOfAll_ofItems, bound_modify here, between]
      simp only [List.append_assoc]
  · have single : IsSingle body := fun nodes same => list ⟨nodes, same⟩
    rw [bodyAt?_of_single single] at reached
    obtain ⟨before, after, between⟩ := leaves_putAt reached
    refine ⟨before, after, fun new root => ?_⟩
    rw [putInBody_of_single single, leavesOfAll_of_single (putAt_single reached root), between]

end

end Pattern

namespace ParameterList

/-- Whatever node stands at a place in a body, the body binds the same names before and after it and
between them what the node binds alone: nothing if it is faulty, and one name if it is a rest
element, whatever that captures. Only in the place of the whole body an array is not one node. -/
theorem node_leaves_neighbours_alone {body old : Json} {place : List Nat}
    (canonical : body.Canonical) (reached : Pattern.bodyAt? place body = some old) :
    ∃ before after : List String, ∀ (node : Json) (name : String), node.Canonical →
      (place = [] → Pattern.IsSingle node) →
      Pattern.bodyAt? place (Pattern.putInBody node place body) = some node ∧
      ∃ (l : ParameterList) (p : Pattern),
        decode.Accepts (.obj [("functionName", .str name),
          ("body", Pattern.putInBody node place body)]) l ∧
        Pattern.decode.Accepts node p ∧
        LeafList.ofParameters l = ⟨name, before ++ p.leaves ++ after⟩ ∧
        (Pattern.Faulty node → p.leaves = []) ∧
        (Pattern.kind? node = some "RestElement" → p.leaves = ["RestElement"]) := by
  obtain ⟨before, after, between⟩ := Pattern.leaves_putInBody reached
  refine ⟨before, after, fun node name canonical' root => ⟨Pattern.bodyAt?_putInBody reached root,
    _, Pattern.ofNode node, accepts_body name _, Pattern.accepts_node canonical', ?_,
    Pattern.leaves_of_faulty, Pattern.leaves_of_rest⟩⟩
  rw [Pattern.canonical_putInBody canonical canonical', LeafList.ofParameters, leaves,
    between node root]

/-- A body of an array pattern with a hole and an object pattern in it, and of a rest element. -/
def nestedBody (node : Json) : Json :=
  .arr [
    .obj [("elements", .arr [.null, .obj [
        ("properties", .arr [.obj [("name", .str "x"), ("type", .str "Identifier")], node,
          .obj [("keyName", .str "b"), ("type", .str "PropertyBinding")]]),
        ("type", .str "ObjectPattern")]]),
      ("type", .str "ArrayPattern")],
    .obj [("inner", .str "rest"), ("type", .str "RestElement")]]

/-- Among the properties of an object pattern inside an array pattern, a rest element adds its one
name to what is bound without it, and an identifier without a name adds nothing. -/
theorem node_leaves_neighbours_alone_nested :
    (nestedBody .null).Canonical ∧ Pattern.bodyAt? [0, 1, 1] (nestedBody .null) = some .null ∧
      ∃ before after : List String, ∀ name : String,
        (∃ l, decode.Accepts (.obj [("functionName", .str name), ("body", Pattern.putInBody
            (.obj [("argument", .num (.int 1)), ("type", .str "RestElement")]) [0, 1, 1]
            (nestedBody .null))]) l ∧
          LeafList.ofParameters l = ⟨name, before ++ ["RestElement"] ++ after⟩) ∧
        ∃ l, decode.Accepts (.obj [("functionName", .str name), ("body", Pattern.putInBody
            (.obj [("name", .null), ("type", .str "Identifier")]) [0, 1, 1]
            (nestedBody .null))]) l ∧
          LeafList.ofParameters l = ⟨name, before ++ after⟩ := by
  have canonical : (nestedBody .null).Canonical := by rfl
  have reached : Pattern.bodyAt? [0, 1, 1] (nestedBody .null) = some .null := by rfl
  refine ⟨canonical, reached, ?_⟩
  obtain ⟨before, after, around⟩ := node_leaves_neighbours_alone canonical reached
  refine ⟨before, after, fun name => ⟨?_, ?_⟩⟩
  · obtain ⟨-, l, p, accepts, -, flat, -, rest⟩ := around
      (.obj [("argument", .num (.int 1)), ("type", .str "RestElement")]) name rfl nofun
    exact ⟨l, accepts, flat.trans (by rw [rest rfl])⟩
  · obtain ⟨-, l, p, accepts, -, flat, faulty, -⟩ := around
      (.obj [("name", .null), ("type", .str "Identifier")]) name rfl nofun
    have nameless : Pattern.Faulty (.obj [("name", .null), ("type", .str "Identifier")]) := by
      intro name same
      cases same
    exact ⟨l, accepts, flat.trans (by rw [faulty nameless, List.append_nil])⟩

end ParameterList

end Fixture
