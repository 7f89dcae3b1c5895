import Fixture.Number.Numeral

/-!
JSON values. An object lists its members in the order of their names, each name once, so that two
objects with the same members are the same list; `insert` keeps this order.
-/

namespace Fixture

inductive Json where
  | null
  | bool (b : Bool)
  | num (n : Number)
  | str (s : String)
  | arr (items : List Json)
  | obj (members : List (String × Json))

namespace Json

instance : Inhabited Json := ⟨null⟩

def lookup (key : String) : List (String × Json) → Option Json
  | [] => none
  | (name, value) :: rest => if name = key then some value else lookup key rest

def insert (key : String) (value : Json) : List (String × Json) → List (String × Json)
  | [] => [(key, value)]
  | (name, old) :: rest =>
    if name = key then (key, value) :: rest
    else if key < name then (key, value) :: (name, old) :: rest
    else (name, old) :: insert key value rest

/-- An object of the given members; of two with one name the last counts. -/
def ofMembers (members : List (String × Json)) : Json :=
  .obj (members.foldl (fun sorted m => insert m.1 m.2 sorted) [])

def get? (key : String) : Json → Option Json
  | .obj members => lookup key members
  | _ => none

def str? : Json → Option String
  | .str s => some s
  | _ => none

def isNull : Json → Bool
  | .null => true
  | _ => false

mutual

/-- Equality of values: integers and floats are never equal, floats compare as numbers. -/
def same : Json → Json → Bool
  | .null, .null => true
  | .bool a, .bool b => a == b
  | .num m, .num n => m.same n
  | .str s, .str t => s == t
  | .arr xs, .arr ys => sameItems xs ys
  | .obj xs, .obj ys => sameMembers xs ys
  | _, _ => false

def sameItems : List Json → List Json → Bool
  | [], [] => true
  | x :: xs, y :: ys => same x y && sameItems xs ys
  | _, _ => false

def sameMembers : List (String × Json) → List (String × Json) → Bool
  | [], [] => true
  | (k, x) :: xs, (l, y) :: ys => k == l && same x y && sameMembers xs ys
  | _, _ => false

end

instance : BEq Json := ⟨same⟩

mutual

theorem same_refl : (v : Json) → v.same v = true
  | .null => by rw [same]
  | .bool b => by rw [same, beq_self_eq_true]
  | .num n => by rw [same, n.same_refl]
  | .str s => by rw [same, beq_self_eq_true]
  | .arr items => by rw [same, sameItems_refl items]
  | .obj members => by rw [same, sameMembers_refl members]

theorem sameItems_refl : (items : List Json) → sameItems items items = true
  | [] => by rw [sameItems]
  | v :: vs => by rw [sameItems, same_refl v, sameItems_refl vs, Bool.and_self]

theorem sameMembers_refl : (members : List (String × Json)) → sameMembers members members = true
  | [] => by rw [sameMembers]
  | (name, v) :: ms => by
    rw [sameMembers, beq_self_eq_true, same_refl v, sameMembers_refl ms, Bool.and_self,
      Bool.and_self]

end

instance : ReflBEq Json := ⟨fun {v} => v.same_refl⟩

mutual

def sorted : Json → Json
  | .arr items => .arr (sortedItems items)
  | .obj members => ofMembers (sortedMembers members)
  | v => v

def sortedItems : List Json → List Json
  | [] => []
  | v :: vs => sorted v :: sortedItems vs

def sortedMembers : List (String × Json) → List (String × Json)
  | [] => []
  | (name, v) :: ms => (name, sorted v) :: sortedMembers ms

end

mutual

def depth : Json → Nat
  | .arr items => depthItems items + 1
  | .obj members => depthMembers members + 1
  | _ => 0

def depthItems : List Json → Nat
  | [] => 0
  | v :: vs => max (depth v) (depthItems vs)

def depthMembers : List (String × Json) → Nat
  | [] => 0
  | (_, v) :: ms => max (depth v) (depthMembers ms)

end

end Json

end Fixture
