/-!
Paths as texts, with names between slashes. Nothing here looks at files: a path is taken apart by
its names alone.
-/

namespace Fixture.Path

def split : List Char → List (List Char)
  | [] => [[]]
  | c :: cs =>
    if c = '/' then [] :: split cs
    else match split cs with
      | [] => [[c]]
      | part :: others => (c :: part) :: others

/-- The parts between the slashes. The first part is empty if the path starts at the root. -/
def parts (path : String) : List String := (split path.toList).map String.ofList

def ofParts (parts : List String) : String := "/".intercalate parts

def isIdle (part : String) : Bool := part == "" || part == "."

def trim (parts : List String) : List String := (parts.reverse.dropWhile isIdle).reverse

/-- A path below a directory; one that starts at the root stays as it is. -/
def join (directory path : String) : String :=
  if path.toList.head? = some '/' then path
  else if directory.isEmpty ∨ directory.toList.getLast? = some '/' then directory ++ path
  else directory ++ "/" ++ path

def parent? (path : String) : Option String :=
  match parts path with
  | [] => none
  | first :: rest =>
    match trim rest with
    | [] => if first.isEmpty then none else some ""
    | names =>
      match trim names.dropLast with
      | [] => some (if first.isEmpty then "/" else first)
      | others => some (ofParts (first :: others))

/-- A path with its parents, itself first. No path has more of them than it has characters. -/
def ancestors (path : String) : List String := go (path.length + 1) path
where
  go : Nat → String → List String
    | 0, _ => []
    | fuel + 1, path => path :: ((parent? path).map (go fuel)).getD []

/-- What follows the last point of a name, unless the name only starts with it. -/
def extension? (name : String) : Option String :=
  match name.toList.reverse.span (· ≠ '.') with
  | (_, []) | (_, [_]) => none
  | (letters, _) => some (String.ofList letters.reverse)

end Fixture.Path
