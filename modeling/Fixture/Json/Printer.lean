import Fixture.Json.Basic
import Fixture.Text.Quoted

/-!
The two written forms of a value: compact, without any blank, and pretty, with one item or member a
line and two more spaces for each level. Members are written in the order in which they stand.
-/

namespace Fixture.Json

open Text.Quoted (quoted)

mutual

def compactChars : Json → List Char
  | .null => ['n', 'u', 'l', 'l']
  | .bool true => ['t', 'r', 'u', 'e']
  | .bool false => ['f', 'a', 'l', 's', 'e']
  | .num n => n.toText.toList
  | .str s => quoted s.toList
  | .arr items => '[' :: [','].intercalate (compactItems items) ++ [']']
  | .obj members => '\x7b' :: [','].intercalate (compactMembers members) ++ ['\x7d']

def compactItems : List Json → List (List Char)
  | [] => []
  | v :: vs => compactChars v :: compactItems vs

def compactMembers : List (String × Json) → List (List Char)
  | [] => []
  | (name, v) :: ms => (quoted name.toList ++ ':' :: compactChars v) :: compactMembers ms

end

def compact (v : Json) : String := String.ofList (compactChars v)

def newline (level : Nat) : List Char := '\n' :: List.replicate (2 * level) ' '

def bracketed (opening closing : Char) (level : Nat) : List (List Char) → List Char
  | [] => [opening, closing]
  | lines => opening :: newline (level + 1) ++ (',' :: newline (level + 1)).intercalate lines ++
      newline level ++ [closing]

mutual

def prettyChars (level : Nat) : Json → List Char
  | .arr items => bracketed '[' ']' level (prettyItems (level + 1) items)
  | .obj members => bracketed '\x7b' '\x7d' level (prettyMembers (level + 1) members)
  | .null => ['n', 'u', 'l', 'l']
  | .bool true => ['t', 'r', 'u', 'e']
  | .bool false => ['f', 'a', 'l', 's', 'e']
  | .num n => n.toText.toList
  | .str s => quoted s.toList

def prettyItems (level : Nat) : List Json → List (List Char)
  | [] => []
  | v :: vs => prettyChars level v :: prettyItems level vs

def prettyMembers (level : Nat) : List (String × Json) → List (List Char)
  | [] => []
  | (name, v) :: ms => (quoted name.toList ++ ':' :: ' ' :: prettyChars level v) ::
      prettyMembers level ms

end

def pretty (v : Json) : String := String.ofList (prettyChars 0 v)

end Fixture.Json
