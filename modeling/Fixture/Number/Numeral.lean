import Fixture.Number.Shortest

/-!
Numbers of a document and the numerals that denote them. Integers of up to 64 bits stay exact. Any
other numeral denotes a float, found by scaling the leading digits that fit into 64 bits by a power
of ten; each of the two steps rounds.
-/

namespace Fixture

/-- A number is an exact integer or a float, and the two kinds are never equal. -/
inductive Number where
  | int (n : Int)
  | float (x : Binary64)
deriving DecidableEq

namespace Number

def same : Number → Number → Bool
  | .int m, .int n => m == n
  | .float x, .float y => x.same y
  | _, _ => false

theorem same_refl (n : Number) : n.same n = true := by
  cases n <;> simp [same, Binary64.same_refl]

def toText : Number → String
  | .int n => toString n
  | .float x => x.toText

end Number

/-- A numeral by its parts. An exponent has a sign of its own, true for a negative one. -/
structure Numeral where
  negative : Bool := false
  whole : List Nat := []
  fraction : Option (List Nat) := none
  exponent : Option (Bool × List Nat) := none
deriving DecidableEq, Repr

namespace Numeral

/-- Leading digits as one number below `2^64`, and how many further powers of ten it stands for. -/
structure Significand where
  value : Nat := 0
  scale : Int := 0

namespace Significand

/-- One more digit before the point: kept while it fits, counted from the first that does not. -/
def pushWhole (s : Significand) (digit : Nat) : Significand :=
  if s.scale = 0 ∧ s.value * 10 + digit < UInt64.size then { s with value := s.value * 10 + digit }
  else { s with scale := s.scale + 1 }

def pushFraction (s : Significand) : List Nat → Significand
  | [] => s
  | digit :: rest =>
    if s.value * 10 + digit < UInt64.size then
      pushFraction ⟨s.value * 10 + digit, s.scale - 1⟩ rest
    else s

end Significand

def exponentLimit : Nat := 2147483648

def exponentSize? (digits : List Nat) : Option Nat :=
  digits.foldl (fun size digit => do
    let next := (← size) * 10 + digit
    if next < exponentLimit then some next else none) (some 0)

def powerOfTen (exponent : Nat) : Binary64 := (Binary64.ofNat? (Nat.pow 10 exponent)).getD default

/-- Divides by `10^exponent`, by at most `10^308` at a time. -/
def lower (x : Binary64) (exponent : Nat) : Binary64 :=
  if exponent ≤ 308 then (x.div? (powerOfTen exponent)).getD default
  else
    let next := (x.div? (powerOfTen 308)).getD default
    if next.isZero then next else lower next (exponent - 308)
termination_by exponent

def scaled? (significand : Nat) (exponent : Int) : Option Binary64 := do
  let x ← Binary64.ofNat? significand
  if exponent < 0 then some (lower x exponent.natAbs)
  else if exponent ≤ 308 then x.mul? (powerOfTen exponent.toNat)
  else if significand = 0 then some x
  else none

def value? (n : Numeral) : Option Number :=
  let whole := n.whole.foldl Significand.pushWhole {}
  let s := whole.pushFraction (n.fraction.getD [])
  let signed (x : Binary64) : Number := .float (if n.negative then x.neg else x)
  match n.fraction, n.exponent with
  | none, none =>
    if s.scale = 0 ∧ !n.negative then some (.int s.value)
    else if s.scale = 0 ∧ 0 < s.value ∧ s.value ≤ UInt64.size / 2 then some (.int (-s.value))
    else (scaled? s.value s.scale).map signed
  | _, none => (scaled? s.value s.scale).map signed
  | _, some (falling, digits) =>
    match exponentSize? digits with
    | some size => (scaled? s.value (if falling then s.scale - size else s.scale + size)).map signed
    | none => if s.value = 0 ∨ falling then some (signed default) else none

end Numeral

end Fixture
