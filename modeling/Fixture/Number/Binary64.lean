/-!
Finite 64-bit binary floats as exact numbers. A float is a sign and a whole number of the least
positive float, `2^-1074`; quotients are rounded to the nearest float, a half to the even neighbour.
-/

namespace Fixture

def Binary64.mantissaLimit : Nat := Nat.pow 2 53

open Binary64 in
/-- A finite float, worth `± mantissa * 2^exponent` steps of size `2^-1074`. -/
structure Binary64 where
  negative : Bool
  mantissa : Nat
  exponent : Nat
  mantissa_lt : mantissa < mantissaLimit
  normal : exponent = 0 ∨ mantissaLimit / 2 ≤ mantissa
  exponent_le : exponent ≤ 2045
deriving DecidableEq

namespace Binary64

def steps (x : Binary64) : Nat := x.mantissa * Nat.pow 2 x.exponent

def stepsPerOne : Nat := Nat.pow 2 1074

def isZero (x : Binary64) : Bool := x.mantissa == 0

def same (x y : Binary64) : Bool := x == y || (x.isZero && y.isZero)

theorem same_refl (x : Binary64) : x.same x = true := by simp [same]

def zero (negative : Bool) : Binary64 := ⟨negative, 0, 0, by decide, .inl rfl, by decide⟩

instance : Inhabited Binary64 := ⟨zero false⟩

def neg (x : Binary64) : Binary64 := { x with negative := !x.negative }

/-- The quotient rounded to the nearest whole number, a half to the even one. -/
def roundDiv (num den : Nat) : Nat :=
  let floor := num / den
  let rest := 2 * (num % den)
  if rest > den ∨ (rest = den ∧ floor % 2 = 1) then floor + 1 else floor

/-- The float with the given parts; a mantissa of `2^53` carries into the exponent. -/
def pack? (negative : Bool) (mantissa exponent : Nat) : Option Binary64 :=
  if carried : mantissa = mantissaLimit ∧ exponent < 2045 then
    some ⟨negative, mantissaLimit / 2, exponent + 1, by decide, .inr (Nat.le_refl _), by omega⟩
  else if fits : mantissa < mantissaLimit ∧ (exponent = 0 ∨ mantissaLimit / 2 ≤ mantissa) ∧
      exponent ≤ 2045 then
    some ⟨negative, mantissa, exponent, fits.1, fits.2.1, fits.2.2⟩
  else none

/-- The float nearest to `± num / den` steps; `none` when it lies beyond the largest float. -/
def ofSteps? (negative : Bool) (num den : Nat) : Option Binary64 :=
  let exponent := (num / den).log2 - 52
  pack? negative (roundDiv num (den * Nat.pow 2 exponent)) exponent

def ofNat? (n : Nat) : Option Binary64 := ofSteps? false (n * stepsPerOne) 1

def mul? (x y : Binary64) : Option Binary64 :=
  ofSteps? (x.negative != y.negative) (x.steps * y.steps) stepsPerOne

def div? (x y : Binary64) : Option Binary64 :=
  ofSteps? (x.negative != y.negative) (x.steps * stepsPerOne) y.steps

end Binary64

end Fixture
