import Fixture.Number.Binary64

/-!
The shortest decimal that reads back as a given float, by exact arithmetic. All comparisons are
made in units of `10^-400`, which divides every decimal that can come up.
-/

namespace Fixture

/-- The number `0.d₁d₂d₃… * 10^point`, its first and last digits not zero; zero has no digits. -/
structure Decimal where
  digits : List Char
  point : Int
deriving DecidableEq, Repr

namespace Decimal

def unitsPerOne : Nat := Nat.pow 10 400

/-- Whether `candidate * unit` lies among the numbers that round to `x`, all in units of
`10^-400`. -/
def readsBack (x : Binary64) (candidate unit : Nat) : Bool :=
  let below := if x.mantissa = Binary64.mantissaLimit / 2 ∧ 0 < x.exponent then 1 else 2
  let scale := Nat.pow 2 x.exponent * unitsPerOne
  let lower := (4 * x.mantissa - below) * scale
  let upper := (4 * x.mantissa + 2) * scale
  let value := candidate * unit * 4 * Binary64.stepsPerOne
  if x.mantissa % 2 = 0 then lower ≤ value && value ≤ upper else lower < value && value < upper

/-- The nearer of the two multiples of `unit` around `x`, among those that read back; of two equally
near ones the even one. -/
def candidate? (x : Binary64) (unit : Nat) : Option Nat :=
  let value := x.steps * unitsPerOne
  let step := unit * Binary64.stepsPerOne
  let low := value / step
  match readsBack x low unit, readsBack x (low + 1) unit with
  | false, false => none
  | true, false => some low
  | false, true => some (low + 1)
  | true, true =>
    match compare (2 * (value % step)) step with
    | .lt => some low
    | .eq => some (low + low % 2)
    | .gt => some (low + 1)

def ofScaled (n : Nat) (scale : Int) : Decimal :=
  let digits := Nat.toDigits 10 n
  ⟨(digits.reverse.dropWhile (· == '0')).reverse, digits.length + scale⟩

/-- The fewest digits that read back as `x`, and of those the nearest. The sign is left out. -/
def shortest (x : Binary64) : Decimal :=
  if x.isZero then ⟨[], 0⟩
  else
    let size := (Nat.toDigits 10 (x.steps * unitsPerOne / Binary64.stepsPerOne)).length
    let attempt (count : Nat) : Option Decimal :=
      (candidate? x (Nat.pow 10 (size - count))).map (ofScaled · (size - count - 400))
    ((List.range 17).findSome? fun i => attempt (i + 1)).getD
      (ofScaled (x.steps * Nat.pow 10 1074 / Binary64.stepsPerOne) (-1074))

def positional (d : Decimal) : String :=
  let whole := d.digits.take d.point.toNat
  let padding := List.replicate (d.point.toNat - d.digits.length) '0'
  let leading := List.replicate (-d.point).toNat '0'
  let fraction := leading ++ d.digits.drop d.point.toNat
  String.ofList <| (if whole.isEmpty then ['0'] else whole ++ padding) ++ '.' ::
    (if fraction.isEmpty || d.digits.isEmpty then ['0'] else fraction)

def scientific (d : Decimal) : String :=
  let exponent := d.point - 1
  let sign := if exponent < 0 then '-' else '+'
  String.ofList <| d.digits.take 1 ++
    (if d.digits.length ≤ 1 then [] else '.' :: d.digits.drop 1) ++
    'e' :: sign :: Nat.toDigits 10 exponent.natAbs

end Decimal

namespace Binary64

/-- The written form of a float: positional while the leading digit stands for `10^-5` to
`10^15`. -/
def toText (x : Binary64) : String :=
  let d := Decimal.shortest x
  let text := if x.isZero || (-4 ≤ d.point && d.point ≤ 16) then d.positional else d.scientific
  if x.negative then "-" ++ text else text

end Binary64

end Fixture
