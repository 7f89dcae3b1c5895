import Fixture.Calendar.Timestamp
import Fixture.Text.Blank

/-!
Reading of points in time, generous about blanks, separators, widths and precision: a date, one of
`T`, `t` and a space, a time of day with an optional fraction, and an offset from UTC.
-/

namespace Fixture.Timestamp

open Text (isBlank skipBlanks)

inductive Fault where
  | invalid
  | outOfRange
  | tooShort
  | trailing
  | impossible
deriving DecidableEq, Repr

namespace Fault

def message : Fault → String
  | .invalid => "input contains invalid characters"
  | .outOfRange => "input is out of range"
  | .tooShort => "premature end of input"
  | .trailing => "trailing input"
  | .impossible => "no possible date and time matching input"

end Fault

abbrev Step (α : Type) := StateT (List Char) (Except Fault) α

def digits (width : Option Nat) : Step (List Char) := fun cs =>
  let found := (width.elim cs cs.take).takeWhile Char.isDigit
  match cs, found with
  | [], _ => .error .tooShort
  | _, [] => .error .invalid
  | _, _ => .ok (found, cs.drop found.length)

def value (digits : List Char) : Nat := Nat.ofDigitChars 10 digits 0

def twoDigits (least greatest : Nat) : Step Nat := do
  modify skipBlanks
  let n := value (← digits (some 2))
  if n < least ∨ greatest < n then throw .outOfRange
  return n

def year : Step Int := do
  modify skipBlanks
  let n : Int ← match ← get with
    | '-' :: rest => do set rest; pure (-(value (← digits none) : Int))
    | '+' :: rest => do set rest; pure (value (← digits none) : Int)
    | _ => do pure (value (← digits (some 4)) : Int)
  if n < -2147483648 ∨ 2147483648 ≤ n then throw .outOfRange
  return n

def literal (c : Char) : Step Unit := do
  modify skipBlanks
  match ← get with
  | [] => throw .tooShort
  | d :: rest => if d = c then set rest else throw .invalid

def dateEnd : Step Unit := do
  match ← get with
  | [] => throw .tooShort
  | c :: rest => if c = 'T' ∨ c = 't' ∨ c = ' ' then set rest else throw .invalid

/-- Nanoseconds after a point; digits beyond the ninth are dropped. -/
def fraction : Step Nat := do
  match ← get with
  | '.' :: rest =>
    set rest
    let kept ← digits (some 9)
    modify (·.dropWhile Char.isDigit)
    return value kept * Nat.pow 10 (9 - kept.length)
  | _ => return 0

/-- Two digits of an offset. The text counts as too short if fewer than two bytes are left. -/
def offsetDigits : Step Nat := do
  match ← get with
  | [] => throw .tooShort
  | c :: d :: rest =>
    if c.isDigit ∧ d.isDigit then
      set rest
      return value [c, d]
    else throw .invalid
  | [c] => throw (if c.utf8Size < 2 then .tooShort else .invalid)

def offset : Step Int := do
  modify skipBlanks
  match ← get with
  | 'Z' :: rest | 'z' :: rest => set rest; return 0
  | cs =>
    if (cs.take 3).map Char.toUpper = ['U', 'T', 'C'] then
      set (cs.drop 3)
      return 0
    match cs with
    | [] => throw .tooShort
    | c :: rest =>
      let west ←
        if c = '+' then pure false
        else if c = '-' ∨ c = '\u2212' then pure true
        else throw .invalid
      set rest
      let hours ← offsetDigits
      modify (·.dropWhile fun c => c == ':' || isBlank c)
      let minutes ← offsetDigits
      if 60 ≤ minutes then throw .outOfRange
      let seconds : Int := hours * 3600 + minutes * 60
      return if west then -seconds else seconds

def firstDay : Int := CivilDate.toDays ⟨-262143, 1, 1⟩

def lastDay : Int := CivilDate.toDays ⟨262142, 12, 31⟩

def ofLocal (date : CivilDate) (hour minute second nanosecond : Nat) (offset : Int) :
    Except Fault Timestamp := do
  unless date.exists? ∧ firstDay ≤ date.toDays ∧ date.toDays ≤ lastDay do throw .outOfRange
  unless offset.natAbs < 86400 do throw .outOfRange
  let leap := second = 60
  let local_ : Int := hour * 3600 + minute * 60 + (if leap then 59 else second)
  let utc := local_ - offset
  let day := date.toDays + utc / 86400
  if day < firstDay ∨ lastDay < day then throw .impossible
  return ⟨day, (utc % 86400).toNat, if leap then nanosecond + 1000000000 else nanosecond⟩

def parts : Step (Except Fault Timestamp) := do
  let year ← year
  literal '-'
  let month ← twoDigits 1 12
  literal '-'
  let day ← twoDigits 1 31
  dateEnd
  let hour ← twoDigits 0 23
  literal ':'
  let minute ← twoDigits 0 59
  literal ':'
  let second ← twoDigits 0 60
  let nanosecond ← fraction
  let offset ← offset
  return ofLocal ⟨year, month, day⟩ hour minute second nanosecond offset

def ofText (text : String) : Except Fault Timestamp := do
  let (result, rest) ← parts.run text.toList
  unless (skipBlanks rest).isEmpty do throw .trailing
  result

end Fixture.Timestamp
