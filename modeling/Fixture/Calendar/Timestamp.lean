/-!
Points in time in the proleptic Gregorian calendar, in UTC, and their written forms.
-/

namespace Fixture

structure CivilDate where
  year : Int
  month : Nat
  day : Nat
deriving DecidableEq, Repr

namespace CivilDate

def isLeapYear (year : Int) : Bool :=
  year % 4 == 0 && (year % 100 != 0 || year % 400 == 0)

def daysInMonth (year : Int) (month : Nat) : Nat :=
  if month = 2 then (if isLeapYear year then 29 else 28)
  else if month = 4 ∨ month = 6 ∨ month = 9 ∨ month = 11 then 30
  else 31

def exists? (d : CivilDate) : Bool :=
  1 ≤ d.month && d.month ≤ 12 && 1 ≤ d.day && d.day ≤ daysInMonth d.year d.month

/-- Days since 1970-01-01, counting years from March so that a leap day ends its year. -/
def toDays (d : CivilDate) : Int :=
  let year := if d.month ≤ 2 then d.year - 1 else d.year
  let era := year / 400
  let yearOfEra := year - era * 400
  let monthFromMarch := (d.month + 9) % 12
  let dayOfYear : Int := (153 * monthFromMarch + 2) / 5 + d.day - 1
  let dayOfEra := yearOfEra * 365 + yearOfEra / 4 - yearOfEra / 100 + dayOfYear
  era * 146097 + dayOfEra - 719468

def ofDays (days : Int) : CivilDate :=
  let shifted := days + 719468
  let era := shifted / 146097
  let dayOfEra := shifted - era * 146097
  let yearOfEra := (dayOfEra - dayOfEra / 1460 + dayOfEra / 36524 - dayOfEra / 146096) / 365
  let dayOfYear := dayOfEra - (365 * yearOfEra + yearOfEra / 4 - yearOfEra / 100)
  let monthFromMarch := (5 * dayOfYear + 2) / 153
  let day := dayOfYear - (153 * monthFromMarch + 2) / 5 + 1
  let month := if monthFromMarch < 10 then monthFromMarch + 3 else monthFromMarch - 9
  let year := yearOfEra + era * 400
  ⟨if month ≤ 2 then year + 1 else year, month.toNat, day.toNat⟩

end CivilDate

/-- A point in time: days since 1970-01-01, seconds of the day, and nanoseconds of the second.
Within a leap second the nanoseconds run on from `10^9`. -/
structure Timestamp where
  day : Int
  second : Nat
  nanosecond : Nat
deriving DecidableEq, Repr

namespace Timestamp

instance : Inhabited Timestamp := ⟨⟨0, 0, 0⟩⟩

def compare (s t : Timestamp) : Ordering :=
  (Ord.compare s.day t.day).then <| (Ord.compare s.second t.second).then <|
    Ord.compare s.nanosecond t.nanosecond

def padded (width n : Nat) : String :=
  let digits := Nat.toDigits 10 n
  String.ofList (List.replicate (width - digits.length) '0' ++ digits)

/-- Four digits; a year that does not fit gets a sign. -/
def yearText (year : Int) : String :=
  if 0 ≤ year ∧ year ≤ 9999 then padded 4 year.toNat
  else (if year < 0 then "-" else "+") ++ padded 4 year.natAbs

/-- The shortest of no, three, six and nine digits that is exact. -/
def fractionText (nanosecond : Nat) : String :=
  if nanosecond = 0 then ""
  else if nanosecond % 1000000 = 0 then "." ++ padded 3 (nanosecond / 1000000)
  else if nanosecond % 1000 = 0 then "." ++ padded 6 (nanosecond / 1000)
  else "." ++ padded 9 nanosecond

/-- The second of the minute, which is 60 within a leap second. -/
def secondOfMinute (t : Timestamp) : Nat := t.second % 60 + t.nanosecond / 1000000000

def format (dash mark colon : String) (t : Timestamp) : String :=
  let date := CivilDate.ofDays t.day
  yearText date.year ++ dash ++ padded 2 date.month ++ dash ++ padded 2 date.day ++ mark ++
    padded 2 (t.second / 3600) ++ colon ++ padded 2 (t.second / 60 % 60) ++ colon ++
    padded 2 t.secondOfMinute

/-- The exact written form, such as `2019-01-02T03:04:06.500Z`. -/
def toText (t : Timestamp) : String :=
  t.format "-" "T" ":" ++ fractionText (t.nanosecond % 1000000000) ++ "Z"

def toSecondsText (t : Timestamp) : String := t.format "-" "T" ":" ++ "Z"

/-- The form used in names of files, such as `20190102T030406`. -/
def toStamp (t : Timestamp) : String := t.format "" "T" ""

end Timestamp

end Fixture
