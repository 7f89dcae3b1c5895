import Fixture.Json.Basic
import Fixture.Text.Quoted

/-!
The tokens of a JSON text. Cutting a text into tokens is a fold over its characters with a small
state, `Scan`. A text that is no JSON has tokens too: where a scalar goes wrong the token says how,
and nothing follows it.

A reader that wants a scalar is stricter than one that only skips it: a skipped number may be too
large, and a skipped string may pair surrogates wrongly. A token keeps both outcomes apart.
-/

namespace Fixture.Json

open Text.Quoted (simpleEscape? hexValue?)

/-- Why a text is no JSON: it ends too early, or something stands where it may not. -/
inductive Fault where
  | truncated
  | malformed
deriving DecidableEq, Repr

/-- A scalar as it stands in a text. The broken ones end the text for every reader. -/
inductive Scalar where
  | null
  | bool (b : Bool)
  | num (value : Except Fault Number)
  | str (value : Except Fault String)
  | brokenText (wanted skipped : Fault)
  | brokenWord (wanted skipped : Fault)

inductive Token where
  | openArray
  | closeArray
  | openObject
  | closeObject
  | comma
  | colon
  | scalar (s : Scalar)
  | stray

inductive NumeralStage where
  | sign
  | zero
  | whole
  | point
  | fraction
  | mark
  | markSign
  | exponent

namespace NumeralStage

def complete : NumeralStage → Bool
  | .zero | .whole | .fraction | .exponent => true
  | _ => false

/-- The stage after a digit; a leading zero takes no further digit. -/
def afterDigit? (digit : Nat) : NumeralStage → Option NumeralStage
  | .sign => some (if digit = 0 then .zero else .whole)
  | .zero => none
  | .whole => some .whole
  | .point | .fraction => some .fraction
  | .mark | .markSign | .exponent => some .exponent

end NumeralStage

/-- The digits of a numeral so far, the last one first in each list. -/
def pushDigit (n : Numeral) (digit : Nat) : NumeralStage → Numeral
  | .sign | .zero | .whole => { n with whole := digit :: n.whole }
  | .point | .fraction => { n with fraction := some (digit :: n.fraction.getD []) }
  | .mark | .markSign | .exponent =>
    { n with exponent := some (n.exponent.elim (false, [digit]) fun e => (e.1, digit :: e.2)) }

def numeralScalar (n : Numeral) : Scalar :=
  let n : Numeral :=
    { n with
      whole := n.whole.reverse
      fraction := n.fraction.map List.reverse
      exponent := n.exponent.map fun e => (e.1, e.2.reverse) }
  .num (n.value?.elim (.error .malformed) .ok)

/-- The place of the next character within a string. A leading surrogate waits for its partner. -/
inductive TextStage where
  | plain
  | escape
  | hex (missing value : Nat) (leading : Option Nat)
  | badHex (missing : Nat)
  | leading (surrogate : Nat)
  | leadingEscape (surrogate : Nat)

structure TextScan where
  chars : List Char := []
  flaw : Option Fault := none
  stage : TextStage := .plain

namespace TextScan

def push (t : TextScan) (c : Char) : TextScan := { t with chars := c :: t.chars, stage := .plain }

/-- A fault for strict readers only; others go on. -/
def flawed (t : TextScan) (stage : TextStage) : TextScan :=
  { t with flaw := t.flaw.or (some .malformed), stage := stage }

def broken (t : TextScan) (fault : Fault) : Scalar := .brokenText (t.flaw.getD fault) fault

/-- What four hexadecimal digits mean, after a leading surrogate or on their own. -/
def codeUnit (t : TextScan) (unit : Nat) : Option Nat → TextScan
  | none =>
    if 0xDC00 ≤ unit ∧ unit ≤ 0xDFFF then t.flawed .plain
    else if 0xD800 ≤ unit ∧ unit ≤ 0xDBFF then { t with stage := .leading unit }
    else t.push (Char.ofNat unit)
  | some leading =>
    if 0xDC00 ≤ unit ∧ unit ≤ 0xDFFF then
      t.push (Char.ofNat (0x10000 + (leading - 0xD800) * 0x400 + (unit - 0xDC00)))
    else t.flawed .plain

def plainChar (t : TextScan) (c : Char) : Except Scalar TextScan :=
  if c = '"' then
    .error (.str (t.flaw.elim (.ok (String.ofList t.chars.reverse)) .error))
  else if c = '\\' then .ok { t with stage := .escape }
  else if c < ' ' then .error (t.broken .malformed)
  else .ok (t.push c)

def escapedChar (t : TextScan) (c : Char) : Except Scalar TextScan :=
  if c = 'u' then .ok { t with stage := .hex 4 0 none }
  else match simpleEscape? c with
    | some d => .ok (t.push d)
    | none => .error (t.broken .malformed)

/-- One more character. A string that is complete or broken is returned as an error. An escape with
a wrong digit counts as cut short if the text ends within the four bytes after the `u`. -/
def next (t : TextScan) (c : Char) : Except Scalar TextScan :=
  match t.stage with
  | .plain => t.plainChar c
  | .escape => t.escapedChar c
  | .hex missing value leading =>
    match hexValue? c with
    | some digit =>
      let value := value * 16 + digit
      .ok (if missing ≤ 1 then t.codeUnit value leading
        else { t with stage := .hex (missing - 1) value leading })
    | none =>
      if missing ≤ c.utf8Size then .error (t.broken .malformed)
      else .ok { t with stage := .badHex (missing - c.utf8Size) }
  | .badHex missing =>
    if missing ≤ c.utf8Size then .error (t.broken .malformed)
    else .ok { t with stage := .badHex (missing - c.utf8Size) }
  | .leading surrogate =>
    if c = '\\' then .ok { t with stage := .leadingEscape surrogate }
    else (t.flawed .plain).plainChar c
  | .leadingEscape surrogate =>
    if c = 'u' then .ok { t with stage := .hex 4 0 (some surrogate) }
    else (t.flawed .plain).escapedChar c

end TextScan

inductive Scan where
  | between
  | word (rest : List Char) (scalar : Scalar)
  | numeral (stage : NumeralStage) (n : Numeral)
  | text (t : TextScan)
  | stopped

namespace Scan

def start (c : Char) : List Token × Scan :=
  if c = ' ' ∨ c = '\t' ∨ c = '\n' ∨ c = '\r' then ([], .between)
  else if c = '[' then ([.openArray], .between)
  else if c = ']' then ([.closeArray], .between)
  else if c = '\x7b' then ([.openObject], .between)
  else if c = '\x7d' then ([.closeObject], .between)
  else if c = ',' then ([.comma], .between)
  else if c = ':' then ([.colon], .between)
  else if c = '"' then ([], .text {})
  else if c = '-' then ([], .numeral .sign { negative := true })
  else if c = 'n' then ([], .word ['u', 'l', 'l'] .null)
  else if c = 't' then ([], .word ['r', 'u', 'e'] (.bool true))
  else if c = 'f' then ([], .word ['a', 'l', 's', 'e'] (.bool false))
  else if c.isDigit then
    let digit := c.toNat - 48
    ([], .numeral (if digit = 0 then .zero else .whole) { whole := [digit] })
  else ([.stray], .stopped)

def inNumeral (stage : NumeralStage) (n : Numeral) (c : Char) : List Token × Scan :=
  let wrong : List Token × Scan := ([.scalar (.brokenWord .malformed .malformed)], .stopped)
  if c.isDigit then
    let digit := c.toNat - 48
    match stage.afterDigit? digit with
    | some next => ([], .numeral next (pushDigit n digit stage))
    | none => wrong
  else match stage with
    | .zero | .whole | .fraction =>
      if c = 'e' ∨ c = 'E' then ([], .numeral .mark n)
      else if c = '.' ∧ n.fraction = none then ([], .numeral .point n)
      else (Token.scalar (numeralScalar n) :: (start c).1, (start c).2)
    | .exponent => (Token.scalar (numeralScalar n) :: (start c).1, (start c).2)
    | .mark =>
      if c = '+' then ([], .numeral .markSign { n with exponent := some (false, []) })
      else if c = '-' then ([], .numeral .markSign { n with exponent := some (true, []) })
      else wrong
    | .sign | .point | .markSign => wrong

def next (c : Char) : Scan → List Token × Scan
  | .between => start c
  | .word [] scalar => (Token.scalar scalar :: (start c).1, (start c).2)
  | .word (expected :: rest) scalar =>
    if c = expected then ([], .word rest scalar)
    else ([.scalar (.brokenWord .malformed .malformed)], .stopped)
  | .numeral stage n => inNumeral stage n c
  | .text t =>
    match t.next c with
    | .ok t => ([], .text t)
    | .error scalar =>
      ([.scalar scalar], match scalar with
        | .str _ => .between
        | _ => .stopped)
  | .stopped => ([], .stopped)

def finish : Scan → List Token
  | .between | .stopped => []
  | .word [] scalar => [.scalar scalar]
  | .word _ _ => [.scalar (.brokenWord .truncated .truncated)]
  | .numeral stage n =>
    [.scalar (if stage.complete then numeralScalar n else .brokenWord .truncated .malformed)]
  | .text t => [.scalar (t.broken .truncated)]

end Scan

def tokens (text : List Char) : List Token :=
  let scanned := text.foldl (fun s c =>
    let step := s.2.next c
    (step.1.reverse ++ s.1, step.2)) (([] : List Token), Scan.between)
  (scanned.2.finish.reverse ++ scanned.1).reverse

end Fixture.Json
