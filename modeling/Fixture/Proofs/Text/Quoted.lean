import Fixture.Text.Quoted
import Mathlib.Tactic.IntervalCases
import Mathlib.Tactic.SplitIfs

/-!
Quoted text reads back in one way only: what stands between the quotes determines where the closing
quote is. The escapes form a code in which no code word starts another, and none starts with a quote.
-/

namespace Fixture.Text.Quoted

/-- The character that the text begins with an encoding of, and the text after it. Nothing encodes
to a quote alone. -/
def decodeFirst? : List Char → Option (Char × List Char)
  | '\\' :: 'u' :: _ :: _ :: high :: low :: rest =>
    match hexValue? high, hexValue? low with
    | some h, some l => some (Char.ofNat (h * 16 + l), rest)
    | _, _ => none
  | '\\' :: letter :: rest => (simpleEscape? letter).map (·, rest)
  | '"' :: _ => none
  | c :: rest => some (c, rest)
  | [] => none

theorem hexValue?_hexDigit (n : Nat) (bound : n < 16) : hexValue? (hexDigit n) = some n := by
  interval_cases n <;> decide

private theorem decodeFirst?_plain (c : Char) (rest : List Char) (quote : c ≠ '"')
    (backslash : c ≠ '\\') : decodeFirst? (c :: rest) = some (c, rest) := by
  unfold decodeFirst?
  split <;> simp_all

theorem decodeFirst?_encodeChar (c : Char) (rest : List Char) :
    decodeFirst? (encodeChar c ++ rest) = some (c, rest) := by
  unfold encodeChar
  split_ifs with quote backslash backspace feed line carriage tab control
  any_goals (subst c; rfl)
  · have small : c.toNat < 32 := control
    have high := hexValue?_hexDigit (c.toNat / 16) (by omega)
    have low := hexValue?_hexDigit (c.toNat % 16) (by omega)
    have whole : c.toNat / 16 * 16 + c.toNat % 16 = c.toNat := by omega
    simp only [List.cons_append, List.nil_append, decodeFirst?, high, low, whole, Char.ofNat_toNat]
  · exact decodeFirst?_plain c rest quote backslash

@[simp] theorem encode_nil : encode [] = [] := rfl

@[simp] theorem encode_cons (c : Char) (cs : List Char) :
    encode (c :: cs) = encodeChar c ++ encode cs := List.flatMap_cons

theorem encode_append_quote_inj (cs ds rest rest' : List Char)
    (same : encode cs ++ '"' :: rest = encode ds ++ '"' :: rest') : cs = ds ∧ rest = rest' := by
  have ends (tail : List Char) : decodeFirst? ('"' :: tail) = none := rfl
  induction cs generalizing ds with
  | nil =>
    cases ds with
    | nil => simpa using same
    | cons d ds =>
      have read := congrArg decodeFirst? same
      simp only [encode_nil, encode_cons, List.nil_append, List.append_assoc, ends,
        decodeFirst?_encodeChar] at read
      cases read
  | cons c cs ih =>
    have read := congrArg decodeFirst? same
    cases ds with
    | nil =>
      simp only [encode_nil, encode_cons, List.nil_append, List.append_assoc, ends,
        decodeFirst?_encodeChar] at read
      cases read
    | cons d ds =>
      simp only [encode_cons, List.append_assoc, decodeFirst?_encodeChar] at read
      obtain ⟨first, others⟩ := Prod.mk.inj (Option.some.inj read)
      obtain ⟨inner, tails⟩ := ih ds others
      exact ⟨by rw [first, inner], tails⟩

end Fixture.Text.Quoted
