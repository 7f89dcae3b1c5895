import Fixture.Editor.FieldKey
import Fixture.Proofs.Number.Reread

/-!
Keys as they are typed in and as they are shown. An index may be typed with zeros before it, and with
a plus sign before these; it is shown without them. A name is shown as it is, and for an object every
text is a name, also one of digits. So what is shown of the key of a field, when it is typed in, means
that field.
-/

namespace Fixture

open WrittenNumeral

namespace WrittenNumeral

theorem digits_iff {cs : List Char} :
    Digits cs ↔ (cs.isEmpty || !cs.all Char.isDigit) = false := by
  simp only [Bool.or_eq_false_iff, Bool.not_eq_false', List.all_eq_true, List.isEmpty_eq_false_iff]
  exact ⟨fun written => ⟨written.nonempty, written.all⟩, fun given => ⟨given.1, given.2⟩⟩

theorem digits_zeros (zeros n : Nat) :
    Digits (List.replicate zeros '0' ++ Nat.toDigits 10 n) where
  nonempty := by simp [Nat.toDigits_ne_nil]
  all c member := by
    rcases List.mem_append.1 member with zero | digit
    · exact Decimal.isDigit_of_mem_replicate zero
    · exact (digits_toDigits n).all c digit

theorem ofDigitChars_zeros (zeros n : Nat) :
    Nat.ofDigitChars 10 (List.replicate zeros '0' ++ Nat.toDigits 10 n) 0 = n := by
  rw [Nat.ofDigitChars_append, Nat.ofDigitChars_replicate_zero, Nat.mul_zero,
    Nat.ofDigitChars_ten_toDigits]

/-- One more digit after those of a number. The digit of zero itself becomes one of the zeros before
the new number. -/
theorem zeros_snoc (zeros n : Nat) {d : Nat} (small : d < 10) :
    ∃ more, List.replicate zeros '0' ++ Nat.toDigits 10 n ++ Nat.toDigits 10 d =
      List.replicate more '0' ++ Nat.toDigits 10 (10 * n + d) := by
  cases n with
  | zero =>
    refine ⟨zeros + 1, ?_⟩
    rw [Nat.toDigits_zero, ← List.replicate_succ', Nat.mul_zero, Nat.zero_add]
  | succ n =>
    refine ⟨zeros, ?_⟩
    rw [List.append_assoc, Nat.toDigits_append_toDigits (by decide) n.succ_pos small]

theorem Digits.exists_zeros {cs : List Char} (written : Digits cs) :
    ∃ zeros, cs = List.replicate zeros '0' ++ Nat.toDigits 10 (Nat.ofDigitChars 10 cs 0) := by
  obtain ⟨nonempty, all⟩ := written
  -- from the end, since the value of the digits before the last one is what that is added to
  induction cs using List.reverseRecOn with
  | nil => exact absurd rfl nonempty
  | append_singleton front c ih =>
    obtain ⟨d, small, rfl⟩ := Json.Scan.exists_of_isDigit (all c (by simp))
    have last : [Char.ofNat (48 + d)] = Nat.toDigits 10 d := by
      interval_cases d <;> rfl
    have value : Nat.ofDigitChars 10 (front ++ Nat.toDigits 10 d) 0 =
        10 * Nat.ofDigitChars 10 front 0 + d := by
      rw [Nat.ofDigitChars_append, Nat.ofDigitChars_eq_ofDigitChars_zero,
        Nat.ofDigitChars_ten_toDigits, Nat.toDigits_of_lt_base small]
      rfl
    rw [last, value]
    by_cases first : front = []
    · subst first
      exact ⟨0, by simp⟩
    · obtain ⟨zeros, same⟩ := ih first fun c member => all c (by simp [member])
      obtain ⟨more, longer⟩ := zeros_snoc zeros (Nat.ofDigitChars 10 front 0) small
      rw [← same] at longer
      exact ⟨more, longer⟩

end WrittenNumeral

namespace FieldKey

variable {raw : String} {i : UInt64}

/-- The ways to type a number in: its digits with zeros before them, and possibly a plus sign. -/
inductive Typed (n : Nat) : List Char → Prop where
  | plain (zeros : Nat) : Typed n (List.replicate zeros '0' ++ Nat.toDigits 10 n)
  | signed (zeros : Nat) : Typed n ('+' :: (List.replicate zeros '0' ++ Nat.toDigits 10 n))

def unsigned : List Char → List Char
  | '+' :: rest => rest
  | cs => cs

theorem unsigned_of_digits {cs : List Char} (written : Digits cs) : unsigned cs = cs := by
  unfold unsigned
  split
  next rest => exact absurd (written.all '+' (by simp)) (by decide)
  next => rfl

theorem typed_iff {n : Nat} {cs : List Char} :
    Typed n cs ↔ Digits (unsigned cs) ∧ Nat.ofDigitChars 10 (unsigned cs) 0 = n := by
  constructor
  · intro typed
    cases typed with
    | plain zeros =>
      rw [unsigned_of_digits (digits_zeros zeros n)]
      exact ⟨digits_zeros zeros n, ofDigitChars_zeros zeros n⟩
    | signed zeros => exact ⟨digits_zeros zeros n, ofDigitChars_zeros zeros n⟩
  · intro given
    obtain ⟨written, rfl⟩ := given
    obtain ⟨zeros, same⟩ := written.exists_zeros
    generalize Nat.ofDigitChars 10 (unsigned cs) 0 = n at same ⊢
    unfold unsigned at same
    split at same
    next rest =>
      rw [same]
      exact .signed zeros
    next =>
      rw [same]
      exact .plain zeros

theorem parseIndex?_eq_some_iff_unsigned : parseIndex? raw = some i ↔
    Digits (unsigned raw.toList) ∧ Nat.ofDigitChars 10 (unsigned raw.toList) 0 = i.toNat := by
  have opened : parseIndex? raw =
      if (unsigned raw.toList).isEmpty || !(unsigned raw.toList).all Char.isDigit then none
      else if Nat.ofDigitChars 10 (unsigned raw.toList) 0 < UInt64.size then
        some (UInt64.ofNat (Nat.ofDigitChars 10 (unsigned raw.toList) 0))
      else none := rfl
  rw [opened]
  generalize unsigned raw.toList = cs
  by_cases written : Digits cs
  · rw [digits_iff.1 written]
    simp only [written, true_and, Bool.false_eq_true, if_false]
    split
    next small =>
      rw [Option.some_inj, ← UInt64.toNat_inj, UInt64.toNat_ofNat_of_lt' small]
    next large =>
      have bound := i.toNat_lt_size
      simp only [reduceCtorEq, false_iff]
      omega
  · have failed : (cs.isEmpty || !cs.all Char.isDigit) = true := by
      rw [← Bool.not_eq_false, ← digits_iff]
      exact written
    simp [failed, written]

/-- A text is read as an index exactly if it is one of the ways to type its number. -/
theorem parseIndex?_eq_some_iff : parseIndex? raw = some i ↔ Typed i.toNat raw.toList := by
  rw [parseIndex?_eq_some_iff_unsigned, typed_iff]

theorem typed_display (i : UInt64) : Typed i.toNat (index i).display.toList := by
  have chars : (index i).display.toList = Nat.toDigits 10 i.toNat := by simp [display]
  rw [chars]
  exact .plain 0

theorem ofRaw_eq_index_iff {v : Json} :
    ofRaw v raw = .index i ↔ (∃ items, v = .arr items) ∧ Typed i.toNat raw.toList := by
  rw [← parseIndex?_eq_some_iff]
  cases v with
  | arr items => cases read : parseIndex? raw <;> simp [ofRaw, read]
  | _ => simp [ofRaw]

theorem ofRaw_display_index (items : List Json) (i : UInt64) :
    ofRaw (.arr items) (index i).display = .index i :=
  ofRaw_eq_index_iff.2 ⟨⟨items, rfl⟩, typed_display i⟩

theorem ofRaw_display {key : FieldKey} {v field : Json} (found : key.get? v = some field) :
    ofRaw v key.display = key := by
  cases key with
  | index i =>
    cases v with
    | arr items => exact ofRaw_display_index items i
    | _ => simp [get?] at found
  | property name =>
    cases v with
    | obj members => rfl
    | _ => simp [get?] at found

end FieldKey

end Fixture
