import Fixture.Proofs.Json.Scan

/-!
Scanning of written numerals. A numeral whose whole part has no leading zero, and whose fraction and
exponent have digits if they are there, is one token with the number that it denotes.
-/

namespace Fixture

structure WrittenNumeral where
  negative : Bool := false
  whole : List Char
  fraction : Option (List Char) := none
  exponent : Option (Bool × List Char) := none

namespace WrittenNumeral

def digits (cs : List Char) : List Nat := cs.map fun c => c.toNat - 48

/-- At least one character, and nothing but digits. -/
structure Digits (cs : List Char) : Prop where
  nonempty : cs ≠ []
  all : ∀ c ∈ cs, c.isDigit = true

structure WellFormed (w : WrittenNumeral) : Prop where
  whole : Digits w.whole
  leading : w.whole.head? = some '0' → w.whole = ['0']
  fraction : ∀ cs ∈ w.fraction, Digits cs
  exponent : ∀ e ∈ w.exponent, Digits e.2

def fractionChars (w : WrittenNumeral) : List Char :=
  w.fraction.elim [] fun cs => '.' :: cs

def exponentChars (w : WrittenNumeral) : List Char :=
  w.exponent.elim [] fun e => 'e' :: (if e.1 then '-' else '+') :: e.2

def chars (w : WrittenNumeral) : List Char :=
  (if w.negative then ['-'] else []) ++ w.whole ++ w.fractionChars ++ w.exponentChars

def numeral (w : WrittenNumeral) : Numeral :=
  { negative := w.negative
    whole := digits w.whole
    fraction := w.fraction.map digits
    exponent := w.exponent.map fun e => (e.1, digits e.2) }

end WrittenNumeral

namespace Json

open WrittenNumeral

namespace Scan

/-- A numeral takes digits in its stride once it is in a stage that does not change with them. -/
theorem run_digits {stage : NumeralStage} (steady : ∀ d, stage.afterDigit? d = some stage)
    {cs : List Char} (all : ∀ c ∈ cs, c.isDigit = true) (n : Numeral) (rest : List Char) :
    (Scan.numeral stage n).run (cs ++ rest) =
      (Scan.numeral stage ((digits cs).foldl (fun n d => pushDigit n d stage) n)).run rest := by
  induction cs generalizing n with
  | nil => rfl
  | cons c cs ih =>
    obtain ⟨digit, later⟩ := List.forall_mem_cons.1 all
    have next : (Scan.numeral stage n).next c =
        ([], .numeral stage (pushDigit n (c.toNat - 48) stage)) := by
      simp only [Scan.next, inNumeral, digit, steady, if_true]
    rw [List.cons_append, run_cons_of_next next, ih later]
    rfl

theorem foldl_pushDigit_whole (n : Numeral) (ds : List Nat) :
    ds.foldl (fun n d => pushDigit n d .whole) n = { n with whole := ds.reverse ++ n.whole } := by
  induction ds generalizing n with
  | nil => rfl
  | cons d ds ih =>
    rw [List.foldl_cons, ih, pushDigit, List.reverse_cons, List.append_assoc]
    rfl

theorem foldl_pushDigit_fraction (n : Numeral) (done ds : List Nat) :
    ds.foldl (fun n d => pushDigit n d .fraction) { n with fraction := some done } =
      { n with fraction := some (ds.reverse ++ done) } := by
  induction ds generalizing done with
  | nil => rfl
  | cons d ds ih =>
    rw [List.reverse_cons, List.append_assoc]
    exact ih (d :: done)

theorem foldl_pushDigit_exponent (n : Numeral) (falling : Bool) (done ds : List Nat) :
    ds.foldl (fun n d => pushDigit n d .exponent) { n with exponent := some (falling, done) } =
      { n with exponent := some (falling, ds.reverse ++ done) } := by
  induction ds generalizing done with
  | nil => rfl
  | cons d ds ih =>
    rw [List.reverse_cons, List.append_assoc]
    exact ih (d :: done)

theorem settled_numeral {stage : NumeralStage} (complete : stage.complete = true) (n : Numeral) :
    Settled (.numeral stage n) := by
  rintro c (rfl | rfl) <;> cases stage <;> first | rfl | cases complete

theorem run_fraction {stage : NumeralStage} (whole : stage = .zero ∨ stage = .whole) {n : Numeral}
    (pointless : n.fraction = none) {cs : List Char} (written : Digits cs) (rest : List Char) :
    (Scan.numeral stage n).run ('.' :: cs ++ rest) =
      (Scan.numeral .fraction { n with fraction := some (digits cs).reverse }).run rest := by
  have point : (Scan.numeral stage n).next '.' = ([], .numeral .point n) := by
    rcases whole with rfl | rfl <;> simp [Scan.next, inNumeral, pointless]
  obtain ⟨c, cs, rfl⟩ := List.exists_cons_of_ne_nil written.nonempty
  obtain ⟨digit, later⟩ := List.forall_mem_cons.1 written.all
  have first : (Scan.numeral .point n).next c =
      ([], .numeral .fraction { n with fraction := some [c.toNat - 48] }) := by
    simp [Scan.next, inNumeral, digit, NumeralStage.afterDigit?, pushDigit, pointless]
  rw [List.cons_append, run_cons_of_next point, List.cons_append, run_cons_of_next first,
    run_digits (fun _ => rfl) later, foldl_pushDigit_fraction]
  simp [digits]

theorem run_exponent {stage : NumeralStage}
    (before : stage = .zero ∨ stage = .whole ∨ stage = .fraction) (n : Numeral) (falling : Bool)
    {cs : List Char} (written : Digits cs) (rest : List Char) :
    (Scan.numeral stage n).run ('e' :: (if falling then '-' else '+') :: cs ++ rest) =
      (Scan.numeral .exponent { n with exponent := some (falling, (digits cs).reverse) }).run
        rest := by
  have mark : (Scan.numeral stage n).next 'e' = ([], .numeral .mark n) := by
    rcases before with rfl | rfl | rfl <;> rfl
  have sign : (Scan.numeral .mark n).next (if falling then '-' else '+') =
      ([], .numeral .markSign { n with exponent := some (falling, []) }) := by
    cases falling <;> rfl
  have steady (d : Nat) : NumeralStage.exponent.afterDigit? d = some .exponent := rfl
  obtain ⟨c, cs, rfl⟩ := List.exists_cons_of_ne_nil written.nonempty
  obtain ⟨digit, later⟩ := List.forall_mem_cons.1 written.all
  have first : (Scan.numeral .markSign { n with exponent := some (falling, []) }).next c =
      ([], .numeral .exponent { n with exponent := some (falling, [c.toNat - 48]) }) := by
    simp [Scan.next, inNumeral, digit, NumeralStage.afterDigit?, pushDigit]
  rw [List.cons_append, run_cons_of_next mark, List.cons_append, run_cons_of_next sign,
    List.cons_append, run_cons_of_next first, run_digits steady later, foldl_pushDigit_exponent]
  simp [digits]

theorem exists_of_isDigit {c : Char} (digit : c.isDigit = true) :
    ∃ d < 10, c = Char.ofNat (48 + d) := by
  have bounds : 48 ≤ c.toNat ∧ c.toNat ≤ 57 := by
    simpa [Char.isDigit, UInt32.le_iff_toNat_le] using digit
  refine ⟨c.toNat - 48, by omega, ?_⟩
  rw [Nat.add_sub_cancel' bounds.1, Char.ofNat_toNat]

def afterFirst (c : Char) : NumeralStage := if c = '0' then .zero else .whole

theorem run_first (negative : Bool) {c : Char} (digit : c.isDigit = true) (rest : List Char) :
    Scan.between.run ((if negative then ['-'] else []) ++ c :: rest) =
      (Scan.numeral (afterFirst c) { negative, whole := [c.toNat - 48] }).run rest := by
  obtain ⟨d, small, rfl⟩ := exists_of_isDigit digit
  cases negative with
  | false => interval_cases d <;> rfl
  | true => interval_cases d <;> rfl

theorem run_whole (negative : Bool) {cs : List Char} (written : Digits cs)
    (leading : cs.head? = some '0' → cs = ['0']) :
    ∃ stage, (stage = .zero ∨ stage = .whole) ∧ ∀ rest,
      Scan.between.run ((if negative then ['-'] else []) ++ (cs ++ rest)) =
        (Scan.numeral stage { negative, whole := (digits cs).reverse }).run rest := by
  obtain ⟨c, cs, rfl⟩ := List.exists_cons_of_ne_nil written.nonempty
  obtain ⟨digit, later⟩ := List.forall_mem_cons.1 written.all
  by_cases zero : c = '0'
  · subst zero
    obtain rfl : cs = [] := by simpa using leading rfl
    exact ⟨.zero, .inl rfl, fun rest => run_first negative digit rest⟩
  · have whole : afterFirst c = .whole := if_neg zero
    refine ⟨.whole, .inr rfl, fun rest => ?_⟩
    rw [List.cons_append, run_first negative digit, whole, run_digits (fun _ => rfl) later,
      foldl_pushDigit_whole]
    simp [digits]

end Scan

/-- A numeral that is written well is one token, whether or not it denotes a number. -/
theorem Scanned.numeral {w : WrittenNumeral} (formed : w.WellFormed) :
    Scanned w.chars [.scalar (.num (w.numeral.value?.elim (.error .malformed) .ok))] := by
  obtain ⟨negative, whole, fraction, exponent⟩ := w
  obtain ⟨written, leading, fractional, exponential⟩ := formed
  have pointed : ∃ stage, (stage = .zero ∨ stage = .whole ∨ stage = .fraction) ∧
      ∀ rest, Scan.between.run ((if negative then ['-'] else []) ++
          (whole ++ (fractionChars ⟨negative, whole, fraction, exponent⟩ ++ rest))) =
        (Scan.numeral stage
          { negative, whole := (digits whole).reverse
            fraction := fraction.map fun cs => (digits cs).reverse }).run rest := by
    obtain ⟨stage, first, run⟩ := Scan.run_whole negative written leading
    cases fraction with
    | none => exact ⟨stage, first.imp_right .inl, run⟩
    | some cs =>
      refine ⟨.fraction, .inr (.inr rfl), fun rest => ?_⟩
      rw [run]
      exact Scan.run_fraction first rfl (fractional cs rfl) rest
  obtain ⟨stage, before, run⟩ := pointed
  have all : ∃ stage, stage.complete = true ∧
      Scan.between.run (chars ⟨negative, whole, fraction, exponent⟩) =
        ([], Scan.numeral stage
          { negative, whole := (digits whole).reverse
            fraction := fraction.map fun cs => (digits cs).reverse
            exponent := exponent.map fun e => (e.1, (digits e.2).reverse) }) := by
    rw [chars, List.append_assoc, List.append_assoc, run]
    cases exponent with
    | none =>
      refine ⟨stage, ?_, rfl⟩
      rcases before with rfl | rfl | rfl <;> rfl
    | some e =>
      refine ⟨.exponent, rfl, ?_⟩
      have ran := Scan.run_exponent before
        { negative, whole := (digits whole).reverse
          fraction := fraction.map fun cs => (digits cs).reverse } e.1 (exponential e rfl) []
      rw [List.append_nil] at ran
      exact ran
  obtain ⟨stage, complete, run⟩ := all
  refine ⟨[], _, run, Scan.settled_numeral complete _, ?_⟩
  rw [Scan.finish, complete]
  cases fraction <;> cases exponent <;>
    simp [numeralScalar, WrittenNumeral.numeral]

end Json

end Fixture
