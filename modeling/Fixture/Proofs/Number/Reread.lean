import Fixture.Proofs.Json.Numeral
import Fixture.Proofs.Number.Shortest
import Fixture.Proofs.Number.Significand
import Mathlib.Data.Nat.Digits.Lemmas

/-!
Numbers read back from their texts. The text of a number is a numeral. An integer of at most 64 bits
is read back as it is. Of a float only this is shown: that it is read back as some number, however
reading rounds, and is never taken to be too large.
-/

namespace Fixture

open WrittenNumeral

/-! ## Digits -/

theorem WrittenNumeral.decimalValue_digits (start : Nat) (cs : List Char) :
    Numeral.decimalValue start (digits cs) = Nat.ofDigitChars 10 cs start := by
  induction cs generalizing start with
  | nil => rfl
  | cons c cs ih =>
    rw [Nat.ofDigitChars_cons, mul_comm, ← ih]
    rfl

theorem WrittenNumeral.decimalValue_toDigits (n : Nat) :
    Numeral.decimalValue 0 (digits (Nat.toDigits 10 n)) = n :=
  (decimalValue_digits 0 _).trans Nat.ofDigitChars_ten_toDigits

theorem WrittenNumeral.digits_lt {cs : List Char} (all : ∀ c ∈ cs, c.isDigit = true) :
    ∀ d ∈ digits cs, d < 10 := by
  intro d member
  obtain ⟨c, inside, rfl⟩ := List.mem_map.1 member
  obtain ⟨d, small, rfl⟩ := Json.Scan.exists_of_isDigit (all c inside)
  interval_cases d <;> decide

theorem WrittenNumeral.digits_toDigits (n : Nat) : Digits (Nat.toDigits 10 n) where
  nonempty := Nat.toDigits_ne_nil
  all _ member := Nat.isDigit_of_mem_toDigits (by decide) (by decide) member

theorem head?_toDigits {n : Nat} (positive : 0 < n) : (Nat.toDigits 10 n).head? ≠ some '0' := by
  induction n using Nat.strongRecOn with
  | ind n ih =>
    rw [Nat.toDigits_eq_if (by decide)]
    split
    next small => interval_cases n <;> decide
    next large =>
      rw [List.head?_append_of_ne_nil _ Nat.toDigits_ne_nil]
      exact ih (n / 10) (Nat.div_lt_self positive (by decide)) (by omega)

/-! ## Decimals -/

namespace Decimal

variable {d : Decimal}

def positionalParts (negative : Bool) (d : Decimal) : WrittenNumeral :=
  let whole := d.digits.take d.point.toNat
  let padding := List.replicate (d.point.toNat - d.digits.length) '0'
  let leading := List.replicate (-d.point).toNat '0'
  let fraction := leading ++ d.digits.drop d.point.toNat
  { negative
    whole := if whole.isEmpty then ['0'] else whole ++ padding
    fraction := some (if fraction.isEmpty || d.digits.isEmpty then ['0'] else fraction) }

def scientificParts (negative : Bool) (d : Decimal) : WrittenNumeral :=
  { negative
    whole := d.digits.take 1
    fraction := if d.digits.length ≤ 1 then none else some (d.digits.drop 1)
    exponent := some (decide (d.point - 1 < 0), Nat.toDigits 10 (d.point - 1).natAbs) }

structure Proper (d : Decimal) : Prop where
  all : ∀ c ∈ d.digits, c.isDigit = true
  leading : d.digits.head? ≠ some '0'

theorem chars_positionalParts (negative : Bool) (d : Decimal) :
    (positionalParts negative d).chars =
      (if negative then ['-'] else []) ++ d.positional.toList := by
  simp [positionalParts, positional, chars, fractionChars, exponentChars]

theorem chars_scientificParts (negative : Bool) (d : Decimal) :
    (scientificParts negative d).chars =
      (if negative then ['-'] else []) ++ d.scientific.toList := by
  by_cases single : d.digits.length ≤ 1 <;>
    simp [scientificParts, scientific, chars, fractionChars, exponentChars, single]

theorem digits_zero : Digits ['0'] := ⟨List.cons_ne_nil _ _, List.forall_mem_singleton.2 rfl⟩

theorem isDigit_of_mem_replicate {n : Nat} {c : Char} (member : c ∈ List.replicate n '0') :
    c.isDigit = true := by
  rw [List.eq_of_mem_replicate member]
  rfl

theorem Proper.wellFormed_positionalParts (proper : d.Proper) (negative : Bool) :
    (positionalParts negative d).WellFormed where
  whole := by
    simp only [positionalParts]
    split
    · exact digits_zero
    next present =>
      refine ⟨by simp_all, fun c member => ?_⟩
      rcases List.mem_append.1 member with inside | padded
      · exact proper.all c (List.mem_of_mem_take inside)
      · exact isDigit_of_mem_replicate padded
  leading := by
    simp only [positionalParts]
    split
    · exact fun _ => rfl
    next present =>
      intro zero
      have nonempty : d.digits.take d.point.toNat ≠ [] := by simpa using present
      rw [List.head?_append_of_ne_nil _ nonempty, List.head?_take] at zero
      split at zero
      · cases zero
      · exact absurd zero proper.leading
  fraction := by
    rintro cs ⟨⟩
    split
    · exact digits_zero
    next present =>
      refine ⟨by simp_all, fun c member => ?_⟩
      rcases List.mem_append.1 member with padded | inside
      · exact isDigit_of_mem_replicate padded
      · exact proper.all c (List.mem_of_mem_drop inside)
  exponent := by rintro e ⟨⟩

theorem Proper.wellFormed_scientificParts (proper : d.Proper) (nonempty : d.digits ≠ [])
    (negative : Bool) : (scientificParts negative d).WellFormed where
  whole := ⟨by simpa [scientificParts] using nonempty,
    fun c member => proper.all c (List.mem_of_mem_take member)⟩
  leading := by
    intro zero
    simp only [scientificParts, List.head?_take] at zero
    exact absurd zero proper.leading
  fraction := by
    intro cs present
    simp only [scientificParts] at present
    split at present
    · cases present
    next several =>
      obtain rfl := Option.some.inj present
      refine ⟨fun none => ?_, fun c member => proper.all c (List.mem_of_mem_drop member)⟩
      rw [List.drop_eq_nil_iff] at none
      exact several none
  exponent := by
    rintro e ⟨⟩
    exact digits_toDigits _

/-! ### Of scaled numbers -/

/-- Only zeros at the end are left out of a scaled number's digits. -/
theorem toDigits_eq_ofScaled (n : Nat) (scale : Int) :
    ∃ zeros, Nat.toDigits 10 n = (ofScaled n scale).digits ++ List.replicate zeros '0' ∧
      (ofScaled n scale).point = (ofScaled n scale).digits.length + zeros + scale := by
  have parts := List.takeWhile_append_dropWhile (p := (· == '0')) (l := (Nat.toDigits 10 n).reverse)
  have zeros : (Nat.toDigits 10 n).reverse.takeWhile (· == '0') =
      List.replicate ((Nat.toDigits 10 n).reverse.takeWhile (· == '0')).length '0' := by
    refine List.eq_replicate_iff.2 ⟨rfl, fun c member => ?_⟩
    simpa using List.all_eq_true.1 List.all_takeWhile c member
  have whole : Nat.toDigits 10 n = (ofScaled n scale).digits ++
      List.replicate ((Nat.toDigits 10 n).reverse.takeWhile (· == '0')).length '0' := by
    have reversed := congrArg List.reverse parts
    rw [List.reverse_append, List.reverse_reverse, zeros, List.reverse_replicate] at reversed
    exact reversed.symm
  refine ⟨_, whole, ?_⟩
  have length := congrArg List.length whole
  rw [List.length_append, List.length_replicate] at length
  show ((Nat.toDigits 10 n).length : Int) + scale = _
  rw [length]
  push_cast
  rfl

theorem proper_ofScaled {n : Nat} (positive : 0 < n) (scale : Int) :
    (ofScaled n scale).Proper ∧ (ofScaled n scale).digits ≠ [] := by
  obtain ⟨zeros, whole, -⟩ := toDigits_eq_ofScaled n scale
  have nonempty : (ofScaled n scale).digits ≠ [] := by
    intro none
    have value := Nat.ofDigitChars_ten_toDigits (n := n)
    rw [whole, none, List.nil_append, Nat.ofDigitChars_replicate_zero, mul_zero] at value
    omega
  have head := head?_toDigits positive
  rw [whole, List.head?_append_of_ne_nil _ nonempty] at head
  refine ⟨⟨fun c member => ?_, head⟩, nonempty⟩
  refine (digits_toDigits n).all c ?_
  rw [whole]
  exact List.mem_append_left _ member

end Decimal

/-! ## What is read -/

namespace Numeral

theorem value_lt_safeLimit {v : Nat} (fits : v < UInt64.size) : v ≤ safeLimit := by
  have power : 0 < 10 ^ 288 := by positivity
  calc v ≤ UInt64.size := fits.le
    _ ≤ 17976931348623154 * 10 ^ 4 * 10 ^ 288 :=
        (by decide : UInt64.size ≤ 17976931348623154 * 10 ^ 4).trans (Nat.le_mul_of_pos_right _ power)
    _ = safeLimit := by rw [safeLimit, mul_assoc, ← pow_add]

theorem value?_isSome_of_point {w : Numeral} {ds : List Nat} (point : w.fraction = some ds)
    (plain : w.exponent = none) (nonempty : ds ≠ []) (small : ∀ d ∈ w.whole ++ ds, d < 10)
    (short : w.whole.length ≤ 16) : w.value?.isSome := by
  obtain ⟨d, ds, rfl⟩ := List.exists_cons_of_ne_nil nonempty
  have whole : decimalValue 0 w.whole < 10 ^ (0 + w.whole.length) :=
    decimalValue_lt (fun e member => small e (List.mem_append_left _ member)) (by decide)
  have most : decimalValue 0 w.whole < 10 ^ 16 :=
    whole.trans_le (Nat.pow_le_pow_right (by decide) (by omega))
  have digit : d < 10 := small d (List.mem_append_right _ List.mem_cons_self)
  have size : UInt64.size = 2 ^ 64 := rfl
  have kept : w.whole.foldl Significand.pushWhole {} = ⟨decimalValue 0 w.whole, 0⟩ :=
    Significand.foldl_pushWhole (by omega)
  have falling := Significand.scale_pushFraction_neg (v := decimalValue 0 w.whole) (d := d)
    (by omega) ds
  have fits := Significand.value_pushFraction_lt (s := ⟨decimalValue 0 w.whole, 0⟩)
    (by show decimalValue 0 w.whole < UInt64.size; omega) (d :: ds)
  have read := scaled?_isSome_of_neg falling (value_lt_safeLimit fits)
  simp only [value?, kept, point, plain, Option.getD_some, Option.isSome_map, read]

theorem value?_isSome_of_exponent {w : Numeral} {falling : Bool} {ds : List Nat}
    (mark : w.exponent = some (falling, ds)) (size : decimalValue 0 ds < exponentLimit)
    (fits : decimalValue 0 (w.whole ++ w.fraction.getD []) < UInt64.size)
    (read : (scaled? (decimalValue 0 (w.whole ++ w.fraction.getD []))
      ((if falling then -(decimalValue 0 ds : Int) else decimalValue 0 ds) -
        (w.fraction.getD []).length)).isSome) : w.value?.isSome := by
  have parts : decimalValue 0 (w.whole ++ w.fraction.getD []) =
      decimalValue (decimalValue 0 w.whole) (w.fraction.getD []) := List.foldl_append
  rw [parts] at fits read
  have kept : w.whole.foldl Significand.pushWhole {} = ⟨decimalValue 0 w.whole, 0⟩ :=
    Significand.foldl_pushWhole ((le_decimalValue _ _).trans_lt fits)
  have kept' := Significand.pushFraction_eq (s := ⟨decimalValue 0 w.whole, 0⟩) fits
  have exponent : (if falling then (0 - (w.fraction.getD []).length - decimalValue 0 ds : Int)
      else 0 - (w.fraction.getD []).length + decimalValue 0 ds) =
        (if falling then -(decimalValue 0 ds : Int) else decimalValue 0 ds) -
          (w.fraction.getD []).length := by
    split <;> ring
  simp only [value?, kept, kept', mark, exponentSize?_eq size, exponent, Option.isSome_map, read]

end Numeral

namespace Decimal

variable {d : Decimal}

theorem Proper.value?_positionalParts (proper : d.Proper) (short : d.point ≤ 16)
    (negative : Bool) : (positionalParts negative d).numeral.value?.isSome := by
  have formed := proper.wellFormed_positionalParts negative
  have point := formed.fraction _ rfl
  refine Numeral.value?_isSome_of_point rfl rfl ?_ (fun e member => ?_) ?_
  · simpa only [WrittenNumeral.digits, ne_eq, List.map_eq_nil_iff] using point.nonempty
  · rcases List.mem_append.1 member with whole | fraction
    · exact digits_lt formed.whole.all e whole
    · exact digits_lt point.all e fraction
  · simp only [numeral, positionalParts, WrittenNumeral.digits, List.length_map]
    split
    · decide
    · simp only [List.length_append, List.length_take, List.length_replicate]
      omega

theorem unitsPerOne_mul (k : Nat) : unitsPerOne * 10 ^ k = 10 ^ (400 + k) := by
  unfold unitsPerOne
  generalize 400 = n
  exact (pow_add 10 n k).symm

theorem getD_fraction (negative : Bool) (d : Decimal) :
    (scientificParts negative d).numeral.fraction.getD [] =
      WrittenNumeral.digits (d.digits.drop 1) := by
  by_cases single : d.digits.length ≤ 1
  · rw [List.drop_eq_nil_of_le single]
    simp [scientificParts, numeral, WrittenNumeral.digits, single]
  · simp [scientificParts, numeral, WrittenNumeral.digits, single]

theorem decimalValue_scientificParts (negative : Bool) (d : Decimal) :
    Numeral.decimalValue 0 ((scientificParts negative d).numeral.whole ++
      (scientificParts negative d).numeral.fraction.getD []) = Nat.ofDigitChars 10 d.digits 0 := by
  have whole : (scientificParts negative d).numeral.whole =
      WrittenNumeral.digits (d.digits.take 1) := rfl
  rw [whole, getD_fraction, WrittenNumeral.digits, WrittenNumeral.digits, ← List.map_append,
    List.take_append_drop]
  exact decimalValue_digits 0 d.digits

open Numeral in
theorem scale_lt {v scale : Nat} (positive : 0 < v)
    (below : v * 10 ^ scale < lastDecimal * 10 ^ 292 * unitsPerOne) : scale < 709 := by
  -- The power is not evaluated as long as its exponent has a name.
  obtain ⟨k, limit, most⟩ : ∃ k, lastDecimal * 10 ^ 292 * unitsPerOne < Nat.pow 10 k ∧ k ≤ 709 :=
    ⟨709, by decide +kernel, le_rfl⟩
  have least : 10 ^ scale ≤ v * 10 ^ scale := Nat.le_mul_of_pos_left _ positive
  have power : 10 ^ scale < 10 ^ k := least.trans_lt (below.trans limit)
  exact ((Nat.pow_lt_pow_iff_right (by decide)).1 power).trans_le most

open Numeral in
theorem scaled?_isSome_of_below {v scale : Nat} (positive : 0 < v) (few : v ≤ 10 ^ 17)
    (below : v * 10 ^ scale < lastDecimal * 10 ^ 292 * unitsPerOne) :
    (scaled? v (scale - 400)).isSome := by
  rcases Nat.lt_or_ge scale 400 with falling | rising
  · have fits : 10 ^ 17 < UInt64.size := by decide
    exact scaled?_isSome_of_neg (by omega) (value_lt_safeLimit (few.trans_lt fits))
  · obtain ⟨k, rfl⟩ := Nat.exists_eq_add_of_le rising
    have whole : ((400 + k : Nat) : Int) - 400 = (k : Nat) := by omega
    rw [whole]
    refine scaled?_isSome_of_lt positive few ?_
    refine Nat.lt_of_mul_lt_mul_right (a := unitsPerOne) (lt_of_eq_of_lt ?_ below)
    calc v * 10 ^ k * unitsPerOne = v * (unitsPerOne * 10 ^ k) := by ring
      _ = v * 10 ^ (400 + k) := by rw [unitsPerOne_mul]

open Numeral in
/-- All digits of the form with an exponent are kept, and what they stand for is no more than the
largest float is written as. -/
theorem value?_scientificParts {n fine : Nat} (positive : 0 < n) (few : n ≤ 10 ^ 17)
    (below : n * 10 ^ fine < lastDecimal * 10 ^ 292 * unitsPerOne) (negative : Bool) :
    (scientificParts negative (ofScaled n (fine - 400))).numeral.value?.isSome := by
  obtain ⟨zeros, whole, point⟩ := toDigits_eq_ofScaled n (fine - 400)
  have nonempty := (proper_ofScaled positive (fine - 400)).2
  have size : (Nat.toDigits 10 n).length ≤ 18 :=
    (Nat.length_toDigits_le_iff (by decide) (by decide)).2 (few.trans_lt (by decide))
  generalize ofScaled n (fine - 400) = d at *
  have length : d.digits.length + zeros ≤ 18 := by
    rwa [whole, List.length_append, List.length_replicate] at size
  have some_digits : 0 < d.digits.length := List.length_pos_iff.2 nonempty
  have kept := decimalValue_scientificParts negative d
  have value : n = 10 ^ zeros * Nat.ofDigitChars 10 d.digits 0 := by
    rw [← Nat.ofDigitChars_replicate_zero, ← Nat.ofDigitChars_append, ← whole,
      Nat.ofDigitChars_ten_toDigits]
  generalize Nat.ofDigitChars 10 d.digits 0 = v at value kept
  have least : v ≤ n := value ▸ Nat.le_mul_of_pos_left v (by positivity)
  have large : 0 < v := Nat.pos_of_ne_zero (by rintro rfl; omega)
  have below' : v * 10 ^ (zeros + fine) < lastDecimal * 10 ^ 292 * unitsPerOne := by
    refine lt_of_eq_of_lt ?_ below
    rw [value, pow_add]
    ring
  have bound := scale_lt large below'
  refine value?_isSome_of_exponent rfl ?_ ?_ ?_
  · rw [decimalValue_toDigits, exponentLimit]
    omega
  · have fits : 10 ^ 17 < UInt64.size := by decide
    rw [kept]
    exact (least.trans few).trans_lt fits
  · have scale : (if decide (d.point - 1 < 0) then -((d.point - 1).natAbs : Int)
        else (d.point - 1).natAbs) - ((d.digits.length - 1 : Nat) : Int) =
          (zeros + fine : Nat) - 400 := by
      by_cases small : d.point - 1 < 0
      · simp only [small, decide_true, if_true]
        omega
      · simp only [small, decide_false, Bool.false_eq_true, if_false]
        omega
    rw [kept, decimalValue_toDigits, getD_fraction, WrittenNumeral.digits, List.length_map,
      List.length_drop, scale]
    exact scaled?_isSome_of_below large (least.trans few) below'

def last (negative : Bool) : Binary64 :=
  ⟨negative, 2 ^ 53 - 1, 2045, by decide, .inr (by decide), le_rfl⟩

theorem IsLast.eq_last {x : Binary64} (isLast : IsLast x) : x = last x.negative := by
  obtain ⟨negative, mantissa, exponent, _, _, _⟩ := x
  obtain ⟨rfl, rfl⟩ := isLast
  rfl

end Decimal

/-! ## Numbers -/

namespace Number

def written : Number → WrittenNumeral
  | .int n => { negative := decide (n < 0), whole := Nat.toDigits 10 n.natAbs }
  | .float x =>
    let d := Decimal.shortest x
    if x.isZero || (-4 ≤ d.point && d.point ≤ 16) then d.positionalParts x.negative
    else d.scientificParts x.negative

theorem toList_toText (n : Number) : n.toText.toList = n.written.chars := by
  cases n with
  | int n =>
    cases n with
    | ofNat n =>
      show n.repr.toList = _
      simp [written, chars, fractionChars, exponentChars]
    | negSucc n =>
      show ("-" ++ (n + 1).repr).toList = _
      simp [written, chars, fractionChars, exponentChars]
  | float x =>
    have signed (text : String) : (if x.negative then "-" ++ text else text).toList =
        (if x.negative then ['-'] else []) ++ text.toList := by
      split <;> simp
    simp only [toText, Binary64.toText, signed, written]
    split_ifs <;> simp [Decimal.chars_positionalParts, Decimal.chars_scientificParts, *]

theorem written_float_of_zero {x : Binary64} (zero : x.isZero = true) :
    written (.float x) = Decimal.positionalParts x.negative ⟨[], 0⟩ := by
  simp [written, Decimal.shortest, zero]

theorem proper_zero : Decimal.Proper ⟨[], 0⟩ := ⟨by simp, by simp⟩

theorem wellFormed_written (n : Number) : n.written.WellFormed := by
  cases n with
  | int n =>
    refine ⟨digits_toDigits _, fun zero => ?_, by rintro cs ⟨⟩, by rintro e ⟨⟩⟩
    have none : n.natAbs = 0 := by
      by_contra positive
      exact head?_toDigits (Nat.pos_of_ne_zero positive) zero
    simp only [written, none]
    rfl
  | float x =>
    cases zero : x.isZero with
    | true =>
      rw [written_float_of_zero zero]
      exact proper_zero.wellFormed_positionalParts _
    | false =>
      obtain ⟨n, fine, positive, -, -, same⟩ := Decimal.shortest_eq zero
      obtain ⟨proper, nonempty⟩ := Decimal.proper_ofScaled positive (fine - 400)
      simp only [written, same]
      split
      · exact proper.wellFormed_positionalParts _
      · exact proper.wellFormed_scientificParts nonempty _

theorem value?_written_int {n : Int} (bounded : (int n).Bounded) :
    (written (.int n)).numeral.value? = some (.int n) := by
  obtain ⟨least, most⟩ := bounded
  have size : UInt64.size = 2 ^ 64 := rfl
  have value := decimalValue_toDigits n.natAbs
  have kept : (digits (Nat.toDigits 10 n.natAbs)).foldl Numeral.Significand.pushWhole {} =
      ⟨Numeral.decimalValue 0 (digits (Nat.toDigits 10 n.natAbs)), 0⟩ :=
    Numeral.Significand.foldl_pushWhole (by omega)
  simp only [Numeral.value?, written, numeral, kept, value, Option.map_none, Option.getD_none,
    Numeral.Significand.pushFraction]
  by_cases negative : n < 0
  · have half : n.natAbs ≤ UInt64.size / 2 := by omega
    have value' : -(n.natAbs : Int) = n := by omega
    rw [if_neg (by simp [negative]), if_pos ⟨trivial, by omega, half⟩, value']
  · simp [negative]
    omega

theorem value?_written_last (negative : Bool) :
    (written (.float (Decimal.last negative))).numeral.value?.isSome := by
  cases negative <;> decide +kernel

theorem value?_written_float (x : Binary64) : (written (.float x)).numeral.value?.isSome := by
  cases zero : x.isZero with
  | true =>
    rw [written_float_of_zero zero]
    exact proper_zero.value?_positionalParts (by decide) _
  | false =>
    by_cases isLast : Decimal.IsLast x
    · rw [isLast.eq_last]
      exact value?_written_last _
    obtain ⟨n, fine, positive, few, good, same⟩ := Decimal.shortest_eq zero
    simp only [written, zero, same]
    split
    next near =>
      have short : (Decimal.ofScaled n (fine - 400)).point ≤ 16 := by simp at near; exact near.2
      exact (Decimal.proper_ofScaled positive _).1.value?_positionalParts short _
    · exact Decimal.value?_scientificParts positive few (Decimal.lt_lastDecimal good isLast) _

def reread (n : Number) : Number := n.written.numeral.value?.getD n

theorem reread_int {n : Int} (bounded : (int n).Bounded) : reread (.int n) = .int n := by
  rw [reread, value?_written_int bounded, Option.getD_some]

theorem value?_written {n : Number} (bounded : n.Bounded) :
    n.written.numeral.value? = some n.reread := by
  have read : n.written.numeral.value?.isSome := by
    cases n with
    | int n => rw [value?_written_int bounded, Option.isSome_some]
    | float x => exact value?_written_float x
  obtain ⟨m, found⟩ := Option.isSome_iff_exists.1 read
  rw [reread, found, Option.getD_some]

end Number

theorem Json.Scanned.number {n : Number} (bounded : n.Bounded) :
    Scanned n.toText.toList [.scalar (.num (.ok n.reread))] := by
  have scanned := Scanned.numeral n.wellFormed_written
  rw [Number.value?_written bounded] at scanned
  rw [Number.toList_toText]
  exact scanned

end Fixture
