import Fixture.Proofs.Number.Rounding

/-!
The shortest decimal of a float. Seventeen digits always suffice: the numbers that read back as a
float lie wider apart than the decimals of that many digits. So the decimal that is written reads
back, and it has no more digits than that.
-/

namespace Fixture

namespace Decimal

open Binary64 (stepsPerOne mantissaLimit)

variable {x : Binary64}

/-- The units of `10^-400` that the last bit of a float is worth, times `2^1074`. -/
def bitUnits (x : Binary64) : Nat := Nat.pow 2 x.exponent * unitsPerOne

theorem steps_mul_unitsPerOne (x : Binary64) :
    x.steps * unitsPerOne = x.mantissa * bitUnits x := Nat.mul_assoc _ _ _

theorem mul_two_pow_le {k m n bits : Nat} (few : bits ≤ 3 * m) (le : k + m ≤ n) :
    10 ^ k * Nat.pow 2 bits ≤ Nat.pow 10 n :=
  calc 10 ^ k * 2 ^ bits
      ≤ 10 ^ k * (2 ^ 3) ^ m := by
        rw [← Nat.pow_mul]
        exact Nat.mul_le_mul_left _ (Nat.pow_le_pow_right (by decide) few)
    _ ≤ 10 ^ k * 10 ^ m := Nat.mul_le_mul_left _ (Nat.pow_le_pow_left (by decide) m)
    _ = 10 ^ (k + m) := (Nat.pow_add 10 k m).symm
    _ ≤ 10 ^ n := Nat.pow_le_pow_right (by decide) le

theorem le_unitsPerOne : 10 ^ 17 * stepsPerOne ≤ unitsPerOne := by
  unfold stepsPerOne unitsPerOne
  apply mul_two_pow_le (m := 358)
  · decide
  · decide

theorem bitUnits_pos (x : Binary64) : 0 < bitUnits x := by
  have units : 0 < unitsPerOne :=
    Nat.lt_of_lt_of_le (Nat.mul_pos (by decide) Numeral.stepsPerOne_pos) le_unitsPerOne
  exact Nat.mul_pos (Nat.pow_pos (by decide)) units

/-- How far below a float the numbers reach that read back, in quarters of its last bit. -/
def belowQuarters (x : Binary64) : Nat :=
  if x.mantissa = mantissaLimit / 2 ∧ 0 < x.exponent then 1 else 2

theorem readsBack_even (even : x.mantissa % 2 = 0) {c unit : Nat} :
    readsBack x c unit = true ↔
      (4 * x.mantissa - belowQuarters x) * bitUnits x ≤ 4 * (c * (unit * stepsPerOne)) ∧
        4 * (c * (unit * stepsPerOne)) ≤ (4 * x.mantissa + 2) * bitUnits x := by
  have value : c * unit * 4 * stepsPerOne = 4 * (c * (unit * stepsPerOne)) := by ring
  simp only [readsBack, if_pos even, Bool.and_eq_true, decide_eq_true_eq, value]
  rfl

theorem readsBack_odd (odd : x.mantissa % 2 ≠ 0) {c unit : Nat} :
    readsBack x c unit = true ↔
      (4 * x.mantissa - belowQuarters x) * bitUnits x < 4 * (c * (unit * stepsPerOne)) ∧
        4 * (c * (unit * stepsPerOne)) < (4 * x.mantissa + 2) * bitUnits x := by
  have value : c * unit * 4 * stepsPerOne = 4 * (c * (unit * stepsPerOne)) := by ring
  simp only [readsBack, if_neg odd, Bool.and_eq_true, decide_eq_true_eq, value]
  rfl

def choose (good : Nat → Bool) (low : Nat) (order : Ordering) : Option Nat :=
  match good low, good (low + 1) with
  | false, false => none
  | true, false => some low
  | false, true => some (low + 1)
  | true, true =>
    match order with
    | .lt => some low
    | .eq => some (low + low % 2)
    | .gt => some (low + 1)

theorem choose_eq_some {good : Nat → Bool} {low c : Nat} {order : Ordering}
    (chosen : choose good low order = some c) : good c = true ∧ c ≤ low + 1 := by
  unfold choose at chosen
  split at chosen
  · cases chosen
  next below above =>
    obtain rfl := Option.some.inj chosen
    exact ⟨below, by omega⟩
  next below above =>
    obtain rfl := Option.some.inj chosen
    exact ⟨above, le_rfl⟩
  next below above =>
    split at chosen
    · obtain rfl := Option.some.inj chosen
      exact ⟨below, by omega⟩
    · obtain rfl := Option.some.inj chosen
      rcases Nat.mod_two_eq_zero_or_one low with even | odd
      · rw [even]
        exact ⟨below, by omega⟩
      · rw [odd]
        exact ⟨above, le_rfl⟩
    · obtain rfl := Option.some.inj chosen
      exact ⟨above, le_rfl⟩

theorem choose_isSome {good : Nat → Bool} {low : Nat} (order : Ordering)
    (one : good low = true ∨ good (low + 1) = true) : (choose good low order).isSome := by
  unfold choose
  split
  next below above => simp [below, above] at one
  · rfl
  · rfl
  · cases order <;> rfl

theorem candidate?_eq (x : Binary64) (unit : Nat) :
    candidate? x unit =
      choose (fun c => readsBack x c unit) (x.steps * unitsPerOne / (unit * stepsPerOne))
        (compare (2 * (x.steps * unitsPerOne % (unit * stepsPerOne))) (unit * stepsPerOne)) := by
  unfold candidate? choose
  generalize x.steps * unitsPerOne = value
  generalize unit * stepsPerOne = step
  rfl

theorem quarters (x : Binary64) :
    (4 * x.mantissa - belowQuarters x) * bitUnits x =
        4 * (x.mantissa * bitUnits x) - belowQuarters x * bitUnits x ∧
      (4 * x.mantissa + 2) * bitUnits x = 4 * (x.mantissa * bitUnits x) + 2 * bitUnits x := by
  rw [Nat.sub_mul, Nat.add_mul, Nat.mul_assoc]
  exact ⟨rfl, rfl⟩

/-- Only at a power of two does the last bit count for half of what it does above. -/
theorem belowQuarters_cases (x : Binary64) :
    belowQuarters x = 2 ∨ belowQuarters x = 1 ∧ x.mantissa = 2 ^ 52 := by
  unfold belowQuarters
  split
  next power => exact .inr ⟨rfl, power.1⟩
  · exact .inl rfl

/-- Where the multiples lie closer than the seventeenth digit, one of the two around a float reads
back. -/
theorem candidate?_isSome {unit : Nat} (positive : 0 < unit)
    (fine : 10 ^ 16 * (unit * stepsPerOne) ≤ x.steps * unitsPerOne) :
    (candidate? x unit).isSome := by
  have step_pos : 0 < unit * stepsPerOne := Nat.mul_pos positive Numeral.stepsPerOne_pos
  rw [candidate?_eq]
  refine choose_isSome _ ?_
  have below := Nat.div_mul_le_self (x.steps * unitsPerOne) (unit * stepsPerOne)
  have above := Nat.lt_div_mul_add step_pos (a := x.steps * unitsPerOne)
  have widest : x.mantissa * bitUnits x ≤ (2 ^ 53 - 1) * bitUnits x :=
    Nat.mul_le_mul_right _ (Nat.le_sub_one_of_lt x.mantissa_lt)
  obtain ⟨lower, upper⟩ := quarters x
  have bit := bitUnits_pos x
  rw [steps_mul_unitsPerOne] at *
  generalize x.mantissa * bitUnits x / (unit * stepsPerOne) = low at below above ⊢
  have next : (low + 1) * (unit * stepsPerOne) =
      low * (unit * stepsPerOne) + unit * stepsPerOne := Nat.succ_mul _ _
  by_cases even : x.mantissa % 2 = 0
  · rw [readsBack_even even, readsBack_even even, lower, upper]
    rcases belowQuarters_cases x with two | ⟨half, power⟩
    · have wide : belowQuarters x * bitUnits x = 2 * bitUnits x := by rw [two]
      omega
    · have narrow : belowQuarters x * bitUnits x = bitUnits x := by rw [half, Nat.one_mul]
      have value : x.mantissa * bitUnits x = 2 ^ 52 * bitUnits x := by rw [power]
      omega
  · rw [readsBack_odd even, readsBack_odd even, lower, upper]
    rcases belowQuarters_cases x with two | ⟨-, power⟩
    · have wide : belowQuarters x * bitUnits x = 2 * bitUnits x := by rw [two]
      omega
    · omega

theorem readsBack_of_candidate? {unit c : Nat} (found : candidate? x unit = some c) :
    readsBack x c unit = true ∧ c ≤ x.steps * unitsPerOne / (unit * stepsPerOne) + 1 := by
  rw [candidate?_eq] at found
  exact choose_eq_some found

/-- What reads back is at most half of a float's last bit above it. -/
theorem le_of_readsBack {c unit : Nat} (good : readsBack x c unit = true) :
    4 * (c * (unit * stepsPerOne)) ≤ (4 * x.mantissa + 2) * bitUnits x := by
  by_cases even : x.mantissa % 2 = 0
  · exact ((readsBack_even even).1 good).2
  · exact ((readsBack_odd even).1 good).2.le

theorem pos_of_readsBack {c unit : Nat} (nonzero : 0 < x.mantissa)
    (good : readsBack x c unit = true) : 0 < c := by
  refine Nat.pos_of_ne_zero ?_
  rintro rfl
  have below : 0 < (4 * x.mantissa - belowQuarters x) * bitUnits x := by
    refine Nat.mul_pos ?_ (bitUnits_pos x)
    rcases belowQuarters_cases x with two | ⟨half, -⟩ <;> omega
  by_cases even : x.mantissa % 2 = 0
  · have := ((readsBack_even even).1 good).1
    omega
  · have := ((readsBack_odd even).1 good).1
    omega

def wholeUnits (x : Binary64) : Nat := x.steps * unitsPerOne / stepsPerOne

def unitsSize (x : Binary64) : Nat := (Nat.toDigits 10 (wholeUnits x)).length

theorem wholeUnits_lt (x : Binary64) : wholeUnits x < 10 ^ unitsSize x :=
  (Nat.length_toDigits_le_iff (by decide) (List.length_pos_iff.2 Nat.toDigits_ne_nil)).1 le_rfl

theorem le_wholeUnits (nonzero : 0 < x.mantissa) :
    17 ≤ unitsSize x ∧ 10 ^ (unitsSize x - 1) ≤ wholeUnits x := by
  have many : 10 ^ 17 ≤ wholeUnits x := by
    have steps : 0 < x.steps := Nat.mul_pos nonzero (Nat.pow_pos (by decide))
    rw [wholeUnits, Nat.le_div_iff_mul_le Numeral.stepsPerOne_pos]
    exact le_unitsPerOne.trans (Nat.le_mul_of_pos_left _ steps)
  have size : 17 < unitsSize x := by
    by_contra small
    have := (Nat.length_toDigits_le_iff (b := 10) (by decide) (by decide)).1 (not_lt.1 small)
    omega
  refine ⟨size.le, ?_⟩
  by_contra few
  have := (Nat.length_toDigits_le_iff (b := 10) (by decide) (by omega)).2 (not_le.1 few)
  rw [← unitsSize] at this
  omega

def attempt? (x : Binary64) (count : Nat) : Option Decimal :=
  (candidate? x (Nat.pow 10 (unitsSize x - count))).map (ofScaled · (unitsSize x - count - 400))

theorem shortest_of_attempt? (nonzero : x.isZero = false) {d : Decimal}
    (found : (List.range 17).findSome? (fun i => attempt? x (i + 1)) = some d) :
    shortest x = d := by
  have written : ∀ other : Decimal,
      ((List.range 17).findSome? fun i => attempt? x (i + 1)).getD other = d := by
    simp [found]
  rw [shortest, if_neg (by simp [nonzero])]
  exact written _

/-- The decimal that is written for a float has at most seventeen digits, or is `10^17`, and reads
back as the float. -/
theorem shortest_eq (nonzero : x.isZero = false) :
    ∃ n fine : Nat, 0 < n ∧ n ≤ 10 ^ 17 ∧ readsBack x n (10 ^ fine) = true ∧
      shortest x = ofScaled n (fine - 400) := by
  have positive : 0 < x.mantissa := Nat.pos_of_ne_zero (by simpa [Binary64.isZero] using nonzero)
  obtain ⟨size, least⟩ := le_wholeUnits positive
  -- with seventeen digits an attempt succeeds
  have last : (attempt? x 17).isSome := by
    rw [attempt?, Option.isSome_map]
    have split : unitsSize x - 1 = 16 + (unitsSize x - 17) := by omega
    rw [split, pow_add, wholeUnits, Nat.le_div_iff_mul_le Numeral.stepsPerOne_pos, mul_assoc] at least
    exact candidate?_isSome (Nat.pow_pos (by decide)) least
  have attempted : ((List.range 17).findSome? fun i => attempt? x (i + 1)).isSome :=
    List.findSome?_isSome_iff.2 ⟨16, List.mem_range.2 (by decide), last⟩
  obtain ⟨d, found⟩ := Option.isSome_iff_exists.1 attempted
  rw [shortest_of_attempt? nonzero found]
  obtain ⟨i, member, chosen⟩ := List.exists_of_findSome?_eq_some found
  have small : i < 17 := List.mem_range.1 member
  obtain ⟨n, candidate, rfl⟩ := Option.map_eq_some_iff.1 chosen
  obtain ⟨good, bound⟩ := readsBack_of_candidate? candidate
  refine ⟨n, unitsSize x - (i + 1), pos_of_readsBack positive good, ?_, good, ?_⟩
  · have digits : wholeUnits x / 10 ^ (unitsSize x - (i + 1)) < 10 ^ (i + 1) := by
      rw [Nat.div_lt_iff_lt_mul (by positivity), ← pow_add]
      rw [Nat.add_sub_cancel' (by omega)]
      exact wholeUnits_lt x
    have few : 10 ^ (i + 1) ≤ 10 ^ 17 := Nat.pow_le_pow_right (by decide) small
    rw [Nat.mul_comm (Nat.pow 10 _), ← Nat.div_div_eq_div_mul] at bound
    exact bound.trans (digits.trans_le few)
  · congr 1
    omega

def IsLast (x : Binary64) : Prop := x.mantissa = 2 ^ 53 - 1 ∧ x.exponent = 2045

open Numeral Binary64 in
theorem gap_below_last : (2 ^ 55 - 6) * (lastBit * unitsPerOne) <
    4 * (lastDecimal * 10 ^ 292 * unitsPerOne * stepsPerOne) := by
  decide +kernel

open Numeral Binary64 in
/-- What reads back as a float other than the largest one is below the decimal of that. -/
theorem lt_lastDecimal {n fine : Nat} (good : readsBack x n (10 ^ fine) = true)
    (inner : ¬IsLast x) : n * 10 ^ fine < lastDecimal * 10 ^ 292 * unitsPerOne := by
  have widest : (4 * x.mantissa + 2) * Nat.pow 2 x.exponent ≤ (2 ^ 55 - 6) * lastBit := by
    have fits : x.mantissa < 2 ^ 53 := x.mantissa_lt
    rcases eq_or_lt_of_le x.exponent_le with top | lower
    · have other : x.mantissa ≠ 2 ^ 53 - 1 := fun same => inner ⟨same, top⟩
      have power : Nat.pow 2 x.exponent = lastBit := by rw [lastBit, ← top, Nat.pow_eq]
      rw [power]
      exact Nat.mul_le_mul_right _ (by omega)
    · have power : 2 * Nat.pow 2 x.exponent ≤ lastBit := by
        rw [lastBit]
        exact two_mul_pow_le lower
      calc (4 * x.mantissa + 2) * Nat.pow 2 x.exponent
          ≤ 2 ^ 54 * (2 * Nat.pow 2 x.exponent) := by
            rw [← mul_assoc]
            exact Nat.mul_le_mul_right _ (by omega)
        _ ≤ 2 ^ 54 * lastBit := Nat.mul_le_mul_left _ power
        _ ≤ (2 ^ 55 - 6) * lastBit := Nat.mul_le_mul_right _ (by decide)
  have gap := gap_below_last
  generalize lastDecimal * 10 ^ 292 * unitsPerOne = limit at gap ⊢
  generalize lastBit = bit at widest gap
  refine Nat.lt_of_mul_lt_mul_left (a := 4 * stepsPerOne) ?_
  calc 4 * stepsPerOne * (n * 10 ^ fine)
      = 4 * (n * (10 ^ fine * stepsPerOne)) := by ring
    _ ≤ (4 * x.mantissa + 2) * (Nat.pow 2 x.exponent * unitsPerOne) := le_of_readsBack good
    _ ≤ (2 ^ 55 - 6) * (bit * unitsPerOne) := by
      rw [← mul_assoc, ← mul_assoc]
      exact Nat.mul_le_mul_right _ widest
    _ < 4 * (limit * stepsPerOne) := gap
    _ = 4 * stepsPerOne * limit := by ring

end Decimal

end Fixture
