import Fixture.Number.Numeral
import Mathlib.Tactic.Linarith
import Mathlib.Tactic.Ring

/-!
How far rounding goes. A quotient that is not beyond the largest float has a nearest float, which is
above the quotient by at most one part in `2^53`. So a decimal that is a little below the limit is
read, although its reading rounds three times.
-/

namespace Fixture

namespace Binary64

theorem roundDiv_le_succ (num den : Nat) : roundDiv num den ≤ num / den + 1 := by
  unfold roundDiv
  simp only
  split <;> omega

theorem le_roundDiv (num den : Nat) : num / den ≤ roundDiv num den := by
  unfold roundDiv
  simp only
  split <;> omega

theorem two_mul_roundDiv_le (num den : Nat) : 2 * (roundDiv num den * den) ≤ 2 * num + den := by
  have whole : num / den * den + num % den = num := Nat.div_add_mod' num den
  unfold roundDiv
  simp only
  split
  next up =>
    have carried : (num / den + 1) * den = num / den * den + den := by ring
    omega
  next down => omega

theorem steps_pack {negative : Bool} {mantissa exponent : Nat} {x : Binary64}
    (packed : pack? negative mantissa exponent = some x) :
    x.steps = mantissa * 2 ^ exponent := by
  unfold pack? at packed
  split at packed
  next carried =>
    have doubled : x.steps = mantissaLimit / 2 * 2 ^ (exponent + 1) := by
      rw [← Option.some.inj packed]
      rfl
    have even : mantissaLimit / 2 * 2 = mantissaLimit := by decide
    rw [doubled, carried.1, pow_succ', ← mul_assoc, even]
  · split at packed
    · rw [← Option.some.inj packed, steps]
      rfl
    · cases packed

def exponentOf (num den : Nat) : Nat := (num / den).log2 - 52

theorem div_lt_exponentOf (num den : Nat) :
    num / (den * 2 ^ exponentOf num den) < 2 ^ 53 := by
  have bound : num / den < 2 ^ (53 + exponentOf num den) := by
    refine lt_of_lt_of_le Nat.lt_log2_self (Nat.pow_le_pow_right (by decide) ?_)
    unfold exponentOf
    omega
  rw [← Nat.div_div_eq_div_mul, Nat.div_lt_iff_lt_mul (by positivity), ← pow_add]
  exact bound

theorem le_div_exponentOf {num den : Nat} (large : 0 < exponentOf num den) :
    2 ^ 52 ≤ num / (den * 2 ^ exponentOf num den) := by
  have size : (num / den).log2 = 52 + exponentOf num den := by
    unfold exponentOf at large ⊢
    omega
  have positive : num / den ≠ 0 := by
    intro zero
    rw [zero] at size
    simp at size
    omega
  have bound : 2 ^ (52 + exponentOf num den) ≤ num / den := size ▸ Nat.log2_self_le positive
  rw [← Nat.div_div_eq_div_mul, Nat.le_div_iff_mul_le (by positivity), ← pow_add]
  exact bound

def lastBit : Nat := 2 ^ 2045

/-- Below the middle between the largest float and the next power of two. -/
def InRange (num den : Nat) : Prop := 2 * num < (2 ^ 54 - 1) * (lastBit * den)

theorem two_mul_pow_le {k n : Nat} (less : k < n) : 2 * 2 ^ k ≤ 2 ^ n := by
  rw [← pow_succ']
  exact Nat.pow_le_pow_right (by decide) less

theorem exponentOf_le {num den : Nat} (below : InRange num den) : exponentOf num den ≤ 2045 := by
  by_contra beyond
  have scaled : 2 ^ 52 ≤ num / (den * 2 ^ exponentOf num den) := le_div_exponentOf (by omega)
  have power : 2 * lastBit ≤ 2 ^ exponentOf num den := by
    rw [lastBit]
    exact two_mul_pow_le (by omega)
  have whole : 2 ^ 52 * (den * (2 * lastBit)) ≤ num :=
    calc 2 ^ 52 * (den * (2 * lastBit))
        ≤ num / (den * 2 ^ exponentOf num den) * (den * 2 ^ exponentOf num den) := by gcongr
      _ ≤ num := Nat.div_mul_le_self _ _
  have regrouped : 2 ^ 52 * (den * (2 * lastBit)) = 2 ^ 53 * (lastBit * den) := by ring
  unfold InRange at below
  omega

/-- A mantissa that carries past the largest float would be out of range. -/
theorem roundDiv_lt {num den : Nat} (below : InRange num den) (last : exponentOf num den = 2045) :
    roundDiv num (den * 2 ^ exponentOf num den) < 2 ^ 53 := by
  have unit : den * 2 ^ exponentOf num den = lastBit * den := by rw [last, lastBit, mul_comm]
  by_contra carried
  have half := two_mul_roundDiv_le num (den * 2 ^ exponentOf num den)
  have whole : 2 ^ 53 * (den * 2 ^ exponentOf num den) ≤
      roundDiv num (den * 2 ^ exponentOf num den) * (den * 2 ^ exponentOf num den) :=
    Nat.mul_le_mul_right _ (not_lt.1 carried)
  unfold InRange at below
  rw [unit] at half whole
  omega

theorem ofSteps?_eq_some {num den : Nat} (below : InRange num den) (negative : Bool) :
    ∃ x, ofSteps? negative num den = some x ∧
      x.steps = roundDiv num (den * 2 ^ exponentOf num den) * 2 ^ exponentOf num den := by
  have found : ∃ x, ofSteps? negative num den = some x := by
    have upper := div_lt_exponentOf num den
    have near := roundDiv_le_succ num (den * 2 ^ exponentOf num den)
    have bounded := exponentOf_le below
    unfold ofSteps?
    simp only [Nat.pow_eq]
    rw [show (num / den).log2 - 52 = exponentOf num den from rfl]
    unfold pack?
    split
    · exact ⟨_, rfl⟩
    next uncarried =>
      have fits : roundDiv num (den * 2 ^ exponentOf num den) < mantissaLimit ∧
          (exponentOf num den = 0 ∨
            mantissaLimit / 2 ≤ roundDiv num (den * 2 ^ exponentOf num den)) ∧
          exponentOf num den ≤ 2045 := by
        refine ⟨?_, ?_, bounded⟩
        · have limit : mantissaLimit = 2 ^ 53 := rfl
          rcases eq_or_lt_of_le bounded with top | inner
          · exact roundDiv_lt below top
          · have other : roundDiv num (den * 2 ^ exponentOf num den) ≠ mantissaLimit :=
              fun same => uncarried ⟨same, inner⟩
            omega
        · rcases Nat.eq_zero_or_pos (exponentOf num den) with zero | large
          · exact .inl zero
          · exact .inr ((le_div_exponentOf large).trans (le_roundDiv _ _))
      rw [dif_pos fits]
      exact ⟨_, rfl⟩
  obtain ⟨x, rounded⟩ := found
  refine ⟨x, rounded, ?_⟩
  unfold ofSteps? at rounded
  simp only [Nat.pow_eq] at rounded
  exact steps_pack rounded

/-- Where a quotient has all the bits of a mantissa, rounding adds at most one part in `2^53`. -/
theorem steps_ofSteps?_le {num den : Nat} (below : InRange num den) (large : 2 ^ 52 * den ≤ num)
    (negative : Bool) :
    ∃ x, ofSteps? negative num den = some x ∧ 2 ^ 53 * (x.steps * den) ≤ (2 ^ 53 + 1) * num := by
  obtain ⟨x, rounded, steps⟩ := ofSteps?_eq_some below negative
  refine ⟨x, rounded, ?_⟩
  have half := two_mul_roundDiv_le num (den * 2 ^ exponentOf num den)
  have unit : 2 ^ 52 * (den * 2 ^ exponentOf num den) ≤ num := by
    rcases Nat.eq_zero_or_pos (exponentOf num den) with zero | positive
    · rw [zero, pow_zero, mul_one]
      exact large
    · calc 2 ^ 52 * (den * 2 ^ exponentOf num den)
          ≤ num / (den * 2 ^ exponentOf num den) * (den * 2 ^ exponentOf num den) :=
            Nat.mul_le_mul_right _ (le_div_exponentOf positive)
        _ ≤ num := Nat.div_mul_le_self _ _
  have regrouped : x.steps * den =
      roundDiv num (den * 2 ^ exponentOf num den) * (den * 2 ^ exponentOf num den) := by
    rw [steps]
    ring
  rw [regrouped]
  omega

end Binary64

namespace Numeral

open Binary64

/-- A decimal up to which reading never goes beyond the largest float. -/
def safeLimit : Nat := 17976931348623154 * 10 ^ 292

theorem safeLimit_lt :
    2 * ((2 ^ 53 + 1) * (2 ^ 53 + 1) * (safeLimit * stepsPerOne)) <
      2 ^ 106 * ((2 ^ 54 - 1) * lastBit) := by
  decide +kernel

theorem two_pow_le {k n : Nat} (le : k ≤ n) : 2 ^ k ≤ Nat.pow 2 n :=
  Nat.pow_le_pow_right (by decide) le

theorem le_stepsPerOne : 2 ^ 52 ≤ stepsPerOne := by
  unfold stepsPerOne
  apply two_pow_le
  decide

theorem stepsPerOne_pos : 0 < stepsPerOne :=
  Nat.lt_of_lt_of_le (by decide) le_stepsPerOne

theorem ofNat?_eq_some {n : Nat} (positive : 0 < n) (below : n ≤ safeLimit) :
    ∃ x, ofNat? n = some x ∧ 2 ^ 53 * x.steps ≤ (2 ^ 53 + 1) * (n * stepsPerOne) := by
  have scaled : n * stepsPerOne ≤ safeLimit * stepsPerOne := Nat.mul_le_mul_right _ below
  have limit := safeLimit_lt
  have inRange : InRange (n * stepsPerOne) 1 := by
    unfold InRange
    omega
  have large : 2 ^ 52 * 1 ≤ n * stepsPerOne := by
    exact le_stepsPerOne.trans (Nat.le_mul_of_pos_left _ positive)
  obtain ⟨x, rounded, bound⟩ := steps_ofSteps?_le inRange large false
  exact ⟨x, rounded, by rwa [mul_one] at bound⟩

theorem scaled?_isSome_of_le {v k : Nat} (positive : 0 < v) (small : k ≤ 308)
    (below : v * 10 ^ k ≤ safeLimit) : (scaled? v k).isSome := by
  have power : 0 < 10 ^ k := by positivity
  obtain ⟨x, first, bound⟩ :=
    ofNat?_eq_some positive ((Nat.le_mul_of_pos_right v power).trans below)
  obtain ⟨y, second, bound'⟩ :=
    ofNat?_eq_some power ((Nat.le_mul_of_pos_left (10 ^ k) positive).trans below)
  have inRange : InRange (x.steps * y.steps) stepsPerOne := by
    have product := Nat.mul_le_mul bound bound'
    have scaled : v * 10 ^ k * stepsPerOne ≤ safeLimit * stepsPerOne :=
      Nat.mul_le_mul_right _ below
    refine Nat.lt_of_mul_lt_mul_left (a := 2 ^ 106) ?_
    calc 2 ^ 106 * (2 * (x.steps * y.steps))
        = 2 * (2 ^ 53 * x.steps * (2 ^ 53 * y.steps)) := by ring
      _ ≤ 2 * ((2 ^ 53 + 1) * (v * stepsPerOne) * ((2 ^ 53 + 1) * (10 ^ k * stepsPerOne))) :=
          Nat.mul_le_mul_left 2 product
      _ = 2 * ((2 ^ 53 + 1) * (2 ^ 53 + 1) * (v * 10 ^ k * stepsPerOne)) * stepsPerOne := by ring
      _ ≤ 2 * ((2 ^ 53 + 1) * (2 ^ 53 + 1) * (safeLimit * stepsPerOne)) * stepsPerOne := by gcongr
      _ < 2 ^ 106 * ((2 ^ 54 - 1) * lastBit) * stepsPerOne :=
          Nat.mul_lt_mul_of_pos_right safeLimit_lt stepsPerOne_pos
      _ = 2 ^ 106 * ((2 ^ 54 - 1) * (lastBit * stepsPerOne)) := by ring
  obtain ⟨z, rounded, -⟩ := ofSteps?_eq_some inRange (x.negative != y.negative)
  have tenth : powerOfTen k = y := by
    rw [powerOfTen, Nat.pow_eq, second]
    rfl
  have nonneg : ¬(k : Int) < 0 := by omega
  have bounded : (k : Int) ≤ 308 := by omega
  simp only [scaled?, first, Option.bind_eq_bind, Option.bind_some, if_neg nonneg, if_pos bounded,
    Int.toNat_natCast, tenth, mul?, rounded, Option.isSome_some]

theorem scaled?_isSome_of_neg {v : Nat} {k : Int} (falling : k < 0) (below : v ≤ safeLimit) :
    (scaled? v k).isSome := by
  have scaled : v * stepsPerOne ≤ safeLimit * stepsPerOne := Nat.mul_le_mul_right _ below
  have limit := safeLimit_lt
  have inRange : InRange (v * stepsPerOne) 1 := by
    unfold InRange
    omega
  obtain ⟨x, rounded, -⟩ := ofSteps?_eq_some inRange false
  have first : ofNat? v = some x := rounded
  simp only [scaled?, first, Option.bind_eq_bind, Option.bind_some, if_pos falling,
    Option.isSome_some]

/-- The largest float to 17 digits, as a whole number of `10^292`. -/
def lastDecimal : Nat := 17976931348623157

/-- A decimal of at most 17 digits below the one of the largest float is read as a float. Only two
of them are so near to it that rounding has to be looked at. -/
theorem scaled?_isSome_of_lt {v k : Nat} (positive : 0 < v) (digits : v ≤ 10 ^ 17)
    (below : v * 10 ^ k < lastDecimal * 10 ^ 292) : (scaled? v k).isSome := by
  rcases Nat.lt_or_ge k 292 with small | large
  · refine scaled?_isSome_of_le positive (by omega) ?_
    calc v * 10 ^ k ≤ 10 ^ 17 * 10 ^ 291 := by gcongr <;> omega
      _ = 10 ^ 16 * 10 ^ 292 := by rw [← pow_add, ← pow_add]
      _ ≤ safeLimit := Nat.mul_le_mul_right _ (by decide)
  obtain ⟨j, rfl⟩ := Nat.exists_eq_add_of_le large
  have regrouped : v * 10 ^ (292 + j) = v * 10 ^ j * 10 ^ 292 := by
    rw [pow_add, ← mul_assoc, mul_right_comm]
  rw [regrouped] at below
  have least : v * 10 ^ j < lastDecimal := Nat.lt_of_mul_lt_mul_right below
  unfold lastDecimal at least
  rcases Nat.lt_or_ge (v * 10 ^ j) 17976931348623155 with safe | near
  · refine scaled?_isSome_of_le positive ?_ ?_
    · have power : 10 ^ j < 10 ^ 17 :=
        ((Nat.le_mul_of_pos_left (10 ^ j) positive).trans_lt safe).trans (by decide)
      have := (Nat.pow_lt_pow_iff_right (a := 10) (by decide)).1 power
      omega
    · rw [regrouped, safeLimit]
      exact Nat.mul_le_mul_right _ (by omega)
  · cases j with
    | zero =>
      rw [pow_zero, mul_one] at near least
      obtain rfl | rfl : v = 17976931348623155 ∨ v = 17976931348623156 := by omega
      · decide +kernel
      · decide +kernel
    | succ j =>
      have tens : v * 10 ^ (j + 1) = 10 * (v * 10 ^ j) := by ring
      omega

end Numeral

end Fixture
