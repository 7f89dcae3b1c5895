import Fixture.Number.Numeral
import Mathlib.Tactic.Linarith
import Mathlib.Tactic.Ring

/-!
The digits of a numeral as it is read. Digits that make up a number below `2^64` are all kept. The
number that is read is an integer of at most 64 bits, or else a float.
-/

namespace Fixture

namespace Number

/-- An integer that has a place in 64 bits, with or without a sign, or a float. -/
def Bounded : Number → Prop
  | .int n => -2 ^ 63 ≤ n ∧ n < 2 ^ 64
  | .float _ => True

end Number

namespace Numeral

def decimalValue (start : Nat) (ds : List Nat) : Nat := ds.foldl (fun v d => v * 10 + d) start

theorem le_decimalValue (start : Nat) (ds : List Nat) : start ≤ decimalValue start ds := by
  induction ds generalizing start with
  | nil => exact le_rfl
  | cons d ds ih => exact le_trans (by omega) (ih (start * 10 + d))

theorem decimalValue_lt {ds : List Nat} (small : ∀ d ∈ ds, d < 10) {start k : Nat}
    (below : start < 10 ^ k) : decimalValue start ds < 10 ^ (k + ds.length) := by
  induction ds generalizing start k with
  | nil => exact below
  | cons d ds ih =>
    obtain ⟨digit, later⟩ := List.forall_mem_cons.1 small
    have next : start * 10 + d < 10 ^ (k + 1) := by
      rw [pow_succ]
      omega
    have length : k + (d :: ds).length = k + 1 + ds.length := by
      rw [List.length_cons]
      omega
    rw [length]
    exact ih later next

namespace Significand

theorem foldl_pushWhole {ds : List Nat} {v : Nat} (fits : decimalValue v ds < UInt64.size) :
    ds.foldl pushWhole ⟨v, 0⟩ = ⟨decimalValue v ds, 0⟩ := by
  induction ds generalizing v with
  | nil => rfl
  | cons d ds ih =>
    have next : v * 10 + d < UInt64.size := (le_decimalValue _ ds).trans_lt fits
    rw [List.foldl_cons, pushWhole, if_pos ⟨rfl, next⟩]
    exact ih fits

theorem pushFraction_eq {ds : List Nat} {s : Significand}
    (fits : decimalValue s.value ds < UInt64.size) :
    s.pushFraction ds = ⟨decimalValue s.value ds, s.scale - ds.length⟩ := by
  induction ds generalizing s with
  | nil => simp [pushFraction, decimalValue]
  | cons d ds ih =>
    have next : s.value * 10 + d < UInt64.size := (le_decimalValue _ ds).trans_lt fits
    rw [pushFraction, if_pos next, ih fits, Significand.mk.injEq]
    refine ⟨rfl, ?_⟩
    rw [List.length_cons]
    push_cast
    ring

theorem scale_pushFraction_le (s : Significand) (ds : List Nat) :
    (s.pushFraction ds).scale ≤ s.scale := by
  induction ds generalizing s with
  | nil => exact le_rfl
  | cons d ds ih =>
    rw [pushFraction]
    split
    · exact (ih _).trans (by simp)
    · exact le_rfl

theorem scale_pushFraction_neg {v d : Nat} (fits : v * 10 + d < UInt64.size) (ds : List Nat) :
    ((⟨v, 0⟩ : Significand).pushFraction (d :: ds)).scale < 0 := by
  rw [pushFraction, if_pos fits]
  exact (scale_pushFraction_le _ ds).trans_lt (by simp)

theorem value_foldl_pushWhole_lt {s : Significand} (fits : s.value < UInt64.size)
    (ds : List Nat) : (ds.foldl pushWhole s).value < UInt64.size := by
  induction ds generalizing s with
  | nil => exact fits
  | cons d ds ih =>
    refine ih ?_
    rw [pushWhole]
    split
    next kept => exact kept.2
    · exact fits

theorem value_pushFraction_lt {s : Significand} (fits : s.value < UInt64.size) (ds : List Nat) :
    (s.pushFraction ds).value < UInt64.size := by
  induction ds generalizing s with
  | nil => exact fits
  | cons d ds ih =>
    rw [pushFraction]
    split
    next kept => exact ih kept
    · exact fits

end Significand

theorem exponentSize?_eq {ds : List Nat} (fits : decimalValue 0 ds < exponentLimit) :
    exponentSize? ds = some (decimalValue 0 ds) := by
  have onward (ds : List Nat) (v : Nat) (fits : decimalValue v ds < exponentLimit) :
      ds.foldl (fun size digit => do
        let next := (← size) * 10 + digit
        if next < exponentLimit then some next else none) (some v) =
          some (decimalValue v ds) := by
    induction ds generalizing v with
    | nil => rfl
    | cons d ds ih =>
      have next : v * 10 + d < exponentLimit := (le_decimalValue _ ds).trans_lt fits
      rw [List.foldl_cons, Option.bind_eq_bind, Option.bind_some, if_pos next]
      exact ih _ fits
  exact onward ds 0 fits

theorem bounded_of_value? {w : Numeral} {n : Number} (read : w.value? = some n) : n.Bounded := by
  have fits : ((w.whole.foldl Significand.pushWhole {}).pushFraction (w.fraction.getD [])).value <
      2 ^ 64 :=
    Significand.value_pushFraction_lt (Significand.value_foldl_pushWhole_lt (by decide) _) _
  have float {o : Option Binary64} {f : Binary64 → Binary64}
      (given : o.map (fun x => Number.float (f x)) = some n) : n.Bounded := by
    obtain ⟨x, -, rfl⟩ := Option.map_eq_some_iff.1 given
    trivial
  unfold value? at read
  simp only at read
  generalize (w.whole.foldl Significand.pushWhole {}).pushFraction (w.fraction.getD []) = s
    at fits read
  split at read
  · split at read
    · obtain rfl := Option.some.inj read
      exact ⟨by omega, by omega⟩
    · split at read
      next negative =>
        obtain rfl := Option.some.inj read
        have half : UInt64.size / 2 = 2 ^ 63 := rfl
        exact ⟨by omega, by omega⟩
      · exact float read
  · exact float read
  · split at read
    · exact float read
    · split at read
      · obtain rfl := Option.some.inj read
        trivial
      · cases read

end Numeral

end Fixture
