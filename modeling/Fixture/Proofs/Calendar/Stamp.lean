import Fixture.Calendar.Timestamp
import Mathlib.Algebra.Group.Nat.Defs
import Mathlib.Data.List.Basic
import Mathlib.Tactic.SplitIfs

/-!
The form of a time that is used in names of files. In a year of four digits it has eight digits, a
letter and six digits.
-/

namespace Fixture

namespace CivilDate

theorem ofDays_lt (days : Int) : (ofDays days).month < 100 ∧ (ofDays days).day < 100 := by
  simp only [ofDays]
  split_ifs <;> omega

end CivilDate

namespace Timestamp

theorem length_toDigits_le {n width : Nat} (positive : 0 < width) (small : n < 10 ^ width) :
    (Nat.toDigits 10 n).length ≤ width :=
  (Nat.length_toDigits_le_iff (by decide) positive).2 small

theorem length_padded {n width : Nat} (positive : 0 < width) (small : n < 10 ^ width) :
    (padded width n).toList.length = width := by
  have digits := length_toDigits_le positive small
  simp only [padded, String.toList_ofList, List.length_append, List.length_replicate]
  omega

theorem isDigit_of_mem_padded {n width : Nat} {c : Char} (member : c ∈ (padded width n).toList) :
    c.isDigit = true := by
  simp only [padded, String.toList_ofList, List.mem_append] at member
  rcases member with zero | digit
  · rw [List.eq_of_mem_replicate zero]
    rfl
  · exact Nat.isDigit_of_mem_toDigits (by decide) (by decide) digit

/-- A time that a clock can show, in a year of four digits. -/
structure HasFourDigitYear (t : Timestamp) : Prop where
  year_nonneg : 0 ≤ (CivilDate.ofDays t.day).year
  year_le : (CivilDate.ofDays t.day).year ≤ 9999
  second : t.second < 86400
  nanosecond : t.nanosecond < 2000000000

variable {t : Timestamp}

theorem HasFourDigitYear.toStamp (ordinary : t.HasFourDigitYear) :
    ∃ date time : List Char, t.toStamp.toList = date ++ 'T' :: time ∧
      (∀ c ∈ date ++ time, c.isDigit = true) ∧ date.length = 8 ∧ time.length = 6 := by
  obtain ⟨nonneg, le, second, nanosecond⟩ := ordinary
  obtain ⟨month, day⟩ := CivilDate.ofDays_lt t.day
  have written : yearText (CivilDate.ofDays t.day).year =
      padded 4 (CivilDate.ofDays t.day).year.toNat := if_pos ⟨nonneg, le⟩
  have within : t.secondOfMinute < 10 ^ 2 := by
    rw [secondOfMinute]
    omega
  refine ⟨(padded 4 (CivilDate.ofDays t.day).year.toNat).toList ++
      (padded 2 (CivilDate.ofDays t.day).month).toList ++
      (padded 2 (CivilDate.ofDays t.day).day).toList,
    (padded 2 (t.second / 3600)).toList ++ (padded 2 (t.second / 60 % 60)).toList ++
      (padded 2 t.secondOfMinute).toList, ?_, ?_, ?_, ?_⟩
  · simp [Timestamp.toStamp, format, written]
  · simp only [List.mem_append, or_imp, forall_and]
    refine ⟨⟨⟨?_, ?_⟩, ?_⟩, ⟨?_, ?_⟩, ?_⟩ <;> exact fun c => isDigit_of_mem_padded
  · rw [List.length_append, List.length_append, length_padded (by decide) (by omega),
      length_padded (by decide) month, length_padded (by decide) day]
  · rw [List.length_append, List.length_append, length_padded (by decide) (by omega),
      length_padded (by decide) (by omega), length_padded (by decide) within]

end Timestamp

end Fixture
