import Fixture.Store.Record
import Mathlib.Data.String.Basic
import Mathlib.Order.Defs.LinearOrder

/-!
The order of records in a list: by the time of their making, and then by their ids. It is total, so
that any records can be sorted.
-/

namespace Fixture

open Std (OrientedCmp TransCmp)

namespace Timestamp

theorem compare_eq_compareLex : Timestamp.compare =
    compareLex (compareOn Timestamp.day)
      (compareLex (compareOn Timestamp.second) (compareOn Timestamp.nanosecond)) := rfl

instance : TransCmp Timestamp.compare := compare_eq_compareLex ▸ inferInstance

theorem compare_eq_eq_iff {t u : Timestamp} : t.compare u = .eq ↔ t = u := by
  obtain ⟨day, second, nanosecond⟩ := t
  obtain ⟨day', second', nanosecond'⟩ := u
  simp [Timestamp.compare, Ordering.then_eq_eq]

end Timestamp

namespace Record

variable {r s t : Record}

def order : Record → Record → Ordering :=
  compareLex (fun r s => r.createdAt.compare s.createdAt) (compareOn id)

theorem isBefore_eq : r.isBefore s = (order r s).isLE := rfl

instance : TransCmp fun r s : Record => r.createdAt.compare s.createdAt where
  eq_swap {r s} := @OrientedCmp.eq_swap _ Timestamp.compare _ r.createdAt s.createdAt
  isLE_trans {r s t} first second :=
    @TransCmp.isLE_trans _ Timestamp.compare _ r.createdAt s.createdAt t.createdAt first second

instance : TransCmp order := inferInstanceAs (TransCmp (compareLex _ _))

theorem isBefore_trans (first : r.isBefore s = true) (second : s.isBefore t = true) :
    r.isBefore t = true := by
  rw [isBefore_eq] at *
  exact TransCmp.isLE_trans first second

theorem isBefore_total (r s : Record) : (r.isBefore s || s.isBefore r) = true := by
  have swapped : order s r = (order r s).swap := OrientedCmp.eq_swap
  rw [isBefore_eq, isBefore_eq, swapped]
  cases order r s <;> rfl

theorem isBefore_iff_le : r.isBefore s = true ↔
    r.createdAt.compare s.createdAt = .lt ∨ r.createdAt = s.createdAt ∧ r.id ≤ s.id := by
  rw [isBefore, ← Timestamp.compare_eq_eq_iff]
  cases r.createdAt.compare s.createdAt with
  | lt => simp
  | gt => simp
  | eq =>
    rcases lt_trichotomy r.id s.id with less | same | greater
    · simp [less.le, compare_lt_iff_lt.2 less]
    · simp [same]
    · simp [compare_gt_iff_gt.2 greater, not_le_of_gt greater]

theorem isBefore_iff (different : r.id ≠ s.id) : r.isBefore s = true ↔
    r.createdAt.compare s.createdAt = .lt ∨ r.createdAt = s.createdAt ∧ r.id < s.id := by
  rw [isBefore_iff_le, lt_iff_le_and_ne, and_iff_left different]

theorem same_of_isBefore (first : r.isBefore s = true) (second : s.isBefore r = true) :
    r.createdAt = s.createdAt ∧ r.id = s.id := by
  have swapped : order s r = (order r s).swap := OrientedCmp.eq_swap
  rw [isBefore_eq] at first second
  rw [swapped] at second
  obtain ⟨age, ids⟩ := Ordering.then_eq_eq.1 (Ordering.eq_eq_of_isLE_of_isLE_swap first second)
  exact ⟨Timestamp.compare_eq_eq_iff.1 age, compare_eq_iff_eq.1 ids⟩

theorem pairwise_mergeSort (rs : List Record) :
    (rs.mergeSort isBefore).Pairwise fun r s => r.isBefore s = true := by
  refine List.pairwise_mergeSort (fun r s t first second => ?_) isBefore_total rs
  exact isBefore_trans first second

end Record

end Fixture
