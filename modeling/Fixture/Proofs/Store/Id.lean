import Fixture.Proofs.Calendar.Stamp
import Fixture.Proofs.Host.Place
import Fixture.Store.Basic

/-!
The ids of records and the names of their files. An id can be told from the name of its file, and a
new id that is made from a time and a number is an id and has a short name.
-/

namespace Fixture

theorem utf8ByteSize_le (text : String) : text.utf8ByteSize ≤ 4 * text.toList.length := by
  induction text using String.push_induction with
  | empty => exact Nat.le_refl 0
  | push front c ih =>
    have four := c.utf8Size_le_four
    rw [String.utf8ByteSize_push, String.toList_push, List.length_append, List.length_singleton]
    omega

theorem length_le_utf8ByteSize (text : String) : text.toList.length ≤ text.utf8ByteSize := by
  induction text using String.push_induction with
  | empty => exact Nat.le_refl 0
  | push front c ih =>
    have positive := c.utf8Size_pos
    rw [String.utf8ByteSize_push, String.toList_push, List.length_append, List.length_singleton]
    omega

namespace Store

variable {id : String} {c : Char}

theorem toList_fileName (id : String) :
    (fileName id).toList = id.toList ++ ['.', 'j', 's', 'o', 'n'] := by
  rw [fileName, String.toList_append]
  rfl

theorem fileName_injective : Function.Injective fileName := by
  intro a b same
  have texts := congrArg String.toList same
  rw [toList_fileName, toList_fileName] at texts
  exact String.toList_inj.1 (List.append_cancel_right texts)

theorem isValidId_iff : isValidId id = true ↔
    id.toList ≠ [] ∧ ∀ c ∈ id.toList, isIdChar c = true := by
  simp [isValidId, List.all_eq_true]

theorem isIdChar_ne {d : Char} (given : isIdChar c = true) (foreign : isIdChar d = false) : c ≠ d := by
  rintro rfl
  rw [given] at foreign
  cases foreign

/-- No id leads out of the directory or hides its file. -/
theorem isName_fileName (valid : isValidId id = true) : Path.IsName (fileName id) := by
  obtain ⟨given, each⟩ := isValidId_iff.1 valid
  have clean {d : Char} (foreign : isIdChar d = false) (ending : d ∉ ['.', 'j', 's', 'o', 'n']) :
      d ∉ (fileName id).toList := by
    rw [toList_fileName, List.mem_append]
    rintro (inside | last)
    · exact isIdChar_ne (each d inside) foreign rfl
    · exact ending last
  have longer (text : String) (short : text.toList.length < 5) : fileName id ≠ text := by
    rintro rfl
    rw [toList_fileName, List.length_append] at short
    simp only [List.length_cons, List.length_nil] at short
    omega
  refine ⟨clean rfl (by decide), clean rfl (by decide), ?_, longer ".." (by decide)⟩
  simp only [Path.isIdle, Bool.or_eq_false_iff, beq_eq_false_iff_ne]
  exact ⟨longer "" (by decide), longer "." (by decide)⟩

theorem isRecordName_fileName (valid : isValidId id = true) : isRecordName (fileName id) = true := by
  obtain ⟨given, -⟩ := isValidId_iff.1 valid
  obtain ⟨c, cs, reversed⟩ := List.exists_cons_of_ne_nil (List.reverse_ne_nil_iff.2 given)
  have ends : (fileName id).toList.reverse = 'n' :: 'o' :: 's' :: 'j' :: '.' :: c :: cs := by
    rw [toList_fileName, List.reverse_append, reversed]
    rfl
  rw [isRecordName, Path.extension?, ends]
  rfl

/-! ## New ids -/

variable {now : Timestamp}

theorem toList_numberedId (now : Timestamp) (n : Nat) : (numberedId now n).toList =
    ['t', 'e', 's', 't', '-'] ++ now.toStamp.toList ++ ['-'] ++ Nat.toDigits 10 n := by
  simp [numberedId, Nat.repr_eq_ofList_toDigits]

theorem numberedId_injective (now : Timestamp) : Function.Injective (numberedId now) := by
  intro i j same
  have texts := congrArg String.toList same
  rw [toList_numberedId, toList_numberedId] at texts
  have digits := List.append_cancel_left texts
  calc
    i = Nat.ofDigitChars 10 (Nat.toDigits 10 i) 0 := Nat.ofDigitChars_ten_toDigits.symm
    _ = Nat.ofDigitChars 10 (Nat.toDigits 10 j) 0 := by rw [digits]
    _ = j := Nat.ofDigitChars_ten_toDigits

theorem isIdChar_of_isDigit (digit : c.isDigit = true) : isIdChar c = true := by
  simp [isIdChar, Char.isAlphanum, digit]

theorem isIdChar_of_mem_toDigits {n : Nat} (member : c ∈ Nat.toDigits 10 n) : isIdChar c = true :=
  isIdChar_of_isDigit (Nat.isDigit_of_mem_toDigits (by decide) (by decide) member)

theorem isIdChar_of_mem_toStamp (ordinary : now.HasFourDigitYear)
    (member : c ∈ now.toStamp.toList) : isIdChar c = true := by
  obtain ⟨date, time, stamp, digits, -⟩ := ordinary.toStamp
  rw [stamp, List.mem_append, List.mem_cons] at member
  rcases member with inside | rfl | inside
  · exact isIdChar_of_isDigit (digits c (List.mem_append_left _ inside))
  · decide
  · exact isIdChar_of_isDigit (digits c (List.mem_append_right _ inside))

theorem isValidId_numberedId (ordinary : now.HasFourDigitYear) (n : Nat) :
    isValidId (numberedId now n) = true := by
  rw [isValidId_iff, toList_numberedId]
  refine ⟨by simp, fun c member => ?_⟩
  simp only [List.mem_append, List.mem_cons, List.not_mem_nil, or_false] at member
  rcases member with ((letter | stamp) | rfl) | number
  · rcases letter with rfl | rfl | rfl | rfl | rfl <;> decide
  · exact isIdChar_of_mem_toStamp ordinary stamp
  · decide
  · exact isIdChar_of_mem_toDigits number

def numberLimit : Nat := 2 ^ 32 - 1

theorem length_fileName_numberedId (ordinary : now.HasFourDigitYear) {n : Nat}
    (small : n ≤ numberLimit) : (fileName (numberedId now n)).toList.length ≤ 36 := by
  obtain ⟨date, time, stamp, -, first, second⟩ := ordinary.toStamp
  have digits : (Nat.toDigits 10 n).length ≤ 10 :=
    Timestamp.length_toDigits_le (by decide) (Nat.lt_of_le_of_lt small (by decide))
  rw [toList_fileName, toList_numberedId, stamp]
  simp only [List.length_append, List.length_cons, List.length_nil, first, second]
  omega

theorem utf8ByteSize_fileName_numberedId (ordinary : now.HasFourDigitYear) {n : Nat}
    (small : n ≤ numberLimit) :
    (fileName (numberedId now n)).utf8ByteSize ≤ Files.nameLimit := by
  have short := length_fileName_numberedId ordinary small
  have bytes := utf8ByteSize_le (fileName (numberedId now n))
  rw [Files.nameLimit]
  omega

end Store

end Fixture
