import Fixture.Host.Fresh
import Fixture.Proofs.Host.Place
import Mathlib.Data.List.Perm.Subperm

/-!
The search for a free name. It ends, since among more numbers than there are names one has a name
that is not taken.
-/

namespace Fixture

inductive Search (taken : Nat → Prop) : Nat → Nat → Prop where
  | stop {n : Nat} (free : ¬taken n) : Search taken n n
  | next {n k : Nat} (here : taken n) (later : Search taken (n + 1) k) : Search taken n k

namespace Search

variable {taken : Nat → Prop} {n k i : Nat}

theorem free (search : Search taken n k) : ¬taken k := by
  induction search with
  | stop free => exact free
  | next _ _ ih => exact ih

/-- Whatever the search passes is taken, so that it does not get beyond a free number. -/
theorem le_of_free (search : Search taken n k) (after : n ≤ i) (free : ¬taken i) : k ≤ i := by
  induction search with
  | stop => exact after
  | next here _ ih =>
    rcases Nat.eq_or_lt_of_le after with rfl | beyond
    · exact absurd here free
    · exact ih beyond

end Search

def freeNumber (isTaken : Nat → Bool) (tries : Nat) : Nat :=
  Id.run (firstFree (fun n => pure (isTaken n)) tries 1)

section

variable {isTaken : Nat → Bool} {tries n i : Nat}

theorem run_firstFree_succ (isTaken : Nat → Bool) (tries n : Nat) :
    Id.run (firstFree (fun n => pure (isTaken n)) (tries + 1) n) =
      if isTaken n then Id.run (firstFree (fun n => pure (isTaken n)) tries (n + 1)) else n := by
  rw [firstFree]
  cases isTaken n <;> rfl

theorem freeNumber_of_free (free : isTaken 1 = false) (tries : Nat) :
    freeNumber isTaken (tries + 1) = 1 := by
  rw [freeNumber, run_firstFree_succ, free]
  rfl

/-- With a free number among those that are tried, the search goes on until it finds one. -/
theorem search_firstFree (free : isTaken i = false) (after : n ≤ i) (soon : i < n + tries) :
    Search (isTaken · = true) n (Id.run (firstFree (fun n => pure (isTaken n)) tries n)) := by
  induction tries generalizing n with
  | zero => omega
  | succ tries ih =>
    rw [run_firstFree_succ]
    cases here : isTaken n with
    | false => exact .stop (by simp [here])
    | true =>
      have beyond : n ≠ i := by
        rintro rfl
        rw [free] at here
        cases here
      exact .next here (ih (by omega) (by omega))

variable {α : Type} {name : Nat → α} {names : List α}

theorem exists_free (distinct : Function.Injective fun n => name (n + 1))
    (listed : ∀ n, isTaken n = true → name n ∈ names) :
    ∃ i, 1 ≤ i ∧ i ≤ names.length + 1 ∧ isTaken i = false := by
  by_contra full
  push Not at full
  have inside : (List.range (names.length + 1)).map (fun n => name (n + 1)) ⊆ names := by
    intro text member
    obtain ⟨n, ranged, rfl⟩ := List.mem_map.1 member
    have few := List.mem_range.1 ranged
    have barred := full (n + 1) (by omega) (by omega)
    exact listed _ (by simpa using barred)
  have short := ((List.Nodup.map distinct List.nodup_range).subperm inside).length_le
  simp only [List.length_map, List.length_range] at short
  omega

/-- The search ends at a free number after one try more than there are names at most. -/
theorem freeNumber_free (name : Nat → α) (distinct : Function.Injective fun n => name (n + 1))
    (listed : ∀ n, isTaken n = true → name n ∈ names) (room : names.length < tries) :
    Search (isTaken · = true) 1 (freeNumber isTaken tries) ∧
      freeNumber isTaken tries ≤ names.length + 1 := by
  obtain ⟨i, positive, few, free⟩ := exists_free distinct listed
  have search : Search (isTaken · = true) 1 (freeNumber isTaken tries) :=
    search_firstFree free positive (by omega)
  exact ⟨search, Nat.le_trans (search.le_of_free positive (by simp [free])) few⟩

end

theorem firstFree_memory {m : Memory} (look : Nat → StateM Memory Bool) (isTaken : Nat → Bool)
    (looks : ∀ n, look n m = (isTaken n, m)) (tries n : Nat) :
    firstFree look tries n m =
      (Id.run (firstFree (fun n => pure (isTaken n)) tries n), m) := by
  induction tries generalizing n with
  | zero => rfl
  | succ tries ih =>
    rw [run_firstFree_succ, firstFree]
    show (match look n m with
      | (taken, left) => (if taken then firstFree look tries (n + 1) else pure n) left) = _
    rw [looks]
    cases isTaken n with
    | false => rfl
    | true => exact ih (n + 1)

/-- What a search over the numbered names in a directory comes to: it ends at a number after one try
more than there are names in the directory at most, and if the path of the name there is not too
long, the name is not in the directory. -/
structure FindsFree (m : Memory) (directory : String) (name : Nat → String) (n : Nat) : Prop where
  search : Search (fun n => m.files.isTaken m.current (Path.join directory (name n)) = true) 1 n
  tries : n ≤ (m.files.entries m.current directory).length + 1
  free : Files.Fits directory (name n) → name n ∉ m.files.entries m.current directory

theorem findsFree {name : Nat → String} (m : Memory) (directory : String)
    (plain : ∀ n, Path.IsName (name n)) (distinct : Function.Injective fun n => name (n + 1)) :
    FindsFree m directory name (freeNumber
      (fun n => m.files.isTaken m.current (Path.join directory (name n)))
      (m.files.nodes.length + 1)) := by
  obtain ⟨search, tries⟩ := freeNumber_free name distinct
    (fun n => Files.mem_entries_of_isTaken (plain n))
    (Nat.lt_succ_of_le (Files.length_entries_le m.files m.current directory))
  refine ⟨search, tries, fun fits listed => ?_⟩
  cases there : m.files.directory? m.current directory with
  | none =>
    rw [Files.entries, there] at listed
    cases listed
  | some place =>
    rw [Files.entries_of_directory there, Files.mem_namesAt,
      ← Files.isTaken_join there (plain _) fits] at listed
    exact search.free listed

end Fixture
