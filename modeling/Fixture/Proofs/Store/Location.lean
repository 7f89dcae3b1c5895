import Fixture.Proofs.Host.Tree
import Fixture.Store.Basic

/-!
Opening of stores. The directory is made unless it is there, and nothing else changes. A store never is
in the directory with the empty path unless that is asked for.
-/

namespace Fixture

open Memory (run Making)

variable {m m' : Memory} {directory : String} {store : Store} {l : Location}

namespace Location

theorem path?_ofVariable (value : Option String) : (ofVariable value).path? ≠ some "" := by
  intro empty
  rw [path?, ofVariable] at empty
  split at empty
  next path found =>
    obtain rfl := Option.some.inj empty
    exact absurd (Option.filter_eq_some_iff.1 found).2 (by decide)
  · cases empty

theorem pathFrom_ne (named : l.path? ≠ some "") (current : String) : l.pathFrom current ≠ "" := by
  have relative : defaultPath.toList.head? ≠ some '/' := by decide
  have given : defaultPath ≠ "" := by decide
  rw [pathFrom]
  cases found : l.path? with
  | some path => exact fun empty => named (found.trans (congrArg some empty))
  | none =>
    rw [Option.getD_none, Path.join, if_neg relative]
    split <;> exact fun empty => given (String.append_eq_empty_iff.1 empty).2

end Location

namespace Store

theorem making_inDirectory (directory : String) :
    Making (inDirectory directory : ExceptT StoreError (StateM Memory) Store) :=
  (Memory.making_makeDirectories _ _).bind fun _ => Memory.making_pure _

theorem making_atLocation (l : Location) :
    Making (atLocation l : ExceptT StoreError (StateM Memory) Store) := by
  rw [atLocation]
  split
  · exact making_inDirectory _
  · exact (Memory.making_during _ fun _ => rfl).bind fun _ => making_inDirectory _

theorem directory_of_inDirectory (opened : run (inDirectory directory) m = (.ok store, m')) :
    store.directory = directory := by
  obtain ⟨_, m₁, -, rest⟩ := Memory.bind_ok opened
  obtain ⟨same, -⟩ := Prod.mk.inj rest
  rw [← Except.ok.inj same]

theorem directory_of_atLocation (named : l.path? ≠ some "")
    (opened : run (atLocation l) m = (.ok store, m')) : store.directory ≠ "" := by
  rw [atLocation] at opened
  split at opened
  next path found =>
    rw [directory_of_inDirectory opened]
    exact fun empty => named (found.trans (congrArg some empty))
  · obtain ⟨current, m₁, -, rest⟩ := Memory.bind_ok opened
    rw [directory_of_inDirectory rest]
    exact Location.pathFrom_ne named current

end Store

end Fixture
