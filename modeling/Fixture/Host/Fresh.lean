/-!
Names that are still free. Names are numbered and tried one after the other.
-/

namespace Fixture

/-- The first number from `n` on whose name is not taken. The number of tries bounds the search. -/
def firstFree {m : Type → Type} [Monad m] (isTaken : Nat → m Bool) : (tries n : Nat) → m Nat
  | 0, n => return n
  | tries + 1, n => do
    if ← isTaken n then firstFree isTaken tries (n + 1)
    else return n

end Fixture
