import Fixture.Host.Fresh
import Fixture.Host.Memory

/-!
Watching what an operation asks of the files. An operation that is written for any place to run in
runs here as it does in memory, and whatever it asks for is noted. What all of its steps keep to, it
keeps to as a whole.
-/

namespace Fixture

open Memory (run)

inductive Access where
  | readText (path : String)
  | names (directory : String)
  | isTaken (path : String)
  | makeDirectories (directory : String)
  | replaceText (directory path : String)
  | remove (path : String)
deriving DecidableEq

abbrev Watching := StateT (List Access) (StateM Memory)

namespace Watching

variable {ε ε' α β : Type}

def noting (access : Access) (operation : StateM Memory α) : Watching α :=
  fun log m => (((operation m).1, log ++ [access]), (operation m).2)

instance : Host Watching where
  readText path := noting (.readText path) (Host.readText path)
  names path := noting (.names path) (Host.names path)
  isTaken path := noting (.isTaken path) (Host.isTaken path)
  nameBound := liftM (Host.nameBound (m := StateM Memory))
  makeDirectories path := noting (.makeDirectories path) (Host.makeDirectories path)
  replaceText directory path text :=
    noting (.replaceText directory path) (Host.replaceText directory path text)
  remove path := noting (.remove path) (Host.remove path)
  now := liftM (Host.now (m := StateM Memory))
  processId := liftM (Host.processId (m := StateM Memory))
  input := liftM (Host.input (m := StateM Memory))
  storeVariable := liftM (Host.storeVariable (m := StateM Memory))
  temporaryDirectory := liftM (Host.temporaryDirectory (m := StateM Memory))
  currentDirectory := liftM (Host.currentDirectory (m := StateM Memory))

def watch (operation : ExceptT ε Watching α) (log : List Access) (m : Memory) :
    (Except ε α × List Access) × Memory := operation log m

theorem watch_bind (first : ExceptT ε Watching α) (next : α → ExceptT ε Watching β)
    (log : List Access) (m : Memory) :
    watch (first >>= next) log m = match watch first log m with
      | ((.ok a, log), m) => watch (next a) log m
      | ((.error e, log), m) => ((.error e, log), m) := by
  show (match first log m with
    | ((result, log), left) => ExceptT.bindCont next result log left) = _
  simp only [watch]
  obtain ⟨⟨result, more⟩, left⟩ := first log m
  cases result <;> rfl

end Watching

open Watching (watch noting)

variable {ε ε' α β : Type} {P : Access → Prop}

/-- An operation runs the same when it is watched, and all that it asks for is allowed. -/
def Watches (P : Access → Prop) (watched : ExceptT ε Watching α)
    (plain : ExceptT ε (StateM Memory) α) : Prop :=
  ∀ log m, ∃ more, watch watched log m = (((run plain m).1, log ++ more), (run plain m).2) ∧
    ∀ access ∈ more, P access

theorem watches_lift (result : Except ε α) :
    Watches P (liftM result : ExceptT ε Watching α) (liftM result) := by
  intro log m
  refine ⟨[], ?_, nofun⟩
  rw [List.append_nil]
  rfl

theorem watches_pure (a : α) : Watches P (pure a : ExceptT ε Watching α) (pure a) :=
  watches_lift (.ok a)

theorem watches_unnoted (operation : StateM Memory α) :
    Watches P (liftM (liftM operation : Watching α) : ExceptT ε Watching α) (liftM operation) := by
  intro log m
  refine ⟨[], ?_, nofun⟩
  rw [List.append_nil]
  rfl

theorem watches_noting {access : Access} (operation : StateM Memory α) (allowed : P access) :
    Watches P (liftM (noting access operation) : ExceptT ε Watching α) (liftM operation) := by
  intro log m
  refine ⟨[access], rfl, fun other member => ?_⟩
  rw [List.mem_singleton.1 member]
  exact allowed

theorem watches_during {access : Access} (failure : ε → ε')
    (operation : StateM Memory (Except ε α)) (allowed : P access) :
    Watches P (Host.during failure (noting access operation)) (Host.during failure operation) := by
  intro log m
  refine ⟨[access], rfl, fun other member => ?_⟩
  rw [List.mem_singleton.1 member]
  exact allowed

namespace Watches

variable {first : ExceptT ε Watching α} {next : α → ExceptT ε Watching β}
  {plainFirst : ExceptT ε (StateM Memory) α} {plainNext : α → ExceptT ε (StateM Memory) β}

theorem bind (one : Watches P first plainFirst) (two : ∀ a, Watches P (next a) (plainNext a)) :
    Watches P (first >>= next) (plainFirst >>= plainNext) := by
  intro log m
  obtain ⟨more, ran, allowed⟩ := one log m
  rw [Watching.watch_bind, Memory.run_bind, ran]
  obtain ⟨result, left⟩ := run plainFirst m
  cases result with
  | error e => exact ⟨more, rfl, allowed⟩
  | ok a =>
    obtain ⟨more', ran', allowed'⟩ := two a (log ++ more) left
    refine ⟨more ++ more', ?_, fun access member => ?_⟩
    · rw [← List.append_assoc]
      exact ran'
    · exact (List.mem_append.1 member).elim (allowed access) (allowed' access)

theorem lift_bind {result : Except ε α}
    (two : ∀ a, result = .ok a → Watches P (next a) (plainNext a)) :
    Watches P (liftM result >>= next) (liftM result >>= plainNext) := by
  cases result with
  | error e => exact watches_lift (.error e)
  | ok a => exact two a rfl

theorem map (one : Watches P first plainFirst) (f : α → β) :
    Watches P (f <$> first) (f <$> plainFirst) := by
  rw [map_eq_pure_bind, map_eq_pure_bind]
  exact one.bind fun a => watches_pure (f a)

end Watches

/-- A search asks for no more than its looks do. -/
theorem watches_firstFree {look : Nat → ExceptT ε Watching Bool}
    {plainLook : Nat → ExceptT ε (StateM Memory) Bool}
    (looks : ∀ n, Watches P (look n) (plainLook n)) (tries n : Nat) :
    Watches P (firstFree look tries n) (firstFree plainLook tries n) := by
  induction tries generalizing n with
  | zero => exact watches_pure n
  | succ tries ih =>
    refine (looks n).bind fun taken => ?_
    cases taken with
    | true => exact ih (n + 1)
    | false => exact watches_pure n

end Fixture
