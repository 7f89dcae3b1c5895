import Fixture.Host.Files

/-!
A place to run in that is held in memory. Each reading of its clock counts, so that two readings
may differ. Main statements: `run_bind` and its companions say how an operation changes the state,
step by step.
-/

namespace Fixture

structure Memory where
  files : Files := {}
  current : List String := []
  clock : Nat → Timestamp
  readings : Nat := 0
  processId : Nat := 1
  input : String := ""
  storeVariable : Option String := none
  temporaryDirectory : String := "/tmp"

namespace Memory

def update {ε : Type} (m : Memory) : Except ε Files → Except ε Unit × Memory
  | .ok files => (.ok (), { m with files })
  | .error e => (.error e, m)

instance : Host (StateM Memory) where
  readText path := fun m => (m.files.readText m.current path, m)
  names path := fun m => (m.files.names m.current path, m)
  isTaken path := fun m => (m.files.isTaken m.current path, m)
  nameBound := fun m => (m.files.nodes.length + 1, m)
  makeDirectories path := fun m =>
    let (result, files) := m.files.makeDirectories m.current (Path.ancestors path)
    (result, { m with files })
  replaceText directory path text := fun m =>
    m.update (m.files.replaceText m.current directory path text)
  remove path := fun m => m.update (m.files.remove m.current path)
  now := fun m => (m.clock m.readings, { m with readings := m.readings + 1 })
  processId := fun m => (m.processId, m)
  input := fun m => (.ok m.input, m)
  storeVariable := fun m => (m.storeVariable, m)
  temporaryDirectory := fun m => (m.temporaryDirectory, m)
  currentDirectory := fun m => (.ok (Path.ofParts ("" :: m.current)), m)

variable {ε ε' α β : Type}

theorem bind_apply (first : StateM Memory α) (next : α → StateM Memory β) (m : Memory) :
    (first >>= next) m = next (first m).1 (first m).2 := rfl

def run (operation : ExceptT ε (StateM Memory) α) (m : Memory) : Except ε α × Memory := operation m

@[simp] theorem run_pure (a : α) (m : Memory) :
    run (pure a : ExceptT ε (StateM Memory) α) m = (.ok a, m) := rfl

@[simp] theorem run_throw (e : ε) (m : Memory) :
    run (throw e : ExceptT ε (StateM Memory) α) m = (.error e, m) := rfl

@[simp] theorem run_lift (result : Except ε α) (m : Memory) :
    run (liftM result : ExceptT ε (StateM Memory) α) m = (result, m) := rfl

@[simp] theorem run_bind (first : ExceptT ε (StateM Memory) α)
    (next : α → ExceptT ε (StateM Memory) β) (m : Memory) :
    run (first >>= next) m = match run first m with
      | (.ok a, m) => run (next a) m
      | (.error e, m) => (.error e, m) := by
  show (match first m with | (result, left) => ExceptT.bindCont next result left) = _
  simp only [run]
  obtain ⟨result, left⟩ := first m
  cases result <;> rfl

@[simp] theorem run_map (f : α → β) (operation : ExceptT ε (StateM Memory) α) (m : Memory) :
    run (f <$> operation) m = ((run operation m).1.map f, (run operation m).2) := by
  rw [map_eq_pure_bind, run_bind]
  obtain ⟨result, left⟩ := run operation m
  cases result <;> rfl

@[simp] theorem run_always (operation : StateM Memory α) (m : Memory) :
    run (liftM operation : ExceptT ε (StateM Memory) α) m =
      (.ok (operation m).1, (operation m).2) := rfl

@[simp] theorem run_during (failure : ε → ε') (operation : StateM Memory (Except ε α))
    (m : Memory) :
    run (Host.during failure operation) m =
      ((operation m).1.mapError failure, (operation m).2) := rfl

@[simp] theorem run_adapt (failure : ε → ε') (operation : ExceptT ε (StateM Memory) α)
    (m : Memory) :
    run (operation.adapt failure) m =
      ((run operation m).1.mapError failure, (run operation m).2) := rfl

end Memory

end Fixture
