import Fixture.Proofs.Host.Files

/-!
Operations that lose and change no file, such as reading. An operation is careful if it does so at
least whenever it fails; a careful operation after harmless ones is careful as a whole.
-/

namespace Fixture

namespace Files

variable {fs fs' fs'' : Files} {current : List String}

def Grows (fs fs' : Files) : Prop :=
  ∀ place node, fs.node? place = some node → fs'.node? place = some node

theorem Grows.refl (fs : Files) : fs.Grows fs := fun _ _ here => here

theorem Grows.trans (first : fs.Grows fs') (second : fs'.Grows fs'') : fs.Grows fs'' :=
  fun place node here => second place node (first place node here)

theorem Grows.keepsDirectories (grows : fs.Grows fs') : fs.KeepsDirectories fs' :=
  fun place here => grows place .directory here

theorem Grows.readText (grows : fs.Grows fs') {path text : String}
    (read : fs.readText current path = .ok text) : fs'.readText current path = .ok text := by
  obtain ⟨place, reached, here⟩ := readText_inv read
  exact readText_of_node (grows.keepsDirectories.resolve reached) (grows place _ here)

theorem grows_put {place : List String} (free : fs.node? place = none) (node : Node) :
    fs.Grows (fs.put place node) := by
  intro other held here
  have below : place ≠ [] := below_of_free free
  have elsewhere : other ≠ place := by
    rintro rfl
    rw [free] at here
    cases here
  rw [node?_put _ _ _ _ below, if_neg elsewhere, here]

theorem makeDirectory_inv {path : String} (made : fs.makeDirectory current path = .ok fs') :
    ∃ way place, fs.resolve current way = .ok place ∧ fs.node? place = none ∧
      fs' = fs.put place .directory := by
  simp only [makeDirectory, bind, Except.bind] at made
  split at made
  · cases made
  next place reached =>
    split at made
    · cases made
    next free => exact ⟨_, place, reached, free, (Except.ok.inj made).symm⟩

/-- What one directory does that is made, any number of them do. -/
theorem makeDirectories_steps {R : Files → Files → Prop} (refl : ∀ fs, R fs fs)
    (trans : ∀ {fs fs' fs''}, R fs fs' → R fs' fs'' → R fs fs'')
    (step : ∀ {fs fs' path}, fs.makeDirectory current path = .ok fs' → R fs fs') (fs : Files)
    (paths : List String) : R fs (fs.makeDirectories current paths).2 := by
  induction paths with
  | nil => exact refl fs
  | cons path parents ih =>
    have unlessThere (made : Files) (e : FileError) (related : R fs made) :
        R fs (if made.isDirectory current path then (Except.ok (), made)
          else (.error e, made) : Except FileError Unit × Files).2 := by
      split <;> exact related
    rw [makeDirectories]
    split
    · exact refl fs
    split
    next made one => exact step one
    · split
      next e left ran =>
        rw [ran] at ih
        exact ih
      next left ran =>
        rw [ran] at ih
        split
        next made one => exact trans ih (step one)
        next e _ => exact unlessThere left e ih
    next e _ _ => exact unlessThere fs e (refl fs)

end Files

namespace Memory

variable {ε ε' α β : Type} {m m' m'' : Memory}

structure Keeps (m m' : Memory) : Prop where
  files : m.files.Grows m'.files
  current : m'.current = m.current

namespace Keeps

theorem refl (m : Memory) : m.Keeps m := ⟨.refl _, rfl⟩

theorem trans (first : m.Keeps m') (second : m'.Keeps m'') : m.Keeps m'' :=
  ⟨first.files.trans second.files, second.current.trans first.current⟩

theorem readText (keeps : m.Keeps m') {path text : String}
    (read : m.files.readText m.current path = .ok text) :
    m'.files.readText m'.current path = .ok text := by
  rw [keeps.current]
  exact keeps.files.readText read

end Keeps

/-- An operation that leaves all files as they are, whatever it gives. -/
def Harmless (operation : ExceptT ε (StateM Memory) α) : Prop :=
  ∀ m : Memory, m.Keeps (run operation m).2

/-- An operation that leaves all files as they are if it fails. -/
def Careful (operation : ExceptT ε (StateM Memory) α) : Prop :=
  ∀ (m m' : Memory) (e : ε), run operation m = (.error e, m') → m.Keeps m'

theorem Harmless.careful {operation : ExceptT ε (StateM Memory) α} (harmless : Harmless operation) :
    Careful operation := by
  intro m m' e failed
  have kept := harmless m
  rwa [failed] at kept

theorem harmless_throw (e : ε) : Harmless (throw e : ExceptT ε (StateM Memory) α) := Keeps.refl

theorem harmless_lift (result : Except ε α) :
    Harmless (liftM result : ExceptT ε (StateM Memory) α) := Keeps.refl

theorem harmless_during {operation : StateM Memory (Except ε α)} (failure : ε → ε')
    (same : ∀ m, (operation m).2 = m) : Harmless (Host.during failure operation) := by
  intro m
  rw [run_during, same]
  exact .refl m

theorem careful_during {operation : StateM Memory (Except ε α)} (failure : ε → ε')
    (same : ∀ m e, (operation m).1 = .error e → (operation m).2 = m) :
    Careful (Host.during failure operation) := by
  intro m m' e failed
  rw [run_during] at failed
  obtain ⟨outcome, rfl⟩ := Prod.mk.inj failed
  cases result : (operation m).1 with
  | ok a => rw [result] at outcome; cases outcome
  | error e =>
    rw [same m e result]
    exact .refl m

theorem update_error {m : Memory} {result : Except ε Files} {e : ε}
    (failed : (m.update result).1 = .error e) : (m.update result).2 = m := by
  cases result with
  | ok files => cases failed
  | error e => rfl

theorem careful_replaceText (failure : ReplaceError → ε') (directory path text : String) :
    Careful (Host.during failure (Host.replaceText (m := StateM Memory) directory path text)) :=
  careful_during failure fun _ _ failed => update_error failed

theorem careful_remove (failure : FileError → ε') (path : String) :
    Careful (Host.during failure (Host.remove (m := StateM Memory) path)) :=
  careful_during failure fun _ _ failed => update_error failed

theorem Harmless.bind {first : ExceptT ε (StateM Memory) α}
    {next : α → ExceptT ε (StateM Memory) β} (one : Harmless first) (two : ∀ a, Harmless (next a)) :
    Harmless (first >>= next) := by
  intro m
  have kept := one m
  rw [run_bind]
  split
  next a left ran =>
    rw [ran] at kept
    exact kept.trans (two a left)
  next e left ran => rwa [ran] at kept

theorem Harmless.adapt {operation : ExceptT ε (StateM Memory) α} (harmless : Harmless operation)
    (failure : ε → ε') : Harmless (operation.adapt failure) := by
  intro m
  rw [run_adapt]
  exact harmless m

theorem Careful.adapt {operation : ExceptT ε (StateM Memory) α} (careful : Careful operation)
    (failure : ε → ε') : Careful (operation.adapt failure) := by
  intro m m' e failed
  rw [run_adapt] at failed
  obtain ⟨outcome, rfl⟩ := Prod.mk.inj failed
  cases result : (run operation m).1 with
  | ok a => rw [result] at outcome; cases outcome
  | error e => exact careful m _ e (Prod.ext result rfl)

theorem Harmless.bind_careful {first : ExceptT ε (StateM Memory) α}
    {next : α → ExceptT ε (StateM Memory) β} (one : Harmless first) (two : ∀ a, Careful (next a)) :
    Careful (first >>= next) := by
  intro m m' e failed
  have kept := one m
  rw [run_bind] at failed
  split at failed
  next a left ran =>
    rw [ran] at kept
    exact kept.trans (two a _ _ _ failed)
  next e' left ran =>
    obtain ⟨-, rfl⟩ := Prod.mk.inj failed
    rwa [ran] at kept

theorem Careful.bind_pure {first : ExceptT ε (StateM Memory) α} (careful : Careful first)
    (f : α → β) : Careful (first >>= fun a => pure (f a)) := by
  intro m m' e failed
  rw [run_bind] at failed
  split at failed
  · cases (Prod.mk.inj failed).1
  next e' left ran =>
    obtain ⟨-, rfl⟩ := Prod.mk.inj failed
    exact careful _ _ _ ran

end Memory

end Fixture
