import Fixture.Proofs.Host.Fresh
import Fixture.Proofs.Store.Encoding
import Fixture.Proofs.Store.Id

/-!
The operations on records in memory, each by what it does to the files. An operation that fails
leaves all files as they are, and one that gives a result has changed one file at most.
-/

namespace Fixture

open Json (ok_of_mapError)
open Memory (run)

namespace Store

variable {s : Store} {m m' : Memory} {place : List String} {id : String} {r : Record}

def LiesAt (s : Store) (place : List String) (m : Memory) : Prop :=
  m.files.find m.current s.directory = .ok (place, .directory)

def pathOf (s : Store) (id : String) : String := Path.join s.directory (fileName id)

theorem path_of_valid (valid : isValidId id = true) : s.path id = .ok (s.pathOf id) := if_pos valid

theorem path_of_invalid (invalid : isValidId id = false) : s.path id = .error (.invalidId id) :=
  if_neg (by rw [invalid]; decide)

/-! ## Reading -/

theorem get_of_invalid (invalid : isValidId id = false) (m : Memory) :
    run (s.get id) m = (.error (.invalidId id), m) := by
  rw [get, Memory.run_bind, path_of_invalid invalid]
  rfl

theorem get_of_error {e : FileError} (valid : isValidId id = true)
    (read : m.files.readText m.current (s.pathOf id) = .error e) :
    run (s.get id) m = (.error (.ofFile id e), m) := by
  rw [get, path_of_valid valid]
  simp only [Memory.run_bind, Memory.run_lift, Memory.run_during, Host.readText, read]
  rfl

theorem get_of_text {text : String} (valid : isValidId id = true)
    (read : m.files.readText m.current (s.pathOf id) = .ok text) :
    run (s.get id) m = ((Record.decode.ofText text).mapError .json, m) := by
  rw [get, path_of_valid valid]
  simp only [Memory.run_bind, Memory.run_lift, Memory.run_during, Host.readText, read]
  rfl

theorem get_inv (got : run (s.get id) m = (.ok r, m')) :
    m' = m ∧ isValidId id = true ∧ ∃ text,
      m.files.readText m.current (s.pathOf id) = .ok text ∧ Record.decode.ofText text = .ok r := by
  cases valid : isValidId id with
  | false =>
    rw [get_of_invalid valid] at got
    cases (Prod.mk.inj got).1
  | true =>
    cases read : m.files.readText m.current (s.pathOf id) with
    | error e =>
      rw [get_of_error valid read] at got
      cases (Prod.mk.inj got).1
    | ok text =>
      rw [get_of_text valid read] at got
      obtain ⟨decoded, rfl⟩ := Prod.mk.inj got
      exact ⟨rfl, rfl, text, rfl, ok_of_mapError decoded⟩

theorem get_keeps (s : Store) (id : String) (m : Memory) : (run (s.get id) m).2 = m := by
  cases valid : isValidId id with
  | false => rw [get_of_invalid valid]
  | true =>
    cases read : m.files.readText m.current (s.pathOf id) with
    | error e => rw [get_of_error valid read]
    | ok text => rw [get_of_text valid read]

/-! ## Writing -/

theorem write_of_invalid (invalid : isValidId r.id = false) (m : Memory) :
    run (s.write r) m = (.error (.invalidId r.id), m) := by
  rw [write, Memory.run_bind, path_of_invalid invalid]
  rfl

theorem write_of_valid (valid : isValidId r.id = true) (m : Memory) :
    run (s.write r) m = match m.files.replaceText m.current s.directory (s.pathOf r.id)
        r.encode.pretty with
      | .ok files => (.ok (), { m with files })
      | .error e => (.error (.ofReplace e), m) := by
  rw [write, path_of_valid valid]
  simp only [Memory.run_bind, Memory.run_lift, Memory.run_during, Host.replaceText]
  cases m.files.replaceText m.current s.directory (s.pathOf r.id) r.encode.pretty <;> rfl

theorem write_inv (written : run (s.write r) m = (.ok (), m')) :
    isValidId r.id = true ∧ ∃ target, m.files.resolve m.current (s.pathOf r.id) = .ok target ∧
      m.files.node? target ≠ some .directory ∧
      m' = { m with files := m.files.put target (.file r.encode.pretty) } := by
  cases valid : isValidId r.id with
  | false =>
    rw [write_of_invalid valid] at written
    cases (Prod.mk.inj written).1
  | true =>
    rw [write_of_valid valid] at written
    split at written
    next files replaced =>
      obtain ⟨target, reached, bare, rfl⟩ := Files.replaceText_inv replaced
      exact ⟨rfl, target, reached, bare, (Prod.mk.inj written).2.symm⟩
    · cases (Prod.mk.inj written).1

theorem write_error {e : StoreError} (failed : run (s.write r) m = (.error e, m')) : m' = m := by
  cases valid : isValidId r.id with
  | false =>
    rw [write_of_invalid valid] at failed
    exact (Prod.mk.inj failed).2.symm
  | true =>
    rw [write_of_valid valid] at failed
    split at failed
    · cases (Prod.mk.inj failed).1
    · exact (Prod.mk.inj failed).2.symm

/-! ## Changing records -/

def ticked (m : Memory) : Memory := { m with readings := m.readings + 1 }

theorem files_ticked (m : Memory) : (ticked m).files = m.files := rfl

def time (m : Memory) : Timestamp := m.clock m.readings

theorem run_now {ε : Type} (m : Memory) :
    run (liftM (Host.now (m := StateM Memory)) : ExceptT ε (StateM Memory) Timestamp) m =
      (.ok (time m), ticked m) := rfl

theorem run_write_pure (s : Store) (r : Record) (m : Memory) :
    run (do s.write r; pure r) m =
      ((run (s.write r) m).1.map fun _ => r, (run (s.write r) m).2) := by
  rw [Memory.run_bind]
  obtain ⟨result, left⟩ := run (s.write r) m
  cases result <;> rfl

def updated (old : Record) (modules : Modules) (customName : String) (now : Timestamp) : Record :=
  { old with modules, customName, updatedAt := now }

theorem id_updated (old : Record) (modules : Modules) (customName : String) (now : Timestamp) :
    (updated old modules customName now).id = old.id := rfl

theorem run_update {old : Record} (got : run (s.get id) m = (.ok old, m)) (modules : Modules)
    (customName : String) :
    run (s.update id modules customName) m =
      ((run (s.write (updated old modules customName (time m))) (ticked m)).1.map fun _ =>
        updated old modules customName (time m),
       (run (s.write (updated old modules customName (time m))) (ticked m)).2) := by
  rw [update, Memory.run_bind, got]
  dsimp only
  rw [Memory.run_bind, run_now]
  dsimp only
  rw [run_write_pure]
  rfl

theorem run_update_error {e : StoreError} (failed : run (s.get id) m = (.error e, m))
    (modules : Modules) (customName : String) :
    run (s.update id modules customName) m = (.error e, m) := by
  rw [update, Memory.run_bind, failed]

theorem id_toRecord (n : NewRecord) (id : String) (now : Timestamp) : (n.toRecord id now).id = id :=
  rfl

def Uses (s : Store) (m : Memory) (id : String) : Bool :=
  match s.path id with
  | .ok path => m.files.isTaken m.current path
  | .error _ => false

theorem uses_ticked (s : Store) (m : Memory) (id : String) :
    s.Uses (ticked m) id = s.Uses m id := rfl

theorem uses_of_valid (valid : isValidId id = true) :
    s.Uses m id = m.files.isTaken m.current (s.pathOf id) := by
  rw [Uses, path_of_valid valid]

theorem mem_entries_of_uses (used : s.Uses m id = true) :
    fileName id ∈ m.files.entries m.current s.directory := by
  cases valid : isValidId id with
  | false =>
    rw [Uses, path_of_invalid valid] at used
    cases used
  | true =>
    rw [uses_of_valid valid] at used
    exact Files.mem_entries_of_isTaken (isName_fileName valid) used

theorem run_isUsed (s : Store) (m : Memory) (id : String) :
    run (s.isUsed id) m = ((s.path id).map fun _ => s.Uses m id, m) := by
  rw [isUsed, Memory.run_bind, Uses]
  cases s.path id <;> rfl

/-- A search over ids ends with a number, or else because the id with that number can be none. -/
theorem run_firstFree (s : Store) (m : Memory) (id : Nat → String) (tries n : Nat) :
    ∃ result, run (firstFree (fun n => s.isUsed (id n)) tries n) m = (result, m) ∧
      let k := Id.run (firstFree (fun n => pure (s.Uses m (id n))) tries n)
      result = .ok k ∨ isValidId (id k) = false ∧ result = .error (.invalidId (id k)) := by
  induction tries generalizing n with
  | zero => exact ⟨_, rfl, .inl rfl⟩
  | succ tries ih =>
    rw [run_firstFree_succ, firstFree, Memory.run_bind, run_isUsed]
    cases valid : isValidId (id n) with
    | false =>
      rw [Uses, path_of_invalid valid]
      exact ⟨_, rfl, .inr ⟨valid, rfl⟩⟩
    | true =>
      rw [path_of_valid valid]
      cases s.Uses m (id n) with
      | false => exact ⟨_, rfl, .inl rfl⟩
      | true => exact ih (n + 1)

def freshNumber (s : Store) (m : Memory) : Nat :=
  freeNumber (fun n => s.Uses m (numberedId (time m) n)) (m.files.nodes.length + 1)

def freshId (s : Store) (m : Memory) : String := numberedId (time m) (s.freshNumber m)

/-- The search for a new id ends after one try more than there are names in the directory at most.
-/
theorem freshNumber_free (s : Store) (m : Memory) :
    Search (fun n => s.Uses m (numberedId (time m) n) = true) 1 (s.freshNumber m) ∧
      s.freshNumber m ≤ (m.files.entries m.current s.directory).length + 1 := by
  have distinct : Function.Injective fun n => fileName (numberedId (time m) (n + 1)) :=
    (fileName_injective.comp (numberedId_injective (time m))).comp Nat.succ_injective
  exact freeNumber_free (fun n => fileName (numberedId (time m) n)) distinct
    (fun n => mem_entries_of_uses) (Nat.lt_succ_of_le (Files.length_entries_le _ _ _))

theorem freshId_unused (s : Store) (m : Memory) : s.Uses m (s.freshId m) = false :=
  Bool.eq_false_iff.2 (freshNumber_free s m).1.free

theorem run_nameBound (m : Memory) :
    run (liftM (Host.nameBound (m := StateM Memory)) : ExceptT StoreError (StateM Memory) Nat) m =
      (.ok (m.files.nodes.length + 1), m) := rfl

theorem run_nextId (s : Store) (m : Memory) :
    run s.nextId m = (.ok (s.freshId m), ticked m) ∨
      isValidId (s.freshId m) = false ∧
        run s.nextId m = (.error (.invalidId (s.freshId m)), ticked m) := by
  obtain ⟨result, ran, outcome⟩ := run_firstFree s (ticked m) (numberedId (time m))
    ((ticked m).files.nodes.length + 1) 1
  rw [nextId, Memory.run_bind, run_now]
  dsimp only
  rw [Memory.run_bind, run_nameBound]
  dsimp only
  rw [Memory.run_bind, ran, freshId, freshNumber, freeNumber]
  simp only [uses_ticked, files_ticked] at outcome
  rcases outcome with rfl | ⟨invalid, rfl⟩
  · exact .inl rfl
  · exact .inr ⟨invalid, rfl⟩

theorem run_create (s : Store) (n : NewRecord) (m : Memory) :
    run (s.create n) m =
      ((run (s.write (n.toRecord (s.freshId (ticked m)) (time m))) (ticked (ticked m))).1.map
        fun _ => n.toRecord (s.freshId (ticked m)) (time m),
       (run (s.write (n.toRecord (s.freshId (ticked m)) (time m))) (ticked (ticked m))).2) := by
  rw [create, Memory.run_bind, run_now]
  dsimp only
  rw [Memory.run_bind]
  rcases run_nextId s (ticked m) with given | ⟨invalid, refused⟩
  · rw [given]
    dsimp only
    rw [run_write_pure]
  · rw [refused, write_of_invalid (r := n.toRecord (s.freshId (ticked m)) (time m)) invalid]
    rfl

theorem delete_of_invalid (invalid : isValidId id = false) (m : Memory) :
    run (s.delete id) m = (.error (.invalidId id), m) := by
  rw [delete, Memory.run_bind, path_of_invalid invalid]
  rfl

theorem delete_of_valid (valid : isValidId id = true) (m : Memory) :
    run (s.delete id) m = match m.files.remove m.current (s.pathOf id) with
      | .ok files => (.ok (), { m with files })
      | .error e => (.error (.ofFile id e), m) := by
  rw [delete, path_of_valid valid]
  simp only [Memory.run_bind, Memory.run_lift, Memory.run_during, Host.remove]
  cases m.files.remove m.current (s.pathOf id) <;> rfl

/-! ## Reading what was written -/

theorem get_ticked (got : run (s.get id) m = (.ok r, m)) :
    run (s.get id) (ticked m) = (.ok r, ticked m) := by
  obtain ⟨-, valid, text, read, decoded⟩ := get_inv got
  have read' : (ticked m).files.readText (ticked m).current (s.pathOf id) = .ok text := read
  rw [get_of_text valid read']
  simp only [decoded, Except.mapError]

theorem get_of_write (written : run (s.write r) m = (.ok (), m')) (reads : r.ReadsBack) :
    run (s.get r.id) m' = (.ok r, m') := by
  obtain ⟨valid, target, reached, bare, left⟩ := write_inv written
  have decoded : Record.decode.ofText r.encode.pretty = .ok r := reads
  have read : m'.files.readText m'.current (s.pathOf r.id) = .ok r.encode.pretty := by
    rw [left]
    exact Files.readText_put reached bare
  rw [get_of_text valid read]
  simp only [decoded, Except.mapError]

theorem get_of_write_elsewhere {old : Record} (written : run (s.write r) m = (.ok (), m'))
    (got : run (s.get id) m = (.ok old, m)) (elsewhere : r.id ≠ id) :
    run (s.get id) m' = (.ok old, m') := by
  obtain ⟨valid_new, target, reached, bare, left⟩ := write_inv written
  obtain ⟨-, valid, text, read, decoded⟩ := get_inv got
  have apart : target ≠ [] := Files.below_of_bare bare
  have kept : m'.files.readText m'.current (s.pathOf id) = .ok text := by
    rw [left]
    refine Files.readText_put_elsewhere read bare fun place here same => ?_
    have last := Files.getLast?_of_resolve_join (isName_fileName valid) here
    rw [same, Files.getLast?_of_resolve_join (isName_fileName valid_new) reached] at last
    exact elsewhere (fileName_injective (Option.some.inj last))
  rw [get_of_text valid kept]
  simp only [decoded, Except.mapError]

/-! ## In a directory that is there -/

def Fits (s : Store) (id : String) : Prop := Files.Fits s.directory (fileName id)

instance : Decidable (s.Fits id) := inferInstanceAs (Decidable (Files.Fits _ _))

/-- Whether the path of the directory leaves room for texts that are set aside. -/
def Stages (s : Store) (m : Memory) : Prop :=
  (Files.stagedPath m.current s.directory).utf8ByteSize ≤ Files.pathLimit

section

variable (lies : s.LiesAt place m) (valid : isValidId id = true)

include lies valid

theorem get_of_file {text : String} (fits : s.Fits id)
    (here : m.files.node? (place ++ [fileName id]) = some (.file text)) :
    run (s.get id) m = ((Record.decode.ofText text).mapError .json, m) := by
  refine get_of_text valid ?_
  rw [pathOf, Files.readText_join lies (isName_fileName valid) fits, here]

theorem get_of_readsBack (fits : s.Fits id)
    (here : m.files.node? (place ++ [fileName id]) = some (.file r.encode.pretty))
    (reads : r.ReadsBack) : run (s.get id) m = (.ok r, m) := by
  have decoded : Record.decode.ofText r.encode.pretty = .ok r := reads
  rw [get_of_file lies valid fits here]
  simp only [decoded, Except.mapError]

theorem get_of_absent (fits : s.Fits id)
    (absent : m.files.node? (place ++ [fileName id]) = none) :
    run (s.get id) m = (.error (.notFound id), m) := by
  have read : m.files.readText m.current (s.pathOf id) = .error .notFound := by
    rw [pathOf, Files.readText_join lies (isName_fileName valid) fits, absent]
  rw [get_of_error valid read, StoreError.ofFile]

theorem get_of_long (long : ¬s.Fits id) :
    run (s.get id) m = (.error (.file .invalidFilename), m) := by
  have read : m.files.readText m.current (s.pathOf id) = .error .invalidFilename :=
    Files.readText_join_long lies (isName_fileName valid) long
  rw [get_of_error valid read]
  rfl

theorem delete_of_file {text : String} (fits : s.Fits id)
    (here : m.files.node? (place ++ [fileName id]) = some (.file text)) :
    run (s.delete id) m =
      (.ok (), { m with files := m.files.erase (place ++ [fileName id]) }) := by
  rw [delete_of_valid valid, pathOf, Files.remove_join lies (isName_fileName valid) fits, here]

theorem delete_of_absent (fits : s.Fits id)
    (absent : m.files.node? (place ++ [fileName id]) = none) :
    run (s.delete id) m = (.error (.notFound id), m) := by
  rw [delete_of_valid valid, pathOf, Files.remove_join lies (isName_fileName valid) fits, absent]
  rfl

theorem delete_of_long (long : ¬s.Fits id) :
    run (s.delete id) m = (.error (.file .invalidFilename), m) := by
  rw [delete_of_valid valid, pathOf, Files.remove_join_long lies (isName_fileName valid) long]
  rfl

end

def shelf : Store := ⟨"d"⟩

theorem write_ok (lies : s.LiesAt place m) (stages : s.Stages m) (valid : isValidId r.id = true)
    (fits : s.Fits r.id) (bare : m.files.node? (place ++ [fileName r.id]) ≠ some .directory) :
    run (s.write r) m = (.ok (), { m with
      files := m.files.put (place ++ [fileName r.id]) (.file r.encode.pretty) }) := by
  rw [write_of_valid valid, pathOf,
    Files.replaceText_join lies stages (isName_fileName valid) fits bare]

theorem freshId_absent (lies : s.LiesAt place m) (valid : isValidId (s.freshId m) = true)
    (fits : s.Fits (s.freshId m)) : m.files.node? (place ++ [fileName (s.freshId m)]) = none := by
  have reached : m.files.resolve m.current (s.pathOf (s.freshId m)) =
      .ok (place ++ [fileName (s.freshId m)]) :=
    (Files.resolve_join lies (isName_fileName valid)).trans (if_pos fits)
  have unused := freshId_unused s m
  rw [uses_of_valid valid] at unused
  exact Files.free_of_isTaken reached unused

theorem write_place (lies : s.LiesAt place m) (written : run (s.write r) m = (.ok (), m')) :
    isValidId r.id = true ∧ s.Fits r.id ∧
      m.files.node? (place ++ [fileName r.id]) ≠ some .directory ∧
      m' = { m with files := m.files.put (place ++ [fileName r.id]) (.file r.encode.pretty) } := by
  obtain ⟨valid, target, reached, bare, left⟩ := write_inv written
  rw [pathOf, Files.resolve_join lies (isName_fileName valid)] at reached
  split at reached
  next fits =>
    obtain rfl := Except.ok.inj reached
    exact ⟨valid, fits, bare, left⟩
  · cases reached

theorem stages_of_write (written : run (s.write r) m = (.ok (), m')) : s.Stages m := by
  rw [write_of_valid (write_inv written).1] at written
  split at written
  next replaced => exact Files.room_of_replaceText replaced
  · cases (Prod.mk.inj written).1

theorem write_again {q : Record} {m₁ : Memory} (lies : s.LiesAt place m)
    (written : run (s.write r) m = (.ok (), m')) (files : m₁.files = m'.files)
    (current : m₁.current = m'.current) (same : q.id = r.id) :
    ∃ m₂, run (s.write q) m₁ = (.ok (), m₂) ∧
      m₂.files = m₁.files.put (place ++ [fileName r.id]) (.file q.encode.pretty) := by
  have stages := stages_of_write written
  obtain ⟨valid, fits, bare, rfl⟩ := write_place lies written
  have lies : s.LiesAt place m₁ := by
    rw [LiesAt, files, current]
    exact Files.find_put_join lies bare _
  have stages : s.Stages m₁ := by
    rw [Stages, current]
    exact stages
  have bare : m₁.files.node? (place ++ [fileName r.id]) ≠ some .directory := by
    rw [files, Files.node?_put _ _ _ _ (Files.place_ne_nil _ _), if_pos rfl]
    rintro ⟨⟩
  rw [← same] at valid fits bare ⊢
  exact ⟨_, write_ok lies stages valid fits bare, rfl⟩

/-! ## Listing -/

theorem run_readTexts (directory : String) (names : List String) (m : Memory) :
    run (names.mapM fun name => (liftM (Host.readText (m := StateM Memory)
        (Path.join directory name)) : ExceptT StoreError (StateM Memory) _)) m =
      (.ok (names.map fun name => m.files.readText m.current (Path.join directory name)), m) := by
  induction names with
  | nil => rfl
  | cons name names ih =>
    rw [List.mapM_cons, Memory.run_bind, Memory.run_always]
    dsimp only
    rw [Memory.run_bind, show (Host.readText (m := StateM Memory)
      (Path.join directory name) m).2 = m from rfl, ih]
    rfl

theorem run_list {names : List String} (found : m.files.names m.current s.directory = .ok names)
    (f : Filter) :
    run (s.list f) m = (.ok (((names.filter isRecordName).filterMap fun name =>
      found? f (m.files.readText m.current (Path.join s.directory name))).mergeSort
        Record.isBefore), m) := by
  have entries : run (Host.during StoreError.file (Host.names (m := StateM Memory) s.directory)) m =
      (.ok names, m) := by
    rw [Memory.run_during]
    simp only [Host.names, found]
    rfl
  rw [list, Memory.run_bind, entries]
  dsimp only
  rw [Memory.run_bind, run_readTexts]
  simp only [Memory.run_pure, List.filterMap_map]
  rfl

end Store

end Fixture
