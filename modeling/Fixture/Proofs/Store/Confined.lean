import Fixture.Proofs.Host.Watched
import Fixture.Proofs.Store.Catalogue
import Fixture.Proofs.Store.Save

/-!
Operations on records keep to the directory of the store. Whatever id is given, and whatever id is
in a file, every path that is gone to is that of a file with a valid id in the directory.
-/

namespace Fixture

open Memory (run)
open Watching (watch)

inductive StoreCall where
  | get (id : String)
  | change (op : StoreOperation)

def StoreCall.id? : StoreCall → Option String
  | .get id | .change (.update id _ _) | .change (.delete id) => some id
  | .change (.create _) => none
  | .change (.save d) => d.id

namespace Store

variable {ε α β : Type} {s : Store} {m m' : Memory} {id path : String} {r : Record}

def call {m : Type → Type} [Monad m] [Host m] (s : Store) :
    StoreCall → ExceptT StoreError m StoreAnswer
  | .get id => .record <$> s.get id
  | .change (.create n) => .record <$> s.create n
  | .change (.update id modules customName) => .record <$> s.update id modules customName
  | .change (.delete id) => (fun _ => .done) <$> s.delete id
  | .change (.save d) => .draft <$> s.save d

theorem call_change (s : Store) (op : StoreOperation) : s.call (.change op) = s.perform op := by
  cases op <;> rfl

/-! ## What is asked for -/

/-- What a call with an id may ask for. Texts are read, and files are taken away, under that id
only; whether a file is there is asked of any valid id, and texts are put under one. -/
inductive Allows (s : Store) (id? : Option String) : Access → Prop where
  | readText {id : String} (given : id? = some id) (valid : isValidId id = true) :
    Allows s id? (.readText (s.pathOf id))
  | remove {id : String} (given : id? = some id) (valid : isValidId id = true) :
    Allows s id? (.remove (s.pathOf id))
  | isTaken {id : String} (valid : isValidId id = true) : Allows s id? (.isTaken (s.pathOf id))
  | replaceText {id : String} (valid : isValidId id = true) :
    Allows s id? (.replaceText s.directory (s.pathOf id))

theorem path_inv (given : s.path id = .ok path) : isValidId id = true ∧ path = s.pathOf id := by
  rw [Store.path] at given
  split at given
  next valid => exact ⟨valid, (Except.ok.inj given).symm⟩
  · cases given

variable {id? : Option String}

theorem watches_get (s : Store) (given : id? = some id) :
    Watches (s.Allows id?) (s.get id) (s.get id) := by
  refine Watches.lift_bind fun path found => ?_
  obtain ⟨valid, rfl⟩ := path_inv found
  exact (watches_during _ _ (.readText given valid)).bind fun _ => watches_lift _

theorem watches_write (s : Store) (r : Record) :
    Watches (s.Allows id?) (s.write r) (s.write r) := by
  refine Watches.lift_bind fun path found => ?_
  obtain ⟨valid, rfl⟩ := path_inv found
  exact watches_during _ _ (.replaceText valid)

theorem watches_isUsed (s : Store) (id : String) :
    Watches (s.Allows id?) (s.isUsed id) (s.isUsed id) := by
  refine Watches.lift_bind fun path found => ?_
  obtain ⟨valid, rfl⟩ := path_inv found
  exact watches_noting _ (.isTaken valid)

theorem watches_nextId (s : Store) : Watches (s.Allows id?) s.nextId s.nextId := by
  refine (watches_unnoted _).bind fun now => (watches_unnoted _).bind fun tries => ?_
  exact (watches_firstFree (fun n => watches_isUsed s (numberedId now n)) tries 1).bind
    fun n => watches_pure _

theorem watches_create (s : Store) (n : NewRecord) :
    Watches (s.Allows id?) (s.create n) (s.create n) :=
  (watches_unnoted _).bind fun _ => (watches_nextId s).bind fun _ =>
    (watches_write s _).bind fun _ => watches_pure _

theorem watches_update (s : Store) (given : id? = some id) (modules : Modules)
    (customName : String) :
    Watches (s.Allows id?) (s.update id modules customName) (s.update id modules customName) :=
  (watches_get s given).bind fun _ => (watches_unnoted _).bind fun _ =>
    (watches_write s _).bind fun _ => watches_pure _

theorem watches_delete (s : Store) (given : id? = some id) :
    Watches (s.Allows id?) (s.delete id) (s.delete id) := by
  refine Watches.lift_bind fun path found => ?_
  obtain ⟨valid, rfl⟩ := path_inv found
  exact watches_during _ _ (.remove given valid)

theorem watches_save (s : Store) (d : Draft) :
    Watches (s.Allows d.id) (s.save d) (s.save d) := by
  unfold save
  cases identified : d.id with
  | none => exact (watches_create s _).bind fun _ => watches_pure _
  | some id => exact (watches_update s rfl _ _).bind fun _ => watches_pure _

theorem watches_call (s : Store) (c : StoreCall) :
    Watches (s.Allows c.id?) (s.call c) (s.call c) := by
  match c with
  | .get id => exact (watches_get s rfl).map _
  | .change (.create n) => exact (watches_create s n).map _
  | .change (.update id modules customName) => exact (watches_update s rfl modules customName).map _
  | .change (.delete id) => exact (watches_delete s rfl).map _
  | .change (.save d) => exact (watches_save s d).map _

/-! ## What is changed -/

theorem place_of_resolve {place : List String} (valid : isValidId id = true)
    (reached : m.files.resolve m.current (s.pathOf id) = .ok place) :
    ∃ directory, m.files.directory? m.current s.directory = some directory ∧
      place = directory ++ [fileName id] :=
  Files.resolve_join_inv (isName_fileName valid) reached

/-- The places of files with a valid id, directly in the directory. -/
def Owns (s : Store) (m : Memory) (place : List String) : Prop :=
  ∃ directory id, m.files.directory? m.current s.directory = some directory ∧
    isValidId id = true ∧ place = directory ++ [fileName id]

theorem owns_of_resolve {place : List String} (valid : isValidId id = true)
    (reached : m.files.resolve m.current (s.pathOf id) = .ok place) : s.Owns m place := by
  obtain ⟨directory, there, named⟩ := place_of_resolve valid reached
  exact ⟨directory, id, there, valid, named⟩

structure Confines (s : Store) (m : Memory) (result : Except ε α) (m' : Memory) : Prop where
  owned : ∀ place, m'.files.node? place ≠ m.files.node? place → s.Owns m place
  error : ∀ e, result = .error e → m'.files = m.files

theorem Confines.of_same {result : Except ε α} (same : m'.files = m.files) :
    s.Confines m result m' where
  owned place different := absurd (by rw [same]) different
  error _ _ := same

def Confined (s : Store) (operation : ExceptT ε (StateM Memory) α) : Prop :=
  ∀ m : Memory, s.Confines m (run operation m).1 (run operation m).2

def Quiet (operation : ExceptT ε (StateM Memory) α) : Prop :=
  ∀ m : Memory, (run operation m).2.files = m.files ∧ (run operation m).2.current = m.current

theorem Quiet.confined {operation : ExceptT ε (StateM Memory) α} (quiet : Quiet operation) :
    s.Confined operation := fun m => .of_same (quiet m).1

theorem Quiet.bind_confined {first : ExceptT ε (StateM Memory) α}
    {next : α → ExceptT ε (StateM Memory) β} (quiet : Quiet first)
    (confined : ∀ a, s.Confined (next a)) : s.Confined (first >>= next) := by
  intro m
  obtain ⟨files, current⟩ := quiet m
  rw [Memory.run_bind]
  generalize run first m = ran at files current
  obtain ⟨_ | a, m₁⟩ := ran
  · exact .of_same files
  · refine ⟨fun place different => ?_, fun e failed => ((confined a m₁).error e failed).trans files⟩
    rw [← files] at different
    have owns := (confined a m₁).owned place different
    rwa [Owns, files, current] at owns

theorem Confined.bind_pure {operation : ExceptT ε (StateM Memory) α}
    (confined : s.Confined operation) (f : α → β) :
    s.Confined (operation >>= fun a => pure (f a)) := by
  intro m
  have confines := confined m
  rw [Memory.run_bind]
  generalize run operation m = ran at confines
  obtain ⟨_ | a, m₁⟩ := ran
  · exact ⟨confines.owned, fun _ _ => confines.error _ rfl⟩
  · exact ⟨confines.owned, nofun⟩

theorem Confined.map {operation : ExceptT ε (StateM Memory) α} (confined : s.Confined operation)
    (f : α → β) : s.Confined (f <$> operation) := by
  rw [map_eq_pure_bind]
  exact confined.bind_pure f

theorem quiet_get (s : Store) (id : String) :
    Quiet (s.get id : ExceptT StoreError (StateM Memory) Record) := by
  intro m
  rw [get_keeps]
  exact ⟨rfl, rfl⟩

theorem quiet_now : Quiet (liftM (Host.now (m := StateM Memory)) :
    ExceptT StoreError (StateM Memory) Timestamp) := fun _ => ⟨rfl, rfl⟩

theorem quiet_nextId (s : Store) :
    Quiet (s.nextId : ExceptT StoreError (StateM Memory) String) := by
  intro m
  rcases run_nextId s m with given | ⟨-, refused⟩
  · rw [given]
    exact ⟨rfl, rfl⟩
  · rw [refused]
    exact ⟨rfl, rfl⟩

theorem confined_write (s : Store) (r : Record) :
    s.Confined (s.write r : ExceptT StoreError (StateM Memory) Unit) := by
  intro m
  generalize ran : run (s.write r) m = outcome
  obtain ⟨result, m'⟩ := outcome
  cases result with
  | error e => exact .of_same (congrArg Memory.files (write_error ran))
  | ok _ =>
    obtain ⟨valid, target, reached, bare, rfl⟩ := write_inv ran
    refine ⟨fun place different => ?_, nofun⟩
    have below : target ≠ [] := Files.below_of_bare bare
    by_cases here : place = target
    · exact here ▸ owns_of_resolve valid reached
    · exact absurd ((Files.node?_put _ _ _ _ below).trans (if_neg here)) different

theorem confined_delete (s : Store) (id : String) :
    s.Confined (s.delete id : ExceptT StoreError (StateM Memory) Unit) := by
  intro m
  cases valid : isValidId id with
  | false =>
    rw [delete_of_invalid valid]
    exact .of_same rfl
  | true =>
    rw [delete_of_valid valid]
    split
    next files removed =>
      obtain ⟨target, reached, bare, rfl⟩ := Files.remove_inv removed
      refine ⟨fun place different => ?_, nofun⟩
      by_cases here : place = target
      · exact here ▸ owns_of_resolve valid reached
      · have below : target ≠ [] := Files.below_of_bare bare
        exact absurd ((Files.node?_erase _ _ _ below).trans (if_neg here)) different
    · exact .of_same rfl

theorem confined_create (s : Store) (n : NewRecord) :
    s.Confined (s.create n : ExceptT StoreError (StateM Memory) Record) :=
  quiet_now.bind_confined fun _ => (quiet_nextId s).bind_confined fun _ =>
    (confined_write s _).bind_pure _

theorem confined_update (s : Store) (id : String) (modules : Modules) (customName : String) :
    s.Confined (s.update id modules customName : ExceptT StoreError (StateM Memory) Record) :=
  (quiet_get s id).bind_confined fun _ => quiet_now.bind_confined fun _ =>
    (confined_write s _).bind_pure _

theorem confined_save (s : Store) (d : Draft) :
    s.Confined (s.save d : ExceptT StoreError (StateM Memory) Draft) := by
  unfold save
  split
  · exact (confined_update s _ _ _).bind_pure _
  · exact (confined_create s _).bind_pure _

theorem confined_perform (s : Store) (op : StoreOperation) : s.Confined (s.perform op) := by
  cases op with
  | create n => exact (confined_create s n).map _
  | update id modules customName => exact (confined_update s id modules customName).map _
  | delete id => exact (confined_delete s id).map _
  | save d => exact (confined_save s d).map _

theorem confined_call (s : Store) (c : StoreCall) :
    s.Confined (s.call c : ExceptT StoreError (StateM Memory) StoreAnswer) := by
  cases c with
  | get id => exact (quiet_get s id).confined.map _
  | change op =>
    rw [call_change]
    exact confined_perform s op

/-! ## Files of ids -/

theorem isIdChar_iff {c : Char} : isIdChar c = true ↔
    'a' ≤ c ∧ c ≤ 'z' ∨ 'A' ≤ c ∧ c ≤ 'Z' ∨ '0' ≤ c ∧ c ≤ '9' ∨ c = '-' ∨ c = '_' := by
  have given : isIdChar c = (c.isUpper || c.isLower || c.isDigit || c == '-' || c == '_') := rfl
  have upper : c.isUpper = decide ('A' ≤ c ∧ c ≤ 'Z') := rfl
  have lower : c.isLower = (decide ('a' ≤ c) && decide (c ≤ 'z')) := rfl
  have digit : c.isDigit = (decide ('0' ≤ c) && decide (c ≤ '9')) := rfl
  simp only [given, upper, lower, digit, Bool.or_eq_true, Bool.and_eq_true, decide_eq_true_eq,
    beq_iff_eq]
  tauto

/-- Calls keep to the directory of the store. They run the same when they are watched, and then it
is seen that they ask only for files of valid ids in the directory, and read none but that of the id
that is given. Nothing else changes, and nothing at all after a failure. Different valid ids have
different files. -/
theorem calls_keep_to_directory (s : Store) (c : StoreCall) (m : Memory) :
    (∃ log, watch (s.call c) [] m = (((run (s.call c) m).1, log), (run (s.call c) m).2) ∧
      ∀ access ∈ log, s.Allows c.id? access) ∧
    (∀ place, (run (s.call c) m).2.files.node? place ≠ m.files.node? place →
      ∃ directory id, m.files.directory? m.current s.directory = some directory ∧
        isValidId id = true ∧ place = directory ++ [id ++ ".json"]) ∧
    (∀ e, (run (s.call c) m).1 = .error e → (run (s.call c) m).2.files = m.files) ∧
    (∀ id place, isValidId id = true → m.files.resolve m.current (s.pathOf id) = .ok place →
      ∃ directory, m.files.directory? m.current s.directory = some directory ∧
        place = directory ++ [id ++ ".json"]) ∧
    (∀ id other, isValidId id = true → isValidId other = true → id ≠ other →
      fileName id ≠ fileName other ∧ ∀ place place',
        m.files.resolve m.current (s.pathOf id) = .ok place →
        m.files.resolve m.current (s.pathOf other) = .ok place' → place ≠ place') ∧
    ∀ id, isValidId id = true ↔ id.toList ≠ [] ∧ ∀ c ∈ id.toList,
      'a' ≤ c ∧ c ≤ 'z' ∨ 'A' ≤ c ∧ c ≤ 'Z' ∨ '0' ≤ c ∧ c ≤ '9' ∨ c = '-' ∨ c = '_' := by
  obtain ⟨owned, error⟩ := confined_call s c m
  refine ⟨?_, owned, error, fun id place => place_of_resolve, ?_, fun id => ?_⟩
  · obtain ⟨log, ran, allowed⟩ := watches_call s c [] m
    exact ⟨log, ran, allowed⟩
  · intro id other valid valid' different
    have names : fileName id ≠ fileName other := fun same => different (fileName_injective same)
    refine ⟨names, fun place place' reached reached' same => names ?_⟩
    have last := Files.getLast?_of_resolve_join (isName_fileName valid) reached
    rw [same, Files.getLast?_of_resolve_join (isName_fileName valid') reached'] at last
    exact (Option.some.inj last).symm
  · simp only [isValidId_iff, isIdChar_iff]

/-- A directory in which a record has a path instead of an id. -/
def tampered : Memory where
  files := { nodes := [
    (["d"], .directory),
    (["d", "a.json"], .file (Record.plain "../x" "").encode.pretty)] }
  clock := fun _ => newYear

theorem calls_keep_to_directory_tampered :
    let c : StoreCall := .change (.update "a" {} "renamed")
    (run (shelf.call c) tampered).1 = .error (.invalidId "../x") ∧
      (run (shelf.call c) tampered).2.files = tampered.files ∧
      ∀ access ∈ (watch (shelf.call c) [] tampered).1.2, shelf.Allows (some "a") access := by
  intro c
  have lies : shelf.LiesAt ["d"] tampered := rfl
  have got : run (shelf.get "a") tampered = (.ok (Record.plain "../x" ""), tampered) :=
    get_of_readsBack lies rfl (by decide) rfl (Record.readsBack_plain _ _)
  have refused : (run (shelf.call c) tampered).1 = .error (.invalidId "../x") := by
    rw [call, Memory.run_map, run_update got, write_of_invalid]
    · rfl
    · decide
  obtain ⟨⟨log, ran, allowed⟩, -, error, -⟩ := calls_keep_to_directory shelf c tampered
  refine ⟨refused, error _ refused, ?_⟩
  rw [ran]
  exact allowed

end Store

end Fixture
