import Fixture.Proofs.Store.Catalogue

/-!
The operations of a store as steps from one map to another. Main statements: `Holds.step`, that every
operation is such a step, and `store_refines_map`, that from an empty directory a store is a map after
any run.
-/

namespace Fixture

open Memory (run)

namespace Store

/-- The directory has room for one more record: neither the paths in it nor the numbers of ids get too
long. -/
structure HasRoom (s : Store) (m : Memory) (M : Catalogue) : Prop where
  stages : s.Stages m
  path : s.directory.utf8ByteSize + 1 + Files.nameLimit ≤ Files.pathLimit
  number : M.keys.card < numberLimit

end Store

/-- What an operation on a map gives and leaves at a time. Where there is no room for one more record,
what would be written may be refused, which changes nothing. -/
inductive Catalogue.Step (s : Store) (now : Timestamp) (room : Prop) (M : Catalogue) :
    StoreOperation → Except StoreError StoreAnswer → Catalogue → Prop where
  | create {n : NewRecord} {id : String} (valid : Store.isValidId id = true) (fresh : id ∉ M) :
    Step s now room M (.create n) (.ok (.record (n.toRecord id now)))
      (M.insert id (n.toRecord id now))
  | createFull {n : NewRecord} {e : StoreError} (full : ¬room) :
    Step s now room M (.create n) (.error e) M
  | update {id customName : String} {modules : Modules} {old : Record}
    (present : M.find s id = .ok old) :
    Step s now room M (.update id modules customName)
      (.ok (.record { old with modules, customName, updatedAt := now }))
      (M.insert id { old with modules, customName, updatedAt := now })
  | updateFull {id customName : String} {modules : Modules} {old : Record} {e : StoreError}
    (present : M.find s id = .ok old) (full : ¬room) :
    Step s now room M (.update id modules customName) (.error e) M
  | updateAbsent {id customName : String} {modules : Modules} {e : StoreError}
    (absent : M.find s id = .error e) :
    Step s now room M (.update id modules customName) (.error e) M
  | delete {id : String} {old : Record} (present : M.find s id = .ok old) :
    Step s now room M (.delete id) (.ok .done) (M.erase id)
  | deleteAbsent {id : String} {e : StoreError} (absent : M.find s id = .error e) :
    Step s now room M (.delete id) (.error e) M
  | save {d : Draft} {result : Except StoreError StoreAnswer} {M' : Catalogue}
    (step : Step s now room M (.ofDraft d) result M') :
    Step s now room M (.save d) (result.map StoreAnswer.saved) M'

def StoreOperation.plain : StoreOperation → StoreOperation
  | .save d => .ofDraft d
  | op => op

namespace Store

/-- Every record that is written in a run is read back from its own text. -/
def WritesReadBack (s : Store) : Memory → List StoreOperation → Prop
  | _, [] => True
  | m, op :: ops =>
    (∀ r, (run (s.perform op.plain) m).1 = .ok (.record r) → r.ReadsBack) ∧
      s.WritesReadBack (s.after m op) ops

variable {s : Store} {place : List String} {m m' : Memory} {M : Catalogue} {id : String} {r : Record}

/-! ## One operation -/

theorem run_perform_create (s : Store) (n : NewRecord) (m : Memory) :
    run (s.perform (.create n)) m =
      ((run (s.write (n.toRecord (s.freshId (ticked m)) (time m))) (ticked (ticked m))).1.map
        fun _ => .record (n.toRecord (s.freshId (ticked m)) (time m)),
       (run (s.write (n.toRecord (s.freshId (ticked m)) (time m))) (ticked (ticked m))).2) := by
  rw [perform, Memory.run_map, run_create]
  obtain ⟨result, left⟩ := run (s.write (n.toRecord (s.freshId (ticked m)) (time m)))
    (ticked (ticked m))
  cases result <;> rfl

theorem run_perform_update {old : Record} (got : run (s.get id) m = (.ok old, m))
    (modules : Modules) (customName : String) :
    run (s.perform (.update id modules customName)) m =
      ((run (s.write (updated old modules customName (time m))) (ticked m)).1.map fun _ =>
        .record (updated old modules customName (time m)),
       (run (s.write (updated old modules customName (time m))) (ticked m)).2) := by
  rw [perform, Memory.run_map, run_update got]
  obtain ⟨result, left⟩ := run (s.write (updated old modules customName (time m))) (ticked m)
  cases result <;> rfl

theorem run_perform_save (s : Store) (d : Draft) (m : Memory) :
    run (s.perform (.save d)) m = ((run (s.perform (.ofDraft d)) m).1.map StoreAnswer.saved,
      (run (s.perform (.ofDraft d)) m).2) := by
  obtain ⟨id, pathToProject, fileId, functionId, customName, modules⟩ := d
  cases id with
  | none =>
    rw [perform, Memory.run_map, save, Memory.run_bind, StoreOperation.ofDraft, perform,
      Memory.run_map]
    dsimp only
    generalize run (s.create _) m = outcome
    obtain ⟨result, left⟩ := outcome
    cases result <;> rfl
  | some id =>
    rw [perform, Memory.run_map, save, Memory.run_bind, StoreOperation.ofDraft, perform,
      Memory.run_map]
    dsimp only
    generalize run (s.update id modules customName) m = outcome
    obtain ⟨result, left⟩ := outcome
    cases result <;> rfl

theorem readsBack_of_answer {result : Except StoreError Unit}
    (reads : ∀ q, (result.map fun _ => StoreAnswer.record r) = .ok (.record q) → q.ReadsBack)
    (written : result = .ok ()) : r.ReadsBack := by
  subst written
  exact reads r rfl

namespace Holds

theorem write (holds : s.Holds place m M) (r : Record)
    (reads : (run (s.write r) m).1 = .ok () → r.ReadsBack) :
    (∃ m', run (s.write r) m = (.ok (), m') ∧ isValidId r.id = true ∧
        s.Holds place m' (M.insert r.id r)) ∨
      ∃ e, run (s.write r) m = (.error e, m) ∧
        ¬(s.Stages m ∧ isValidId r.id = true ∧ s.Fits r.id) := by
  cases ran : run (s.write r) m with
  | mk result left =>
    cases result with
    | ok _ =>
      left
      obtain ⟨valid, fits, -, rfl⟩ := write_place holds.lies ran
      rw [ran] at reads
      exact ⟨_, rfl, valid, holds.insert valid fits (reads rfl) rfl rfl⟩
    | error e =>
      right
      obtain rfl := write_error ran
      refine ⟨e, rfl, fun given => ?_⟩
      obtain ⟨stages, valid, fits⟩ := given
      rw [write_ok holds.lies stages valid fits (holds.bare _)] at ran
      cases (Prod.mk.inj ran).1

theorem length_names_le (holds : s.Holds place m M) :
    (m.files.namesAt place).length ≤ M.keys.card := by
  have inside : m.files.namesAt place ⊆ M.keys.toList.map fileName := by
    intro name listed
    obtain ⟨id, r, present, rfl⟩ := holds.mem_names.1 listed
    refine List.mem_map_of_mem (Finset.mem_toList.2 (Finmap.mem_keys.2 ?_))
    exact Finmap.mem_of_lookup_eq_some present
  calc (m.files.namesAt place).length
    _ ≤ (M.keys.toList.map fileName).length :=
      ((Files.nodup_namesAt m.files place).subperm inside).length_le
    _ = M.keys.card := by rw [List.length_map, Finset.length_toList]

/-- A new id is an id that no record has, and it is short enough if there is room. -/
theorem fresh (holds : s.Holds place m M) (ordinary : (time m).HasFourDigitYear) :
    isValidId (s.freshId m) = true ∧ s.freshId m ∉ M ∧ (s.HasRoom m M → s.Fits (s.freshId m)) := by
  have valid : isValidId (s.freshId m) = true := isValidId_numberedId ordinary _
  refine ⟨valid, fun present => ?_, fun room => ?_⟩
  · obtain ⟨r, listed⟩ := Finmap.mem_iff.1 present
    have here := holds.node_of_lookup listed
    rw [freshId_absent holds.lies valid (holds.fits listed)] at here
    cases here
  · have small := (freshNumber_free s m).2
    rw [Files.entries_of_directory (Files.directory?_of_find holds.lies)] at small
    have count := holds.length_names_le
    have number := room.number
    have within : s.freshNumber m ≤ numberLimit := by omega
    have short : (fileName (s.freshId m)).utf8ByteSize ≤ Files.nameLimit :=
      utf8ByteSize_fileName_numberedId ordinary within
    have path := Path.utf8ByteSize_join_le s.directory (fileName (s.freshId m))
    have limit := room.path
    exact ⟨by omega, short⟩

theorem ticked (holds : s.Holds place m M) : s.Holds place (ticked m) M := holds.congr rfl rfl

def Steps (s : Store) (place : List String) (m : Memory) (M : Catalogue) (op : StoreOperation) :
    Prop :=
  ∃ M', M.Step s (time m) (s.HasRoom m M) op (run (s.perform op) m).1 M' ∧
    s.Holds place (s.after m op) M'

theorem create (holds : s.Holds place m M) (clock : ∀ k, (m.clock k).HasFourDigitYear)
    (n : NewRecord)
    (reads : ∀ r, (run (s.perform (.create n)) m).1 = .ok (.record r) → r.ReadsBack) :
    Steps s place m M (.create n) := by
  obtain ⟨valid, absent, fits⟩ := holds.ticked.fresh (clock _)
  have own := id_toRecord n (s.freshId (Store.ticked m)) (time m)
  have makes : M.Step s (time m) (s.HasRoom m M) (.create n) _ _ := .create valid absent
  rw [Steps, after]
  rw [run_perform_create] at *
  generalize n.toRecord (s.freshId (Store.ticked m)) (time m) = r at *
  rcases holds.ticked.ticked.write r (readsBack_of_answer reads) with
    ⟨m', ran, -, next⟩ | ⟨e, ran, refused⟩
  · rw [ran]
    rw [own] at next
    exact ⟨_, makes, next⟩
  · rw [ran]
    refine ⟨M, .createFull fun room => refused ?_, holds.ticked.ticked⟩
    rw [own]
    exact ⟨room.stages, valid, fits ⟨room.stages, room.path, room.number⟩⟩

theorem update (holds : s.Holds place m M) (id : String) (modules : Modules) (customName : String)
    (reads : ∀ r, (run (s.perform (.update id modules customName)) m).1 = .ok (.record r) →
      r.ReadsBack) : Steps s place m M (.update id modules customName) := by
  have got := holds.get id
  rw [Steps, after]
  cases present : M.find s id with
  | error e =>
    rw [present] at got
    rw [perform, Memory.run_map, run_update_error got]
    exact ⟨M, .updateAbsent present, holds⟩
  | ok old =>
    rw [present] at got
    rw [run_perform_update got] at *
    have listed := Catalogue.lookup_of_find present
    have own := holds.own listed
    rcases holds.ticked.write _ (readsBack_of_answer reads) with
      ⟨m', ran, -, next⟩ | ⟨e, ran, refused⟩
    · rw [ran]
      rw [id_updated, own] at next
      exact ⟨_, .update present, next⟩
    · rw [ran]
      refine ⟨M, .updateFull present fun room => refused ?_, holds.ticked⟩
      rw [id_updated, own]
      exact ⟨room.stages, holds.valid listed, holds.fits listed⟩

theorem delete (holds : s.Holds place m M) (id : String) : Steps s place m M (.delete id) := by
  rw [Steps, after, perform, Memory.run_map]
  cases present : M.find s id with
  | ok old =>
    have listed := Catalogue.lookup_of_find present
    rw [delete_of_file holds.lies (holds.valid listed) (holds.fits listed)
      (holds.node_of_lookup listed)]
    exact ⟨M.erase id, .delete present, holds.erase id rfl rfl⟩
  | error e =>
    have failed : run (s.delete id) m = (.error e, m) := by
      rcases Catalogue.find_error present with ⟨invalid, rfl⟩ | ⟨valid, absent, rfl⟩
      · exact delete_of_invalid invalid m
      · split
        next fits => exact delete_of_absent holds.lies valid fits (holds.node_of_absent absent)
        next long => exact delete_of_long holds.lies valid long
    rw [failed]
    exact ⟨M, .deleteAbsent present, holds⟩

theorem ofDraft (holds : s.Holds place m M) (clock : ∀ k, (m.clock k).HasFourDigitYear) (d : Draft)
    (reads : ∀ r, (run (s.perform (.ofDraft d)) m).1 = .ok (.record r) → r.ReadsBack) :
    Steps s place m M (.ofDraft d) := by
  rw [StoreOperation.ofDraft] at *
  split
  next id saved =>
    simp only [saved] at reads
    exact holds.update id _ _ reads
  next unsaved =>
    simp only [unsaved] at reads
    exact holds.create clock _ reads

theorem step (holds : s.Holds place m M) (clock : ∀ k, (m.clock k).HasFourDigitYear)
    (op : StoreOperation)
    (reads : ∀ r, (run (s.perform op.plain) m).1 = .ok (.record r) → r.ReadsBack) :
    Steps s place m M op := by
  cases op with
  | create n => exact holds.create clock n reads
  | update id modules customName => exact holds.update id modules customName reads
  | delete id => exact holds.delete id
  | save d =>
    obtain ⟨M', step, next⟩ := holds.ofDraft clock d reads
    rw [after] at next
    rw [Steps, after, run_perform_save]
    exact ⟨M', .save step, next⟩

end Holds

theorem clock_write (s : Store) (r : Record) (m : Memory) :
    (run (s.write r) m).2.clock = m.clock := by
  cases ran : run (s.write r) m with
  | mk result left =>
    cases result with
    | ok _ =>
      obtain ⟨-, target, -, -, rfl⟩ := write_inv ran
      rfl
    | error e => rw [write_error ran]

theorem clock_after (s : Store) (m : Memory) (op : StoreOperation) :
    (s.after m op).clock = m.clock := by
  have plain (op : StoreOperation) (unsaved : ∀ d, op ≠ .save d) :
      (s.after m op).clock = m.clock := by
    cases op with
    | create n =>
      rw [after, run_perform_create, clock_write]
      rfl
    | update id modules customName =>
      cases got : (run (s.get id) m).1 with
      | error e =>
        rw [after, perform, Memory.run_map, run_update_error (Prod.ext got (get_keeps s id m))]
      | ok old =>
        rw [after, run_perform_update (Prod.ext got (get_keeps s id m)), clock_write]
        rfl
    | delete id =>
      rw [after, perform, Memory.run_map]
      cases valid : isValidId id with
      | false => rw [delete_of_invalid valid]
      | true =>
        rw [delete_of_valid valid]
        split <;> rfl
    | save d => exact absurd rfl (unsaved d)
  cases op with
  | save d =>
    rw [after, run_perform_save]
    refine plain (.ofDraft d) fun other same => ?_
    rw [StoreOperation.ofDraft] at same
    split at same <;> cases same
  | create n => exact plain _ (by rintro _ ⟨⟩)
  | update id modules customName => exact plain _ (by rintro _ ⟨⟩)
  | delete id => exact plain _ (by rintro _ ⟨⟩)

/-! ## A run -/

theorem holds_empty (lies : s.LiesAt place m)
    (empty : ∀ name, m.files.node? (place ++ [name]) = none) : s.Holds place m ∅ := by
  have none {id : String} {r : Record} : (∅ : Catalogue).lookup id ≠ some r := by
    rw [Finmap.lookup_empty]
    rintro ⟨⟩
  refine ⟨lies, fun name node => ⟨fun here => ?_, ?_⟩, ?_, ?_, ?_, ?_⟩
  · rw [empty] at here
    cases here
  · rintro ⟨id, r, present, -⟩
    exact absurd present none
  all_goals exact fun present => absurd present none

theorem Holds.afterAll (holds : s.Holds place m M) (clock : ∀ k, (m.clock k).HasFourDigitYear)
    {ops : List StoreOperation} (reads : s.WritesReadBack m ops) :
    ∃ M', s.Holds place (s.afterAll m ops) M' := by
  induction ops generalizing m M with
  | nil => exact ⟨M, holds⟩
  | cons op ops ih =>
    obtain ⟨here, later⟩ := reads
    obtain ⟨M', -, next⟩ := holds.step clock op here
    exact ih next (fun k => clock_after s m op ▸ clock k) later

theorem clock_afterAll (s : Store) (m : Memory) (ops : List StoreOperation) :
    (s.afterAll m ops).clock = m.clock := by
  induction ops generalizing m with
  | nil => rfl
  | cons op ops ih => exact (ih _).trans (clock_after s m op)

/-- What is seen of a store that holds a map: its files are those of the records, and records are got
and listed as they are in the map. -/
structure Shows (s : Store) (place : List String) (m : Memory) (M : Catalogue) : Prop where
  files : ∀ name node, m.files.node? (place ++ [name]) = some node ↔
    ∃ id r, M.lookup id = some r ∧ name = fileName id ∧ node = .file r.encode.pretty
  own : ∀ id r, M.lookup id = some r → r.id = id
  get : ∀ id, run (s.get id) m = (M.find s id, m)
  list : ∀ f : Filter, ∃ rs, run (s.list f) m = (.ok rs, m) ∧
    (∀ r, r ∈ rs ↔ M.lookup r.id = some r ∧ f.admitsRecord r = true) ∧
    rs.Pairwise fun q r => q.id ≠ r.id ∧
      (q.createdAt.compare r.createdAt = .lt ∨ q.createdAt = r.createdAt ∧ q.id < r.id)

theorem Holds.shows (holds : s.Holds place m M) : s.Shows place m M :=
  ⟨holds.node, fun _ _ => holds.own, holds.get, holds.list⟩

/-- From an empty directory, a store is a finite map from ids to records after every run of operations,
and every further operation is a step to the next map. -/
theorem store_refines_map (lies : s.LiesAt place m)
    (empty : ∀ name, m.files.node? (place ++ [name]) = none)
    (clock : ∀ k, (m.clock k).HasFourDigitYear) (ops : List StoreOperation)
    (reads : s.WritesReadBack m ops) :
    ∃ M, s.Shows place (s.afterAll m ops) M ∧
      ∀ op, s.WritesReadBack (s.afterAll m ops) [op] →
        ∃ M', M.Step s (time (s.afterAll m ops)) (s.HasRoom (s.afterAll m ops) M) op
            (run (s.perform op) (s.afterAll m ops)).1 M' ∧
          s.Shows place (s.afterAll m (ops ++ [op])) M' := by
  obtain ⟨M, holds⟩ := (holds_empty lies empty).afterAll clock reads
  refine ⟨M, holds.shows, fun op more => ?_⟩
  obtain ⟨M', step, next⟩ := holds.step (fun k => clock_afterAll s m ops ▸ clock k) op more.1
  refine ⟨M', step, ?_⟩
  rw [afterAll, List.foldl_append]
  exact next.shows

/-! ### An empty directory -/

def emptied : Memory where
  files := { nodes := [(["d"], .directory)], nodup := List.nodup_singleton _ }
  clock := fun _ => newYear

theorem liesAt_emptied : shelf.LiesAt ["d"] emptied := rfl

theorem node?_emptied (name : String) : emptied.files.node? (["d"] ++ [name]) = none := by
  have below : ["d"] ++ [name] ≠ [] := List.cons_ne_nil _ _
  have apart : (["d", name] == ["d"]) = false := by simp
  rw [Files.node?, if_neg below]
  simp only [emptied, List.cons_append, List.nil_append, List.lookup_cons, apart, List.lookup_nil]

theorem clock_emptied (k : Nat) : (emptied.clock k).HasFourDigitYear := ordinary_newYear

def untitled : NewRecord where
  pathToProject := "/p"
  fileId := "a.js"
  functionId := "f"
  modules := {}
  customName := none

def newId : String := "test-20240101T000000-1"

def naming : List StoreOperation := [.create untitled, .update newId {} "renamed"]

def untitledMade : Memory :=
  { ticked (ticked emptied) with
    files := emptied.files.put (["d"] ++ [fileName newId])
      (.file (Record.plain newId "").encode.pretty) }

theorem write_untitled : run (shelf.write (.plain newId "")) (ticked (ticked emptied)) =
    (.ok (), untitledMade) := by
  have lies : shelf.LiesAt ["d"] (ticked (ticked emptied)) := liesAt_emptied
  have stages : shelf.Stages (ticked (ticked emptied)) :=
    show (Files.stagedPath [] "d").utf8ByteSize ≤ Files.pathLimit by decide
  have bare : (ticked (ticked emptied)).files.node? (["d"] ++ [fileName newId]) ≠
      some .directory := by
    rw [files_ticked, files_ticked, node?_emptied]
    rintro ⟨⟩
  exact write_ok lies stages (r := .plain newId "") (by decide) (by decide) bare

theorem perform_create_untitled : run (shelf.perform (.create untitled)) emptied =
    (.ok (.record (.plain newId "")), untitledMade) := by
  have made : untitled.toRecord (shelf.freshId (ticked emptied)) (time emptied) =
      .plain newId "" := rfl
  rw [run_perform_create, made, write_untitled]
  rfl

theorem get_untitled :
    run (shelf.get newId) untitledMade = (.ok (.plain newId ""), untitledMade) := by
  have got := get_of_write write_untitled (Record.readsBack_plain newId "")
  rwa [Record.id_plain] at got

theorem perform_update_untitled : ∃ m',
    run (shelf.perform (.update newId {} "renamed")) untitledMade =
      (.ok (.record (.plain newId "renamed")), m') ∧
    run (shelf.get newId) m' = (.ok (.plain newId "renamed"), m') := by
  have empty : emptied.files.node? (["d"] ++ [fileName newId]) ≠ some .directory := by
    rw [node?_emptied]
    rintro ⟨⟩
  have lies : shelf.LiesAt ["d"] (ticked untitledMade) :=
    Files.find_put_join liesAt_emptied empty _
  have stages : shelf.Stages (ticked untitledMade) :=
    show (Files.stagedPath [] "d").utf8ByteSize ≤ Files.pathLimit by decide
  have bare : (ticked untitledMade).files.node? (["d"] ++ [fileName newId]) ≠
      some .directory := by
    rw [files_ticked, untitledMade, Files.node?_put _ _ _ _ (Files.place_ne_nil _ _), if_pos rfl]
    rintro ⟨⟩
  have same : updated (.plain newId "") {} "renamed" (time untitledMade) =
      .plain newId "renamed" := rfl
  have written := write_ok lies stages (r := .plain newId "renamed") (by decide) (by decide) bare
  have got := get_of_write written (Record.readsBack_plain newId "renamed")
  rw [Record.id_plain] at got
  refine ⟨_, ?_, got⟩
  rw [run_perform_update get_untitled, same, written]
  rfl

theorem naming_reads : shelf.WritesReadBack emptied naming := by
  obtain ⟨m', renamed, -⟩ := perform_update_untitled
  refine ⟨fun r given => ?_, fun r given => ?_, trivial⟩
  · change (run (shelf.perform (.create untitled)) emptied).1 = _ at given
    rw [perform_create_untitled] at given
    cases given
    exact Record.readsBack_plain _ _
  · rw [after, perform_create_untitled] at given
    change (run (shelf.perform (.update newId {} "renamed")) untitledMade).1 = _ at given
    rw [renamed] at given
    cases given
    exact Record.readsBack_plain _ _

theorem store_refines_map_naming :
    shelf.LiesAt ["d"] emptied ∧ (∀ name, emptied.files.node? (["d"] ++ [name]) = none) ∧
      (∀ k, (emptied.clock k).HasFourDigitYear) ∧ shelf.WritesReadBack emptied naming ∧
      ∃ M, shelf.Shows ["d"] (shelf.afterAll emptied naming) M ∧
        M.lookup newId = some (.plain newId "renamed") := by
  refine ⟨liesAt_emptied, node?_emptied, clock_emptied, naming_reads, ?_⟩
  obtain ⟨M, shows, -⟩ :=
    store_refines_map liesAt_emptied node?_emptied clock_emptied naming naming_reads
  obtain ⟨m', renamed, got⟩ := perform_update_untitled
  have left : shelf.afterAll emptied naming = m' := by
    rw [afterAll, naming, List.foldl_cons, List.foldl_cons, List.foldl_nil, after, after,
      perform_create_untitled, renamed]
  have found := shows.get newId
  rw [left, got] at found
  exact ⟨M, shows, Catalogue.lookup_of_find (Prod.mk.inj found).1.symm⟩

def letters (n : Nat) : String := String.ofList (List.replicate n 'a')

theorem isValidId_letters {n : Nat} (positive : 0 < n) : isValidId (letters n) = true := by
  rw [isValidId_iff, letters, String.toList_ofList]
  refine ⟨fun empty => ?_, fun c member => ?_⟩
  · rw [List.replicate_eq_nil_iff] at empty
    omega
  · rw [List.eq_of_mem_replicate member]
    rfl

theorem not_fits_letters {n : Nat} (long : 250 < n) : ¬s.Fits (letters n) := by
  rintro ⟨-, short⟩
  have bytes := length_le_utf8ByteSize (fileName (letters n))
  simp only [toList_fileName, letters, String.toList_ofList, List.length_append,
    List.length_replicate, List.length_cons, List.length_nil] at bytes
  rw [letters, Files.nameLimit] at short
  omega

/-- No record has the id, and yet it is not that the record is not found. -/
theorem get_long_id : isValidId (letters 251) = true ∧
    emptied.files.node? (["d"] ++ [fileName (letters 251)]) = none ∧
    run (shelf.get (letters 251)) emptied = (.error (.file .invalidFilename), emptied) :=
  ⟨isValidId_letters (by decide), node?_emptied _,
    get_of_long liesAt_emptied (isValidId_letters (by decide)) (not_fits_letters (by decide))⟩

end Store

end Fixture
