import Fixture.Proofs.Store.Listing
import Mathlib.Data.Finmap

/-!
A store as a finite map from ids to records. The files of a directory hold a map, if each is the text
of a record under the name of its id. They hold the new map once a record is put under its id or taken
away (`Holds.insert`, `Holds.erase`), and what is got and listed is what the map has (`Holds.get`,
`Holds.list`).
-/

namespace Fixture

open Memory (run)

abbrev Catalogue := Finmap fun _ : String => Record

inductive StoreOperation where
  | create (n : NewRecord)
  | update (id : String) (modules : Modules) (customName : String)
  | delete (id : String)
  | save (d : Draft)

inductive StoreAnswer where
  | record (r : Record)
  | draft (d : Draft)
  | done

def StoreAnswer.saved : StoreAnswer → StoreAnswer
  | .record r => .draft r.toDraft
  | answer => answer

/-- Saving a draft changes its record, if it has one, and otherwise makes one. -/
def StoreOperation.ofDraft (d : Draft) : StoreOperation :=
  match d.id with
  | some id => .update id d.modules d.customName
  | none => .create (.ofDraft d)

namespace Store

variable {s : Store} {place : List String} {m m' : Memory} {M : Catalogue} {id : String} {r : Record}

def perform (s : Store) : StoreOperation → ExceptT StoreError (StateM Memory) StoreAnswer
  | .create n => .record <$> s.create n
  | .update id modules customName => .record <$> s.update id modules customName
  | .delete id => (fun _ => .done) <$> s.delete id
  | .save d => .draft <$> s.save d

def after (s : Store) (m : Memory) (op : StoreOperation) : Memory := (run (s.perform op) m).2

def afterAll (s : Store) (m : Memory) (ops : List StoreOperation) : Memory := ops.foldl s.after m

/-- The files in a directory are the texts of the records in a map, each under the name of its id. -/
structure Holds (s : Store) (place : List String) (m : Memory) (M : Catalogue) : Prop where
  lies : s.LiesAt place m
  node : ∀ name node, m.files.node? (place ++ [name]) = some node ↔
    ∃ id r, M.lookup id = some r ∧ name = fileName id ∧ node = .file r.encode.pretty
  own : ∀ {id r}, M.lookup id = some r → r.id = id
  valid : ∀ {id r}, M.lookup id = some r → isValidId id = true
  fits : ∀ {id r}, M.lookup id = some r → s.Fits id
  reads : ∀ {id r}, M.lookup id = some r → r.ReadsBack

end Store

def Catalogue.find (M : Catalogue) (s : Store) (id : String) : Except StoreError Record :=
  if Store.isValidId id then
    match M.lookup id with
    | some r => .ok r
    | none => .error (if s.Fits id then .notFound id else .file .invalidFilename)
  else .error (.invalidId id)

theorem Catalogue.lookup_of_find {M : Catalogue} {s : Store} {id : String} {r : Record}
    (found : M.find s id = .ok r) : M.lookup id = some r := by
  rw [find] at found
  split at found
  · split at found
    next present => rw [present, Except.ok.inj found]
    · cases found
  · cases found

/-- Where there is no record under an id, either it is no id or there is nothing in its place. -/
theorem Catalogue.find_error {M : Catalogue} {s : Store} {id : String} {e : StoreError}
    (failed : M.find s id = .error e) :
    Store.isValidId id = false ∧ e = .invalidId id ∨
      Store.isValidId id = true ∧ M.lookup id = none ∧
        e = if s.Fits id then .notFound id else .file .invalidFilename := by
  rw [find] at failed
  split at failed
  next valid =>
    split at failed
    · cases failed
    next absent => exact .inr ⟨valid, absent, (Except.error.inj failed).symm⟩
  next invalid => exact .inl ⟨Bool.eq_false_iff.2 invalid, (Except.error.inj failed).symm⟩

namespace Store.Holds

variable {s : Store} {place : List String} {m m' : Memory} {M : Catalogue} {id : String} {r : Record}

theorem node_of_lookup (holds : s.Holds place m M) (present : M.lookup id = some r) :
    m.files.node? (place ++ [fileName id]) = some (.file r.encode.pretty) :=
  (holds.node _ _).2 ⟨id, r, present, rfl, rfl⟩

theorem node_of_absent (holds : s.Holds place m M) (absent : M.lookup id = none) :
    m.files.node? (place ++ [fileName id]) = none := by
  cases here : m.files.node? (place ++ [fileName id]) with
  | none => rfl
  | some node =>
    obtain ⟨other, r, present, same, -⟩ := (holds.node _ _).1 here
    rw [← fileName_injective same, absent] at present
    cases present

theorem bare (holds : s.Holds place m M) (name : String) :
    m.files.node? (place ++ [name]) ≠ some .directory := by
  intro here
  obtain ⟨id, r, -, -, file⟩ := (holds.node _ _).1 here
  cases file

theorem decoded (holds : s.Holds place m M) (present : M.lookup id = some r) :
    Record.decode.ofText r.encode.pretty = .ok r := holds.reads present

theorem congr (holds : s.Holds place m M) (files : m'.files = m.files)
    (current : m'.current = m.current) : s.Holds place m' M := by
  refine ⟨?_, ?_, holds.own, holds.valid, holds.fits, holds.reads⟩
  · rw [LiesAt, files, current]
    exact holds.lies
  · rw [files]
    exact holds.node

theorem insert (holds : s.Holds place m M) (valid : isValidId r.id = true) (fits : s.Fits r.id)
    (reads : r.ReadsBack)
    (files : m'.files = m.files.put (place ++ [fileName r.id]) (.file r.encode.pretty))
    (current : m'.current = m.current) : s.Holds place m' (M.insert r.id r) := by
  have inside {id : String} {q : Record} : (M.insert r.id r).lookup id = some q ↔
      id = r.id ∧ q = r ∨ id ≠ r.id ∧ M.lookup id = some q := by
    by_cases same : id = r.id
    · subst same
      simp [Finmap.lookup_insert, eq_comm]
    · simp [Finmap.lookup_insert_of_ne _ same, same]
  refine ⟨?_, fun name node => ?_, ?_, ?_, ?_, ?_⟩
  · rw [LiesAt, files, current]
    exact Files.find_put_join holds.lies (holds.bare _) _
  · rw [files, Files.node?_put _ _ _ _ (Files.place_ne_nil place _)]
    by_cases same : name = fileName r.id
    · subst same
      rw [if_pos rfl]
      constructor
      · rintro ⟨⟩
        exact ⟨r.id, r, inside.2 (.inl ⟨rfl, rfl⟩), rfl, rfl⟩
      · rintro ⟨id, q, present, name, rfl⟩
        rcases inside.1 present with ⟨-, rfl⟩ | ⟨other, -⟩
        · rfl
        · exact absurd (fileName_injective name).symm other
    · rw [if_neg fun place => same (Files.place_inj place), holds.node]
      constructor
      · rintro ⟨id, q, present, rfl, rfl⟩
        exact ⟨id, q, inside.2 (.inr ⟨fun own => same (own ▸ rfl), present⟩), rfl, rfl⟩
      · rintro ⟨id, q, present, rfl, rfl⟩
        rcases inside.1 present with ⟨rfl, -⟩ | ⟨-, old⟩
        · exact absurd rfl same
        · exact ⟨id, q, old, rfl, rfl⟩
  all_goals
    intro id q present
    rcases inside.1 present with ⟨rfl, rfl⟩ | ⟨-, old⟩
  · rfl
  · exact holds.own old
  · exact valid
  · exact holds.valid old
  · exact fits
  · exact holds.fits old
  · exact reads
  · exact holds.reads old

theorem erase (holds : s.Holds place m M) (id : String)
    (files : m'.files = m.files.erase (place ++ [fileName id])) (current : m'.current = m.current) :
    s.Holds place m' (M.erase id) := by
  have inside {other : String} {q : Record} : (M.erase id).lookup other = some q ↔
      other ≠ id ∧ M.lookup other = some q := by
    by_cases same : other = id
    · subst same
      simp [Finmap.lookup_erase]
    · simp [Finmap.lookup_erase_ne same, same]
  refine ⟨?_, fun name node => ?_, ?_, ?_, ?_, ?_⟩
  · rw [LiesAt, files, current]
    exact Files.find_erase_join holds.lies (holds.bare _)
  · rw [files, Files.node?_erase _ _ _ (Files.place_ne_nil place _)]
    by_cases same : name = fileName id
    · subst same
      rw [if_pos rfl]
      constructor
      · rintro ⟨⟩
      · rintro ⟨other, q, present, name, -⟩
        exact absurd (fileName_injective name).symm (inside.1 present).1
    · rw [if_neg fun place => same (Files.place_inj place), holds.node]
      constructor
      · rintro ⟨other, q, present, rfl, rfl⟩
        exact ⟨other, q, inside.2 ⟨fun own => same (own ▸ rfl), present⟩, rfl, rfl⟩
      · rintro ⟨other, q, present, rfl, rfl⟩
        exact ⟨other, q, (inside.1 present).2, rfl, rfl⟩
  all_goals
    intro other q present
  · exact holds.own (inside.1 present).2
  · exact holds.valid (inside.1 present).2
  · exact holds.fits (inside.1 present).2
  · exact holds.reads (inside.1 present).2

/-! ## What is read -/

theorem get (holds : s.Holds place m M) (id : String) :
    run (s.get id) m = (M.find s id, m) := by
  rw [Catalogue.find]
  cases valid : isValidId id with
  | false => exact get_of_invalid valid m
  | true =>
    rw [if_pos rfl]
    cases present : M.lookup id with
    | some r =>
      rw [get_of_file holds.lies valid (holds.fits present) (holds.node_of_lookup present),
        holds.decoded present]
      rfl
    | none =>
      by_cases fits : s.Fits id
      · rw [if_pos fits]
        exact get_of_absent holds.lies valid fits (holds.node_of_absent present)
      · rw [if_neg fits]
        exact get_of_long holds.lies valid fits

theorem mem_names (holds : s.Holds place m M) {name : String} :
    name ∈ m.files.namesAt place ↔ ∃ id r, M.lookup id = some r ∧ name = fileName id := by
  rw [Files.mem_namesAt, Option.isSome_iff_exists]
  constructor
  · rintro ⟨node, here⟩
    obtain ⟨id, r, present, same, -⟩ := (holds.node name node).1 here
    exact ⟨id, r, present, same⟩
  · rintro ⟨id, r, present, rfl⟩
    exact ⟨_, holds.node_of_lookup present⟩

theorem contains_iff (holds : s.Holds place m M) {name : String} :
    s.Contains place m.files name r ↔ M.lookup r.id = some r ∧ name = fileName r.id := by
  constructor
  · rintro ⟨-, -, text, here, decoded⟩
    obtain ⟨id, q, present, rfl, same⟩ := (holds.node _ _).1 here
    obtain rfl := Node.file.inj same
    obtain rfl := Except.ok.inj ((holds.decoded present).symm.trans decoded)
    rw [holds.own present]
    exact ⟨present, rfl⟩
  · rintro ⟨present, rfl⟩
    exact ⟨isRecordName_fileName (holds.valid present), holds.fits present, _,
      holds.node_of_lookup present, holds.decoded present⟩

theorem mem_records_iff (holds : s.Holds place m M) :
    r ∈ s.records place m.files ↔ M.lookup r.id = some r := by
  rw [mem_records]
  simp only [holds.contains_iff, exists_and_left, exists_eq, and_true]

theorem pairwise_records (holds : s.Holds place m M) :
    (s.records place m.files).Pairwise fun q r => q.id ≠ r.id := by
  refine List.Pairwise.filterMap _ ?_ (Files.nodup_namesAt m.files place)
  intro name name' different q held r held' same
  obtain ⟨-, rfl⟩ := holds.contains_iff.1 (held?_eq_some_iff.1 held)
  obtain ⟨-, rfl⟩ := holds.contains_iff.1 (held?_eq_some_iff.1 held')
  exact different (congrArg fileName same)

theorem list (holds : s.Holds place m M) (f : Filter) :
    ∃ rs, run (s.list f) m = (.ok rs, m) ∧
      (∀ r, r ∈ rs ↔ M.lookup r.id = some r ∧ f.admitsRecord r = true) ∧
      rs.Pairwise fun q r => q.id ≠ r.id ∧
        (q.createdAt.compare r.createdAt = .lt ∨ q.createdAt = r.createdAt ∧ q.id < r.id) := by
  have plain : ∀ name ∈ m.files.namesAt place, Path.IsName name := by
    intro name listed
    obtain ⟨id, r, present, rfl⟩ := holds.mem_names.1 listed
    exact isName_fileName (holds.valid present)
  refine ⟨_, run_list_records holds.lies plain f, fun r => ?_, ?_⟩
  · rw [List.mem_mergeSort, List.mem_filter, holds.mem_records_iff]
  · have sorted := Record.pairwise_mergeSort ((s.records place m.files).filter f.admitsRecord)
    have different := (List.Perm.pairwise_iff (fun apart => Ne.symm apart)
      (List.mergeSort_perm _ Record.isBefore)).2 (holds.pairwise_records.filter f.admitsRecord)
    refine (sorted.and different).imp fun both => ⟨both.2, (Record.isBefore_iff both.2).1 both.1⟩

end Store.Holds

end Fixture
