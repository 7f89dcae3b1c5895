import Fixture.Proofs.Host.Detour
import Fixture.Proofs.Store.Directory
import Fixture.Proofs.Store.Order
import Mathlib.Data.List.Perm.Basic

/-!
Searching a directory whatever files it has. A search gives one record for each file that may be
opened and holds one, in order, and nothing else in the directory makes a difference to it: neither
other files nor, if no two records are alike in age and id, the order in which names are listed.
-/

namespace Fixture

open Memory (run)

/-! ## Sorting what is selected -/

section

variable {α : Type} {le : α → α → Bool}
  (trans : ∀ a b c, le a b = true → le b c = true → le a c = true)
  (total : ∀ a b, (le a b || le b a) = true)

include trans total

theorem mergeSort_parted (x : α) (xs : List α) :
    xs.mergeSort le =
        (xs.mergeSort le).filter (fun a => !le x a) ++ (xs.mergeSort le).filter (le x) ∧
      (x :: xs).mergeSort le =
        (xs.mergeSort le).filter (fun a => !le x a) ++ x :: (xs.mergeSort le).filter (le x) := by
  obtain ⟨front, back, whole, rest, before⟩ := List.mergeSort_cons trans total x xs
  have sorted := List.pairwise_mergeSort trans total (x :: xs)
  rw [whole, List.pairwise_append] at sorted
  have after (a : α) (member : a ∈ back) := List.rel_of_pairwise_cons sorted.2.1 member
  have first : (front ++ back).filter (fun a => !le x a) = front := by
    rw [List.filter_append, List.filter_eq_self.2 before,
      List.filter_eq_nil_iff.2 fun a member => by simp [after a member], List.append_nil]
  have last : (front ++ back).filter (le x) = back := by
    rw [List.filter_append, List.filter_eq_self.2 after,
      List.filter_eq_nil_iff.2 fun a member => by simpa using before a member, List.nil_append]
  rw [whole, rest, first, last]
  exact ⟨rfl, rfl⟩

/-- Values may be selected before they are sorted or after it, as those that are equal in order stay
as they stand. -/
theorem filter_mergeSort (P : α → Bool) (xs : List α) :
    (xs.mergeSort le).filter P = (xs.filter P).mergeSort le := by
  induction xs with
  | nil => rw [List.filter_nil, List.mergeSort_nil, List.filter_nil]
  | cons x xs ih =>
    have earlier := List.filter_comm P (fun a => !le x a) (xs.mergeSort le)
    have later := List.filter_comm P (le x) (xs.mergeSort le)
    obtain ⟨parted, with_first⟩ := mergeSort_parted trans total x (xs.filter P)
    rw [(mergeSort_parted trans total x xs).2, List.filter_append, earlier, ih]
    cases wanted : P x with
    | true =>
      rw [List.filter_cons_of_pos wanted, List.filter_cons_of_pos wanted, later, ih, with_first]
    | false =>
      have left : ¬P x = true := by rw [wanted]; decide
      rw [List.filter_cons_of_neg left, List.filter_cons_of_neg left, later, ih, ← parted]

end

namespace Store

variable {s : Store} {place : List String} {m m' : Memory} {fs : Files} {name text : String}
  {r : Record} {f : Filter}

/-- A file in a directory holds a record: it has the name of one, it may be opened there, and its
text is read as the record. -/
structure Contains (s : Store) (place : List String) (fs : Files) (name : String) (r : Record) :
    Prop where
  named : isRecordName name = true
  fits : Files.Fits s.directory name
  text : ∃ text, fs.node? (place ++ [name]) = some (.file text) ∧ Record.decode.ofText text = .ok r

def held? (s : Store) (place : List String) (fs : Files) (name : String) : Option Record :=
  if isRecordName name = true ∧ Files.Fits s.directory name then
    match fs.node? (place ++ [name]) with
    | some (.file text) => (Record.decode.ofText text).toOption
    | _ => none
  else none

theorem held?_eq_some_iff : s.held? place fs name = some r ↔ s.Contains place fs name r := by
  rw [held?]
  constructor
  · intro held
    split at held
    next given =>
      split at held
      next text here =>
        refine ⟨given.1, given.2, text, here, ?_⟩
        cases decoded : Record.decode.ofText text with
        | error e => rw [decoded] at held; cases held
        | ok q =>
          rw [decoded] at held
          exact congrArg Except.ok (Option.some.inj held)
      · cases held
    · cases held
  · rintro ⟨named, fits, text, here, decoded⟩
    rw [if_pos ⟨named, fits⟩, here]
    simp only [decoded, Except.toOption]

theorem Contains.listed (contains : s.Contains place fs name r) : name ∈ fs.namesAt place := by
  obtain ⟨text, here, -⟩ := contains.text
  rw [Files.mem_namesAt, here, Option.isSome_some]

def records (s : Store) (place : List String) (fs : Files) : List Record :=
  (fs.namesAt place).filterMap (s.held? place fs)

theorem found?_eq (lies : s.LiesAt place m) (plain : Path.IsName name)
    (named : isRecordName name = true) (f : Filter) :
    found? f (m.files.readText m.current (Path.join s.directory name)) =
      (s.held? place m.files name).filter f.admitsRecord := by
  by_cases fits : Files.Fits s.directory name
  · rw [Files.readText_join lies plain fits, held?, if_pos ⟨named, fits⟩]
    cases m.files.node? (place ++ [name]) with
    | none => rfl
    | some node =>
      cases node with
      | directory => rfl
      | file text =>
        simp only [found?]
        cases Record.decode.ofText text with
        | error e => rfl
        | ok r => exact Option.filter_some.symm
  · rw [Files.readText_join_long lies plain fits, held?, if_neg fun given => fits given.2]
    rfl

theorem run_list_records (lies : s.LiesAt place m)
    (plain : ∀ name ∈ m.files.namesAt place, Path.IsName name) (f : Filter) :
    run (s.list f) m =
      (.ok (((s.records place m.files).filter f.admitsRecord).mergeSort Record.isBefore), m) := by
  rw [run_list (Files.names_of_find lies), records, List.filter_filterMap, List.filterMap_filter]
  have same : (m.files.namesAt place).filterMap (fun name => if isRecordName name = true then
      found? f (m.files.readText m.current (Path.join s.directory name)) else none) =
        (m.files.namesAt place).filterMap fun name =>
          (s.held? place m.files name).filter f.admitsRecord := by
    refine List.filterMap_congr fun name listed => ?_
    split
    next named => exact found?_eq lies (plain name listed) named f
    next other => rw [held?, if_neg fun given => other given.1, Option.filter_none]
  rw [same]

/-! ## One record for each file -/

/-- Some files and what a search gives: the files are those that hold a record that it is for, each
once, and the records are theirs, one for each file, the older first and of one age the one with the
smaller id. -/
structure Listing (s : Store) (place : List String) (fs : Files) (f : Filter) (names : List String)
    (rs : List Record) : Prop where
  distinct : names.Nodup
  complete : ∀ name, name ∈ names ↔ ∃ r, s.Contains place fs name r ∧ f.admitsRecord r = true
  each : List.Forall₂ (s.Contains place fs) names rs
  ordered : rs.Pairwise fun q r =>
    q.createdAt.compare r.createdAt = .lt ∨ q.createdAt = r.createdAt ∧ q.id ≤ r.id

theorem forall₂_held (s : Store) (place : List String) (fs : Files) (f : Filter)
    (names : List String) :
    List.Forall₂ (s.Contains place fs)
      (names.filter fun name => (s.held? place fs name).any f.admitsRecord)
      ((names.filterMap (s.held? place fs)).filter f.admitsRecord) := by
  induction names with
  | nil => exact .nil
  | cons name names ih =>
    rw [List.filter_cons, List.filterMap_cons]
    cases held : s.held? place fs name with
    | none => exact ih
    | some r =>
      rw [Option.any_some]
      cases wanted : f.admitsRecord r with
      | true =>
        rw [if_pos rfl, List.filter_cons_of_pos wanted]
        exact .cons (held?_eq_some_iff.1 held) ih
      | false =>
        rw [if_neg Bool.false_ne_true, List.filter_cons_of_neg (by rw [wanted]; decide)]
        exact ih

theorem listing_records (s : Store) (place : List String) (fs : Files) (f : Filter) :
    ∃ names, s.Listing place fs f names
      (((s.records place fs).filter f.admitsRecord).mergeSort Record.isBefore) := by
  have each := (s.forall₂_held place fs f (fs.namesAt place)).flip
  obtain ⟨names, sorted, perm⟩ := List.perm_comp_forall₂
    (List.mergeSort_perm ((s.records place fs).filter f.admitsRecord) Record.isBefore) each
  refine ⟨names, ?_, fun name => ?_, sorted.flip, ?_⟩
  · exact perm.nodup_iff.2 ((Files.nodup_namesAt fs place).filter _)
  · rw [perm.mem_iff, List.mem_filter, Option.any_eq_true]
    constructor
    · rintro ⟨-, r, held, wanted⟩
      exact ⟨r, held?_eq_some_iff.1 held, wanted⟩
    · rintro ⟨r, contains, wanted⟩
      exact ⟨contains.listed, r, held?_eq_some_iff.2 contains, wanted⟩
  · exact (Record.pairwise_mergeSort _).imp Record.isBefore_iff_le.1

/-! ## What makes no difference -/

/-- A file that cannot hold a record: it has another name, or its text is not read as one. -/
def Foreign (name text : String) : Prop :=
  isRecordName name = false ∨ ∀ r, Record.decode.ofText text ≠ .ok r

theorem held?_of_foreign (foreign : Foreign name text)
    (here : fs.node? (place ++ [name]) = some (.file text)) : s.held? place fs name = none := by
  rw [Option.eq_none_iff_forall_ne_some]
  intro r held
  obtain ⟨named, -, text', here', decoded⟩ := held?_eq_some_iff.1 held
  obtain rfl : text = text' := by
    rw [here] at here'
    exact Node.file.inj (Option.some.inj here')
  rcases foreign with other | undecoded
  · rw [named] at other
    cases other
  · exact undecoded r decoded

theorem held?_congr {fs' : Files}
    (same : fs'.node? (place ++ [name]) = fs.node? (place ++ [name])) :
    s.held? place fs' name = s.held? place fs name := by
  rw [held?, held?, same]

/-- A file that is added and cannot hold a record adds none. -/
theorem records_put (foreign : Foreign name text) (absent : fs.node? (place ++ [name]) = none) :
    s.records place (fs.put (place ++ [name]) (.file text)) = s.records place fs := by
  have below := Files.place_ne_nil place name
  have put (other : String) :=
    Files.node?_put fs (place ++ [name]) (place ++ [other]) (.file text) below
  have none_here : s.held? place (fs.put (place ++ [name]) (.file text)) name = none :=
    held?_of_foreign foreign ((put name).trans (if_pos rfl))
  rw [records, records, Files.namesAt_put absent, List.filterMap_append]
  simp only [List.filterMap_cons, none_here, List.filterMap_nil, List.append_nil]
  refine List.filterMap_congr fun other listed => held?_congr ?_
  have elsewhere : place ++ [other] ≠ place ++ [name] := by
    intro same
    rw [Files.mem_namesAt, same, absent] at listed
    cases listed
  rw [put other, if_neg elsewhere]

theorem records_erase (foreign : Foreign name text)
    (here : fs.node? (place ++ [name]) = some (.file text)) :
    s.records place (fs.erase (place ++ [name])) = s.records place fs := by
  have below := Files.place_ne_nil place name
  rw [records, records, Files.namesAt_erase, List.filterMap_filter]
  refine List.filterMap_congr fun other _ => ?_
  by_cases gone : other = name
  · rw [if_neg (by simp [gone]), gone, held?_of_foreign foreign here]
  · rw [if_pos (by simpa using gone)]
    refine held?_congr ?_
    rw [Files.node?_erase _ _ _ below, if_neg fun same => gone (Files.place_inj same)]

/-- No two files of a directory hold records that are alike in age and id. -/
def Apart (s : Store) (place : List String) (fs : Files) : Prop :=
  ∀ name name' q r, s.Contains place fs name q → s.Contains place fs name' r →
    q.createdAt = r.createdAt → q.id = r.id → name = name'

theorem records_perm {fs' : Files}
    (same : ∀ name, fs'.node? (place ++ [name]) = fs.node? (place ++ [name])) :
    (s.records place fs').Perm (s.records place fs) := by
  have held : s.held? place fs' = s.held? place fs := funext fun name => held?_congr (same name)
  have names : (fs'.namesAt place).Perm (fs.namesAt place) := by
    refine (List.perm_ext_iff_of_nodup (Files.nodup_namesAt _ _) (Files.nodup_namesAt _ _)).2 ?_
    intro name
    rw [Files.mem_namesAt, Files.mem_namesAt, same]
  rw [records, records, held]
  exact names.filterMap _

theorem mem_records : r ∈ s.records place fs ↔ ∃ name, s.Contains place fs name r := by
  rw [records, List.mem_filterMap]
  constructor
  · rintro ⟨name, -, held⟩
    exact ⟨name, held?_eq_some_iff.1 held⟩
  · rintro ⟨name, contains⟩
    exact ⟨name, contains.listed, held?_eq_some_iff.2 contains⟩

theorem Contains.unique {q : Record} (first : s.Contains place fs name q)
    (second : s.Contains place fs name r) : q = r :=
  Option.some.inj ((held?_eq_some_iff.2 first).symm.trans (held?_eq_some_iff.2 second))

/-- Records that are apart are sorted in one way only. -/
theorem mergeSort_eq_of_perm {rs rs' : List Record} (apart : s.Apart place fs)
    (within : ∀ r ∈ rs, r ∈ s.records place fs) (perm : rs'.Perm rs) :
    rs'.mergeSort Record.isBefore = rs.mergeSort Record.isBefore := by
  refine List.Perm.eq_of_pairwise (fun q r member member' first second => ?_)
    (Record.pairwise_mergeSort rs') (Record.pairwise_mergeSort rs)
    ((List.mergeSort_perm rs' _).trans (perm.trans (List.mergeSort_perm rs _).symm))
  rw [List.mem_mergeSort] at member member'
  obtain ⟨name, contains⟩ := mem_records.1 (within q (perm.mem_iff.1 member))
  obtain ⟨name', contains'⟩ := mem_records.1 (within r member')
  obtain ⟨age, id⟩ := Record.same_of_isBefore first second
  obtain rfl := apart name name' q r contains contains' age id
  exact contains.unique contains'

/-! ## Searching -/

section

variable (lies : s.LiesAt place m) (plain : ∀ name ∈ m.files.namesAt place, Path.IsName name)

include lies plain

theorem list_put (foreign : Foreign name text) (named : Path.IsName name)
    (absent : m.files.node? (place ++ [name]) = none) (f : Filter) :
    (run (s.list f) { m with files := m.files.put (place ++ [name]) (.file text) }).1 =
      (run (s.list f) m).1 := by
  have lies' : s.LiesAt place { m with files := m.files.put (place ++ [name]) (.file text) } :=
    Files.find_put_join lies (by rw [absent]; exact fun same => nomatch same) text
  have plain' : ∀ other ∈ (m.files.put (place ++ [name]) (.file text)).namesAt place,
      Path.IsName other := by
    rw [Files.namesAt_put absent]
    exact List.forall_mem_append.2 ⟨plain, List.forall_mem_singleton.2 named⟩
  rw [run_list_records lies' plain' f, run_list_records lies plain f, records_put foreign absent]

theorem list_erase (foreign : Foreign name text)
    (here : m.files.node? (place ++ [name]) = some (.file text)) (f : Filter) :
    (run (s.list f) { m with files := m.files.erase (place ++ [name]) }).1 =
      (run (s.list f) m).1 := by
  have lies' : s.LiesAt place { m with files := m.files.erase (place ++ [name]) } :=
    Files.find_erase_join lies (by rw [here]; exact fun same => nomatch same)
  have plain' : ∀ other ∈ (m.files.erase (place ++ [name])).namesAt place, Path.IsName other := by
    rw [Files.namesAt_erase]
    exact fun other listed => plain other (List.mem_of_mem_filter listed)
  rw [run_list_records lies' plain' f, run_list_records lies plain f, records_erase foreign here]

theorem list_reordered (apart : s.Apart place m.files) (lies' : s.LiesAt place m')
    (same : ∀ name, m'.files.node? (place ++ [name]) = m.files.node? (place ++ [name]))
    (f : Filter) : (run (s.list f) m').1 = (run (s.list f) m).1 := by
  have plain' : ∀ name ∈ m'.files.namesAt place, Path.IsName name := by
    intro name listed
    rw [Files.mem_namesAt, same, ← Files.mem_namesAt] at listed
    exact plain name listed
  have perm := (records_perm (s := s) same).filter f.admitsRecord
  rw [run_list_records lies' plain' f, run_list_records lies plain f,
    mergeSort_eq_of_perm apart (fun r => List.mem_of_mem_filter) perm]

/-- A search of a directory gives one record, in order, for each file that holds one that it is for,
and it gives what the search for everything gives less what it is not for. Files that cannot hold a
record make no difference, and if no two records are alike in age and id, the order of the names
makes none. -/
theorem list_exact_in_any_order :
    (∀ f, ∃ names rs, run (s.list f) m = (.ok rs, m) ∧ s.Listing place m.files f names rs) ∧
    (∀ f, ∃ rs, run (s.list {}) m = (.ok rs, m) ∧
      run (s.list f) m = (.ok (rs.filter f.admitsRecord), m)) ∧
    (∀ f name text, Foreign name text →
      (Path.IsName name → m.files.node? (place ++ [name]) = none →
        (run (s.list f) { m with files := m.files.put (place ++ [name]) (.file text) }).1 =
          (run (s.list f) m).1) ∧
      (m.files.node? (place ++ [name]) = some (.file text) →
        (run (s.list f) { m with files := m.files.erase (place ++ [name]) }).1 =
          (run (s.list f) m).1)) ∧
    (s.Apart place m.files → ∀ m' : Memory, s.LiesAt place m' →
      (∀ name, m'.files.node? (place ++ [name]) = m.files.node? (place ++ [name])) →
      ∀ f, (run (s.list f) m').1 = (run (s.list f) m).1) := by
  have ran := run_list_records lies plain
  refine ⟨fun f => ?_, fun f => ?_, fun f name text foreign => ⟨fun named absent => ?_, ?_⟩,
    fun apart m' lies' same => list_reordered lies plain apart lies' same⟩
  · obtain ⟨names, listing⟩ := s.listing_records place m.files f
    exact ⟨names, _, ran f, listing⟩
  · have all : (s.records place m.files).filter (Filter.admitsRecord {}) =
        s.records place m.files := List.filter_eq_self.2 fun r _ => rfl
    refine ⟨_, ran {}, ?_⟩
    rw [ran f, all, @filter_mergeSort Record Record.isBefore (fun _ _ _ => Record.isBefore_trans)
      Record.isBefore_total]
  · exact list_put lies plain foreign named absent f
  · exact fun here => list_erase lies plain foreign here f

end

/-- A directory of two records, of other texts and of a directory that is named like a record. -/
def cluttered : Memory where
  files := {
    nodes := [(["d"], .directory), (["d", "b.json"], .file (Record.plain "t" "").encode.pretty),
      (["d", "notes.txt"], .file (Record.plain "n" "").encode.pretty),
      (["d", "c.json"], .directory), (["d", "bad.json"], .file ""),
      (["d", "a.json"], .file (Record.plain "u" "").encode.pretty)]
    nodup := by simp }
  clock := fun _ => newYear

def reshuffled : Memory where
  files := {
    nodes := cluttered.files.nodes.reverse
    nodup := by simp [cluttered] }
  clock := fun _ => newYear

theorem names_cluttered {name : String} (listed : name ∈ cluttered.files.namesAt ["d"]) :
    name = "b.json" ∨ name = "notes.txt" ∨ name = "c.json" ∨ name = "bad.json" ∨
      name = "a.json" := by
  simpa [Files.namesAt, cluttered] using listed

theorem contains_cluttered {name : String} {r : Record}
    (contains : shelf.Contains ["d"] cluttered.files name r) :
    name = "b.json" ∧ r = Record.plain "t" "" ∨ name = "a.json" ∧ r = Record.plain "u" "" := by
  have listed := contains.listed
  obtain ⟨named, -, text, here, decoded⟩ := contains
  have held (id : String) (same : text = (Record.plain id "").encode.pretty) :
      r = Record.plain id "" := by
    rw [same] at decoded
    exact Except.ok.inj (decoded.symm.trans (Record.readsBack_plain id ""))
  rcases names_cluttered listed with rfl | rfl | rfl | rfl | rfl
  · exact .inl ⟨rfl, held "t" (Node.file.inj (Option.some.inj here)).symm⟩
  · exact absurd named (by decide)
  · cases here
  · obtain rfl : "" = text := Node.file.inj (Option.some.inj here)
    cases decoded
  · exact .inr ⟨rfl, held "u" (Node.file.inj (Option.some.inj here)).symm⟩

theorem apart_cluttered : shelf.Apart ["d"] cluttered.files := by
  intro name name' q r contains contains' _ id
  rcases contains_cluttered contains with ⟨rfl, rfl⟩ | ⟨rfl, rfl⟩ <;>
    rcases contains_cluttered contains' with ⟨rfl, rfl⟩ | ⟨rfl, rfl⟩
  · rfl
  · exact absurd id (by decide)
  · exact absurd id (by decide)
  · rfl

/-- The records of the two files are found, and neither a file without a text more, nor one with
another name less, nor another order of the names makes a difference. -/
theorem list_exact_in_any_order_cluttered :
    shelf.LiesAt ["d"] cluttered ∧ (∀ name ∈ cluttered.files.namesAt ["d"], Path.IsName name) ∧
      shelf.Apart ["d"] cluttered.files ∧
      (∃ names rs, run (shelf.list {}) cluttered = (.ok rs, cluttered) ∧
        shelf.Listing ["d"] cluttered.files {} names rs) ∧
      (run (shelf.list {}) { cluttered with
        files := cluttered.files.put ["d", "z.json"] (.file "") }).1 =
          (run (shelf.list {}) cluttered).1 ∧
      (run (shelf.list {}) { cluttered with
        files := cluttered.files.erase ["d", "notes.txt"] }).1 =
          (run (shelf.list {}) cluttered).1 ∧
      (run (shelf.list {}) reshuffled).1 = (run (shelf.list {}) cluttered).1 := by
  have lies : shelf.LiesAt ["d"] cluttered := rfl
  have plain : ∀ name ∈ cluttered.files.namesAt ["d"], Path.IsName name := by
    intro name listed
    rcases names_cluttered listed with rfl | rfl | rfl | rfl | rfl <;>
      exact ⟨by decide, by decide, by decide, by decide⟩
  obtain ⟨found, -, others, order⟩ := list_exact_in_any_order lies plain
  have unread : Foreign "z.json" "" := .inr fun r decoded => by cases decoded
  have name : Path.IsName "z.json" := ⟨by decide, by decide, by decide, by decide⟩
  refine ⟨lies, plain, apart_cluttered, found {}, ?_, ?_, ?_⟩
  · exact (others {} "z.json" "" unread).1 name rfl
  · exact (others {} "notes.txt" _ (.inl rfl)).2 rfl
  · exact order apart_cluttered reshuffled rfl
      (fun name => Files.node?_of_perm (List.reverse_perm _) _) {}

def shelved : Memory where
  files := {
    nodes := [(["d"], .directory), (["d", "t.json"], .file (Record.plain "t" "").encode.pretty)]
    nodup := by simp }
  clock := fun _ => newYear

def farShelf : Store := ⟨Path.detour 2045 "d"⟩

/-- A directory can be listed by a path that is too long to open the files in it, so that a record
there is not found. -/
theorem list_misses_far_record :
    farShelf.LiesAt ["d"] shelved ∧ isRecordName "t.json" = true ∧
      shelved.files.node? ["d", "t.json"] = some (.file (Record.plain "t" "").encode.pretty) ∧
      Record.decode.ofText (Record.plain "t" "").encode.pretty = .ok (Record.plain "t" "") ∧
      Filter.admitsRecord {} (Record.plain "t" "") = true ∧
      run (farShelf.list {}) shelved = (.ok [], shelved) := by
  have lies : farShelf.LiesAt ["d"] shelved := by
    have reached : shelved.files.resolve [] (Path.detour 2045 "d") = .ok ["d"] := by
      rw [Files.resolve_detour rfl (by decide) (by decide) (by decide) 2045 (by decide)]
      rfl
    exact Files.find_of_resolve reached
  have plain : ∀ name ∈ shelved.files.namesAt ["d"], Path.IsName name := by
    intro name listed
    obtain rfl : name = "t.json" := by simpa [Files.namesAt, shelved] using listed
    exact ⟨by decide, by decide, by decide, by decide⟩
  have long : ¬Files.Fits farShelf.directory "t.json" := by
    intro fits
    have relative : "t.json".toList.head? ≠ some '/' := by decide
    have least := Path.le_utf8ByteSize_join relative farShelf.directory
    have size : farShelf.directory.utf8ByteSize = 2 * 2045 + 1 := Path.utf8ByteSize_detour 2045 "d"
    have name : "t.json".utf8ByteSize = 6 := rfl
    have limit : Files.pathLimit = 4095 := rfl
    have whole := fits.1
    omega
  refine ⟨lies, by decide, rfl, Record.readsBack_plain "t" "", rfl, ?_⟩
  have none_held : farShelf.held? ["d"] shelved.files "t.json" = none :=
    if_neg fun given => long given.2
  have names : shelved.files.namesAt ["d"] = ["t.json"] := by simp [Files.namesAt, shelved]
  have empty : farShelf.records ["d"] shelved.files = [] := by
    rw [records, names, List.filterMap_cons, none_held, List.filterMap_nil]
  rw [run_list_records lies plain, empty, List.filter_nil, List.mergeSort_nil]

end Store

end Fixture
