import Fixture.Proofs.Store.Refinement
import Fixture.Proofs.Store.Save
import Mathlib.Data.Set.Insert

/-!
Saving drafts where every record is in the file of its own id. What a save writes is one record: a new
one, under an id that none has, or one in the place of the record under its id. Nothing else changes,
what was written is found, and it can be written again.
-/

namespace Fixture

def Record.touched (r : Record) (now : Timestamp) : Record := { r with updatedAt := now }

theorem Record.id_touched (r : Record) (now : Timestamp) : (r.touched now).id = r.id := rfl

theorem Record.toDraft_touched (r : Record) (now : Timestamp) :
    (r.touched now).toDraft = r.toDraft := rfl

namespace Store

open Memory (run)

variable {s : Store} {place : List String} {m m₁ m' : Memory} {id : String} {r old : Record}
  {d saved : Draft}

/-! ## The records of a directory -/

/-- Every file of a directory that may hold a record holds one, and has the name for its id. -/
def OwnNames (place : List String) (m : Memory) : Prop :=
  ∀ name text, isRecordName name = true → m.files.node? (place ++ [name]) = some (.file text) →
    ∃ r, Record.decode.ofText text = .ok r ∧ name = fileName r.id

def recordsAt (place : List String) (m : Memory) : Set Record :=
  {r | ∃ name text, isRecordName name = true ∧
    m.files.node? (place ++ [name]) = some (.file text) ∧ Record.decode.ofText text = .ok r}

structure Adds (place : List String) (m : Memory) (r : Record) (m' : Memory) : Prop where
  absent : m.files.node? (place ++ [fileName r.id]) = none
  fresh : ∀ q ∈ recordsAt place m, q.id ≠ r.id
  records : recordsAt place m' = insert r (recordsAt place m)
  elsewhere : ∀ other, other ≠ place ++ [fileName r.id] →
    m'.files.node? other = m.files.node? other

structure Changes (place : List String) (m : Memory) (old r : Record) (m' : Memory) : Prop where
  id : r.id = old.id
  present : old ∈ recordsAt place m
  records : recordsAt place m' = insert r (recordsAt place m \ {old})
  elsewhere : ∀ other, other ≠ place ++ [fileName r.id] →
    m'.files.node? other = m.files.node? other

namespace OwnNames

theorem file (own : OwnNames place m) {q : Record} (listed : q ∈ recordsAt place m) :
    isRecordName (fileName q.id) = true ∧ ∃ text,
      m.files.node? (place ++ [fileName q.id]) = some (.file text) ∧
      Record.decode.ofText text = .ok q := by
  obtain ⟨name, text, may, here, decoded⟩ := listed
  obtain ⟨q', decoded', rfl⟩ := own name text may here
  obtain rfl := Except.ok.inj (decoded.symm.trans decoded')
  exact ⟨may, text, here, decoded⟩

theorem eq_of_id (own : OwnNames place m) {q q' : Record} (first : q ∈ recordsAt place m)
    (second : q' ∈ recordsAt place m) (same : q.id = q'.id) : q = q' := by
  obtain ⟨-, text, here, decoded⟩ := own.file first
  obtain ⟨-, text', here', decoded'⟩ := own.file second
  rw [same, here'] at here
  obtain rfl := Node.file.inj (Option.some.inj here)
  exact Except.ok.inj (decoded.symm.trans decoded')

end OwnNames

/-! ## What is written -/

section

variable (valid : isValidId r.id = true) (reads : r.ReadsBack)
  (left : m'.files = m.files.put (place ++ [fileName r.id]) (.file r.encode.pretty))

include left

theorem elsewhere_of_put (other : List String) (elsewhere : other ≠ place ++ [fileName r.id]) :
    m'.files.node? other = m.files.node? other := by
  rw [left, Files.node?_put _ _ _ _ (Files.place_ne_nil _ _), if_neg elsewhere]

theorem here_of_put :
    m'.files.node? (place ++ [fileName r.id]) = some (.file r.encode.pretty) := by
  rw [left, Files.node?_put _ _ _ _ (Files.place_ne_nil _ _), if_pos rfl]

theorem name_ne_of_put {name : String} (other : name ≠ fileName r.id) :
    m'.files.node? (place ++ [name]) = m.files.node? (place ++ [name]) :=
  elsewhere_of_put left _ fun same =>
    other (Files.place_inj same)

include reads

theorem OwnNames.put (own : OwnNames place m) : OwnNames place m' := by
  intro name text may here
  by_cases same : name = fileName r.id
  · subst same
    rw [here_of_put left] at here
    obtain rfl := Node.file.inj (Option.some.inj here)
    exact ⟨r, reads, rfl⟩
  · rw [name_ne_of_put left same] at here
    exact own name text may here

include valid

/-- The record takes the place of the one with its id, if there is any. -/
theorem OwnNames.recordsAt_put (own : OwnNames place m) :
    recordsAt place m' = insert r {q ∈ recordsAt place m | q.id ≠ r.id} := by
  have may := isRecordName_fileName valid
  -- Names and ids tell each other, before and after, so another id is another file.
  ext q
  constructor
  · intro listed
    obtain ⟨named, text, here, decoded⟩ := (own.put reads left).file listed
    by_cases same : q.id = r.id
    · rw [same, here_of_put left] at here
      obtain rfl := Node.file.inj (Option.some.inj here)
      exact .inl (Except.ok.inj (decoded.symm.trans reads))
    · rw [name_ne_of_put left fun names => same (fileName_injective names)] at here
      exact .inr ⟨⟨_, text, named, here, decoded⟩, same⟩
  · rintro (rfl | ⟨listed, other⟩)
    · exact ⟨_, _, may, here_of_put left, reads⟩
    · obtain ⟨named, text, here, decoded⟩ := own.file listed
      rw [← name_ne_of_put left fun names => other (fileName_injective names)] at here
      exact ⟨_, text, named, here, decoded⟩

theorem OwnNames.adds (own : OwnNames place m)
    (absent : m.files.node? (place ++ [fileName r.id]) = none) : Adds place m r m' := by
  have fresh : ∀ q ∈ recordsAt place m, q.id ≠ r.id := by
    intro q listed same
    obtain ⟨-, text, here, -⟩ := own.file listed
    rw [same, absent] at here
    cases here
  refine ⟨absent, fresh, ?_, elsewhere_of_put left⟩
  rw [own.recordsAt_put valid reads left, Set.sep_eq_self_iff_mem_true.2 fresh]

theorem OwnNames.changes (own : OwnNames place m) (id : r.id = old.id)
    (present : old ∈ recordsAt place m) : Changes place m old r m' := by
  refine ⟨id, present, ?_, elsewhere_of_put left⟩
  have others : {q ∈ recordsAt place m | q.id ≠ r.id} = recordsAt place m \ {old} := by
    ext q
    refine and_congr_right fun listed => not_congr ⟨fun same => ?_, fun same => ?_⟩
    · exact own.eq_of_id listed present (same.trans id)
    · rw [Set.mem_singleton_iff.1 same, id]
  rw [own.recordsAt_put valid reads left, others]

end

/-! ## What a save writes -/

namespace Writes

theorem run_perform (writes : s.Writes d m r m₁) :
    run (s.perform (StoreOperation.save d).plain) m =
      ((run (s.write r) m₁).1.map fun _ => .record r, (run (s.write r) m₁).2) := by
  rw [StoreOperation.plain, StoreOperation.ofDraft]
  cases writes with
  | new unsaved =>
    rw [unsaved]
    exact run_perform_create s _ m
  | old identified got =>
    rw [identified]
    exact run_perform_update got _ _

theorem writesReadBack_iff (writes : s.Writes d m r m₁) :
    s.WritesReadBack m [.save d] ↔ ((run (s.write r) m₁).1 = .ok () → r.ReadsBack) := by
  rw [WritesReadBack, WritesReadBack, and_true, writes.run_perform]
  constructor
  · intro reads written
    refine reads r ?_
    rw [written]
    rfl
  · intro reads q given
    cases written : (run (s.write r) m₁).1 with
    | error e => rw [written] at given; cases given
    | ok _ =>
      rw [written] at given
      obtain rfl := StoreAnswer.record.inj (Except.ok.inj given)
      exact reads written

end Writes

theorem toDraft_toRecord (d : Draft) (id : String) (now : Timestamp) :
    ((NewRecord.ofDraft d).toRecord id now).toDraft = { d with id := some id } := by
  have name : (if d.customName.isEmpty then none else some d.customName).getD "" =
      d.customName := by
    split
    next empty => rw [Option.getD_none, String.isEmpty_iff.1 empty]
    · rfl
  rw [Record.toDraft, NewRecord.toRecord, NewRecord.ofDraft, name]

/-! ## After a save -/

theorem file_of_get (lies : s.LiesAt place m) (got : run (s.get id) m = (.ok r, m)) :
    isValidId id = true ∧ ∃ text,
      m.files.node? (place ++ [fileName id]) = some (.file text) ∧
      Record.decode.ofText text = .ok r := by
  obtain ⟨-, valid, text, read, decoded⟩ := get_inv got
  obtain ⟨target, reached, here⟩ := Files.readText_inv read
  rw [pathOf, Files.resolve_join lies (isName_fileName valid)] at reached
  split at reached
  · obtain rfl := Except.ok.inj reached
    exact ⟨valid, text, here, decoded⟩
  · cases reached

theorem OwnNames.of_get (own : OwnNames place m) (lies : s.LiesAt place m)
    (got : run (s.get id) m = (.ok r, m)) : r.id = id ∧ r ∈ recordsAt place m := by
  obtain ⟨valid, text, here, decoded⟩ := file_of_get lies got
  have may := isRecordName_fileName valid
  obtain ⟨r', decoded', same⟩ := own _ text may here
  obtain rfl := Except.ok.inj (decoded.symm.trans decoded')
  exact ⟨(fileName_injective same).symm, _, text, may, here, decoded⟩

/-- What the save of a draft has done that has written a record. A draft without an id gets one, and
its record is added. Otherwise the record under the id gets the modules and the name of the draft,
which in turn gets the project, the file and the function of the record. -/
structure Saved (s : Store) (place : List String) (d : Draft) (m : Memory) (r : Record)
    (m' : Memory) : Prop where
  lies : s.LiesAt place m'
  own : OwnNames place m'
  got : run (s.get r.id) m' = (.ok r, m')
  written : match d.id with
    | none => r.toDraft = { d with id := some r.id } ∧ Adds place m r m'
    | some id => ∃ old, r.id = id ∧ run (s.get id) m = (.ok old, m) ∧
        r.toDraft = { d with
          pathToProject := old.pathToProject
          fileId := old.fileId
          functionId := old.functionId } ∧
        Changes place m old r m'

structure Touches (place : List String) (m : Memory) (r : Record) (m' : Memory) : Prop where
  names : ∀ name, name ∈ m'.files.namesAt place ↔ name ∈ m.files.namesAt place
  here : ∃ now, m'.files.node? (place ++ [fileName r.id]) =
    some (.file (r.touched now).encode.pretty)
  elsewhere : ∀ other, other ≠ place ++ [fileName r.id] →
    m'.files.node? other = m.files.node? other

theorem OwnNames.saves (own : OwnNames place m) (lies : s.LiesAt place m)
    (writes : s.Writes d m r m₁) (written : run (s.write r) m₁ = (.ok (), m'))
    (reads : r.ReadsBack) : s.Saved place d m r m' := by
  obtain ⟨valid, fits, bare, left⟩ := write_place (writes.lies lies) written
  have files : m'.files = m.files.put (place ++ [fileName r.id]) (.file r.encode.pretty) := by
    rw [left, writes.files]
  refine ⟨?_, own.put reads files, get_of_write written reads, ?_⟩
  · rw [left]
    exact Files.find_put_join (writes.lies lies) bare _
  · cases writes with
    | new unsaved =>
      rw [unsaved]
      exact ⟨toDraft_toRecord d _ _,
        own.adds valid reads files (freshId_absent (m := ticked m) lies valid fits)⟩
    | old identified got =>
      obtain ⟨same, present⟩ := own.of_get lies got
      rw [identified]
      refine ⟨_, same, got, ?_, own.changes valid reads files rfl present⟩
      rw [Record.toDraft, id_updated, same, ← identified]
      rfl

theorem Touches.of_put {now : Timestamp} {text : String}
    (present : m.files.node? (place ++ [fileName r.id]) = some (.file text))
    (left : m'.files = m.files.put (place ++ [fileName r.id])
      (.file (r.touched now).encode.pretty)) : Touches place m r m' := by
  have own := r.id_touched now
  generalize same : r.touched now = q at left own
  rw [← own] at present left
  refine ⟨fun name => ?_, ⟨now, ?_⟩, fun other elsewhere => ?_⟩
  · rw [Files.mem_namesAt, Files.mem_namesAt]
    by_cases named : name = fileName q.id
    · rw [named, here_of_put left, present]
      rfl
    · rw [name_ne_of_put left named]
  · rw [same, ← own]
    exact here_of_put left
  · rw [← own] at elsewhere
    exact elsewhere_of_put left other elsewhere

theorem save_again (lies : s.LiesAt place m₁) (written : run (s.write r) m₁ = (.ok (), m'))
    (got : run (s.get r.id) m' = (.ok r, m')) :
    ∃ m'', run (s.save r.toDraft) m' = (.ok r.toDraft, m'') ∧ Touches place m' r m'' := by
  have writes : s.Writes r.toDraft m' (r.touched (time m')) (ticked m') := .old rfl got
  have present : m'.files.node? (place ++ [fileName r.id]) = some (.file r.encode.pretty) := by
    obtain ⟨-, -, -, rfl⟩ := write_place lies written
    exact here_of_put rfl
  obtain ⟨m'', again, left⟩ :=
    write_again lies written (files_ticked m') rfl (r.id_touched (time m'))
  refine ⟨m'', ?_, .of_put present left⟩
  rw [writes.run_save, again, r.toDraft_touched]
  rfl

end Store

end Fixture
