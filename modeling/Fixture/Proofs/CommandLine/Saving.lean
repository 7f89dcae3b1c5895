import Fixture.Proofs.CommandLine.Unchanged
import Fixture.Proofs.Session.Discard
import Fixture.Proofs.Store.Named

/-!
Saving the test of a session. What is saved is at once the draft, the draft as last saved, and what is
found under its id. So saving again or discarding right after it changes no session.
-/

namespace Fixture.CommandLine

open Memory (run)

variable {store : Store} {place : List String} {s t : Session} {m m' : Memory} {saved : Draft}

/-! ## Carried out in place -/

/-- Carried out in place, a save gives what it gives, and it leaves the session if it fails. -/
theorem run_saveDraftInPlace (store : Store) (s : Session) (m : Memory) :
    (StoreCommand.saveDraftInPlace store).run (s, m) =
      match run (StoreCommand.saveDraft store s) m with
      | (.ok (saved, t), m') => (.ok saved, (t, m'))
      | (.error e, m') => (.error e, (s, m')) := by
  simp only [StoreCommand.saveDraftInPlace, StoreCommand.saveDraft, InPlace.run_bind, InPlace.run_get,
    InPlace.run_modify, InPlace.run_ofExcept, Memory.run_bind, Memory.run_adapt]
  obtain ⟨result, left⟩ := run (store.save s.draft) m
  cases result <;> rfl

/-! ## The session after a save -/

theorem clean_markPersisted (s : Session) (saved : Draft) :
    (s.markPersisted saved).isDirty = false := by
  have same : (saved == saved) = true := BEq.rfl
  calc (s.markPersisted saved).isDirty
    _ = !(saved == saved) := rfl
    _ = false := by rw [same]; rfl

theorem markPersisted_markPersisted (s : Session) (saved : Draft) :
    (s.markPersisted saved).markPersisted saved = s.markPersisted saved :=
  Session.replaceDraft_replaceDraft { s with persisted := some saved } saved

theorem discard_markPersisted (s : Session) (present : saved.id.isSome) :
    (s.markPersisted saved).run .discard = .ok (s.markPersisted saved) := by
  have start : Session.SavedAs saved (s.markPersisted saved) := .markPersisted s
  have same : saved.SameTest (s.markPersisted saved).draft := ⟨rfl, rfl, rfl, rfl⟩
  rw [Session.run_discard start.persisted present same, start.draft]
  exact congrArg Except.ok (Session.replaceDraft_replaceDraft _ saved)

/-! ## The save -/

theorem saveDraft_error {e : Failure}
    (failed : run (StoreCommand.saveDraft store s) m = (.error e, m')) :
    ∃ cause, e = .saveTest cause ∧ run (store.save s.draft) m = (.error cause, m') := by
  rcases Memory.bind_error failed with refused | ⟨saved, m₁, -, rest⟩
  · rw [Memory.run_adapt] at refused
    obtain ⟨outcome, left⟩ := Prod.mk.inj refused
    cases result : (run (store.save s.draft) m).1 with
    | ok saved => rw [result] at outcome; cases outcome
    | error cause =>
      rw [result] at outcome
      exact ⟨cause, (Except.error.inj outcome).symm, Prod.ext result left⟩
  · cases (Prod.mk.inj rest).1

/-- What a save of the draft of a session has done that gave a draft: to the session, which is another
one then, and to the records. -/
structure SavesTest (store : Store) (place : List String) (s : Session) (m : Memory) (saved : Draft)
    (t : Session) (m' : Memory) : Prop where
  draft : t.draft = saved
  snapshot : t.persisted = some saved
  clean : t.isDirty = false
  discard : t.run .discard = .ok t
  stored : ∃ r, saved.id = some r.id ∧ saved = r.toDraft ∧ store.Saved place s.draft m r m' ∧
    ∃ m'', run (StoreCommand.saveDraft store t) m' = (.ok (saved, t), m'') ∧
      Store.Touches place m' r m''

/-- Where every record is in the file of its own id, the draft that a save gives is the draft of the
session, the draft as last saved, and what is stored under its id. It is the draft from before with an
id, whose record is added, or with the project, the file and the function of the record under its id,
which is the only one to change. Discarding then changes nothing, and another save changes no more
than a time. A save that fails changes neither files nor session. -/
theorem saveDraft_faithful (lies : store.LiesAt place m) (own : Store.OwnNames place m)
    (reads : store.WritesReadBack m [.save s.draft]) :
    (∀ saved t m', run (StoreCommand.saveDraft store s) m = (.ok (saved, t), m') →
      SavesTest store place s m saved t m') ∧
    ∀ e m', run (StoreCommand.saveDraft store s) m = (.error e, m') →
      m'.files = m.files ∧
        (StoreCommand.saveDraftInPlace store).run (s, m) = (.error e, (s, m')) := by
  constructor
  · intro saved t m' done
    obtain ⟨_, kept, rfl, rfl⟩ := saveDraft_inv done
    obtain ⟨r, m₁, writes, written, rfl⟩ := Store.written_of_save kept
    have back := writes.writesReadBack_iff.1 reads (congrArg Prod.fst written)
    have stored := own.saves lies writes written back
    obtain ⟨m'', again, touches⟩ := Store.save_again (writes.lies lies) written stored.got
    -- The second save has the draft of the first, and its session is as saved already.
    have repeated := run_saveDraft (s := s.markPersisted r.toDraft) again
    rw [markPersisted_markPersisted] at repeated
    exact ⟨rfl, rfl, clean_markPersisted s _, discard_markPersisted s rfl,
      r, rfl, rfl, stored, m'', repeated, touches⟩
  · intro e m' failed
    obtain ⟨cause, -, refused⟩ := saveDraft_error failed
    refine ⟨(Store.save_error refused).1, ?_⟩
    rw [run_saveDraftInPlace, failed]

def unsaved : Session :=
  { function := Session.plainFunction, draft := Session.plainFunction.emptyDraft }

theorem ownNames_emptied : Store.OwnNames ["d"] Store.emptied := by
  intro name text _ here
  rw [Store.node?_emptied] at here
  cases here

theorem writes_unsaved : Store.shelf.Writes unsaved.draft Store.emptied (.plain Store.newId "")
    (Store.ticked (Store.ticked Store.emptied)) := by
  have made : (NewRecord.ofDraft unsaved.draft).toRecord
    (Store.shelf.freshId (Store.ticked Store.emptied)) (Store.time Store.emptied) =
      .plain Store.newId "" := rfl
  rw [← made]
  exact .new rfl

theorem run_save_unsaved : run (Store.shelf.save unsaved.draft) Store.emptied =
    (.ok (Record.plain Store.newId "").toDraft, Store.untitledMade) := by
  rw [writes_unsaved.run_save, Store.write_untitled]
  rfl

/-- The session after `unsaved` is saved, with a return value, another name and another project in its
draft. -/
def edited : Session :=
  { unsaved.markPersisted (Record.plain Store.newId "").toDraft with
    draft := { (Record.plain Store.newId "").toDraft with
      pathToProject := "/elsewhere"
      customName := "renamed"
      modules := { returnValue := some { type := .boolean, value := some (.bool true) } } } }

/-- The record that is saved then, which keeps its project. -/
def returning : Record :=
  { Record.plain Store.newId "renamed" with
    modules := { returnValue := some { type := .boolean, value := some (.bool true) } } }

theorem readsBack_returning : returning.ReadsBack := by
  have times : returning.TimesRead := ⟨newYear_read, newYear_read⟩
  refine Record.readsBack times ⟨?_, ?_⟩ rfl rfl (by decide)
  · rintro _ ⟨⟩
  · rintro _ ⟨⟩ _ ⟨⟩
    exact Json.numbers_bool true

theorem writes_edited : Store.shelf.Writes edited.draft Store.untitledMade returning
    (Store.ticked Store.untitledMade) := by
  have changed : Store.updated (.plain Store.newId "") edited.draft.modules edited.draft.customName
      (Store.time Store.untitledMade) = returning := rfl
  rw [← changed]
  exact .old rfl Store.get_untitled

theorem run_save_edited : ∃ m', run (Store.shelf.save edited.draft) Store.untitledMade =
    (.ok returning.toDraft, m') := by
  have lies : Store.shelf.LiesAt ["d"] (Store.ticked (Store.ticked Store.emptied)) :=
    Store.liesAt_emptied
  obtain ⟨m', written, -⟩ := Store.write_again (q := returning) lies Store.write_untitled
    (Store.files_ticked Store.untitledMade) rfl rfl
  refine ⟨m', ?_⟩
  rw [writes_edited.run_save, written]
  rfl

/-- The first save of a test adds a record with a new id. The save of a changed draft under that id
changes the record, and gives the draft the project of the record. -/
theorem saveDraft_faithful_in_turn :
    Store.shelf.LiesAt ["d"] Store.emptied ∧ Store.OwnNames ["d"] Store.emptied ∧
      Store.shelf.WritesReadBack Store.emptied [.save unsaved.draft] ∧
      (∃ t, run (StoreCommand.saveDraft Store.shelf unsaved) Store.emptied =
          (.ok ((Record.plain Store.newId "").toDraft, t), Store.untitledMade) ∧
        SavesTest Store.shelf ["d"] unsaved Store.emptied (Record.plain Store.newId "").toDraft t
          Store.untitledMade) ∧
    Store.shelf.LiesAt ["d"] Store.untitledMade ∧ Store.OwnNames ["d"] Store.untitledMade ∧
      Store.shelf.WritesReadBack Store.untitledMade [.save edited.draft] ∧
      ∃ t m', run (StoreCommand.saveDraft Store.shelf edited) Store.untitledMade =
          (.ok (returning.toDraft, t), m') ∧
        SavesTest Store.shelf ["d"] edited Store.untitledMade returning.toDraft t m' := by
  have reads : Store.shelf.WritesReadBack Store.emptied [.save unsaved.draft] :=
    writes_unsaved.writesReadBack_iff.2 fun _ => Record.readsBack_plain _ _
  have reads' : Store.shelf.WritesReadBack Store.untitledMade [.save edited.draft] :=
    writes_edited.writesReadBack_iff.2 fun _ => readsBack_returning
  have ran := run_saveDraft run_save_unsaved
  have first := (saveDraft_faithful Store.liesAt_emptied ownNames_emptied reads).1 _ _ _ ran
  -- What the first save leaves is a directory as the second one needs it.
  obtain ⟨_, -, -, stored, -⟩ := first.stored
  obtain ⟨m', kept⟩ := run_save_edited
  have ran' := run_saveDraft (s := edited) kept
  have second := (saveDraft_faithful stored.lies stored.own reads').1 _ _ _ ran'
  exact ⟨Store.liesAt_emptied, ownNames_emptied, reads, ⟨_, ran, first⟩, stored.lies, stored.own,
    reads', _, m', ran', second⟩

end Fixture.CommandLine
