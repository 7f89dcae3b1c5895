import Fixture.Proofs.Host.Keeps
import Fixture.Proofs.Store.Update

/-!
Saving of drafts, by what becomes of the files that were there before. A save that fails leaves all
of them as they are, and so does one of a draft without an id, which goes where no file is. Only the
save of a draft with an id changes a file: that of the id which the record under it has.
-/

namespace Fixture.Store

open Memory (run Careful)

variable {s : Store} {m m' : Memory} {r : Record} {d saved : Draft}

theorem liesAt_of_write (given : s.directory ≠ "") (written : run (s.write r) m = (.ok (), m')) :
    ∃ place, s.LiesAt place m := by
  rw [write_of_valid (write_inv written).1] at written
  split at written
  next files replaced =>
    obtain ⟨place, found⟩ := Files.find_of_replaceText replaced
    have present : s.directory.isEmpty = false := String.isEmpty_eq_false_iff.2 given
    rw [present] at found
    exact ⟨place, found⟩
  · cases (Prod.mk.inj written).1

/-! ## What a save writes -/

/-- A save of a draft comes down to the writing of a record: of a new one, or of the one that is
found under the id of the draft, with its modules and its name. -/
inductive Writes (s : Store) (d : Draft) (m : Memory) : Record → Memory → Prop where
  | new (unsaved : d.id = none) :
    Writes s d m ((NewRecord.ofDraft d).toRecord (s.freshId (ticked m)) (time m))
      (ticked (ticked m))
  | old {id : String} {old : Record} (identified : d.id = some id)
    (got : run (s.get id) m = (.ok old, m)) :
    Writes s d m (updated old d.modules d.customName (time m)) (ticked m)

namespace Writes

variable {m₁ : Memory}

theorem files (writes : s.Writes d m r m₁) : m₁.files = m.files := by
  cases writes <;> rfl

theorem current (writes : s.Writes d m r m₁) : m₁.current = m.current := by
  cases writes <;> rfl

theorem lies {place : List String} (writes : s.Writes d m r m₁) (lies : s.LiesAt place m) :
    s.LiesAt place m₁ := by
  rwa [LiesAt, writes.files, writes.current]

theorem run_save (writes : s.Writes d m r m₁) :
    run (s.save d) m = ((run (s.write r) m₁).1.map fun _ => r.toDraft, (run (s.write r) m₁).2) := by
  cases writes with
  | new unsaved =>
    rw [save, unsaved]
    dsimp only
    rw [Memory.run_bind, run_create]
    generalize run (s.write _) (ticked (ticked m)) = outcome
    obtain ⟨result, left⟩ := outcome
    cases result <;> rfl
  | old identified got =>
    rw [save, identified]
    dsimp only
    rw [Memory.run_bind, run_update got]
    generalize run (s.write _) (ticked m) = outcome
    obtain ⟨result, left⟩ := outcome
    cases result <;> rfl

end Writes

theorem writes_or_error (s : Store) (d : Draft) (m : Memory) :
    (∃ r m₁, s.Writes d m r m₁) ∨ ∃ e, run (s.save d) m = (.error e, m) := by
  cases identified : d.id with
  | none => exact .inl ⟨_, _, .new identified⟩
  | some id =>
    have kept := get_keeps s id m
    cases got : (run (s.get id) m).1 with
    | ok old => exact .inl ⟨_, _, .old identified (Prod.ext got kept)⟩
    | error e =>
      refine .inr ⟨e, ?_⟩
      rw [save, identified]
      dsimp only
      rw [Memory.run_bind, run_update_error (Prod.ext got kept)]

theorem written_of_save (done : run (s.save d) m = (.ok saved, m')) :
    ∃ r m₁, s.Writes d m r m₁ ∧ run (s.write r) m₁ = (.ok (), m') ∧ saved = r.toDraft := by
  rcases s.writes_or_error d m with ⟨r, m₁, writes⟩ | ⟨e, failed⟩
  · rw [writes.run_save] at done
    obtain ⟨outcome, left⟩ := Prod.mk.inj done
    cases result : (run (s.write r) m₁).1 with
    | error e => rw [result] at outcome; cases outcome
    | ok _ =>
      rw [result] at outcome
      exact ⟨r, m₁, writes, Prod.ext result left, (Except.ok.inj outcome).symm⟩
  · rw [failed] at done
    cases (Prod.mk.inj done).1

/-- A save that fails makes no file and changes none. -/
theorem save_error {e : StoreError} (failed : run (s.save d) m = (.error e, m')) :
    m'.files = m.files ∧ m'.current = m.current := by
  rcases s.writes_or_error d m with ⟨r, m₁, writes⟩ | ⟨e', refused⟩
  · rw [writes.run_save] at failed
    obtain ⟨outcome, left⟩ := Prod.mk.inj failed
    cases result : (run (s.write r) m₁).1 with
    | ok _ => rw [result] at outcome; cases outcome
    | error e' =>
      obtain rfl := write_error (Prod.ext result left)
      exact ⟨writes.files, writes.current⟩
  · obtain rfl := (Prod.mk.inj (refused.symm.trans failed)).2
    exact ⟨rfl, rfl⟩

theorem careful_save (s : Store) (d : Draft) :
    Careful (s.save d : ExceptT StoreError (StateM Memory) Draft) := by
  intro m m' e failed
  obtain ⟨files, current⟩ := save_error failed
  refine ⟨?_, current⟩
  rw [files]
  exact .refl _

theorem run_save {id : String} (identified : d.id = some id)
    (done : run (s.update id d.modules d.customName) m = (.ok r, m')) :
    run (s.save d) m = (.ok r.toDraft, m') := by
  rw [save, identified]
  dsimp only
  rw [Memory.run_bind, done]
  rfl

/-- A save that succeeds changes at most the file of the record that the id of the draft stands
for. A new record takes the place of no file. -/
theorem save_inv (given : s.directory ≠ "") (done : run (s.save d) m = (.ok saved, m')) :
    m.Keeps m' ∨ ∃ id old target, d.id = some id ∧ run (s.get id) m = (.ok old, m) ∧
      m.files.resolve m.current (s.pathOf old.id) = .ok target ∧
      m.files.node? target ≠ some .directory ∧
      m'.files = m.files.put target
        (.file (updated old d.modules d.customName (time m)).encode.pretty) ∧
      m'.current = m.current := by
  obtain ⟨r, m₁, writes, written, -⟩ := written_of_save done
  cases writes with
  | new unsaved =>
    left
    have own := id_toRecord (.ofDraft d) (s.freshId (ticked m)) (time m)
    generalize (NewRecord.ofDraft d).toRecord (s.freshId (ticked m)) (time m) = new at written own
    obtain ⟨place, lies⟩ := liesAt_of_write given written
    obtain ⟨valid, fits, -, rfl⟩ := write_place lies written
    rw [own] at valid fits ⊢
    exact ⟨Files.grows_put (freshId_absent (m := ticked m) lies valid fits) _, rfl⟩
  | old identified got =>
    right
    obtain ⟨-, target, reached, bare, left⟩ := write_inv written
    rw [id_updated] at reached
    subst left
    exact ⟨_, _, target, identified, got, reached, bare, rfl, rfl⟩

end Fixture.Store
