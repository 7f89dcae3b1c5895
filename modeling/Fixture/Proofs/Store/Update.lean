import Fixture.Proofs.Store.Directory

/-!
Updates. The record to be updated is found by its id, and then is written under the id that it has
itself. A record that has another id than its file therefore is not updated where it was found.
-/

namespace Fixture

open Memory (run)

namespace Store

variable {s : Store} {m m' : Memory} {id : String} {r : Record} {modules : Modules}
  {customName : String}

theorem update_inv (done : run (s.update id modules customName) m = (.ok r, m')) :
    ∃ old, run (s.get id) m = (.ok old, m) ∧ r = updated old modules customName (time m) ∧
      run (s.write r) (ticked m) = (.ok (), m') := by
  have kept := get_keeps s id m
  cases got : (run (s.get id) m).1 with
  | error e =>
    rw [run_update_error (Prod.ext got kept)] at done
    cases (Prod.mk.inj done).1
  | ok old =>
    rw [run_update (Prod.ext got kept)] at done
    obtain ⟨written, left⟩ := Prod.mk.inj done
    cases outcome : (run (s.write (updated old modules customName (time m))) (ticked m)).1 with
    | error e => rw [outcome] at written; cases written
    | ok _ =>
      rw [outcome] at written
      obtain rfl := Except.ok.inj written
      exact ⟨old, Prod.ext got kept, rfl, Prod.ext outcome left⟩

/-- An update that succeeds reads the record that the file of the id holds and writes it under the
id that the record has itself, and no other file changes. So it changes the record that was asked for
if that is its id, and otherwise another one, while the one that was asked for stays as it was. -/
theorem update_writes_under_own_id
    (done : run (s.update id modules customName) m = (.ok r, m')) (reads : r.ReadsBack) :
    ∃ old target, run (s.get id) m = (.ok old, m) ∧
      r = { old with modules, customName, updatedAt := m.clock m.readings } ∧
      m.files.resolve m.current (s.pathOf old.id) = .ok target ∧
      (∀ place, place ≠ target → m'.files.node? place = m.files.node? place) ∧
      run (s.get old.id) m' = (.ok r, m') ∧
      (old.id ≠ id → run (s.get id) m' = (.ok old, m')) := by
  obtain ⟨old, got, same, written⟩ := update_inv done
  obtain ⟨-, target, reached, bare, left⟩ := write_inv written
  have below : target ≠ [] := by
    rintro rfl
    exact bare rfl
  have own : r.id = old.id := by rw [same, id_updated]
  have under := get_of_write written reads
  rw [own] at reached under
  refine ⟨old, target, got, same, reached, fun place elsewhere => ?_, under, fun other => ?_⟩
  · rw [left, Files.node?_put _ _ _ _ below, if_neg elsewhere]
    exact congrArg (Files.node? · place) (files_ticked m)
  · exact get_of_write_elsewhere written (get_ticked got) (own ▸ other)

theorem update_ok {place : List String} {old : Record} (lies : s.LiesAt place m)
    (stages : s.Stages m) (got : run (s.get id) m = (.ok old, m)) (valid : isValidId old.id = true)
    (fits : s.Fits old.id) (bare : m.files.node? (place ++ [fileName old.id]) ≠ some .directory)
    (modules : Modules) (customName : String) :
    run (s.update id modules customName) m =
      (.ok (updated old modules customName (time m)), { ticked m with
        files := m.files.put (place ++ [fileName old.id])
          (.file (updated old modules customName (time m)).encode.pretty) }) := by
  have own := id_updated old modules customName (time m)
  rw [run_update got]
  generalize updated old modules customName (time m) = r at own ⊢
  rw [← own] at valid fits bare ⊢
  have lies : s.LiesAt place (ticked m) := lies
  have stages : s.Stages (ticked m) := stages
  rw [write_ok lies stages valid fits bare]
  rfl

def shelving (id : String) (r : Record) : Memory where
  files := {
    nodes := [(["d"], .directory), (["d", fileName id], .file r.encode.pretty)]
    nodup := by simp }
  clock := fun _ => newYear

theorem liesAt_shelving (id : String) (r : Record) : shelf.LiesAt ["d"] (shelving id r) := rfl

theorem node?_shelving (r : Record) (name : String) :
    (shelving "a" r).files.node? (["d"] ++ [name]) =
      if name = fileName "a" then some (.file r.encode.pretty) else none := by
  have below : ["d"] ++ [name] ≠ [] := List.cons_ne_nil _ _
  have first : (["d", name] == ["d"]) = false := by simp
  rw [Files.node?, if_neg below]
  simp only [shelving, List.cons_append, List.nil_append, List.lookup_cons, first, List.lookup_nil]
  by_cases same : name = fileName "a"
  · simp [same]
  · have other : (name == fileName "a") = false := by simpa using same
    simp [same, other]

theorem stages_shelving (r : Record) : shelf.Stages (shelving "a" r) := by
  have room : (Files.stagedPath [] "d").utf8ByteSize ≤ Files.pathLimit := by decide
  exact room

theorem get_shelving (r : Record) (reads : r.ReadsBack) :
    run (shelf.get "a") (shelving "a" r) = (.ok r, shelving "a" r) := by
  have here : (shelving "a" r).files.node? (["d"] ++ [fileName "a"]) =
      some (.file r.encode.pretty) := by rw [node?_shelving, if_pos rfl]
  exact get_of_readsBack (liesAt_shelving "a" r) (by decide) (by decide) here reads

theorem update_shelving (id : String) (valid : isValidId id = true) (fits : shelf.Fits id) :
    run (shelf.update "a" {} "renamed") (shelving "a" (Record.plain id "")) =
      (.ok (Record.plain id "renamed"), { ticked (shelving "a" (Record.plain id "")) with
        files := (shelving "a" (Record.plain id "")).files.put ["d", fileName id]
          (.file (Record.plain id "renamed").encode.pretty) }) := by
  have bare : (shelving "a" (Record.plain id "")).files.node? (["d"] ++ [fileName id]) ≠
      some .directory := by
    rw [node?_shelving]
    split <;> simp
  have same : updated (Record.plain id "") {} "renamed" (time (shelving "a" (Record.plain id ""))) =
    Record.plain id "renamed" := rfl
  have got := get_shelving _ (Record.readsBack_plain id "")
  have done := update_ok (liesAt_shelving _ _) (stages_shelving _) got valid fits bare {} "renamed"
  rw [same] at done
  exact done

theorem update_writes_under_own_id_plain :
    ∃ m', run (shelf.update "a" {} "renamed") (shelving "a" (Record.plain "a" "")) =
        (.ok (Record.plain "a" "renamed"), m') ∧
      (Record.plain "a" "renamed").ReadsBack ∧
      run (shelf.get "a") m' = (.ok (Record.plain "a" "renamed"), m') := by
  have done := update_shelving "a" (by decide) (by decide)
  have reads := Record.readsBack_plain "a" "renamed"
  obtain ⟨old, target, got, -, -, -, again, -⟩ := update_writes_under_own_id done reads
  rw [get_shelving _ (Record.readsBack_plain "a" "")] at got
  obtain rfl := Except.ok.inj (Prod.mk.inj got).1
  exact ⟨_, done, reads, again⟩

/-- The record in the file of `a` has the id `b`. Updating `a` makes a file for `b` and leaves what is
got under `a` without the new name. -/
theorem update_misses_record :
    ∃ m', run (shelf.update "a" {} "renamed") (shelving "a" (Record.plain "b" "")) =
        (.ok (Record.plain "b" "renamed"), m') ∧
      isValidId "a" = true ∧ (Record.plain "b" "renamed").ReadsBack ∧
      (shelving "a" (Record.plain "b" "")).files.node? ["d", fileName "b"] = none ∧
      m'.files.node? ["d", fileName "b"] = some (.file (Record.plain "b" "renamed").encode.pretty) ∧
      run (shelf.get "a") m' = (.ok (Record.plain "b" ""), m') := by
  have done := update_shelving "b" (by decide) (by decide)
  have got := get_shelving _ (Record.readsBack_plain "b" "")
  obtain ⟨old, first, -, written⟩ := update_inv done
  refine ⟨_, done, by decide, Record.readsBack_plain "b" "renamed", ?_, ?_, ?_⟩
  · exact (node?_shelving (Record.plain "b" "") (fileName "b")).trans (if_neg (by decide))
  · rw [Files.node?_put _ _ _ _ (List.cons_ne_nil _ _), if_pos rfl]
  · exact get_of_write_elsewhere written (get_ticked got) (by decide)

end Store

end Fixture
