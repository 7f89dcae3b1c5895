import Fixture.Proofs.Editor.Closing
import Fixture.Proofs.Session.Agreement

/-!
Which editors of a session an operation closes. A value that is set closes the editors of the fields
that it does not hold, and a commit or a close the editor itself, each with all that is under it.
Nothing else is closed: the reconciling after a commit finds nothing more to do.
-/

namespace Fixture

namespace Editors

variable {es : Editors} {d : Draft} {f : Frame}

theorem Forest.commit_ok (forest : Forest d es.frames) (opened : f ∈ es.frames) (value : Json)
    (ctx : Context) : ∃ d' next, es.commit f.label value d ctx = .ok (d', next) := by
  have found := frame?_eq_some forest.labels_nodup opened
  by_cases root : ∀ key, f.target ≠ .field key
  · obtain ⟨type, typed, -⟩ := forest.typeAt?_of_ne_field opened root
    exact commit_ok_of_typeAt? found typed value ctx
  · obtain ⟨key, field⟩ := not_forall.1 root
    have target := not_not.1 field
    obtain ⟨p, memberP, parent, composite⟩ := forest.parent_of_field opened target
    obtain ⟨old, here, nested⟩ := (Option.any_eq_true _ _).1 composite
    have above := frame?_eq_some forest.labels_nodup memberP
    rw [parent] at above
    rw [Editors.commit]
    simp only [found, target, above, here, if_pos nested]
    exact ⟨_, _, rfl⟩

end Editors

open Editors

namespace Session

/-- Setting the value of an open editor in a session that can come about puts the value there. It
closes the editors of those fields that the value does not hold as an array or an object, with all
that are under them, and no others. These and the rest of the session stay as they are, but for the
selection of a closed editor, which passes to the one that was set. -/
theorem setValue_closes_uprooted {s : Session} (reachable : s.Reachable) {f : Frame}
    (opened : f ∈ s.editors.frames) (value : Json) :
    ∃ editors, s.setValue f.label value = .ok { s with editors } ∧
      editors.frame? f.label = some { f with value } ∧
      s.editors.Closes (Frame.Uprooted s.editors.frames f.label value)
        (changeValue f.label fun _ => value) f.label editors := by
  have forest : Forest s.draft s.editors.frames := reachable.live
  obtain ⟨editors, set, closes⟩ := forest.closes_setValue opened value
  have here := closes.mem opened (forest.toPlaced.not_uprooted value)
  rw [changeValue, if_pos rfl] at here
  refine ⟨editors, ?_, frame?_eq_some (forest.setValue set).labels_nodup here, closes⟩
  rw [setValue, set]

/-- A session with editors in both trees, one of them two levels down and selected. -/
def spread : Session :=
  (ofPersisted { pathToProject := "/p", fileId := "a.js", functionId := "f" } {
    pathToProject := "/p"
    fileId := "a.js"
    functionId := "f"
    modules := {
      argumentList := some [{ functionName := "f", argument := "x", type := .array }]
      returnValue := some
        ⟨.object, some (.obj [("a", .obj [("b", .arr [])]), ("c", .arr [.obj []])])⟩ } }).afterAll
    [.openReturnValue, .openField "Return value" "a", .openArgument "f" "x",
      .openField "Return value" "c", .openField "Return value.a" "b",
      .openField "Return value.c" "0", .select "Return value.a.b"]

theorem spread_reachable : spread.Reachable := (Reachable.ofPersisted _ _).afterAll _

/-- The new value has no `a` that could be edited. Under `c` it has another list, but the editor of that
stays open with its own value, and so does the one under it. -/
theorem setValue_closes_uprooted_spread :
    spread.Reachable ∧ ∃ f ∈ spread.editors.frames, f.label = "Return value" ∧
      ∃ editors, spread.setValue f.label (.obj [("a", .null), ("c", .arr [])]) =
          .ok { spread with editors } ∧
        editors.frames.map Frame.label =
          ["Return value", "Argument", "Return value.c", "Return value.c[0]"] ∧
        editors.selected = some "Return value" := by
  have opened : (spread.editors.frame? "Return value").isSome = true := by decide
  obtain ⟨f, member, label⟩ := frame?_isSome_iff.1 opened
  obtain ⟨editors, set, -, -⟩ :=
    setValue_closes_uprooted spread_reachable member (.obj [("a", .null), ("c", .arr [])])
  refine ⟨spread_reachable, f, member, label, editors, set, ?_⟩
  have left : (spread.setValue "Return value" (.obj [("a", .null), ("c", .arr [])])).toOption.map
      (fun t => (t.editors.frames.map Frame.label, t.editors.selected)) =
        some (["Return value", "Argument", "Return value.c", "Return value.c[0]"],
          some "Return value") := by decide
  rw [label] at set
  rw [set] at left
  exact Prod.mk.inj (Option.some.inj left)

/-- Closing an open editor in a session that can come about gives the editor back and closes it with
all that are under it and no others. The selection of a closed editor passes to the parent, which is
an enabled module or an editor that is still open. A commit always succeeds and closes the same
editors. Of the others it changes only, for the editor of a field, the value in the parent, and of
that only what is under the key. -/
theorem close_and_commit_take_subtree {s : Session} (reachable : s.Reachable) {f : Frame}
    (opened : f ∈ s.editors.frames) :
    (∃ editors, s.close? f.label = some (f, { s with editors }) ∧
      s.editors.Closes (fun g => g.Under s.editors.frames f) id f.parent editors ∧
      editors.HasTab s.draft f.parent) ∧
    ∃ draft editors, s.commit f.label = .ok { s with draft, editors } ∧
      ((∀ key, f.target ≠ .field key) →
        s.editors.Closes (fun g => g.Under s.editors.frames f) id f.parent editors) ∧
      ∀ key, f.target = .field key →
        draft = s.draft ∧
        s.editors.Closes (fun g => g.Under s.editors.frames f)
          (changeValue f.parent (key.set f.value)) f.parent editors ∧
        ∃ p ∈ s.editors.frames, p.label = f.parent ∧
          { p with value := key.set f.value p.value } ∈ editors.frames ∧
          key.get? (key.set f.value p.value) = some f.value ∧
          ∀ other, key ≠ other → other.get? (key.set f.value p.value) = other.get? p.value := by
  have forest : Forest s.draft s.editors.frames := reachable.live
  have found := frame?_eq_some forest.labels_nodup opened
  constructor
  · refine ⟨s.editors.without f.label, ?_, forest.closes_without opened, forest.hasTab_parent opened⟩
    rw [close?, Editors.close?, Editors.without, Editors.close?, found]
    rfl
  · obtain ⟨draft, editors, committed⟩ := forest.commit_ok opened f.value s.context
    obtain ⟨closesRoot, closesField⟩ := forest.closes_commit opened committed
    obtain ⟨result, -⟩ := reachable.live.commit_ok found committed
    refine ⟨draft, editors, result, closesRoot, fun key target => ?_⟩
    obtain ⟨same, closes⟩ := closesField key target
    obtain ⟨p, memberP, parent, composite⟩ := forest.parent_of_field opened target
    obtain ⟨old, here, -⟩ := (Option.any_eq_true _ _).1 composite
    have stays := closes.mem memberP (forest.toPlaced.parent_not_under opened parent.symm)
    rw [changeValue, if_pos parent] at stays
    exact ⟨same, closes, p, memberP, parent, stays, FieldKey.get?_set_self key f.value here,
      fun other different => FieldKey.get?_set_of_ne different f.value p.value⟩

theorem close_and_commit_take_subtree_spread :
    spread.Reachable ∧ ∃ f ∈ spread.editors.frames, f.label = "Return value.a" ∧
      (∃ editors, spread.close? f.label = some (f, { spread with editors }) ∧
        editors.frames.map Frame.label =
          ["Return value", "Argument", "Return value.c", "Return value.c[0]"] ∧
        editors.selected = some "Return value") ∧
      ∃ draft editors, spread.commit f.label = .ok { spread with draft, editors } ∧
        editors.frames.map Frame.label =
          ["Return value", "Argument", "Return value.c", "Return value.c[0]"] := by
  have opened : (spread.editors.frame? "Return value.a").isSome = true := by decide
  obtain ⟨f, member, label⟩ := frame?_isSome_iff.1 opened
  obtain ⟨⟨editors, closed, -, -⟩, draft, editors', committed, -, -⟩ :=
    close_and_commit_take_subtree spread_reachable member
  refine ⟨spread_reachable, f, member, label, ⟨editors, closed, ?_⟩, draft, editors', committed, ?_⟩
  · have left : (spread.close? "Return value.a").map
        (fun t => (t.2.editors.frames.map Frame.label, t.2.editors.selected)) =
          some (["Return value", "Argument", "Return value.c", "Return value.c[0]"],
            some "Return value") := by decide
    rw [label] at closed
    rw [closed] at left
    exact Prod.mk.inj (Option.some.inj left)
  · have left : (spread.commit "Return value.a").toOption.map
        (fun t => t.editors.frames.map Frame.label) =
          some ["Return value", "Argument", "Return value.c", "Return value.c[0]"] := by decide
    rw [label] at committed
    rw [committed] at left
    exact Option.some.inj left

end Session

end Fixture
