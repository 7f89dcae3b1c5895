import Fixture.Proofs.Editor.Path
import Fixture.Proofs.Session.Live

/-!
Distinct paths never share a label, and in every session that can come about the label of an editor
tells the path on which it is found. So opening an editor on a new path leaves all others alone.
-/

namespace Fixture

open Editors

namespace Session

/-- The label of a path that is not open is not open either. -/
theorem frame?_eq_none_of_path {s : Session} (live : s.Live) {tree : EditorTree}
    {path : List FieldKey} (unopened : ∀ g, ¬Frame.OnPath s.editors.frames g tree path) :
    s.editors.frame? (tree.labelAt path) = none := by
  have forest : Forest s.draft s.editors.frames := live
  rw [frame?, List.find?_eq_none]
  intro g member same
  obtain ⟨tree', path', place⟩ := forest.at_place g member
  obtain ⟨rfl, rfl⟩ :=
    EditorTree.labelAt_inj.1 (place.label_eq.symm.trans (beq_iff_eq.1 same))
  exact unopened g (forest.onPath_iff.2 ⟨member, place⟩)

theorem openField_frames {s t : Session} (live : s.Live) {p f : Frame} {tree : EditorTree}
    {path : List FieldKey} {key : String} (onPath : p.OnPath s.editors.frames tree path)
    (unopened : ∀ g, ¬Frame.OnPath s.editors.frames g tree (path ++ [FieldKey.ofRaw p.value key]))
    (opened : s.openField p.label key = .ok (f, t)) :
    t.editors.frames = s.editors.frames ++ [f] := by
  have forest : Forest s.draft s.editors.frames := live
  obtain ⟨member, place⟩ := forest.onPath_iff.1 onPath
  obtain ⟨p', editors, found, inner, rfl⟩ := openField_inv opened
  rw [frame?_eq_some forest.labels_nodup member] at found
  obtain rfl := Option.some.inj found
  obtain ⟨-, field, -, -, -, rfl, pushed⟩ := Editors.openField_inv inner
  obtain ⟨-, -, rfl⟩ := push_inv pushed
  have label : p.label ++ (FieldKey.ofRaw p.value key).segment =
      tree.labelAt (path ++ [FieldKey.ofRaw p.value key]) := by
    rw [EditorTree.labelAt_snoc, place.label_eq]
  have closed := frame?_eq_none_of_path live unopened
  rw [← label] at closed
  simp only [Frame.opened, without_eq_self closed]

/-- A label tells the tree and the path. No label is the name of a module. In a session that can
come about each editor is found on the path that its label tells, and an editor opened on a path
that is not open takes the place of no other. -/
theorem labels_tell_paths :
    (∀ (tree other : EditorTree) (path path' : List FieldKey),
      tree.labelAt path = other.labelAt path' → tree = other ∧ path = path') ∧
    (∀ (tree : EditorTree) (path : List FieldKey),
      ModuleName.parse? (tree.labelAt path) = none) ∧
    ∀ s : Session, s.Reachable →
      (∀ f ∈ s.editors.frames, ∃ tree path, f.OnPath s.editors.frames tree path) ∧
      (∀ f tree path, Frame.OnPath s.editors.frames f tree path → f.label = tree.labelAt path) ∧
      ∀ p tree path key, Frame.OnPath s.editors.frames p tree path →
        (∀ g, ¬Frame.OnPath s.editors.frames g tree (path ++ [FieldKey.ofRaw p.value key])) →
        ∀ f t, s.openField p.label key = .ok (f, t) →
          t.editors.frames = s.editors.frames ++ [f] := by
  refine ⟨fun tree other path path' => EditorTree.labelAt_inj.1, EditorTree.parse?_labelAt,
    fun s reachable => ?_⟩
  have forest : Forest s.draft s.editors.frames := reachable.live
  refine ⟨fun f member => ?_, fun f tree path onPath => ?_, ?_⟩
  · obtain ⟨tree, path, place⟩ := forest.at_place f member
    exact ⟨tree, path, forest.onPath_iff.2 ⟨member, place⟩⟩
  · exact (forest.onPath_iff.1 onPath).2.label_eq
  · intro p tree path key onPath unopened f t opened
    exact openField_frames reachable.live onPath unopened opened

theorem labels_tell_paths_nested :
    nested.Reachable ∧ ∃ f t, nested.openField "Return value" "c" = .ok (f, t) ∧
      t.editors.frames = nested.editors.frames ++ [f] := by
  obtain ⟨-, -, inSession⟩ := labels_tell_paths
  obtain ⟨onPaths, told, opening⟩ := inSession nested nested_reachable
  have accepted : (nested.openField "Return value" "c").toOption.isSome = true := by decide
  obtain ⟨⟨f, t⟩, present⟩ := Option.isSome_iff_exists.1 accepted
  have opened := ok_of_toOption present
  obtain ⟨p, editors, found, -, -⟩ := openField_inv opened
  obtain ⟨member, label⟩ := frame?_mem found
  -- the parent is the root of its tree, as its label says
  have root : p.OnPath nested.editors.frames .returnValue [] := by
    obtain ⟨tree, path, onPath⟩ := onPaths p member
    have same : tree.labelAt path = EditorTree.returnValue.labelAt [] :=
      (told p tree path onPath).symm.trans label
    obtain ⟨rfl, rfl⟩ := EditorTree.labelAt_inj.1 same
    exact onPath
  have key : FieldKey.ofRaw p.value "c" = .property "c" := by
    have noIndex : FieldKey.parseIndex? "c" = none := by decide
    cases p.value <;> simp [FieldKey.ofRaw, noIndex]
  have unopened : ∀ g, ¬Frame.OnPath nested.editors.frames g .returnValue
      ([] ++ [FieldKey.ofRaw p.value "c"]) := by
    intro g onPath
    have listed : g.label ∈ nested.editors.frames.map Frame.label :=
      List.mem_map_of_mem onPath.mem
    rw [told g _ _ onPath, key, nested_labels] at listed
    revert listed
    decide
  refine ⟨nested_reachable, f, t, opened, ?_⟩
  exact opening p .returnValue [] "c" root unopened f t (label ▸ opened)

end Session

end Fixture
