import Fixture.Proofs.Draft.Change
import Fixture.Proofs.Editor.Field
import Fixture.Proofs.Editor.Label
import Fixture.Proofs.Editor.Order

/-!
The open editors form a forest under the modules: labels are distinct and tell the path from the
root, each editor comes after its parent, and what it edits is there. Closing a whole subtree keeps
the forest, and so does opening an editor whose target is there.
-/

namespace Fixture

/-- An editor is at a place if its target, its label and its parent agree with that. -/
inductive Frame.IsAt (f : Frame) : EditorTree → List FieldKey → Prop where
  | returnValue (target : f.target = .returnValue) (label : f.label = returnValueLabel)
      (parent : f.parent = ModuleName.returnValue.name) : IsAt f .returnValue []
  | argument {functionName name : String} (target : f.target = .argument functionName name)
      (label : f.label = argumentLabel) (parent : f.parent = ModuleName.argumentList.name) :
      IsAt f .argument []
  | field {tree : EditorTree} {path : List FieldKey} {key : FieldKey}
      (target : f.target = .field key) (label : f.label = tree.labelAt (path ++ [key]))
      (parent : f.parent = tree.labelAt path) : IsAt f tree (path ++ [key])

/-- What an editor edits is there, in the draft or in the value of an editor before it, and is an
array or an object. -/
def Frame.Stands (d : Draft) (before : List Frame) (f : Frame) : Prop :=
  match f.target with
  | .returnValue => ∃ r, d.modules.returnValue = some r ∧ r.type.isComposite = true
  | .argument functionName argument =>
    ∃ s, d.modules.slot? functionName argument = some s ∧ s.type.isComposite = true
  | .field key => ∃ p ∈ before, p.label = f.parent ∧ key.isComposite p.value = true

structure Frame.SamePlace (f g : Frame) : Prop where
  label : g.label = f.label
  parent : g.parent = f.parent
  target : g.target = f.target

theorem Frame.SamePlace.refl (f : Frame) : f.SamePlace f := ⟨rfl, rfl, rfl⟩

/-- Only the editor of a field depends on other editors: on its parent. -/
theorem Frame.Stands.relocate {d : Draft} {before before' : List Frame} {f g : Frame}
    (stands : f.Stands d before) (same : f.SamePlace g)
    (fields : ∀ key, f.target = .field key → ∀ p ∈ before, p.label = f.parent →
      key.isComposite p.value = true →
      ∃ p' ∈ before', p'.label = f.parent ∧ key.isComposite p'.value = true) :
    g.Stands d before' := by
  cases target : f.target with
  | returnValue => simpa only [Frame.Stands, same.target, target] using stands
  | argument functionName argument => simpa only [Frame.Stands, same.target, target] using stands
  | field key =>
    simp only [Frame.Stands, same.target, same.parent, target] at stands ⊢
    obtain ⟨p, member, parent, composite⟩ := stands
    exact fields key target p member parent composite

theorem Frame.Stands.parent_of_field {d : Draft} {before : List Frame} {f : Frame}
    (stands : f.Stands d before) {key : FieldKey} (target : f.target = .field key) :
    ∃ p ∈ before, p.label = f.parent ∧ key.isComposite p.value = true := by
  simpa only [Frame.Stands, target] using stands

namespace Frame.IsAt

variable {f g : Frame} {tree : EditorTree} {path : List FieldKey}

theorem label_eq (place : f.IsAt tree path) : f.label = tree.labelAt path := by
  cases place <;> assumption

theorem parse?_label (place : f.IsAt tree path) : ModuleName.parse? f.label = none := by
  rw [place.label_eq]
  exact tree.parse?_labelAt path

/-! What is edited tells of which form the place is. -/

theorem of_returnValue (place : f.IsAt tree path) (target : f.target = .returnValue) :
    tree = .returnValue ∧ path = [] := by
  cases place with
  | returnValue => exact ⟨rfl, rfl⟩
  | argument target' => cases target.symm.trans target'
  | field target' => cases target.symm.trans target'

theorem of_argument {functionName name : String} (place : f.IsAt tree path)
    (target : f.target = .argument functionName name) : tree = .argument ∧ path = [] := by
  cases place with
  | returnValue target' => cases target.symm.trans target'
  | argument => exact ⟨rfl, rfl⟩
  | field target' => cases target.symm.trans target'

theorem of_field {key : FieldKey} (place : f.IsAt tree path) (target : f.target = .field key) :
    ∃ above, path = above ++ [key] ∧ f.parent = tree.labelAt above := by
  cases place with
  | returnValue target' => cases target.symm.trans target'
  | argument target' => cases target.symm.trans target'
  | @field _ above _ target' label parent =>
    cases target.symm.trans target'
    exact ⟨above, rfl, parent⟩

theorem label_of_field {key : FieldKey} (place : f.IsAt tree path) (target : f.target = .field key) :
    f.label = f.parent ++ key.segment := by
  obtain ⟨above, rfl, parent⟩ := place.of_field target
  rw [place.label_eq, parent, EditorTree.labelAt_snoc]

theorem of_parent {tree' : EditorTree} {above : List FieldKey} (place : f.IsAt tree path)
    (parent : f.parent = tree'.labelAt above) :
    ∃ key, f.target = .field key ∧ tree = tree' ∧ path = above ++ [key] := by
  cases place with
  | returnValue _ _ root => exact absurd (parent.symm.trans root) (tree'.labelAt_ne_name above _)
  | argument _ _ root => exact absurd (parent.symm.trans root) (tree'.labelAt_ne_name above _)
  | field target _ parent' =>
    obtain ⟨rfl, rfl⟩ := EditorTree.labelAt_inj.1 (parent.symm.trans parent')
    exact ⟨_, target, rfl, rfl⟩

theorem of_samePlace (place : f.IsAt tree path) (same : f.SamePlace g) : g.IsAt tree path := by
  cases place with
  | returnValue target label parent =>
    exact .returnValue (same.target.trans target) (same.label.trans label) (same.parent.trans parent)
  | argument target label parent =>
    exact .argument (same.target.trans target) (same.label.trans label) (same.parent.trans parent)
  | field target label parent =>
    exact .field (same.target.trans target) (same.label.trans label) (same.parent.trans parent)

theorem opened (place : f.IsAt tree path) (key : FieldKey) (field : Json) :
    (Frame.opened (f.label ++ key.segment) f.label (.field key) field).IsAt tree
      (path ++ [key]) := by
  refine .field rfl ?_ place.label_eq
  rw [EditorTree.labelAt_snoc, ← place.label_eq]
  rfl

end Frame.IsAt

namespace Editors

/-! ## Looking editors up -/

theorem frame?_isSome_iff {es : Editors} {label : String} :
    (es.frame? label).isSome = true ↔ ∃ f ∈ es.frames, f.label = label := by
  simp [frame?, List.find?_isSome]

theorem frame?_mem {es : Editors} {label : String} {f : Frame} (found : es.frame? label = some f) :
    f ∈ es.frames ∧ f.label = label :=
  ⟨List.mem_of_find?_eq_some found, by simpa using List.find?_some found⟩

theorem eq_of_label_eq {frames : List Frame} (nodup : (frames.map Frame.label).Nodup) {f g : Frame}
    (memberF : f ∈ frames) (memberG : g ∈ frames) (same : f.label = g.label) : f = g :=
  List.inj_on_of_nodup_map nodup memberF memberG same

theorem frame?_eq_some {es : Editors} (nodup : (es.frames.map Frame.label).Nodup) {f : Frame}
    (member : f ∈ es.frames) : es.frame? f.label = some f := by
  obtain ⟨g, found⟩ := Option.isSome_iff_exists.1 (frame?_isSome_iff.2 ⟨f, member, rfl⟩)
  obtain ⟨memberG, same⟩ := frame?_mem found
  rw [found, eq_of_label_eq nodup memberG member same]

theorem holdsComposite_iff {frames : List Frame} (nodup : (frames.map Frame.label).Nodup)
    {label : String} {key : FieldKey} :
    holdsComposite frames label key = true ↔
      ∃ p ∈ frames, p.label = label ∧ key.isComposite p.value = true := by
  rw [holdsComposite, Option.any_eq_true]
  constructor
  · intro given
    obtain ⟨p, found, composite⟩ := given
    exact ⟨p, List.mem_of_find?_eq_some found, by simpa using List.find?_some found, composite⟩
  · intro given
    obtain ⟨p, member, rfl, composite⟩ := given
    have found : Editors.frame? ⟨frames, none⟩ p.label = some p := frame?_eq_some nodup member
    exact ⟨p, found, composite⟩

theorem modifyFirst_eq_map {frames : List Frame} (nodup : (frames.map Frame.label).Nodup)
    (label : String) (change : Frame → Frame) :
    modifyFirst label change frames =
      frames.map fun f => if f.label = label then change f else f := by
  induction frames with
  | nil => rfl
  | cons f frames ih =>
    rw [List.map_cons, List.nodup_cons] at nodup
    by_cases same : f.label = label
    · have others : frames.map (fun g => if g.label = label then change g else g) = frames := by
        conv_rhs => rw [← List.map_id' frames]
        refine List.map_congr_left fun g member => if_neg fun label_eq => nodup.1 ?_
        rw [same, ← label_eq]
        exact List.mem_map_of_mem member
      rw [modifyFirst, if_pos same, List.map_cons, if_pos same, others]
    · rw [modifyFirst, if_neg same, List.map_cons, if_neg same, ih nodup.2]

/-! ## Distinct labels -/

theorem labels_nodup_snoc {frames : List Frame} (nodup : (frames.map Frame.label).Nodup) {f : Frame}
    (fresh : ∀ g ∈ frames, g.label ≠ f.label) : ((frames ++ [f]).map Frame.label).Nodup := by
  rw [List.map_append, List.map_singleton, List.nodup_append]
  refine ⟨nodup, List.nodup_singleton _, ?_⟩
  intro label member other single same
  obtain ⟨g, memberG, rfl⟩ := List.mem_map.1 member
  exact fresh g memberG (same.trans (List.mem_singleton.1 single))

theorem labels_nodup_map {frames : List Frame} (nodup : (frames.map Frame.label).Nodup)
    {change : Frame → Frame} (same : ∀ f : Frame, f.SamePlace (change f)) :
    ((frames.map change).map Frame.label).Nodup := by
  have labels : frames.map (Frame.label ∘ change) = frames.map Frame.label :=
    List.map_congr_left fun f _ => (same f).label
  rwa [List.map_map, labels]

/-! ## Editors in their places -/

structure Placed (frames : List Frame) : Prop where
  labels_nodup : (frames.map Frame.label).Nodup
  at_place : ∀ f ∈ frames, ∃ tree path, f.IsAt tree path

namespace Placed

variable {frames : List Frame}

theorem nil : Placed [] := ⟨List.nodup_nil, fun _ member => absurd member List.not_mem_nil⟩

theorem sublist {frames' : List Frame} (placed : Placed frames) (fewer : frames'.Sublist frames) :
    Placed frames' :=
  ⟨placed.labels_nodup.sublist (fewer.map Frame.label),
    fun f member => placed.at_place f (fewer.subset member)⟩

theorem snoc {f : Frame} (placed : Placed frames) (fresh : ∀ g ∈ frames, g.label ≠ f.label)
    {tree : EditorTree} {path : List FieldKey} (place : f.IsAt tree path) :
    Placed (frames ++ [f]) := by
  refine ⟨labels_nodup_snoc placed.labels_nodup fresh, fun g member => ?_⟩
  rcases List.mem_append.1 member with old | new
  · exact placed.at_place g old
  · rw [List.mem_singleton.1 new]
    exact ⟨tree, path, place⟩

theorem map (placed : Placed frames) {change : Frame → Frame}
    (same : ∀ f : Frame, f.SamePlace (change f)) : Placed (frames.map change) := by
  refine ⟨labels_nodup_map placed.labels_nodup same, fun g member => ?_⟩
  obtain ⟨f, memberF, rfl⟩ := List.mem_map.1 member
  obtain ⟨tree, path, place⟩ := placed.at_place f memberF
  exact ⟨tree, path, place.of_samePlace (same f)⟩

theorem before {front after : List Frame} {f : Frame} (placed : Placed frames)
    (split : frames = front ++ f :: after) : Placed front :=
  placed.sublist (split ▸ List.sublist_append_left front (f :: after))

theorem label_ne {front after : List Frame} {f g : Frame} (placed : Placed frames)
    (split : frames = front ++ f :: after) (member : g ∈ front) : g.label ≠ f.label := by
  have nodup := placed.labels_nodup
  rw [split, List.map_append, List.nodup_append] at nodup
  exact nodup.2.2 g.label (List.mem_map_of_mem member) f.label (by simp)

end Placed

/-! ## The forest -/

/-- Editors in their places, each of which edits something that is there. -/
structure Forest (d : Draft) (frames : List Frame) : Prop extends Placed frames where
  stand : EachAfter (Frame.Stands d) frames

theorem stands_of_targetStands {d : Draft} {kept : List Frame} {f : Frame}
    (passes : targetStands d kept f = true) : f.Stands d kept := by
  rw [targetStands] at passes
  rw [Frame.Stands]
  cases target : f.target with
  | returnValue =>
    rw [target] at passes
    exact Option.any_eq_true _ _ |>.1 passes
  | argument functionName argument =>
    rw [target] at passes
    exact Option.any_eq_true _ _ |>.1 passes
  | field key =>
    rw [target] at passes
    obtain ⟨p, found, composite⟩ := (Option.any_eq_true _ _).1 passes
    exact ⟨p, List.mem_of_find?_eq_some found, by simpa using List.find?_some found, composite⟩

/-- An editor in its place passes the whole test if what it edits is there: its parent is then there
as well. -/
theorem passes_of_stands {d : Draft} {before : List Frame} {f : Frame} (placed : Placed before)
    {tree : EditorTree} {path : List FieldKey} (place : f.IsAt tree path)
    (stands : f.Stands d before) : (targetStands d before f && parentStands d before f) = true := by
  cases place with
  | returnValue target label parent =>
    have parse : ModuleName.parse? f.parent = some .returnValue := by
      rw [parent, ModuleName.parse?_name]
    simp only [Frame.Stands, target] at stands
    simp only [targetStands, parentStands, target, parse, Bool.and_eq_true, Option.any_eq_true]
    obtain ⟨r, found, composite⟩ := stands
    exact ⟨⟨r, found, composite⟩, Modules.contains_returnValue found⟩
  | argument target label parent =>
    have parse : ModuleName.parse? f.parent = some .argumentList := by
      rw [parent, ModuleName.parse?_name]
    simp only [Frame.Stands, target] at stands
    simp only [targetStands, parentStands, target, parse, Bool.and_eq_true, Option.any_eq_true]
    obtain ⟨slot, found, composite⟩ := stands
    exact ⟨⟨slot, found, composite⟩, Modules.contains_argumentList found⟩
  | field target label parent =>
    have parse : ModuleName.parse? f.parent = none := by
      rw [parent]
      exact EditorTree.parse?_labelAt _ _
    simp only [targetStands, parentStands, target, parse, Bool.and_eq_true,
      holdsComposite_iff placed.labels_nodup, List.any_eq_true, beq_iff_eq]
    obtain ⟨p, member, same, composite⟩ := stands.parent_of_field target
    exact ⟨⟨p, member, same, composite⟩, p, member, same⟩

namespace Forest

variable {d : Draft} {frames : List Frame}

theorem nil : Forest d [] := ⟨.nil, EachAfter.nil⟩

theorem snoc {f : Frame} (forest : Forest d frames) (fresh : ∀ g ∈ frames, g.label ≠ f.label)
    {tree : EditorTree} {path : List FieldKey} (place : f.IsAt tree path)
    (stands : f.Stands d frames) : Forest d (frames ++ [f]) :=
  ⟨forest.toPlaced.snoc fresh place, EachAfter.snoc_iff.2 ⟨forest.stand, stands⟩⟩

theorem parent {front after : List Frame} {f : Frame} (forest : Forest d frames)
    (split : frames = front ++ f :: after) :
    (∃ m, f.parent = m.name ∧ d.modules.contains m = true) ∨ ∃ p ∈ front, p.label = f.parent := by
  obtain ⟨tree, path, place⟩ := forest.at_place f (by simp [split])
  have stands := forest.stand front f after split
  cases place with
  | returnValue target label parent =>
    simp only [Frame.Stands, target] at stands
    obtain ⟨r, found, -⟩ := stands
    exact .inl ⟨.returnValue, parent, Modules.contains_returnValue found⟩
  | argument target label parent =>
    simp only [Frame.Stands, target] at stands
    obtain ⟨slot, found, -⟩ := stands
    exact .inl ⟨.argumentList, parent, Modules.contains_argumentList found⟩
  | field target label parent =>
    obtain ⟨p, member, same, -⟩ := stands.parent_of_field target
    exact .inr ⟨p, member, same⟩

theorem parent_of_field (forest : Forest d frames) {f : Frame} (member : f ∈ frames)
    {key : FieldKey} (target : f.target = .field key) :
    ∃ p ∈ frames, p.label = f.parent ∧ key.isComposite p.value = true := by
  obtain ⟨front, back, rfl⟩ := List.append_of_mem member
  obtain ⟨p, earlier, parent, composite⟩ :=
    (forest.stand front f back rfl).parent_of_field target
  exact ⟨p, List.mem_append_left _ earlier, parent, composite⟩

theorem ordered (forest : Forest d frames) :
    EachAfter (fun before f => ∀ g ∈ before, g.parent ≠ f.label) frames := by
  intro front f after split g member same
  obtain ⟨tree, path, place⟩ := forest.at_place f (by simp [split])
  obtain ⟨outer, inner, rfl⟩ := List.append_of_mem member
  have earlier : frames = outer ++ g :: (inner ++ f :: after) := by
    rw [split, List.append_assoc, List.cons_append]
  rcases forest.parent earlier with ⟨m, named, -⟩ | ⟨p, memberP, parent⟩
  · exact tree.labelAt_ne_name path m (place.label_eq.symm.trans (same.symm.trans named))
  · exact forest.toPlaced.label_ne split (List.mem_append_left _ memberP) (parent.trans same)

theorem mem_subtree_of_parent {es : Editors} (forest : Forest d es.frames) {label : String}
    {f : Frame} (member : f ∈ es.frames) (under : f.parent ∈ es.subtree label) :
    f.label ∈ es.subtree label :=
  Editors.mem_subtree_of_parent forest.ordered member under

/-- Closing editors keeps the forest if all editors under a closed one are closed. -/
theorem filter (forest : Forest d frames) (closed : List String)
    (whole : ∀ f ∈ frames, f.parent ∈ closed → f.label ∈ closed) :
    Forest d (frames.filter fun f => !closed.contains f.label) := by
  refine ⟨forest.toPlaced.sublist List.filter_sublist, ?_⟩
  refine forest.stand.filter _ fun front f after split stays stands => ?_
  have opened : f.label ∉ closed := by simpa using stays
  have member : f ∈ frames := by simp [split]
  refine stands.relocate (.refl f) fun key _ p memberP parent composite => ?_
  have parentOpened : p.label ∉ closed := fun gone =>
    opened (whole f member (parent ▸ gone))
  exact ⟨p, List.mem_filter.2 ⟨memberP, by simpa using parentOpened⟩, parent, composite⟩

theorem eachAfter_test (forest : Forest d frames) :
    EachAfter (fun kept f => (targetStands d kept f && parentStands d kept f) = true) frames :=
  forest.stand.mono fun front f after split stands => by
    obtain ⟨tree, path, place⟩ := forest.at_place f (by simp [split])
    exact passes_of_stands (forest.toPlaced.before split) place stands

theorem reconcile_eq_self {es : Editors} (forest : Forest d es.frames) :
    es.reconcile d = (es, []) := by
  rw [reconcile, sift_eq_self _ forest.eachAfter_test]

end Forest

theorem reconcile_frames (es : Editors) (d : Draft) :
    (es.reconcile d).1.frames =
      (sift (fun kept f => targetStands d kept f && parentStands d kept f) es.frames).1 := rfl

theorem reconcile_sublist (es : Editors) (d : Draft) :
    ((es.reconcile d).1.frames).Sublist es.frames := by
  rw [reconcile_frames]
  exact sift_sublist _ es.frames

theorem reconcile_stand (es : Editors) (d : Draft) :
    EachAfter (Frame.Stands d) (es.reconcile d).1.frames := by
  rw [reconcile_frames]
  refine (eachAfter_sift _ es.frames).mono fun front f after _ passes => ?_
  rw [Bool.and_eq_true] at passes
  exact stands_of_targetStands passes.1

theorem reconcile_reconcile (es : Editors) (d : Draft) :
    (es.reconcile d).1.reconcile d = ((es.reconcile d).1, []) := by
  have kept := sift_eq_self _ (eachAfter_sift
    (fun kept f => targetStands d kept f && parentStands d kept f) es.frames)
  simp only [reconcile, kept]

/-- Reconciling makes a forest of any editors in their places. -/
theorem Placed.reconcile {es : Editors} (placed : Placed es.frames) (d : Draft) :
    Forest d (es.reconcile d).1.frames :=
  ⟨placed.sublist (reconcile_sublist es d), reconcile_stand es d⟩

end Editors

end Fixture
