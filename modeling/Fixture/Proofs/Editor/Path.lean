import Fixture.Proofs.Editor.Change

/-!
Paths of editors. In a forest the keys that are met on the way from the root down to an editor are
the path that its label tells; the editors of one tree are those under its root.
-/

namespace Fixture

/-- The keys that are met from the root of a tree down to an editor, going from parent to child
among some editors. -/
inductive Frame.OnPath (frames : List Frame) : Frame → EditorTree → List FieldKey → Prop where
  | returnValue {f : Frame} (member : f ∈ frames) (target : f.target = .returnValue)
      (parent : f.parent = ModuleName.returnValue.name) : OnPath frames f .returnValue []
  | argument {f : Frame} {functionName name : String} (member : f ∈ frames)
      (target : f.target = .argument functionName name)
      (parent : f.parent = ModuleName.argumentList.name) : OnPath frames f .argument []
  | field {f p : Frame} {tree : EditorTree} {path : List FieldKey} {key : FieldKey}
      (member : f ∈ frames) (target : f.target = .field key) (parent : f.parent = p.label)
      (above : OnPath frames p tree path) : OnPath frames f tree (path ++ [key])

def Frame.inTree (f : Frame) (tree : EditorTree) : Bool :=
  tree.rootLabel.toList.isPrefixOf f.label.toList

namespace Frame

variable {f : Frame} {tree : EditorTree} {path : List FieldKey}

theorem OnPath.mem {frames : List Frame} (onPath : f.OnPath frames tree path) : f ∈ frames := by
  cases onPath <;> assumption

theorem IsAt.inTree_iff (place : f.IsAt tree path) (other : EditorTree) :
    f.inTree other = true ↔ tree = other := by
  have held : f.inTree other = other.holds (tree.labelAt path) :=
    congrArg other.holds place.label_eq
  rw [held, EditorTree.holds_labelAt]

theorem IsAt.unique {tree' : EditorTree} {path' : List FieldKey} (place : f.IsAt tree path)
    (place' : f.IsAt tree' path') : tree = tree' ∧ path = path' :=
  EditorTree.labelAt_inj.1 (place.label_eq.symm.trans place'.label_eq)

theorem IsAt.of_snoc {key : FieldKey} (place : f.IsAt tree (path ++ [key])) :
    f.target = .field key ∧ f.parent = tree.labelAt path := by
  generalize whole : path ++ [key] = keys at place
  cases place with
  | returnValue target label parent => simp at whole
  | argument target label parent => simp at whole
  | field target label parent =>
    obtain ⟨rfl, last⟩ := List.append_inj' whole rfl
    obtain rfl := List.head_eq_of_cons_eq last
    exact ⟨target, parent⟩

end Frame

namespace Editors

variable {es : Editors} {d : Draft} {frames : List Frame}

theorem Forest.above (forest : Forest d frames) {f : Frame} {tree : EditorTree}
    {path : List FieldKey} {key : FieldKey} (member : f ∈ frames)
    (place : f.IsAt tree (path ++ [key])) :
    ∃ p ∈ frames, p.label = f.parent ∧ p.IsAt tree path ∧ key.isComposite p.value = true := by
  obtain ⟨target, parent⟩ := place.of_snoc
  obtain ⟨p, memberP, label, composite⟩ := forest.parent_of_field member target
  obtain ⟨tree', path', placeP⟩ := forest.at_place p memberP
  obtain ⟨rfl, rfl⟩ := EditorTree.labelAt_inj.1 (placeP.label_eq.symm.trans (label.trans parent))
  exact ⟨p, memberP, label, placeP, composite⟩

theorem Forest.field_of_label (forest : Forest d frames) {f p : Frame} {key : FieldKey}
    (member : f ∈ frames) (memberP : p ∈ frames) (label : f.label = p.label ++ key.segment) :
    f.target = .field key ∧ f.parent = p.label := by
  obtain ⟨tree, path, place⟩ := forest.at_place p memberP
  obtain ⟨tree', path', placeF⟩ := forest.at_place f member
  rw [place.label_eq, ← EditorTree.labelAt_snoc] at label
  obtain ⟨rfl, rfl⟩ := EditorTree.labelAt_inj.1 (placeF.label_eq.symm.trans label)
  obtain ⟨target, parent⟩ := placeF.of_snoc
  exact ⟨target, parent.trans place.label_eq.symm⟩

/-- In a forest the path that a label tells is the one on which the editor is found. -/
theorem Forest.onPath_iff (forest : Forest d frames) {f : Frame} {tree : EditorTree}
    {path : List FieldKey} : f.OnPath frames tree path ↔ f ∈ frames ∧ f.IsAt tree path := by
  constructor
  · intro onPath
    refine ⟨onPath.mem, ?_⟩
    induction onPath with
    | returnValue member target parent =>
      obtain ⟨tree, path, place⟩ := forest.at_place _ member
      obtain ⟨rfl, rfl⟩ := place.of_returnValue target
      exact place
    | argument member target parent =>
      obtain ⟨tree, path, place⟩ := forest.at_place _ member
      obtain ⟨rfl, rfl⟩ := place.of_argument target
      exact place
    | field member target parent above ih =>
      obtain ⟨tree, path, place⟩ := forest.at_place _ member
      obtain ⟨key', target', rfl, rfl⟩ := place.of_parent (parent.trans ih.label_eq)
      cases target.symm.trans target'
      exact place
  · intro given
    obtain ⟨member, place⟩ := given
    induction path using List.reverseRecOn generalizing f with
    | nil =>
      generalize whole : ([] : List FieldKey) = keys at place
      cases place with
      | returnValue target label parent => exact .returnValue member target parent
      | argument target label parent => exact .argument member target parent
      | field => simp at whole
    | append_singleton path key ih =>
      obtain ⟨p, memberP, label, placeP, -⟩ := forest.above member place
      exact .field member place.of_snoc.1 label.symm (ih memberP placeP)

theorem Forest.inTree_iff (forest : Forest d frames) {f : Frame} (member : f ∈ frames)
    (tree : EditorTree) : f.inTree tree = true ↔ ∃ path, f.OnPath frames tree path := by
  obtain ⟨tree', path, place⟩ := forest.at_place f member
  rw [place.inTree_iff]
  constructor
  · intro same
    subst same
    exact ⟨path, forest.onPath_iff.2 ⟨member, place⟩⟩
  · intro given
    obtain ⟨path', onPath⟩ := given
    exact (place.unique (forest.onPath_iff.1 onPath).2).1

theorem Forest.label_of_mem_subtree_root (forest : Forest d es.frames) {tree : EditorTree}
    {l : String} (under : l ∈ es.subtree tree.rootLabel) : ∃ path, l = tree.labelAt path := by
  refine subtree_induction (fun l => ∃ path, l = tree.labelAt path) ⟨[], rfl⟩ ?_ under
  intro g memberG given
  obtain ⟨path, parent⟩ := given
  obtain ⟨tree', keys, placeG⟩ := forest.at_place g memberG
  obtain ⟨key, -, rfl, rfl⟩ := placeG.of_parent parent
  exact ⟨_, placeG.label_eq⟩

theorem Forest.mem_subtree_root_iff (forest : Forest d es.frames) {f : Frame} {tree : EditorTree}
    {path : List FieldKey} (member : f ∈ es.frames) (place : f.IsAt tree path)
    (other : EditorTree) : f.label ∈ es.subtree other.rootLabel ↔ tree = other := by
  constructor
  · intro under
    obtain ⟨path', label⟩ := forest.label_of_mem_subtree_root under
    exact (EditorTree.labelAt_inj.1 (place.label_eq.symm.trans label)).1
  · intro same
    subst same
    induction path using List.reverseRecOn generalizing f with
    | nil =>
      rw [place.label_eq]
      exact mem_subtree_self (frame?_isSome_iff.2 ⟨f, member, place.label_eq⟩)
    | append_singleton path key ih =>
      obtain ⟨p, memberP, label, placeP, -⟩ := forest.above member place
      exact forest.mem_subtree_of_parent member (label ▸ ih memberP placeP)

theorem Forest.without_root (forest : Forest d es.frames) (tree : EditorTree) :
    (es.without tree.rootLabel).frames = es.frames.filter fun f => !f.inTree tree := by
  rw [without_frames]
  refine List.filter_congr fun f member => ?_
  obtain ⟨tree', path, place⟩ := forest.at_place f member
  have same : f.label ∈ es.subtree tree.rootLabel ↔ f.inTree tree = true :=
    (forest.mem_subtree_root_iff member place tree).trans (place.inTree_iff tree).symm
  rw [Bool.eq_iff_iff]
  simp [same]

end Editors

end Fixture
