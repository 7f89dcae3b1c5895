import Fixture.Proofs.Editor.Closing

/-!
Opening editors, and the last of the open ones. A field of any open editor can be opened. Nothing is
under the last editor, so any value can be put into it, none of its fields is open yet, and a commit
closes it alone.
-/

namespace Fixture

namespace Editors

variable {es : Editors} {d : Draft} {front : List Frame} {f : Frame}

theorem pushed_ok (frame : Frame) (outside : frame.parent ∉ es.subtree frame.label)
    (live : es.isLive d frame.parent = true) :
    es.pushed frame d =
      .ok (frame, ⟨(es.without frame.label).frames ++ [frame], some frame.label⟩) := by
  have accepted : ¬((es.subtree frame.label).contains frame.parent ||
      !es.isLive d frame.parent) = true := by
    simp [outside, live]
  rw [pushed, push, if_neg accepted]
  rfl

theorem Forest.pushed_root (forest : Forest d es.frames) (tree : EditorTree)
    (label : f.label = tree.rootLabel) {m : ModuleName} (parent : f.parent = m.name)
    (enabled : d.modules.contains m = true) :
    ∃ next, es.pushed f d = .ok (f, next) ∧
      next.frames = (es.frames.filter fun g => !g.inTree tree) ++ [f] := by
  have outside : f.parent ∉ es.subtree f.label := by
    intro under
    rw [label] at under
    obtain ⟨path, same⟩ := forest.label_of_mem_subtree_root under
    exact tree.labelAt_ne_name path m (same.symm.trans parent)
  have live : es.isLive d f.parent = true := by
    rw [isLive, parent, ModuleName.parse?_name]
    exact enabled
  refine ⟨_, pushed_ok f outside live, ?_⟩
  rw [label, forest.without_root]

theorem Forest.openReturnValue_root (forest : Forest d es.frames) {r : ReturnValue}
    (found : d.modules.returnValue = some r) (composite : r.type.isComposite = true) :
    ∃ next f, es.openReturnValue d = .ok (f, next) ∧ f.target = .returnValue ∧
      f.value = r.type.start r.value ∧
      next.frames = (es.frames.filter fun g => !g.inTree .returnValue) ++ [f] := by
  have enabled := Modules.contains_returnValue found
  obtain ⟨next, pushed, frames⟩ := forest.pushed_root
    (f := .opened returnValueLabel ModuleName.returnValue.name .returnValue (r.type.start r.value))
    .returnValue rfl rfl enabled
  refine ⟨next, _, ?_, rfl, rfl, frames⟩
  simp only [Editors.openReturnValue, found, startingValue?_eq_start composite, pushed]

theorem Forest.openArgument_root (forest : Forest d es.frames) {functionName argument : String}
    {slot : Slot} (found : d.modules.slot? functionName argument = some slot)
    (composite : slot.type.isComposite = true) :
    ∃ next f, es.openArgument d functionName argument = .ok (f, next) ∧
      f.target = .argument functionName argument ∧ f.value = slot.type.start slot.value ∧
      next.frames = (es.frames.filter fun g => !g.inTree .argument) ++ [f] := by
  have enabled := Modules.contains_argumentList found
  obtain ⟨next, pushed, frames⟩ := forest.pushed_root
    (f := .opened argumentLabel ModuleName.argumentList.name (.argument functionName argument)
      (slot.type.start slot.value))
    .argument rfl rfl enabled
  refine ⟨next, _, ?_, rfl, rfl, frames⟩
  simp only [Editors.openArgument, enabled, Bool.not_true, Bool.false_eq_true, if_false, found,
    startingValue?_eq_start composite, pushed]

theorem Forest.isLive_label (forest : Forest d es.frames) (member : f ∈ es.frames) :
    es.isLive d f.label = true := by
  obtain ⟨tree, path, place⟩ := forest.at_place f member
  rw [isLive, place.parse?_label]
  exact frame?_isSome_iff.2 ⟨f, member, rfl⟩

theorem Forest.frame?_last (forest : Forest d es.frames) (last : es.frames = front ++ [f]) :
    es.frame? f.label = some f :=
  frame?_eq_some forest.labels_nodup (by simp [last])

theorem Forest.openField_ok (forest : Forest d es.frames) (member : f ∈ es.frames)
    {key : FieldKey} {field : Json} (found : key.get? f.value = some field)
    (composite : field.isComposite = true) {child : Frame}
    (fresh : child = .opened (f.label ++ key.segment) f.label (.field key) field) :
    es.openField d f.label key =
      .ok (child, ⟨(es.without child.label).frames ++ [child], some child.label⟩) := by
  subst fresh
  have pushed := pushed_ok (.opened (f.label ++ key.segment) f.label (.field key) field)
    (forest.not_mem_subtree_field member key) (forest.isLive_label member)
  rw [Editors.openField, frame?_eq_some forest.labels_nodup member]
  simp only [found, if_pos composite]
  exact pushed

theorem Forest.frame?_field_last (forest : Forest d es.frames) (last : es.frames = front ++ [f])
    (key : FieldKey) : es.frame? (f.label ++ key.segment) = none := by
  have member : f ∈ es.frames := by simp [last]
  rw [frame?, List.find?_eq_none]
  intro g memberG same
  have parent := (forest.field_of_label memberG member (beq_iff_eq.1 same)).2
  rw [last] at memberG
  rcases List.mem_append.1 memberG with before | itself
  · exact forest.ordered front f [] last g before parent
  · obtain rfl := List.mem_singleton.1 itself
    exact forest.toPlaced.parent_not_under member parent (.self member)

theorem Forest.openField_last (forest : Forest d es.frames) (last : es.frames = front ++ [f])
    {key : FieldKey} {field : Json} (found : key.get? f.value = some field)
    (composite : field.isComposite = true) :
    ∃ next, es.openField d f.label key =
        .ok (.opened (f.label ++ key.segment) f.label (.field key) field, next) ∧
      next.frames =
        front ++ [f] ++ [.opened (f.label ++ key.segment) f.label (.field key) field] := by
  refine ⟨_, forest.openField_ok (by simp [last]) found composite rfl, ?_⟩
  have closed := forest.frame?_field_last last key
  simp only [Frame.opened, without_eq_self closed, last]

theorem Forest.without_last (forest : Forest d es.frames) (last : es.frames = front ++ [f]) :
    (es.without f.label).frames = front := by
  have alone : ∀ l ∈ es.subtree f.label, l = f.label := by
    intro l under
    refine subtree_induction (· = f.label) rfl (fun g member parent => ?_) under
    rw [last] at member
    rcases List.mem_append.1 member with before | itself
    · exact absurd parent (forest.ordered front f [] last g before)
    · rw [List.mem_singleton.1 itself]
  have gone : f.label ∈ es.subtree f.label :=
    mem_subtree_self (frame?_isSome_iff.2 ⟨f, by simp [last], rfl⟩)
  have kept : (front.filter fun g => !(es.subtree f.label).contains g.label) = front := by
    refine List.filter_eq_self.2 fun g before => ?_
    have other := forest.toPlaced.label_ne last before
    simpa using fun under => other (alone _ under)
  rw [without_frames, last, List.filter_append, kept, List.filter_singleton]
  simp [gone]

theorem Forest.openField_again (forest : Forest d es.frames) {next : Editors} {p : Frame}
    (member : p ∈ es.frames) {key : FieldKey} (opened : es.openField d p.label key = .ok (f, next)) :
    p ∈ next.frames ∧ next.openField d p.label key = .ok (f, next) := by
  have later : Forest d next.frames := forest.openField opened
  obtain ⟨p', field, found, here, composite, fresh, -⟩ := openField_inv opened
  rw [frame?_eq_some forest.labels_nodup member] at found
  obtain rfl := Option.some.inj found
  rw [forest.openField_ok member here composite fresh] at opened
  obtain rfl := (Prod.mk.inj (Except.ok.inj opened)).2
  have label : f.label = p.label ++ key.segment := by rw [fresh, Frame.opened]
  have stays : p ∈ (es.without f.label).frames ++ [f] := by
    rw [List.mem_append, without_frames, List.mem_filter, label]
    exact .inl ⟨member, by simpa using forest.not_mem_subtree_field member key⟩
  refine ⟨stays, ?_⟩
  -- the field's editor, which is the last one, is all that closes
  rw [later.openField_ok stays here composite fresh, later.without_last rfl]

theorem map_changeValue_last (placed : Placed (front ++ [f])) (change : Json → Json) :
    (front ++ [f]).map (changeValue f.label change) =
      front ++ [{ f with value := change f.value }] := by
  have others : front.map (changeValue f.label change) = front := by
    conv_rhs => rw [← List.map_id front]
    exact List.map_congr_left fun g before =>
      value_changeValue_of_ne change (placed.label_ne rfl before)
  rw [List.map_append, others, List.map_singleton, changeValue, if_pos rfl]

theorem Forest.eachAfter_fieldStands {frames : List Frame} (forest : Forest d frames) :
    EachAfter (fun kept f => fieldStands kept f = true) frames :=
  forest.stand.mono fun before f after split stands => by
    rw [fieldStands]
    cases target : f.target with
    | field key =>
      exact (holdsComposite_iff (forest.toPlaced.before split).labels_nodup).2
        (stands.parent_of_field target)
    | _ => rfl

theorem Forest.changeValue_last (forest : Forest d (front ++ [f])) (change : Json → Json) :
    Forest d (front ++ [{ f with value := change f.value }]) := by
  have placed := forest.toPlaced.map (samePlace_changeValue f.label change)
  rw [map_changeValue_last forest.toPlaced] at placed
  obtain ⟨before, stands⟩ := EachAfter.snoc_iff.1 forest.stand
  exact ⟨placed, EachAfter.snoc_iff.2 ⟨before, stands⟩⟩

theorem Forest.setValue_last (forest : Forest d es.frames) (last : es.frames = front ++ [f])
    (value : Json) :
    ∃ next, es.setValue f.label value = .ok next ∧ next.frames = front ++ [{ f with value }] := by
  have opened : (es.frame? f.label).isSome = true :=
    frame?_isSome_iff.2 ⟨f, by simp [last], rfl⟩
  rw [last] at forest
  have changed : modifyFirst f.label (fun f => { f with value }) es.frames =
      front ++ [{ f with value }] := by
    rw [last, modifyFirst_eq_map forest.labels_nodup]
    exact map_changeValue_last forest.toPlaced fun _ => value
  have kept := sift_eq_self fieldStands (forest.changeValue_last fun _ => value).eachAfter_fieldStands
  have stays : ¬es.selected.any List.nil.contains = true := by
    cases es.selected <;> simp
  refine ⟨⟨front ++ [{ f with value }], es.selected⟩, ?_, rfl⟩
  rw [Editors.setValue, if_pos opened, changed, kept]
  simp only [if_neg stays]

theorem Forest.commit_last {p : Frame} (forest : Forest d es.frames)
    (last : es.frames = front ++ [p] ++ [f]) {key : FieldKey} (target : f.target = .field key)
    (parent : f.parent = p.label) {old : Json} (found : key.get? p.value = some old)
    (composite : old.isComposite = true) (value : Json) (ctx : Context) :
    ∃ next, es.commit f.label value d ctx = .ok (d, next) ∧
      next.frames = front ++ [{ p with value := key.set value p.value }] := by
  have placed : Placed (front ++ [p]) := forest.toPlaced.before last
  let change (g : Frame) : Frame := { g with value := key.set value g.value }
  let changed : Editors := { es with frames := modifyFirst p.label change es.frames }
  refine ⟨changed.without f.label, ?_, ?_⟩
  · rw [Editors.commit, forest.frame?_last last]
    simp only [target, parent]
    rw [frame?_eq_some forest.labels_nodup (by simp [last])]
    simp only [found, if_pos composite, changed, change]
  · rw [field_commit_frames forest.labels_nodup, forest.without_last last]
    exact map_changeValue_last placed fun v => key.set value v

theorem Forest.commit_returnValue_last (forest : Forest d es.frames)
    (last : es.frames = front ++ [f]) (target : f.target = .returnValue) {r : ReturnValue}
    (found : d.modules.returnValue = some r) (composite : r.type.isComposite = true) (value : Json)
    (ctx : Context) :
    ∃ next, es.commit f.label value d ctx =
        .ok ({ d with modules := { d.modules with returnValue := some ⟨r.type, some value⟩ } },
          next) ∧
      next.frames = front := by
  have applied := Draft.updateReturnValue_ok found (.ofTyped r.type (some value))
  rw [ReturnValue.normalized_ofTyped, ReturnValue.ofTyped,
    TypeTag.restrict_of_composite composite] at applied
  refine ⟨es.without f.label, ?_, forest.without_last last⟩
  rw [Editors.commit, forest.frame?_last last]
  simp only [target, found, Draft.apply, ReturnValue.ofTyped,
    TypeTag.restrict_of_composite composite, applied]

theorem Forest.commit_argument_last (forest : Forest d es.frames)
    (last : es.frames = front ++ [f]) {before after : List Slot} {slot : Slot}
    (target : f.target = .argument slot.functionName slot.argument)
    (listed : d.modules.argumentList = some (before ++ slot :: after))
    (others : ∀ t ∈ before, t.key ≠ slot.key) (composite : slot.type.isComposite = true)
    (value : Json) (ctx : Context) :
    ∃ next, es.commit f.label value d ctx =
        .ok ({ d with modules := { d.modules with
          argumentList := some (before ++ { slot with value := some value } :: after) } }, next) ∧
      next.frames = front := by
  have found := Modules.slot?_eq_some listed others
  have applied := Draft.changeArgument_ok listed others
    (slot.key_withValue slot.type (some value))
  rw [Slot.normalized_withValue, Slot.withValue,
    TypeTag.restrict_of_composite composite] at applied
  refine ⟨es.without f.label, ?_, forest.without_last last⟩
  rw [Editors.commit, forest.frame?_last last]
  simp only [target, found, Draft.apply, Slot.withValue,
    TypeTag.restrict_of_composite composite, applied]

end Editors

end Fixture
