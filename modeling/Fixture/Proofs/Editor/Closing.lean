import Fixture.Proofs.Editor.Path

/-!
Which editors are closed. Under an editor are those that are reached from it by going on from
parents to children. Closing or committing an editor closes all that are under it. Setting a value
closes all that are under the editor of a field that the value does not hold any more. No other
editor is closed, and the tabs that are left to select are there.
-/

namespace Fixture

/-- An editor, or one that is reached from it by going on from parents to children. -/
inductive Frame.Under (frames : List Frame) : Frame → Frame → Prop where
  | self {top : Frame} (member : top ∈ frames) : Under frames top top
  | child {f p top : Frame} (member : f ∈ frames) (parent : f.parent = p.label)
      (above : Under frames p top) : Under frames f top

/-- The editor of a field that a new value of the parent does not hold, or not as an array or an
object. -/
def Frame.LosesField (label : String) (value : Json) (f : Frame) : Prop :=
  f.parent = label ∧ ∃ key, f.target = .field key ∧ key.isComposite value = false

/-- An editor under one that loses its field to a new value. -/
def Frame.Uprooted (frames : List Frame) (label : String) (value : Json) (f : Frame) : Prop :=
  ∃ child ∈ frames, child.LosesField label value ∧ f.Under frames child

theorem Frame.Under.mem {frames : List Frame} {f top : Frame} (under : f.Under frames top) :
    f ∈ frames := by
  cases under <;> assumption

theorem Frame.IsAt.below {f p : Frame} {tree tree' : EditorTree} {path path' : List FieldKey}
    (place : f.IsAt tree path) (placeP : p.IsAt tree' path') (parent : f.parent = p.label) :
    ∃ key, f.target = .field key ∧ tree = tree' ∧ path = path' ++ [key] :=
  place.of_parent (parent.trans placeP.label_eq)

namespace Editors

variable {es next : Editors} {d : Draft} {frames : List Frame} {f p top : Frame}

/-! ## Going up -/

theorem under_iff (nodup : (frames.map Frame.label).Nodup) (member : f ∈ frames)
    (memberP : p ∈ frames) (parent : p.label = f.parent) :
    f.Under frames top ↔ f = top ∨ p.Under frames top := by
  constructor
  · intro under
    cases under with
    | self => exact .inl rfl
    | child _ parent' above =>
      obtain rfl := eq_of_label_eq nodup above.mem memberP (parent'.symm.trans parent.symm)
      exact .inr above
  · intro given
    rcases given with rfl | above
    · exact .self member
    · exact .child member parent.symm above

namespace Placed

theorem eq_of_under (placed : Placed frames) (root : ∀ key, f.target ≠ .field key)
    (under : f.Under frames top) : f = top := by
  obtain ⟨tree, path, place⟩ := placed.at_place f under.mem
  cases under with
  | self => rfl
  | child _ parent above =>
    obtain ⟨tree', path', placeP⟩ := placed.at_place _ above.mem
    obtain ⟨key, target, -⟩ := place.below placeP parent
    exact absurd target (root key)

theorem prefix_of_under (placed : Placed frames) (under : f.Under frames top)
    {tree : EditorTree} {path : List FieldKey} (place : f.IsAt tree path) :
    ∃ upper, top.IsAt tree upper ∧ upper <+: path := by
  induction under generalizing path with
  | self => exact ⟨path, place, List.prefix_rfl⟩
  | child _ parent above ih =>
    obtain ⟨tree', path', placeP⟩ := placed.at_place _ above.mem
    obtain ⟨key, -, rfl, rfl⟩ := place.below placeP parent
    obtain ⟨upper, placeTop, shorter⟩ := ih placeP
    exact ⟨upper, placeTop, shorter.trans (List.prefix_append path' [key])⟩

theorem parent_not_under (placed : Placed frames) (member : f ∈ frames) (parent : f.parent = p.label) :
    ¬p.Under frames f := by
  intro under
  obtain ⟨tree, path, place⟩ := placed.at_place f member
  obtain ⟨tree', path', placeP⟩ := placed.at_place p under.mem
  obtain ⟨key, -, rfl, rfl⟩ := place.below placeP parent
  obtain ⟨upper, place', shorter⟩ := placed.prefix_of_under under placeP
  obtain ⟨-, rfl⟩ := place.unique place'
  have longer := shorter.length_le
  simp at longer

theorem not_uprooted (placed : Placed frames) (value : Json) :
    ¬f.Uprooted frames f.label value := by
  intro uprooted
  obtain ⟨child, member, ⟨parent, -⟩, under⟩ := uprooted
  exact placed.parent_not_under member parent under

end Placed

/-- The editor of a field goes if the new value does not hold the field, or with its parent. -/
theorem uprooted_iff (nodup : (frames.map Frame.label).Nodup) (member : f ∈ frames)
    (memberP : p ∈ frames) (parent : p.label = f.parent) {label : String} {value : Json} :
    f.Uprooted frames label value ↔
      f.LosesField label value ∨ p.Uprooted frames label value := by
  simp only [Frame.Uprooted, under_iff nodup member memberP parent]
  constructor
  · intro given
    obtain ⟨child, memberC, loses, rfl | under⟩ := given
    · exact .inl loses
    · exact .inr ⟨child, memberC, loses, under⟩
  · intro given
    rcases given with loses | ⟨child, memberC, loses, under⟩
    · exact ⟨f, member, loses, .inl rfl⟩
    · exact ⟨child, memberC, loses, .inr under⟩

theorem Placed.root_not_uprooted (placed : Placed frames) (root : ∀ key, f.target ≠ .field key)
    (label : String) (value : Json) : ¬f.Uprooted frames label value := by
  intro uprooted
  obtain ⟨child, -, ⟨-, key, target, -⟩, under⟩ := uprooted
  obtain rfl := placed.eq_of_under root under
  exact root key target

/-! ## The editors that are closed -/

/-- Some editors are closed. The others stay in order, each with a change made to it, and if the
selected tab was one of those that are closed, another one is selected instead. -/
structure Closes (es : Editors) (gone : Frame → Prop) (change : Frame → Frame) (instead : String)
    (next : Editors) : Prop where
  frames : ∃ rest : List Frame, rest.Sublist es.frames ∧ (∀ f ∈ es.frames, f ∈ rest ↔ ¬gone f) ∧
    next.frames = rest.map change
  selected_of_closed : ∀ f ∈ es.frames, gone f → es.selected = some f.label →
    next.selected = some instead
  selected_of_open : (∀ f ∈ es.frames, gone f → es.selected ≠ some f.label) →
    next.selected = es.selected

namespace Closes

variable {gone : Frame → Prop} {change : Frame → Frame} {instead : String}

theorem of_filter {keep : Frame → Bool} {closed : List String}
    (decided : ∀ f ∈ es.frames, keep f = true ↔ ¬gone f)
    (named : ∀ label, label ∈ closed ↔ ∃ f ∈ es.frames, gone f ∧ f.label = label)
    (frames : next.frames = (es.frames.filter keep).map change)
    (selected : next.selected =
      if es.selected.any closed.contains then some instead else es.selected) :
    es.Closes gone change instead next := by
  refine ⟨⟨es.frames.filter keep, List.filter_sublist, fun f member => ?_, frames⟩,
    fun f member goes same => ?_, fun others => ?_⟩
  · rw [List.mem_filter, decided f member]
    exact and_iff_right member
  · rw [selected, same, if_pos]
    exact List.contains_iff_mem.2 ((named f.label).2 ⟨f, member, goes, rfl⟩)
  · rw [selected, if_neg]
    intro closes
    obtain ⟨label, same, inside⟩ := (Option.any_eq_true _ _).1 closes
    obtain ⟨f, member, goes, rfl⟩ := (named label).1 (List.contains_iff_mem.1 inside)
    exact others f member goes same

theorem changed (closes : es.Closes gone id instead next) {last : Editors}
    (frames : last.frames = next.frames.map change) (selected : last.selected = next.selected) :
    es.Closes gone change instead last := by
  obtain ⟨rest, fewer, kept, same⟩ := closes.frames
  rw [List.map_id] at same
  refine ⟨⟨rest, fewer, kept, by rw [frames, same]⟩, ?_, ?_⟩
  · rw [selected]
    exact closes.selected_of_closed
  · rw [selected]
    exact closes.selected_of_open

theorem mem (closes : es.Closes gone change instead next) (member : f ∈ es.frames)
    (stays : ¬gone f) : change f ∈ next.frames := by
  obtain ⟨rest, -, kept, same⟩ := closes.frames
  rw [same]
  exact List.mem_map_of_mem ((kept f member).2 stays)

end Closes

/-! ## Closing -/

theorem Forest.mem_subtree_iff (forest : Forest d es.frames) (opened : top ∈ es.frames)
    {label : String} :
    label ∈ es.subtree top.label ↔ ∃ f ∈ es.frames, f.Under es.frames top ∧ f.label = label := by
  constructor
  · refine subtree_induction (fun label => ∃ f ∈ es.frames, f.Under es.frames top ∧ f.label = label)
      ⟨top, opened, .self opened, rfl⟩ fun f member given => ?_
    obtain ⟨p, -, above, parent⟩ := given
    exact ⟨f, member, .child member parent.symm above, rfl⟩
  · intro given
    obtain ⟨f, -, under, rfl⟩ := given
    induction under with
    | self => exact mem_subtree_self (frame?_isSome_iff.2 ⟨_, opened, rfl⟩)
    | child member parent above ih => exact forest.mem_subtree_of_parent member (parent ▸ ih opened)

theorem Forest.not_mem_subtree_field (forest : Forest d es.frames) (opened : p ∈ es.frames)
    (key : FieldKey) : p.label ∉ es.subtree (p.label ++ key.segment) := by
  intro found
  cases there : es.frame? (p.label ++ key.segment) with
  | none => simp [subtree_eq_nil there] at found
  | some top =>
    obtain ⟨memberTop, label⟩ := frame?_mem there
    rw [← label, forest.mem_subtree_iff memberTop] at found
    obtain ⟨p', memberP, under, same⟩ := found
    obtain rfl := eq_of_label_eq forest.labels_nodup memberP opened same
    have parent := (forest.field_of_label memberTop opened label).2
    exact forest.toPlaced.parent_not_under memberTop parent under

theorem Forest.closes_without (forest : Forest d es.frames) (opened : f ∈ es.frames) :
    es.Closes (fun g => g.Under es.frames f) id f.parent (es.without f.label) := by
  have named (label : String) : label ∈ es.subtree f.label ↔
      ∃ g ∈ es.frames, g.Under es.frames f ∧ g.label = label := forest.mem_subtree_iff opened
  have decided (g : Frame) (member : g ∈ es.frames) :
      (!(es.subtree f.label).contains g.label) = true ↔ ¬g.Under es.frames f := by
    have inside : g.label ∈ es.subtree f.label ↔ g.Under es.frames f := by
      refine (named g.label).trans ⟨fun given => ?_, fun under => ⟨g, member, under, rfl⟩⟩
      obtain ⟨g', memberG', under, same⟩ := given
      exact eq_of_label_eq forest.labels_nodup memberG' member same ▸ under
    simp [inside]
  refine .of_filter decided named ?_ ?_
  · rw [List.map_id, without_frames]
  · rw [Editors.without, close?, frame?_eq_some forest.labels_nodup opened]
    rfl

theorem without_map_selected {change : Frame → Frame} (same : ∀ f : Frame, f.SamePlace (change f))
    (es : Editors) (label : String) :
    (Editors.without { es with frames := es.frames.map change } label).selected =
      (es.without label).selected := by
  have found : Editors.frame? { es with frames := es.frames.map change } label =
      (es.frame? label).map change := by
    simp only [frame?, List.find?_map, Function.comp_def, (same _).label]
  simp only [without, close?, found, subtree_map same]
  cases es.frame? label with
  | none => rfl
  | some f => simp [(same f).parent]

/-- A commit closes what is under the editor, and it changes at most the value of the parent. -/
theorem Forest.closes_commit (forest : Forest d es.frames) (opened : f ∈ es.frames) {value : Json}
    {ctx : Context} {d' : Draft} (committed : es.commit f.label value d ctx = .ok (d', next)) :
    ((∀ key, f.target ≠ .field key) → es.Closes (fun g => g.Under es.frames f) id f.parent next) ∧
    ∀ key, f.target = .field key → d' = d ∧
      es.Closes (fun g => g.Under es.frames f) (changeValue f.parent (key.set value)) f.parent
        next := by
  have closes := forest.closes_without opened
  obtain ⟨g, found, result⟩ := commit_inv committed
  obtain rfl := Option.some.inj ((frame?_eq_some forest.labels_nodup opened).symm.trans found)
  cases result with
  | returnValue target typed applied =>
    exact ⟨fun _ => closes, fun key field => nomatch target.symm.trans field⟩
  | argument target typed applied =>
    exact ⟨fun _ => closes, fun key field => nomatch target.symm.trans field⟩
  | field target parent here composite =>
    refine ⟨fun other => absurd target (other _), fun key field => ⟨rfl, ?_⟩⟩
    cases target.symm.trans field
    refine closes.changed (field_commit_frames forest.labels_nodup f.label f.parent _) ?_
    rw [modifyFirst_value forest.labels_nodup]
    exact without_map_selected (samePlace_changeValue f.parent _) es f.label

/-! ## Setting a value -/

theorem losesField_iff {key : FieldKey} (target : f.target = .field key) (parent : p.label = f.parent)
    (composite : key.isComposite p.value = true) {label : String} {value : Json} :
    f.LosesField label value ↔
      key.isComposite (changeValue label (fun _ => value) p).value = false := by
  rw [Frame.LosesField, changeValue, ← parent]
  split
  next set => simp [target, set]
  next other => simp [other, composite]

/-- The pass over the editors after a value is set keeps those that are not uprooted. -/
theorem Forest.eachAfter_uprooted (forest : Forest d frames) {label : String} {value : Json}
    {keep : Frame → Bool} (decided : ∀ f, keep f = true ↔ ¬f.Uprooted frames label value) :
    EachAfter (fun before f =>
      fieldStands ((before.filter keep).map (changeValue label fun _ => value))
        (changeValue label (fun _ => value) f) = keep f) frames := by
  intro front f back split
  have same := samePlace_changeValue label (fun _ => value)
  have member : f ∈ frames := by simp [split]
  rw [Bool.eq_iff_iff, decided, fieldStands, (same f).target, (same f).parent]
  cases target : f.target with
  | field key =>
    obtain ⟨p, memberP, parent, composite⟩ :=
      (forest.stand front f back split).parent_of_field target
    have inside {q : Frame} (earlier : q ∈ front) : q ∈ frames := by simp [split, earlier]
    have kept := (forest.toPlaced.before split).sublist (List.filter_sublist (p := keep))
    simp only [holdsComposite_iff (labels_nodup_map kept.labels_nodup same)]
    rw [uprooted_iff forest.labels_nodup member (inside memberP) parent,
      losesField_iff target parent composite, not_or, Bool.not_eq_false, ← decided]
    -- both ways it is the parent that is looked at, with the value it has by then
    constructor
    · intro given
      obtain ⟨q, memberQ, labelQ, held⟩ := given
      obtain ⟨p', memberP', rfl⟩ := List.mem_map.1 memberQ
      obtain ⟨earlier, stays⟩ := List.mem_filter.1 memberP'
      obtain rfl : p' = p := eq_of_label_eq forest.labels_nodup (inside earlier) (inside memberP)
        ((same p').label.symm.trans (labelQ.trans parent.symm))
      exact ⟨held, stays⟩
    · intro given
      obtain ⟨held, stays⟩ := given
      exact ⟨_, List.mem_map_of_mem (List.mem_filter.2 ⟨memberP, stays⟩),
        (same p).label.trans parent, held⟩
  | _ =>
    have root : ∀ key, f.target ≠ .field key := by simp [target]
    simpa using forest.toPlaced.root_not_uprooted root label value

theorem setValue_ok (nodup : (es.frames.map Frame.label).Nodup) (opened : f ∈ es.frames)
    (value : Json) {rest : List Frame} {closed : List String}
    (passed : sift fieldStands (es.frames.map (changeValue f.label fun _ => value)) =
      (rest, closed)) :
    es.setValue f.label value = .ok
      ⟨rest, if es.selected.any closed.contains then some f.label else es.selected⟩ := by
  have here : (es.frame? f.label).isSome = true := frame?_isSome_iff.2 ⟨f, opened, rfl⟩
  rw [setValue, if_pos here, modifyFirst_value nodup f.label fun _ => value, passed]

/-- Setting a value closes the editors that lose their field by it and those under them. -/
theorem Forest.closes_setValue (forest : Forest d es.frames) (opened : f ∈ es.frames)
    (value : Json) :
    ∃ next, es.setValue f.label value = .ok next ∧
      es.Closes (Frame.Uprooted es.frames f.label value) (changeValue f.label fun _ => value)
        f.label next := by
  classical
  let keep (g : Frame) : Bool := !decide (g.Uprooted es.frames f.label value)
  have decided (g : Frame) : keep g = true ↔ ¬g.Uprooted es.frames f.label value := by simp [keep]
  have same := samePlace_changeValue f.label fun _ => value
  have passed := sift_map fieldStands (forest.eachAfter_uprooted decided)
  refine ⟨_, setValue_ok forest.labels_nodup opened value passed,
    .of_filter (fun g _ => decided g) (fun label => ?_) rfl rfl⟩
  simp [keep, (same _).label, and_assoc]

/-! ## Tabs -/

inductive HasTab (es : Editors) (d : Draft) : String → Prop where
  | module {m : ModuleName} (enabled : m ∈ d.modules.enabled) : HasTab es d m.name
  | editor {f : Frame} (opened : f ∈ es.frames) : HasTab es d f.label

theorem hasTab_iff {key : String} : es.HasTab d key ↔
    (∃ m ∈ d.modules.enabled, m.name = key) ∨ ∃ f ∈ es.frames, f.label = key := by
  constructor
  · intro tab
    cases tab with
    | @module m enabled => exact .inl ⟨m, enabled, rfl⟩
    | @editor f opened => exact .inr ⟨f, opened, rfl⟩
  · intro given
    rcases given with ⟨m, enabled, rfl⟩ | ⟨f, opened, rfl⟩
    · exact .module enabled
    · exact .editor opened

instance (key : String) : Decidable (es.HasTab d key) := decidable_of_iff _ hasTab_iff.symm

/-- What is selected in the place of a closed editor is there. -/
theorem Forest.hasTab_parent (forest : Forest d es.frames) (opened : f ∈ es.frames) :
    (es.without f.label).HasTab d f.parent := by
  obtain ⟨front, back, split⟩ := List.append_of_mem opened
  rcases forest.parent split with ⟨m, root, enabled⟩ | ⟨p, memberP, parent⟩
  · rw [root]
    exact .module (Modules.mem_enabled.2 enabled)
  · have stays := forest.toPlaced.parent_not_under opened parent.symm
    rw [← parent]
    exact .editor ((forest.closes_without opened).mem (by simp [split, memberP]) stays)

end Editors

end Fixture
