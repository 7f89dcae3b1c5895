import Fixture.Proofs.Editor.Forest

/-!
What each operation on the open editors does to them. Opening, closing, setting and committing all
keep the forest, so that none of them leaves an editor whose target is gone.
-/

namespace Fixture

theorem startingValue?_composite {type : TypeTag} {value : Option Json} {start : Json}
    (starts : startingValue? type value = some start) : type.isComposite = true := by
  cases type <;> first | rfl | simp [startingValue?] at starts

/-- The value that an editor of a composite type starts from: the stored one if it is of that type,
else the one with nothing in it. -/
def TypeTag.start (type : TypeTag) (stored : Option Json) : Json :=
  match stored.filter fun v => ofValue v == type with
  | some v => v
  | none => if type = .array then .arr [] else .obj []

theorem startingValue?_eq_start {type : TypeTag} (composite : type.isComposite = true)
    (stored : Option Json) : startingValue? type stored = some (type.start stored) := by
  cases type with
  | array => rcases stored with _ | v <;> first | rfl | cases v <;> rfl
  | object => rcases stored with _ | v <;> first | rfl | cases v <;> rfl
  | _ => cases composite

namespace Editors

variable {es next : Editors} {d : Draft}

/-! ## Closing -/

theorem subtree_eq_nil {label : String} (closed : es.frame? label = none) :
    es.subtree label = [] := by
  rw [subtree_eq, closed]
  rfl

theorem without_frames (es : Editors) (label : String) :
    (es.without label).frames =
      es.frames.filter fun f => !(es.subtree label).contains f.label := by
  cases found : es.frame? label with
  | none => simp [without, close?, found, subtree_eq_nil found]
  | some f => simp [without, close?, found]

theorem without_eq_self {label : String} (closed : es.frame? label = none) :
    es.without label = es := by
  rw [without, close?, closed]
  rfl

theorem close?_inv {label : String} {f : Frame} (closed : es.close? label = some (f, next)) :
    es.frame? label = some f ∧ next = es.without label := by
  rw [close?, Option.map_eq_some_iff] at closed
  obtain ⟨g, found, same⟩ := closed
  obtain ⟨rfl, rfl⟩ := Prod.mk.inj same
  exact ⟨found, by simp [without, close?, found]⟩

theorem mem_without {label : String} {f : Frame} :
    f ∈ (es.without label).frames ↔ f ∈ es.frames ∧ f.label ∉ es.subtree label := by
  rw [without_frames, List.mem_filter]
  simp

theorem label_ne_of_mem_without {label : String} {f : Frame}
    (member : f ∈ (es.without label).frames) : f.label ≠ label := by
  intro same
  subst same
  obtain ⟨opened, outside⟩ := mem_without.1 member
  exact outside (mem_subtree_self (frame?_isSome_iff.2 ⟨f, opened, rfl⟩))

theorem Placed.without (placed : Placed es.frames) (label : String) :
    Placed (es.without label).frames := by
  rw [without_frames]
  exact placed.sublist List.filter_sublist

theorem Forest.without (forest : Forest d es.frames) (label : String) :
    Forest d (es.without label).frames := by
  rw [without_frames]
  exact forest.filter _ fun f member under => forest.mem_subtree_of_parent member under

/-! ## Opening -/

theorem push_inv {frame : Frame} (pushed : es.push frame d = .ok next) :
    frame.parent ∉ es.subtree frame.label ∧ es.isLive d frame.parent = true ∧
      next = ⟨(es.without frame.label).frames ++ [frame], some frame.label⟩ := by
  rw [push] at pushed
  split at pushed
  · cases pushed
  next accepted =>
    simp only [Bool.or_eq_true, not_or, List.contains_iff_mem, Bool.not_eq_true',
      Bool.not_eq_false] at accepted
    exact ⟨accepted.1, accepted.2, (Except.ok.inj pushed).symm⟩

theorem pushed_inv {frame f : Frame} (opened : es.pushed frame d = .ok (f, next)) :
    f = frame ∧ es.push frame d = .ok next := by
  rw [pushed] at opened
  cases result : es.push frame d with
  | error e =>
    rw [result] at opened
    cases opened
  | ok after =>
    rw [result] at opened
    obtain ⟨rfl, rfl⟩ := Prod.mk.inj (Except.ok.inj opened)
    exact ⟨rfl, rfl⟩

theorem Forest.push (forest : Forest d es.frames) {frame : Frame}
    (pushed : es.push frame d = .ok next) {tree : EditorTree} {path : List FieldKey}
    (place : frame.IsAt tree path) (stands : frame.Stands d es.frames) :
    Forest d next.frames := by
  obtain ⟨outside, -, rfl⟩ := push_inv pushed
  refine (forest.without frame.label).snoc (fun g => label_ne_of_mem_without) place ?_
  refine stands.relocate (.refl frame) fun key _ p member parent composite => ?_
  exact ⟨p, mem_without.2 ⟨member, parent ▸ outside⟩, parent, composite⟩

theorem openReturnValue_inv {f : Frame} (opened : es.openReturnValue d = .ok (f, next)) :
    ∃ r value, d.modules.returnValue = some r ∧ startingValue? r.type r.value = some value ∧
      f = .opened returnValueLabel ModuleName.returnValue.name .returnValue value ∧
      es.push f d = .ok next := by
  rw [openReturnValue] at opened
  split at opened
  · cases opened
  next r found =>
    split at opened
    · cases opened
    next value starts =>
      obtain ⟨rfl, pushed⟩ := pushed_inv opened
      exact ⟨r, value, found, starts, rfl, pushed⟩

theorem openArgument_inv {functionName argument : String} {f : Frame}
    (opened : es.openArgument d functionName argument = .ok (f, next)) :
    ∃ slot value, d.modules.slot? functionName argument = some slot ∧
      startingValue? slot.type slot.value = some value ∧
      f = .opened argumentLabel ModuleName.argumentList.name (.argument functionName argument)
        value ∧
      es.push f d = .ok next := by
  rw [openArgument] at opened
  split at opened
  · cases opened
  · split at opened
    · cases opened
    next slot found =>
      split at opened
      · cases opened
      next value starts =>
        obtain ⟨rfl, pushed⟩ := pushed_inv opened
        exact ⟨slot, value, found, starts, rfl, pushed⟩

theorem openField_inv {parent : String} {key : FieldKey} {f : Frame}
    (opened : es.openField d parent key = .ok (f, next)) :
    ∃ p field, es.frame? parent = some p ∧ key.get? p.value = some field ∧
      field.isComposite = true ∧ f = .opened (parent ++ key.segment) parent (.field key) field ∧
      es.push f d = .ok next := by
  rw [openField] at opened
  split at opened
  · cases opened
  next p found =>
    split at opened
    · cases opened
    next field here =>
      simp only at opened
      split at opened
      next composite =>
        obtain ⟨rfl, pushed⟩ := pushed_inv opened
        exact ⟨p, field, found, here, composite, rfl, pushed⟩
      · cases opened

theorem Forest.openReturnValue (forest : Forest d es.frames) {f : Frame}
    (opened : es.openReturnValue d = .ok (f, next)) : Forest d next.frames := by
  obtain ⟨r, value, found, starts, rfl, pushed⟩ := openReturnValue_inv opened
  exact forest.push pushed (.returnValue rfl rfl rfl) ⟨r, found, startingValue?_composite starts⟩

theorem Forest.openArgument (forest : Forest d es.frames) {functionName argument : String}
    {f : Frame} (opened : es.openArgument d functionName argument = .ok (f, next)) :
    Forest d next.frames := by
  obtain ⟨slot, value, found, starts, rfl, pushed⟩ := openArgument_inv opened
  exact forest.push pushed (.argument rfl rfl rfl) ⟨slot, found, startingValue?_composite starts⟩

theorem Forest.openField (forest : Forest d es.frames) {parent : String} {key : FieldKey}
    {f : Frame} (opened : es.openField d parent key = .ok (f, next)) : Forest d next.frames := by
  obtain ⟨p, field, found, here, composite, rfl, pushed⟩ := openField_inv opened
  obtain ⟨member, rfl⟩ := frame?_mem found
  obtain ⟨tree, path, place⟩ := forest.at_place p member
  refine forest.push pushed (place.opened key field) ⟨p, member, rfl, ?_⟩
  rw [FieldKey.isComposite, here]
  exact composite

/-! ## Changing values -/

def changeValue (label : String) (change : Json → Json) (f : Frame) : Frame :=
  if f.label = label then { f with value := change f.value } else f

theorem samePlace_changeValue (label : String) (change : Json → Json) (f : Frame) :
    f.SamePlace (changeValue label change f) := by
  rw [changeValue]
  split <;> exact ⟨rfl, rfl, rfl⟩

theorem value_changeValue_of_ne {label : String} (change : Json → Json) {f : Frame}
    (other : f.label ≠ label) : changeValue label change f = f := if_neg other

theorem value_changeValue_self (change : Json → Json) (f : Frame) :
    (changeValue f.label change f).value = change f.value := by
  rw [changeValue, if_pos rfl]

theorem modifyFirst_value {frames : List Frame} (nodup : (frames.map Frame.label).Nodup)
    (label : String) (change : Json → Json) :
    modifyFirst label (fun f => { f with value := change f.value }) frames =
      frames.map (changeValue label change) :=
  modifyFirst_eq_map nodup label _

theorem setValue_inv {label : String} {value : Json} (set : es.setValue label value = .ok next) :
    (es.frame? label).isSome = true ∧
      next.frames =
        (sift fieldStands (modifyFirst label (fun f => { f with value }) es.frames)).1 := by
  rw [setValue] at set
  split at set
  next opened =>
    obtain rfl := Except.ok.inj set
    exact ⟨opened, rfl⟩
  · cases set

theorem setValue_frames (nodup : (es.frames.map Frame.label).Nodup) {label : String} {value : Json}
    (set : es.setValue label value = .ok next) :
    next.frames = (sift fieldStands (es.frames.map (changeValue label fun _ => value))).1 := by
  rw [(setValue_inv set).2, modifyFirst_value nodup label fun _ => value]

theorem Forest.setValue (forest : Forest d es.frames) {label : String} {value : Json}
    (set : es.setValue label value = .ok next) : Forest d next.frames := by
  have places := forest.toPlaced.map (samePlace_changeValue label fun _ => value)
  have fewer := sift_sublist fieldStands (es.frames.map (changeValue label fun _ => value))
  rw [setValue_frames forest.labels_nodup set]
  refine ⟨places.sublist fewer, (eachAfter_sift _ _).mono fun front f after split passes => ?_⟩
  have member : f ∈ es.frames.map (changeValue label fun _ => value) :=
    fewer.subset (by simp [split])
  obtain ⟨g, memberG, rfl⟩ := List.mem_map.1 member
  obtain ⟨before, later, place⟩ := List.append_of_mem memberG
  have same := samePlace_changeValue label (fun _ => value) g
  -- the draft did not change, so only fields have to be looked at again
  refine (forest.stand before g later place).relocate same fun key target _ _ _ _ => ?_
  simp only [fieldStands, same.target, same.parent, target] at passes
  exact (holdsComposite_iff ((places.sublist fewer).before split).labels_nodup).1 passes

/-! ## Committing -/

inductive Committed (es : Editors) (label : String) (value : Json) (d : Draft) (ctx : Context)
    (f : Frame) : Draft → Editors → Prop where
  | returnValue {r : ReturnValue} {d' : Draft} (target : f.target = .returnValue)
      (found : d.modules.returnValue = some r)
      (applied : d.apply ctx (.updateReturnValue (.ofTyped r.type (some value))) = .ok d') :
      Committed es label value d ctx f d' (es.without label)
  | argument {functionName argument : String} {slot : Slot} {d' : Draft}
      (target : f.target = .argument functionName argument)
      (found : d.modules.slot? functionName argument = some slot)
      (applied : d.apply ctx (.changeArgument (slot.withValue slot.type (some value))) = .ok d') :
      Committed es label value d ctx f d' (es.without label)
  | field {key : FieldKey} {p : Frame} {old : Json} (target : f.target = .field key)
      (parent : es.frame? f.parent = some p) (found : key.get? p.value = some old)
      (composite : old.isComposite = true) :
      Committed es label value d ctx f d
        (Editors.without
          { es with
            frames := modifyFirst f.parent (fun g => { g with value := key.set value g.value })
              es.frames }
          label)

theorem commit_inv {label : String} {value : Json} {ctx : Context} {d' : Draft}
    (committed : es.commit label value d ctx = .ok (d', next)) :
    ∃ f, es.frame? label = some f ∧ Committed es label value d ctx f d' next := by
  rw [commit] at committed
  cases found : es.frame? label with
  | none => simp only [found] at committed; cases committed
  | some f =>
    refine ⟨f, rfl, ?_⟩
    simp only [found] at committed
    cases target : f.target with
    | returnValue =>
      simp only [target] at committed
      split at committed
      · cases committed
      next r typed =>
        split at committed
        · cases committed
        next applied =>
          obtain ⟨rfl, rfl⟩ := Prod.mk.inj (Except.ok.inj committed)
          exact .returnValue target typed applied
    | argument functionName argument =>
      simp only [target] at committed
      split at committed
      · cases committed
      next slot typed =>
        split at committed
        · cases committed
        next applied =>
          obtain ⟨rfl, rfl⟩ := Prod.mk.inj (Except.ok.inj committed)
          exact .argument target typed applied
    | field key =>
      simp only [target] at committed
      split at committed
      · cases committed
      next p parent =>
        split at committed
        · cases committed
        next old here =>
          split at committed
          next composite =>
            obtain ⟨rfl, rfl⟩ := Prod.mk.inj (Except.ok.inj committed)
            exact .field target parent here composite
          · cases committed

theorem subtree_map {change : Frame → Frame} (same : ∀ f : Frame, f.SamePlace (change f))
    (es : Editors) (label : String) :
    Editors.subtree { es with frames := es.frames.map change } label = es.subtree label := by
  have opened : (Editors.frame? { es with frames := es.frames.map change } label).isSome =
      (es.frame? label).isSome := by
    rw [Bool.eq_iff_iff, frame?_isSome_iff, frame?_isSome_iff]
    simp [(same _).label]
  have child (labels : List String) (f : Frame) : addChild labels (change f) = addChild labels f := by
    simp only [addChild, (same f).parent, (same f).label]
  rw [subtree_eq, subtree_eq, opened, List.foldl_map]
  simp only [child]

theorem without_map_frames {change : Frame → Frame} (same : ∀ f : Frame, f.SamePlace (change f))
    (es : Editors) (label : String) :
    (Editors.without { es with frames := es.frames.map change } label).frames =
      (es.without label).frames.map change := by
  rw [without_frames, without_frames, subtree_map same, List.filter_map]
  congr 1
  refine List.filter_congr fun f _ => ?_
  simp only [Function.comp, (same f).label]

theorem field_commit_frames (nodup : (es.frames.map Frame.label).Nodup) (label parent : String)
    (change : Json → Json) :
    (Editors.without
      { es with
        frames := modifyFirst parent (fun g => { g with value := change g.value }) es.frames }
      label).frames = (es.without label).frames.map (changeValue parent change) := by
  rw [modifyFirst_value nodup]
  exact without_map_frames (samePlace_changeValue parent change) es label

/-- A forest stands on another draft whose payloads are still of the right types. -/
theorem Forest.of_types {frames : List Frame} {d' : Draft} (forest : Forest d frames)
    (returnValue : ∀ r, d.modules.returnValue = some r → r.type.isComposite = true →
      ∃ r', d'.modules.returnValue = some r' ∧ r'.type.isComposite = true)
    (slots : ∀ functionName argument slot, d.modules.slot? functionName argument = some slot →
      slot.type.isComposite = true → ∃ slot', d'.modules.slot? functionName argument = some slot' ∧
        slot'.type.isComposite = true) : Forest d' frames := by
  refine ⟨forest.toPlaced, forest.stand.mono fun front f after _ stands => ?_⟩
  cases target : f.target with
  | returnValue =>
    simp only [Frame.Stands, target] at stands ⊢
    obtain ⟨r, found, composite⟩ := stands
    exact returnValue r found composite
  | argument functionName argument =>
    simp only [Frame.Stands, target] at stands ⊢
    obtain ⟨slot, found, composite⟩ := stands
    exact slots functionName argument slot found composite
  | field key => simpa only [Frame.Stands, target] using stands

/-- Writing a field leaves the editors of all other fields of the same value standing. -/
theorem Forest.changeField {frames : List Frame} (forest : Forest d frames) {f : Frame}
    {tree : EditorTree} {path : List FieldKey} (place : f.IsAt tree path) {key : FieldKey}
    (target : f.target = .field key) (absent : ∀ g ∈ frames, g.label ≠ f.label) (value : Json) :
    Forest d (frames.map (changeValue f.parent (key.set value))) := by
  refine ⟨forest.toPlaced.map (samePlace_changeValue _ _), forest.stand.map _ ?_⟩
  intro front g after split stands
  have same := samePlace_changeValue f.parent (key.set value) g
  refine stands.relocate same fun key' edits p member parent composite => ?_
  refine ⟨changeValue f.parent (key.set value) p, List.mem_map_of_mem member,
    (samePlace_changeValue _ _ p).label.trans parent, ?_⟩
  by_cases written : p.label = f.parent
  · -- with the same key the labels would be the same
    have other : key ≠ key' := by
      intro same
      subst same
      have memberG : g ∈ frames := by simp [split]
      obtain ⟨tree', path', placeG⟩ := forest.at_place g memberG
      refine absent g memberG ?_
      calc g.label
          = g.parent ++ key.segment := placeG.label_of_field edits
        _ = f.parent ++ key.segment := by rw [← parent, written]
        _ = f.label := (place.label_of_field target).symm
    rw [FieldKey.isComposite, ← written, value_changeValue_self, FieldKey.get?_set_of_ne other]
    exact composite
  · rw [value_changeValue_of_ne _ written]
    exact composite

theorem Forest.commit (forest : Forest d es.frames) {label : String} {value : Json} {ctx : Context}
    {d' : Draft} (committed : es.commit label value d ctx = .ok (d', next)) :
    Forest d' next.frames := by
  obtain ⟨f, found, result⟩ := commit_inv committed
  obtain ⟨member, rfl⟩ := frame?_mem found
  cases result with
  | returnValue target typed applied =>
    obtain rfl := Draft.updateReturnValue_inv applied
    refine (forest.without f.label).of_types (fun r' listed composite => ?_)
      fun functionName argument slot listed composite => ⟨slot, listed, composite⟩
    obtain rfl := Option.some.inj (typed.symm.trans listed)
    exact ⟨_, rfl, composite⟩
  | @argument _ _ slot _ target typed applied =>
    have changed : d.changeArgument (slot.withValue slot.type (some value)) = .ok d' := applied
    refine (forest.without f.label).of_types (fun r listed composite => ?_)
      fun functionName' argument' slot' listed composite => ?_
    · obtain ⟨slots, out, -, -, rfl⟩ := Draft.changeArgument_inv changed
      exact ⟨r, listed, composite⟩
    · rw [Draft.slot?_changeArgument changed]
      split
      next same =>
        have key := Modules.slot?_key typed
        rw [Slot.key_withValue, key] at same
        obtain ⟨rfl, rfl⟩ := Prod.mk.inj same
        obtain rfl := Option.some.inj (typed.symm.trans listed)
        exact ⟨_, rfl, composite⟩
      · exact ⟨slot', listed, composite⟩
  | field target parent here composite =>
    obtain ⟨tree, path, place⟩ := forest.at_place f member
    rw [field_commit_frames forest.labels_nodup f.label f.parent]
    exact (forest.without f.label).changeField place target
      (fun g => label_ne_of_mem_without) value

end Editors

end Fixture
