import Fixture.Proofs.Editor.Last

/-!
The two trees of editors side by side. An operation on editors of one tree does to that tree what it
does where the other tree and the other payloads are not there, and it leaves the other tree alone.
-/

namespace Fixture

def Modules.only (tree : EditorTree) (ms : Modules) : Modules :=
  match tree with
  | .returnValue => { ms with argumentList := none }
  | .argument => { ms with returnValue := none }

def Draft.only (tree : EditorTree) (d : Draft) : Draft :=
  { d with modules := d.modules.only tree }

/-- The editors of one tree, whatever is selected. -/
def Editors.only (tree : EditorTree) (es : Editors) : Editors :=
  { frames := es.frames.filter fun f => f.inTree tree }

@[simp] theorem Modules.only_only (tree : EditorTree) (ms : Modules) :
    (ms.only tree).only tree = ms.only tree := by
  cases tree <;> rfl

@[simp] theorem Draft.only_only (tree : EditorTree) (d : Draft) :
    (d.only tree).only tree = d.only tree := by
  rw [only, only, Modules.only_only]

theorem Draft.eq_of_only {start left right d : Draft}
    (returnValue : d.only .returnValue = left.only .returnValue)
    (argument : d.only .argument = right.only .argument)
    (others : right.only .returnValue = start.only .returnValue) :
    d = { start with modules := { start.modules with
      returnValue := left.modules.returnValue
      argumentList := right.modules.argumentList } } := by
  obtain ⟨_, _, _, _, _, _, _, _⟩ := d
  obtain ⟨_, _, _, _, _, _, _, _⟩ := left
  obtain ⟨_, _, _, _, _, _, _, _⟩ := right
  obtain ⟨_, _, _, _, _, _, _, _⟩ := start
  simp_all [Draft.only, Modules.only]

theorem Frame.IsAt.holds_parent {f : Frame} {tree other : EditorTree} {path : List FieldKey}
    (place : f.IsAt tree path) (held : other.holds f.parent = true) : tree = other := by
  cases place with
  | returnValue target label parent =>
    rw [parent, EditorTree.holds_name] at held
    cases held
  | argument target label parent =>
    rw [parent, EditorTree.holds_name] at held
    cases held
  | field target label parent =>
    rw [parent] at held
    exact EditorTree.holds_labelAt.1 held

theorem Frame.IsAt.holds_parent_of_field {f : Frame} {tree : EditorTree} {path : List FieldKey}
    {key : FieldKey} (place : f.IsAt tree path) (target : f.target = .field key) :
    tree.holds f.parent = true := by
  obtain ⟨above, -, parent⟩ := place.of_field target
  rw [parent]
  exact EditorTree.holds_labelAt.2 rfl

namespace Editors

variable {es next : Editors} {d : Draft} {frames : List Frame} {tree other : EditorTree}

@[simp] theorem only_only (tree : EditorTree) (es : Editors) :
    (es.only tree).only tree = es.only tree := by
  simp [only, List.filter_filter]

theorem only_congr {es' : Editors}
    (same : (es.frames.filter fun f => f.inTree tree) = es'.frames.filter fun f => f.inTree tree) :
    es.only tree = es'.only tree :=
  congrArg (Editors.mk · none) same

/-! ## Looking editors up -/

theorem Placed.inTree_of_parent (placed : Placed frames) {f : Frame} (member : f ∈ frames)
    (held : tree.holds f.parent = true) : f.inTree tree = true := by
  obtain ⟨tree', path, place⟩ := placed.at_place f member
  exact (place.inTree_iff tree).2 (place.holds_parent held)

theorem find?_filter_inTree (frames : List Frame) {label : String}
    (held : tree.holds label = true) :
    (frames.filter fun f => f.inTree tree).find? (fun f => f.label == label) =
      frames.find? fun f => f.label == label := by
  rw [List.find?_filter]
  congr 1
  funext f
  by_cases same : f.label = label
  · have inside : f.inTree tree = true := by
      rw [← same] at held
      exact held
    simp [inside, same]
  · simp [same]

theorem frame?_only (es : Editors) {label : String} (held : tree.holds label = true) :
    (es.only tree).frame? label = es.frame? label := find?_filter_inTree es.frames held

theorem frame?_isAt (placed : Placed es.frames) {label : String} (held : tree.holds label = true)
    {f : Frame} (found : es.frame? label = some f) : ∃ path, f.IsAt tree path := by
  obtain ⟨member, rfl⟩ := frame?_mem found
  obtain ⟨tree', path, place⟩ := placed.at_place f member
  obtain rfl := (place.inTree_iff tree).1 held
  exact ⟨path, place⟩

/-! ## Closing -/

/-- The editors of the other tree are not met in the search for those under one. -/
theorem foldl_addChild_filter
    (placed : ∀ f ∈ frames, tree.holds f.parent = true → f.inTree tree = true)
    {labels : List String} (held : ∀ l ∈ labels, tree.holds l = true) :
    (frames.filter fun f => f.inTree tree).foldl addChild labels = frames.foldl addChild labels := by
  induction frames generalizing labels with
  | nil => rfl
  | cons f frames ih =>
    obtain ⟨here, later⟩ := List.forall_mem_cons.1 placed
    by_cases inside : f.inTree tree = true
    · rw [List.filter_cons, if_pos inside, List.foldl_cons, List.foldl_cons]
      refine ih later fun l member => ?_
      rw [addChild] at member
      split at member
      · rcases List.mem_append.1 member with old | new
        · exact held l old
        · rw [List.mem_singleton.1 new]
          exact inside
      · exact held l member
    · have apart : f.parent ∉ labels := fun under => inside (here (held f.parent under))
      rw [List.filter_cons, if_neg inside, List.foldl_cons, addChild_of_not_mem apart]
      exact ih later held

theorem subtree_only (placed : Placed es.frames) {label : String} (held : tree.holds label = true) :
    (es.only tree).subtree label = es.subtree label := by
  rw [subtree_eq, subtree_eq, frame?_only es held]
  split
  · refine foldl_addChild_filter (fun f => placed.inTree_of_parent) fun l member => ?_
    rw [List.mem_singleton.1 member]
    exact held
  · rfl

theorem holds_of_mem_subtree (placed : Placed es.frames) {label l : String}
    (held : tree.holds label = true) (under : l ∈ es.subtree label) : tree.holds l = true :=
  subtree_induction (fun l => tree.holds l = true) held (fun _ => placed.inTree_of_parent) under

theorem without_only (placed : Placed es.frames) {label : String} (held : tree.holds label = true) :
    ((es.only tree).without label).only tree = (es.without label).only tree := by
  refine only_congr ?_
  rw [without_frames, without_frames, subtree_only placed held]
  simp only [only, List.filter_filter]
  refine List.filter_congr fun f _ => ?_
  cases f.inTree tree <;> simp

theorem without_other (placed : Placed es.frames) {label : String} (held : tree.holds label = true)
    (apart : tree ≠ other) : (es.without label).only other = es.only other := by
  refine only_congr ?_
  rw [without_frames, List.filter_filter]
  refine List.filter_congr fun f member => ?_
  cases inside : f.inTree other with
  | false => rfl
  | true =>
    have outside : f.label ∉ es.subtree label := fun under =>
      apart (EditorTree.holds_unique (holds_of_mem_subtree placed held under) inside)
    simp [outside]

/-! ## Opening -/

theorem isLive_only (es : Editors) (d : Draft) {f : Frame} {path : List FieldKey}
    (place : f.IsAt tree path) :
    (es.only tree).isLive (d.only tree) f.parent = es.isLive d f.parent := by
  cases place with
  | returnValue target label parent =>
    simp only [isLive, parent, ModuleName.parse?_name]
    rfl
  | argument target label parent =>
    simp only [isLive, parent, ModuleName.parse?_name]
    rfl
  | field target label parent =>
    simp only [isLive, parent, EditorTree.parse?_labelAt]
    rw [frame?_only es (EditorTree.holds_labelAt.2 rfl)]

theorem pushed_only (placed : Placed es.frames) {f : Frame} {path : List FieldKey}
    (place : f.IsAt tree path) :
    ((es.only tree).pushed f (d.only tree)).map (Prod.map id (only tree)) =
      (es.pushed f d).map (Prod.map id (only tree)) := by
  have held : tree.holds f.label = true := (place.inTree_iff tree).2 rfl
  simp only [pushed, push, subtree_only placed held, isLive_only es d place]
  split
  · rfl
  · have frames := congrArg Editors.frames (without_only placed held)
    simp only [only] at frames
    refine congrArg (fun es => Except.ok (f, es)) (only_congr ?_)
    simp only [only, List.filter_append, frames]

theorem push_other (placed : Placed es.frames) {f : Frame} {path : List FieldKey}
    (place : f.IsAt tree path) (apart : tree ≠ other) (pushed : es.push f d = .ok next) :
    next.only other = es.only other := by
  obtain ⟨-, -, rfl⟩ := push_inv pushed
  have held : tree.holds f.label = true := (place.inTree_iff tree).2 rfl
  have outside : ¬f.inTree other = true := fun inside => apart ((place.inTree_iff other).1 inside)
  rw [← without_other placed held apart]
  simp [only, List.filter_append, outside]

theorem openReturnValue_only (placed : Placed es.frames) :
    ((es.only .returnValue).openReturnValue (d.only .returnValue)).map
        (Prod.map id (only .returnValue)) =
      (es.openReturnValue d).map (Prod.map id (only .returnValue)) := by
  have same : (d.only .returnValue).modules.returnValue = d.modules.returnValue := rfl
  rw [openReturnValue, openReturnValue, same]
  cases d.modules.returnValue with
  | none => rfl
  | some r =>
    simp only
    cases startingValue? r.type r.value with
    | none => rfl
    | some value => exact pushed_only placed (.returnValue rfl rfl rfl)

theorem openArgument_only (placed : Placed es.frames) (functionName argument : String) :
    ((es.only .argument).openArgument (d.only .argument) functionName argument).map
        (Prod.map id (only .argument)) =
      (es.openArgument d functionName argument).map (Prod.map id (only .argument)) := by
  have same : (d.only .argument).modules.slot? functionName argument =
      d.modules.slot? functionName argument := rfl
  have enabled : (d.only .argument).modules.contains .argumentList =
      d.modules.contains .argumentList := rfl
  rw [openArgument, openArgument, same, enabled]
  cases d.modules.contains .argumentList with
  | false => rfl
  | true =>
    simp only [Bool.not_true, Bool.false_eq_true, if_false]
    cases d.modules.slot? functionName argument with
    | none => rfl
    | some slot =>
      simp only
      cases startingValue? slot.type slot.value with
      | none => rfl
      | some value => exact pushed_only placed (.argument rfl rfl rfl)

theorem openField_only (placed : Placed es.frames) {parent : String}
    (held : tree.holds parent = true) (key : FieldKey) :
    ((es.only tree).openField (d.only tree) parent key).map (Prod.map id (only tree)) =
      (es.openField d parent key).map (Prod.map id (only tree)) := by
  rw [openField, openField, frame?_only es held]
  cases found : es.frame? parent with
  | none => rfl
  | some p =>
    obtain ⟨path, place⟩ := frame?_isAt placed held found
    obtain ⟨-, rfl⟩ := frame?_mem found
    simp only
    cases key.get? p.value with
    | none => rfl
    | some field =>
      simp only
      cases field.isComposite with
      | false => rfl
      | true => exact pushed_only placed (place.opened key field)

/-! ## Changing values -/

theorem filter_map_changeValue (frames : List Frame) (label : String) (change : Json → Json) :
    ((frames.map (changeValue label change)).filter fun f => f.inTree tree) =
      (frames.filter fun f => f.inTree tree).map (changeValue label change) := by
  rw [List.filter_map]
  congr 1
  refine List.filter_congr fun f _ => ?_
  exact congrArg tree.holds (samePlace_changeValue label change f).label

theorem map_changeValue_other (frames : List Frame) {label : String}
    (held : tree.holds label = true) (apart : tree ≠ other) (change : Json → Json) :
    ((frames.map (changeValue label change)).filter fun f => f.inTree other) =
      frames.filter fun f => f.inTree other := by
  rw [filter_map_changeValue]
  conv_rhs => rw [← List.map_id (frames.filter fun f => f.inTree other)]
  refine List.map_congr_left fun f member => value_changeValue_of_ne change ?_
  rintro rfl
  exact apart (EditorTree.holds_unique held (List.mem_filter.1 member).2)

theorem sift_filter {stands : List Frame → Frame → Bool} {keep : Frame → Bool}
    (own : ∀ kept, ∀ f ∈ frames, keep f = true → stands kept f = stands (kept.filter keep) f) :
    (sift stands frames).1.filter keep = (sift stands (frames.filter keep)).1 := by
  induction frames using List.reverseRecOn with
  | nil => rfl
  | append_singleton frames f ih =>
    have inner := ih fun kept g member => own kept g (List.mem_append_left [f] member)
    cases keeps : keep f with
    | false =>
      have without_last : (frames ++ [f]).filter keep = frames.filter keep := by simp [keeps]
      rw [without_last, ← inner, sift_snoc]
      split <;> simp [keeps]
    | true =>
      have with_last : (frames ++ [f]).filter keep = frames.filter keep ++ [f] := by simp [keeps]
      have decided : stands (sift stands frames).1 f =
          stands (sift stands (frames.filter keep)).1 f := by
        rw [own _ f (by simp) keeps, inner]
      rw [with_last, sift_snoc, sift_snoc, decided]
      split <;> simp [keeps, inner]

theorem Placed.holds_parent_of_field (placed : Placed frames) {f : Frame} (member : f ∈ frames)
    {key : FieldKey} (target : f.target = .field key) (inside : f.inTree tree = true) :
    tree.holds f.parent = true := by
  obtain ⟨tree', path, place⟩ := placed.at_place f member
  obtain rfl := (place.inTree_iff tree).1 inside
  exact place.holds_parent_of_field target

theorem sift_fieldStands_only (placed : Placed frames) :
    ((sift fieldStands frames).1.filter fun f => f.inTree tree) =
      (sift fieldStands (frames.filter fun f => f.inTree tree)).1 := by
  refine sift_filter fun kept f member inside => ?_
  simp only [fieldStands]
  cases target : f.target with
  | field key =>
    have held := placed.holds_parent_of_field member target inside
    simp only [holdsComposite, find?_filter_inTree kept held]
  | _ => rfl

theorem Placed.only (placed : Placed es.frames) (tree : EditorTree) :
    Placed (es.only tree).frames := placed.sublist List.filter_sublist

theorem filter_only_frames (es : Editors) (tree : EditorTree) :
    ((es.only tree).frames.filter fun f => f.inTree tree) = (es.only tree).frames :=
  congrArg Editors.frames (es.only_only tree)

theorem setValue_only (placed : Placed es.frames) {label : String} (held : tree.holds label = true)
    (value : Json) :
    ((es.only tree).setValue label value).map (only tree) =
      (es.setValue label value).map (only tree) := by
  let change := changeValue label fun _ => value
  have places := placed.map (samePlace_changeValue label fun _ => value)
  have placesOnly := (placed.only tree).map (samePlace_changeValue label fun _ => value)
  have kept : ((sift fieldStands ((es.only tree).frames.map change)).1.filter
      fun f => f.inTree tree) =
        (sift fieldStands (es.frames.map change)).1.filter fun f => f.inTree tree := by
    rw [sift_fieldStands_only placesOnly, sift_fieldStands_only places, filter_map_changeValue,
      filter_map_changeValue, filter_only_frames]
    rfl
  rw [setValue, setValue, frame?_only es held,
    modifyFirst_value placed.labels_nodup label fun _ => value,
    modifyFirst_value (placed.only tree).labels_nodup label fun _ => value]
  split
  · exact congrArg Except.ok (only_congr kept)
  · rfl

/-! ## What one tree leaves alone -/

/-- What the editors of a tree edit is in that tree, or it is the payload of the tree. -/
theorem Forest.only (forest : Forest d es.frames) (tree : EditorTree) :
    Forest (d.only tree) (es.only tree).frames := by
  refine ⟨forest.toPlaced.only tree, ?_⟩
  refine forest.stand.filter _ fun front f after split inside stands => ?_
  have member : f ∈ es.frames := by simp [split]
  obtain ⟨tree', path, place⟩ := forest.at_place f member
  obtain rfl := (place.inTree_iff tree).1 inside
  cases place with
  | returnValue target =>
    simp only [Frame.Stands, target] at stands ⊢
    exact stands
  | argument target =>
    simp only [Frame.Stands, target] at stands ⊢
    exact stands
  | field target label parent =>
    simp only [Frame.Stands, target] at stands ⊢
    obtain ⟨p, memberP, labelP, composite⟩ := stands
    refine ⟨p, List.mem_filter.2 ⟨memberP, ?_⟩, labelP, composite⟩
    have held := forest.toPlaced.holds_parent_of_field member target inside
    rw [← labelP] at held
    exact held

theorem setValue_other (forest : Forest d es.frames) {label : String}
    (held : tree.holds label = true) (apart : tree ≠ other) {value : Json}
    (set : es.setValue label value = .ok next) : next.only other = es.only other := by
  have places := forest.toPlaced.map (samePlace_changeValue label fun _ => value)
  refine only_congr ?_
  rw [(setValue_inv set).2, modifyFirst_value forest.labels_nodup label fun _ => value,
    sift_fieldStands_only places, map_changeValue_other es.frames held apart]
  exact congrArg Prod.fst (sift_eq_self _ (forest.only other).eachAfter_fieldStands)

/-! ## Committing -/

theorem updateReturnValue_only (d : Draft) (r : ReturnValue) :
    (d.only .returnValue).updateReturnValue r =
      (d.updateReturnValue r).map (Draft.only .returnValue) := by
  have enabled : (d.only .returnValue).modules.contains .returnValue =
      d.modules.contains .returnValue := rfl
  rw [Draft.updateReturnValue, Draft.updateReturnValue, enabled]
  split <;> rfl

theorem changeArgument_only (d : Draft) (slot : Slot) :
    (d.only .argument).changeArgument slot =
      (d.changeArgument slot).map (Draft.only .argument) := by
  have same : (d.only .argument).modules.argumentList = d.modules.argumentList := rfl
  rw [Draft.changeArgument, Draft.changeArgument, same]
  cases d.modules.argumentList with
  | none => rfl
  | some slots =>
    simp only
    cases replaceSlot? slot.normalized slots <;> rfl

theorem changed_only (placed : Placed es.frames) (label : String) (change : Json → Json) :
    { es.only tree with
      frames := modifyFirst label (fun f => { f with value := change f.value })
        (es.only tree).frames } =
      Editors.only tree
        { es with
          frames := modifyFirst label (fun f => { f with value := change f.value })
            es.frames } := by
  rw [modifyFirst_value placed.labels_nodup, modifyFirst_value (placed.only tree).labels_nodup]
  exact congrArg (Editors.mk · none) (filter_map_changeValue es.frames label change).symm

theorem commit_only (placed : Placed es.frames) {label : String} (held : tree.holds label = true)
    (value : Json) (ctx : Context) :
    ((es.only tree).commit label value (d.only tree) ctx).map
        (Prod.map (Draft.only tree) (only tree)) =
      (es.commit label value d ctx).map (Prod.map (Draft.only tree) (only tree)) := by
  rw [commit, commit, frame?_only es held]
  cases found : es.frame? label with
  | none => rfl
  | some f =>
    obtain ⟨path, place⟩ := frame?_isAt placed held found
    have closed := without_only placed held
    cases target : f.target with
    | returnValue =>
      obtain ⟨rfl, -⟩ := place.of_returnValue target
      have same : (d.only .returnValue).modules.returnValue = d.modules.returnValue := rfl
      simp only [target, same, Draft.apply, updateReturnValue_only]
      cases d.modules.returnValue with
      | none => rfl
      | some r =>
        simp only
        cases d.updateReturnValue (.ofTyped r.type (some value)) with
        | error e => rfl
        | ok next => exact congrArg Except.ok (Prod.ext (Draft.only_only _ next) closed)
    | argument functionName argument =>
      obtain ⟨rfl, -⟩ := place.of_argument target
      have same (functionName argument : String) :
          (d.only .argument).modules.slot? functionName argument =
            d.modules.slot? functionName argument := rfl
      simp only [target, same, Draft.apply, changeArgument_only]
      split
      · rfl
      next slot listed =>
        cases d.changeArgument (slot.withValue slot.type (some value)) with
        | error e => rfl
        | ok next => exact congrArg Except.ok (Prod.ext (Draft.only_only _ next) closed)
    | field key =>
      have heldParent := place.holds_parent_of_field target
      simp only [target, frame?_only es heldParent]
      cases es.frame? f.parent with
      | none => rfl
      | some p =>
        simp only
        cases key.get? p.value with
        | none => rfl
        | some old =>
          simp only
          cases old.isComposite with
          | false => rfl
          | true =>
            have places : Placed (modifyFirst f.parent
                (fun g => { g with value := key.set value g.value }) es.frames) := by
              rw [modifyFirst_value placed.labels_nodup f.parent (key.set value)]
              exact placed.map (samePlace_changeValue f.parent (key.set value))
            simp only [if_true, changed_only placed f.parent (key.set value)]
            exact congrArg Except.ok (Prod.ext (Draft.only_only _ d) (without_only places held))

theorem commit_other (placed : Placed es.frames) {label : String} (held : tree.holds label = true)
    (apart : tree ≠ other) {value : Json} {ctx : Context} {d' : Draft}
    (committed : es.commit label value d ctx = .ok (d', next)) :
    d'.only other = d.only other ∧ next.only other = es.only other := by
  obtain ⟨f, found, result⟩ := commit_inv committed
  obtain ⟨path, place⟩ := frame?_isAt placed held found
  have closed := without_other placed held apart
  cases result with
  | returnValue target typed applied =>
    obtain ⟨rfl, -⟩ := place.of_returnValue target
    obtain rfl := Draft.updateReturnValue_inv applied
    cases other with
    | returnValue => exact absurd rfl apart
    | argument => exact ⟨rfl, closed⟩
  | argument target typed applied =>
    obtain ⟨rfl, -⟩ := place.of_argument target
    obtain ⟨slots, out, -, -, rfl⟩ := Draft.changeArgument_inv applied
    cases other with
    | returnValue => exact ⟨rfl, closed⟩
    | argument => exact absurd rfl apart
  | field target =>
    have heldParent := place.holds_parent_of_field target
    refine ⟨rfl, only_congr ?_⟩
    rw [field_commit_frames placed.labels_nodup, map_changeValue_other _ heldParent apart]
    exact congrArg Editors.frames closed

theorem close?_only (placed : Placed es.frames) {label : String} (held : tree.holds label = true) :
    ((es.only tree).close? label).map (Prod.map id (only tree)) =
      (es.close? label).map (Prod.map id (only tree)) := by
  have closed := without_only placed held
  simp only [without, close?, frame?_only es held] at closed ⊢
  cases found : es.frame? label with
  | none => rfl
  | some f =>
    simp only [found] at closed
    exact congrArg (fun es => some (f, es)) closed

end Editors

end Fixture
