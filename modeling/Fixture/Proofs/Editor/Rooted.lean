import Fixture.Editor.Operation
import Fixture.Proofs.Editor.Change

/-!
The open editors whatever is pushed. A pushed editor can have any target next to any parent. Closing
and reconciling go by parents, but setting a value goes by targets and looks only at the editors of
fields. So editors of fields always come after an open parent, while any other editor that was
pushed under an editor can lose its parent, and only by a value being set.
-/

namespace Fixture

def Target.IsField (target : Target) : Prop := ∃ key, target = .field key

def Frame.HasParent (before : List Frame) (f : Frame) : Prop :=
  (∃ m : ModuleName, f.parent = m.name) ∨ ∃ p ∈ before, p.label = f.parent

theorem Frame.HasParent.relocate {before before' : List Frame} {f g : Frame}
    (has : f.HasParent before) (same : g.parent = f.parent)
    (kept : ∀ p ∈ before, p.label = f.parent → ∃ p' ∈ before', p'.label = f.parent) :
    g.HasParent before' := by
  rw [HasParent, same]
  rcases has with module | ⟨p, member, parent⟩
  · exact .inl module
  · exact .inr (kept p member parent)

def Frame.IsSupported (f : Frame) : Prop := f.target.IsField ∨ ∃ m : ModuleName, f.parent = m.name

theorem Frame.IsSupported.of_samePlace {f g : Frame} (supported : f.IsSupported)
    (same : f.SamePlace g) : g.IsSupported := by
  rwa [IsSupported, same.target, same.parent]

namespace Editors

variable {of : Target → Prop} {es next : Editors} {d : Draft}

/-- Editors with distinct labels, where each whose target is of a kind comes after its parent. -/
structure Rooted (of : Target → Prop) (frames : List Frame) : Prop where
  labels_nodup : (frames.map Frame.label).Nodup
  parent : EachAfter (fun before f => of f.target → f.HasParent before) frames

abbrev AllRooted (frames : List Frame) : Prop := Rooted (fun _ => True) frames

theorem eq_filter_of_sublist {some all : List Frame} (fewer : some.Sublist all)
    (nodup : (all.map Frame.label).Nodup) :
    some = all.filter fun f => (some.map Frame.label).contains f.label := by
  induction fewer with
  | slnil => rfl
  | @cons some all f fewer ih =>
    rw [List.map_cons, List.nodup_cons] at nodup
    have other : f.label ∉ some.map Frame.label := fun member =>
      nodup.1 ((fewer.map Frame.label).subset member)
    rw [List.filter_cons_of_neg (by simpa using other)]
    exact ih nodup.2
  | @cons_cons some all f fewer ih =>
    rw [List.map_cons, List.nodup_cons] at nodup
    rw [List.filter_cons_of_pos (by simp)]
    congr 1
    conv_lhs => rw [ih nodup.2]
    refine List.filter_congr fun g member => ?_
    have other : g.label ≠ f.label := fun same => nodup.1 (same ▸ List.mem_map_of_mem member)
    simp [other]

namespace Rooted

variable {frames : List Frame}

theorem nil : Rooted of [] := ⟨List.nodup_nil, EachAfter.nil⟩

theorem weaken {of' : Target → Prop} (rooted : Rooted of frames)
    (fewer : ∀ f ∈ frames, of' f.target → of f.target ∨ ∃ m : ModuleName, f.parent = m.name) :
    Rooted of' frames := by
  refine ⟨rooted.labels_nodup, rooted.parent.mono fun before f after split parent ofKind => ?_⟩
  rcases fewer f (by simp [split]) ofKind with known | module
  · exact parent known
  · exact .inl module

theorem snoc {f : Frame} (rooted : Rooted of frames) (fresh : ∀ g ∈ frames, g.label ≠ f.label)
    (parent : f.HasParent frames) : Rooted of (frames ++ [f]) :=
  ⟨labels_nodup_snoc rooted.labels_nodup fresh,
    EachAfter.snoc_iff.2 ⟨rooted.parent, fun _ => parent⟩⟩

theorem map (rooted : Rooted of frames) {change : Frame → Frame}
    (same : ∀ f : Frame, f.SamePlace (change f)) : Rooted of (frames.map change) := by
  refine ⟨labels_nodup_map rooted.labels_nodup same, rooted.parent.map change ?_⟩
  intro before f after split parent ofKind
  refine (parent ((same f).target ▸ ofKind)).relocate (same f).parent fun p member parent => ?_
  exact ⟨change p, List.mem_map_of_mem member, (same p).label.trans parent⟩

theorem without (rooted : Rooted of es.frames) (label : String) :
    Rooted of (es.without label).frames := by
  rw [without_frames]
  refine ⟨rooted.labels_nodup.sublist (List.filter_sublist.map Frame.label),
    rooted.parent.filter _ fun before f after split stays parent ofKind => ?_⟩
  have opened : f.label ∉ es.subtree label := by simpa using stays
  refine (parent ofKind).relocate rfl fun p member parent => ?_
  have distinct : ∀ g ∈ after, g.label ≠ f.parent := by
    intro g later same
    have nodup := rooted.labels_nodup
    rw [split, List.map_append, List.map_cons, List.nodup_append] at nodup
    refine nodup.2.2 p.label (List.mem_map_of_mem member) g.label ?_ (parent.trans same.symm)
    exact List.mem_cons_of_mem _ (List.mem_map_of_mem later)
  have parentOpened : p.label ∉ es.subtree label := fun gone =>
    opened (mem_subtree_of_split split distinct (parent ▸ gone))
  exact ⟨p, List.mem_filter.2 ⟨member, by simpa using parentOpened⟩, parent⟩

/-- Whatever is pushed is put under a module or an editor that stays. -/
theorem push (rooted : Rooted of es.frames) {frame : Frame} (pushed : es.push frame d = .ok next) :
    Rooted of next.frames := by
  obtain ⟨outside, live, rfl⟩ := push_inv pushed
  refine (rooted.without frame.label).snoc (fun g => label_ne_of_mem_without) ?_
  rw [isLive] at live
  split at live
  next m named => exact .inl ⟨m, ModuleName.eq_name_of_parse? named⟩
  next =>
    obtain ⟨p, member, parent⟩ := frame?_isSome_iff.1 live
    exact .inr ⟨p, mem_without.2 ⟨member, parent ▸ outside⟩, parent⟩

theorem commit (rooted : Rooted of es.frames) {label : String} {value : Json} {ctx : Context}
    {d' : Draft} (committed : es.commit label value d ctx = .ok (d', next)) :
    Rooted of next.frames := by
  obtain ⟨f, -, result⟩ := commit_inv committed
  cases result with
  | returnValue => exact rooted.without label
  | argument => exact rooted.without label
  | field target parent here composite =>
    rw [field_commit_frames rooted.labels_nodup label f.parent]
    exact (rooted.without label).map (samePlace_changeValue _ _)

theorem reconcile {of' : Target → Prop} (rooted : Rooted of es.frames) (d : Draft) :
    Rooted of' (es.reconcile d).1.frames := by
  refine ⟨rooted.labels_nodup.sublist ((reconcile_sublist es d).map Frame.label), ?_⟩
  rw [reconcile_frames]
  refine (eachAfter_sift _ _).mono fun before f after _ passes _ => ?_
  obtain ⟨-, parent⟩ := Bool.and_eq_true_iff.1 passes
  rw [parentStands] at parent
  split at parent
  next m named => exact .inl ⟨m, ModuleName.eq_name_of_parse? named⟩
  next =>
    obtain ⟨p, member, same⟩ := List.any_eq_true.1 parent
    exact .inr ⟨p, member, by simpa using same⟩

/-- Setting a value is the only operation that does not go by parents. -/
theorem step (rooted : Rooted of es.frames) {op : EditorOperation}
    (stepped : es.step? op = some next)
    (other : ∀ label value, op ≠ .setValue label value) : Rooted of next.frames := by
  cases op with
  | push frame d => exact rooted.push (ok_of_toOption stepped)
  | openReturnValue d =>
    obtain ⟨⟨f, _⟩, opened, rfl⟩ := Option.map_eq_some_iff.1 stepped
    obtain ⟨r, value, -, -, -, pushed⟩ := openReturnValue_inv (ok_of_toOption opened)
    exact rooted.push pushed
  | openArgument d functionName argument =>
    obtain ⟨⟨f, _⟩, opened, rfl⟩ := Option.map_eq_some_iff.1 stepped
    obtain ⟨slot, value, -, -, -, pushed⟩ := openArgument_inv (ok_of_toOption opened)
    exact rooted.push pushed
  | openField d parent key =>
    obtain ⟨⟨f, _⟩, opened, rfl⟩ := Option.map_eq_some_iff.1 stepped
    obtain ⟨p, field, -, -, -, -, pushed⟩ := openField_inv (ok_of_toOption opened)
    exact rooted.push pushed
  | setValue label value => exact absurd rfl (other label value)
  | commit label value d ctx =>
    obtain ⟨⟨d', _⟩, committed, rfl⟩ := Option.map_eq_some_iff.1 stepped
    exact rooted.commit (ok_of_toOption committed)
  | close label =>
    obtain ⟨⟨f, _⟩, closed, rfl⟩ := Option.map_eq_some_iff.1 stepped
    obtain ⟨-, rfl⟩ := close?_inv closed
    exact rooted.without label
  | select key =>
    obtain rfl := Option.some.inj stepped
    exact rooted
  | reconcile d =>
    obtain rfl := Option.some.inj stepped
    exact rooted.reconcile d

theorem setValue (rooted : Rooted of es.frames) {label : String} {value : Json}
    (set : es.setValue label value = .ok next) : Rooted Target.IsField next.frames := by
  have same := samePlace_changeValue label fun _ => value
  rw [setValue_frames rooted.labels_nodup set]
  refine ⟨(labels_nodup_map rooted.labels_nodup same).sublist ((sift_sublist _ _).map Frame.label),
    (eachAfter_sift _ _).mono fun before f after _ stands field => ?_⟩
  obtain ⟨key, target⟩ := field
  rw [fieldStands, target] at stands
  obtain ⟨p, found, -⟩ := (Option.any_eq_true _ _).1 stands
  exact .inr ⟨p, List.mem_of_find?_eq_some found, by simpa using List.find?_some found⟩

end Rooted

/-- Setting a value closes the parent of an editor, but leaves that editor open. -/
def Strands (es : Editors) (label : String) (value : Json) : Prop :=
  ∃ next, es.setValue label value = .ok next ∧
    ∃ f ∈ next.frames, ∃ p ∈ es.frames, p.label = f.parent ∧ (∀ m : ModuleName, f.parent ≠ m.name) ∧
      ∀ q ∈ next.frames, q.label ≠ p.label

theorem Rooted.setValue_of_not_strands (rooted : Rooted of es.frames) {label : String} {value : Json}
    (set : es.setValue label value = .ok next) (whole : ¬es.Strands label value) :
    Rooted of next.frames := by
  have same := samePlace_changeValue label fun _ => value
  have nodup := labels_nodup_map rooted.labels_nodup same
  have fewer : next.frames.Sublist (es.frames.map (changeValue label fun _ => value)) := by
    rw [setValue_frames rooted.labels_nodup set]
    exact sift_sublist _ _
  refine ⟨nodup.sublist (fewer.map Frame.label), ?_⟩
  rw [eq_filter_of_sublist fewer nodup]
  refine (rooted.map same).parent.filter _ fun before f after split stays parent ofKind => ?_
  rcases parent ofKind with module | ⟨p, member, parent⟩
  · exact .inl module
  by_cases named : ∃ m : ModuleName, f.parent = m.name
  · exact .inl named
  refine .inr ⟨p, List.mem_filter.2 ⟨member, ?_⟩, parent⟩
  -- A parent that is gone while its child stays is one that the value strands.
  by_contra gone
  obtain ⟨f', kept, labelled⟩ : ∃ f' ∈ next.frames, f'.label = f.label := by simpa using stays
  have memberF : f ∈ es.frames.map (changeValue label fun _ => value) := by simp [split]
  have memberP : p ∈ es.frames.map (changeValue label fun _ => value) := by simp [split, member]
  obtain rfl : f' = f := eq_of_label_eq nodup (fewer.subset kept) memberF labelled
  obtain ⟨old, memberOld, rfl⟩ := List.mem_map.1 memberP
  refine whole ⟨next, set, f', kept, old, memberOld, ?_, fun m same => named ⟨m, same⟩, ?_⟩
  · rw [← parent, (same old).label]
  · intro q memberQ labelled
    refine gone (List.contains_iff_mem.2 ?_)
    rw [(same old).label, ← labelled]
    exact List.mem_map_of_mem memberQ

/-! ## Whole runs -/

theorem after_of_refused {op : EditorOperation} (refused : es.step? op = none) :
    es.after op = es := by
  rw [after, refused]
  rfl

theorem after_of_step {op : EditorOperation} (stepped : es.step? op = some next) :
    es.after op = next := by
  rw [after, stepped]
  rfl

theorem afterAll_snoc (es : Editors) (ops : List EditorOperation) (op : EditorOperation) :
    es.afterAll (ops ++ [op]) = (es.afterAll ops).after op := List.foldl_append

theorem Rooted.after (rooted : Rooted of es.frames) {op : EditorOperation}
    (set : ∀ label value next, op = .setValue label value → es.setValue label value = .ok next →
      Rooted of next.frames) : Rooted of (es.after op).frames := by
  cases stepped : es.step? op with
  | none => rwa [after_of_refused stepped]
  | some next =>
    rw [after_of_step stepped]
    cases op with
    | setValue label value => exact set label value next rfl (ok_of_toOption stepped)
    | _ => exact rooted.step stepped fun _ _ => EditorOperation.noConfusion

theorem rooted_afterAll (ops : List EditorOperation) :
    Rooted Target.IsField (({} : Editors).afterAll ops).frames := by
  induction ops using List.reverseRecOn with
  | nil => exact Rooted.nil
  | append_singleton ops op ih =>
    rw [afterAll_snoc]
    exact ih.after fun label value next _ set => ih.setValue set

/-- An editor that is found after an operation was open before, or has been opened by it. The editors
that are not just pushed are those of fields, or stand under a module. -/
theorem mem_step (nodup : (es.frames.map Frame.label).Nodup) {op : EditorOperation}
    (stepped : es.step? op = some next) {f : Frame} (member : f ∈ next.frames) :
    (∃ g ∈ es.frames, g.SamePlace f) ∨ f.IsSupported ∨ ∃ d, op = .push f d := by
  have closed {label : String} (member : f ∈ (es.without label).frames) :
      ∃ g ∈ es.frames, g.SamePlace f := ⟨f, (mem_without.1 member).1, .refl f⟩
  have opened {frame : Frame} {d : Draft} (pushed : es.push frame d = .ok next) :
      (∃ g ∈ es.frames, g.SamePlace f) ∨ f = frame := by
    obtain ⟨-, -, rfl⟩ := push_inv pushed
    rcases List.mem_append.1 member with old | new
    · exact .inl (closed old)
    · exact .inr (List.mem_singleton.1 new)
  cases op with
  | push frame d =>
    rcases opened (ok_of_toOption stepped) with old | rfl
    · exact .inl old
    · exact .inr (.inr ⟨d, rfl⟩)
  | openReturnValue d =>
    obtain ⟨⟨frame, _⟩, done, rfl⟩ := Option.map_eq_some_iff.1 stepped
    obtain ⟨r, value, -, -, rfl, pushed⟩ := openReturnValue_inv (ok_of_toOption done)
    rcases opened pushed with old | rfl
    · exact .inl old
    · exact .inr (.inl (.inr ⟨.returnValue, rfl⟩))
  | openArgument d functionName argument =>
    obtain ⟨⟨frame, _⟩, done, rfl⟩ := Option.map_eq_some_iff.1 stepped
    obtain ⟨slot, value, -, -, rfl, pushed⟩ := openArgument_inv (ok_of_toOption done)
    rcases opened pushed with old | rfl
    · exact .inl old
    · exact .inr (.inl (.inr ⟨.argumentList, rfl⟩))
  | openField d parent key =>
    obtain ⟨⟨frame, _⟩, done, rfl⟩ := Option.map_eq_some_iff.1 stepped
    obtain ⟨p, field, -, -, -, rfl, pushed⟩ := openField_inv (ok_of_toOption done)
    rcases opened pushed with old | rfl
    · exact .inl old
    · exact .inr (.inl (.inl ⟨key, rfl⟩))
  | setValue label value =>
    rw [setValue_frames nodup (ok_of_toOption stepped)] at member
    obtain ⟨g, memberG, rfl⟩ := List.mem_map.1 ((sift_sublist _ _).subset member)
    exact .inl ⟨g, memberG, samePlace_changeValue _ _ g⟩
  | commit label value d ctx =>
    obtain ⟨⟨d', _⟩, committed, rfl⟩ := Option.map_eq_some_iff.1 stepped
    obtain ⟨g, -, result⟩ := commit_inv (ok_of_toOption committed)
    cases result with
    | returnValue => exact .inl (closed member)
    | argument => exact .inl (closed member)
    | field target parent here composite =>
      rw [field_commit_frames nodup label g.parent] at member
      obtain ⟨old, memberOld, rfl⟩ := List.mem_map.1 member
      exact .inl ⟨old, (mem_without.1 memberOld).1, samePlace_changeValue _ _ old⟩
  | close label =>
    obtain ⟨⟨g, _⟩, gone, rfl⟩ := Option.map_eq_some_iff.1 stepped
    obtain ⟨-, rfl⟩ := close?_inv gone
    exact .inl (closed member)
  | select key =>
    obtain rfl := Option.some.inj stepped
    exact .inl ⟨f, member, .refl f⟩
  | reconcile d =>
    obtain rfl := Option.some.inj stepped
    exact .inl ⟨f, (reconcile_sublist es d).subset member, .refl f⟩

/-- If whatever is pushed is the editor of a field or stands under a module, all editors are so. -/
theorem supported_afterAll {ops : List EditorOperation}
    (pushes : ∀ frame d, .push frame d ∈ ops → frame.IsSupported) :
    ∀ f ∈ (({} : Editors).afterAll ops).frames, f.IsSupported := by
  induction ops using List.reverseRecOn with
  | nil => intro f member; cases member
  | append_singleton ops op ih =>
    have earlier := ih fun frame d pushed => pushes frame d (List.mem_append_left [op] pushed)
    intro f member
    rw [afterAll_snoc] at member
    cases stepped : (({} : Editors).afterAll ops).step? op with
    | none =>
      rw [after_of_refused stepped] at member
      exact earlier f member
    | some next =>
      rw [after_of_step stepped] at member
      rcases mem_step (rooted_afterAll ops).labels_nodup stepped member with
        ⟨g, memberG, same⟩ | supported | ⟨d, rfl⟩
      · exact (earlier g memberG).of_samePlace same
      · exact supported
      · exact pushes f d (by simp)

/-- Whatever is done to the open editors, their labels stay distinct and the editor of a field comes
after its parent. All editors do so at all times if and only if no value that is set closes the
parent of an editor that stays open; and if whatever is pushed under an editor is the editor of a
field, this never happens. -/
theorem editors_form_forest (ops : List EditorOperation) :
    Rooted Target.IsField (({} : Editors).afterAll ops).frames ∧
      ((∀ part, part <+: ops → AllRooted (({} : Editors).afterAll part).frames) ↔
        ∀ part label value, part ++ [.setValue label value] <+: ops →
          ¬(({} : Editors).afterAll part).Strands label value) ∧
      ((∀ frame d, .push frame d ∈ ops → frame.IsSupported) →
        AllRooted (({} : Editors).afterAll ops).frames) := by
  refine ⟨rooted_afterAll ops, ⟨fun rooted part label value first strands => ?_, ?_⟩,
    fun pushes => ?_⟩
  · obtain ⟨next, set, f, member, p, -, parent, named, gone⟩ := strands
    have here := rooted _ first
    have stepped : (({} : Editors).afterAll part).step? (.setValue label value) = some next := by
      rw [step?, set]
      rfl
    rw [afterAll_snoc, after_of_step stepped] at here
    obtain ⟨before, after, split⟩ := List.append_of_mem member
    rcases here.parent before f after split trivial with ⟨m, module⟩ | ⟨q, earlier, labelled⟩
    · exact named m module
    · exact gone q (by simp [split, earlier]) (labelled.trans parent.symm)
  · intro whole part first
    induction part using List.reverseRecOn with
    | nil => exact Rooted.nil
    | append_singleton part op ih =>
      have earlier := ih ((List.prefix_append part [op]).trans first)
      rw [afterAll_snoc]
      refine earlier.after fun label value next same set => ?_
      subst same
      exact earlier.setValue_of_not_strands set (whole part label value first)
  · exact (rooted_afterAll ops).weaken fun f member _ => supported_afterAll pushes f member

def returning : Draft where
  pathToProject := "/p"
  fileId := "a.js"
  functionId := "f"
  modules := { returnValue := some {} }

def fieldRun : List EditorOperation :=
  [.push (.opened "A" "returnValue" .returnValue (.obj [("k", .obj [])])) returning,
    .openField returning "A" (.property "k"), .setValue "A" (.obj [])]

theorem editors_form_forest_field :
    AllRooted (({} : Editors).afterAll fieldRun).frames ∧
      (({} : Editors).afterAll (fieldRun.take 2)).frames.map Frame.label = ["A", "A.k"] ∧
      (({} : Editors).afterAll fieldRun).frames.map Frame.label = ["A"] := by
  refine ⟨(editors_form_forest fieldRun).2.2 fun frame d pushed => ?_, rfl, rfl⟩
  obtain ⟨rfl, -⟩ : frame = .opened "A" "returnValue" .returnValue (.obj [("k", .obj [])]) ∧
      d = returning := by
    simpa [fieldRun] using pushed
  exact .inr ⟨.returnValue, rfl⟩

/-- An editor of the return value is pushed under the editor of a field, which is then closed by a
value without the field. -/
def strandingRun : List EditorOperation :=
  fieldRun.take 2 ++ [.push (.opened "B" "A.k" .returnValue (.obj [])) returning] ++ fieldRun.drop 2

/-- It stays open without its parent, and another editor pushed under it takes the parent's place, so
that each of the two is then under the other. -/
theorem pushed_editor_stranded :
    let left := ({} : Editors).afterAll strandingRun
    let closed := left.after (.push (.opened "A.k" "B" .returnValue (.obj [])) returning)
    left.frames.map (fun f => (f.label, f.parent)) = [("A", "returnValue"), ("B", "A.k")] ∧
      ¬AllRooted left.frames ∧
      closed.frames.map (fun f => (f.label, f.parent)) =
        [("A", "returnValue"), ("B", "A.k"), ("A.k", "B")] := by
  refine ⟨rfl, fun rooted => ?_, rfl⟩
  rcases rooted.parent [_] _ [] rfl trivial with ⟨m, named⟩ | ⟨p, member, parent⟩
  · cases m <;> exact absurd named (by decide)
  · rw [List.mem_singleton.1 member] at parent
    exact absurd parent (by decide)

end Editors

end Fixture
