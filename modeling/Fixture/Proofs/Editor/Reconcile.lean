import Fixture.Proofs.Editor.Forest

/-!
Reconciling whatever the open editors are. They may have been read from a text, with one label twice,
with an editor before its parent, or with two under each other. One pass leaves those of which all
that they need is in the draft or has been left open before, and a second pass finds no more to do.
-/

namespace Fixture

def Frame.FirstHolds (frames : List Frame) (label : String) (key : FieldKey) : Prop :=
  ∃ front p back, frames = front ++ p :: back ∧ (∀ q ∈ front, q.label ≠ label) ∧
    p.label = label ∧ key.isComposite p.value = true

/-- What an editor needs is in the draft, or in the editors before it: a parent, and a payload or a
field that is an array or an object. -/
structure Frame.Supplied (d : Draft) (before : List Frame) (f : Frame) : Prop where
  parent : (∃ m ∈ d.modules.enabled, f.parent = m.name) ∨
    (∀ m : ModuleName, f.parent ≠ m.name) ∧ ∃ p ∈ before, p.label = f.parent
  target : match f.target with
    | .returnValue => ∃ r, d.modules.returnValue = some r ∧ r.type.isComposite = true
    | .argument functionName argument =>
      ∃ slot, d.modules.slot? functionName argument = some slot ∧ slot.type.isComposite = true
    | .field key => Frame.FirstHolds before f.parent key

/-- One pass over a list divides it: a member is kept if it stands given those that are kept before
it, and is left out if not. -/
inductive Divided {α : Type} (stands : List α → α → Prop) : List α → List α → List α → Prop where
  | nil : Divided stands [] [] []
  | keep {xs kept out : List α} {x : α} (earlier : Divided stands xs kept out)
      (here : stands kept x) : Divided stands (xs ++ [x]) (kept ++ [x]) out
  | leave {xs kept out : List α} {x : α} (earlier : Divided stands xs kept out)
      (lost : ¬stands kept x) : Divided stands (xs ++ [x]) kept (out ++ [x])

namespace Editors

variable {d : Draft} {before : List Frame} {f : Frame}

theorem holdsComposite_iff_first {label : String} {key : FieldKey} :
    holdsComposite before label key = true ↔ Frame.FirstHolds before label key := by
  rw [holdsComposite, Option.any_eq_true]
  constructor
  · intro given
    obtain ⟨p, found, composite⟩ := given
    obtain ⟨labelled, front, back, rfl, others⟩ := List.find?_eq_some_iff_append.1 found
    exact ⟨front, p, back, rfl, by simpa using others, by simpa using labelled, composite⟩
  · intro given
    obtain ⟨front, p, back, rfl, others, labelled, composite⟩ := given
    refine ⟨p, List.find?_eq_some_iff_append.2 ⟨?_, front, back, rfl, ?_⟩, composite⟩
    · simpa using labelled
    · simpa using others

theorem parentStands_iff : parentStands d before f = true ↔
    (∃ m ∈ d.modules.enabled, f.parent = m.name) ∨
      (∀ m : ModuleName, f.parent ≠ m.name) ∧ ∃ p ∈ before, p.label = f.parent := by
  rw [parentStands]
  cases named : ModuleName.parse? f.parent with
  | some m =>
    have root := ModuleName.eq_name_of_parse? named
    constructor
    · intro enabled
      exact .inl ⟨m, Modules.mem_enabled.2 enabled, root⟩
    · intro given
      rcases given with ⟨m', enabled, root'⟩ | ⟨other, -⟩
      · rw [root', ModuleName.parse?_name] at named
        exact Option.some.inj named ▸ Modules.mem_enabled.1 enabled
      · exact absurd root (other m)
  | none =>
    have other (m : ModuleName) : f.parent ≠ m.name := by
      intro root
      rw [root, ModuleName.parse?_name] at named
      cases named
    simp [other]

theorem supplied_iff :
    (targetStands d before f && parentStands d before f) = true ↔ f.Supplied d before := by
  have target : targetStands d before f = true ↔
      match f.target with
      | .returnValue => ∃ r, d.modules.returnValue = some r ∧ r.type.isComposite = true
      | .argument functionName argument =>
        ∃ slot, d.modules.slot? functionName argument = some slot ∧ slot.type.isComposite = true
      | .field key => Frame.FirstHolds before f.parent key := by
    rw [targetStands]
    cases f.target with
    | returnValue => exact Option.any_eq_true _ _
    | argument functionName argument => exact Option.any_eq_true _ _
    | field key => exact holdsComposite_iff_first
  rw [Bool.and_eq_true, target, parentStands_iff]
  exact ⟨fun given => ⟨given.2, given.1⟩, fun supplied => ⟨supplied.target, supplied.parent⟩⟩

theorem divided_sift {stands : List Frame → Frame → Bool} {holds : List Frame → Frame → Prop}
    (decides : ∀ kept f, stands kept f = true ↔ holds kept f) (frames : List Frame) :
    ∃ out, (sift stands frames).2 = out.map Frame.label ∧
      Divided holds frames (sift stands frames).1 out := by
  induction frames using List.reverseRecOn with
  | nil => exact ⟨[], rfl, .nil⟩
  | append_singleton frames f ih =>
    obtain ⟨out, labels, divided⟩ := ih
    rw [sift_snoc]
    split
    next passes => exact ⟨out, labels, .keep divided ((decides _ f).1 passes)⟩
    next fails =>
      exact ⟨out ++ [f], by simp [labels], .leave divided fun here => fails ((decides _ f).2 here)⟩

/-- Reconciling any editors with any draft keeps some of them in order and gives back the labels of
the others in order. An editor is kept exactly if what it needs is in the draft or in the editors
that are kept before it. So all are kept if each of them has what it needs, and reconciling once more
closes nothing. -/
theorem reconcile_repairs (es : Editors) (d : Draft) :
    ∃ kept closed, es.reconcile d = ({ es with frames := kept }, closed.map Frame.label) ∧
      kept.Sublist es.frames ∧ Divided (Frame.Supplied d) es.frames kept closed ∧
      EachAfter (Frame.Supplied d) kept ∧
      (EachAfter (Frame.Supplied d) es.frames → es.reconcile d = (es, [])) ∧
      (es.reconcile d).1.reconcile d = ((es.reconcile d).1, []) := by
  obtain ⟨closed, labels, divided⟩ := divided_sift (fun _ _ => supplied_iff (d := d)) es.frames
  refine ⟨_, closed, by rw [← labels]; rfl, sift_sublist _ es.frames, divided, ?_, ?_,
    reconcile_reconcile es d⟩
  · exact (eachAfter_sift _ es.frames).mono fun _ _ _ _ passes => supplied_iff.1 passes
  · intro supplied
    have each : EachAfter (fun kept f => (targetStands d kept f && parentStands d kept f) = true)
        es.frames := supplied.mono fun _ _ _ _ => supplied_iff.2
    rw [reconcile, sift_eq_self _ each]

/-- An editor before its parent, and two that are under each other. -/
example :
    (reconcile
      { frames := [.opened "B" "A" .returnValue (.obj []),
          .opened "A" "returnValue" .returnValue (.obj []),
          .opened "C" "D" .returnValue (.obj []), .opened "D" "C" .returnValue (.obj [])] }
      { pathToProject := "/p", fileId := "a.js", functionId := "f"
        modules := { returnValue := some { type := .object } } }).2 = ["B", "C", "D"] := by decide

end Editors

end Fixture
