import Fixture.Proofs.Draft.Values
import Fixture.Proofs.Editor.Change

/-!
The values of editors. No operation on editors makes up a value: each is empty, was given, is a field
of one that is there, or is one with a field changed. So what editing keeps holds of all of them.
-/

namespace Fixture

open Json

namespace Frame

variable {P Q : Json → Prop}

def mapValues (f : Json → Json) (frame : Frame) : Frame :=
  { frame with initialValue := f frame.initialValue, value := f frame.value }

structure Values (P : Json → Prop) (frame : Frame) : Prop where
  initialValue : P frame.initialValue
  value : P frame.value

theorem mapValues_eq_self {f : Json → Json} {frame : Frame}
    (values : frame.Values fun v => f v = v) : frame.mapValues f = frame := by
  rw [mapValues, values.initialValue, values.value]

theorem Values.mono {frame : Frame} (values : frame.Values P) (weaker : ∀ v, P v → Q v) :
    frame.Values Q :=
  ⟨weaker _ values.initialValue, weaker _ values.value⟩

end Frame

namespace Editors

variable {P Q : Json → Prop}

def mapValues (f : Json → Json) (es : Editors) : Editors :=
  { es with frames := es.frames.map (Frame.mapValues f) }

def Values (P : Json → Prop) (es : Editors) : Prop := ∀ frame ∈ es.frames, frame.Values P

theorem mapValues_eq_self {f : Json → Json} {es : Editors} (values : es.Values fun v => f v = v) :
    es.mapValues f = es := by
  rw [mapValues, map_eq_self_iff.2 fun frame member => Frame.mapValues_eq_self (values frame member)]

theorem Values.mono {es : Editors} (values : es.Values P) (weaker : ∀ v, P v → Q v) : es.Values Q :=
  fun frame member => (values frame member).mono weaker

end Editors

/-! ## What editing keeps -/

/-- What holds of empty arrays and objects, of composite fields of what it holds of, and of what it
holds of with a field changed. -/
structure Json.Editable (P : Json → Prop) : Prop where
  emptyArray : P (.arr [])
  emptyObject : P (.obj [])
  field : ∀ {key : FieldKey} {v w : Json}, P v → key.get? v = some w → w.isComposite → P w
  change : ∀ {key : FieldKey} {v w : Json}, P v → P w → P (key.set w v)

namespace Json

theorem Editable.and {P Q : Json → Prop} (first : Editable P) (second : Editable Q) :
    Editable fun v => P v ∧ Q v where
  emptyArray := ⟨first.emptyArray, second.emptyArray⟩
  emptyObject := ⟨first.emptyObject, second.emptyObject⟩
  field both found composite :=
    ⟨first.field both.1 found composite, second.field both.2 found composite⟩
  change both both' := ⟨first.change both.1 both'.1, second.change both.2 both'.2⟩

theorem editable_ne_null : Editable fun v => v ≠ .null where
  emptyArray := by simp
  emptyObject := by simp
  field _ _ composite null := by rw [null] at composite; cases composite
  change {key v w} present _ := by
    cases v with
    | null => exact absurd rfl present
    | arr items => cases key <;> simp [FieldKey.set]
    | obj members => cases key <;> simp [FieldKey.set]
    | _ => simp [FieldKey.set]

theorem map_fst_replaceMember (name : String) (value : Json) (members : List (String × Json)) :
    (FieldKey.replaceMember name value members).map Prod.fst = members.map Prod.fst := by
  induction members with
  | nil => rfl
  | cons m rest ih =>
    rw [FieldKey.replaceMember]
    split
    · rfl
    · rw [List.map_cons, List.map_cons, ih]

theorem mem_replaceMember {name : String} {value : Json} {members : List (String × Json)}
    {m : String × Json} (member : m ∈ FieldKey.replaceMember name value members) :
    m.2 = value ∨ m ∈ members := by
  induction members with
  | nil => cases member
  | cons first rest ih =>
    rw [FieldKey.replaceMember] at member
    split at member
    · rcases List.mem_cons.1 member with rfl | later
      · exact .inl rfl
      · exact .inr (List.mem_cons_of_mem _ later)
    · rcases List.mem_cons.1 member with rfl | later
      · exact .inr List.mem_cons_self
      · exact (ih later).imp_right (List.mem_cons_of_mem _)

theorem Ordered.of_names {members members' : List (String × Json)} (ordered : Ordered members)
    (same : members'.map Prod.fst = members.map Prod.fst) : Ordered members' := by
  have names : (members.map Prod.fst).Pairwise (· < ·) := List.pairwise_map.2 ordered
  rw [← same] at names
  exact List.pairwise_map.1 names

theorem editable_canonical : Editable Canonical where
  emptyArray := rfl
  emptyObject := rfl
  field {key v w} canonical found _ := by
    cases key with
    | index i =>
      cases v with
      | arr items => exact canonical_arr_iff.1 canonical w (List.mem_of_getElem? found)
      | _ => cases found
    | property name =>
      cases v with
      | obj members => exact (canonical_obj_iff.1 canonical).2 _ (mem_of_lookup found)
      | _ => cases found
  change {key v w} canonical canonical' := by
    cases v with
    | arr items =>
      cases key with
      | index i =>
        refine canonical_arr_iff.2 fun item member => ?_
        rcases List.mem_or_eq_of_mem_set member with old | rfl
        · exact canonical_arr_iff.1 canonical item old
        · exact canonical'
      | property name => exact canonical
    | obj members =>
      cases key with
      | index i => exact canonical
      | property name =>
        obtain ⟨ordered, values⟩ := canonical_obj_iff.1 canonical
        refine canonical_obj_iff.2 ⟨ordered.of_names (map_fst_replaceMember name w members), ?_⟩
        intro m member
        rcases mem_replaceMember member with rfl | old
        · exact canonical'
        · exact values m old
    | _ => exact canonical

end Json

/-! ## Operations -/

namespace Editors

variable {P : Json → Prop} {es next : Editors} {d : Draft} {f : Frame}

theorem Values.sublist {frames : List Frame} (values : es.Values P)
    (fewer : frames.Sublist es.frames) (selected : Option String) :
    Editors.Values P ⟨frames, selected⟩ :=
  fun frame member => values frame (fewer.subset member)

theorem Values.without (values : es.Values P) (label : String) : (es.without label).Values P := by
  intro frame member
  exact values frame (mem_without.1 member).1

theorem Values.frame (values : es.Values P) {label : String} (found : es.frame? label = some f) :
    f.Values P :=
  values f (frame?_mem found).1

theorem Values.reconcile (values : es.Values P) (d : Draft) : (es.reconcile d).1.Values P := by
  intro frame member
  exact values frame ((reconcile_sublist es d).subset member)

theorem Values.push {frame : Frame} (values : es.Values P) (given : frame.Values P)
    (pushed : es.push frame d = .ok next) : next.Values P := by
  obtain ⟨-, -, rfl⟩ := push_inv pushed
  intro f member
  rcases List.mem_append.1 member with old | new
  · exact values.without frame.label f old
  · rwa [List.mem_singleton.1 new]

theorem startingValue_of {type : TypeTag} {value : Option Json} {start : Json}
    (editable : Editable P) (values : ∀ v ∈ value, P v)
    (starts : startingValue? type value = some start) : P start := by
  unfold startingValue? at starts
  split at starts <;> cases starts
  · exact values _ rfl
  · exact values _ rfl
  · exact editable.emptyObject
  · exact editable.emptyArray

theorem Values.openReturnValue (values : es.Values P) (editable : Editable P) (draft : d.Values P)
    (opened : es.openReturnValue d = .ok (f, next)) : next.Values P := by
  obtain ⟨r, value, found, starts, rfl, pushed⟩ := openReturnValue_inv opened
  have start := startingValue_of editable (draft.returnValue r found) starts
  exact values.push ⟨start, start⟩ pushed

theorem Values.openArgument {functionName argument : String} (values : es.Values P)
    (editable : Editable P) (draft : d.Values P)
    (opened : es.openArgument d functionName argument = .ok (f, next)) : next.Values P := by
  obtain ⟨slot, value, found, starts, rfl, pushed⟩ := openArgument_inv opened
  have start := startingValue_of editable (Modules.Values.slot draft found) starts
  exact values.push ⟨start, start⟩ pushed

theorem Values.openField {parent : String} {key : FieldKey} (values : es.Values P)
    (editable : Editable P) (opened : es.openField d parent key = .ok (f, next)) :
    next.Values P := by
  obtain ⟨p, field, found, here, composite, rfl, pushed⟩ := openField_inv opened
  have inner := editable.field (values.frame found).value here composite
  exact values.push ⟨inner, inner⟩ pushed

theorem Values.modifyFirst {frames : List Frame} (values : ∀ f ∈ frames, f.Values P)
    (label : String) {change : Frame → Frame} (kept : ∀ f : Frame, f.Values P → (change f).Values P) :
    ∀ f ∈ modifyFirst label change frames, f.Values P := by
  induction frames with
  | nil => exact fun f member => absurd member List.not_mem_nil
  | cons g rest ih =>
    obtain ⟨first, later⟩ := List.forall_mem_cons.1 values
    rw [Editors.modifyFirst]
    split
    · exact List.forall_mem_cons.2 ⟨kept g first, later⟩
    · exact List.forall_mem_cons.2 ⟨first, ih later⟩

theorem Values.setValue {label : String} {value : Json} (values : es.Values P) (given : P value)
    (set : es.setValue label value = .ok next) : next.Values P := by
  intro f member
  rw [(setValue_inv set).2] at member
  refine Values.modifyFirst values label (fun g old => ?_) f ((sift_sublist _ _).subset member)
  exact ⟨old.initialValue, given⟩

theorem Values.commit {label : String} {value : Json} {ctx : Context} {d' : Draft}
    (values : es.Values P) (editable : Editable P) (draft : d.Values P) (given : P value)
    (committed : es.commit label value d ctx = .ok (d', next)) : d'.Values P ∧ next.Values P := by
  have one : ∀ v ∈ some value, P v := by
    rintro v ⟨⟩
    exact given
  obtain ⟨f, -, done⟩ := commit_inv committed
  cases done with
  | @returnValue r d' target found applied =>
    have returned := ReturnValue.values_ofTyped r.type one
    exact ⟨draft.updateReturnValue returned applied, values.without label⟩
  | @argument functionName argument slot d' target found applied =>
    have changed := Slot.values_withValue slot slot.type one
    exact ⟨draft.changeArgument changed applied, values.without label⟩
  | field target parent found composite =>
    refine ⟨draft, Values.without ?_ label⟩
    exact Values.modifyFirst values _ fun g old =>
      ⟨old.initialValue, editable.change old.value given⟩

end Editors

end Fixture
