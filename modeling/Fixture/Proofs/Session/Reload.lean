import Fixture.Proofs.Session.Encoding
import Fixture.Proofs.Session.Reduction

/-!
Saving a session and loading it again. Nothing is lost but nulls: an editor may set a value of the
draft to null, and where a value may be left out null reads as no value.
-/

namespace Fixture

open Json

/-- Operations that take nothing but texts and values. A value has the members of its objects in
order. -/
def Operation.IsEdit : Operation → Prop
  | .run _ | .markPersisted _ => False
  | .setValue _ value => value.Canonical
  | _ => True

namespace Operation

variable {P : Json → Prop}

theorem IsEdit.values {op : Operation} (edit : op.IsEdit)
    (given : ∀ v, v.Canonical ∧ v ≠ .null → P v)
    (set : ∀ label v, op = .setValue label v → v.Canonical → P v) : op.Values P := by
  cases op with
  | dispatch envelope =>
    intro c parsed
    exact (Command.values_of_ofEnvelope parsed).mono given
  | setValue label value => exact set label value rfl edit
  | run c => exact edit.elim
  | markPersisted saved => exact edit.elim
  | _ => trivial

end Operation

namespace Session

/-- A session for a new test, or for a saved one whose draft was decoded from a value. -/
inductive Initial : Session → Prop where
  | fresh (f : AnalyzedFunction) : Initial (fresh f)
  | ofPersisted (f : AnalyzedFunction) {j : Json} {saved : Draft}
      (decoded : Draft.decode.ofValue j = .ok saved) : Initial (ofPersisted f saved)

def withoutNulls (s : Session) : Session := { s with draft := s.draft.withoutNulls }

variable {s : Session} {ops : List Operation}

theorem Initial.values (initial : s.Initial) : s.Values fun v => v.Canonical ∧ v ≠ .null := by
  cases initial with
  | fresh f => exact values_fresh f
  | ofPersisted f decoded =>
    exact values_ofPersisted f ((Draft.values_of_decode decoded).mono fun v gives => gives.canonical)

theorem Values.mono {P Q : Json → Prop} (values : s.Values P) (weaker : ∀ v, P v → Q v) :
    s.Values Q where
  draft := values.draft.mono weaker
  persisted saved present := (values.persisted saved present).mono weaker
  editors := values.editors.mono weaker

theorem persisted_afterAll (edits : ∀ op ∈ ops, op.IsEdit) :
    (s.afterAll ops).persisted = s.persisted := by
  induction ops generalizing s with
  | nil => rfl
  | cons op ops ih =>
    obtain ⟨edit, later⟩ := List.forall_mem_cons.1 edits
    have unsaved : ∀ saved, op ≠ .markPersisted saved := by
      rintro saved rfl
      exact edit
    exact (ih later).trans (s.draft_after unsaved).2.2

theorem canonical_afterAll (initial : s.Initial) (edits : ∀ op ∈ ops, op.IsEdit) :
    (s.afterAll ops).Values Canonical := by
  refine (initial.values.mono fun v given => given.1).afterAll editable_canonical fun op member => ?_
  exact (edits op member).values (fun v given => given.1) fun label v _ canonical => canonical

/-- Null comes into a draft only by an editor that is set to null. -/
theorem no_null_afterAll (initial : s.Initial) (edits : ∀ op ∈ ops, op.IsEdit)
    (unset : ∀ label, Operation.setValue label .null ∉ ops) :
    (s.afterAll ops).Values fun v => v.Canonical ∧ v ≠ .null := by
  refine initial.values.afterAll (editable_canonical.and editable_ne_null) fun op member => ?_
  refine (edits op member).values (fun v given => given) ?_
  rintro label v rfl canonical
  exact ⟨canonical, fun null => unset label (null ▸ member)⟩

/-- All that is lost of an edited session are the nulls in its draft. -/
theorem stored_afterAll (initial : s.Initial) (edits : ∀ op ∈ ops, op.IsEdit) :
    (s.afterAll ops).stored = (s.afterAll ops).withoutNulls := by
  have values := canonical_afterAll initial edits
  have draft : (s.afterAll ops).draft.alter stored? = (s.afterAll ops).draft.withoutNulls :=
    Draft.alter_congr (values.draft.mono fun v => stored?_of_canonical)
  have saved : (s.afterAll ops).persisted.map (Draft.alter stored?) =
      (s.afterAll ops).persisted := by
    rw [persisted_afterAll edits]
    cases last : s.persisted with
    | none => rfl
    | some d =>
      refine congrArg some (Draft.alter_eq_self_iff.2 ?_)
      exact (initial.values.persisted d last).mono fun v given => stored?_eq_self given.1 given.2
  rw [stored, withoutNulls, draft, saved, Editors.mapValues_eq_self values.editors]

theorem withoutNulls_eq_self_iff : s.withoutNulls = s ↔ s.draft.Values (· ≠ .null) := by
  obtain ⟨f, d, saved, editors⟩ := s
  simp [withoutNulls, Draft.withoutNulls, Draft.alter_eq_self_iff, unlessNull_eq_some_iff]

/-- A session that came about by editing is read back without the nulls in its draft. So it is read
back as it is exactly if its draft has none, and there is none as long as no editor is set to
null. -/
theorem reload_afterAll (initial : s.Initial) (edits : ∀ op ∈ ops, op.IsEdit) :
    let t := s.afterAll ops
    decode.ofValue t.encode.sorted = .ok t.withoutNulls ∧
      (decode.ofValue t.encode.sorted = .ok t ↔ t.draft.Values (· ≠ .null)) ∧
      ((∀ label, Operation.setValue label .null ∉ ops) →
        decode.ofValue t.encode.sorted = .ok t) := by
  intro t
  have read : decode.ofValue t.encode.sorted = .ok t.withoutNulls :=
    (t.accepts .value _ .sorted).trans (congrArg _ (stored_afterAll initial edits))
  have exact_iff : decode.ofValue t.encode.sorted = .ok t ↔ t.draft.Values (· ≠ .null) := by
    rw [read, Except.ok.injEq]
    exact withoutNulls_eq_self_iff
  refine ⟨read, exact_iff, fun unset => exact_iff.2 ?_⟩
  exact (no_null_afterAll initial edits unset).draft.mono fun v given => given.2

def plainFunction : AnalyzedFunction :=
  { pathToProject := "/p", fileId := "a.js", functionId := "f" }

def objectExpected : Json :=
  .obj [("id", .str "t1"), ("pathToProject", .str "/p"), ("fileId", .str "a.js"),
    ("functionId", .str "f"),
    ("moduleData", .obj [("returnValue", .obj [("type", .str "object")])])]

def objectExpectedDraft : Draft :=
  { id := some "t1", pathToProject := "/p", fileId := "a.js", functionId := "f",
    modules := { returnValue := some { type := .object } } }

theorem decode_objectExpected : Draft.decode.ofValue objectExpected = .ok objectExpectedDraft := rfl

def setReturnValue (value : Json) : List Operation :=
  [.openReturnValue, .setValue returnValueLabel value, .commit returnValueLabel]

theorem isEdit_setReturnValue {value : Json} (canonical : value.Canonical) :
    ∀ op ∈ setReturnValue value, op.IsEdit := by
  simp [setReturnValue, Operation.IsEdit, canonical]

theorem reload_afterAll_object :
    let t := (ofPersisted plainFunction objectExpectedDraft).afterAll
      (setReturnValue (.obj [("a", .null)]))
    decode.ofValue t.encode.sorted = .ok t := by
  have canonical : (Json.obj [("a", .null)]).Canonical := rfl
  refine (reload_afterAll (.ofPersisted _ decode_objectExpected)
    (isEdit_setReturnValue canonical)).2.2 fun label member => ?_
  simp [setReturnValue] at member

/-- Set to null, the return value is lost, and the session no longer counts as changed. -/
theorem reload_loses_null :
    let start := ofPersisted plainFunction objectExpectedDraft
    let s := start.afterAll (setReturnValue .null)
    start.Initial ∧ (∀ op ∈ setReturnValue .null, op.IsEdit) ∧
      ∃ t, decode.ofValue s.encode.sorted = .ok t ∧ t ≠ s ∧ s.isDirty = true ∧
        t.isDirty = false := by
  intro start s
  have read : decode.ofValue s.encode.sorted = .ok s.stored := s.accepts .value _ .sorted
  have dirty : s.isDirty = true := by decide
  have clean : s.stored.isDirty = false := by decide
  refine ⟨.ofPersisted _ decode_objectExpected, isEdit_setReturnValue rfl, s.stored, read,
    fun same => ?_, dirty, clean⟩
  rw [same, dirty] at clean
  cases clean

end Session

end Fixture
