import Fixture.Proofs.Session.Reduction

/-!
Discarding changes. Editing touches neither the draft as last saved nor what tells the test apart
from others. So discarding gives back the modules last saved, whatever has happened to them, and it
leaves the name alone.
-/

namespace Fixture

/-- The operations that leave the draft one of the same test. -/
def Operation.KeepsTest : Operation → Prop
  | .run c => ¬c.Restarts
  | .dispatch envelope => ∀ c, Command.ofEnvelope envelope = .ok (.command c) → ¬c.Restarts
  | .markPersisted _ => False
  | _ => True

namespace Operation

variable {op : Operation} {c : Command}

theorem KeepsTest.unsaved (keeps : op.KeepsTest) (saved : Draft) : op ≠ .markPersisted saved := by
  rintro rfl
  exact keeps

theorem KeepsTest.command (keeps : op.KeepsTest) (given : op.Contributes c) : ¬c.Restarts := by
  cases given with
  | run c => exact keeps
  | dispatch parsed => exact keeps _ parsed
  | returnValue label r => exact id
  | argument label slot => exact id

end Operation

namespace Draft

variable {d : Draft}

theorem discard_of_saved {ctx : Context} {saved : Draft} (last : ctx.persisted = some saved)
    (present : saved.id.isSome) (same : saved.SameTest d) :
    d.discard ctx = { saved with customName := d.customName } := by
  simp only [discard, last]
  rw [if_pos ⟨present, same.id.symm⟩, same.eq]

theorem discard_of_other {ctx : Context}
    (other : d.id = none ∨ ∀ saved, ctx.persisted = some saved → saved.id ≠ d.id) :
    d.discard ctx = d := by
  rw [discard]
  split
  next saved last =>
    refine if_neg fun restores => ?_
    obtain ⟨present, same⟩ := restores
    rcases other with absent | differs
    · rw [same, absent] at present
      cases present
    · exact differs saved last same
  · rfl

theorem beq_rename (d : Draft) (name : String) :
    (d == { d with customName := name }) = (d.customName == name) := by
  show instBEqDraft.beq d _ = _
  simp [instBEqDraft.beq]

end Draft

namespace Session

variable {s : Session}

theorem sameTest_after {op : Operation} (keeps : op.KeepsTest) :
    s.draft.SameTest (s.after op).draft := by
  rcases s.draft_after_cases keeps.unsaved with same | ⟨c, given, applied⟩
  · rw [same]
    exact .refl _
  · exact Draft.sameTest_apply (keeps.command given) applied

theorem sameTest_afterAll {ops : List Operation} (keeps : ∀ op ∈ ops, op.KeepsTest) :
    s.draft.SameTest (s.afterAll ops).draft ∧ (s.afterAll ops).persisted = s.persisted ∧
      (s.afterAll ops).function = s.function := by
  induction ops generalizing s with
  | nil => exact ⟨.refl _, rfl, rfl⟩
  | cons op ops ih =>
    obtain ⟨here, later⟩ := List.forall_mem_cons.1 keeps
    obtain ⟨same, persisted, function⟩ := ih (s := s.after op) later
    obtain ⟨-, function', persisted'⟩ := s.draft_after here.unsaved
    exact ⟨(sameTest_after here).trans same, persisted.trans persisted', function.trans function'⟩

/-- The sessions right after a draft was loaded or saved. -/
inductive SavedAs (saved : Draft) : Session → Prop where
  | ofPersisted (f : AnalyzedFunction) : SavedAs saved (ofPersisted f saved)
  | markPersisted (s : Session) : SavedAs saved (s.markPersisted saved)

theorem SavedAs.draft {saved : Draft} (start : SavedAs saved s) : s.draft = saved := by
  cases start <;> rfl

theorem SavedAs.persisted {saved : Draft} (start : SavedAs saved s) : s.persisted = some saved := by
  cases start <;> rfl

variable {saved : Draft}

theorem replaceDraft_replaceDraft (s : Session) (d : Draft) :
    (s.replaceDraft d).replaceDraft d = s.replaceDraft d := by
  simp only [replaceDraft, Editors.reconcile_reconcile]

theorem run_discard (last : s.persisted = some saved) (present : saved.id.isSome)
    (same : saved.SameTest s.draft) :
    s.run .discard = .ok (s.replaceDraft { saved with customName := s.draft.customName }) := by
  have discarded : s.draft.discard s.context = { saved with customName := s.draft.customName } :=
    Draft.discard_of_saved last present same
  rw [run, Draft.apply, discarded]

/-- With the modules last saved, a session is changed only by another name. -/
theorem isDirty_iff_renamed (last : s.persisted = some saved) {name : String}
    (draft : s.draft = { saved with customName := name }) :
    s.isDirty = true ↔ name ≠ saved.customName := by
  simp only [isDirty, last, draft, Draft.beq_rename, Bool.not_eq_true', beq_eq_false_iff_ne]
  exact ne_comm

/-- Whatever was edited since a draft was loaded or saved under an id, discarding leaves that draft
with the name at hand. The session then differs from what was saved exactly if the name does, all
editors that are left edit what is there, and discarding again changes nothing. A draft without an
id, or with another id than the one last saved, is left as it is. -/
theorem discard_undoes_edits (start : SavedAs saved s) (present : saved.id.isSome)
    {ops : List Operation} (keeps : ∀ op ∈ ops, op.KeepsTest) :
    (∃ t, (s.afterAll ops).run .discard = .ok t ∧
      t.draft = { saved with customName := (s.afterAll ops).draft.customName } ∧
      t.persisted = some saved ∧ t.function = s.function ∧
      (t.isDirty = true ↔ (s.afterAll ops).draft.customName ≠ saved.customName) ∧
      (∀ before f after, t.editors.frames = before ++ f :: after → f.Stands t.draft before) ∧
      t.editors.reconcile t.draft = (t.editors, []) ∧
      t.run .discard = .ok t) ∧
    ∀ other : Session,
      other.draft.id = none ∨ (∀ last, other.persisted = some last → last.id ≠ other.draft.id) →
      ∃ t, other.run .discard = .ok t ∧ t.draft = other.draft := by
  constructor
  · obtain ⟨same, persisted, function⟩ := sameTest_afterAll keeps
    have last := persisted.trans start.persisted
    rw [start.draft] at same
    generalize s.afterAll ops = edited at *
    let restored : Draft := { saved with customName := edited.draft.customName }
    have lastRestored : (edited.replaceDraft restored).persisted = some saved := last
    have again : (edited.replaceDraft restored).run .discard =
        .ok (edited.replaceDraft restored) := by
      have unmoved : saved.SameTest (edited.replaceDraft restored).draft := ⟨rfl, rfl, rfl, rfl⟩
      rw [run_discard lastRestored present unmoved]
      exact congrArg Except.ok (replaceDraft_replaceDraft edited restored)
    exact ⟨edited.replaceDraft restored, run_discard last present same, rfl, last, function,
      isDirty_iff_renamed lastRestored rfl, Editors.reconcile_stand _ _,
      Editors.reconcile_reconcile _ _, again⟩
  · intro other differs
    exact ⟨other.replaceDraft _, rfl, Draft.discard_of_other differs⟩

def savedDraft : Draft where
  id := some "t1"
  pathToProject := "/p"
  fileId := "a.js"
  functionId := "f"
  customName := "old"
  modules := {
    argumentList := some [{ functionName := "f", argument := "x", type := .object }]
    returnValue := some { type := .array } }

def reopened : Session :=
  ((fresh { pathToProject := "/p", fileId := "a.js", functionId := "f" }).after
    (.run (.updateReturnValue { type := .string, value := some (.str "s") }))).markPersisted
      savedDraft

/-- The return value is edited, the arguments go and are to come back, the expected exception is not
there to be changed, and the test gets another name. -/
def savedEdits : List Operation :=
  [.openArgument "f" "x", .openReturnValue, .setValue returnValueLabel (.arr [.null]),
    .commit returnValueLabel, .dispatch (Command.removeModule .argumentList).toEnvelope,
    .run (.addModule .argumentList), .run (.updateException {}), .run (.rename "new")]

theorem discard_undoes_edits_reopened :
    SavedAs savedDraft reopened ∧ savedDraft.id.isSome ∧ (∀ op ∈ savedEdits, op.KeepsTest) ∧
      (reopened.afterAll savedEdits).draft.modules =
        { argumentList := some []
          returnValue := some { type := .array, value := some (.arr [.null]) } } ∧
      ∃ t, (reopened.afterAll savedEdits).run .discard = .ok t ∧
        t.draft = { savedDraft with customName := "new" } ∧ t.isDirty = true ∧
        t.run .discard = .ok t := by
  have start : SavedAs savedDraft reopened := .markPersisted _
  have removes : Command.ofEnvelope (Command.removeModule .argumentList).toEnvelope =
      .ok (.command (.removeModule .argumentList)) := rfl
  have keeps : ∀ op ∈ savedEdits, op.KeepsTest := by
    simp [savedEdits, Operation.KeepsTest, Command.Restarts, removes]
  refine ⟨start, rfl, keeps, rfl, ?_⟩
  obtain ⟨t, discarded, draft, -, -, dirty, -, -, again⟩ :=
    (discard_undoes_edits start rfl keeps).1
  exact ⟨t, discarded, draft, dirty.2 (by decide), again⟩

end Session

end Fixture
