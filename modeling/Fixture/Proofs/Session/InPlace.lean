import Fixture.Proofs.Editor.InPlace
import Fixture.Proofs.Session.Live
import Fixture.Session.InPlace

/-!
A session after an operation that was carried out in place and failed is the session before. This
holds of any session, also of one that cannot come about.
-/

namespace Fixture

open InPlace

namespace Session

variable {α : Type}

theorem run_onEditors {code : InPlace EditorError Editors α} {s : Session}
    {operation : Except EditorError (α × Editors)}
    (carried : code.run s.editors = outcome s.editors operation) :
    (onEditors code).run s = outcome s (s.withEditors operation) := by
  simp only [onEditors, run_bind, run_get, run_modify, run_ofExcept, carried]
  cases operation <;> rfl

theorem run_replaceDraftInPlace (d : Draft) (s : Session) :
    (replaceDraftInPlace d).run s = (.ok (), s.replaceDraft d) := rfl

theorem run_runInPlace (c : Command) (s : Session) :
    (runInPlace c).run s = outcome s ((s.run c).map ((), ·)) := by
  simp only [runInPlace, run, run_bind, run_get, run_ofExcept]
  cases s.draft.apply s.context c <;> rfl

theorem run_dispatchInPlace (envelope : Json) (s : Session) :
    (dispatchInPlace envelope).run s = outcome s ((s.dispatch envelope).map ((), ·)) := by
  rw [dispatchInPlace, dispatch]
  cases Command.ofEnvelope envelope with
  | error e => rfl
  | ok content =>
    cases content with
    | ignored kind => rfl
    | command c => exact run_runInPlace c s

theorem run_openFieldInPlace (parent key : String) (s : Session) :
    (openFieldInPlace parent key).run s = outcome s (s.openField parent key) := by
  simp only [openFieldInPlace, openField, run_bind, run_get]
  cases s.editors.frame? parent with
  | none => rfl
  | some f => exact run_onEditors (Editors.run_openFieldInPlace _ _ _ _)

theorem run_setValueInPlace (label : String) (value : Json) (s : Session) :
    (onEditors (Editors.setValueInPlace label value)).run s =
      outcome s ((s.setValue label value).map ((), ·)) := by
  rw [run_onEditors (Editors.run_setValueInPlace label value s.editors), setValue]
  cases s.editors.setValue label value <;> rfl

theorem run_commitInPlace (label : String) (s : Session) :
    (commitInPlace label).run s = outcome s ((s.commit label).map ((), ·)) := by
  simp only [commitInPlace, commit, run_bind, run_get]
  cases s.editors.frame? label with
  | none => rfl
  | some f =>
    simp only [run_bind, run_onEditors (Editors.run_commitInPlace _ _ _ _ _)]
    cases s.editors.commit label f.value s.draft s.context <;> rfl

theorem run_closeInPlace (label : String) (s : Session) :
    (closeInPlace label).run s = outcome s
      ((s.close? label).elim (.error (.editor (.unknownFrame label))) .ok) := by
  have carried : (Editors.closeInPlace label : InPlace EditorError _ _).run s.editors =
      outcome s.editors (.ok ((s.editors.close? label).map (·.1), s.editors.without label)) :=
    Editors.run_closeInPlace s.editors label
  simp only [closeInPlace, run_bind, run_onEditors carried, close?, Editors.without]
  cases s.editors.close? label <;> rfl

theorem run_perform (op : Operation) (s : Session) : op.perform.run s = outcome s (s.result op) := by
  cases op with
  | run c =>
    simp only [Operation.perform, result, run_bind, run_runInPlace]
    cases s.run c <;> rfl
  | dispatch envelope =>
    simp only [Operation.perform, result, run_bind, run_dispatchInPlace]
    cases s.dispatch envelope <;> rfl
  | markPersisted saved => rfl
  | openReturnValue =>
    simp only [Operation.perform, result, openReturnValue, run_bind, run_get,
      run_onEditors (Editors.run_openReturnValueInPlace _ _)]
    cases s.withEditors (s.editors.openReturnValue s.draft) <;> rfl
  | openArgument functionName argument =>
    simp only [Operation.perform, result, openArgument, run_bind, run_get,
      run_onEditors (Editors.run_openArgumentInPlace _ _ _ _)]
    cases s.withEditors (s.editors.openArgument s.draft functionName argument) <;> rfl
  | openField parent key =>
    simp only [Operation.perform, result, run_bind, run_openFieldInPlace]
    cases s.openField parent key <;> rfl
  | setValue label value =>
    simp only [Operation.perform, result, run_bind, run_setValueInPlace]
    cases s.setValue label value <;> rfl
  | commit label =>
    simp only [Operation.perform, result, run_bind, run_commitInPlace]
    cases s.commit label <;> rfl
  | close label =>
    simp only [Operation.perform, result, run_bind, run_closeInPlace]
    cases s.close? label <;> rfl
  | select key => rfl

/-- An operation that fails leaves the session as it was, although it is carried out in place:
whatever the session is, and also on editors and a draft alone. What is carried out is what the
operation leads to. -/
theorem failure_changes_nothing :
    (∀ op : Operation, op.perform.Atomic ∧
      ∀ s, op.perform.run s = ((s.result op).map (·.1), s.after op)) ∧
    (∀ frame d, (Editors.pushInPlace frame d).Atomic) ∧
    (∀ d, (Editors.openReturnValueInPlace d).Atomic) ∧
    (∀ d functionName argument, (Editors.openArgumentInPlace d functionName argument).Atomic) ∧
    (∀ d parent key, (Editors.openFieldInPlace d parent key).Atomic) ∧
    (∀ label value, (Editors.setValueInPlace label value).Atomic) ∧
    ∀ label value d ctx, (Editors.commitInPlace label value d ctx).Atomic := by
  refine ⟨fun op => ⟨atomic_of_run (run_perform op), fun s => ?_⟩, ?_, ?_, ?_, ?_, ?_, ?_⟩
  · rw [run_perform, after_eq]
    cases s.result op <;> rfl
  · exact fun frame d => atomic_of_run (Editors.run_pushInPlace frame d)
  · exact fun d => atomic_of_run (Editors.run_openReturnValueInPlace d)
  · exact fun d functionName argument =>
      atomic_of_run (Editors.run_openArgumentInPlace d functionName argument)
  · exact fun d parent key => atomic_of_run (Editors.run_openFieldInPlace d parent key)
  · exact fun label value => atomic_of_run (Editors.run_setValueInPlace label value)
  · exact fun label value d ctx => atomic_of_run (Editors.run_commitInPlace label value d ctx)

/-- A session with two editors that are the parents of each other, and with one that has no parent
but the label of the first. -/
def tangled : Session where
  function := { pathToProject := "/p", fileId := "a.js", functionId := "f" }
  draft := { pathToProject := "/p", fileId := "a.js", functionId := "f" }
  editors := {
    frames := [
      .opened "Return value" "Return value[0]" (.field (.index 0)) (.arr [.obj []]),
      .opened "Return value[0]" "Return value" .returnValue .null,
      .opened "Return value" "nowhere" (.field (.property "x")) (.obj [])]
    selected := some "Return value[0]" }

def rejected : List Operation :=
  [.run (.updateReturnValue {}), .dispatch .null, .openReturnValue, .openArgument "f" "x",
    .openField "Return value" "0", .setValue "Argument" .null, .commit "Return value",
    .commit "Return value[0]", .close "Argument"]

theorem failure_changes_nothing_tangled :
    ¬tangled.Reachable ∧ ∀ op ∈ rejected, ∃ e, op.perform.run tangled = (.error e, tangled) := by
  constructor
  · intro reachable
    exact absurd reachable.live.labels_nodup (by decide)
  · have fails : ∀ op ∈ rejected, ∃ e t, op.perform.run tangled = (.error e, t) := by
      simp only [rejected, List.forall_mem_cons]
      exact ⟨⟨_, _, rfl⟩, ⟨_, _, rfl⟩, ⟨_, _, rfl⟩, ⟨_, _, rfl⟩, ⟨_, _, rfl⟩, ⟨_, _, rfl⟩,
        ⟨_, _, rfl⟩, ⟨_, _, rfl⟩, ⟨_, _, rfl⟩, by simp⟩
    intro op member
    obtain ⟨e, t, failed⟩ := fails op member
    obtain rfl := (failure_changes_nothing.1 op).1 tangled e t failed
    exact ⟨e, failed⟩

end Session

end Fixture
