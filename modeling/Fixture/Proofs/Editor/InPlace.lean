import Fixture.Editor.InPlace
import Fixture.Proofs.Editor.Change

/-!
Carrying an operation on the editors out in place gives what the operation gives. So a failure comes
before the first write, whatever the editors are: `InPlace.Atomic`.
-/

namespace Fixture

namespace InPlace

variable {ε σ α : Type}

/-- What code gives that carries out an operation: the result with the new state, or the error with
the old one. -/
def outcome (s : σ) : Except ε (α × σ) → Except ε α × σ
  | .ok (a, t) => (.ok a, t)
  | .error e => (.error e, s)

@[simp] theorem outcome_ok (s : σ) (a : α) (t : σ) :
    outcome s (.ok (a, t) : Except ε (α × σ)) = (.ok a, t) := rfl

@[simp] theorem outcome_error (s : σ) (e : ε) :
    outcome s (.error e : Except ε (α × σ)) = (.error e, s) := rfl

/-- Code that leaves the state as it was if it fails. -/
def Atomic (code : InPlace ε σ α) : Prop := ∀ s e t, run code s = (.error e, t) → t = s

theorem atomic_of_run {code : InPlace ε σ α} {operation : σ → Except ε (α × σ)}
    (carried : ∀ s, run code s = outcome s (operation s)) : code.Atomic := by
  intro s e t failed
  rw [carried] at failed
  cases given : operation s with
  | ok pair =>
    rw [given] at failed
    cases (Prod.mk.inj failed).1
  | error e' =>
    rw [given] at failed
    exact (Prod.mk.inj failed).2.symm

end InPlace

namespace Editors

open InPlace

variable {ε : Type} {es : Editors} {d : Draft}

/-- Removing the first editor with a label before all that are closed makes no difference. -/
private theorem filter_eraseP {frames : List Frame} {label : String} {closed : List String}
    (member : label ∈ closed) :
    (frames.eraseP fun f => f.label == label).filter (fun f => !closed.contains f.label) =
      frames.filter fun f => !closed.contains f.label := by
  induction frames with
  | nil => rfl
  | cons f frames ih =>
    cases same : f.label == label with
    | true =>
      obtain rfl := beq_iff_eq.1 same
      simp [member]
    | false => simp only [List.eraseP, same, cond_false, List.filter_cons, ih]

theorem run_closeInPlace (es : Editors) (label : String) :
    run (closeInPlace label : InPlace ε Editors (Option Frame)) es =
      (.ok ((es.close? label).map (·.1)), es.without label) := by
  cases found : es.frame? label with
  | none => simp [closeInPlace, close?, without, found]
  | some frame =>
    have inside : label ∈ es.subtree label := mem_subtree_self (by rw [found]; rfl)
    simp only [closeInPlace, run_bind, run_get, run_modify, run_ite, found, filter_eraseP inside]
    cases selected : es.selected.any (es.subtree label).contains <;>
      simp [close?, without, found, selected]

theorem frame?_of_subtree_isEmpty {label : String} (empty : (es.subtree label).isEmpty = true) :
    es.frame? label = none := by
  by_contra opened
  have member := mem_subtree_self (Option.isSome_iff_ne_none.2 opened)
  rw [List.isEmpty_iff.1 empty] at member
  cases member

theorem run_pushInPlace (frame : Frame) (d : Draft) (es : Editors) :
    run (pushInPlace frame d) es = outcome es (es.pushed frame d) := by
  simp only [pushInPlace, run_bind, run_get, run_ite, run_throw, run_modify, run_pure,
    run_closeInPlace, pushed, push]
  by_cases refused : ((es.subtree frame.label).contains frame.parent ||
      !es.isLive d frame.parent) = true
  · rw [if_pos refused, if_pos refused]
    rfl
  · rw [if_neg refused, if_neg refused]
    by_cases empty : (es.subtree frame.label).isEmpty = true
    · -- with no editor in its place there is nothing to close
      rw [without_eq_self (frame?_of_subtree_isEmpty empty), empty]
      rfl
    · rw [Bool.not_eq_true] at empty
      rw [empty]
      rfl

theorem run_openReturnValueInPlace (d : Draft) (es : Editors) :
    run (openReturnValueInPlace d) es = outcome es (es.openReturnValue d) := by
  rw [openReturnValueInPlace, openReturnValue]
  cases d.modules.returnValue with
  | none => rfl
  | some r =>
    simp only
    cases startingValue? r.type r.value with
    | none => rfl
    | some value => exact run_pushInPlace _ d es

theorem run_openArgumentInPlace (d : Draft) (functionName argument : String) (es : Editors) :
    run (openArgumentInPlace d functionName argument) es =
      outcome es (es.openArgument d functionName argument) := by
  rw [openArgumentInPlace, openArgument]
  cases d.modules.contains .argumentList with
  | false => rfl
  | true =>
    simp only [Bool.not_true, Bool.false_eq_true, if_false]
    cases d.modules.slot? functionName argument with
    | none => rfl
    | some slot =>
      simp only
      cases startingValue? slot.type slot.value with
      | none => rfl
      | some value => exact run_pushInPlace _ d es

theorem run_openFieldInPlace (d : Draft) (parent : String) (key : FieldKey) (es : Editors) :
    run (openFieldInPlace d parent key) es = outcome es (es.openField d parent key) := by
  simp only [openFieldInPlace, openField, run_bind, run_get]
  cases es.frame? parent with
  | none => rfl
  | some f =>
    simp only
    cases key.get? f.value with
    | none => rfl
    | some field =>
      simp only
      cases field.isComposite with
      | false => rfl
      | true => exact run_pushInPlace _ d es

theorem run_siftInPlace (stands : List Frame → Frame → Bool) (es : Editors) :
    run (siftInPlace stands : InPlace ε Editors (List String)) es =
      (.ok (sift stands es.frames).2, { es with frames := (sift stands es.frames).1 }) := rfl

theorem run_reconcileInPlace (d : Draft) (es : Editors) :
    run (reconcileInPlace d : InPlace ε Editors (List String)) es =
      (.ok (es.reconcile d).2, (es.reconcile d).1) := rfl

theorem run_setValueInPlace (label : String) (value : Json) (es : Editors) :
    run (setValueInPlace label value) es =
      outcome es ((es.setValue label value).map fun next => ((), next)) := by
  simp only [setValueInPlace, setValue, run_bind, run_get, run_ite, run_throw, run_modify, run_pure,
    run_siftInPlace]
  cases opened : es.frame? label with
  | none => rfl
  | some f =>
    simp only [Option.isNone_some, Bool.false_eq_true, if_false, Option.isSome_some, if_true]
    -- the tab is written only if its editor was closed
    cases es.selected.any (sift fieldStands (modifyFirst label (fun f => { f with value })
      es.frames)).2.contains <;> rfl

theorem run_commitInPlace (label : String) (value : Json) (d : Draft) (ctx : Context)
    (es : Editors) :
    run (commitInPlace label value d ctx) es = outcome es (es.commit label value d ctx) := by
  simp only [commitInPlace, commitTarget, commit, run_bind, run_get]
  cases es.frame? label with
  | none => rfl
  | some f =>
    simp only [run_bind, run_closeInPlace, run_pure]
    cases f.target with
    | returnValue =>
      simp only
      cases d.modules.returnValue with
      | none => rfl
      | some r =>
        simp only [run_ofExcept]
        cases d.apply ctx (.updateReturnValue (.ofTyped r.type (some value))) <;> rfl
    | argument functionName argument =>
      simp only
      cases d.modules.slot? functionName argument with
      | none => rfl
      | some slot =>
        simp only [run_ofExcept]
        cases d.apply ctx (.changeArgument (slot.withValue slot.type (some value))) <;> rfl
    | field key =>
      simp only [run_bind, run_get]
      cases es.frame? f.parent with
      | none => rfl
      | some p =>
        simp only
        cases key.get? p.value with
        | none => rfl
        | some old =>
          simp only
          cases old.isComposite <;> rfl

end Editors

end Fixture
