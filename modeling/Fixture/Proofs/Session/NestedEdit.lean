import Fixture.Proofs.Editor.Last
import Fixture.Proofs.Session.Live

/-!
Editing a place within the return value or an argument. Editors are opened one below the other along
a path, the last one gets a value, and all are committed, the innermost first. What this does to the
draft is to replace the value at the end of the path.
-/

namespace Fixture

open Editors

namespace Session

/-- Opens the editors along a path below an open one, puts a value into the last of them, and
commits those that were opened, the innermost first. -/
def fill (s : Session) (label : String) (value : Json) : List String → Except SessionError Session
  | [] => s.setValue label value
  | key :: keys => do
    let (f, s) ← s.openField label key
    let s ← s.fill f.label value keys
    s.commit f.label

/-- Fills the place that a path leads to from an editor just opened, which is committed last. -/
def edit (opened : Except SessionError (Frame × Session)) (keys : List String) (value : Json) :
    Except SessionError Session := do
  let (f, s) ← opened
  let s ← s.fill f.label value keys
  s.commit f.label

theorem edit_ok {opened : Except SessionError (Frame × Session)} {f : Frame} {s t u : Session}
    {keys : List String} {value : Json} (opens : opened = .ok (f, s))
    (filled : s.fill f.label value keys = .ok t) (committed : t.commit f.label = .ok u) :
    edit opened keys value = .ok u := by
  unfold edit
  rw [opens]
  show (s.fill f.label value keys >>= fun s => s.commit f.label) = .ok u
  rw [filled]
  exact committed

variable {s : Session} {front : List Frame} {f : Frame}

theorem Live.fill_ok (live : s.Live) (last : s.editors.frames = front ++ [f]) {keys : List String}
    (along : Json.CompositeAlong keys f.value) (value : Json) :
    ∃ t, s.fill f.label value keys = .ok t ∧ t.Live ∧ t.draft = s.draft ∧
      t.editors.frames = front ++ [{ f with value := Json.replaceAt keys value f.value }] := by
  induction keys generalizing s front f with
  | nil =>
    obtain ⟨editors, set, frames⟩ := Forest.setValue_last live last value
    refine ⟨{ s with editors }, ?_, Forest.setValue live set, rfl, frames⟩
    simp only [fill, setValue, set]
  | cons key keys ih =>
    obtain ⟨field, found, composite, below⟩ := along.tail
    have present := Forest.frame?_last live last
    -- the editor of the field comes last
    obtain ⟨opened, opens, frames⟩ := Forest.openField_last live last found composite
    have inner : Session.Live { s with editors := opened } := Forest.openField live opens
    obtain ⟨t, filled, liveT, draft, framesT⟩ := ih inner frames below
    -- its commit puts the field back into the value above
    obtain ⟨closed, committed, framesC⟩ := Forest.commit_last liveT framesT rfl rfl found composite
      (Json.replaceAt keys value field) t.context
    obtain ⟨commits, liveC⟩ := liveT.commit_ok (Forest.frame?_last liveT framesT) committed
    refine ⟨_, ?_, liveC, draft, ?_⟩
    · show edit (s.openField f.label key) keys value = _
      refine edit_ok ?_ filled commits
      simp only [openField, present, withEditors, opens]
    · simp only [framesC, Json.replaceAt, found]

theorem Live.edit_last (live : s.Live) (last : s.editors.frames = front ++ [f])
    {keys : List String} (along : Json.CompositeAlong keys f.value) (value : Json) {d : Draft}
    (commits : ∀ es : Editors, Forest s.draft es.frames →
      es.frames = front ++ [{ f with value := Json.replaceAt keys value f.value }] →
      ∀ ctx, ∃ next, es.commit f.label (Json.replaceAt keys value f.value) s.draft ctx =
        .ok (d, next) ∧ next.frames = front) :
    ∃ t, edit (.ok (f, s)) keys value = .ok t ∧ t.draft = d ∧ t.editors.frames = front := by
  obtain ⟨t, filled, liveT, draft, frames⟩ := live.fill_ok last along value
  have forest : Forest s.draft t.editors.frames := draft ▸ liveT
  obtain ⟨next, committed, closed⟩ := commits t.editors forest frames t.context
  rw [← draft] at committed
  obtain ⟨result, -⟩ := liveT.commit_ok (Forest.frame?_last liveT frames) committed
  exact ⟨_, edit_ok rfl filled result, rfl, closed⟩

/-- Editing a place within the return value, or within an argument, of a session that can come about
succeeds at every step. The new value is in its place, the rest of the draft is as it was, and of
the open editors only those of the edited tree are gone. -/
theorem nested_edit_replaces {s : Session} (reachable : s.Reachable) (keys : List String)
    (value : Json) :
    (∀ r, s.draft.modules.returnValue = some r → r.type.isComposite = true →
      Json.CompositeAlong keys (r.type.start r.value) →
      ∃ t, edit s.openReturnValue keys value = .ok t ∧
        t.draft = { s.draft with modules := { s.draft.modules with
          returnValue := some
            ⟨r.type, some (Json.replaceAt keys value (r.type.start r.value))⟩ } } ∧
        t.editors.frames = s.editors.frames.filter fun f => !f.inTree .returnValue) ∧
    ∀ before slot after, s.draft.modules.argumentList = some (before ++ slot :: after) →
      (∀ other ∈ before, other.key ≠ slot.key) → slot.type.isComposite = true →
      Json.CompositeAlong keys (slot.type.start slot.value) →
      ∃ t, edit (s.openArgument slot.functionName slot.argument) keys value = .ok t ∧
        t.draft = { s.draft with modules := { s.draft.modules with
          argumentList := some (before ++
            { slot with
              value := some (Json.replaceAt keys value (slot.type.start slot.value)) } ::
              after) } } ∧
        t.editors.frames = s.editors.frames.filter fun f => !f.inTree .argument := by
  have forest : Forest s.draft s.editors.frames := reachable.live
  constructor
  · intro r found composite along
    obtain ⟨next, f, opens, target, start, frames⟩ := forest.openReturnValue_root found composite
    have live : Session.Live { s with editors := next } := Forest.openReturnValue forest opens
    rw [← start] at along ⊢
    have opened : s.openReturnValue = .ok (f, { s with editors := next }) := by
      simp only [openReturnValue, withEditors, opens]
    rw [opened]
    exact live.edit_last frames along value fun es forest' last ctx =>
      forest'.commit_returnValue_last last target found composite _ ctx
  · intro before slot after listed others composite along
    have found := Modules.slot?_eq_some listed others
    obtain ⟨next, f, opens, target, start, frames⟩ := forest.openArgument_root found composite
    have live : Session.Live { s with editors := next } := Forest.openArgument forest opens
    rw [← start] at along ⊢
    have opened : s.openArgument slot.functionName slot.argument =
        .ok (f, { s with editors := next }) := by
      simp only [openArgument, withEditors, opens]
    rw [opened]
    exact live.edit_last frames along value fun es forest' last ctx =>
      forest'.commit_argument_last last target listed others composite _ ctx

def saved : Session :=
  (ofPersisted { pathToProject := "/p", fileId := "a.js", functionId := "f" } {
    pathToProject := "/p"
    fileId := "a.js"
    functionId := "f"
    modules := {
      argumentList := some [{ functionName := "f", argument := "x" },
        { functionName := "f", argument := "y", type := .array, value := some (.bool true) }]
      returnValue := some ⟨.object, some (.obj [("list", .arr [.null, .obj []])])⟩ } })

theorem nested_edit_replaces_saved :
    saved.Reachable ∧
    (∃ t, edit saved.openReturnValue ["list", "+1"] (.str "new") = .ok t ∧
      t.draft.modules.returnValue =
        some ⟨.object, some (.obj [("list", .arr [.null, .str "new"])])⟩) ∧
    ∃ t, edit (saved.openArgument "f" "y") [] (.arr [.null]) = .ok t ∧
      (t.draft.modules.slot? "f" "y").map Slot.value = some (some (.arr [.null])) := by
  have reachable : saved.Reachable := .ofPersisted _ _
  refine ⟨reachable, ?_, ?_⟩
  · obtain ⟨onReturnValue, -⟩ := nested_edit_replaces reachable ["list", "+1"] (.str "new")
    obtain ⟨t, edited, draft, -⟩ := onReturnValue _ rfl rfl (by decide)
    refine ⟨t, edited, ?_⟩
    rw [draft]
    rfl
  · obtain ⟨-, onArgument⟩ := nested_edit_replaces reachable [] (.arr [.null])
    obtain ⟨t, edited, draft, -⟩ :=
      onArgument [{ functionName := "f", argument := "x" }]
        { functionName := "f", argument := "y", type := .array, value := some (.bool true) } []
        rfl (by decide) rfl (by decide)
    refine ⟨t, edited, ?_⟩
    rw [draft]
    rfl

end Session

end Fixture
