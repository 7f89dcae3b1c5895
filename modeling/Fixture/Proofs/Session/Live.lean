import Fixture.Proofs.Editor.Change
import Fixture.Proofs.Session.Step

/-!
Editors never outlive what they edit. In every session that can come about the open editors form a
forest over the draft, so that reconciling them with the draft closes nothing.
-/

namespace Fixture

open Editors

namespace Session

/-- The editors of a session form a forest over its draft. -/
def Live (s : Session) : Prop := Forest s.draft s.editors.frames

namespace Live

variable {s t : Session}

/-- Another draft closes the editors that it leaves without what they edit. -/
theorem replaceDraft (placed : Placed s.editors.frames) (d : Draft) : (s.replaceDraft d).Live :=
  placed.reconcile d

theorem step {op : Operation} (live : s.Live) (done : s.Step op t) : t.Live := by
  cases done with
  | run applied => exact replaceDraft live.toPlaced _
  | ignored parsed => exact live
  | dispatch parsed applied => exact replaceDraft live.toPlaced _
  | markPersisted saved => exact Placed.reconcile live.toPlaced saved
  | openReturnValue opened => exact Forest.openReturnValue live opened
  | openArgument opened => exact Forest.openArgument live opened
  | openField found opened => exact Forest.openField live opened
  | setValue set => exact Forest.setValue live set
  | commit found committed => exact Placed.reconcile (Forest.commit live committed).toPlaced _
  | close closed =>
    obtain ⟨-, rfl⟩ := Editors.close?_inv closed
    exact Forest.without live _
  | select key => exact live

theorem commit_ok (live : s.Live) {label : String} {f : Frame}
    (found : s.editors.frame? label = some f) {d : Draft} {editors : Editors}
    (committed : s.editors.commit label f.value s.draft s.context = .ok (d, editors)) :
    s.commit label = .ok { s with draft := d, editors } ∧
      Session.Live { s with draft := d, editors } := by
  have forest : Forest d editors.frames := Forest.commit live committed
  have same : { s with editors }.replaceDraft d = { s with draft := d, editors } := by
    rw [Session.replaceDraft, forest.reconcile_eq_self]
  refine ⟨?_, forest⟩
  rw [Session.commit]
  simp only [found, committed, same]

theorem after (live : s.Live) (op : Operation) : (s.after op).Live := by
  rcases s.after_cases op with done | ⟨-, same⟩
  · exact live.step done
  · rwa [same]

end Live

theorem Reachable.afterAll {s : Session} (reachable : s.Reachable) (ops : List Operation) :
    (s.afterAll ops).Reachable := by
  induction ops generalizing s with
  | nil => exact reachable
  | cons op ops ih => exact ih (reachable.after op)

theorem Reachable.live {s : Session} (reachable : s.Reachable) : s.Live := by
  induction reachable with
  | fresh f => exact Forest.nil
  | ofPersisted f saved => exact Forest.nil
  | after op _ ih => exact ih.after op

/-- In every session that can come about the labels of the open editors are distinct, the parent of
each is an enabled module or an editor before it, and what each edits is there and is an array or an
object. So reconciling would close nothing. -/
theorem reachable_editors_stand {s : Session} (reachable : s.Reachable) :
    (s.editors.frames.map Frame.label).Nodup ∧
      (∀ before f after, s.editors.frames = before ++ f :: after →
        ((∃ m ∈ s.draft.modules.enabled, f.parent = m.name) ∨ ∃ p ∈ before, f.parent = p.label) ∧
          f.Stands s.draft before) ∧
      s.editors.reconcile s.draft = (s.editors, []) := by
  have forest : Forest s.draft s.editors.frames := reachable.live
  refine ⟨forest.labels_nodup, fun before f after split => ⟨?_, forest.stand before f after split⟩,
    forest.reconcile_eq_self⟩
  rcases forest.parent split with ⟨m, parent, enabled⟩ | ⟨p, member, parent⟩
  · exact .inl ⟨m, List.mem_filter.2 ⟨m.mem_all, enabled⟩, parent⟩
  · exact .inr ⟨p, member, parent.symm⟩

def nested : Session :=
  (fresh { pathToProject := "/p", fileId := "a.js", functionId := "f" }).afterAll
    [.run (.updateReturnValue ⟨.object, some (.obj [("a.b", .arr [.obj []]), ("c", .arr [])])⟩),
      .openReturnValue, .openField "Return value" "a.b",
      .openField "Return value[\"a.b\"]" "+0"]

theorem nested_reachable : nested.Reachable := (Reachable.fresh _).afterAll _

theorem nested_labels : nested.editors.frames.map Frame.label =
    ["Return value", "Return value[\"a.b\"]", "Return value[\"a.b\"][0]"] := by decide

theorem reachable_editors_stand_nested :
    nested.Reachable ∧ nested.editors.frames.length = 3 ∧
      nested.editors.reconcile nested.draft = (nested.editors, []) :=
  ⟨nested_reachable, by simpa using congrArg List.length nested_labels,
    (reachable_editors_stand nested_reachable).2.2⟩

end Session

end Fixture
