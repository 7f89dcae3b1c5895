import Fixture.Proofs.Command.Envelope
import Fixture.Proofs.Editor.Values
import Fixture.Proofs.Session.Step

/-!
The values of a session: those of its draft, of the draft as last saved, and of the open editors.
What editing keeps holds of all of them after any operations, if it holds of the values that the
operations bring in.
-/

namespace Fixture

open Json

variable {P Q : Json → Prop}

namespace Session

structure Values (P : Json → Prop) (s : Session) : Prop where
  draft : s.draft.Values P
  persisted : ∀ saved ∈ s.persisted, saved.Values P
  editors : s.editors.Values P

variable {s t : Session}

theorem values_fresh (f : AnalyzedFunction) : (fresh f).Values P where
  draft := Modules.values_default f
  persisted := by rintro saved ⟨⟩
  editors := fun _ member => nomatch member

theorem values_ofPersisted (f : AnalyzedFunction) {saved : Draft} (values : saved.Values P) :
    (ofPersisted f saved).Values P where
  draft := values
  persisted := by
    rintro d ⟨⟩
    exact values
  editors := fun _ member => nomatch member

end Session

namespace Operation

def Values (P : Json → Prop) : Operation → Prop
  | .run c => c.Values P
  | .dispatch envelope => ∀ c, Command.ofEnvelope envelope = .ok (.command c) → c.Values P
  | .markPersisted saved => saved.Values P
  | .setValue _ value => P value
  | _ => True

end Operation

namespace Session

variable {s t : Session}

theorem Values.replaceDraft (values : s.Values P) {d : Draft} (draft : d.Values P) :
    (s.replaceDraft d).Values P where
  draft := draft
  persisted := values.persisted
  editors := values.editors.reconcile d

theorem Values.withEditors (values : s.Values P) {editors : Editors} (given : editors.Values P) :
    Session.Values P { s with editors } where
  draft := values.draft
  persisted := values.persisted
  editors := given

theorem Values.apply {c : Command} {d : Draft} (values : s.Values P) (given : c.Values P)
    (applied : s.draft.apply s.context c = .ok d) : (s.replaceDraft d).Values P :=
  values.replaceDraft (values.draft.apply values.persisted given applied)

theorem Values.step {op : Operation} (values : s.Values P) (editable : Editable P)
    (given : op.Values P) (done : s.Step op t) : t.Values P := by
  cases done with
  | run applied => exact values.apply given applied
  | ignored parsed => exact values
  | dispatch parsed applied => exact values.apply (given _ parsed) applied
  | markPersisted saved =>
    have next : Session.Values P { s with persisted := some saved } := by
      refine ⟨values.draft, ?_, values.editors⟩
      rintro d ⟨⟩
      exact given
    exact next.replaceDraft given
  | openReturnValue opened =>
    exact values.withEditors (values.editors.openReturnValue editable values.draft opened)
  | openArgument opened =>
    exact values.withEditors (values.editors.openArgument editable values.draft opened)
  | openField found opened => exact values.withEditors (values.editors.openField editable opened)
  | setValue set => exact values.withEditors (values.editors.setValue given set)
  | commit found committed =>
    obtain ⟨draft, editors⟩ :=
      values.editors.commit editable values.draft (values.editors.frame found).value committed
    exact (values.withEditors editors).replaceDraft draft
  | close closed =>
    obtain ⟨-, rfl⟩ := Editors.close?_inv closed
    exact values.withEditors (values.editors.without _)
  | select key => exact values.withEditors values.editors

theorem Values.after {op : Operation} (values : s.Values P) (editable : Editable P)
    (given : op.Values P) : (s.after op).Values P := by
  rcases s.after_cases op with done | ⟨-, same⟩
  · exact values.step editable given done
  · rwa [same]

theorem Values.afterAll {ops : List Operation} (values : s.Values P) (editable : Editable P)
    (given : ∀ op ∈ ops, op.Values P) : (s.afterAll ops).Values P := by
  induction ops generalizing s with
  | nil => exact values
  | cons op ops ih =>
    obtain ⟨first, later⟩ := List.forall_mem_cons.1 given
    exact ih (values.after editable first) later

end Session

end Fixture
