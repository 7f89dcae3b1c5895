import Fixture.Proofs.Draft.Change
import Fixture.Session.Operation

/-!
What an operation of a session does if it is not refused, one case for each operation. A command
replaces the draft, all other operations but the commit of an editor change editors only.
-/

namespace Fixture

namespace Session

variable {s t : Session}

theorem run_inv {c : Command} (ran : s.run c = .ok t) :
    ∃ d, s.draft.apply s.context c = .ok d ∧ t = s.replaceDraft d := by
  rw [run] at ran
  split at ran
  next d applied => exact ⟨d, applied, (Except.ok.inj ran).symm⟩
  · cases ran

theorem dispatch_inv {envelope : Json} (dispatched : s.dispatch envelope = .ok t) :
    (∃ kind, Command.ofEnvelope envelope = .ok (.ignored kind) ∧ t = s) ∨
      ∃ c, Command.ofEnvelope envelope = .ok (.command c) ∧ s.run c = .ok t := by
  rw [dispatch] at dispatched
  split at dispatched
  · cases dispatched
  next kind parsed => exact .inl ⟨kind, parsed, (Except.ok.inj dispatched).symm⟩
  next c parsed => exact .inr ⟨c, parsed, dispatched⟩

theorem withEditors_inv {α : Type} {result : Except EditorError (α × Editors)} {a : α}
    (changed : s.withEditors result = .ok (a, t)) :
    ∃ editors, result = .ok (a, editors) ∧ t = { s with editors } := by
  cases result with
  | error e => cases changed
  | ok pair =>
    obtain ⟨rfl, rfl⟩ := Prod.mk.inj (Except.ok.inj changed)
    exact ⟨pair.2, rfl, rfl⟩

theorem openField_inv {parent key : String} {f : Frame}
    (opened : s.openField parent key = .ok (f, t)) :
    ∃ p editors, s.editors.frame? parent = some p ∧
      s.editors.openField s.draft parent (FieldKey.ofRaw p.value key) = .ok (f, editors) ∧
      t = { s with editors } := by
  rw [openField] at opened
  split at opened
  · cases opened
  next p found =>
    obtain ⟨editors, inner, rfl⟩ := withEditors_inv opened
    exact ⟨p, editors, found, inner, rfl⟩

theorem setValue_inv {label : String} {value : Json} (set : s.setValue label value = .ok t) :
    ∃ editors, s.editors.setValue label value = .ok editors ∧ t = { s with editors } := by
  rw [setValue] at set
  split at set
  next editors inner => exact ⟨editors, inner, (Except.ok.inj set).symm⟩
  · cases set

theorem commit_inv {label : String} (committed : s.commit label = .ok t) :
    ∃ f d editors, s.editors.frame? label = some f ∧
      s.editors.commit label f.value s.draft s.context = .ok (d, editors) ∧
      t = { s with editors }.replaceDraft d := by
  rw [commit] at committed
  split at committed
  · cases committed
  next f found =>
    split at committed
    next d editors inner => exact ⟨f, d, editors, found, inner, (Except.ok.inj committed).symm⟩
    · cases committed

theorem close?_inv {label : String} {f : Frame} (closed : s.close? label = some (f, t)) :
    ∃ editors, s.editors.close? label = some (f, editors) ∧ t = { s with editors } := by
  rw [close?, Option.map_eq_some_iff] at closed
  obtain ⟨⟨g, editors⟩, inner, same⟩ := closed
  obtain ⟨rfl, rfl⟩ := Prod.mk.inj same
  exact ⟨editors, inner, rfl⟩

inductive Step (s : Session) : Operation → Session → Prop where
  | run {c : Command} {d : Draft} (applied : s.draft.apply s.context c = .ok d) :
      Step s (.run c) (s.replaceDraft d)
  | ignored {envelope : Json} {kind : String}
      (parsed : Command.ofEnvelope envelope = .ok (.ignored kind)) : Step s (.dispatch envelope) s
  | dispatch {envelope : Json} {c : Command} {d : Draft}
      (parsed : Command.ofEnvelope envelope = .ok (.command c))
      (applied : s.draft.apply s.context c = .ok d) : Step s (.dispatch envelope) (s.replaceDraft d)
  | markPersisted (saved : Draft) :
      Step s (.markPersisted saved) ({ s with persisted := some saved }.replaceDraft saved)
  | openReturnValue {f : Frame} {editors : Editors}
      (opened : s.editors.openReturnValue s.draft = .ok (f, editors)) :
      Step s .openReturnValue { s with editors }
  | openArgument {functionName argument : String} {f : Frame} {editors : Editors}
      (opened : s.editors.openArgument s.draft functionName argument = .ok (f, editors)) :
      Step s (.openArgument functionName argument) { s with editors }
  | openField {parent key : String} {p f : Frame} {editors : Editors}
      (found : s.editors.frame? parent = some p)
      (opened : s.editors.openField s.draft parent (FieldKey.ofRaw p.value key) =
        .ok (f, editors)) : Step s (.openField parent key) { s with editors }
  | setValue {label : String} {value : Json} {editors : Editors}
      (set : s.editors.setValue label value = .ok editors) :
      Step s (.setValue label value) { s with editors }
  | commit {label : String} {f : Frame} {d : Draft} {editors : Editors}
      (found : s.editors.frame? label = some f)
      (committed : s.editors.commit label f.value s.draft s.context = .ok (d, editors)) :
      Step s (.commit label) ({ s with editors }.replaceDraft d)
  | close {label : String} {f : Frame} {editors : Editors}
      (closed : s.editors.close? label = some (f, editors)) : Step s (.close label) { s with editors }
  | select (key : String) : Step s (.select key) { s with editors := s.editors.select key }

theorem step?_inv {op : Operation} (done : s.step? op = some t) : s.Step op t := by
  cases op with
  | run c =>
    obtain ⟨d, applied, rfl⟩ := run_inv (ok_of_toOption done)
    exact .run applied
  | dispatch envelope =>
    rcases dispatch_inv (ok_of_toOption done) with ⟨kind, parsed, rfl⟩ | ⟨c, parsed, ran⟩
    · exact .ignored parsed
    · obtain ⟨d, applied, rfl⟩ := run_inv ran
      exact .dispatch parsed applied
  | markPersisted saved =>
    obtain rfl := Option.some.inj done
    exact .markPersisted saved
  | openReturnValue =>
    obtain ⟨⟨f, u⟩, present, rfl⟩ := Option.map_eq_some_iff.1 done
    obtain ⟨editors, opened, rfl⟩ := withEditors_inv (ok_of_toOption present)
    exact .openReturnValue opened
  | openArgument functionName argument =>
    obtain ⟨⟨f, u⟩, present, rfl⟩ := Option.map_eq_some_iff.1 done
    obtain ⟨editors, opened, rfl⟩ := withEditors_inv (ok_of_toOption present)
    exact .openArgument opened
  | openField parent key =>
    obtain ⟨⟨f, u⟩, present, rfl⟩ := Option.map_eq_some_iff.1 done
    obtain ⟨p, editors, found, opened, rfl⟩ := openField_inv (ok_of_toOption present)
    exact .openField found opened
  | setValue label value =>
    obtain ⟨editors, set, rfl⟩ := setValue_inv (ok_of_toOption done)
    exact .setValue set
  | commit label =>
    obtain ⟨f, d, editors, found, committed, rfl⟩ := commit_inv (ok_of_toOption done)
    exact .commit found committed
  | close label =>
    obtain ⟨⟨f, u⟩, present, rfl⟩ := Option.map_eq_some_iff.1 done
    obtain ⟨editors, closed, rfl⟩ := close?_inv present
    exact .close closed
  | select key =>
    obtain rfl := Option.some.inj done
    exact .select key

theorem after_cases (s : Session) (op : Operation) :
    s.Step op (s.after op) ∨ s.step? op = none ∧ s.after op = s := by
  cases done : s.step? op with
  | none => exact .inr ⟨rfl, by rw [after, done]; rfl⟩
  | some t =>
    left
    rw [after, done]
    exact step?_inv done

theorem step?_eq (s : Session) (op : Operation) :
    s.step? op = (s.result op).toOption.map (·.2) := by
  cases op with
  | run c => cases given : s.run c <;> simp only [step?, result, given] <;> rfl
  | dispatch envelope =>
    cases given : s.dispatch envelope <;> simp only [step?, result, given] <;> rfl
  | openReturnValue => cases given : s.openReturnValue <;> simp only [step?, result, given] <;> rfl
  | openArgument functionName argument =>
    cases given : s.openArgument functionName argument <;> simp only [step?, result, given] <;> rfl
  | openField parent key =>
    cases given : s.openField parent key <;> simp only [step?, result, given] <;> rfl
  | setValue label value =>
    cases given : s.setValue label value <;> simp only [step?, result, given] <;> rfl
  | commit label => cases given : s.commit label <;> simp only [step?, result, given] <;> rfl
  | close label => cases given : s.close? label <;> simp only [step?, result, given] <;> rfl
  | _ => rfl

theorem after_eq (s : Session) (op : Operation) :
    s.after op = match s.result op with
      | .ok (_, t) => t
      | .error _ => s := by
  rw [after, step?_eq]
  cases s.result op <;> rfl

end Session

end Fixture
