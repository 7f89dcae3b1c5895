import Fixture.Proofs.Session.Live

/-!
The draft of a session changes by commands only. What some operations make of the draft is what the
commands that they contribute make of it, one after the other.
-/

namespace Fixture

def Draft.applyAll (ctx : Context) (d : Draft) (commands : List Command) : Draft :=
  commands.foldl (fun d c => ((d.apply ctx c).toOption).getD d) d

def DispatchError.inSession : DispatchError → SessionError
  | .command e => .command e
  | .refused e => .refused e

namespace Session

def rootCommand? (s : Session) (label : String) : Option Command :=
  (s.editors.frame? label).bind fun f =>
    match f.target with
    | .returnValue =>
      s.draft.modules.returnValue.map fun r => .updateReturnValue ⟨r.type, some f.value⟩
    | .argument functionName argument =>
      (s.draft.modules.slot? functionName argument).map fun slot =>
        .changeArgument { slot with value := some f.value }
    | .field _ => none

/-- The command that an operation contributes: its own, or that of a root which it commits. -/
def contribution? (s : Session) : Operation → Option Command
  | .run c => some c
  | .dispatch envelope =>
    match Command.ofEnvelope envelope with
    | .ok (.command c) => some c
    | _ => none
  | .commit label => (s.commit label).toOption.bind fun _ => s.rootCommand? label
  | _ => none

def contributions (s : Session) : List Operation → List Command
  | [] => []
  | op :: ops => (s.contribution? op).toList ++ (s.after op).contributions ops

end Session

/-- The commands that an operation may contribute: its own, or one for a single payload. -/
inductive Operation.Contributes : Operation → Command → Prop where
  | run (c : Command) : Contributes (.run c) c
  | dispatch {envelope : Json} {c : Command}
      (parsed : Command.ofEnvelope envelope = .ok (.command c)) :
      Contributes (.dispatch envelope) c
  | returnValue (label : String) (r : ReturnValue) :
      Contributes (.commit label) (.updateReturnValue r)
  | argument (label : String) (slot : Slot) : Contributes (.commit label) (.changeArgument slot)

theorem Session.contributes {s : Session} {op : Operation} {c : Command}
    (contributed : s.contribution? op = some c) : op.Contributes c := by
  cases op with
  | run own =>
    obtain rfl := Option.some.inj contributed
    exact .run own
  | dispatch envelope =>
    rw [contribution?] at contributed
    split at contributed
    next own parsed =>
      obtain rfl := Option.some.inj contributed
      exact .dispatch parsed
    next => cases contributed
  | commit label =>
    obtain ⟨-, -, root⟩ := Option.bind_eq_some_iff.1 contributed
    obtain ⟨f, -, given⟩ := Option.bind_eq_some_iff.1 root
    cases target : f.target with
    | returnValue =>
      rw [target] at given
      obtain ⟨r, -, rfl⟩ := Option.map_eq_some_iff.1 given
      exact .returnValue label _
    | argument functionName argument =>
      rw [target] at given
      obtain ⟨slot, -, rfl⟩ := Option.map_eq_some_iff.1 given
      exact .argument label _
    | field key =>
      rw [target] at given
      cases given
  | _ => cases contributed

namespace Draft

variable {d next : Draft} {ctx : Context}

theorem applyAll_append (ctx : Context) (d : Draft) (commands more : List Command) :
    d.applyAll ctx (commands ++ more) = (d.applyAll ctx commands).applyAll ctx more :=
  List.foldl_append

theorem applyAll_of_ok {c : Command} (applied : d.apply ctx c = .ok next) :
    d.applyAll ctx [c] = next := by
  show ((d.apply ctx c).toOption).getD d = next
  rw [applied]
  rfl

theorem applyAll_of_refused {c : Command} (refused : (d.apply ctx c).toOption = none) :
    d.applyAll ctx [c] = d := by
  show ((d.apply ctx c).toOption).getD d = d
  rw [refused]
  rfl

/-- A command may leave it to its effect to drop a value that does not go with the type. -/
theorem updateReturnValue_ofTyped (d : Draft) (type : TypeTag) (value : Option Json) :
    d.updateReturnValue (.ofTyped type value) = d.updateReturnValue ⟨type, value⟩ := by
  rw [updateReturnValue, updateReturnValue, ReturnValue.normalized_ofTyped]
  rfl

theorem changeArgument_withValue (d : Draft) (slot : Slot) (value : Option Json) :
    d.changeArgument (slot.withValue slot.type value) =
      d.changeArgument { slot with value } := by
  rw [changeArgument, changeArgument, Slot.normalized_withValue]
  rfl

end Draft

namespace Session

variable {s t : Session}

theorem draft_commit {label : String} {f : Frame} {d : Draft} {editors : Editors}
    (found : s.editors.frame? label = some f)
    (committed : s.editors.commit label f.value s.draft s.context = .ok (d, editors)) :
    s.draft.applyAll s.context (s.contribution? (.commit label)).toList = d := by
  have accepted : s.contribution? (.commit label) = s.rootCommand? label := by
    simp only [contribution?, commit, found, committed]
    rfl
  rw [accepted]
  obtain ⟨g, same, result⟩ := Editors.commit_inv committed
  obtain rfl := Option.some.inj (found.symm.trans same)
  cases result with
  | returnValue target typed applied =>
    simp only [rootCommand?, found, target, typed, Option.bind_some, Option.map_some,
      Option.toList_some]
    refine Draft.applyAll_of_ok ((?_ : s.draft.apply s.context _ = _).trans applied)
    exact (s.draft.updateReturnValue_ofTyped _ _).symm
  | argument target typed applied =>
    simp only [rootCommand?, found, target, typed, Option.bind_some, Option.map_some,
      Option.toList_some]
    refine Draft.applyAll_of_ok ((?_ : s.draft.apply s.context _ = _).trans applied)
    exact (s.draft.changeArgument_withValue _ _).symm
  | field target parent here composite =>
    simp only [rootCommand?, found, target, Option.bind_some, Option.toList_none]
    rfl

theorem draft_step {op : Operation} (unsaved : ∀ saved, op ≠ .markPersisted saved)
    (done : s.Step op t) :
    t.draft = s.draft.applyAll s.context (s.contribution? op).toList ∧
      t.function = s.function ∧ t.persisted = s.persisted := by
  cases done with
  | run applied => exact ⟨(Draft.applyAll_of_ok applied).symm, rfl, rfl⟩
  | ignored parsed => exact ⟨by simp only [contribution?, parsed]; rfl, rfl, rfl⟩
  | dispatch parsed applied =>
    refine ⟨?_, rfl, rfl⟩
    simp only [contribution?, parsed]
    exact (Draft.applyAll_of_ok applied).symm
  | markPersisted saved => exact absurd rfl (unsaved saved)
  | commit found committed => exact ⟨(draft_commit found committed).symm, rfl, rfl⟩
  | _ => exact ⟨rfl, rfl, rfl⟩

theorem draft_refused {op : Operation} (refused : s.step? op = none) :
    s.draft.applyAll s.context (s.contribution? op).toList = s.draft := by
  have ineffective (c : Command) (none_after : (s.run c).toOption = none) :
      s.draft.applyAll s.context [c] = s.draft := by
    refine Draft.applyAll_of_refused ?_
    rw [run] at none_after
    cases applied : s.draft.apply s.context c with
    | ok d => simp [applied, Except.toOption] at none_after
    | error e => rfl
  cases op with
  | run c => exact ineffective c refused
  | dispatch envelope =>
    rw [step?, dispatch] at refused
    rw [contribution?]
    cases parsed : Command.ofEnvelope envelope with
    | error e => rfl
    | ok content =>
      cases content with
      | ignored kind => rfl
      | command c =>
        simp only [parsed] at refused
        exact ineffective c refused
  | commit label =>
    have none_after : (s.commit label).toOption = none := refused
    rw [contribution?, none_after]
    rfl
  | _ => rfl

theorem draft_after (s : Session) {op : Operation} (unsaved : ∀ saved, op ≠ .markPersisted saved) :
    (s.after op).draft = s.draft.applyAll s.context (s.contribution? op).toList ∧
      (s.after op).function = s.function ∧ (s.after op).persisted = s.persisted := by
  rcases s.after_cases op with done | ⟨refused, same⟩
  · exact draft_step unsaved done
  · rw [same]
    exact ⟨(draft_refused refused).symm, rfl, rfl⟩

/-- The draft either stays or is what a command that is contributed makes of it. -/
theorem draft_after_cases (s : Session) {op : Operation}
    (unsaved : ∀ saved, op ≠ .markPersisted saved) :
    (s.after op).draft = s.draft ∨
      ∃ c, op.Contributes c ∧ s.draft.apply s.context c = .ok (s.after op).draft := by
  have draft := (s.draft_after unsaved).1
  cases contributed : s.contribution? op with
  | none =>
    rw [contributed] at draft
    exact .inl draft
  | some c =>
    rw [contributed, Option.toList_some] at draft
    cases applied : s.draft.apply s.context c with
    | ok next =>
      rw [Draft.applyAll_of_ok applied] at draft
      exact .inr ⟨c, contributes contributed, by rw [applied, draft]⟩
    | error e =>
      have refused : (s.draft.apply s.context c).toOption = none := by rw [applied]; rfl
      rw [Draft.applyAll_of_refused refused] at draft
      exact .inl draft

theorem function_after (s : Session) (op : Operation) : (s.after op).function = s.function := by
  by_cases saves : ∃ saved, op = .markPersisted saved
  · obtain ⟨saved, rfl⟩ := saves
    rfl
  · exact (s.draft_after fun saved same => saves ⟨saved, same⟩).2.1

structure EachDraft (holds : Draft → Prop) (s : Session) : Prop where
  draft : holds s.draft
  persisted : ∀ saved, s.persisted = some saved → holds saved

theorem EachDraft.after {holds : Draft → Prop} {op : Operation} (each : s.EachDraft holds)
    (saves : ∀ saved, op = .markPersisted saved → holds saved)
    (applies : ∀ c next, op.Contributes c → s.draft.apply s.context c = .ok next → holds next) :
    (s.after op).EachDraft holds := by
  by_cases taken : ∃ saved, op = .markPersisted saved
  · obtain ⟨saved, rfl⟩ := taken
    refine ⟨saves saved rfl, fun last given => ?_⟩
    obtain rfl := Option.some.inj given
    exact saves saved rfl
  · have unsaved : ∀ saved, op ≠ .markPersisted saved := fun saved same => taken ⟨saved, same⟩
    constructor
    · rcases s.draft_after_cases unsaved with same | ⟨c, contributes, applied⟩
      · rw [same]
        exact each.draft
      · exact applies c _ contributes applied
    · rw [(s.draft_after unsaved).2.2]
      exact each.persisted

/-- The commands of operations that do not take a draft as saved tell what becomes of the draft. The
function and the saved draft stay. An envelope has the same effect in the session as on the draft
alone, and is refused for the same reason. -/
theorem draft_changes_by_commands (s : Session) :
    (∀ ops : List Operation, (∀ saved, Operation.markPersisted saved ∉ ops) →
      (s.afterAll ops).draft = s.draft.applyAll s.context (s.contributions ops) ∧
        (s.afterAll ops).function = s.function ∧ (s.afterAll ops).persisted = s.persisted) ∧
    ∀ envelope : Json, (s.dispatch envelope).map Session.draft =
      (s.draft.dispatch s.context envelope).mapError DispatchError.inSession := by
  constructor
  · intro ops unsaved
    induction ops generalizing s with
    | nil => exact ⟨rfl, rfl, rfl⟩
    | cons op ops ih =>
      obtain ⟨draft, function, persisted⟩ :=
        s.draft_after fun saved same => unsaved saved (same ▸ List.mem_cons_self)
      obtain ⟨draftAll, functionAll, persistedAll⟩ :=
        ih (s.after op) fun saved member => unsaved saved (List.mem_cons_of_mem op member)
      have context : (s.after op).context = s.context := by
        rw [Session.context, function, persisted]
        rfl
      refine ⟨?_, functionAll.trans function, persistedAll.trans persisted⟩
      calc (s.afterAll (op :: ops)).draft
          = (s.after op).draft.applyAll (s.after op).context ((s.after op).contributions ops) :=
            draftAll
        _ = (s.draft.applyAll s.context (s.contribution? op).toList).applyAll s.context
              ((s.after op).contributions ops) := by rw [draft, context]
        _ = s.draft.applyAll s.context (s.contributions (op :: ops)) :=
            (Draft.applyAll_append _ _ _ _).symm
  · intro envelope
    rw [dispatch, Draft.dispatch]
    cases Command.ofEnvelope envelope with
    | error e => rfl
    | ok content =>
      cases content with
      | ignored kind => rfl
      | command c =>
        simp only [run]
        cases s.draft.apply s.context c <;> rfl

theorem draft_changes_by_commands_nested :
    let commits : List Operation :=
      [.commit "Return value[\"a.b\"][0]", .commit "Return value[\"a.b\"]", .commit "Return value"]
    (nested.contributions commits).length = 1 ∧
      (nested.afterAll commits).draft =
        nested.draft.applyAll nested.context (nested.contributions commits) := by
  intro commits
  have unsaved : ∀ saved, Operation.markPersisted saved ∉ commits := by simp [commits]
  exact ⟨by decide, ((draft_changes_by_commands nested).1 commits unsaved).1⟩

end Session

end Fixture
