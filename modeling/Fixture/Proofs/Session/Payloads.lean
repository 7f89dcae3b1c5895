import Fixture.Proofs.Draft.Payloads
import Fixture.Proofs.Session.Reduction

/-!
Payloads of a type that carries no value. What editing puts into a draft is put right first, but a
whole draft that is brought in is taken over as it is. So such a payload has a value only if it had
one in a draft that was brought in.
-/

namespace Fixture

def Command.whole? : Command → Option Draft
  | .setDraft whole => some whole
  | _ => none

def Operation.whole? : Operation → Option Draft
  | .run c => c.whole?
  | .dispatch envelope =>
    match Command.ofEnvelope envelope with
    | .ok (.command c) => c.whole?
    | _ => none
  | .markPersisted saved => some saved
  | _ => none

theorem Command.payloads_of_normalized {R : ReturnValue → Prop} {S : Slot → Prop} {c : Command}
    (returned : ∀ r : ReturnValue, R r.normalized) (changed : ∀ s : Slot, S s.normalized)
    (taken : ∀ whole, c.whole? = some whole → whole.modules.Payloads R S) : c.Payloads R S := by
  cases c with
  | setDraft whole => exact taken whole rfl
  | changeArgument slot => exact changed slot
  | updateReturnValue r => exact returned r
  | _ => trivial

/-- A return value of a whole draft that some operations bring in. -/
def ReturnValue.CameIn (r : ReturnValue) (ops : List Operation) : Prop :=
  ∃ op ∈ ops, ∃ whole, op.whole? = some whole ∧ whole.modules.returnValue = some r

def Slot.CameIn (s : Slot) (ops : List Operation) : Prop :=
  ∃ op ∈ ops, ∃ whole, op.whole? = some whole ∧
    ∃ slots, whole.modules.argumentList = some slots ∧ s ∈ slots

theorem Operation.Contributes.whole? {op : Operation} {c : Command} (given : op.Contributes c) :
    op.whole? = c.whole? := by
  cases given with
  | dispatch parsed => rw [Operation.whole?, parsed]
  | _ => rfl

namespace Session

variable {R : ReturnValue → Prop} {S : Slot → Prop} {s t : Session} {op : Operation}

theorem draft_of_whole {whole : Draft} (taken : op.whole? = some whole) :
    (s.after op).draft = whole := by
  have run (c : Command) (given : c.whole? = some whole) : (s.after (.run c)).draft = whole := by
    cases c with
    | setDraft d =>
      obtain rfl := Option.some.inj given
      rfl
    | _ => cases given
  cases op with
  | run c => exact run c taken
  | dispatch envelope =>
    rw [Operation.whole?] at taken
    split at taken
    next c parsed =>
      have same : s.dispatch envelope = s.run c := by rw [dispatch, parsed]
      rw [after, step?, same]
      exact run c taken
    next => cases taken
  | markPersisted saved =>
    obtain rfl := Option.some.inj taken
    rfl
  | _ => cases taken

def Payloads (R : ReturnValue → Prop) (S : Slot → Prop) (s : Session) : Prop :=
  s.EachDraft fun d => d.modules.Payloads R S

variable (returned : ∀ r : ReturnValue, R r.normalized) (changed : ∀ s : Slot, S s.normalized)

include returned changed

theorem payloads_fresh (f : AnalyzedFunction) : (fresh f).Payloads R S where
  draft := Modules.payloads_default f (returned {}) fun functionName argument =>
    changed { functionName, argument }
  persisted := by rintro saved ⟨⟩

/-- What holds of all payloads that were put right is kept as long as it holds of the whole drafts
that are brought in. -/
theorem Payloads.after (payloads : s.Payloads R S)
    (taken : ∀ whole, op.whole? = some whole → whole.modules.Payloads R S) :
    (s.after op).Payloads R S := by
  refine EachDraft.after payloads ?_ fun c next contributes applied => ?_
  · rintro saved rfl
    exact taken saved rfl
  · rw [contributes.whole?] at taken
    exact Draft.payloads_apply (returned {}) (fun _ _ => changed { .. }) payloads.draft
      payloads.persisted (Command.payloads_of_normalized returned changed taken) applied

theorem Payloads.afterAll {ops : List Operation} (payloads : s.Payloads R S)
    (taken : ∀ op ∈ ops, ∀ whole, op.whole? = some whole → whole.modules.Payloads R S) :
    (s.afterAll ops).Payloads R S := by
  induction ops generalizing s with
  | nil => exact payloads
  | cons op ops ih =>
    obtain ⟨here, later⟩ := List.forall_mem_cons.1 taken
    exact ih (payloads.after returned changed here) later

omit returned changed

/-- In all sessions that come about from a new test no payload of a type without a value has one, if
and only if this is so for every whole draft that is brought in. A payload that breaks the rule is
always one of such a draft, as it came in. -/
theorem payloads_fit (f : AnalyzedFunction) (ops : List Operation) :
    ((∀ part, part <+: ops → ((fresh f).afterAll part).draft.modules.Fits) ↔
      ∀ op ∈ ops, ∀ whole, op.whole? = some whole → whole.modules.Fits) ∧
    ((fresh f).afterAll ops).draft.modules.Payloads (fun r => r.Fits ∨ r.CameIn ops)
      fun s => s.Fits ∨ s.CameIn ops := by
  refine ⟨⟨fun fit op member whole taken => ?_, fun fit part first => ?_⟩, ?_⟩
  · obtain ⟨before, after, rfl⟩ := List.append_of_mem member
    have here := fit (before ++ [op]) (by simp)
    rw [afterAll, List.foldl_append] at here
    exact draft_of_whole taken ▸ here
  · have start := payloads_fresh ReturnValue.fits_normalized Slot.fits_normalized f
    exact (start.afterAll ReturnValue.fits_normalized Slot.fits_normalized
      fun op member => fit op (first.subset member)).draft
  · have returned (r : ReturnValue) : r.normalized.Fits ∨ r.normalized.CameIn ops :=
      .inl r.fits_normalized
    have changed (s : Slot) : s.normalized.Fits ∨ s.normalized.CameIn ops := .inl s.fits_normalized
    refine ((payloads_fresh returned changed f).afterAll returned changed ?_).draft
    intro op member whole taken
    exact ⟨fun r found => .inr ⟨op, member, whole, taken, found⟩,
      fun slots listed s inside => .inr ⟨op, member, whole, taken, slots, listed, inside⟩⟩

def unary : AnalyzedFunction where
  pathToProject := "/p"
  fileId := "a.js"
  functionId := "f"
  arguments := [⟨"f", [.identifier "x"]⟩]

/-- The argument and the return value are given a value with a type that carries none, and the return
value then becomes an object and is set to null in its editor. -/
def typedWithoutValue : List Operation :=
  [.dispatch (Command.changeArgument
      { functionName := "f", argument := "x", type := .null
        value := some (.bool true) }).toEnvelope,
    .dispatch (Command.updateReturnValue { type := .null, value := some (.str "5") }).toEnvelope,
    .run (.updateReturnValue { type := .object }), .openReturnValue,
    .setValue returnValueLabel .null, .commit returnValueLabel]

theorem payloads_fit_typed :
    (∀ part, part <+: typedWithoutValue → ((fresh unary).afterAll part).draft.modules.Fits) ∧
      ((fresh unary).afterAll (typedWithoutValue.take 2)).draft.modules =
        { argumentList := some [{ functionName := "f", argument := "x", type := .null }]
          returnValue := some { type := .null } } := by
  have own : ∀ op ∈ typedWithoutValue, op.whole? = none := by
    simp only [typedWithoutValue, List.forall_mem_cons]
    exact ⟨rfl, rfl, rfl, rfl, rfl, rfl, by simp⟩
  refine ⟨(payloads_fit unary typedWithoutValue).1.2 fun op member whole taken => ?_, rfl⟩
  rw [own op member] at taken
  cases taken

/-- A whole draft whose payloads all have a value with a type that carries none. -/
def unfitDraft : Draft where
  pathToProject := "/p"
  fileId := "a.js"
  functionId := "f"
  modules := {
    argumentList := some [{ functionName := "f", argument := "x", value := some (.bool true) }]
    returnValue := some { type := .null, value := some (.num (.int 5)) } }

/-- Brought in by a command, it is the draft, and its payloads are in the session. -/
theorem whole_draft_unfit :
    let s := (fresh unary).after (.dispatch (Command.setDraft unfitDraft).toEnvelope)
    s.draft.modules.returnValue = some { type := .null, value := some (.num (.int 5)) } ∧
      s.draft.modules.slot? "f" "x" =
        some { functionName := "f", argument := "x", type := .undefined
               value := some (.bool true) } ∧
      ¬s.draft.modules.Fits := by
  intro s
  have taken : s.draft = unfitDraft := draft_of_whole rfl
  rw [taken]
  refine ⟨rfl, rfl, fun fits => ?_⟩
  have absent : some (Json.num (.int 5)) = none := fits.returnValue _ rfl rfl
  cases absent

end Session

end Fixture
