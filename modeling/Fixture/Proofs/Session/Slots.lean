import Fixture.Proofs.Draft.Defaults
import Fixture.Proofs.Session.Reduction

/-!
The argument slots of a test. As long as no draft comes from elsewhere, the slots of a session are
those of its function, under the same keys and in the same order. The draft as last saved has to keep
them as well, because a draft may go back to it.
-/

namespace Fixture

def Modules.SlotsOf (f : AnalyzedFunction) (ms : Modules) : Prop :=
  ∀ slots, ms.argumentList = some slots → slots.map Slot.key = f.slotKeys

namespace Modules.SlotsOf

variable {f : AnalyzedFunction} {ms : Modules}

theorem of_none (absent : ms.argumentList = none) : ms.SlotsOf f := by
  intro slots enabled
  rw [absent] at enabled
  cases enabled

theorem defaultSlots (enabled : ms.argumentList = some (AnalyzedFunction.defaultSlots f.arguments)) :
    ms.SlotsOf f := by
  intro slots given
  obtain rfl := Option.some.inj (enabled.symm.trans given)
  rfl

theorem remove (kept : ms.SlotsOf f) (m : ModuleName) : (ms.remove m).SlotsOf f := by
  cases m with
  | argumentList => exact of_none rfl
  | returnValue => exact kept
  | exception => exact kept

theorem replaceSlot? (kept : ms.SlotsOf f) {slot : Slot} {slots out : List Slot}
    (listed : ms.argumentList = some slots) (replaced : replaceSlot? slot slots = some out) :
    Modules.SlotsOf f { ms with argumentList := some out } := by
  intro slots given
  obtain rfl := Option.some.inj given
  exact (map_key_replaceSlot? replaced).trans (kept _ listed)

end Modules.SlotsOf

/-- No command but that for a whole draft changes the keys of the slots. -/
theorem Draft.slotsOf_apply {f : AnalyzedFunction} {ctx : Context} {d next : Draft} {c : Command}
    (function : ctx.function = some f)
    (persisted : ∀ saved, ctx.persisted = some saved → saved.modules.SlotsOf f)
    (kept : d.modules.SlotsOf f) (own : ∀ whole, c ≠ .setDraft whole)
    (applied : d.apply ctx c = .ok next) : next.modules.SlotsOf f := by
  cases apply_inv applied with
  | setDraft => exact absurd rfl (own _)
  | clear known =>
    obtain rfl := Option.some.inj (function.symm.trans known)
    exact .defaultSlots rfl
  | restored last =>
    have whole := persisted _ last
    exact whole
  | addArgumentList absent known =>
    obtain rfl := Option.some.inj (function.symm.trans known)
    exact .defaultSlots rfl
  | removeModule m => exact kept.remove m
  | changeArgument listed replaced => exact kept.replaceSlot? listed replaced
  | _ => exact kept

namespace Session

variable {f : AnalyzedFunction} {s t : Session}

/-- The operations that bring no draft from elsewhere: no command is given a whole draft, and what is
taken as saved is the draft as it is, under any id. -/
def Homegrown (s : Session) : Operation → Prop
  | .run c => ∀ d, c ≠ .setDraft d
  | .dispatch envelope => ∀ d, Command.ofEnvelope envelope ≠ .ok (.command (.setDraft d))
  | .markPersisted saved => ∃ id, saved = { s.draft with id }
  | _ => True

/-- The sessions that come about from a new test of a function, without a draft from elsewhere. -/
inductive GrownFrom (f : AnalyzedFunction) : Session → Prop where
  | fresh : GrownFrom f (fresh f)
  | after {s : Session} (op : Operation) :
    GrownFrom f s → s.Homegrown op → GrownFrom f (s.after op)

structure KeepsSlots (f : AnalyzedFunction) (s : Session) : Prop where
  function : s.function = f
  draft : s.draft.modules.SlotsOf f
  persisted : ∀ saved, s.persisted = some saved → saved.modules.SlotsOf f

namespace KeepsSlots

theorem fresh : KeepsSlots f (Session.fresh f) where
  function := rfl
  draft := .defaultSlots rfl
  persisted := by rintro _ ⟨⟩

theorem after {op : Operation} (keeps : s.KeepsSlots f) (own : s.Homegrown op) :
    (s.after op).KeepsSlots f := by
  have each : s.EachDraft fun d => d.modules.SlotsOf f := ⟨keeps.draft, keeps.persisted⟩
  have next : (s.after op).EachDraft fun d => d.modules.SlotsOf f := by
    refine each.after ?_ fun c next contributes applied => ?_
    · rintro saved rfl
      obtain ⟨id, rfl⟩ := own
      exact keeps.draft
    · refine Draft.slotsOf_apply (congrArg some keeps.function) keeps.persisted keeps.draft ?_
        applied
      rintro whole rfl
      cases contributes with
      | run => exact own whole rfl
      | dispatch parsed => exact own whole parsed
  exact ⟨(s.function_after op).trans keeps.function, next.draft, next.persisted⟩

end KeepsSlots

theorem GrownFrom.keepsSlots (grown : s.GrownFrom f) : s.KeepsSlots f := by
  induction grown with
  | fresh => exact .fresh
  | after op _ own ih => exact ih.after own

theorem GrownFrom.afterAll (grown : s.GrownFrom f) {ops : List Operation}
    (own : ∀ op ∈ ops, ∀ s : Session, s.Homegrown op) : (s.afterAll ops).GrownFrom f := by
  induction ops generalizing s with
  | nil => exact grown
  | cons op ops ih =>
    obtain ⟨here, later⟩ := List.forall_mem_cons.1 own
    exact ih (grown.after op (here s)) later

/-- Whenever the draft has argument slots, they are those that the function starts with, in the same
order and each once, whatever they hold. -/
theorem slots_stay (grown : s.GrownFrom f) {slots : List Slot}
    (enabled : s.draft.modules.argumentList = some slots) :
    slots.map Slot.key = (AnalyzedFunction.defaultSlots f.arguments).map Slot.key ∧
      (slots.map Slot.key).Nodup := by
  have keys : slots.map Slot.key = f.slotKeys := grown.keepsSlots.draft slots enabled
  exact ⟨keys, keys ▸ f.nodup_slotKeys⟩

def sharing : AnalyzedFunction where
  pathToProject := "/p"
  fileId := "a.js"
  functionId := "f"
  arguments := [⟨"f", [.identifier "a", .object [.property "b", .property "a"]]⟩,
    ⟨"g", [.identifier "a"]⟩]

/-- A draft with an argument that was edited. -/
def argumentEdited : Session :=
  (fresh sharing).afterAll
    [.run (.changeArgument { functionName := "f", argument := "b", type := .object }),
      .openArgument "f" "b", .setValue argumentLabel (.obj [("x", .null)]), .commit argumentLabel]

/-- It is saved, loses its slots, gets new ones, and goes back to what was saved. -/
def argumentRestored : Session :=
  (argumentEdited.after (.markPersisted { argumentEdited.draft with id := some "t1" })).afterAll
    [.dispatch (Command.removeModule .argumentList).toEnvelope, .run (.addModule .argumentList),
      .run .discard]

theorem argumentRestored_grown : argumentRestored.GrownFrom sharing := by
  have edited : argumentEdited.GrownFrom sharing :=
    GrownFrom.fresh.afterAll (by simp [Homegrown])
  have saved : argumentEdited.Homegrown
      (.markPersisted { argumentEdited.draft with id := some "t1" }) := ⟨some "t1", rfl⟩
  have removes : Command.ofEnvelope (Command.removeModule .argumentList).toEnvelope =
      .ok (.command (.removeModule .argumentList)) := rfl
  exact (edited.after _ saved).afterAll (by simp [Homegrown, removes])

theorem slots_stay_restored :
    argumentRestored.GrownFrom sharing ∧
      ∃ slots, argumentRestored.draft.modules.argumentList = some slots ∧
        slots.map Slot.value = [none, some (.obj [("x", .null)]), none] ∧
        slots.map Slot.key = [("f", "a"), ("f", "b"), ("g", "a")] ∧
        (slots.map Slot.key).Nodup := by
  have enabled : argumentRestored.draft.modules.argumentList =
      some [{ functionName := "f", argument := "a" },
        { functionName := "f", argument := "b", type := .object, value := some (.obj [("x", .null)]) },
        { functionName := "g", argument := "a" }] := rfl
  have start : (AnalyzedFunction.defaultSlots sharing.arguments).map Slot.key =
      [("f", "a"), ("f", "b"), ("g", "a")] := by decide
  obtain ⟨keys, nodup⟩ := slots_stay argumentRestored_grown enabled
  exact ⟨argumentRestored_grown, _, enabled, rfl, keys.trans start, nodup⟩

end Session

end Fixture
