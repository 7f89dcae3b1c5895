import Fixture.Proofs.Draft.Change

/-!
The payloads of a draft: its return value and its argument slots. A command puts a payload in that
has been put right first, or takes the payloads of a whole draft over as they are.
-/

namespace Fixture

structure Modules.Payloads (R : ReturnValue → Prop) (S : Slot → Prop) (ms : Modules) : Prop where
  returnValue : ∀ r, ms.returnValue = some r → R r
  slots : ∀ slots, ms.argumentList = some slots → ∀ s ∈ slots, S s

def Command.Payloads (R : ReturnValue → Prop) (S : Slot → Prop) : Command → Prop
  | .setDraft whole => whole.modules.Payloads R S
  | .changeArgument slot => S slot.normalized
  | .updateReturnValue r => R r.normalized
  | _ => True

variable {R R' : ReturnValue → Prop} {S S' : Slot → Prop}

namespace Modules

variable {ms : Modules}

theorem Payloads.mono (payloads : ms.Payloads R S) (weakerR : ∀ r, R r → R' r)
    (weakerS : ∀ s, S s → S' s) : ms.Payloads R' S' :=
  ⟨fun r found => weakerR r (payloads.returnValue r found),
    fun slots listed s member => weakerS s (payloads.slots slots listed s member)⟩

theorem Payloads.withReturnValue {r : ReturnValue} (payloads : ms.Payloads R S) (given : R r) :
    Payloads R S { ms with returnValue := some r } := by
  refine ⟨fun other found => ?_, payloads.slots⟩
  obtain rfl := Option.some.inj found
  exact given

theorem Payloads.withSlots {slots : List Slot} (payloads : ms.Payloads R S)
    (given : ∀ s ∈ slots, S s) : Payloads R S { ms with argumentList := some slots } := by
  refine ⟨payloads.returnValue, fun others listed => ?_⟩
  obtain rfl := Option.some.inj listed
  exact given

theorem Payloads.withException (payloads : ms.Payloads R S) (e : ExpectedException) :
    Payloads R S { ms with exception := some e } :=
  ⟨payloads.returnValue, payloads.slots⟩

theorem Payloads.replaceSlot? {slot : Slot} {slots out : List Slot} (payloads : ms.Payloads R S)
    (listed : ms.argumentList = some slots) (replaced : replaceSlot? slot slots = some out)
    (given : S slot) : Payloads R S { ms with argumentList := some out } := by
  obtain ⟨front, old, back, rfl, -, -, rfl⟩ := replaceSlot?_eq_some_iff.1 replaced
  have kept : ∀ s ∈ front ++ old :: back, S s := payloads.slots _ listed
  refine payloads.withSlots fun s member => ?_
  rcases List.mem_append.1 member with before | behind
  · exact kept s (List.mem_append_left _ before)
  rcases List.mem_cons.1 behind with rfl | after
  · exact given
  · exact kept s (List.mem_append_right _ (List.mem_cons_of_mem _ after))

theorem Payloads.remove (payloads : ms.Payloads R S) (m : ModuleName) :
    (ms.remove m).Payloads R S := by
  cases m with
  | argumentList =>
    refine ⟨payloads.returnValue, ?_⟩
    rintro slots ⟨⟩
  | returnValue =>
    refine ⟨?_, payloads.slots⟩
    rintro r ⟨⟩
  | exception => exact ⟨payloads.returnValue, payloads.slots⟩

/-- What holds of payloads that are not filled in holds of those that a function starts with. -/
theorem payloads_default (f : AnalyzedFunction) (empty : R {})
    (blank : ∀ functionName argument, S { functionName, argument }) :
    f.defaultModules.Payloads R S := by
  constructor
  · intro r found
    obtain rfl := Option.some.inj found
    exact empty
  · intro slots listed s member
    obtain rfl := Option.some.inj listed
    obtain ⟨pair, -, rfl⟩ := List.mem_map.1 member
    exact blank pair.1 pair.2

end Modules

theorem Draft.payloads_apply {d next : Draft} {ctx : Context} {c : Command} (empty : R {})
    (blank : ∀ functionName argument, S { functionName, argument })
    (payloads : d.modules.Payloads R S)
    (saved : ∀ last, ctx.persisted = some last → last.modules.Payloads R S)
    (given : c.Payloads R S) (applied : d.apply ctx c = .ok next) : next.modules.Payloads R S := by
  cases apply_inv applied with
  | setDraft => exact given
  | clear => exact Modules.payloads_default _ empty blank
  | restored last =>
    have whole := saved _ last
    exact whole
  | kept => exact payloads
  | present => exact payloads
  | @addArgumentList f =>
    exact payloads.withSlots ((Modules.payloads_default f empty blank).slots _ rfl)
  | addReturnValue => exact payloads.withReturnValue empty
  | addException => exact payloads.withException {}
  | removeModule m => exact payloads.remove m
  | changeArgument listed replaced => exact payloads.replaceSlot? listed replaced given
  | updateReturnValue r => exact payloads.withReturnValue given
  | updateException e => exact payloads.withException e
  | rename => exact payloads

/-! ## Types without a value -/

/-- A type that carries no value has none. -/
def TypeTag.Fits (type : TypeTag) (value : Option Json) : Prop :=
  type.carriesValue = false → value = none

theorem TypeTag.fits_iff {type : TypeTag} {value : Option Json} :
    type.Fits value ↔ type.restrict value = value := by
  rw [Fits, restrict]
  cases type.carriesValue with
  | false => simp [eq_comm]
  | true => simp

def ReturnValue.Fits (r : ReturnValue) : Prop := r.type.Fits r.value

def Slot.Fits (s : Slot) : Prop := s.type.Fits s.value

theorem ReturnValue.fits_normalized (r : ReturnValue) : r.normalized.Fits :=
  TypeTag.fits_iff.2 (TypeTag.restrict_restrict r.type r.value)

theorem Slot.fits_normalized (s : Slot) : s.normalized.Fits :=
  TypeTag.fits_iff.2 (TypeTag.restrict_restrict s.type s.value)

def Modules.Fits (ms : Modules) : Prop := ms.Payloads ReturnValue.Fits Slot.Fits

end Fixture
