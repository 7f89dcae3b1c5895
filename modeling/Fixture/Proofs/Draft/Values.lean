import Fixture.Proofs.Draft.Payloads
import Fixture.Proofs.Json.Accepted

/-!
The values of a draft: those of its slots and of its return value. `alter` changes or drops each of
them and nothing else, and `Values` says that something holds of each. A command brings no values but
its own and those last saved.
-/

namespace Fixture

variable {f g : Json → Option Json} {P Q : Json → Prop}

private theorem bind_eq_self_iff {value : Option Json} :
    value.bind f = value ↔ ∀ v ∈ value, f v = some v := by
  cases value <;> simp

private theorem bind_congr {value : Option Json} (same : ∀ v ∈ value, f v = g v) :
    value.bind f = value.bind g := by
  cases value with
  | none => rfl
  | some v => exact same v rfl

namespace Slot

def alter (f : Json → Option Json) (s : Slot) : Slot := { s with value := s.value.bind f }

def Values (P : Json → Prop) (s : Slot) : Prop := ∀ v ∈ s.value, P v

theorem alter_eq_self_iff {s : Slot} : s.alter f = s ↔ s.Values fun v => f v = some v := by
  cases s
  simp [alter, Values, bind_eq_self_iff]

theorem alter_congr {s : Slot} (same : s.Values fun v => f v = g v) : s.alter f = s.alter g := by
  rw [alter, alter, bind_congr same]

theorem Values.mono {s : Slot} (values : s.Values P) (weaker : ∀ v, P v → Q v) : s.Values Q :=
  fun v member => weaker v (values v member)

end Slot

namespace ReturnValue

def alter (f : Json → Option Json) (r : ReturnValue) : ReturnValue :=
  { r with value := r.value.bind f }

def Values (P : Json → Prop) (r : ReturnValue) : Prop := ∀ v ∈ r.value, P v

theorem alter_eq_self_iff {r : ReturnValue} : r.alter f = r ↔ r.Values fun v => f v = some v := by
  cases r
  simp [alter, Values, bind_eq_self_iff]

theorem alter_congr {r : ReturnValue} (same : r.Values fun v => f v = g v) :
    r.alter f = r.alter g := by
  rw [alter, alter, bind_congr same]

theorem Values.mono {r : ReturnValue} (values : r.Values P) (weaker : ∀ v, P v → Q v) :
    r.Values Q :=
  fun v member => weaker v (values v member)

end ReturnValue

namespace Modules

def alter (f : Json → Option Json) (ms : Modules) : Modules :=
  { ms with
    argumentList := ms.argumentList.map (List.map (Slot.alter f))
    returnValue := ms.returnValue.map (ReturnValue.alter f) }

structure Values (P : Json → Prop) (ms : Modules) : Prop where
  slots : ∀ slots ∈ ms.argumentList, ∀ s ∈ slots, s.Values P
  returnValue : ∀ r ∈ ms.returnValue, r.Values P

theorem alter_eq_self_iff {ms : Modules} : ms.alter f = ms ↔ ms.Values fun v => f v = some v := by
  obtain ⟨slots, r, e⟩ := ms
  have listed : slots.map (List.map (Slot.alter f)) = slots ↔
      ∀ slots' ∈ slots, ∀ s ∈ slots', s.Values fun v => f v = some v := by
    cases slots <;> simp [Json.map_eq_self_iff, Slot.alter_eq_self_iff]
  have returned : r.map (ReturnValue.alter f) = r ↔
      ∀ r' ∈ r, r'.Values fun v => f v = some v := by
    cases r <;> simp [ReturnValue.alter_eq_self_iff]
  rw [alter, Modules.mk.injEq, listed, returned]
  exact ⟨fun given => ⟨given.1, given.2.1⟩, fun values => ⟨values.slots, values.returnValue, rfl⟩⟩

theorem alter_congr {ms : Modules} (same : ms.Values fun v => f v = g v) :
    ms.alter f = ms.alter g := by
  have listed : ms.argumentList.map (List.map (Slot.alter f)) =
      ms.argumentList.map (List.map (Slot.alter g)) :=
    Option.map_congr fun slots member =>
      List.map_congr_left fun s inside => Slot.alter_congr (same.slots slots member s inside)
  have returned : ms.returnValue.map (ReturnValue.alter f) =
      ms.returnValue.map (ReturnValue.alter g) :=
    Option.map_congr fun r member => ReturnValue.alter_congr (same.returnValue r member)
  rw [alter, alter, listed, returned]

theorem Values.mono {ms : Modules} (values : ms.Values P) (weaker : ∀ v, P v → Q v) : ms.Values Q :=
  ⟨fun slots member s inside => (values.slots slots member s inside).mono weaker,
    fun r member => (values.returnValue r member).mono weaker⟩

end Modules

namespace Draft

def alter (f : Json → Option Json) (d : Draft) : Draft := { d with modules := d.modules.alter f }

def Values (P : Json → Prop) (d : Draft) : Prop := d.modules.Values P

theorem alter_eq_self_iff {d : Draft} : d.alter f = d ↔ d.Values fun v => f v = some v := by
  cases d
  simp [alter, Values, Modules.alter_eq_self_iff]

theorem alter_congr {d : Draft} (same : d.Values fun v => f v = g v) : d.alter f = d.alter g := by
  rw [alter, alter, Modules.alter_congr same]

theorem Values.mono {d : Draft} (values : d.Values P) (weaker : ∀ v, P v → Q v) : d.Values Q :=
  Modules.Values.mono values weaker

def withoutNulls (d : Draft) : Draft := d.alter Json.unlessNull

end Draft

namespace Command

def alter (f : Json → Option Json) : Command → Command
  | .setDraft d => .setDraft (d.alter f)
  | .changeArgument s => .changeArgument (s.alter f)
  | .updateReturnValue r => .updateReturnValue (r.alter f)
  | c => c

def Values (P : Json → Prop) : Command → Prop
  | .setDraft d => d.Values P
  | .changeArgument s => s.Values P
  | .updateReturnValue r => r.Values P
  | _ => True

theorem alter_eq_self_iff {c : Command} : c.alter f = c ↔ c.Values fun v => f v = some v := by
  cases c <;>
    simp [alter, Values, Draft.alter_eq_self_iff, Slot.alter_eq_self_iff,
      ReturnValue.alter_eq_self_iff]

theorem alter_congr {c : Command} (same : c.Values fun v => f v = g v) : c.alter f = c.alter g := by
  cases c with
  | setDraft d => exact congrArg _ (Draft.alter_congr same)
  | changeArgument s => exact congrArg _ (Slot.alter_congr same)
  | updateReturnValue r => exact congrArg _ (ReturnValue.alter_congr same)
  | _ => rfl

theorem Values.mono {c : Command} (values : c.Values P) (weaker : ∀ v, P v → Q v) : c.Values Q := by
  cases c with
  | setDraft d => exact Draft.Values.mono values weaker
  | changeArgument s => exact Slot.Values.mono values weaker
  | updateReturnValue r => exact ReturnValue.Values.mono values weaker
  | _ => trivial

def withoutNulls (c : Command) : Command := c.alter Json.unlessNull

end Command

/-! ## Effects of commands -/

namespace Slot

theorem values_withValue (s : Slot) (type : TypeTag) {value : Option Json}
    (given : ∀ v ∈ value, P v) : (s.withValue type value).Values P := by
  intro v present
  rw [withValue, TypeTag.restrict] at present
  split at present
  · exact given v present
  · cases present

end Slot

theorem ReturnValue.values_ofTyped (type : TypeTag) {value : Option Json}
    (given : ∀ v ∈ value, P v) : (ofTyped type value).Values P := by
  intro v present
  rw [ofTyped, TypeTag.restrict] at present
  split at present
  · exact given v present
  · cases present

namespace Modules

theorem values_iff {ms : Modules} : ms.Values P ↔ ms.Payloads (·.Values P) (·.Values P) :=
  ⟨fun values => ⟨values.returnValue, values.slots⟩,
    fun payloads => ⟨payloads.slots, payloads.returnValue⟩⟩

theorem values_default (f : AnalyzedFunction) : f.defaultModules.Values P := by
  refine values_iff.2 (payloads_default f ?_ fun functionName argument => ?_)
  · rintro v ⟨⟩
  · rintro v ⟨⟩

theorem Values.slot {ms : Modules} (values : ms.Values P) {functionName argument : String}
    {s : Slot} (found : ms.slot? functionName argument = some s) : s.Values P := by
  obtain ⟨slots, listed, first⟩ := Option.bind_eq_some_iff.1 found
  exact values.slots slots listed s (List.mem_of_find?_eq_some first)

end Modules

namespace Draft

variable {d d' : Draft} {ctx : Context}

theorem Values.changeArgument {slot : Slot} (values : d.Values P) (given : slot.Values P)
    (changed : d.changeArgument slot = .ok d') : d'.Values P := by
  obtain ⟨slots, out, listed, replaced, rfl⟩ := changeArgument_inv changed
  have right : slot.normalized.Values P := Slot.values_withValue slot slot.type given
  exact Modules.values_iff.2 ((Modules.values_iff.1 values).replaceSlot? listed replaced right)

theorem Values.updateReturnValue {r : ReturnValue} (values : d.Values P) (given : r.Values P)
    (updated : d.updateReturnValue r = .ok d') : d'.Values P := by
  obtain rfl := updateReturnValue_inv updated
  have right : r.normalized.Values P := ReturnValue.values_ofTyped r.type given
  exact Modules.values_iff.2 ((Modules.values_iff.1 values).withReturnValue right)

theorem Values.apply {c : Command} (values : d.Values P) (saved : ∀ s ∈ ctx.persisted, s.Values P)
    (given : c.Values P) (applied : d.apply ctx c = .ok d') : d'.Values P := by
  have brought : c.Payloads (·.Values P) (·.Values P) := by
    cases c with
    | setDraft whole => exact Modules.values_iff.1 given
    | changeArgument slot => exact Slot.values_withValue slot slot.type given
    | updateReturnValue r => exact ReturnValue.values_ofTyped r.type given
    | _ => trivial
  refine Modules.values_iff.2 (payloads_apply ?_ ?_ (Modules.values_iff.1 values) ?_ brought applied)
  · rintro v ⟨⟩
  · rintro functionName argument v ⟨⟩
  · exact fun last found => Modules.values_iff.1 (saved last found)

end Draft

end Fixture
