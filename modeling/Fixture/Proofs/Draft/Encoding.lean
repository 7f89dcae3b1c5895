import Fixture.Proofs.Draft.Values
import Fixture.Proofs.Json.Decoded

/-!
Encoding of drafts. A draft that is decoded from its encoding comes back with its values in order
and without those that are null. The values of a decoded draft come from the document, and none of
them is null.
-/

namespace Fixture

open Json

@[simp] theorem Json.lookup_optionalMember (name key : String) (value : Option Json) :
    lookup name (optionalMember key value) = if key = name then value else none := by
  cases value <;> simp [optionalMember]

/-! ## Decoding what was encoded -/

theorem TypeTag.accepts (t : TypeTag) : decode.Accepts t.encode t :=
  Decoder.accepts_name (by cases t <;> rfl)

theorem ModuleName.accepts (m : ModuleName) : decode.Accepts m.encode m :=
  Decoder.accepts_name (by cases m <;> rfl)

theorem Slot.accepts (s : Slot) : decode.Accepts s.encode (s.alter stored?) := by
  refine Decoder.accepts_record ?_ fun p offers => ?_
  · cases s.value <;> simp [Distinct, optionalMember]
  rw [offers.required "subFunctionName" (Decoder.accepts_text s.functionName),
    offers.required "argument" (Decoder.accepts_text s.argument),
    offers.withDefault "type" s.type.accepts, offers.optionalValue "value" s.value]
  · rfl
  all_goals simp

theorem ReturnValue.accepts (r : ReturnValue) : decode.Accepts r.encode (r.alter stored?) := by
  refine Decoder.accepts_record ?_ fun p offers => ?_
  · cases r.value <;> simp [Distinct, optionalMember]
  rw [offers.withDefault "type" r.type.accepts, offers.optionalValue "value" r.value]
  · rfl
  all_goals simp

theorem ExpectedException.accepts (e : ExpectedException) : decode.Accepts e.encode e := by
  refine Decoder.accepts_record ?_ fun p offers => ?_
  · cases e.value <;> cases e.message <;> simp [Distinct, optionalMember]
  rw [offers.required "equal" (Decoder.accepts_bool e.equal),
    offers.optional "value" e.value (fun s _ => Decoder.accepts_text s) (by simp),
    offers.optional "message" e.message (fun s _ => Decoder.accepts_text s) (by simp)]
  · simp only [Option.map_id_fun', id_eq]
    rfl
  all_goals simp

theorem Modules.accepts (ms : Modules) : decode.Accepts ms.encode (ms.alter stored?) := by
  refine Decoder.accepts_record ?_ fun p offers => ?_
  · cases ms.argumentList <;> cases ms.returnValue <;> cases ms.exception <;>
      simp [Distinct, optionalMember]
  have listed (slots : List Slot) : (Decoder.list Slot.decode).Accepts
      (.arr (slots.map Slot.encode)) (slots.map (Slot.alter stored?)) :=
    Decoder.Accepts.list fun s _ => Slot.accepts s
  rw [offers.optional "argumentList" ms.argumentList (fun slots _ => listed slots) (by simp),
    offers.optional "returnValue" ms.returnValue (fun r _ => r.accepts)
      (by simp [ReturnValue.encode]),
    offers.optional "exception" ms.exception (fun e _ => e.accepts)
      (by simp [ExpectedException.encode])]
  · simp only [Option.map_id_fun', id_eq]
    rfl
  all_goals simp

theorem Draft.accepts (d : Draft) : decode.Accepts d.encode (d.alter stored?) := by
  refine Decoder.accepts_record ?_ fun p offers => ?_
  · cases d.id <;> simp [Distinct, optionalMember]
  rw [offers.optional "id" d.id (fun s _ => Decoder.accepts_text s) (by simp),
    offers.required "pathToProject" (Decoder.accepts_text d.pathToProject),
    offers.required "fileId" (Decoder.accepts_text d.fileId),
    offers.required "functionId" (Decoder.accepts_text d.functionId),
    offers.withDefault "customName" (Decoder.accepts_text d.customName),
    offers.withDefault "moduleData" d.modules.accepts]
  · simp only [Option.map_id_fun', id_eq]
    rfl
  all_goals simp

/-! ## Values of what is decoded -/

section

variable {origin : Origin} {d : Document}

theorem Slot.values_of_decode {s : Slot} (decoded : decode origin d = .ok s) :
    s.Values d.GivesSome := by
  obtain ⟨p, -, parts, built⟩ := Decoder.record_ok decoded
  simp only [Part.seq_ok, Part.map_ok] at built
  obtain ⟨_, ⟨_, ⟨_, ⟨_, -, rfl⟩, _, -, rfl⟩, _, -, rfl⟩, value, given, rfl⟩ := built
  exact Parts.optionalValue_ok parts given

theorem ReturnValue.values_of_decode {r : ReturnValue} (decoded : decode origin d = .ok r) :
    r.Values d.GivesSome := by
  obtain ⟨p, -, parts, built⟩ := Decoder.record_ok decoded
  simp only [Part.seq_ok, Part.map_ok] at built
  obtain ⟨_, ⟨_, -, rfl⟩, value, given, rfl⟩ := built
  exact Parts.optionalValue_ok parts given

theorem Modules.values_of_decode {ms : Modules} (decoded : decode origin d = .ok ms) :
    ms.Values d.GivesSome := by
  obtain ⟨p, -, parts, built⟩ := Decoder.record_ok decoded
  simp only [Part.seq_ok, Part.map_ok] at built
  obtain ⟨_, ⟨_, ⟨slots, listed, rfl⟩, r, returned, rfl⟩, _, -, rfl⟩ := built
  constructor
  · intro slots' present s member
    obtain ⟨e, inside, -, decoded⟩ := Parts.optional_ok parts listed slots' present
    obtain ⟨e', inner, decoded⟩ := Decoder.list_ok decoded s member
    exact (Slot.values_of_decode decoded).mono fun v gives => gives.within (inner.trans inside)
  · intro r' present
    obtain ⟨e, inside, -, decoded⟩ := Parts.optional_ok parts returned r' present
    exact (ReturnValue.values_of_decode decoded).mono fun v gives => gives.within inside

theorem Draft.values_of_decode {draft : Draft} (decoded : decode origin d = .ok draft) :
    draft.Values d.GivesSome := by
  obtain ⟨p, -, parts, built⟩ := Decoder.record_ok decoded
  simp only [Part.seq_ok, Part.map_ok] at built
  obtain ⟨_, ⟨_, ⟨_, ⟨_, ⟨_, ⟨_, -, rfl⟩, _, -, rfl⟩, _, -, rfl⟩, _, -, rfl⟩, _, -, rfl⟩, ms, given,
    rfl⟩ := built
  rcases Parts.withDefault_ok parts given with rfl | ⟨e, inside, decoded⟩
  · constructor <;> intro _ present <;> cases present
  · exact (Modules.values_of_decode decoded).mono fun v gives => gives.within inside

end

end Fixture
