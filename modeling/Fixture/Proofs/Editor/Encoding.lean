import Fixture.Proofs.Draft.Encoding
import Fixture.Proofs.Editor.Values

/-!
Encoding of editors. Editors that are decoded from their encoding come back with their values in
order, and the values of decoded editors come from the document.
-/

namespace Fixture

open Json

/-! ## Decoding what was encoded -/

theorem FieldKey.decode_index {origin : Origin} {d : Document} {n : Int}
    (number : d.toJson = .ok (.num (.int n))) (fits : 0 ≤ n ∧ n < UInt64.size) :
    decode origin d = .ok (.index (.ofNat n.toNat)) := by
  rw [decode, number]
  exact if_pos fits

theorem FieldKey.decode_property {origin : Origin} {d : Document} {name : String}
    (text : d.toJson = .ok (.str name)) : decode origin d = .ok (.property name) := by
  rw [decode, text]
  rfl

theorem FieldKey.accepts (key : FieldKey) : decode.Accepts key.encode key := by
  intro origin w arranged
  have same : (Document.ofJson w).toJson = .ok key.encode := by
    rw [Document.toJson_ofJson, arranged.sorted_eq]
    cases key <;> rfl
  cases key with
  | index i =>
    have fits : (0 : Int) ≤ i.toNat ∧ (i.toNat : Int) < UInt64.size := by
      have below := i.toNat_lt
      simp only [UInt64.size]
      omega
    rw [decode_index same fits, Int.toNat_natCast, UInt64.ofNat_toNat]
  | property name => exact decode_property same

theorem Target.accepts (t : Target) : decode.Accepts t.encode t := by
  cases t with
  | returnValue =>
    refine Decoder.accepts_tagged "returnValue" (by simp [Distinct]) (by simp) rfl rfl
      fun members' holding => ?_
    rfl
  | argument functionName name =>
    refine Decoder.accepts_tagged "argument" (by simp [Distinct]) (by simp) rfl rfl
      fun members' holding => ?_
    refine Decoder.record_of_holding holding (fun p offers => ?_) _
    rw [offers.required "subFunctionName" (Decoder.accepts_text functionName),
      offers.required "argument" (Decoder.accepts_text name)]
    · rfl
    all_goals simp
  | field key =>
    refine Decoder.accepts_tagged "field" (by simp [Distinct]) (by simp) rfl rfl
      fun members' holding => ?_
    refine Decoder.record_of_holding holding (fun p offers => ?_) _
    rw [offers.required "key" key.accepts]
    · rfl
    all_goals simp

theorem Frame.accepts (f : Frame) : decode.Accepts f.encode (f.mapValues sorted) := by
  refine Decoder.accepts_record (by simp [Distinct, members]) fun p offers => ?_
  rw [members] at offers
  rw [offers.required "label" (Decoder.accepts_text f.label),
    offers.required "initialValue" (Decoder.accepts_json f.initialValue),
    offers.required "value" (Decoder.accepts_json f.value),
    offers.required "parentEventKey" (Decoder.accepts_text f.parent),
    offers.required "target" f.target.accepts]
  · rfl
  all_goals simp

theorem Editors.accepts (es : Editors) : decode.Accepts es.encode (es.mapValues sorted) := by
  refine Decoder.accepts_record ?_ fun p offers => ?_
  · cases es.selected <;> simp [Distinct, optionalMember]
  have frames : (Decoder.list Frame.decode).Accepts (.arr (es.frames.map Frame.encode))
      (es.frames.map (Frame.mapValues sorted)) :=
    Decoder.Accepts.list fun f _ => f.accepts
  rw [offers.required "frames" frames,
    offers.optional "selected" es.selected (fun s _ => Decoder.accepts_text s) (by simp)]
  · simp only [Option.map_id_fun', id_eq]
    rfl
  all_goals simp

/-! ## Values of what is decoded -/

section

variable {origin : Origin} {d : Document}

theorem Frame.values_of_decode {f : Frame} (decoded : decode origin d = .ok f) :
    f.Values d.Gives := by
  obtain ⟨p, -, parts, built⟩ := Decoder.record_ok decoded
  simp only [Part.seq_ok, Part.map_ok] at built
  obtain ⟨_, ⟨_, ⟨_, ⟨_, ⟨_, -, rfl⟩, initial, first, rfl⟩, value, second, rfl⟩, _, -, rfl⟩, _, -,
    rfl⟩ := built
  obtain ⟨e, inside, given⟩ := Parts.required_ok parts first
  obtain ⟨e', inside', given'⟩ := Parts.required_ok parts second
  exact ⟨⟨e, inside, Decoder.json_ok given⟩, ⟨e', inside', Decoder.json_ok given'⟩⟩

theorem Editors.values_of_decode {es : Editors} (decoded : decode origin d = .ok es) :
    es.Values d.Gives := by
  obtain ⟨p, -, parts, built⟩ := Decoder.record_ok decoded
  simp only [Part.seq_ok, Part.map_ok] at built
  obtain ⟨_, ⟨frames, listed, rfl⟩, _, -, rfl⟩ := built
  intro f member
  obtain ⟨e, inside, decoded⟩ := Parts.required_ok parts listed
  obtain ⟨e', inner, decoded⟩ := Decoder.list_ok decoded f member
  exact (Frame.values_of_decode decoded).mono fun v gives => gives.within (inner.trans inside)

end

end Fixture
