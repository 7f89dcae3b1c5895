import Fixture.Proofs.Json.Steady
import Fixture.Proofs.Parameter.Encoding

/-!
The choice between a function and a list of parameter lists. The function is tried first, and it may
be given as an array as well; but then its first item is a text, which is no parameter list.
-/

namespace Fixture

open Json

theorem ParameterList.steady_decode : decode.Steady :=
  have steady_body : Decoder.Steady fun _ d =>
      Pattern.listOfNode <$> Decoder.ofFault d.toJson := fun _ _ _ _ decoded => decoded
  .record (.seq (.map (.required Decoder.steady_text _) _) (.withDefault steady_body _ _))

theorem AnalyzedFunction.steady_decode : decode.Steady :=
  have steady_name (field : String) : Parts.Steady fun p => p.required field .text :=
    .required Decoder.steady_text field
  .record (.seq (.seq (.seq (.map (steady_name _) _) (steady_name _)) (steady_name _))
    (.withDefault (.list ParameterList.steady_decode) _ _))

theorem AnalyzedFunction.first_of_decode {origin : Origin} {items : List Document}
    {ending : Ending} {f : AnalyzedFunction} (decoded : decode origin (.arr items ending) = .ok f) :
    ∃ path, items[0]? = some (.scalar (.str (.ok path))) := by
  obtain ⟨p, fields, parts, built⟩ := Decoder.record_ok decoded
  simp only [Part.seq_ok, Part.map_ok] at built
  obtain ⟨_, ⟨_, ⟨_, ⟨path, named, -⟩, -⟩, -⟩, -⟩ := built
  obtain ⟨i, d, given, text⟩ := Parts.required_given named
  obtain rfl := Decoder.text_ok text
  obtain ⟨label, _, _, body, _⟩ := p
  obtain rfl := fields
  cases body with
  | inl members => cases parts
  | inr items' =>
    obtain ⟨rfl, -⟩ := Document.arr.inj parts
    refine ⟨path, ?_⟩
    cases items with
    | nil => cases given
    | cons first rest => exact congrArg (fun given => given.head?.map Prod.snd) given

theorem ParameterList.decode_scalar_ne_ok {origin : Origin} {s : Scalar} {l : ParameterList} :
    decode origin (.scalar s) ≠ .ok l := by
  intro decoded
  obtain ⟨⟨label, fields, _, body, ending⟩, -, parts, -⟩ := Decoder.record_ok decoded
  cases body <;> cases parts

/-- What is a list of parameter lists is no function. -/
theorem AnalyzedFunction.decode_ne_ok_of_list {origin origin' : Origin} {d : Document}
    {lists : List ParameterList}
    (decoded : Decoder.list ParameterList.decode origin d = .ok lists) (f : AnalyzedFunction) :
    decode origin' d ≠ .ok f := by
  intro function
  unfold Decoder.list at decoded
  split at decoded
  next items ending =>
    obtain ⟨path, first⟩ := first_of_decode function
    obtain ⟨_, each, -⟩ := bind_ok decoded
    obtain ⟨l, item⟩ := Decoder.mapM_each each _ (List.mem_of_getElem? first)
    exact ParameterList.decode_scalar_ne_ok item
  · unfold Decoder.mismatch at decoded
    split at decoded <;> cases decoded

namespace ParameterList

variable {origin origin' : Origin} {d : Document} {v : Json} {f : AnalyzedFunction}
  {lists : List ParameterList}

theorem decodeChoice_of_function (readable : d.toJson = .ok v)
    (function : AnalyzedFunction.decode origin d = .ok f) :
    decodeChoice origin' d = .ok f.arguments := by
  rw [decodeChoice, readable, AnalyzedFunction.steady_decode origin .buffer d f function]
  rfl

theorem decodeChoice_of_list (readable : d.toJson = .ok v)
    (decoded : Decoder.list decode origin d = .ok lists) :
    decodeChoice origin' d = .ok lists := by
  have no_function : ∀ f, AnalyzedFunction.decode .buffer d ≠ .ok f :=
    AnalyzedFunction.decode_ne_ok_of_list decoded
  rw [decodeChoice, readable, steady_decode.list origin .buffer d lists decoded]
  cases other : AnalyzedFunction.decode .buffer d with
  | ok f => exact absurd other (no_function f)
  | error e => rfl

theorem accepts_choice_function (f : AnalyzedFunction) :
    decodeChoice.Accepts f.encode f.arguments := fun _ w arranged =>
  decodeChoice_of_function (Document.toJson_ofJson w) (f.accepts .value w arranged)

theorem accepts_choice_list (lists : List ParameterList) :
    decodeChoice.Accepts (.arr (lists.map encode)) lists := by
  intro origin w arranged
  have decoded := Decoder.Accepts.list (f := id) (fun l _ => l.accepts) .value w arranged
  rw [List.map_id] at decoded
  exact decodeChoice_of_list (Document.toJson_ofJson w) decoded

end ParameterList

end Fixture
