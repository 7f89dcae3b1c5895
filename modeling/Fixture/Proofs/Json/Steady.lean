import Fixture.Proofs.Json.Decoded

/-!
Decoders that give the same result wherever a document comes from. What is set aside until its kind
is known is then read as it would have been read at once.
-/

namespace Fixture.Json

variable {α β : Type}

/-- A result that is given for one origin is given for every other. -/
def Decoder.Steady (decode : Decoder α) : Prop :=
  ∀ origin origin' d a, decode origin d = .ok a → decode origin' d = .ok a

def Parts.Steady (build : Parts → Part α) : Prop :=
  ∀ p origin a, (build p).outcome = .ok a → (build { p with origin }).outcome = .ok a

namespace Parts.Steady

theorem map {build : Parts → Part α} (steady : Steady build) (f : α → β) :
    Steady fun p => f <$> build p := by
  intro p origin b done
  obtain ⟨a, built, rfl⟩ := Part.map_ok.1 done
  exact Part.map_ok.2 ⟨a, steady p origin a built, rfl⟩

theorem seq {first : Parts → Part (α → β)} {second : Parts → Part α} (steady : Steady first)
    (steady' : Steady second) : Steady fun p => first p <*> second p := by
  intro p origin b done
  obtain ⟨f, built, a, built', rfl⟩ := Part.seq_ok.1 done
  exact Part.seq_ok.2 ⟨f, steady p origin f built, a, steady' p origin a built', rfl⟩

theorem fieldOr {field : String} {decode : Decoder α} {otherwise : Parts → Part α}
    (steady : decode.Steady) (steady' : Steady otherwise) :
    Steady fun p => p.fieldOr field decode (otherwise p) := by
  intro p origin a done
  have given : { p with origin }.given field = p.given field := rfl
  rcases fieldOr_ok done with ⟨none_given, left_out⟩ | ⟨i, d, single, decoded⟩
  · simp only [Parts.fieldOr, given, none_given]
    exact steady' p origin a left_out
  · simp only [Parts.fieldOr, given, single]
    exact Part.ofDecoded_ok.2 (steady _ _ d a decoded)

theorem required {decode : Decoder α} (steady : decode.Steady) (field : String) :
    Steady fun p => p.required field decode :=
  fieldOr steady fun _ _ _ left_out => nomatch left_out

theorem withDefault {decode : Decoder α} (steady : decode.Steady) (field : String) (default : α) :
    Steady fun p => p.withDefault field default decode :=
  fieldOr steady fun _ _ _ left_out => left_out

theorem surplus : Steady Parts.surplus := by
  rintro ⟨label, fields, _, body, ending⟩ origin _ done
  cases body with
  | inl members => exact done
  | inr items =>
    by_cases few : items.length ≤ fields.length
    · simpa only [Parts.surplus, if_pos few] using done
    · simp only [Parts.surplus, if_neg few] at done
      cases done

end Parts.Steady

namespace Decoder

theorem steady_text : text.Steady := fun _ _ _ _ decoded => decoded

theorem mapM_steady {decode : Decoder α} (steady : decode.Steady) {origin origin' : Origin}
    {items : List Document} {values : List α} (done : items.mapM (decode origin) = .ok values) :
    items.mapM (decode origin') = .ok values := by
  induction items generalizing values with
  | nil => exact done
  | cons d items ih =>
    rw [List.mapM_cons] at done ⊢
    obtain ⟨a, first, rest⟩ := bind_ok done
    obtain ⟨later, others, rest⟩ := bind_ok rest
    rw [steady origin origin' d a first, ih others]
    exact rest

namespace Steady

variable {decode : Decoder α}

theorem list (steady : decode.Steady) : (list decode).Steady := by
  intro origin origin' d values decoded
  cases d with
  | arr items ending =>
    obtain ⟨read, done, rest⟩ := bind_ok decoded
    simp only [Decoder.list, mapM_steady steady done]
    exact rest
  | _ => exact decoded

theorem record {label : String} {fields : List (List String)} {build : Parts → Part α}
    (steady : Parts.Steady build) : (record label fields build).Steady := by
  have whole : Parts.Steady fun p => (fun _ a => a) <$> p.surplus <*> build p :=
    (Parts.Steady.map Parts.Steady.surplus _).seq steady
  intro origin origin' d a decoded
  cases d with
  | obj members ending =>
    have built := whole ⟨label, fields, origin, .inl members, ending⟩ origin' a
      (ok_of_mapError decoded)
    simp only [Decoder.record, built, Except.mapError]
  | arr items ending =>
    have built := whole ⟨label, fields, origin, .inr items, ending⟩ origin' a
      (ok_of_mapError decoded)
    simp only [Decoder.record, built, Except.mapError]
  | _ => exact decoded

end Steady

end Decoder

end Fixture.Json
