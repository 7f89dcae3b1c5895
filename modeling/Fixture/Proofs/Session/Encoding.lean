import Fixture.Proofs.Editor.Encoding
import Fixture.Proofs.Parameter.Encoding
import Fixture.Proofs.Session.Values

/-!
Encoding of sessions. What a decoder accepts is read back from its encoding as it is. A session that
came about by editing is read back too, but for nulls: a value that an editor sets to null is in the
draft, and is no longer there in the draft that is read back.
-/

namespace Fixture

open Json

namespace Session

variable {s : Session}

def stored (s : Session) : Session :=
  { s with
    draft := s.draft.alter stored?
    persisted := s.persisted.map (Draft.alter stored?)
    editors := s.editors.mapValues sorted }

theorem accepts (s : Session) : decode.Accepts s.encode s.stored := by
  refine Decoder.accepts_record ?_ fun p offers => ?_
  · cases s.persisted <;> simp [Distinct, optionalMember]
  rw [offers.required "function" s.function.accepts, offers.required "draft" s.draft.accepts,
    offers.optional "persisted" s.persisted (fun saved _ => saved.accepts)
      (by simp [Draft.encode]),
    offers.withDefault "navigator" s.editors.accepts]
  · rfl
  all_goals simp

theorem stored_eq_self (draft : s.draft.Values fun v => v.Canonical ∧ v ≠ .null)
    (persisted : ∀ saved ∈ s.persisted, saved.Values fun v => v.Canonical ∧ v ≠ .null)
    (editors : s.editors.Values Canonical) : s.stored = s := by
  have kept {d : Draft} (values : d.Values fun v => v.Canonical ∧ v ≠ .null) :
      d.alter stored? = d :=
    Draft.alter_eq_self_iff.2 (values.mono fun v given => stored?_eq_self given.1 given.2)
  have saved : s.persisted.map (Draft.alter stored?) = s.persisted := by
    cases last : s.persisted with
    | none => rfl
    | some d => exact congrArg some (kept (persisted d last))
  rw [stored, kept draft, saved, Editors.mapValues_eq_self editors]

theorem values_of_decode {origin : Origin} {d : Document} (decoded : decode origin d = .ok s) :
    s.draft.Values d.GivesSome ∧ (∀ saved ∈ s.persisted, saved.Values d.GivesSome) ∧
      s.editors.Values d.Gives := by
  obtain ⟨p, -, parts, built⟩ := Decoder.record_ok decoded
  simp only [Part.seq_ok, Part.map_ok] at built
  obtain ⟨_, ⟨_, ⟨_, ⟨_, -, rfl⟩, draft, first, rfl⟩, persisted, second, rfl⟩, editors, third,
    rfl⟩ := built
  refine ⟨?_, fun saved present => ?_, ?_⟩
  · obtain ⟨e, inside, decoded⟩ := Parts.required_ok parts first
    exact (Draft.values_of_decode decoded).mono fun v gives => gives.within inside
  · obtain ⟨e, inside, -, decoded⟩ := Parts.optional_ok parts second saved present
    exact (Draft.values_of_decode decoded).mono fun v gives => gives.within inside
  · rcases Parts.withDefault_ok parts third with rfl | ⟨e, inside, decoded⟩
    · exact fun _ member => nomatch member
    · exact (Editors.values_of_decode decoded).mono fun v gives => gives.within inside

end Session

/-! ## Normal forms -/

/-- Whatever is accepted as a draft, as a function or as a session, its encoding is decoded to the
same. -/
theorem decode_encode_of_decode (j : Json) :
    (∀ d, Draft.decode.ofValue j = .ok d → Draft.decode.ofValue d.encode.sorted = .ok d) ∧
      (∀ f, AnalyzedFunction.decode.ofValue j = .ok f →
        AnalyzedFunction.decode.ofValue f.encode.sorted = .ok f) ∧
      ∀ s, Session.decode.ofValue j = .ok s → Session.decode.ofValue s.encode.sorted = .ok s := by
  refine ⟨fun d decoded => ?_, fun f decoded => f.accepts .value _ .sorted, fun s decoded => ?_⟩
  · have kept : d.alter stored? = d := by
      refine Draft.alter_eq_self_iff.2 ((Draft.values_of_decode decoded).mono fun v gives => ?_)
      exact stored?_eq_self gives.1.canonical gives.2
    exact (d.accepts .value _ .sorted).trans (congrArg _ kept)
  · obtain ⟨draft, persisted, editors⟩ := Session.values_of_decode decoded
    have kept : s.stored = s :=
      Session.stored_eq_self (draft.mono fun v gives => gives.canonical)
        (fun saved present => (persisted saved present).mono fun v gives => gives.canonical)
        (editors.mono fun v gives => gives.canonical)
    exact (s.accepts .value _ .sorted).trans (congrArg _ kept)

/-- A function in other words than its encoding: a name under the other key, a node in the place of a
list, and the argument of a rest element. -/
def otherFunction : Json :=
  .obj [("pathToProject", .str "/p"), ("fileId", .str "a.js"), ("functionId", .str "f"),
    ("arguments", .arr [.obj [("name", .str "f"), ("body", .obj [("type", .str "RestElement"),
      ("argument", .obj [("type", .str "Identifier"), ("name", .str "xs")])])]])]

/-- A draft given by place, with a null for an id and a type that is the only name of an object. -/
def otherDraft : Json :=
  .arr [.null, .str "/p", .str "a.js", .str "f", .str "",
    .obj [("returnValue", .arr [.obj [("array", .null)], .arr [.obj []]])]]

/-- A session given by place, with an editor of an item whose target is given by place. -/
def otherSession : Json :=
  .arr [otherFunction, otherDraft, otherDraft, .arr [.arr [
    .arr [.str "Return value", .arr [.obj []], .arr [.obj []], .str "returnValue",
      .arr [.str "returnValue"]],
    .arr [.str "Return value[0]", .obj [], .null, .str "Return value",
      .arr [.str "field", .num (.int 0)]]]]]

theorem decode_encode_of_decode_other :
    (∃ d, Draft.decode.ofValue otherDraft = .ok d ∧
        Draft.decode.ofValue d.encode.sorted = .ok d) ∧
      (∃ f, AnalyzedFunction.decode.ofValue otherFunction = .ok f ∧
        AnalyzedFunction.decode.ofValue f.encode.sorted = .ok f) ∧
      ∃ s, Session.decode.ofValue otherSession = .ok s ∧
        Session.decode.ofValue s.encode.sorted = .ok s := by
  refine ⟨⟨_, rfl, ?_⟩, ⟨_, rfl, ?_⟩, _, rfl, ?_⟩
  · exact (decode_encode_of_decode otherDraft).1 _ rfl
  · exact (decode_encode_of_decode otherFunction).2.1 _ rfl
  · exact (decode_encode_of_decode otherSession).2.2 _ rfl

end Fixture
