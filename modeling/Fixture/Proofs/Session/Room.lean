import Fixture.Proofs.Json.Room
import Fixture.Proofs.Session.Encoding

/-!
The room that a session needs. Every part of a session is looked into when it is read, so that the
text of a session is refused if it is nested too deep.
-/

namespace Fixture

open Json
open Document (maxDepth)

namespace Json

variable {name : String} {o : Option Json}

theorem mem_optionalMember {m : String × Json} :
    m ∈ optionalMember name o ↔ ∃ v ∈ o, m = (name, v) := by
  cases o <;> simp [optionalMember]

theorem forall_mem_optionalMember {P : String × Json → Prop} :
    (∀ m ∈ optionalMember name o, P m) ↔ ∀ v ∈ o, P (name, v) := by
  cases o <;> simp [optionalMember]

theorem Parts.Nests.optional {α : Type} {p : Parts} {fields : List (List String)} {outer : Nat}
    {members : List (String × Json)} {decode : Decoder α} {a : Option α}
    (nests : p.Nests fields outer members) (done : (p.optional name decode).outcome = .ok a)
    (bounds : ∀ v ∈ o, decode.Bounds v) (member : ∀ m ∈ optionalMember name o, m ∈ members)
    (own : name ∈ namesOf fields name) : ∀ v ∈ o, outer + v.depth ≤ maxDepth :=
  fun v given => nests.fieldOr done (bounds v given).option own
    (member _ (mem_optionalMember.2 ⟨v, given, rfl⟩))

end Json

theorem ParameterList.bounds (l : ParameterList) : decode.Bounds l.encode := by
  refine Decoder.bounds_record fun nests built => ?_
  simp only [Part.seq_ok, Part.map_ok] at built
  obtain ⟨_, ⟨_, -, rfl⟩, _, body, rfl⟩ := built
  have listed (v : Json) : Decoder.Bounds
      (fun _ d => Pattern.listOfNode <$> Decoder.ofFault d.toJson) v := by
    refine Decoder.bounds_of_toJson (fun d a decoded => ?_) v
    cases given : d.toJson with
    | error f => rw [given] at decoded; cases decoded
    | ok w => exact ⟨w, rfl⟩
  simp only [List.forall_mem_cons]
  exact ⟨nests.flat rfl, nests.withDefault body (listed _) (by simp) (by simp), nofun⟩

theorem AnalyzedFunction.bounds (f : AnalyzedFunction) : decode.Bounds f.encode := by
  refine Decoder.bounds_record fun nests built => ?_
  simp only [Part.seq_ok, Part.map_ok] at built
  obtain ⟨_, ⟨_, ⟨_, ⟨_, -, rfl⟩, _, -, rfl⟩, _, -, rfl⟩, _, arguments, rfl⟩ := built
  simp only [List.forall_mem_cons]
  exact ⟨nests.flat rfl, nests.flat rfl, nests.flat rfl,
    nests.withDefault arguments (.list fun l _ => l.bounds) (by simp) (by simp), nofun⟩

theorem Slot.bounds (s : Slot) : decode.Bounds s.encode := by
  refine Decoder.bounds_record fun nests built => ?_
  simp only [Part.seq_ok, Part.map_ok] at built
  obtain ⟨_, ⟨_, ⟨_, ⟨_, -, rfl⟩, _, -, rfl⟩, _, -, rfl⟩, _, value, rfl⟩ := built
  simp only [List.forall_mem_append, List.forall_mem_cons, forall_mem_optionalMember]
  refine ⟨⟨nests.flat rfl, nests.flat rfl, nests.flat rfl, nofun⟩,
    nests.optional value (fun v _ => Decoder.bounds_json v) ?_ ?_⟩
  all_goals simp +contextual

theorem ReturnValue.bounds (r : ReturnValue) : decode.Bounds r.encode := by
  refine Decoder.bounds_record fun nests built => ?_
  simp only [Part.seq_ok, Part.map_ok] at built
  obtain ⟨_, ⟨_, -, rfl⟩, _, value, rfl⟩ := built
  simp only [List.forall_mem_cons, forall_mem_optionalMember]
  refine ⟨nests.flat rfl, nests.optional value (fun v _ => Decoder.bounds_json v) ?_ ?_⟩
  all_goals simp +contextual

theorem ExpectedException.bounds (e : ExpectedException) : decode.Bounds e.encode := by
  refine Decoder.bounds_record fun nests built => ?_
  simp only [List.forall_mem_append, List.forall_mem_cons, forall_mem_optionalMember]
  refine ⟨⟨nests.flat rfl, fun v given => nests.flat ?_⟩, fun v given => nests.flat ?_⟩
  all_goals
    obtain ⟨s, -, rfl⟩ := Option.mem_map.1 given
    rfl

theorem Modules.bounds (ms : Modules) : decode.Bounds ms.encode := by
  refine Decoder.bounds_record fun nests built => ?_
  simp only [Part.seq_ok, Part.map_ok] at built
  obtain ⟨_, ⟨_, ⟨_, slots, rfl⟩, _, returned, rfl⟩, _, thrown, rfl⟩ := built
  simp only [List.forall_mem_append, forall_mem_optionalMember]
  refine ⟨⟨nests.optional slots (fun v given => ?_) (by simp +contextual) (by simp),
    nests.optional returned (fun v given => ?_) (by simp +contextual) (by simp)⟩,
    nests.optional thrown (fun v given => ?_) (by simp +contextual) (by simp)⟩
  · obtain ⟨all, -, rfl⟩ := Option.mem_map.1 given
    exact .list fun s _ => s.bounds
  · obtain ⟨r, -, rfl⟩ := Option.mem_map.1 given
    exact r.bounds
  · obtain ⟨e, -, rfl⟩ := Option.mem_map.1 given
    exact e.bounds

theorem Draft.bounds (d : Draft) : decode.Bounds d.encode := by
  refine Decoder.bounds_record fun nests built => ?_
  simp only [Part.seq_ok, Part.map_ok] at built
  obtain ⟨_, ⟨_, ⟨_, ⟨_, ⟨_, ⟨_, -, rfl⟩, _, -, rfl⟩, _, -, rfl⟩, _, -, rfl⟩, _, -, rfl⟩, _, modules,
    rfl⟩ := built
  simp only [List.forall_mem_append, List.forall_mem_cons, forall_mem_optionalMember]
  refine ⟨fun v given => ?_, nests.flat rfl, nests.flat rfl, nests.flat rfl, nests.flat rfl,
    nests.withDefault modules d.modules.bounds (by simp) (by simp), nofun⟩
  obtain ⟨s, -, rfl⟩ := Option.mem_map.1 given
  exact nests.flat rfl

theorem Target.bounds (t : Target) : decode.Bounds t.encode := by
  cases t <;> exact Decoder.bounds_tagged

theorem Frame.bounds (f : Frame) : decode.Bounds f.encode := by
  refine Decoder.bounds_record fun nests built => ?_
  simp only [Part.seq_ok, Part.map_ok] at built
  obtain ⟨_, ⟨_, ⟨_, ⟨_, ⟨_, -, rfl⟩, _, initial, rfl⟩, _, value, rfl⟩, _, -, rfl⟩, _, target,
    rfl⟩ := built
  simp only [members, List.forall_mem_cons] at nests ⊢
  refine ⟨nests.flat rfl, nests.required initial (Decoder.bounds_json _) ?_ ?_,
    nests.required value (Decoder.bounds_json _) ?_ ?_, nests.flat rfl,
    nests.required target f.target.bounds ?_ ?_, List.forall_mem_nil _⟩
  all_goals simp

theorem Editors.bounds (es : Editors) : decode.Bounds es.encode := by
  refine Decoder.bounds_record fun nests built => ?_
  simp only [Part.seq_ok, Part.map_ok] at built
  obtain ⟨_, ⟨_, frames, rfl⟩, _, -, rfl⟩ := built
  simp only [List.forall_mem_cons, forall_mem_optionalMember]
  refine ⟨nests.required frames (.list fun f _ => f.bounds) (by simp) (by simp),
    fun v given => ?_⟩
  obtain ⟨s, -, rfl⟩ := Option.mem_map.1 given
  exact nests.flat rfl

theorem Session.bounds (s : Session) : decode.Bounds s.encode := by
  refine Decoder.bounds_record fun nests built => ?_
  simp only [Part.seq_ok, Part.map_ok] at built
  obtain ⟨_, ⟨_, ⟨_, ⟨_, function, rfl⟩, _, draft, rfl⟩, _, persisted, rfl⟩, _, editors,
    rfl⟩ := built
  simp only [List.forall_mem_append, List.forall_mem_cons, forall_mem_optionalMember]
  refine ⟨⟨⟨nests.required function s.function.bounds (by simp) (by simp),
    nests.required draft s.draft.bounds (by simp) (by simp), nofun⟩,
    nests.optional persisted (fun v given => ?_) (by simp +contextual) (by simp)⟩,
    nests.withDefault editors s.editors.bounds (by simp) (by simp), nofun⟩
  obtain ⟨d, -, rfl⟩ := Option.mem_map.1 given
  exact d.bounds

end Fixture
