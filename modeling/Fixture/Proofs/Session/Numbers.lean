import Fixture.Proofs.Json.Pretty
import Fixture.Proofs.Session.Encoding

/-!
The numbers of a session. Editing brings in no other numbers than those of the values at hand. What
is read back of a session's text is the session with its numbers as they are read.
-/

namespace Fixture

open Json
open Number (Bounded reread)

/-! ## Encodings -/

namespace Json

/-- A value whose numbers can be read back from their texts, and what is read of it. -/
structure Rereads (v w : Json) : Prop where
  bounded : v.Numbers Bounded
  read : v.mapNumbers reread = w

structure RereadsAll (ms ns : List (String × Json)) : Prop where
  bounded : ∀ m ∈ ms, m.2.Numbers Bounded
  read : mapValues (mapNumbers reread) ms = ns

variable {v w : Json} {ms ms' ns ns' : List (String × Json)} {α : Type}

theorem Rereads.null : Rereads .null .null := ⟨trivial, rfl⟩

theorem Rereads.str (s : String) : Rereads (.str s) (.str s) := ⟨trivial, rfl⟩

theorem Rereads.bool (b : Bool) : Rereads (.bool b) (.bool b) := ⟨trivial, rfl⟩

theorem Rereads.word {n : Nat} (fits : n < 2 ^ 64) : Rereads (.num (.int n)) (.num (.int n)) := by
  have bounded : (Number.int n).Bounded := ⟨by omega, by omega⟩
  exact ⟨bounded, congrArg Json.num (Number.reread_int bounded)⟩

theorem Rereads.obj (all : RereadsAll ms ns) : Rereads (.obj ms) (.obj ns) :=
  ⟨numbers_obj_iff.2 all.bounded, (mapNumbers_obj ms).trans (congrArg Json.obj all.read)⟩

theorem Rereads.arr {xs : List α} {f g : α → Json} (each : ∀ x ∈ xs, Rereads (f x) (g x)) :
    Rereads (.arr (xs.map f)) (.arr (xs.map g)) := by
  constructor
  · rw [numbers_arr_iff]
    intro v member
    obtain ⟨x, inside, rfl⟩ := List.mem_map.1 member
    exact (each x inside).bounded
  · rw [mapNumbers_arr, List.map_map]
    exact congrArg Json.arr (List.map_congr_left fun x inside => (each x inside).read)

theorem Rereads.list {vs : List Json} (each : ∀ v ∈ vs, Rereads v v) :
    Rereads (.arr vs) (.arr vs) := by
  have mapped := Rereads.arr each
  rwa [List.map_id'] at mapped

namespace RereadsAll

theorem nil : RereadsAll [] [] := ⟨by simp, rfl⟩

theorem cons (name : String) (first : Rereads v w) (rest : RereadsAll ms ns) :
    RereadsAll ((name, v) :: ms) ((name, w) :: ns) := by
  constructor
  · intro m member
    rcases List.mem_cons.1 member with rfl | later
    · exact first.bounded
    · exact rest.bounded m later
  · exact congrArg₂ _ (congrArg (name, ·) first.read) rest.read

theorem append (front : RereadsAll ms ns) (back : RereadsAll ms' ns') :
    RereadsAll (ms ++ ms') (ns ++ ns') := by
  constructor
  · intro m member
    rcases List.mem_append.1 member with inside | inside
    · exact front.bounded m inside
    · exact back.bounded m inside
  · rw [mapValues, List.map_append]
    exact congrArg₂ _ front.read back.read

theorem optional (name : String) {o : Option α} {f g : α → Json}
    (each : ∀ x ∈ o, Rereads (f x) (g x)) :
    RereadsAll (optionalMember name (o.map f)) (optionalMember name (o.map g)) := by
  cases o with
  | none => exact nil
  | some x => exact cons name (each x rfl) nil

end RereadsAll

end Json

def Json.reread? (v : Json) : Option Json := some (v.mapNumbers reread)

theorem Json.RereadsAll.value (name : String) {o : Option Json}
    (bounded : ∀ v ∈ o, v.Numbers Bounded) :
    RereadsAll (optionalMember name o) (optionalMember name (o.bind reread?)) := by
  cases o with
  | none => exact .nil
  | some v => exact .cons name ⟨bounded v rfl, rfl⟩ .nil

mutual

theorem Pattern.rereads : (p : Pattern) → Rereads p.encode p.encode
  | .identifier _ | .property _ => .obj (.cons _ (.str _) (.cons _ (.str _) .nil))
  | .object properties =>
    .obj (.cons _ (.str _) (.cons _ (.list (rereads_properties properties)) .nil))
  | .array elements =>
    .obj (.cons _ (.str _) (.cons _ (.list (rereads_elements elements)) .nil))
  | .rest inner => .obj (.cons _ (.str _) (.cons _ inner.rereads .nil))
  | .unrecognized => .obj (.cons _ (.str _) .nil)

theorem Pattern.rereads_properties : (ps : List Pattern) →
    ∀ v ∈ encodeProperties ps, Rereads v v
  | [] => fun _ member => absurd member List.not_mem_nil
  | p :: ps => List.forall_mem_cons.2 ⟨p.rereads, rereads_properties ps⟩

theorem Pattern.rereads_elements : (ps : List (Option Pattern)) →
    ∀ v ∈ encodeElements ps, Rereads v v
  | [] => fun _ member => absurd member List.not_mem_nil
  | none :: ps => List.forall_mem_cons.2 ⟨.null, rereads_elements ps⟩
  | some p :: ps => List.forall_mem_cons.2 ⟨p.rereads, rereads_elements ps⟩

end

theorem AnalyzedFunction.rereads (f : AnalyzedFunction) : Rereads f.encode f.encode := by
  refine .obj (.cons _ (.str _) (.cons _ (.str _) (.cons _ (.str _) (.cons _ (.arr ?_) .nil))))
  intro l _
  exact .obj (.cons _ (.str _) (.cons _ (.list (Pattern.rereads_properties l.body)) .nil))

theorem Slot.rereads {s : Slot} (values : s.Values (Numbers Bounded)) :
    Rereads s.encode (s.alter reread?).encode :=
  .obj (.append (.cons _ (.str _) (.cons _ (.str _) (.cons _ (.str _) .nil)))
    (.value "value" values))

theorem ReturnValue.rereads {r : ReturnValue} (values : r.Values (Numbers Bounded)) :
    Rereads r.encode (r.alter reread?).encode :=
  .obj (.cons _ (.str _) (.value "value" values))

theorem ExpectedException.rereads (e : ExpectedException) : Rereads e.encode e.encode :=
  .obj (.append (.cons _ (.bool _) (.optional "value" fun s _ => .str s))
    (.optional "message" fun s _ => .str s))

theorem Modules.rereads {ms : Modules} (values : ms.Values (Numbers Bounded)) :
    Rereads ms.encode (ms.alter reread?).encode := by
  refine .obj (.append (.append ?_ ?_) (.optional "exception" fun e _ => e.rereads))
  · rw [alter, Option.map_map]
    refine .optional "argumentList" fun slots listed => ?_
    show Rereads _ (.arr ((slots.map (Slot.alter reread?)).map Slot.encode))
    rw [List.map_map]
    exact .arr fun s member => Slot.rereads (values.slots slots listed s member)
  · rw [alter, Option.map_map]
    exact .optional "returnValue" fun r present =>
      ReturnValue.rereads (values.returnValue r present)

theorem Draft.rereads {d : Draft} (values : d.Values (Numbers Bounded)) :
    Rereads d.encode (d.alter reread?).encode :=
  .obj (.append (.optional "id" fun s _ => .str s)
    (.cons _ (.str _) (.cons _ (.str _) (.cons _ (.str _) (.cons _ (.str _)
      (.cons _ (Modules.rereads values) .nil))))))

theorem FieldKey.rereads (key : FieldKey) : Rereads key.encode key.encode := by
  cases key with
  | index i => exact .word i.toNat_lt
  | property name => exact .str name

theorem Target.rereads (t : Target) : Rereads t.encode t.encode := by
  cases t with
  | returnValue => exact .obj (.cons _ (.str _) .nil)
  | argument functionName name =>
    exact .obj (.cons _ (.str _) (.cons _ (.str _) (.cons _ (.str _) .nil)))
  | field key => exact .obj (.cons _ (.str _) (.cons _ key.rereads .nil))

theorem Frame.rereads {f : Frame} (values : f.Values (Numbers Bounded)) :
    Rereads f.encode (f.mapValues (mapNumbers reread)).encode :=
  .obj (.cons _ (.str _) (.cons _ ⟨values.initialValue, rfl⟩ (.cons _ ⟨values.value, rfl⟩
    (.cons _ (.str _) (.cons _ f.target.rereads .nil)))))

theorem Editors.rereads {es : Editors} (values : es.Values (Numbers Bounded)) :
    Rereads es.encode (es.mapValues (mapNumbers reread)).encode := by
  refine .obj (.cons "frames" ?_ (.optional "selected" fun s _ => .str s))
  show Rereads _ (.arr ((es.frames.map (Frame.mapValues (mapNumbers reread))).map Frame.encode))
  rw [List.map_map]
  exact .arr fun f member => Frame.rereads (values f member)

namespace Session

def reread (s : Session) : Session :=
  { s with
    draft := s.draft.alter reread?
    persisted := s.persisted.map (Draft.alter reread?)
    editors := s.editors.mapValues (mapNumbers Number.reread) }

theorem rereads {s : Session} (values : s.Values (Numbers Bounded)) :
    Rereads s.encode s.reread.encode := by
  refine .obj (.append (.append (.cons _ s.function.rereads (.cons _ (Draft.rereads values.draft)
    .nil)) ?_) (.cons _ (Editors.rereads values.editors) .nil))
  rw [reread, Option.map_map]
  exact .optional "persisted" fun d present => Draft.rereads (values.persisted d present)

end Session

/-! ## Editing -/

variable {P : Number → Prop}

theorem Json.editable_numbers : Editable (Numbers P) where
  emptyArray := numbers_arr_iff.2 (by simp)
  emptyObject := numbers_obj_iff.2 (by simp)
  field {key v w} numbers found _ := by
    cases key with
    | index i =>
      cases v with
      | arr items => exact numbers_arr_iff.1 numbers w (List.mem_of_getElem? found)
      | _ => cases found
    | property name =>
      cases v with
      | obj members => exact numbers_obj_iff.1 numbers _ (mem_of_lookup found)
      | _ => cases found
  change {key v w} numbers numbers' := by
    cases v with
    | arr items =>
      cases key with
      | index i =>
        refine numbers_arr_iff.2 fun item member => ?_
        rcases List.mem_or_eq_of_mem_set member with old | rfl
        · exact numbers_arr_iff.1 numbers item old
        · exact numbers'
      | property name => exact numbers
    | obj members =>
      cases key with
      | index i => exact numbers
      | property name =>
        refine numbers_obj_iff.2 fun m member => ?_
        rcases mem_replaceMember member with same | old
        · exact same ▸ numbers'
        · exact numbers_obj_iff.1 numbers m old
    | _ => exact numbers

theorem Command.numbers_of_ofEnvelope {v : Json} {c : Command} (numbers : v.Numbers P)
    (parsed : ofEnvelope v = .ok (.command c)) : c.Values (Numbers P) := by
  obtain ⟨-, -, e, decoded, values⟩ := ofEnvelope_inv parsed
  have payload : e.payload.Numbers P := by
    have decoded : Envelope.decode .value (.ofJson v) = .ok e := decoded
    obtain ⟨p, -, parts, built⟩ := Decoder.record_ok decoded
    simp only [Part.seq_ok, Part.map_ok] at built
    obtain ⟨_, ⟨_, ⟨_, -, rfl⟩, _, -, rfl⟩, payload, last, rfl⟩ := built
    rcases Parts.withDefault_ok parts last with rfl | ⟨d, inside, decoded⟩
    · trivial
    · have within := (Document.numbers_ofJson numbers).within inside
      exact Document.numbers_of_toJson d within (Decoder.json_ok decoded)
  exact values.mono fun w gives => gives.1.numbers (Document.numbers_ofJson payload)

theorem Session.numbers_of_decode {origin : Origin} {d : Document} {s : Session}
    (numbers : d.Numbers P) (decoded : decode origin d = .ok s) : s.Values (Numbers P) := by
  obtain ⟨draft, persisted, editors⟩ := values_of_decode decoded
  exact ⟨draft.mono fun v gives => gives.1.numbers numbers,
    fun saved present => (persisted saved present).mono fun v gives => gives.1.numbers numbers,
    editors.mono fun v gives => gives.numbers numbers⟩

end Fixture
