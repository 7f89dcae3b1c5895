import Fixture.Proofs.Json.Accepted
import Fixture.Proofs.Json.Decoded
import Fixture.Proofs.Json.Pretty

/-!
Decoding of deep documents. What is nested too deep may be passed over but not decoded, so that a
decoder that looks into every part of a value refuses it where there is too little room.
-/

namespace Fixture.Json

open Document (maxDepth nested)

variable {α β : Type} {v : Json} {outer : Nat}

theorem depth_obj_le {members : List (String × Json)} (room : outer < maxDepth)
    (each : ∀ m ∈ members, outer + 1 + m.2.depth ≤ maxDepth) :
    outer + (obj members).depth ≤ maxDepth := by
  have all : outer + 1 + depthMembers members ≤ maxDepth := by
    induction members with
    | nil => exact room
    | cons m ms ih =>
      obtain ⟨first, rest⟩ := List.forall_mem_cons.1 each
      have later := ih rest
      rw [depthMembers]
      omega
  rw [depth]
  omega

theorem depth_arr_le {items : List Json} (room : outer < maxDepth)
    (each : ∀ u ∈ items, outer + 1 + u.depth ≤ maxDepth) :
    outer + (arr items).depth ≤ maxDepth := by
  have all : outer + 1 + depthItems items ≤ maxDepth := by
    induction items with
    | nil => exact room
    | cons u us ih =>
      obtain ⟨first, rest⟩ := List.forall_mem_cons.1 each
      have later := ih rest
      rw [depthItems]
      omega
  rw [depth]
  omega

namespace Document

theorem items_ok {ds : List Document} {vs : List Json} (given : itemsToJson ds = .ok vs) :
    ∀ d ∈ ds, ∃ v, d.toJson = .ok v := by
  induction ds generalizing vs with
  | nil => exact fun d member => absurd member List.not_mem_nil
  | cons d ds ih =>
    obtain ⟨v, rest, first, later, -⟩ := itemsToJson_cons given
    exact List.forall_mem_cons.2 ⟨⟨v, first⟩, ih later⟩

theorem members_ok {members : List Member} {ms : List (String × Json)}
    (given : membersToJson members = .ok ms) : ∀ m ∈ members, ∃ v, m.2.toJson = .ok v := by
  induction members generalizing ms with
  | nil => exact fun m member => absurd member List.not_mem_nil
  | cons m members ih =>
    obtain ⟨name, v, rest, -, first, later, -⟩ := membersToJson_cons given
    exact List.forall_mem_cons.2 ⟨⟨v, first⟩, ih later⟩

theorem room_of_toJson {w : Json} (inside : outer ≤ maxDepth)
    (given : (nested outer v).toJson = .ok w) : outer + v.depth ≤ maxDepth := by
  induction v using induct generalizing outer w with
  | arr items ih =>
    rw [nested_arr, atDepth] at given
    split at given
    next room =>
      obtain ⟨vs, listed, -⟩ := toJson_arr given
      refine depth_arr_le room fun u member => ?_
      obtain ⟨w, given⟩ := items_ok listed _ (List.mem_map_of_mem member)
      exact ih u member room given
    · cases given
  | obj members ih =>
    rw [nested_obj, atDepth] at given
    split at given
    next room =>
      obtain ⟨ms, listed, -⟩ := toJson_obj given
      refine depth_obj_le room fun m member => ?_
      obtain ⟨w, given⟩ := members_ok listed _ (List.mem_map_of_mem member)
      exact ih m member room given
    · cases given
  | _ => exact inside

end Document

/-- The value is accepted only where there is room for it. -/
def Decoder.Bounds (decode : Decoder α) (v : Json) : Prop :=
  ∀ (outer : Nat) (a : α), outer ≤ maxDepth → decode .text (nested outer v) = .ok a →
    outer + v.depth ≤ maxDepth

structure Parts.Nests (p : Parts) (fields : List (List String)) (outer : Nat)
    (members : List (String × Json)) : Prop where
  fields_eq : p.fields = fields
  origin : p.origin = .text
  body : p.body = .inl (members.map fun m => (.ok m.1, nested outer m.2))
  room : outer ≤ maxDepth

namespace Parts

variable {p : Parts} {fields : List (List String)} {members : List (String × Json)}
  {decode : Decoder α} {field : String} {a : α}

theorem mem_membersUnder {names : List String} (member : (field, v) ∈ members)
    (own : field ∈ names) (outer place : Nat) :
    ∃ i, (i, nested outer v) ∈
      membersUnder names place (members.map fun m => (.ok m.1, nested outer m.2)) := by
  induction members generalizing place with
  | nil => cases member
  | cons m rest ih =>
    rw [List.map_cons, membersUnder]
    rcases List.mem_cons.1 member with rfl | later
    · rw [if_pos (List.contains_iff_mem.2 own)]
      exact ⟨place, List.mem_cons_self⟩
    · obtain ⟨i, found⟩ := ih later (place + 1)
      refine ⟨i, ?_⟩
      split
      · exact List.mem_cons_of_mem _ found
      · exact found

namespace Nests

theorem fieldOr (nests : p.Nests fields outer members) {otherwise : Part α}
    (done : (p.fieldOr field decode otherwise).outcome = .ok a) (bounds : decode.Bounds v)
    (own : field ∈ namesOf fields field) (member : (field, v) ∈ members) :
    outer + v.depth ≤ maxDepth := by
  have names : p.fields.getD (p.place field) [] = namesOf fields field := by
    rw [place, nests.fields_eq]
    rfl
  obtain ⟨i, found⟩ := mem_membersUnder member own outer 0
  have given : (i, nested outer v) ∈ p.given field := by
    simp only [given, nests.body, names]
    exact found
  rcases fieldOr_ok done with ⟨nothing, -⟩ | ⟨j, d, single, decoded⟩
  · rw [nothing] at given
    cases given
  · rw [single, List.mem_singleton] at given
    obtain ⟨-, rfl⟩ := Prod.mk.inj given
    rw [nests.origin] at decoded
    exact bounds _ _ nests.room decoded

theorem flat (nests : p.Nests fields outer members) (flat : v.depth = 0) :
    outer + v.depth ≤ maxDepth := by
  rw [flat]
  exact nests.room

theorem required (nests : p.Nests fields outer members)
    (done : (p.required field decode).outcome = .ok a) (bounds : decode.Bounds v)
    (member : (field, v) ∈ members) (own : field ∈ namesOf fields field) :
    outer + v.depth ≤ maxDepth :=
  nests.fieldOr done bounds own member

theorem withDefault (nests : p.Nests fields outer members) {default : α}
    (done : (p.withDefault field default decode).outcome = .ok a) (bounds : decode.Bounds v)
    (member : (field, v) ∈ members) (own : field ∈ namesOf fields field) :
    outer + v.depth ≤ maxDepth :=
  nests.fieldOr done bounds own member

end Nests

end Parts

namespace Decoder

theorem bounds_of_toJson {decode : Decoder α}
    (reads : ∀ d a, decode .text d = .ok a → ∃ w, d.toJson = .ok w) (v : Json) :
    decode.Bounds v := by
  intro outer a inside decoded
  obtain ⟨w, given⟩ := reads _ a decoded
  exact Document.room_of_toJson inside given

theorem bounds_json (v : Json) : json.Bounds v :=
  bounds_of_toJson (fun _ v decoded => ⟨v, json_ok decoded⟩) v

theorem Bounds.option {inner : Decoder α} (bounds : inner.Bounds v) : (option inner).Bounds v := by
  intro outer a inside decoded
  unfold Decoder.option at decoded
  split at decoded
  next null =>
    refine Document.room_of_toJson (w := .null) inside ?_
    rw [null]
    rfl
  · cases given : inner .text (nested outer v) with
    | error e => rw [given] at decoded; cases decoded
    | ok b => exact bounds _ _ inside given

theorem Bounds.list {inner : Decoder α} {xs : List β} {encode : β → Json}
    (bounds : ∀ x ∈ xs, inner.Bounds (encode x)) :
    (list inner).Bounds (.arr (xs.map encode)) := by
  intro outer as inside decoded
  rw [Document.nested_arr, Document.atDepth] at decoded
  split at decoded
  next room =>
    obtain ⟨values, done, -⟩ := bind_ok decoded
    refine depth_arr_le room fun u member => ?_
    obtain ⟨x, inside, rfl⟩ := List.mem_map.1 member
    obtain ⟨a, decoded⟩ := mapM_each done _ (List.mem_map_of_mem member)
    exact bounds x inside _ _ room decoded
  · cases decoded

theorem bounds_record {label : String} {fields : List (List String)} {build : Parts → Part α}
    {members : List (String × Json)}
    (each : ∀ {p : Parts} {outer : Nat} {a : α}, p.Nests fields outer members →
      (build p).outcome = .ok a → ∀ m ∈ members, outer + m.2.depth ≤ maxDepth) :
    (record label fields build).Bounds (.obj members) := by
  intro outer a inside decoded
  rw [Document.nested_obj, Document.atDepth] at decoded
  split at decoded
  next room =>
    obtain ⟨p, origin, fields_eq, parts, built⟩ := record_inv decoded
    refine depth_obj_le room (each (p := p) ⟨fields_eq, origin, ?_, room⟩ built)
    obtain ⟨label, fields, origin, body, ending⟩ := p
    cases body with
    | inl ms => exact congrArg Sum.inl (Document.obj.inj parts).1.symm
    | inr items => cases parts
  · cases decoded

theorem setAside_ok {tag : String} {ending : Ending} {ms : List Member} {place : Nat}
    (done : (setAside place tag ending ms).outcome = .ok ()) :
    ∀ m ∈ ms, m.1 ≠ .ok tag → ∃ w, m.2.toJson = .ok w := by
  induction ms generalizing place with
  | nil => exact fun m member => absurd member List.not_mem_nil
  | cons m ms ih =>
    obtain ⟨key, d⟩ := m
    cases key with
    | error f => cases done
    | ok name =>
      rw [setAside] at done
      split at done
      next own =>
        exact List.forall_mem_cons.2 ⟨fun other => absurd (congrArg _ own) other, ih done⟩
      · cases given : d.toJson with
        | error f => rw [given] at done; cases done
        | ok w =>
          rw [given] at done
          exact List.forall_mem_cons.2 ⟨fun _ => ⟨w, given⟩, ih done⟩

theorem variant_ok {known : List (String × α)} {origin : Origin} {d : Document} {a : α}
    (decoded : variant known origin d = .ok a) : ∃ w, d.toJson = .ok w := by
  unfold variant at decoded
  split at decoded
  next value =>
    cases value with
    | error f => cases decoded
    | ok name => exact ⟨.str name, rfl⟩
  · unfold mismatch at decoded
    split at decoded <;> cases decoded

/-- What is set aside until the tag is known is looked into before. -/
theorem bounds_tagged {label tag : String} {variants : List (String × Decoder α)}
    {members : List (String × Json)} : (tagged label tag variants).Bounds (.obj members) := by
  intro outer a inside decoded
  rw [Document.nested_obj, Document.atDepth] at decoded
  split at decoded
  next room =>
    obtain ⟨decode, chosen, -⟩ := bind_ok decoded
    obtain ⟨g, first, decode, kind, -⟩ := Part.seq_ok.1 (ok_of_mapError chosen)
    obtain ⟨_, aside, -⟩ := Part.map_ok.1 first
    have nests : Parts.Nests ⟨label, [[tag]], .text, .inl _, .closed⟩ [[tag]] (outer + 1) members :=
      ⟨rfl, rfl, rfl, room⟩
    refine depth_obj_le room fun m member => ?_
    by_cases own : m.1 = tag
    · refine nests.fieldOr kind
        (bounds_of_toJson (fun _ _ decoded => variant_ok decoded) m.2) (by simp) ?_
      rw [← own]
      exact member
    · obtain ⟨w, given⟩ := setAside_ok aside _ (List.mem_map_of_mem member)
        (fun same => own (Except.ok.inj same))
      exact Document.room_of_toJson room given
  · cases decoded

end Decoder

end Fixture.Json
