import Fixture.Proofs.Draft.Encoding

/-!
Envelopes of commands. A command is read back from its envelope, less the values that are null. An
envelope that holds a command gives it its kind and its tag, and no value in it is null.
-/

namespace Fixture

open Json

/-! ## Reading a command back -/

namespace Envelope

theorem accepts (kind : String) (tag : Option String) (payload : Option Json) :
    decode.Accepts
      (.obj <| ("kind", .str kind) :: optionalMember "tag" (tag.map .str) ++
        optionalMember "payload" payload)
      ⟨kind, tag, (payload.map sorted).getD .null⟩ := by
  refine Decoder.accepts_record ?_ fun p offers => ?_
  · cases tag <;> cases payload <;> simp [Distinct, optionalMember]
  rw [offers.required "kind" (Decoder.accepts_text kind) (by simp) (by simp),
    offers.optional "tag" tag (fun s _ => Decoder.accepts_text s) (by simp) (by simp) (by simp)]
  cases payload with
  | none =>
    rw [Parts.withDefault, offers.fieldOr_none (by simp) (by simp) (by simp)]
    simp only [Option.map_id_fun', id_eq]
    rfl
  | some v =>
    rw [offers.withDefault "payload" (Decoder.accepts_json v) (by simp) (by simp)]
    simp only [Option.map_id_fun', id_eq]
    rfl

theorem read_ok {α : Type} {decoder : Decoder α} {v : Json} {a : α}
    (accepts : decoder.Accepts v a) (kind tag : String) (given : Option String)
    (command : α → Command) :
    read ⟨kind, given, v.sorted⟩ tag decoder command = .ok (.command (command a)) := by
  have decoded : decoder.ofValue v.sorted = .ok a := accepts .value v.sorted .sorted
  rw [read, decoded]

end Envelope

namespace Command

theorem ofEnvelope_toEnvelope_eq (c : Command) :
    ofEnvelope c.toEnvelope = .ok (.command (c.alter stored?)) := by
  have envelope : Envelope.decode.ofValue c.toEnvelope =
      .ok ⟨c.kind, c.tag?, (c.payload?.map sorted).getD .null⟩ :=
    Envelope.accepts c.kind c.tag? c.payload? .value _ .sorted
  rw [ofEnvelope, envelope]
  cases c with
  | setDraft d => exact Envelope.read_ok d.accepts _ "" _ .setDraft
  | clear => rfl
  | discard => rfl
  | addModule m => exact Envelope.read_ok m.accepts _ "addModule" _ .addModule
  | removeModule m => exact Envelope.read_ok m.accepts _ "removeModule" _ .removeModule
  | changeArgument s => exact Envelope.read_ok s.accepts _ "changeArgument" _ .changeArgument
  | updateReturnValue r =>
    exact Envelope.read_ok r.accepts _ "updateReturnValue" _ .updateReturnValue
  | updateException e => exact Envelope.read_ok e.accepts _ "updateException" _ .updateException
  | rename name =>
    exact Envelope.read_ok (Decoder.accepts_text name) "customName" "rename" (some "rename") .rename

end Command

/-! ## What an envelope gives -/

/-- What a record that may be given by name or by place has in a field. -/
def Json.part? (name : String) (place : Nat) : Json → Option Json
  | .obj members => lookup name members
  | .arr items => items[place]?
  | _ => none

namespace Json.Parts

theorem lookup_of_membersUnder {name : String} {place i : Nat} {members : List (String × Json)}
    {d : Document} (single : membersUnder [name] place (Document.membersOf members) = [(i, d)]) :
    ∃ w, lookup name members = some w ∧ d = .ofJson w := by
  induction members generalizing place with
  | nil => cases single
  | cons m rest ih =>
    obtain ⟨key, w⟩ := m
    rw [Document.membersOf, membersUnder] at single
    rw [lookup_cons]
    split at single
    next here =>
      have same : key = name := by simpa using here
      obtain ⟨first, -⟩ := List.cons.inj single
      exact ⟨w, if_pos same, (Prod.mk.inj first).2.symm⟩
    next other =>
      have different : key ≠ name := by simpa using other
      rw [if_neg different]
      exact ih single

theorem part?_of_given {p : Parts} {v : Json} {field : String} {i : Nat} {d : Document}
    (parts : p.Of (.ofJson v)) (single : p.fields.getD (p.place field) [] = [field])
    (given : p.given field = [(i, d)]) :
    ∃ w, v.part? field (p.place field) = some w ∧ d = .ofJson w := by
  obtain ⟨label, fields, origin, body, ending⟩ := p
  cases body with
  | inl members =>
    cases v with
    | obj ms =>
      obtain ⟨rfl, -⟩ := Document.obj.inj parts
      simp only [Parts.given, single] at given
      exact lookup_of_membersUnder given
    | _ => cases parts
  | inr items =>
    cases v with
    | arr vs =>
      obtain ⟨rfl, -⟩ := Document.arr.inj parts
      simp only [Parts.given, Document.itemsOf_eq, List.getElem?_map,
        Option.toList_eq_singleton_iff, Option.map_eq_some_iff] at given
      obtain ⟨_, ⟨w, found, rfl⟩, same⟩ := given
      rw [Document.itemsOf_eq]
      exact ⟨w, found, (Prod.mk.inj same).2.symm⟩
    | _ => cases parts

end Json.Parts

namespace Envelope

variable {e : Envelope} {c : Command} {v : Json}

theorem decode_parts (decoded : decode .value (.ofJson v) = .ok e) :
    v.part? "kind" 0 = some (.str e.kind) ∧
      ∀ tag, e.tag = some tag → v.part? "tag" 1 = some (.str tag) := by
  obtain ⟨p, fields, parts, built⟩ := Decoder.record_ok decoded
  simp only [Part.seq_ok, Part.map_ok] at built
  obtain ⟨_, ⟨_, ⟨kind, first, rfl⟩, tag, second, rfl⟩, payload, third, rfl⟩ := built
  have text {field : String} {i : Nat} {d : Document} {s : String}
      (single : p.fields.getD (p.place field) [] = [field]) (given : p.given field = [(i, d)])
      (decoded : Decoder.text p.origin d = .ok s) :
      v.part? field (p.place field) = some (.str s) := by
    obtain ⟨w, found, rfl⟩ := Parts.part?_of_given parts single given
    rw [found, Document.ofJson_eq_text (Decoder.text_ok decoded)]
  have kind_place : p.place "kind" = 0 := by rw [Parts.place, fields]; rfl
  have tag_place : p.place "tag" = 1 := by rw [Parts.place, fields]; rfl
  constructor
  · obtain ⟨i, d, given, decoded⟩ := Parts.required_given first
    rw [← kind_place]
    exact text (by rw [kind_place, fields]; rfl) given decoded
  · rintro t rfl
    obtain ⟨i, d, given, -, decoded⟩ := Parts.optional_given second
    rw [← tag_place]
    exact text (by rw [tag_place, fields]; rfl) given decoded

theorem read_inv {α : Type} {tag : String} {decoder : Decoder α} {command : α → Command}
    (done : e.read tag decoder command = .ok (.command c)) :
    ∃ a, decoder.ofValue e.payload = .ok a ∧ c = command a := by
  rw [read] at done
  split at done
  next a decoded => exact ⟨a, decoded, (Parsed.command.inj (Except.ok.inj done)).symm⟩
  · cases done

theorem select_cons_inv {name : String} {result : Except CommandError Parsed} {found : Parsed}
    {rest : List (String × Except CommandError Parsed)}
    (done : e.select ((name, result) :: rest) = .ok found) :
    e.tag = some name ∧ result = .ok found ∨ e.select rest = .ok found := by
  unfold select at done ⊢
  split at done
  · cases done
  next tag given =>
    rw [List.lookup_cons] at done
    split at done
    next here =>
      obtain rfl : tag = name := by simpa using here
      exact .inl ⟨given, done⟩
    · exact .inr done

theorem select_single_inv {name : String} {result : Except CommandError Parsed} {found : Parsed}
    (done : e.select [(name, result)] = .ok found) : e.tag = some name ∧ result = .ok found := by
  rcases select_cons_inv done with listed | done
  · exact listed
  · unfold select at done
    split at done <;> cases done

theorem parse_inv (parsed : e.parse = .ok (.command c)) :
    e.kind = c.kind ∧ (∀ tag, c.tag? = some tag → e.tag = some tag) ∧
      c.Values (Document.ofJson e.payload).GivesSome := by
  unfold parse at parsed
  split at parsed
  next kind =>
    obtain ⟨d, decoded, rfl⟩ := read_inv parsed
    exact ⟨kind, by rintro _ ⟨⟩, Draft.values_of_decode decoded⟩
  next kind =>
    obtain rfl := Parsed.command.inj (Except.ok.inj parsed)
    exact ⟨kind, by rintro _ ⟨⟩, trivial⟩
  next kind =>
    obtain rfl := Parsed.command.inj (Except.ok.inj parsed)
    exact ⟨kind, by rintro _ ⟨⟩, trivial⟩
  next kind =>
    rcases select_cons_inv parsed with ⟨given, done⟩ | parsed
    · obtain ⟨m, -, rfl⟩ := read_inv done
      exact ⟨kind, fun _ same => same ▸ given, trivial⟩
    · obtain ⟨given, done⟩ := select_single_inv parsed
      obtain ⟨m, -, rfl⟩ := read_inv done
      exact ⟨kind, fun _ same => same ▸ given, trivial⟩
  next kind =>
    obtain ⟨given, done⟩ := select_single_inv parsed
    obtain ⟨s, decoded, rfl⟩ := read_inv done
    exact ⟨kind, fun _ same => same ▸ given, Slot.values_of_decode decoded⟩
  next kind =>
    obtain ⟨given, done⟩ := select_single_inv parsed
    obtain ⟨r, decoded, rfl⟩ := read_inv done
    exact ⟨kind, fun _ same => same ▸ given, ReturnValue.values_of_decode decoded⟩
  next kind =>
    obtain ⟨given, done⟩ := select_single_inv parsed
    obtain ⟨x, -, rfl⟩ := read_inv done
    exact ⟨kind, fun _ same => same ▸ given, trivial⟩
  next kind =>
    obtain ⟨given, done⟩ := select_single_inv parsed
    obtain ⟨name, -, rfl⟩ := read_inv done
    exact ⟨kind, fun _ same => same ▸ given, trivial⟩
  · cases parsed

end Envelope

namespace Command

variable {c : Command} {v : Json}

theorem ofEnvelope_inv (parsed : ofEnvelope v = .ok (.command c)) :
    v.part? "kind" 0 = some (.str c.kind) ∧
      (∀ tag, c.tag? = some tag → v.part? "tag" 1 = some (.str tag)) ∧
      ∃ e, Envelope.decode.ofValue v = .ok e ∧
        c.Values (Document.ofJson e.payload).GivesSome := by
  rw [ofEnvelope] at parsed
  split at parsed
  next e decoded =>
    obtain ⟨kind, tag, values⟩ := Envelope.parse_inv parsed
    obtain ⟨given_kind, given_tag⟩ := Envelope.decode_parts decoded
    refine ⟨kind ▸ given_kind, fun t tagged => given_tag t (tag t tagged), e, decoded, values⟩
  · cases parsed

/-- No value of a command that an envelope holds is null, and all are in order. -/
theorem values_of_ofEnvelope (parsed : ofEnvelope v = .ok (.command c)) :
    c.Values fun w => w.Canonical ∧ w ≠ .null := by
  obtain ⟨-, -, e, -, values⟩ := ofEnvelope_inv parsed
  exact values.mono fun w gives => gives.canonical

theorem ofEnvelope_toEnvelope_withoutNulls (canonical : c.Values Canonical) :
    ofEnvelope c.toEnvelope = .ok (.command c.withoutNulls) := by
  rw [ofEnvelope_toEnvelope_eq, withoutNulls,
    alter_congr (canonical.mono fun w => stored?_of_canonical)]

theorem withoutNulls_eq_self_iff : c.withoutNulls = c ↔ c.Values (· ≠ .null) := by
  rw [withoutNulls, alter_eq_self_iff]
  simp only [unlessNull_eq_some_iff]

/-- A command is read back from its envelope without its values that are null, so that it is the
same exactly if there are none. A command that any envelope holds is read back as it is, and it has
the kind and the tag of that envelope. -/
theorem ofEnvelope_toEnvelope :
    (∀ c : Command, c.Values Canonical →
      ofEnvelope c.toEnvelope = .ok (.command c.withoutNulls) ∧
        (ofEnvelope c.toEnvelope = .ok (.command c) ↔ c.Values (· ≠ .null))) ∧
      ∀ (v : Json) (c : Command), ofEnvelope v = .ok (.command c) →
        ofEnvelope c.toEnvelope = .ok (.command c) ∧
          v.part? "kind" 0 = some (.str c.kind) ∧
          ∀ tag, c.tag? = some tag → v.part? "tag" 1 = some (.str tag) := by
  constructor
  · intro c canonical
    have read := ofEnvelope_toEnvelope_withoutNulls canonical
    refine ⟨read, ?_⟩
    rw [read, Except.ok.injEq, Parsed.command.injEq]
    exact withoutNulls_eq_self_iff
  · intro v c parsed
    obtain ⟨kind, tag, -⟩ := ofEnvelope_inv parsed
    have values := values_of_ofEnvelope parsed
    refine ⟨?_, kind, tag⟩
    rw [ofEnvelope_toEnvelope_eq,
      alter_eq_self_iff.2 (values.mono fun w given => stored?_eq_self given.1 given.2)]

/-- An envelope given by place, with a type that is the only name of an object. -/
def positionalEnvelope : Json :=
  .arr [.str "returnValue", .str "updateReturnValue",
    .arr [.obj [("object", .null)], .obj [("a", .arr [.null])]]]

def positionalCommand : Command := .updateReturnValue ⟨.object, some (.obj [("a", .arr [.null])])⟩

theorem ofEnvelope_positional : ofEnvelope positionalEnvelope = .ok (.command positionalCommand) :=
  rfl

theorem ofEnvelope_toEnvelope_positional :
    ofEnvelope (updateReturnValue ⟨.object, some .null⟩).toEnvelope =
        .ok (.command (.updateReturnValue ⟨.object, none⟩)) ∧
      ofEnvelope positionalCommand.toEnvelope = .ok (.command positionalCommand) ∧
      positionalEnvelope.part? "kind" 0 = some (.str positionalCommand.kind) := by
  have canonical : (updateReturnValue ⟨.object, some .null⟩).Values Canonical := by
    rintro v ⟨⟩
    rfl
  obtain ⟨same, kind, -⟩ := ofEnvelope_toEnvelope.2 _ _ ofEnvelope_positional
  exact ⟨(ofEnvelope_toEnvelope.1 _ canonical).1, same, kind⟩

end Command

end Fixture
