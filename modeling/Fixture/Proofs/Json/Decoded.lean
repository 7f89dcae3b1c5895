import Fixture.Json.Decoder
import Fixture.Proofs.Json.Document

/-!
Where the results of decoders come from. Whatever a record is decoded from, each of its fields was
decoded from a part of the document or was left out.
-/

namespace Fixture.Json

variable {α β : Type}

namespace Part

theorem map_ok {f : α → β} {x : Part α} {b : β} :
    (f <$> x).outcome = .ok b ↔ ∃ a, x.outcome = .ok a ∧ f a = b := by
  obtain ⟨outcome⟩ := x
  cases outcome with
  | error e =>
    show (Except.error e : Except (Nat × DecodeError) β) = .ok b ↔ _
    simp
  | ok a =>
    show (Except.ok (f a) : Except (Nat × DecodeError) β) = .ok b ↔ _
    simp

theorem seq_ok {f : Part (α → β)} {x : Part α} {b : β} :
    (f <*> x).outcome = .ok b ↔
      ∃ g, f.outcome = .ok g ∧ ∃ a, x.outcome = .ok a ∧ g a = b := by
  obtain ⟨first⟩ := f
  obtain ⟨second⟩ := x
  show (both ⟨first⟩ ⟨second⟩).outcome = .ok b ↔ _
  cases first <;> cases second <;> simp [both]

theorem ofDecoded_ok {place : Nat} {decoded : Decoded α} {a : α} :
    (ofDecoded place decoded).outcome = .ok a ↔ decoded = .ok a := by
  cases decoded <;> simp [ofDecoded, Except.mapError]

end Part

theorem Decoder.json_ok {origin : Origin} {d : Document} {v : Json}
    (decoded : json origin d = .ok v) : d.toJson = .ok v :=
  ok_of_mapError decoded

theorem Decoder.ofText_ok {decode : Decoder α} {text : String} {a : α}
    (decoded : decode.ofText text = .ok a) : decode .text (Document.ofText text).1 = .ok a := by
  unfold ofText at decoded
  generalize Document.ofText text = read at decoded ⊢
  obtain ⟨d, trailing⟩ := read
  obtain ⟨b, inner, rest⟩ := bind_ok decoded
  cases trailing with
  | true => cases rest
  | false => exact inner.trans rest

theorem Decoder.text_ok {origin : Origin} {d : Document} {s : String}
    (decoded : text origin d = .ok s) : d = .scalar (.str (.ok s)) := by
  unfold text at decoded
  split at decoded
  next value =>
    cases value with
    | error f => cases decoded
    | ok t => rw [← Except.ok.inj decoded]
  · unfold mismatch at decoded
    split at decoded <;> cases decoded

namespace Parts

variable {p : Parts} {field : String} {decode : Decoder α} {d : Document} {a : α}

def documents (p : Parts) : List Document :=
  match p.body with
  | .inl members => members.map Prod.snd
  | .inr items => items

def Of (p : Parts) (d : Document) : Prop :=
  match p.body with
  | .inl members => d = .obj members p.ending
  | .inr items => d = .arr items p.ending

theorem Of.within {e : Document} (parts : p.Of d) (member : e ∈ p.documents) :
    Document.Within e d := by
  obtain ⟨label, fields, origin, body, ending⟩ := p
  cases body with
  | inl members =>
    obtain rfl := parts
    obtain ⟨m, inside, rfl⟩ := List.mem_map.1 member
    exact .member inside (.self m.2)
  | inr items =>
    obtain rfl := parts
    exact .item member (.self e)

theorem mem_of_mem_membersUnder {names : List String} {place i : Nat} {members : List Member}
    (member : (i, d) ∈ membersUnder names place members) : d ∈ members.map Prod.snd := by
  induction members generalizing place with
  | nil => cases member
  | cons m rest ih =>
    obtain ⟨key, e⟩ := m
    cases key with
    | error f => exact List.mem_cons_of_mem _ (ih member)
    | ok name =>
      rw [membersUnder] at member
      split at member
      · rcases List.mem_cons.1 member with same | later
        · obtain ⟨-, rfl⟩ := Prod.mk.inj same
          exact List.mem_cons_self
        · exact List.mem_cons_of_mem _ (ih later)
      · exact List.mem_cons_of_mem _ (ih member)

theorem mem_documents_of_given {i : Nat} (member : (i, d) ∈ p.given field) : d ∈ p.documents := by
  obtain ⟨label, fields, origin, body, ending⟩ := p
  cases body with
  | inl members => exact mem_of_mem_membersUnder member
  | inr items =>
    simp only [given, Option.mem_toList, Option.map_eq_some_iff] at member
    obtain ⟨e, found, same⟩ := member
    obtain ⟨-, rfl⟩ := Prod.mk.inj same
    exact List.mem_of_getElem? found

theorem fieldOr_ok {otherwise : Part α} (done : (p.fieldOr field decode otherwise).outcome = .ok a) :
    p.given field = [] ∧ otherwise.outcome = .ok a ∨
      ∃ i d, p.given field = [(i, d)] ∧ decode p.origin d = .ok a := by
  rw [fieldOr] at done
  split at done
  next none_given => exact .inl ⟨none_given, done⟩
  next i d single => exact .inr ⟨i, d, single, Part.ofDecoded_ok.1 done⟩
  · obtain ⟨_, -, _, repeated, -⟩ := Part.seq_ok.1 done
    cases repeated

theorem required_given (done : (p.required field decode).outcome = .ok a) :
    ∃ i d, p.given field = [(i, d)] ∧ decode p.origin d = .ok a := by
  rcases fieldOr_ok done with ⟨-, absent⟩ | given
  · cases absent
  · exact given

theorem Of.within_of_single {e : Document} {i : Nat} (parts : p.Of d)
    (single : p.given field = [(i, e)]) : Document.Within e d :=
  parts.within (mem_documents_of_given (single ▸ List.mem_singleton_self (i, e)))

theorem required_ok (parts : p.Of d) (done : (p.required field decode).outcome = .ok a) :
    ∃ e, Document.Within e d ∧ decode p.origin e = .ok a := by
  obtain ⟨i, e, given, decoded⟩ := required_given done
  exact ⟨e, parts.within_of_single given, decoded⟩

theorem withDefault_ok {default : α} (parts : p.Of d)
    (done : (p.withDefault field default decode).outcome = .ok a) :
    a = default ∨ ∃ e, Document.Within e d ∧ decode p.origin e = .ok a := by
  rcases fieldOr_ok done with ⟨-, left_out⟩ | ⟨i, e, given, decoded⟩
  · exact .inl (Except.ok.inj left_out).symm
  · exact .inr ⟨e, parts.within_of_single given, decoded⟩

theorem optional_given (done : (p.optional field decode).outcome = .ok (some a)) :
    ∃ i e, p.given field = [(i, e)] ∧ e ≠ .scalar .null ∧ decode p.origin e = .ok a := by
  rcases fieldOr_ok done with ⟨-, left_out⟩ | ⟨i, e, given, decoded⟩
  · cases left_out
  · unfold Decoder.option at decoded
    split at decoded
    · cases decoded
    next present =>
      cases inner : decode p.origin e with
      | error fault => rw [inner] at decoded; cases decoded
      | ok b =>
        rw [inner] at decoded
        obtain rfl := Option.some.inj (Except.ok.inj decoded)
        exact ⟨i, e, given, present, inner⟩

theorem optional_ok {o : Option α} (parts : p.Of d)
    (done : (p.optional field decode).outcome = .ok o) :
    ∀ a ∈ o, ∃ e, Document.Within e d ∧ e ≠ .scalar .null ∧ decode p.origin e = .ok a := by
  rintro a ⟨⟩
  obtain ⟨i, e, given, present, decoded⟩ := optional_given done
  exact ⟨e, parts.within_of_single given, present, decoded⟩

theorem optionalValue_ok {o : Option Json} (parts : p.Of d)
    (done : (p.optional field .json).outcome = .ok o) : ∀ v ∈ o, d.GivesSome v := by
  intro v present
  obtain ⟨e, inside, written, decoded⟩ := optional_ok parts done v present
  have given : e.toJson = .ok v := Decoder.json_ok decoded
  refine ⟨⟨e, inside, given⟩, fun null => written ?_⟩
  exact Document.eq_null_of_toJson (null ▸ given)

end Parts

namespace Decoder

theorem record_inv {label : String} {fields : List (List String)} {build : Parts → Part α}
    {origin : Origin} {d : Document} {a : α} (decoded : record label fields build origin d = .ok a) :
    ∃ p : Parts, p.origin = origin ∧ p.fields = fields ∧ p.Of d ∧ (build p).outcome = .ok a := by
  have built (p : Parts)
      (done : ((fun _ a => a) <$> p.surplus <*> build p).outcome.mapError (·.2) = .ok a) :
      (build p).outcome = .ok a := by
    obtain ⟨g, first, b, second, rfl⟩ := Part.seq_ok.1 (ok_of_mapError done)
    obtain ⟨_, -, rfl⟩ := Part.map_ok.1 first
    exact second
  unfold record at decoded
  simp only at decoded
  split at decoded
  next members ending =>
    exact ⟨⟨label, fields, origin, .inl members, ending⟩, rfl, rfl, rfl, built _ decoded⟩
  next items ending =>
    exact ⟨⟨label, fields, origin, .inr items, ending⟩, rfl, rfl, rfl, built _ decoded⟩
  · unfold mismatch at decoded
    split at decoded <;> cases decoded

theorem record_ok {label : String} {fields : List (List String)} {build : Parts → Part α}
    {origin : Origin} {d : Document} {a : α} (decoded : record label fields build origin d = .ok a) :
    ∃ p : Parts, p.fields = fields ∧ p.Of d ∧ (build p).outcome = .ok a := by
  obtain ⟨p, -, given⟩ := record_inv decoded
  exact ⟨p, given⟩

theorem mapM_each {ε : Type} {f : β → Except ε α} {xs : List β} {as : List α}
    (done : xs.mapM f = .ok as) : ∀ x ∈ xs, ∃ a, f x = .ok a := by
  induction xs generalizing as with
  | nil => exact fun x member => absurd member List.not_mem_nil
  | cons x xs ih =>
    rw [List.mapM_cons] at done
    obtain ⟨a, first, rest⟩ := bind_ok done
    obtain ⟨as', later, -⟩ := bind_ok rest
    exact List.forall_mem_cons.2 ⟨⟨a, first⟩, ih later⟩

theorem mapM_ok {ε : Type} {f : β → Except ε α} {xs : List β} {as : List α}
    (done : xs.mapM f = .ok as) : ∀ a ∈ as, ∃ x ∈ xs, f x = .ok a := by
  induction xs generalizing as with
  | nil =>
    obtain rfl := Except.ok.inj done
    exact fun a member => absurd member List.not_mem_nil
  | cons x xs ih =>
    rw [List.mapM_cons] at done
    obtain ⟨a, first, rest⟩ := bind_ok done
    obtain ⟨as', later, same⟩ := bind_ok rest
    obtain rfl := Except.ok.inj same
    refine List.forall_mem_cons.2 ⟨⟨x, List.mem_cons_self, first⟩, fun b member => ?_⟩
    obtain ⟨y, inside, decoded⟩ := ih later b member
    exact ⟨y, List.mem_cons_of_mem _ inside, decoded⟩

theorem list_ok {inner : Decoder α} {origin : Origin} {d : Document} {as : List α}
    (decoded : list inner origin d = .ok as) :
    ∀ a ∈ as, ∃ e, Document.Within e d ∧ inner origin e = .ok a := by
  unfold list at decoded
  split at decoded
  next items ending =>
    obtain ⟨values, done, rest⟩ := bind_ok decoded
    obtain ⟨_, -, same⟩ := bind_ok rest
    obtain rfl := Except.ok.inj same
    intro a member
    obtain ⟨e, inside, decoded⟩ := mapM_ok done a member
    exact ⟨e, .item inside (.self e), decoded⟩
  · unfold mismatch at decoded
    split at decoded <;> cases decoded

end Decoder

end Fixture.Json
