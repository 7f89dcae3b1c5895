import Fixture.Json.Decoder
import Fixture.Proofs.Json.Document
import Mathlib.Data.List.Forall2

/-!
What decoders accept. A value is accepted whatever the order of the members in its objects, and
wherever it comes from; a record is, as long as each field is accepted.
-/

namespace Fixture.Json

variable {α β : Type}

inductive Arranged (v : Json) : Json → Prop where
  | written : Arranged v v
  | sorted : Arranged v v.sorted

/-- Members that give every name the value that it has among some others. -/
structure Holding (members members' : List (String × Json)) : Prop where
  distinct : Distinct members'
  values : ∀ name, Option.Rel Arranged (lookup name members) (lookup name members')

theorem Arranged.of_obj {members : List (String × Json)} {w : Json} (distinct : Distinct members)
    (arranged : Arranged (.obj members) w) :
    ∃ members', w = .obj members' ∧ Holding members members' := by
  cases arranged with
  | written =>
    refine ⟨members, rfl, distinct, fun name => ?_⟩
    cases lookup name members with
    | none => exact .none
    | some v => exact .some .written
  | sorted =>
    refine ⟨_, sorted_obj members, (ordered_arrange _).distinct, fun name => ?_⟩
    have same : Distinct (mapValues Json.sorted members) := by
      rw [Distinct, List.map_map]
      exact distinct
    rw [lookup_arrange same, lookup_mapValues]
    cases lookup name members with
    | none => exact .none
    | some v => exact .some .sorted

theorem Arranged.of_arr {items : List Json} {w : Json} (arranged : Arranged (.arr items) w) :
    ∃ items', w = .arr items' ∧ List.Forall₂ Arranged items items' := by
  cases arranged with
  | written => exact ⟨items, rfl, List.forall₂_same.2 fun v _ => .written⟩
  | sorted =>
    refine ⟨_, sorted_arr items, ?_⟩
    rw [List.forall₂_map_right_iff]
    exact List.forall₂_same.2 fun v _ => .sorted

theorem Arranged.sorted_eq {v w : Json} (arranged : Arranged v w) : w.sorted = v.sorted := by
  cases arranged with
  | written => rfl
  | sorted => exact sorted_sorted v

theorem Arranged.eq_null {v : Json} (arranged : Arranged v .null) : v = .null := by
  generalize null : Json.null = w at arranged
  cases arranged with
  | written => rfl
  | sorted => cases v <;> first | rfl | cases null

/-- Null in the place of a value that may be left out is no value. -/
def unlessNull (v : Json) : Option Json := if v.isNull then none else some v

def stored? (v : Json) : Option Json := v.sorted.unlessNull

theorem unlessNull_eq_some_iff {v : Json} : v.unlessNull = some v ↔ v ≠ .null := by
  cases v <;> simp [unlessNull, isNull]

theorem stored?_of_canonical {v : Json} (canonical : v.Canonical) : v.stored? = v.unlessNull := by
  rw [stored?, canonical]

theorem stored?_eq_self {v : Json} (canonical : v.Canonical) (present : v ≠ .null) :
    v.stored? = some v := by
  rw [stored?_of_canonical canonical, unlessNull_eq_some_iff.2 present]

/-- The document of a value is decoded to `a`, wherever it comes from and in whatever order its
members stand. -/
def Decoder.Accepts (decode : Decoder α) (v : Json) (a : α) : Prop :=
  ∀ origin w, Arranged v w → decode origin (.ofJson w) = .ok a

namespace Decoder

theorem accepts_json (v : Json) : json.Accepts v v.sorted := by
  intro origin w arranged
  rw [json, Document.toJson_ofJson, arranged.sorted_eq]
  rfl

theorem accepts_text (s : String) : text.Accepts (.str s) s := by
  intro origin w arranged
  cases arranged <;> rfl

theorem accepts_bool (b : Bool) : bool.Accepts (.bool b) b := by
  intro origin w arranged
  cases arranged <;> rfl

theorem accepts_word (n : UInt32) : word.Accepts (.num (.int n.toNat)) n := by
  have fits : (0 : Int) ≤ n.toNat ∧ (n.toNat : Int) < UInt32.size :=
    ⟨Int.natCast_nonneg _, Int.ofNat_lt.2 n.toNat_lt⟩
  have decoded (origin : Origin) :
      word origin (.ofJson (.num (.int n.toNat))) = .ok n := by
    unfold word
    rw [Document.ofJson]
    simp only
    rw [if_pos fits, Int.toNat_natCast, UInt32.ofNat_toNat]
  intro origin w arranged
  cases arranged <;> exact decoded origin

theorem accepts_name {known : List (String × α)} {label : String} {a : α}
    (listed : known.lookup label = some a) : (name known).Accepts (.str label) a := by
  have found : named known label = .ok a := by rw [named, listed]
  intro origin w arranged
  cases arranged <;> cases origin <;> exact found

theorem accepts_none (inner : Decoder α) : (option inner).Accepts .null none := by
  intro origin w arranged
  cases arranged <;> rfl

theorem Accepts.some {inner : Decoder α} {v : Json} {a : α} (accepts : inner.Accepts v a)
    (present : v ≠ .null) : (option inner).Accepts v (some a) := by
  intro origin w arranged
  unfold option
  split
  next null => exact absurd (Document.ofJson_eq_null null ▸ arranged).eq_null present
  · rw [accepts origin w arranged]
    rfl

theorem accepts_stored (v : Json) : (option json).Accepts v v.stored? := by
  have present (some_value : v ≠ .null) : (option json).Accepts v (some v.sorted) :=
    (accepts_json v).some some_value
  cases v with
  | null => exact accepts_none json
  | _ => exact present (by simp)

theorem Accepts.list {inner : Decoder α} {xs : List β} {encode : β → Json} {f : β → α}
    (accepts : ∀ x ∈ xs, inner.Accepts (encode x) (f x)) :
    (list inner).Accepts (.arr (xs.map encode)) (xs.map f) := by
  intro origin w arranged
  obtain ⟨items, rfl, each⟩ := arranged.of_arr
  have decoded : (items.map Document.ofJson).mapM (inner origin) = .ok (xs.map f) := by
    clear arranged
    induction xs generalizing items with
    | nil =>
      obtain rfl := List.forall₂_nil_left_iff.1 each
      rfl
    | cons x xs ih =>
      obtain ⟨w, ws, first, rest, rfl⟩ := List.forall₂_cons_left_iff.1 each
      simp only [List.map_cons, List.mapM_cons]
      rw [accepts x List.mem_cons_self origin w first,
        ih (fun y later => accepts y (List.mem_cons_of_mem _ later)) ws rest]
      rfl
  unfold Decoder.list
  simp only [Document.ofJson, Document.itemsOf_eq, decoded]
  rfl

end Decoder

/-! ## Records -/

namespace Parts

def namesOf (fields : List (List String)) (field : String) : List String :=
  fields.getD (fields.findIdx fun names => names.head? == some field) []

@[simp] theorem namesOf_nil (field : String) : namesOf [] field = [] := rfl

@[simp] theorem namesOf_cons (names : List String) (fields : List (List String)) (field : String) :
    namesOf (names :: fields) field =
      if names.head? = some field then names else namesOf fields field := by
  simp only [namesOf, List.findIdx_cons, beq_eq_decide]
  by_cases here : names.head? = some field <;> simp [here]

structure Offers (p : Parts) (fields : List (List String)) (members : List (String × Json)) :
    Prop where
  fields_eq : p.fields = fields
  body : ∃ members', p.body = .inl (Document.membersOf members') ∧ Holding members members'

/-- Under a field that goes by no other name here there is at most one member. -/
theorem membersUnder_eq {names : List String} {field : String} {members : List (String × Json)}
    (distinct : Distinct members) (own : field ∈ names)
    (alone : ∀ name ∈ names, name ≠ field → lookup name members = none) (place : Nat) :
    ∃ i, membersUnder names place (Document.membersOf members) =
      ((lookup field members).map fun v => (i, Document.ofJson v)).toList := by
  induction members generalizing place with
  | nil => exact ⟨0, rfl⟩
  | cons m rest ih =>
    obtain ⟨key, v⟩ := m
    rw [Distinct, List.map_cons, List.nodup_cons] at distinct
    have later : ∀ name ∈ names, name ≠ field → lookup name rest = none := by
      intro name listed other
      have absent := alone name listed other
      rw [lookup] at absent
      split at absent
      · cases absent
      · exact absent
    obtain ⟨i, under⟩ := ih distinct.2 later (place + 1)
    rw [Document.membersOf, membersUnder]
    by_cases here : key = field
    · subst here
      rw [lookup_eq_none_iff.2 distinct.1] at under
      refine ⟨place, ?_⟩
      rw [if_pos (List.contains_iff_mem.2 own), under, lookup, if_pos rfl]
      rfl
    · have unlisted : key ∉ names := by
        intro listed
        have absent := alone key listed here
        simp [lookup] at absent
      refine ⟨i, ?_⟩
      rw [if_neg (by simpa using unlisted), under, lookup, if_neg here]

namespace Offers

variable {p : Parts} {fields : List (List String)} {members : List (String × Json)}
  {decode : Decoder α}

theorem given_eq (offers : p.Offers fields members) {field : String}
    (own : field ∈ namesOf fields field)
    (alone : ∀ name ∈ namesOf fields field, name ≠ field → lookup name members = none) :
    ∃ i w, p.given field = (w.map fun v => (i, Document.ofJson v)).toList ∧
      Option.Rel Arranged (lookup field members) w := by
  obtain ⟨members', body, holding⟩ := offers.body
  have absent : ∀ name ∈ namesOf fields field, name ≠ field → lookup name members' = none := by
    intro name listed other
    have same := holding.values name
    rw [alone name listed other] at same
    cases none_left : lookup name members' with
    | none => rfl
    | some v => rw [none_left] at same; cases same
  obtain ⟨i, under⟩ := membersUnder_eq holding.distinct own absent 0
  refine ⟨i, _, ?_, holding.values field⟩
  have names : p.fields.getD (p.place field) [] = namesOf fields field := by
    rw [place, offers.fields_eq]
    rfl
  simp only [given, body, names, under]

/-- A field that is given is decoded, wherever it stands. -/
theorem fieldOr_found (offers : p.Offers fields members) {field : String} {v : Json}
    {otherwise : Part α} (own : field ∈ namesOf fields field)
    (alone : ∀ name ∈ namesOf fields field, name ≠ field → lookup name members = none)
    (found : lookup field members = some v) :
    ∃ i w, Arranged v w ∧
      p.fieldOr field decode otherwise = .ofDecoded i (decode p.origin (.ofJson w)) := by
  obtain ⟨i, w, given, same⟩ := offers.given_eq own alone
  rw [found] at same
  cases same with
  | some arranged =>
    refine ⟨i, _, arranged, ?_⟩
    rw [fieldOr, given]
    rfl

theorem fieldOr_some (offers : p.Offers fields members) {field : String} {v : Json} {a : α}
    {otherwise : Part α} (own : field ∈ namesOf fields field)
    (alone : ∀ name ∈ namesOf fields field, name ≠ field → lookup name members = none)
    (found : lookup field members = some v) (accepts : decode.Accepts v a) :
    p.fieldOr field decode otherwise = pure a := by
  obtain ⟨i, w, arranged, decoded⟩ := offers.fieldOr_found own alone found
  rw [decoded, accepts _ _ arranged]
  rfl

theorem fieldOr_none (offers : p.Offers fields members) {field : String} {otherwise : Part α}
    (own : field ∈ namesOf fields field)
    (alone : ∀ name ∈ namesOf fields field, name ≠ field → lookup name members = none)
    (absent : lookup field members = none) : p.fieldOr field decode otherwise = otherwise := by
  obtain ⟨i, w, given, same⟩ := offers.given_eq own alone
  rw [absent] at same
  cases same
  rw [fieldOr, given]
  rfl

theorem own_of_single {field : String} (single : namesOf fields field = [field]) :
    field ∈ namesOf fields field := by
  rw [single]
  exact List.mem_singleton_self field

theorem alone_of_single {field : String} (single : namesOf fields field = [field]) :
    ∀ name ∈ namesOf fields field, name ≠ field → lookup name members = none := by
  rw [single]
  exact fun name listed other => absurd (List.mem_singleton.1 listed) other

theorem required (offers : p.Offers fields members) (field : String) {v : Json} {a : α}
    (accepts : decode.Accepts v a) (found : lookup field members = some v)
    (single : namesOf fields field = [field]) : p.required field decode = pure a :=
  offers.fieldOr_some (own_of_single single) (alone_of_single single) found accepts

theorem withDefault (offers : p.Offers fields members) (field : String) {v : Json} {a default : α}
    (accepts : decode.Accepts v a) (found : lookup field members = some v)
    (single : namesOf fields field = [field]) :
    p.withDefault field default decode = pure a :=
  offers.fieldOr_some (own_of_single single) (alone_of_single single) found accepts

theorem optional (offers : p.Offers fields members) (field : String) (o : Option β)
    {encode : β → Json} {f : β → α} (accepts : ∀ x ∈ o, decode.Accepts (encode x) (f x))
    (present : ∀ x ∈ o, encode x ≠ .null)
    (found : lookup field members = o.map encode) (single : namesOf fields field = [field]) :
    p.optional field decode = pure (o.map f) := by
  cases o with
  | none => exact offers.fieldOr_none (own_of_single single) (alone_of_single single) found
  | some x =>
    exact offers.fieldOr_some (own_of_single single) (alone_of_single single) found
      ((accepts x rfl).some (present x rfl))

theorem optionalValue (offers : p.Offers fields members) (field : String) (o : Option Json)
    (found : lookup field members = o) (single : namesOf fields field = [field]) :
    p.optional field .json = pure (o.bind stored?) := by
  cases o with
  | none => exact offers.fieldOr_none (own_of_single single) (alone_of_single single) found
  | some v =>
    exact offers.fieldOr_some (own_of_single single) (alone_of_single single) found
      (Decoder.accepts_stored v)

end Offers

theorem unknownMembers_eq (known : List String) (members : List (String × Json)) (place : Nat) :
    unknownMembers known .closed place (Document.membersOf members) = pure () := by
  induction members generalizing place with
  | nil => rfl
  | cons m rest ih =>
    rw [Document.membersOf, unknownMembers]
    split
    · exact ih _
    · rw [Document.skip_ofJson]
      exact ih _

end Parts

namespace Decoder

variable {label : String} {fields : List (List String)} {build : Parts → Part α}
  {members : List (String × Json)} {a : α}

/-- What a record makes of an object is what its fields make of the members. -/
theorem record_obj (distinct : Distinct members) :
    ∃ p : Parts, p.Offers fields members ∧ (record label fields build).ofValue (.obj members) =
      (build p).outcome.mapError (·.2) := by
  obtain ⟨members', same, holding⟩ := Arranged.written.of_obj distinct
  obtain rfl := Json.obj.inj same
  refine ⟨⟨label, fields, .value, .inl (Document.membersOf members), .closed⟩,
    ⟨rfl, members, rfl, holding⟩, ?_⟩
  simp only [ofValue, record, Document.ofJson, Parts.surplus, Parts.unknownMembers_eq]
  generalize build _ = built
  obtain ⟨outcome⟩ := built
  cases outcome <;> rfl

theorem record_of_holding {members' : List (String × Json)} (holding : Holding members members')
    (builds : ∀ p : Parts, p.Offers fields members → build p = pure a) (origin : Origin) :
    record label fields build origin (.obj (Document.membersOf members') .closed) = .ok a := by
  simp only [record, Parts.surplus, Parts.unknownMembers_eq]
  rw [builds _ ⟨rfl, members', rfl, holding⟩]
  rfl

theorem accepts_record (distinct : Distinct members)
    (builds : ∀ p : Parts, p.Offers fields members → build p = pure a) :
    (record label fields build).Accepts (.obj members) a := by
  intro origin w arranged
  obtain ⟨members', rfl, holding⟩ := arranged.of_obj distinct
  exact record_of_holding holding builds origin

theorem accepts_variant {known : List (String × α)} {name : String}
    (listed : known.lookup name = some a) : (variant known).Accepts (.str name) a := by
  have found : named known name = .ok a := by rw [named, listed]
  intro origin w arranged
  cases arranged <;> exact found

theorem setAside_eq (tag : String) (members : List (String × Json)) (place : Nat) :
    setAside place tag .closed (Document.membersOf members) = pure () := by
  induction members generalizing place with
  | nil => rfl
  | cons m rest ih =>
    rw [Document.membersOf, setAside]
    split
    · exact ih _
    · rw [Document.toJson_ofJson]
      exact ih _

theorem accepts_tagged (name : String) {tag : String} {variants : List (String × Decoder α)}
    {decode : Decoder α} {others : List (String × Json)} (distinct : Distinct members)
    (kind : lookup tag members = some (.str name)) (listed : variants.lookup name = some decode)
    (rest : members.filter (fun m => m.1 ≠ tag) = others)
    (accepts : ∀ members', Holding others members' →
      decode .buffer (.obj (Document.membersOf members') .closed) = .ok a) :
    (tagged label tag variants).Accepts (.obj members) a := by
  intro origin w arranged
  obtain ⟨members', rfl, holding⟩ := arranged.of_obj distinct
  have offers (label : String) : Parts.Offers
      ⟨label, [[tag]], origin, .inl (Document.membersOf members'), .closed⟩ [[tag]] members :=
    ⟨rfl, members', rfl, holding⟩
  have others' : ((Document.membersOf members').filter fun m => !(m.1.toOption == some tag)) =
      Document.membersOf (members'.filter fun m => m.1 ≠ tag) := by
    rw [Document.membersOf_eq, Document.membersOf_eq, List.filter_map]
    refine congrArg _ (List.filter_congr fun m _ => ?_)
    simp [Except.toOption, beq_eq_decide]
  have holding' : Holding others (members'.filter fun m => m.1 ≠ tag) := by
    refine ⟨holding.distinct.sublist (List.filter_sublist.map Prod.fst), fun key => ?_⟩
    rw [← rest, lookup_filter_ne, lookup_filter_ne]
    split
    · exact .none
    · exact holding.values key
  simp only [tagged, Document.ofJson, setAside_eq,
    (offers label).required tag (accepts_variant listed) kind (by simp), others']
  exact accepts _ holding'

end Decoder

end Fixture.Json
