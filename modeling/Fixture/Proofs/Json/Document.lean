import Fixture.Json.Document
import Fixture.Proofs.Json.Members

/-!
Documents and values. The document of a value gives the value in order. Whatever a document gives is
in order, and what it holds is given by its parts.
-/

namespace Fixture.Json

theorem bind_ok {ε α β : Type} {first : Except ε α} {next : α → Except ε β} {b : β}
    (done : first >>= next = .ok b) : ∃ a, first = .ok a ∧ next a = .ok b := by
  cases first with
  | error e => cases done
  | ok a => exact ⟨a, rfl, done⟩

theorem ok_of_mapError {ε ε' α : Type} {failure : ε → ε'} {result : Except ε α} {a : α}
    (done : result.mapError failure = .ok a) : result = .ok a := by
  cases result with
  | error e => cases done
  | ok b => exact congrArg Except.ok (Except.ok.inj done)

namespace Document

theorem itemsOf_eq (items : List Json) : itemsOf items = items.map ofJson := by
  induction items with
  | nil => rfl
  | cons v vs ih => rw [itemsOf, ih, List.map_cons]

theorem membersOf_eq (members : List (String × Json)) :
    membersOf members = members.map fun m => (.ok m.1, ofJson m.2) := by
  induction members with
  | nil => rfl
  | cons m ms ih => rw [membersOf, ih, List.map_cons]

theorem itemsToJson_ofJson {items : List Json}
    (values : ∀ v ∈ items, (ofJson v).toJson = .ok v.sorted) :
    itemsToJson (items.map ofJson) = .ok (items.map sorted) := by
  induction items with
  | nil => rfl
  | cons v vs ih =>
    rw [List.map_cons, itemsToJson, values v List.mem_cons_self,
      ih fun u later => values u (List.mem_cons_of_mem _ later)]
    rfl

theorem membersToJson_ofJson {members : List (String × Json)}
    (values : ∀ m ∈ members, (ofJson m.2).toJson = .ok m.2.sorted) :
    membersToJson (members.map fun m => (.ok m.1, ofJson m.2)) = .ok (mapValues sorted members) := by
  induction members with
  | nil => rfl
  | cons m ms ih =>
    rw [List.map_cons, membersToJson, values m List.mem_cons_self,
      ih fun n later => values n (List.mem_cons_of_mem _ later)]
    rfl

@[simp] theorem toJson_ofJson (v : Json) : (ofJson v).toJson = .ok v.sorted := by
  induction v using induct with
  | arr items ih =>
    rw [ofJson, toJson, itemsOf_eq, itemsToJson_ofJson ih, sorted_arr]
    rfl
  | obj members ih =>
    rw [ofJson, toJson, membersOf_eq, membersToJson_ofJson ih, sorted_obj]
    rfl
  | _ => rfl

@[simp] theorem skip_ofJson (v : Json) : (ofJson v).skip = .ok () := by
  induction v using induct with
  | arr items ih =>
    have each : skipItems (itemsOf items) = .ok () := by
      rw [itemsOf_eq]
      induction items with
      | nil => rfl
      | cons v vs ihs =>
        rw [List.map_cons, skipItems, ih v List.mem_cons_self]
        exact ihs fun u later => ih u (List.mem_cons_of_mem _ later)
    rw [ofJson, skip, each]
    rfl
  | obj members ih =>
    have each : skipMembers (membersOf members) = .ok () := by
      rw [membersOf_eq]
      induction members with
      | nil => rfl
      | cons m ms ihs =>
        rw [List.map_cons, skipMembers, ih m List.mem_cons_self]
        exact ihs fun n later => ih n (List.mem_cons_of_mem _ later)
    rw [ofJson, skip, each]
    rfl
  | _ => rfl

theorem ofJson_eq_null {v : Json} (null : ofJson v = .scalar .null) : v = .null := by
  cases v <;> first | rfl | cases null

theorem ofJson_eq_text {v : Json} {s : String} (text : ofJson v = .scalar (.str (.ok s))) :
    v = .str s := by
  cases v with
  | str t =>
    obtain rfl : t = s := by simpa [ofJson] using text
    rfl
  | _ => cases text

theorem toJson_arr {items : List Document} {ending : Ending} {v : Json}
    (given : (arr items ending).toJson = .ok v) :
    ∃ vs, itemsToJson items = .ok vs ∧ ending.check = .ok () ∧ v = .arr vs := by
  obtain ⟨vs, listed, rest⟩ := bind_ok given
  obtain ⟨_, ended, done⟩ := bind_ok rest
  exact ⟨vs, listed, ended, (Except.ok.inj done).symm⟩

theorem toJson_obj {members : List Member} {ending : Ending} {v : Json}
    (given : (obj members ending).toJson = .ok v) :
    ∃ ms, membersToJson members = .ok ms ∧ ending.check = .ok () ∧ v = ofMembers ms := by
  obtain ⟨ms, listed, rest⟩ := bind_ok given
  obtain ⟨_, ended, done⟩ := bind_ok rest
  exact ⟨ms, listed, ended, (Except.ok.inj done).symm⟩

theorem itemsToJson_cons {d : Document} {ds : List Document} {vs : List Json}
    (given : itemsToJson (d :: ds) = .ok vs) :
    ∃ v rest, d.toJson = .ok v ∧ itemsToJson ds = .ok rest ∧ vs = v :: rest := by
  obtain ⟨v, first, rest⟩ := bind_ok given
  obtain ⟨vs', later, done⟩ := bind_ok rest
  exact ⟨v, vs', first, later, (Except.ok.inj done).symm⟩

theorem membersToJson_cons {key : Except Fault String} {d : Document} {members : List Member}
    {ms : List (String × Json)} (given : membersToJson ((key, d) :: members) = .ok ms) :
    ∃ name v rest, key = .ok name ∧ d.toJson = .ok v ∧ membersToJson members = .ok rest ∧
      ms = (name, v) :: rest := by
  obtain ⟨name, named, rest⟩ := bind_ok given
  obtain ⟨v, first, rest⟩ := bind_ok rest
  obtain ⟨ms', later, done⟩ := bind_ok rest
  exact ⟨name, v, ms', named, first, later, (Except.ok.inj done).symm⟩

theorem eq_null_of_toJson {d : Document} (null : d.toJson = .ok .null) : d = .scalar .null := by
  cases d with
  | scalar s =>
    cases s with
    | null => rfl
    | num value => cases value <;> cases null
    | str value => cases value <;> cases null
    | _ => cases null
  | arr items ending =>
    obtain ⟨vs, -, -, same⟩ := toJson_arr null
    cases same
  | obj members ending =>
    obtain ⟨ms, -, -, same⟩ := toJson_obj null
    cases same
  | _ => cases null

mutual

theorem canonical_of_toJson : (d : Document) → {v : Json} → d.toJson = .ok v → v.Canonical
  | .scalar s, v, given => by
    cases s with
    | null => cases given; rfl
    | bool b => cases given; rfl
    | num value => cases value <;> cases given; rfl
    | str value => cases value <;> cases given; rfl
    | _ => cases given
  | .arr items ending, v, given => by
    obtain ⟨vs, listed, -, rfl⟩ := toJson_arr given
    exact canonical_arr_iff.2 (canonical_of_items items listed)
  | .obj members ending, v, given => by
    obtain ⟨ms, listed, -, rfl⟩ := toJson_obj given
    exact canonical_ofMembers (canonical_of_members members listed)

theorem canonical_of_items : (ds : List Document) → {vs : List Json} →
    itemsToJson ds = .ok vs → ∀ v ∈ vs, v.Canonical
  | [], vs, given => by cases given; exact fun v member => absurd member List.not_mem_nil
  | d :: ds, vs, given => by
    obtain ⟨v, rest, first, later, rfl⟩ := itemsToJson_cons given
    exact List.forall_mem_cons.2 ⟨canonical_of_toJson d first, canonical_of_items ds later⟩

theorem canonical_of_members : (members : List (Except Fault String × Document)) →
    {ms : List (String × Json)} → membersToJson members = .ok ms → ∀ m ∈ ms, m.2.Canonical
  | [], ms, given => by cases given; exact fun m member => absurd member List.not_mem_nil
  | (key, d) :: members, ms, given => by
    obtain ⟨name, v, rest, -, first, later, rfl⟩ := membersToJson_cons given
    exact List.forall_mem_cons.2 ⟨canonical_of_toJson d first, canonical_of_members members later⟩

end

/-! ## Parts of documents -/

inductive Within : Document → Document → Prop where
  | self (d : Document) : Within d d
  | item {e d : Document} {items : List Document} {ending : Ending} (member : d ∈ items)
      (inner : Within e d) : Within e (.arr items ending)
  | member {e d : Document} {name : Except Fault String} {members : List Member} {ending : Ending}
      (member : (name, d) ∈ members) (inner : Within e d) : Within e (.obj members ending)

theorem Within.trans {e d outer : Document} (inner : Within e d) (inside : Within d outer) :
    Within e outer := by
  induction inside with
  | self => exact inner
  | item member _ ih => exact .item member ih
  | member member _ ih => exact .member member ih

def Gives (d : Document) (v : Json) : Prop := ∃ e, Within e d ∧ e.toJson = .ok v

theorem Gives.within {e d : Document} {v : Json} (gives : e.Gives v) (inside : Within e d) :
    d.Gives v := by
  obtain ⟨part, inner, given⟩ := gives
  exact ⟨part, inner.trans inside, given⟩

theorem Gives.canonical {d : Document} {v : Json} (gives : d.Gives v) : v.Canonical := by
  obtain ⟨part, -, given⟩ := gives
  exact canonical_of_toJson part given

def GivesSome (d : Document) (v : Json) : Prop := d.Gives v ∧ v ≠ .null

theorem GivesSome.canonical {d : Document} {v : Json} (gives : d.GivesSome v) :
    v.Canonical ∧ v ≠ .null :=
  ⟨gives.1.canonical, gives.2⟩

theorem GivesSome.within {e d : Document} {v : Json} (gives : e.GivesSome v)
    (inside : Within e d) : d.GivesSome v :=
  ⟨gives.1.within inside, gives.2⟩

end Document

end Fixture.Json
