import Fixture.Editor.FieldKey
import Mathlib.Data.List.Infix

/-!
Fields of values. Setting a field changes what is under its key and nothing under any other key, and
it leaves a value of the same kind. A list of typed keys leads into a value, each key read for the
value that it is a key of; `replaceAt` puts a value at the end of such a list.
-/

namespace Fixture

namespace FieldKey

theorem lookup_replaceMember_self (name : String) (value : Json) (members : List (String × Json))
    {old : Json} (found : Json.lookup name members = some old) :
    Json.lookup name (replaceMember name value members) = some value := by
  induction members with
  | nil => simp [Json.lookup] at found
  | cons m rest ih =>
    obtain ⟨key, field⟩ := m
    by_cases same : key = name
    · rw [replaceMember, if_pos same, Json.lookup, if_pos same]
    · simp only [Json.lookup, if_neg same] at found
      simp only [replaceMember, Json.lookup, if_neg same]
      exact ih found

theorem lookup_replaceMember_of_ne {name other : String} (different : name ≠ other) (value : Json)
    (members : List (String × Json)) :
    Json.lookup other (replaceMember name value members) = Json.lookup other members := by
  induction members with
  | nil => rfl
  | cons m rest ih =>
    obtain ⟨key, field⟩ := m
    by_cases same : key = name
    · subst key
      simp [replaceMember, Json.lookup, different]
    · simp only [replaceMember, if_neg same, Json.lookup, ih]

theorem get?_set_self (key : FieldKey) (value : Json) {v old : Json} (found : key.get? v = some old) :
    key.get? (key.set value v) = some value := by
  cases v with
  | arr items =>
    cases key with
    | index i =>
      have bound : i.toNat < items.length := (List.getElem?_eq_some_iff.1 found).1
      simp [get?, set, bound]
    | property name => simp [get?] at found
  | obj members =>
    cases key with
    | index i => simp [get?] at found
    | property name => exact lookup_replaceMember_self name value members found
  | _ => simp [get?] at found

theorem get?_set_of_ne {key other : FieldKey} (different : key ≠ other) (value v : Json) :
    other.get? (key.set value v) = other.get? v := by
  cases v with
  | arr items =>
    cases key with
    | index i =>
      cases other with
      | index j =>
        have places : i.toNat ≠ j.toNat := fun same => different (by rw [UInt64.toNat_inj.1 same])
        simp [get?, set, List.getElem?_set_ne places]
      | property name => rfl
    | property name => rfl
  | obj members =>
    cases key with
    | index i => rfl
    | property name =>
      cases other with
      | index j => rfl
      | property name' =>
        exact lookup_replaceMember_of_ne (fun same => different (by rw [same])) value members
  | _ => rfl

@[simp] theorem ofRaw_set (key : FieldKey) (value v : Json) (raw : String) :
    ofRaw (key.set value v) raw = ofRaw v raw := by
  cases v <;> cases key <;> cases number : parseIndex? raw <;> simp [set, ofRaw, number]

end FieldKey

namespace Json

def getAt? : List String → Json → Option Json
  | [], v => some v
  | raw :: keys, v => ((FieldKey.ofRaw v raw).get? v).bind (getAt? keys)

def replaceAt : List String → Json → Json → Json
  | [], value, _ => value
  | raw :: keys, value, v =>
    match (FieldKey.ofRaw v raw).get? v with
    | some field => (FieldKey.ofRaw v raw).set (replaceAt keys value field) v
    | none => v

/-- Each prefix of a list of typed keys leads to an array or an object. -/
def CompositeAlong (keys : List String) (v : Json) : Prop :=
  ∀ front, front <+: keys → ∃ u, getAt? front v = some u ∧ u.isComposite = true

instance (keys : List String) (v : Json) : Decidable (CompositeAlong keys v) :=
  decidable_of_iff (∀ front ∈ keys.inits, (getAt? front v).any isComposite = true) <| by
    simp only [List.mem_inits, Option.any_eq_true, CompositeAlong]

theorem CompositeAlong.tail {raw : String} {keys : List String} {v : Json}
    (along : CompositeAlong (raw :: keys) v) :
    ∃ field, (FieldKey.ofRaw v raw).get? v = some field ∧ field.isComposite = true ∧
      CompositeAlong keys field := by
  have below (front : List String) (inside : front <+: keys) :=
    along (raw :: front) (List.cons_prefix_cons.2 ⟨rfl, inside⟩)
  obtain ⟨field, first, composite⟩ := below [] List.nil_prefix
  obtain ⟨field', here, same⟩ := Option.bind_eq_some_iff.1 first
  obtain rfl := Option.some.inj same
  refine ⟨field', here, composite, fun front inside => ?_⟩
  obtain ⟨u, leads, compositeU⟩ := below front inside
  rw [getAt?, here] at leads
  exact ⟨u, leads, compositeU⟩

theorem getAt?_replaceAt_self (keys : List String) (value : Json) {v old : Json}
    (found : getAt? keys v = some old) : getAt? keys (replaceAt keys value v) = some value := by
  induction keys generalizing v with
  | nil => rfl
  | cons raw keys ih =>
    obtain ⟨field, here, below⟩ := Option.bind_eq_some_iff.1 found
    simp only [replaceAt, here, getAt?, FieldKey.ofRaw_set, FieldKey.get?_set_self _ _ here]
    exact ih below

/-- A path that branches off from the replaced one leads to the same value as before. -/
theorem getAt?_replaceAt_of_ne (keys : List String) {raw raw' : String} (rest rest' : List String)
    (value : Json) {v fork : Json} (found : getAt? keys v = some fork)
    (different : FieldKey.ofRaw fork raw ≠ FieldKey.ofRaw fork raw') :
    getAt? (keys ++ raw' :: rest') (replaceAt (keys ++ raw :: rest) value v) =
      getAt? (keys ++ raw' :: rest') v := by
  induction keys generalizing v with
  | nil =>
    obtain rfl : v = fork := Option.some.inj found
    simp only [List.nil_append, replaceAt]
    cases (FieldKey.ofRaw v raw).get? v with
    | none => rfl
    | some field => simp only [getAt?, FieldKey.ofRaw_set, FieldKey.get?_set_of_ne different]
  | cons first keys ih =>
    obtain ⟨field, here, below⟩ := Option.bind_eq_some_iff.1 found
    simp only [List.cons_append, replaceAt, here, getAt?, FieldKey.ofRaw_set,
      FieldKey.get?_set_self _ _ here, Option.bind_some]
    exact ih below

end Json

end Fixture
