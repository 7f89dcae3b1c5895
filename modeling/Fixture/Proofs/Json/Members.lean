import Fixture.Json.Basic
import Mathlib.Data.String.Basic

/-!
Members in order. An object that is put together from members has them in the order of their names,
each name once, and under each name what was put there last. `sorted` does this to a value at every
depth, and a value that is in order already stays as it is.
-/

namespace Fixture.Json

def Ordered (members : List (String × Json)) : Prop := members.Pairwise fun m n => m.1 < n.1

def Distinct (members : List (String × Json)) : Prop := (members.map Prod.fst).Nodup

def arrange (members : List (String × Json)) : List (String × Json) :=
  members.foldl (fun sorted m => insert m.1 m.2 sorted) []

theorem ofMembers_eq (members : List (String × Json)) : ofMembers members = .obj (arrange members) :=
  rfl

theorem Ordered.distinct {members : List (String × Json)} (ordered : Ordered members) :
    Distinct members := by
  rw [Distinct, List.Nodup, List.pairwise_map]
  exact List.Pairwise.imp (fun less => ne_of_lt less) ordered

/-! ## Looking members up -/

@[simp] theorem lookup_nil (name : String) : lookup name [] = none := rfl

@[simp] theorem lookup_cons (name key : String) (value : Json) (rest : List (String × Json)) :
    lookup name ((key, value) :: rest) = if key = name then some value else lookup name rest := rfl

@[simp] theorem lookup_append (name : String) (front back : List (String × Json)) :
    lookup name (front ++ back) = (lookup name front).or (lookup name back) := by
  induction front with
  | nil => simp
  | cons m front ih =>
    obtain ⟨key, value⟩ := m
    simp only [List.cons_append, lookup_cons, ih]
    split <;> rfl

theorem lookup_insert (name key : String) (value : Json) (members : List (String × Json)) :
    lookup name (insert key value members) =
      if key = name then some value else lookup name members := by
  induction members with
  | nil => rfl
  | cons m rest ih =>
    obtain ⟨other, old⟩ := m
    simp only [insert]
    split
    next same =>
      subst same
      simp only [lookup]
      split <;> rfl
    next different =>
      split
      · rfl
      · simp only [lookup, ih]
        split
        next here =>
          subst here
          rw [if_neg (Ne.symm different)]
        · rfl

theorem lookup_eq_none_iff {name : String} {members : List (String × Json)} :
    lookup name members = none ↔ name ∉ members.map Prod.fst := by
  induction members with
  | nil => simp [lookup]
  | cons m rest ih =>
    by_cases same : m.1 = name
    · simp [lookup, same]
    · simp [lookup, same, ih, Ne.symm same]

theorem mem_of_lookup {name : String} {value : Json} {members : List (String × Json)}
    (found : lookup name members = some value) : (name, value) ∈ members := by
  induction members with
  | nil => cases found
  | cons m rest ih =>
    obtain ⟨key, old⟩ := m
    simp only [lookup] at found
    split at found
    next same =>
      obtain rfl := Option.some.inj found
      simp [same]
    · exact List.mem_cons_of_mem _ (ih found)

theorem lookup_filter_ne (tag name : String) (members : List (String × Json)) :
    lookup name (members.filter fun m => m.1 ≠ tag) =
      if name = tag then none else lookup name members := by
  induction members with
  | nil => simp
  | cons m rest ih =>
    obtain ⟨key, value⟩ := m
    by_cases gone : key = tag
    · subst gone
      rw [List.filter_cons_of_neg (by simp), ih]
      by_cases here : name = key
      · simp [here]
      · simp [here, Ne.symm here]
    · rw [List.filter_cons_of_pos (by simpa using gone), lookup_cons, lookup_cons, ih]
      by_cases here : key = name
      · subst here
        simp [gone]
      · simp [here]

/-! ## Putting members in order -/

theorem mem_insert {key : String} {value : Json} {members : List (String × Json)}
    {m : String × Json} (member : m ∈ insert key value members) :
    m = (key, value) ∨ m ∈ members := by
  induction members with
  | nil => exact .inl (List.mem_singleton.1 member)
  | cons first rest ih =>
    obtain ⟨other, old⟩ := first
    simp only [insert] at member
    split at member
    · rcases List.mem_cons.1 member with same | later
      · exact .inl same
      · exact .inr (List.mem_cons_of_mem _ later)
    split at member
    · exact List.mem_cons.1 member
    · rcases List.mem_cons.1 member with same | later
      · exact .inr (by rw [same]; exact List.mem_cons_self)
      · exact (ih later).imp_right (List.mem_cons_of_mem _)

theorem Ordered.insert {members : List (String × Json)} (ordered : Ordered members) (key : String)
    (value : Json) : Ordered (insert key value members) := by
  induction members with
  | nil => exact List.pairwise_singleton _ _
  | cons m rest ih =>
    obtain ⟨other, old⟩ := m
    have tail : Ordered rest := (List.pairwise_cons.1 ordered).2
    have less : ∀ n ∈ rest, other < n.1 := (List.pairwise_cons.1 ordered).1
    simp only [Json.insert]
    split
    next same =>
      subst same
      exact List.pairwise_cons.2 ⟨less, tail⟩
    split
    next before =>
      refine List.pairwise_cons.2 ⟨fun n member => ?_, ordered⟩
      rcases List.mem_cons.1 member with rfl | later
      · exact before
      · exact lt_trans before (less n later)
    next different after =>
      refine List.pairwise_cons.2 ⟨fun n member => ?_, ih tail⟩
      rcases mem_insert member with rfl | later
      · exact lt_of_le_of_ne (not_lt.1 after) different
      · exact less n later

theorem insert_last {key : String} {members : List (String × Json)}
    (last : ∀ m ∈ members, m.1 < key) (value : Json) :
    insert key value members = members ++ [(key, value)] := by
  induction members with
  | nil => rfl
  | cons m rest ih =>
    obtain ⟨other, old⟩ := m
    have before : other < key := last _ List.mem_cons_self
    rw [insert, if_neg (ne_of_lt before), if_neg (lt_asymm before),
      ih fun n member => last n (List.mem_cons_of_mem _ member)]
    rfl

theorem ordered_arrange (members : List (String × Json)) : Ordered (arrange members) := by
  refine List.foldlRecOn members _ List.Pairwise.nil fun sorted ordered m _ => ?_
  exact Ordered.insert ordered m.1 m.2

theorem mem_of_mem_arrange {members : List (String × Json)} {m : String × Json}
    (member : m ∈ arrange members) : m ∈ members := by
  revert member
  refine List.foldlRecOn (motive := fun sorted => m ∈ sorted → m ∈ members) members _
    (fun member => absurd member List.not_mem_nil) fun sorted ih n inside member => ?_
  rcases mem_insert member with rfl | earlier
  · exact inside
  · exact ih earlier

theorem arrange_of_ordered {members : List (String × Json)} (ordered : Ordered members) :
    arrange members = members := by
  have onward (front rest : List (String × Json)) (whole : Ordered (front ++ rest)) :
      rest.foldl (fun sorted m => insert m.1 m.2 sorted) front = front ++ rest := by
    induction rest generalizing front with
    | nil => simp
    | cons m rest ih =>
      have last : ∀ n ∈ front, n.1 < m.1 := fun n member =>
        (List.pairwise_append.1 whole).2.2 n member m List.mem_cons_self
      rw [List.foldl_cons, insert_last last, ih _ (by simpa using whole)]
      simp
  exact onward [] members ordered

theorem lookup_arrange {members : List (String × Json)} (distinct : Distinct members)
    (name : String) : lookup name (arrange members) = lookup name members := by
  have onward (acc rest : List (String × Json)) (names : Distinct rest) :
      lookup name (rest.foldl (fun sorted m => insert m.1 m.2 sorted) acc) =
        (lookup name rest).or (lookup name acc) := by
    induction rest generalizing acc with
    | nil => rfl
    | cons m rest ih =>
      rw [Distinct, List.map_cons, List.nodup_cons] at names
      rw [List.foldl_cons, ih _ names.2, lookup_insert, lookup]
      split
      next here =>
        rw [lookup_eq_none_iff.2 (here ▸ names.1)]
        rfl
      · rfl
  exact (onward [] members distinct).trans (Option.or_none)

/-! ## Values in order -/

/-- What holds of scalars, and of arrays and objects if it holds of all in them, holds of all
values. -/
theorem induct {P : Json → Prop} (null : P .null) (bool : ∀ b, P (.bool b)) (num : ∀ n, P (.num n))
    (str : ∀ s, P (.str s)) (arr : ∀ items, (∀ v ∈ items, P v) → P (.arr items))
    (obj : ∀ members, (∀ m ∈ members, P m.2) → P (.obj members)) (v : Json) : P v :=
  @Json.rec P (fun items => ∀ v ∈ items, P v) (fun members => ∀ m ∈ members, P m.2)
    (fun m => P m.2) null bool num str arr obj
    (fun _ member => absurd member List.not_mem_nil)
    (fun _ _ first rest => List.forall_mem_cons.2 ⟨first, rest⟩)
    (fun _ member => absurd member List.not_mem_nil)
    (fun _ _ first rest => List.forall_mem_cons.2 ⟨first, rest⟩)
    (fun _ _ value => value) v

@[simp] theorem sortedItems_eq (items : List Json) : sortedItems items = items.map sorted := by
  induction items with
  | nil => rfl
  | cons v vs ih => rw [sortedItems, ih, List.map_cons]

@[simp] theorem sortedMembers_eq (members : List (String × Json)) :
    sortedMembers members = members.map fun m => (m.1, sorted m.2) := by
  induction members with
  | nil => rfl
  | cons m ms ih => rw [sortedMembers, ih, List.map_cons]

abbrev mapValues (f : Json → Json) (members : List (String × Json)) : List (String × Json) :=
  members.map fun m => (m.1, f m.2)

theorem lookup_mapValues (f : Json → Json) (name : String) (members : List (String × Json)) :
    lookup name (mapValues f members) = (lookup name members).map f := by
  induction members with
  | nil => rfl
  | cons m rest ih =>
    simp only [mapValues, List.map_cons, lookup] at ih ⊢
    split
    · rfl
    · exact ih

theorem insert_mapValues (f : Json → Json) (key : String) (value : Json)
    (members : List (String × Json)) :
    insert key (f value) (mapValues f members) = mapValues f (insert key value members) := by
  induction members with
  | nil => rfl
  | cons m rest ih =>
    obtain ⟨other, old⟩ := m
    simp only [mapValues, List.map_cons, insert] at ih ⊢
    split
    · rfl
    split
    · rfl
    · rw [ih, List.map_cons]

theorem arrange_mapValues (f : Json → Json) (members : List (String × Json)) :
    arrange (mapValues f members) = mapValues f (arrange members) := by
  have onward (acc rest : List (String × Json)) :
      (mapValues f rest).foldl (fun sorted m => insert m.1 m.2 sorted) (mapValues f acc) =
        mapValues f (rest.foldl (fun sorted m => insert m.1 m.2 sorted) acc) := by
    induction rest generalizing acc with
    | nil => rfl
    | cons m rest ih =>
      simp only [List.map_cons, List.foldl_cons, insert_mapValues]
      exact ih _
  exact onward [] members

theorem Ordered.mapValues {members : List (String × Json)} (ordered : Ordered members)
    (f : Json → Json) : Ordered (mapValues f members) := List.pairwise_map.2 ordered

theorem sorted_obj (members : List (String × Json)) :
    (obj members).sorted = .obj (arrange (mapValues sorted members)) := by
  rw [sorted, sortedMembers_eq, ofMembers_eq]

theorem sorted_arr (items : List Json) : (arr items).sorted = .arr (items.map sorted) := by
  rw [sorted, sortedItems_eq]

theorem sorted_sorted (v : Json) : v.sorted.sorted = v.sorted := by
  induction v using induct with
  | arr items ih =>
    rw [sorted_arr, sorted_arr, List.map_map]
    exact congrArg arr (List.map_congr_left ih)
  | obj members ih =>
    have twice : mapValues sorted (mapValues sorted members) = mapValues sorted members := by
      rw [mapValues, mapValues, List.map_map]
      exact List.map_congr_left fun m member => congrArg (m.1, ·) (ih m member)
    rw [sorted_obj, sorted_obj, ← arrange_mapValues, twice,
      arrange_of_ordered (ordered_arrange _)]
  | _ => rfl

/-- A value whose objects all have their members in order. -/
def Canonical (v : Json) : Prop := v.sorted = v

theorem map_eq_self_iff {α : Type} {f : α → α} {xs : List α} :
    xs.map f = xs ↔ ∀ x ∈ xs, f x = x := by
  have fixed : xs.map f = xs.map id ↔ ∀ x ∈ xs, f x = id x := List.map_inj_left
  rwa [List.map_id] at fixed

theorem canonical_arr_iff {items : List Json} :
    (arr items).Canonical ↔ ∀ v ∈ items, v.Canonical := by
  rw [Canonical, sorted_arr, arr.injEq]
  exact map_eq_self_iff

theorem canonical_obj_iff {members : List (String × Json)} :
    (obj members).Canonical ↔ Ordered members ∧ ∀ m ∈ members, m.2.Canonical := by
  rw [Canonical, sorted_obj, obj.injEq]
  have values (ordered : Ordered members) : arrange (mapValues sorted members) = members ↔
      ∀ m ∈ members, m.2.Canonical := by
    rw [arrange_of_ordered (ordered.mapValues sorted), map_eq_self_iff]
    simp only [Canonical, Prod.ext_iff, true_and]
  constructor
  · intro same
    have ordered : Ordered members := same ▸ ordered_arrange _
    exact ⟨ordered, (values ordered).1 same⟩
  · intro given
    exact (values given.1).2 given.2

theorem canonical_ofMembers {members : List (String × Json)}
    (values : ∀ m ∈ members, m.2.Canonical) : (ofMembers members).Canonical :=
  canonical_obj_iff.2 ⟨ordered_arrange members, fun m member => values m (mem_of_mem_arrange member)⟩

end Fixture.Json
