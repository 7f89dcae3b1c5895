import Fixture.Parameter.Function

/-!
The names that patterns bind, by the places at which they are bound. A place gives the index in each
list on the way to it, so that places in order are a walk that goes down before it goes on. The
leaves of a pattern are the names at all its places, in this order.
-/

namespace Fixture

/-- The values are those at some places, one for each place that has one, in the order of places. -/
def Enumerates {α : Type} (at? : List Nat → Option α) (values : List α) : Prop :=
  ∃ placed : List (List Nat × α), (placed.Pairwise fun a b => a.1 < b.1) ∧
    (∀ place a, (place, a) ∈ placed ↔ at? place = some a) ∧ values = placed.map Prod.snd

namespace Enumerates

variable {α β : Type} {at? first rest : List Nat → Option α} {values later : List α}

theorem nothing (none : ∀ place, at? place = none) : Enumerates at? [] :=
  ⟨[], .nil, fun place a => by simp [none place], rfl⟩

theorem single {a : α} (here : at? [] = some a) (none : ∀ i place, at? (i :: place) = none) :
    Enumerates at? [a] := by
  refine ⟨[([], a)], List.pairwise_singleton _ _, fun place b => ?_, rfl⟩
  cases place with
  | nil => simp [here, eq_comm]
  | cons i place => simp [none]

theorem map (enumerates : Enumerates at? values) (f : α → β) :
    Enumerates (fun place => (at? place).map f) (values.map f) := by
  obtain ⟨placed, sorted, complete, rfl⟩ := enumerates
  refine ⟨placed.map fun a => (a.1, f a.2), List.pairwise_map.2 sorted, fun place b => ?_, ?_⟩
  · simp only [List.mem_map, Prod.mk.injEq, Option.map_eq_some_iff, Prod.exists]
    constructor
    · rintro ⟨_, a, member, rfl, rfl⟩
      exact ⟨a, (complete _ _).1 member, rfl⟩
    · rintro ⟨a, found, rfl⟩
      exact ⟨place, a, (complete _ _).2 found, rfl, rfl⟩
  · rw [List.map_map, List.map_map]
    rfl

def onward : List Nat → List Nat
  | [] => []
  | i :: place => (i + 1) :: place

theorem onward_lt {place place' : List Nat} (given : place ≠ []) (less : place < place') :
    onward place < onward place' := by
  match place, place' with
  | [], _ => exact absurd rfl given
  | _ :: _, [] => cases less
  | i :: place, j :: place' =>
    rw [onward, onward, List.cons_lt_cons_iff]
    exact (List.cons_lt_cons_iff.1 less).imp Nat.succ_lt_succ fun same => ⟨congrArg _ same.1, same.2⟩

theorem lt_onward (place : List Nat) {place' : List Nat} (given : place' ≠ []) :
    0 :: place < onward place' := by
  match place' with
  | [] => exact absurd rfl given
  | j :: place' => exact List.cons_lt_cons_iff.2 (.inl j.succ_pos)

/-- What is in the first item of a list comes before what is in the others. -/
theorem cons (enumerates : Enumerates first values) (enumerates' : Enumerates rest later)
    (outer : rest [] = none) (root : at? [] = none) (here : ∀ place, at? (0 :: place) = first place)
    (below : ∀ i place, at? ((i + 1) :: place) = rest (i :: place)) :
    Enumerates at? (values ++ later) := by
  obtain ⟨placed, sorted, complete, rfl⟩ := enumerates
  obtain ⟨placed', sorted', complete', rfl⟩ := enumerates'
  have inner {a : List Nat × α} (member : a ∈ placed') : a.1 ≠ [] := by
    intro same
    have found := (complete' a.1 a.2).1 member
    rw [same, outer] at found
    cases found
  refine ⟨placed.map (fun a => (0 :: a.1, a.2)) ++ placed'.map (fun a => (onward a.1, a.2)),
    ?_, fun place a => ?_, ?_⟩
  · rw [List.pairwise_append, List.pairwise_map, List.pairwise_map]
    refine ⟨sorted.imp fun less => List.cons_lt_cons_iff.2 (.inr ⟨rfl, less⟩), ?_, ?_⟩
    · exact (List.Pairwise.and_mem.1 sorted').imp fun given => onward_lt (inner given.1) given.2.2
    · intro a member b member'
      obtain ⟨a, -, rfl⟩ := List.mem_map.1 member
      obtain ⟨b, inside, rfl⟩ := List.mem_map.1 member'
      exact lt_onward a.1 (inner inside)
  · rw [List.mem_append, List.mem_map, List.mem_map]
    constructor
    · rintro (⟨b, member, same⟩ | ⟨b, member, same⟩)
      · obtain ⟨rfl, rfl⟩ := Prod.mk.inj same
        exact (here b.1).trans ((complete _ _).1 member)
      · obtain ⟨rfl, rfl⟩ := Prod.mk.inj same
        obtain ⟨i, place, same⟩ := List.exists_cons_of_ne_nil (inner member)
        have found := (complete' b.1 b.2).1 member
        rw [same] at found ⊢
        exact (below i place).trans found
    · intro found
      match place with
      | [] =>
        rw [root] at found
        cases found
      | 0 :: place =>
        rw [here] at found
        exact .inl ⟨(place, a), (complete _ _).2 found, rfl⟩
      | (i + 1) :: place =>
        rw [below] at found
        exact .inr ⟨(i :: place, a), (complete' _ _).2 found, rfl⟩
  · simp only [List.map_append, List.map_map]
    rfl

end Enumerates

namespace Pattern

/-- What is directly inside a pattern. A rest element shows nothing of what it captures. -/
def children : Pattern → List (Option Pattern)
  | object properties => properties.map some
  | array elements => elements
  | _ => []

def ownName? : Pattern → Option String
  | identifier name => some name
  | property key => some key
  | rest _ => some "RestElement"
  | _ => none

def nameAt? : List Nat → Pattern → Option String
  | [], p => p.ownName?
  | i :: place, p => p.children[i]?.join.bind (nameAt? place)

def nameIn? (ps : List (Option Pattern)) : List Nat → Option String
  | [] => none
  | i :: place => ps[i]?.join.bind (nameAt? place)

mutual

theorem enumerates_leaves : (p : Pattern) → Enumerates (nameAt? · p) p.leaves
  | identifier name => .single rfl fun _ _ => rfl
  | property key => .single rfl fun _ _ => rfl
  | object properties => by
    have inside := enumerates_leavesOfAll properties
    have same : (nameAt? · (object properties)) = nameIn? (properties.map some) := by
      funext place
      cases place <;> rfl
    rwa [same, leaves]
  | array elements => by
    have inside := enumerates_leavesOfElements elements
    have same : (nameAt? · (array elements)) = nameIn? elements := by
      funext place
      cases place <;> rfl
    rwa [same, leaves]
  | rest inner => .single rfl fun _ _ => rfl
  | unrecognized => .nothing fun place => by cases place <;> rfl

theorem enumerates_leavesOfAll : (ps : List Pattern) →
    Enumerates (nameIn? (ps.map some)) (leavesOfAll ps)
  | [] => .nothing fun place => by cases place <;> rfl
  | p :: ps =>
    (enumerates_leaves p).cons (enumerates_leavesOfAll ps) rfl rfl (fun _ => rfl) fun _ _ => rfl

theorem enumerates_leavesOfElements : (ps : List (Option Pattern)) →
    Enumerates (nameIn? ps) (leavesOfElements ps)
  | [] => .nothing fun place => by cases place <;> rfl
  | none :: ps =>
    (Enumerates.nothing fun _ => rfl).cons (enumerates_leavesOfElements ps) rfl rfl
      (fun _ => rfl) fun _ _ => rfl
  | some p :: ps =>
    (enumerates_leaves p).cons (enumerates_leavesOfElements ps) rfl rfl (fun _ => rfl)
      fun _ _ => rfl

end

end Pattern

namespace ParameterList

def bindingAt? (lists : List ParameterList) : List Nat → Option (String × String)
  | [] => none
  | i :: place => lists[i]?.bind fun l =>
    (Pattern.nameIn? (l.body.map some) place).map (l.functionName, ·)

theorem enumerates_leafPairs (lists : List ParameterList) :
    Enumerates (bindingAt? lists) (leafPairs lists) := by
  induction lists with
  | nil => exact .nothing fun place => by cases place <;> rfl
  | cons l lists ih =>
    have inside := (Pattern.enumerates_leavesOfAll l.body).map (l.functionName, ·)
    exact inside.cons ih rfl rfl (fun _ => rfl) fun _ _ => rfl

end ParameterList

end Fixture
