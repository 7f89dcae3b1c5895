import Fixture.Editor.Editors
import Mathlib.Data.List.Induction
import Mathlib.Data.List.Nodup

/-!
One pass over the open editors. What an operation decides about an editor depends on the ones before
it, so all that is proved about a pass goes by adding one editor at the end.
-/

namespace Fixture

/-- Each member of a list is as it should be given the ones before it. -/
def EachAfter {α : Type} (stands : List α → α → Prop) (xs : List α) : Prop :=
  ∀ before x after, xs = before ++ x :: after → stands before x

namespace EachAfter

variable {α β : Type} {stands stands' : List α → α → Prop} {xs : List α}

theorem nil : EachAfter stands [] := by
  intro before x after split
  simp at split

theorem snoc_iff {x : α} : EachAfter stands (xs ++ [x]) ↔ EachAfter stands xs ∧ stands xs x := by
  constructor
  · intro each
    refine ⟨fun before y after split => each before y (after ++ [x]) ?_, each xs x [] rfl⟩
    rw [split, List.append_assoc, List.cons_append]
  · intro given before y after split
    obtain ⟨each, last⟩ := given
    rcases List.eq_nil_or_concat after with rfl | ⟨init, z, rfl⟩
    · obtain ⟨rfl, same⟩ := List.append_inj' split rfl
      obtain rfl := List.head_eq_of_cons_eq same
      exact last
    · rw [List.concat_eq_append, ← List.cons_append, ← List.append_assoc] at split
      exact each before y init (List.append_inj' split rfl).1

theorem mono (each : EachAfter stands xs)
    (weaker : ∀ before x after, xs = before ++ x :: after → stands before x → stands' before x) :
    EachAfter stands' xs :=
  fun before x after split => weaker before x after split (each before x after split)

theorem filter (each : EachAfter stands xs) (keep : α → Bool)
    (kept : ∀ before x after, xs = before ++ x :: after → keep x = true → stands before x →
      stands' (before.filter keep) x) : EachAfter stands' (xs.filter keep) := by
  induction xs using List.reverseRecOn with
  | nil => exact nil
  | append_singleton xs x ih =>
    obtain ⟨each, last⟩ := snoc_iff.1 each
    have inner := ih each fun before y after split =>
      kept before y (after ++ [x]) (by rw [split, List.append_assoc, List.cons_append])
    rw [List.filter_append, List.filter_singleton]
    cases keeps : keep x
    · simpa using inner
    · simpa using snoc_iff.2 ⟨inner, kept xs x [] rfl keeps last⟩

theorem map {stands' : List β → β → Prop} (each : EachAfter stands xs) (change : α → β)
    (changed : ∀ before x after, xs = before ++ x :: after → stands before x →
      stands' (before.map change) (change x)) : EachAfter stands' (xs.map change) := by
  intro before y after split
  obtain ⟨front, back, rfl, rfl, tail⟩ := List.map_eq_append_iff.1 split
  obtain ⟨x, rest, rfl, rfl, -⟩ := List.map_eq_cons_iff.1 tail
  exact changed front x rest rfl (each front x rest rfl)

end EachAfter

namespace Editors

/-! ## Keeping the editors that stand -/

variable (stands : List Frame → Frame → Bool)

theorem sift_snoc (frames : List Frame) (f : Frame) :
    sift stands (frames ++ [f]) =
      if stands (sift stands frames).1 f then
        ((sift stands frames).1 ++ [f], (sift stands frames).2)
      else ((sift stands frames).1, (sift stands frames).2 ++ [f.label]) := by
  rw [sift, List.foldl_append]
  rfl

theorem sift_sublist (frames : List Frame) : ((sift stands frames).1).Sublist frames := by
  induction frames using List.reverseRecOn with
  | nil => exact List.Sublist.refl []
  | append_singleton frames f ih =>
    rw [sift_snoc]
    split
    · exact ih.append (List.Sublist.refl [f])
    · exact ih.trans (List.sublist_append_left frames [f])

theorem eachAfter_sift (frames : List Frame) :
    EachAfter (fun kept f => stands kept f = true) (sift stands frames).1 := by
  induction frames using List.reverseRecOn with
  | nil => exact EachAfter.nil
  | append_singleton frames f ih =>
    rw [sift_snoc]
    split
    next keeps => exact EachAfter.snoc_iff.2 ⟨ih, keeps⟩
    next => exact ih

theorem sift_eq_self {frames : List Frame}
    (each : EachAfter (fun kept f => stands kept f = true) frames) :
    sift stands frames = (frames, []) := by
  induction frames using List.reverseRecOn with
  | nil => rfl
  | append_singleton frames f ih =>
    obtain ⟨each, last⟩ := EachAfter.snoc_iff.1 each
    rw [sift_snoc, ih each]
    exact if_pos last

theorem sift_map {frames : List Frame} {change : Frame → Frame} {keep : Frame → Bool}
    (each : EachAfter (fun before f => stands ((before.filter keep).map change) (change f) = keep f)
      frames) :
    sift stands (frames.map change) =
      ((frames.filter keep).map change,
        (frames.filter fun f => !keep f).map fun f => (change f).label) := by
  induction frames using List.reverseRecOn with
  | nil => rfl
  | append_singleton frames f ih =>
    obtain ⟨each, last⟩ := EachAfter.snoc_iff.1 each
    rw [List.map_append, List.map_singleton, sift_snoc, ih each, last]
    cases keeps : keep f <;> simp [keeps]

/-! ## The editors under one -/

def addChild (labels : List String) (f : Frame) : List String :=
  if labels.contains f.parent then labels ++ [f.label] else labels

theorem subtree_eq (es : Editors) (label : String) :
    es.subtree label = if (es.frame? label).isSome then es.frames.foldl addChild [label] else [] :=
  rfl

theorem addChild_of_mem {labels : List String} {f : Frame} (child : f.parent ∈ labels) :
    addChild labels f = labels ++ [f.label] := if_pos (List.contains_iff_mem.2 child)

theorem addChild_of_not_mem {labels : List String} {f : Frame} (other : f.parent ∉ labels) :
    addChild labels f = labels :=
  if_neg fun found => other (List.contains_iff_mem.1 found)

private theorem foldl_addChild_mono (frames : List Frame) (labels : List String) {l : String}
    (member : l ∈ labels) : l ∈ frames.foldl addChild labels := by
  induction frames generalizing labels with
  | nil => exact member
  | cons f frames ih =>
    refine ih (addChild labels f) ?_
    by_cases child : f.parent ∈ labels
    · rw [addChild_of_mem child]
      exact List.mem_append_left _ member
    · rwa [addChild_of_not_mem child]

theorem mem_subtree_self {es : Editors} {label : String} (opened : (es.frame? label).isSome) :
    label ∈ es.subtree label := by
  rw [subtree_eq, if_pos opened]
  exact foldl_addChild_mono _ _ (List.mem_singleton_self label)

theorem subtree_induction {es : Editors} {label : String} (holds : String → Prop)
    (root : holds label) (child : ∀ f ∈ es.frames, holds f.parent → holds f.label) {l : String}
    (member : l ∈ es.subtree label) : holds l := by
  have step (frames : List Frame) (inside : ∀ f ∈ frames, f ∈ es.frames) :
      ∀ l ∈ frames.foldl addChild [label], holds l := by
    induction frames using List.reverseRecOn with
    | nil =>
      intro l member
      rwa [List.mem_singleton.1 member]
    | append_singleton frames f ih =>
      have earlier := ih fun g member => inside g (List.mem_append_left [f] member)
      intro l member
      rw [List.foldl_append, List.foldl_cons, List.foldl_nil] at member
      by_cases under : f.parent ∈ frames.foldl addChild [label]
      · rw [addChild_of_mem under] at member
        rcases List.mem_append.1 member with old | new
        · exact earlier l old
        · rw [List.mem_singleton.1 new]
          exact child f (inside f (by simp)) (earlier _ under)
      · rw [addChild_of_not_mem under] at member
        exact earlier l member
  rw [subtree_eq] at member
  split at member
  · exact step es.frames (fun f member => member) l member
  · exact absurd member List.not_mem_nil

private theorem mem_foldl_addChild {frames : List Frame} {labels : List String} {l : String}
    (member : l ∈ frames.foldl addChild labels) : l ∈ labels ∨ ∃ g ∈ frames, g.label = l := by
  induction frames generalizing labels with
  | nil => exact .inl member
  | cons f frames ih =>
    rcases ih member with earlier | ⟨g, later, named⟩
    · by_cases child : f.parent ∈ labels
      · rw [addChild_of_mem child] at earlier
        rcases List.mem_append.1 earlier with old | new
        · exact .inl old
        · exact .inr ⟨f, List.mem_cons_self, (List.mem_singleton.1 new).symm⟩
      · rw [addChild_of_not_mem child] at earlier
        exact .inl earlier
    · exact .inr ⟨g, List.mem_cons_of_mem f later, named⟩

/-- An editor under one of the subtree belongs to it, if none after it has its parent's label: when
the pass comes to it, the parent has been found. -/
theorem mem_subtree_of_split {es : Editors} {label : String} {before after : List Frame} {f : Frame}
    (split : es.frames = before ++ f :: after) (passed : ∀ g ∈ after, g.label ≠ f.parent)
    (under : f.parent ∈ es.subtree label) : f.label ∈ es.subtree label := by
  rw [subtree_eq] at under ⊢
  split at under
  next opened =>
    rw [if_pos opened, split, List.foldl_append, List.foldl_cons]
    rw [split, List.foldl_append, List.foldl_cons] at under
    refine foldl_addChild_mono after _ ?_
    rcases mem_foldl_addChild under with found | ⟨g, later, named⟩
    · by_cases child : f.parent ∈ before.foldl addChild [label]
      · rw [addChild_of_mem child]
        exact List.mem_append_right _ (List.mem_singleton_self _)
      · rw [addChild_of_not_mem child] at found
        exact absurd found child
    · exact absurd named (passed g later)
  next => exact absurd under List.not_mem_nil

/-- Children of the subtree belong to it. One pass finds them all because no editor comes before its
parent. -/
theorem mem_subtree_of_parent {es : Editors} {label : String} {f : Frame}
    (ordered : EachAfter (fun before f => ∀ g ∈ before, g.parent ≠ f.label) es.frames)
    (member : f ∈ es.frames) (under : f.parent ∈ es.subtree label) : f.label ∈ es.subtree label := by
  obtain ⟨before, after, split⟩ := List.append_of_mem member
  refine mem_subtree_of_split split (fun g later same => ?_) under
  obtain ⟨between, rest, rfl⟩ := List.append_of_mem later
  have place : es.frames = (before ++ f :: between) ++ g :: rest := by simp [split]
  exact ordered _ g rest place f (by simp) same.symm

end Editors

end Fixture
