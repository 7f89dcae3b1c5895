import Fixture.Proofs.Draft.Change
import Fixture.Proofs.Parameter.Leaves
import Mathlib.Data.List.Induction
import Mathlib.Data.List.Nodup

/-!
The slots that a test of a function starts with. They are the names that the function binds, each at
its first place, and each of them can be filled in without touching the others.
-/

namespace Fixture

/-- What is left of a list once every later repetition is dropped: all its values, in the order in
which they come up first. -/
structure FirstsOf {α : Type} [BEq α] (whole firsts : List α) : Prop where
  mem : ∀ a, a ∈ firsts ↔ a ∈ whole
  order : firsts.Pairwise fun a b => whole.idxOf a < whole.idxOf b

theorem FirstsOf.nodup {α : Type} [BEq α] {whole firsts : List α} (of : FirstsOf whole firsts) :
    firsts.Nodup := by
  refine List.Pairwise.imp (fun {a b} less => ?_) of.order
  rintro rfl
  exact Nat.lt_irrefl _ less

section

variable {α : Type} [BEq α] [LawfulBEq α] {whole firsts : List α}

theorem FirstsOf.snoc (of : FirstsOf whole firsts) (a : α) :
    FirstsOf (whole ++ [a]) (if a ∈ whole then firsts else firsts ++ [a]) := by
  have early {b : α} (member : b ∈ firsts) : (whole ++ [a]).idxOf b = whole.idxOf b :=
    List.idxOf_append_of_mem ((of.mem b).1 member)
  have kept : firsts.Pairwise fun b c => (whole ++ [a]).idxOf b < (whole ++ [a]).idxOf c :=
    (List.Pairwise.and_mem.1 of.order).imp fun given => by
      rw [early given.1, early given.2.1]
      exact given.2.2
  split
  next present =>
    refine ⟨fun b => ?_, kept⟩
    rw [of.mem, List.mem_append, List.mem_singleton, or_iff_left_of_imp]
    rintro rfl
    exact present
  next absent =>
    refine ⟨fun b => ?_, List.pairwise_append.2 ⟨kept, List.pairwise_singleton _ _, ?_⟩⟩
    · rw [List.mem_append, List.mem_append, of.mem]
    · intro b member c last
      obtain rfl := List.mem_singleton.1 last
      rw [early member, List.idxOf_append_of_notMem absent]
      exact Nat.lt_add_right _ (List.idxOf_lt_length_of_mem ((of.mem b).1 member))

theorem firstsOf_eraseDups (as : List α) : FirstsOf as as.eraseDups := by
  induction as using List.reverseRecOn with
  | nil => exact ⟨fun a => Iff.rfl, .nil⟩
  | append_singleton as a ih =>
    have last : ([a].removeAll as).eraseDups = if a ∈ as then [] else [a] := by
      by_cases present : a ∈ as <;> simp [List.removeAll, present, List.eraseDups_cons]
    have dropped : (as ++ [a]).eraseDups = if a ∈ as then as.eraseDups else as.eraseDups ++ [a] := by
      rw [List.eraseDups_append, last]
      split <;> simp
    rw [dropped]
    exact ih.snoc a

end

namespace AnalyzedFunction

def slotKeys (f : AnalyzedFunction) : List (String × String) :=
  (defaultSlots f.arguments).map Slot.key

theorem firstsOf_slotKeys (f : AnalyzedFunction) :
    FirstsOf (ParameterList.leafPairs f.arguments) f.slotKeys := by
  have same : f.slotKeys = (ParameterList.leafPairs f.arguments).eraseDups := by
    rw [slotKeys, defaultSlots, List.map_map]
    exact List.map_id _
  rw [same]
  exact firstsOf_eraseDups _

theorem nodup_slotKeys (f : AnalyzedFunction) : f.slotKeys.Nodup := f.firstsOf_slotKeys.nodup

theorem blank_of_mem_defaultSlots {lists : List ParameterList} {s : Slot}
    (member : s ∈ defaultSlots lists) : s.type = .undefined ∧ s.value = none := by
  obtain ⟨pair, -, rfl⟩ := List.mem_map.1 member
  exact ⟨rfl, rfl⟩

/-- A slot with one of the keys takes the only place that has it. -/
theorem apply_changeArgument_initialDraft (f : AnalyzedFunction) {slot : Slot}
    (listed : slot.key ∈ f.slotKeys) : ∃ front old back,
      defaultSlots f.arguments = front ++ old :: back ∧ (∀ s ∈ front ++ back, s.key ≠ slot.key) ∧
        ∀ ctx, f.initialDraft.apply ctx (.changeArgument slot) = .ok { f.initialDraft with
          modules := { f.defaultModules with
            argumentList := some (front ++ slot.normalized :: back) } } := by
  obtain ⟨old, member, same⟩ := List.mem_map.1 listed
  obtain ⟨front, back, whole⟩ := List.append_of_mem member
  have distinct := f.nodup_slotKeys
  rw [slotKeys, whole, List.map_append, List.map_cons, List.nodup_middle, List.nodup_cons,
    ← List.map_append] at distinct
  have others : ∀ s ∈ front ++ back, s.key ≠ old.key := fun s inside key =>
    distinct.1 (key ▸ List.mem_map_of_mem inside)
  refine ⟨front, old, back, whole, fun s inside => same ▸ others s inside, fun ctx => ?_⟩
  exact Draft.changeArgument_ok (d := f.initialDraft) (congrArg some whole)
    (fun t before => others t (List.mem_append_left _ before)) same.symm

/-- A test starts with a slot for each name that the function binds, in the order in which they come
up first, and any of these slots can be changed alone. -/
theorem every_leaf_has_one_slot (f : AnalyzedFunction) :
    ∃ pairs, Enumerates (ParameterList.bindingAt? f.arguments) pairs ∧
      FirstsOf pairs ((defaultSlots f.arguments).map Slot.key) ∧
      (∀ s ∈ defaultSlots f.arguments, s.type = .undefined ∧ s.value = none) ∧
      ∀ slot : Slot, slot.key ∈ pairs → ∃ front old back,
        defaultSlots f.arguments = front ++ old :: back ∧
          (∀ s ∈ front ++ back, s.key ≠ slot.key) ∧
          ∀ ctx, ∃ d, f.initialDraft.apply ctx (.changeArgument slot) = .ok d ∧
            d = { f.initialDraft with modules := { f.initialDraft.modules with
              argumentList := some (front ++ slot.normalized :: back) } } ∧
            d.modules.slot? slot.functionName slot.argument = some slot.normalized := by
  refine ⟨_, ParameterList.enumerates_leafPairs f.arguments, f.firstsOf_slotKeys,
    fun s => blank_of_mem_defaultSlots, fun slot bound => ?_⟩
  obtain ⟨front, old, back, whole, others, changed⟩ :=
    f.apply_changeArgument_initialDraft ((f.firstsOf_slotKeys.mem _).2 bound)
  refine ⟨front, old, back, whole, others, fun ctx => ⟨_, changed ctx, rfl, ?_⟩⟩
  have listed : ({ f.initialDraft.modules with
      argumentList := some (front ++ slot.normalized :: back) } : Modules).argumentList =
        some (front ++ slot.normalized :: back) := rfl
  exact Modules.slot?_eq_some listed fun t before => others t (List.mem_append_left _ before)

/-- A function with two parameter lists of one name, which bind `a` twice. -/
def overlapping : AnalyzedFunction where
  pathToProject := "/p"
  fileId := "a.js"
  functionId := "f"
  arguments := [⟨"f", [.array [none, some (.identifier "a")], .rest (.identifier "b")]⟩,
    ⟨"f", [.object [.property "b", .array [some (.property "a")]]]⟩, ⟨"g", [.identifier "a"]⟩]

def filled : Slot := { functionName := "f", argument := "b", type := .null, value := some .null }

theorem every_leaf_has_one_slot_overlapping :
    (defaultSlots overlapping.arguments).map Slot.key =
        [("f", "a"), ("f", "RestElement"), ("f", "b"), ("g", "a")] ∧
      ∃ d, overlapping.initialDraft.apply {} (.changeArgument filled) = .ok d ∧
        d.modules.slot? "f" "b" = some { functionName := "f", argument := "b", type := .null } := by
  obtain ⟨pairs, -, firsts, -, changes⟩ := every_leaf_has_one_slot overlapping
  have bound : filled.key ∈ pairs := (firsts.mem _).1 (by decide)
  obtain ⟨front, old, back, -, -, changed⟩ := changes filled bound
  obtain ⟨d, applied, -, found⟩ := changed {}
  exact ⟨by decide, d, applied, found⟩

end AnalyzedFunction

end Fixture
