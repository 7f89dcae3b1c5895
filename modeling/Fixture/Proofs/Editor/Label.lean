import Fixture.Editor.Editors
import Fixture.Proofs.Text.Quoted
import Mathlib.Data.List.Induction

/-!
Labels of editors. The label of an editor is the label at the root of its tree followed by the
segments of the keys that lead to it. Reading from the left, each segment shows where it ends, so a
label tells the whole path; and no label is the name of a module.
-/

namespace Fixture

/-- The two trees of editors, by what the editor at the root edits. -/
inductive EditorTree where
  | returnValue
  | argument
deriving DecidableEq

namespace EditorTree

def rootLabel : EditorTree → String
  | .returnValue => returnValueLabel
  | .argument => argumentLabel

def labelAt (tree : EditorTree) (path : List FieldKey) : String :=
  path.foldl (fun label key => label ++ key.segment) tree.rootLabel

end EditorTree

namespace FieldKey

theorem toList_segment_index (i : UInt64) :
    (index i).segment.toList = '[' :: (Nat.toDigits 10 i.toNat ++ [']']) := by
  simp [segment, Nat.repr_eq_ofList_toDigits]

theorem toList_segment_plain (name : String) (plain : isPlain name = true) :
    (property name).segment.toList = '.' :: name.toList := by
  simp [segment, plain]

theorem toList_segment_quoted (name : String) (special : isPlain name = false) :
    (property name).segment.toList =
      '[' :: '"' :: (Text.Quoted.encode name.toList ++ ['"', ']']) := by
  simp [segment, special, Text.Quoted.quote, Text.Quoted.quoted]

@[simp] theorem segment_ne_empty (key : FieldKey) : key.segment ≠ "" := by
  rw [← String.toList_inj.ne]
  cases key with
  | index i => simp [toList_segment_index]
  | property name =>
    cases plain : isPlain name
    · simp [toList_segment_quoted name plain]
    · simp [toList_segment_plain name plain]

/-- Whether a text can follow a segment: it is empty, or another segment starts it. -/
def Continues (rest : List Char) : Prop := ∀ c ∈ rest.head?, c = '.' ∨ c = '['

theorem segment_continues (key : FieldKey) (rest : List Char) :
    Continues (key.segment.toList ++ rest) := by
  cases key with
  | index i => simp [Continues, toList_segment_index]
  | property name =>
    cases plain : isPlain name
    · simp [Continues, toList_segment_quoted name plain]
    · simp [Continues, toList_segment_plain name plain]

theorem mem_of_isPlain {name : String} (plain : isPlain name = true) {c : Char}
    (member : c ∈ name.toList) : c ≠ '.' ∧ c ≠ '[' := by
  simp only [isPlain, Bool.and_eq_true, List.all_eq_true] at plain
  have allowed := plain.2 c member
  simp at allowed
  exact ⟨allowed.1, allowed.2.1⟩

private theorem append_inj_of_stop (inside : Char → Prop) {xs ys rest rest' : List Char}
    (inx : ∀ c ∈ xs, inside c) (iny : ∀ c ∈ ys, inside c)
    (stop : ∀ c ∈ rest.head?, ¬inside c) (stop' : ∀ c ∈ rest'.head?, ¬inside c)
    (same : xs ++ rest = ys ++ rest') : xs = ys ∧ rest = rest' := by
  induction xs generalizing ys with
  | nil =>
    cases ys with
    | nil => exact ⟨rfl, same⟩
    | cons y ys =>
      rw [List.nil_append] at same
      exact absurd (iny y (by simp)) (stop y (by simp [same]))
  | cons x xs ih =>
    cases ys with
    | nil =>
      rw [List.nil_append] at same
      exact absurd (inx x (by simp)) (stop' x (by simp [← same]))
    | cons y ys =>
      obtain ⟨first, others⟩ := List.cons.inj same
      obtain ⟨tails, ends⟩ := ih (fun c member => inx c (by simp [member]))
        (fun c member => iny c (by simp [member])) others
      exact ⟨by rw [first, tails], ends⟩

private theorem digits_ne_quote (n : Nat) (rest rest' : List Char) :
    Nat.toDigits 10 n ++ ']' :: rest ≠ '"' :: rest' := by
  intro same
  cases digits : Nat.toDigits 10 n with
  | nil => simp [digits] at same
  | cons d ds =>
    have digit : d.isDigit := Nat.isDigit_of_mem_toDigits (b := 10) (n := n) (by decide) (by decide)
      (by simp [digits])
    rw [digits] at same
    obtain ⟨rfl, -⟩ := List.cons.inj same
    exact absurd digit (by decide)

private theorem index_append_inj (i j : UInt64) (rest rest' : List Char)
    (same : Nat.toDigits 10 i.toNat ++ ']' :: rest = Nat.toDigits 10 j.toNat ++ ']' :: rest') :
    i = j ∧ rest = rest' := by
  have digits (n : Nat) : ∀ c ∈ Nat.toDigits 10 n, c.isDigit = true :=
    fun c member => Nat.isDigit_of_mem_toDigits (by decide) (by decide) member
  have stop (tail : List Char) : ∀ c ∈ (']' :: tail).head?, ¬c.isDigit = true := by
    simp only [List.head?_cons, Option.mem_some_iff, forall_eq']
    decide
  obtain ⟨numbers, ends⟩ := append_inj_of_stop (fun c => c.isDigit = true) (digits _) (digits _)
    (stop _) (stop _) same
  refine ⟨UInt64.toNat_inj.1 ?_, (List.cons.inj ends).2⟩
  calc
    i.toNat = Nat.ofDigitChars 10 (Nat.toDigits 10 i.toNat) 0 := Nat.ofDigitChars_ten_toDigits.symm
    _ = Nat.ofDigitChars 10 (Nat.toDigits 10 j.toNat) 0 := by rw [numbers]
    _ = j.toNat := Nat.ofDigitChars_ten_toDigits

private theorem plain_append_inj {name other : String} (plain : isPlain name = true)
    (plain' : isPlain other = true) {rest rest' : List Char} (after : Continues rest)
    (after' : Continues rest') (same : name.toList ++ rest = other.toList ++ rest') :
    name = other ∧ rest = rest' := by
  have stop {tail : List Char} (next : Continues tail) :
      ∀ c ∈ tail.head?, ¬(c ≠ '.' ∧ c ≠ '[') := by
    intro c first inside
    rcases next c first with dot | bracket
    · exact inside.1 dot
    · exact inside.2 bracket
  obtain ⟨names, ends⟩ := append_inj_of_stop (fun c => c ≠ '.' ∧ c ≠ '[')
    (fun c => mem_of_isPlain plain) (fun c => mem_of_isPlain plain') (stop after) (stop after') same
  exact ⟨String.toList_inj.1 names, ends⟩

private theorem quoted_append_inj (name other : String) (rest rest' : List Char)
    (same : Text.Quoted.encode name.toList ++ '"' :: ']' :: rest =
      Text.Quoted.encode other.toList ++ '"' :: ']' :: rest') : name = other ∧ rest = rest' := by
  obtain ⟨names, ends⟩ := Text.Quoted.encode_append_quote_inj _ _ _ _ same
  exact ⟨String.toList_inj.1 names, (List.cons.inj ends).2⟩

/-- A segment shows where it ends, and which key it is for. -/
theorem segment_append_inj {key other : FieldKey} {rest rest' : List Char}
    (after : Continues rest) (after' : Continues rest')
    (same : key.segment.toList ++ rest = other.segment.toList ++ rest') :
    key = other ∧ rest = rest' := by
  -- a point starts plain names, a bracket with a quote the others, a bracket with a digit indices
  cases key with
  | index i =>
    cases other with
    | index j =>
      simp only [toList_segment_index, List.cons_append, List.append_assoc, List.nil_append,
        List.cons.injEq, true_and] at same
      obtain ⟨rfl, ends⟩ := index_append_inj i j _ _ same
      exact ⟨rfl, ends⟩
    | property name =>
      cases plain : isPlain name
      · simp only [toList_segment_index, toList_segment_quoted name plain, List.cons_append,
          List.append_assoc, List.nil_append, List.cons.injEq, true_and] at same
        exact absurd same (digits_ne_quote _ _ _)
      · simp [toList_segment_index, toList_segment_plain name plain] at same
  | property name =>
    cases plain : isPlain name
    · cases other with
      | index j =>
        simp only [toList_segment_index, toList_segment_quoted name plain, List.cons_append,
          List.append_assoc, List.nil_append, List.cons.injEq, true_and] at same
        exact absurd same.symm (digits_ne_quote _ _ _)
      | property name' =>
        cases plain' : isPlain name'
        · simp only [toList_segment_quoted _ plain, toList_segment_quoted _ plain',
            List.cons_append, List.append_assoc, List.nil_append, List.cons.injEq, true_and] at same
          obtain ⟨rfl, ends⟩ := quoted_append_inj name name' _ _ same
          exact ⟨rfl, ends⟩
        · simp [toList_segment_quoted _ plain, toList_segment_plain _ plain'] at same
    · cases other with
      | index j => simp [toList_segment_index, toList_segment_plain name plain] at same
      | property name' =>
        cases plain' : isPlain name'
        · simp [toList_segment_plain _ plain, toList_segment_quoted _ plain'] at same
        · simp only [toList_segment_plain _ plain, toList_segment_plain _ plain', List.cons_append,
            List.cons.injEq, true_and] at same
          obtain ⟨rfl, ends⟩ := plain_append_inj plain plain' after after' same
          exact ⟨rfl, ends⟩

end FieldKey

namespace EditorTree

@[simp] theorem labelAt_nil (tree : EditorTree) : tree.labelAt [] = tree.rootLabel := rfl

@[simp] theorem labelAt_snoc (tree : EditorTree) (path : List FieldKey) (key : FieldKey) :
    tree.labelAt (path ++ [key]) = tree.labelAt path ++ key.segment := by
  simp [labelAt, List.foldl_append]

theorem toList_labelAt (tree : EditorTree) (path : List FieldKey) :
    (tree.labelAt path).toList =
      tree.rootLabel.toList ++ path.flatMap fun key => key.segment.toList := by
  induction path using List.reverseRecOn with
  | nil => simp
  | append_singleton path key ih => simp [ih]

private theorem segments_inj (path other : List FieldKey)
    (same : path.flatMap (fun key => key.segment.toList) =
      other.flatMap fun key => key.segment.toList) : path = other := by
  have continues (keys : List FieldKey) :
      FieldKey.Continues (keys.flatMap fun key => key.segment.toList) := by
    cases keys with
    | nil => simp [FieldKey.Continues]
    | cons key keys => exact FieldKey.segment_continues key _
  induction path generalizing other with
  | nil =>
    cases other with
    | nil => rfl
    | cons key keys => exact absurd same (by simp)
  | cons key keys ih =>
    cases other with
    | nil => exact absurd same (by simp)
    | cons key' keys' =>
      obtain ⟨rfl, others⟩ := FieldKey.segment_append_inj (continues keys) (continues keys') same
      rw [ih keys' others]

def initial : EditorTree → Char
  | .returnValue => 'R'
  | .argument => 'A'

theorem initial_inj {tree other : EditorTree} (same : tree.initial = other.initial) :
    tree = other := by
  revert same
  cases tree <;> cases other <;> decide

theorem head?_rootLabel_append (tree : EditorTree) (rest : List Char) :
    (tree.rootLabel.toList ++ rest).head? = some tree.initial := by
  cases tree <;> rfl

/-- A label tells the tree and the whole path. -/
theorem labelAt_inj {tree other : EditorTree} {path path' : List FieldKey} :
    tree.labelAt path = other.labelAt path' ↔ tree = other ∧ path = path' := by
  constructor
  · intro same
    have chars := congrArg String.toList same
    rw [toList_labelAt, toList_labelAt] at chars
    have heads := congrArg List.head? chars
    rw [head?_rootLabel_append, head?_rootLabel_append] at heads
    obtain rfl := initial_inj (Option.some.inj heads)
    exact ⟨rfl, segments_inj path path' (List.append_cancel_left chars)⟩
  · intro given
    obtain ⟨rfl, rfl⟩ := given
    rfl

theorem labelAt_ne_name (tree : EditorTree) (path : List FieldKey) (m : ModuleName) :
    tree.labelAt path ≠ m.name := by
  intro same
  have heads := congrArg (fun label => label.toList.head?) same
  simp only [toList_labelAt, head?_rootLabel_append] at heads
  revert heads
  cases m <;> cases tree <;> decide

def holds (tree : EditorTree) (label : String) : Bool :=
  tree.rootLabel.toList.isPrefixOf label.toList

theorem head?_of_holds {tree : EditorTree} {label : String} (held : tree.holds label = true) :
    label.toList.head? = some tree.initial := by
  obtain ⟨rest, same⟩ := List.isPrefixOf_iff_prefix.1 held
  rw [← same, head?_rootLabel_append]

theorem holds_unique {tree other : EditorTree} {label : String} (held : tree.holds label = true)
    (heldOther : other.holds label = true) : tree = other :=
  initial_inj (Option.some.inj ((head?_of_holds held).symm.trans (head?_of_holds heldOther)))

theorem holds_labelAt {tree other : EditorTree} {path : List FieldKey} :
    other.holds (tree.labelAt path) = true ↔ tree = other := by
  have own : tree.holds (tree.labelAt path) = true := by
    rw [holds, toList_labelAt, List.isPrefixOf_iff_prefix]
    exact List.prefix_append _ _
  constructor
  · exact holds_unique own
  · intro same
    subst same
    exact own

theorem holds_name (tree : EditorTree) (m : ModuleName) : tree.holds m.name = false := by
  cases tree <;> cases m <;> decide

theorem parse?_labelAt (tree : EditorTree) (path : List FieldKey) :
    ModuleName.parse? (tree.labelAt path) = none := by
  rw [ModuleName.parse?, List.find?_eq_none]
  intro m _ same
  exact tree.labelAt_ne_name path m (beq_iff_eq.1 same).symm

end EditorTree

end Fixture
