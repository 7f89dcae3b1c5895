import Fixture.Json.Printer
import Fixture.Proofs.Json.Numbers
import Fixture.Proofs.Number.Reread

/-!
Values read back from their pretty form. The text is scanned as the tokens of the value, and those
are read as its document, except for numbers and for depth: a number is read as what its text
denotes, and of what is nested more than 127 deep only the place is left.
-/

namespace Fixture.Json

/-! ## Tokens -/

mutual

def tokensOf : Json → List Token
  | .null => [.scalar .null]
  | .bool b => [.scalar (.bool b)]
  | .num n => [.scalar (.num (.ok n))]
  | .str s => [.scalar (.str (.ok s))]
  | .arr items => .openArray :: [.comma].intercalate (tokensOfItems items) ++ [.closeArray]
  | .obj members => .openObject :: [.comma].intercalate (tokensOfMembers members) ++ [.closeObject]

def tokensOfItems : List Json → List (List Token)
  | [] => []
  | v :: vs => tokensOf v :: tokensOfItems vs

def tokensOfMembers : List (String × Json) → List (List Token)
  | [] => []
  | (name, v) :: ms => (.scalar (.str (.ok name)) :: .colon :: tokensOf v) :: tokensOfMembers ms

end

namespace Scan

theorem run_newline (level : Nat) (rest : List Char) :
    between.run (newline level ++ rest) = between.run rest := by
  have spaces (n : Nat) : between.run (List.replicate n ' ' ++ rest) = between.run rest := by
    induction n with
    | zero => rfl
    | succ n ih => exact ih
  exact spaces (2 * level)

end Scan

namespace Scanned

theorem run_before_newline {text : List Char} {ts : List Token} (scanned : Scanned text ts)
    (level : Nat) (rest : List Char) :
    Scan.between.run (text ++ (newline level ++ rest)) =
      (ts ++ (Scan.between.run rest).1, (Scan.between.run rest).2) := by
  have ended := scanned.run_before (.inr rfl) (List.replicate (2 * level) ' ' ++ rest)
  rw [← List.cons_append, ← newline, Scan.run_newline] at ended
  exact ended

theorem run_before_comma {text : List Char} {ts : List Token} (scanned : Scanned text ts)
    (level : Nat) (rest : List Char) :
    Scan.between.run (text ++ (',' :: newline level ++ rest)) =
      (ts ++ .comma :: (Scan.between.run rest).1, (Scan.between.run rest).2) := by
  have next : Scan.between.next ',' = ([.comma], .between) := rfl
  have ended := scanned.run_before (.inl rfl) (newline level ++ rest)
  rw [Scan.run_cons, next, Scan.run_newline] at ended
  exact ended

theorem run_lines {line : List Char} {lines : List (List Char)} {ts : List Token}
    {tss : List (List Token)} (first : Scanned line ts)
    (others : List.Forall₂ Scanned lines tss) (level level' : Nat) (rest : List Char) :
    Scan.between.run ((',' :: newline level).intercalate (line :: lines) ++
        (newline level' ++ rest)) =
      ([.comma].intercalate (ts :: tss) ++ (Scan.between.run rest).1,
        (Scan.between.run rest).2) := by
  induction others generalizing line ts with
  | nil =>
    rw [List.intercalate_singleton, List.intercalate_singleton]
    exact first.run_before_newline level' rest
  | cons next _ ih =>
    rw [List.intercalate_cons_cons, List.intercalate_cons_cons, List.append_assoc,
      List.append_assoc, first.run_before_comma, ih next]
    simp only [List.append_assoc, List.cons_append, List.nil_append]

theorem bracketed {opening closing : Char} {o c : Token}
    (opens : Scan.start opening = ([o], .between)) (closes : Scan.start closing = ([c], .between))
    {lines : List (List Char)} {tss : List (List Token)} (each : List.Forall₂ Scanned lines tss)
    (level : Nat) :
    Scanned (bracketed opening closing level lines)
      (o :: [.comma].intercalate tss ++ [c]) := by
  have opened : Scan.between.next opening = ([o], .between) := opens
  have closed : Scan.between.run [closing] = ([c], .between) := by
    rw [Scan.run_cons, Scan.next, closes]
    rfl
  refine .of_run ?_
  cases each with
  | nil =>
    rw [Json.bracketed, Scan.run_cons, opened, closed]
    rfl
  | cons first others =>
    simp only [Json.bracketed, List.cons_append, List.append_assoc]
    rw [Scan.run_cons, opened, Scan.run_newline, run_lines first others, closed]
    rfl

theorem member {text : List Char} {ts : List Token} (scanned : Scanned text ts) (name : String) :
    Scanned (Text.Quoted.quoted name.toList ++ ':' :: ' ' :: text)
      (.scalar (.str (.ok name)) :: .colon :: ts) := by
  obtain ⟨front, s, run, settled, rfl⟩ := scanned
  refine ⟨.scalar (.str (.ok name)) :: .colon :: front, s, ?_, settled, rfl⟩
  have colon : Scan.between.next ':' = ([.colon], .between) := rfl
  have blank : Scan.between.next ' ' = ([], .between) := rfl
  rw [Scan.run_append, run_quoted, Scan.run_cons, colon, Scan.run_cons_of_next blank, run]
  rfl

end Scanned

open Number (reread Bounded)

/-- The pretty form of a value is scanned as its tokens, with numbers as they are read. -/
theorem Scanned.pretty {v : Json} (bounded : v.Numbers Bounded) (level : Nat) :
    Scanned (prettyChars level v) (tokensOf (v.mapNumbers reread)) := by
  induction v using induct generalizing level with
  | null => exact .word_null
  | bool b =>
    cases b with
    | true => exact .word_true
    | false => exact .word_false
  | num n => exact .number bounded
  | str s => exact .quoted s
  | arr items ih =>
    rw [prettyChars, mapNumbers_arr, tokensOf]
    refine .bracketed rfl rfl ?_ level
    have each := numbers_arr_iff.1 bounded
    clear bounded
    induction items with
    | nil => exact .nil
    | cons v vs later =>
      obtain ⟨first, rest⟩ := List.forall_mem_cons.1 each
      exact .cons (ih v List.mem_cons_self first _)
        (later (fun u inside => ih u (List.mem_cons_of_mem _ inside)) rest)
  | obj members ih =>
    rw [prettyChars, mapNumbers_obj, tokensOf]
    refine .bracketed rfl rfl ?_ level
    have each := numbers_obj_iff.1 bounded
    clear bounded
    induction members with
    | nil => exact .nil
    | cons m ms later =>
      obtain ⟨first, rest⟩ := List.forall_mem_cons.1 each
      exact .cons (Scanned.member (ih m List.mem_cons_self first _) m.1)
        (later (fun n inside => ih n (List.mem_cons_of_mem _ inside)) rest)

/-! ## Documents -/

theorem pretty_obj_ne_empty (members : List (String × Json)) : (obj members).pretty ≠ "" := by
  intro empty
  have chars := congrArg String.toList empty
  rw [pretty, String.toList_ofList, prettyChars] at chars
  unfold bracketed at chars
  split at chars <;> cases chars

namespace Document

mutual

def nested (outer : Nat) : Json → Document
  | .arr items => atDepth outer (.arr (nestedItems (outer + 1) items) .closed)
  | .obj members => atDepth outer (.obj (nestedMembers (outer + 1) members) .closed)
  | v => ofJson v

def nestedItems (outer : Nat) : List Json → List Document
  | [] => []
  | v :: vs => nested outer v :: nestedItems outer vs

def nestedMembers (outer : Nat) : List (String × Json) → List (Except Fault String × Document)
  | [] => []
  | (name, v) :: ms => (.ok name, nested outer v) :: nestedMembers outer ms

end

theorem nested_arr (outer : Nat) (items : List Json) :
    nested outer (.arr items) =
      atDepth outer (.arr (items.map (nested (outer + 1))) .closed) := by
  have each : nestedItems (outer + 1) items = items.map (nested (outer + 1)) := by
    induction items with
    | nil => rfl
    | cons v vs ih => rw [nestedItems, ih, List.map_cons]
  rw [nested, each]

theorem nested_obj (outer : Nat) (members : List (String × Json)) :
    nested outer (.obj members) =
      atDepth outer (.obj (members.map fun m => (.ok m.1, nested (outer + 1) m.2)) .closed) := by
  have each : nestedMembers (outer + 1) members =
      members.map fun m => (.ok m.1, nested (outer + 1) m.2) := by
    induction members with
    | nil => rfl
    | cons m ms ih => rw [nestedMembers, ih, List.map_cons]
  rw [nested, each]

end Document

theorem depth_lt_of_mem_items {v : Json} {items : List Json} (member : v ∈ items) :
    v.depth < (arr items).depth := by
  have each : v.depth ≤ depthItems items := by
    induction items with
    | nil => cases member
    | cons u vs ih =>
      rw [depthItems]
      rcases List.mem_cons.1 member with rfl | later
      · exact le_max_left _ _
      · exact (ih later).trans (le_max_right _ _)
  rw [depth]
  omega

theorem depth_lt_of_mem_members {m : String × Json} {members : List (String × Json)}
    (member : m ∈ members) : m.2.depth < (obj members).depth := by
  have each : m.2.depth ≤ depthMembers members := by
    induction members with
    | nil => cases member
    | cons n ms ih =>
      rw [depthMembers]
      rcases List.mem_cons.1 member with rfl | later
      · exact le_max_left _ _
      · exact (ih later).trans (le_max_right _ _)
  rw [depth]
  omega

/-- What is not nested too deep is read as it is. -/
theorem Document.nested_eq_ofJson {v : Json} {outer : Nat}
    (shallow : outer + v.depth ≤ Document.maxDepth) : nested outer v = ofJson v := by
  induction v using induct generalizing outer with
  | arr items ih =>
    have room : outer < Document.maxDepth := by
      have positive : 0 < (Json.arr items).depth := by simp [depth]
      omega
    rw [nested_arr, atDepth, if_pos room, ofJson, itemsOf_eq]
    refine congrArg (arr · .closed) (List.map_congr_left fun v member => ih v member ?_)
    have := depth_lt_of_mem_items member
    omega
  | obj members ih =>
    have room : outer < Document.maxDepth := by
      have positive : 0 < (Json.obj members).depth := by simp [depth]
      omega
    rw [nested_obj, atDepth, if_pos room, ofJson, membersOf_eq]
    refine congrArg (obj · .closed) (List.map_congr_left fun m member => ?_)
    refine congrArg (Except.ok m.1, ·) (ih m member ?_)
    have := depth_lt_of_mem_members member
    omega
  | _ => rfl

namespace Reading

def readOn (r : Reading) (ts : List Token) : Reading :=
  ts.foldl (fun reading token => reading.next token) r

theorem readOn_append (r : Reading) (ts ts' : List Token) :
    r.readOn (ts ++ ts') = (r.readOn ts).readOn ts' := List.foldl_append

theorem readOn_cons (r : Reading) (t : Token) (ts : List Token) :
    r.readOn (t :: ts) = (r.next t).readOn ts := rfl

theorem readOn_atFirstItem (v : Json) (around : List Surrounding) (ts : List Token) :
    (atFirstItem around).readOn (tokensOf v ++ ts) =
      (atValue (.item [] :: around)).readOn (tokensOf v ++ ts) := by
  cases v <;> rfl

theorem readOn_firstItems (v : Json) (vs : List Json) (around : List Surrounding)
    (ts : List Token) :
    (atFirstItem around).readOn ([.comma].intercalate (tokensOfItems (v :: vs)) ++ ts) =
      (atValue (.item [] :: around)).readOn
        ([.comma].intercalate (tokensOfItems (v :: vs)) ++ ts) := by
  cases vs with
  | nil =>
    simp only [tokensOfItems, List.intercalate_singleton]
    exact readOn_atFirstItem v around ts
  | cons u vs =>
    simp only [tokensOfItems]
    rw [List.intercalate_cons_cons, List.append_assoc, List.append_assoc]
    exact readOn_atFirstItem v around _

theorem readOn_items {v : Json} {vs : List Json} {around : List Surrounding} {f : Json → Document}
    (each : ∀ u ∈ v :: vs, ∀ before : List Document,
      (atValue (.item before :: around)).readOn (tokensOf u) = .afterItem (f u :: before) around)
    (before : List Document) :
    (atValue (.item before :: around)).readOn ([.comma].intercalate (tokensOfItems (v :: vs))) =
      .afterItem (((v :: vs).map f).reverse ++ before) around := by
  induction vs generalizing v before with
  | nil =>
    simp only [tokensOfItems, List.intercalate_singleton]
    exact each v List.mem_cons_self before
  | cons u vs ih =>
    have first := each v List.mem_cons_self before
    have rest := ih (fun w later => each w (List.mem_cons_of_mem _ later)) (f v :: before)
    simp only [tokensOfItems] at rest ⊢
    rw [List.intercalate_cons_cons, List.append_assoc, readOn_append, first, readOn_append]
    refine rest.trans ?_
    simp

theorem readOn_firstMembers (m : String × Json) (ms : List (String × Json))
    (around : List Surrounding) (ts : List Token) :
    (atFirstName around).readOn ([.comma].intercalate (tokensOfMembers (m :: ms)) ++ ts) =
      (atName [] around).readOn ([.comma].intercalate (tokensOfMembers (m :: ms)) ++ ts) := by
  cases ms with
  | nil =>
    simp only [tokensOfMembers, List.intercalate_singleton]
    rfl
  | cons n ms =>
    simp only [tokensOfMembers]
    rw [List.intercalate_cons_cons, List.append_assoc, List.append_assoc]
    rfl

theorem readOn_members {m : String × Json} {ms : List (String × Json)} {around : List Surrounding}
    {f : Json → Document}
    (each : ∀ n ∈ m :: ms, ∀ (before : List Member) (name : Except Fault String),
      (atValue (.member before name :: around)).readOn (tokensOf n.2) =
        .afterMember ((name, f n.2) :: before) around)
    (before : List Member) :
    (atName before around).readOn ([.comma].intercalate (tokensOfMembers (m :: ms))) =
      .afterMember (((m :: ms).map fun n => (.ok n.1, f n.2)).reverse ++ before) around := by
  have name (before : List Member) (m : String × Json) (ts : List Token) :
      (atName before around).readOn (.scalar (.str (.ok m.1)) :: .colon :: ts) =
        (atValue (.member before (.ok m.1) :: around)).readOn ts := rfl
  induction ms generalizing m before with
  | nil =>
    simp only [tokensOfMembers, List.intercalate_singleton]
    rw [name]
    exact each m List.mem_cons_self before _
  | cons n ms ih =>
    have first := each m List.mem_cons_self before (.ok m.1)
    have rest := ih (fun k later => each k (List.mem_cons_of_mem _ later))
      ((.ok m.1, f m.2) :: before)
    simp only [tokensOfMembers] at rest ⊢
    rw [List.intercalate_cons_cons, List.append_assoc, readOn_append, name, first, readOn_append]
    refine rest.trans ?_
    simp

/-- The tokens of a value are read as its document, in its place. -/
theorem readOn_tokensOf (v : Json) (around : List Surrounding) :
    (atValue around).readOn (tokensOf v) = place (Document.nested around.length v) around := by
  induction v using induct generalizing around with
  | arr items ih =>
    rw [tokensOf, Document.nested_arr, List.cons_append, readOn_cons]
    cases items with
    | nil => rfl
    | cons v vs =>
      have each : ∀ u ∈ v :: vs, ∀ before : List Document,
          (atValue (.item before :: around)).readOn (tokensOf u) =
            .afterItem (Document.nested (around.length + 1) u :: before) around :=
        fun u inside before => ih u inside (.item before :: around)
      have opened : (atValue around).next .openArray = .atFirstItem around := rfl
      rw [opened, readOn_firstItems, readOn_append, readOn_items each [], List.append_nil]
      show place (closeArray _ .closed around) around = _
      rw [closeArray, List.reverse_reverse]
  | obj members ih =>
    rw [tokensOf, Document.nested_obj, List.cons_append, readOn_cons]
    cases members with
    | nil => rfl
    | cons m ms =>
      have each : ∀ n ∈ m :: ms, ∀ (before : List Member) (name : Except Fault String),
          (atValue (.member before name :: around)).readOn (tokensOf n.2) =
            .afterMember ((name, Document.nested (around.length + 1) n.2) :: before) around :=
        fun n inside before name => ih n inside (.member before name :: around)
      have opened : (atValue around).next .openObject = .atFirstName around := rfl
      rw [opened, readOn_firstMembers, readOn_append, readOn_members each [], List.append_nil]
      show place (closeObject _ .closed around) around = _
      rw [closeObject, List.reverse_reverse]
  | _ => rfl

end Reading

theorem Document.ofText_pretty {v : Json} (bounded : v.Numbers Bounded) :
    Document.ofText v.pretty = (nested 0 (v.mapNumbers reread), false) := by
  have scanned := Scanned.pretty bounded 0
  rw [Document.ofText, Document.ofChars, Json.pretty, String.toList_ofList, scanned.tokens_eq]
  exact congrArg Reading.finish (Reading.readOn_tokensOf (v.mapNumbers reread) [])

end Fixture.Json
