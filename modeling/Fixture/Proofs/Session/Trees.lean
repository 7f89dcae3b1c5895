import Fixture.Proofs.Editor.Trees
import Fixture.Proofs.Session.Live

/-!
Editing the return value and editing an argument do not interfere. Of two sequences of operations,
each on the editors of one of the trees, all interleavings have the same effect: each operation has
the answer that it has without the other sequence, and so has each tree its editors and the draft its
payloads.
-/

namespace Fixture

/-- Whether an operation is one on the editors of a tree: it opens the root, or the label it is given
starts as those of the tree do. -/
def Operation.on (tree : EditorTree) : Operation → Bool
  | .openReturnValue => decide (tree = .returnValue)
  | .openArgument _ _ => decide (tree = .argument)
  | .openField label _ | .setValue label _ | .commit label | .close label => tree.holds label
  | _ => false

theorem Operation.on_unique {op : Operation} {tree other : EditorTree} (own : op.on tree = true)
    (ownOther : op.on other = true) : tree = other := by
  cases op with
  | openReturnValue => exact (of_decide_eq_true own).trans (of_decide_eq_true ownOther).symm
  | openArgument functionName argument =>
    exact (of_decide_eq_true own).trans (of_decide_eq_true ownOther).symm
  | openField label key => exact EditorTree.holds_unique own ownOther
  | setValue label value => exact EditorTree.holds_unique own ownOther
  | commit label => exact EditorTree.holds_unique own ownOther
  | close label => exact EditorTree.holds_unique own ownOther
  | _ => cases own

namespace Session

def only (tree : EditorTree) (s : Session) : Session :=
  { s with draft := s.draft.only tree, editors := s.editors.only tree }

/-- What an operation answers: the editor that it opens or closes, if it does that, or why it is
refused. -/
def answer (s : Session) (op : Operation) : Except SessionError (Option Frame) :=
  (s.result op).map (·.1)

def answers (s : Session) : List Operation → List (Operation × Except SessionError (Option Frame))
  | [] => []
  | op :: ops => (op, s.answer op) :: (s.after op).answers ops

variable {α β : Type} {s t : Session} {tree other : EditorTree} {op : Operation}

@[simp] theorem only_only (tree : EditorTree) (s : Session) :
    (s.only tree).only tree = s.only tree := by
  simp [only]

theorem Live.only (live : s.Live) (tree : EditorTree) : (s.only tree).Live :=
  Editors.Forest.only live tree

/-! ## One operation -/

inductive Alike (tree : EditorTree) :
    Except SessionError (α × Session) → Except SessionError (α × Session) → Prop where
  | refused (e : SessionError) : Alike tree (.error e) (.error e)
  | given (a : α) {u' u : Session} (same : u'.only tree = u.only tree) :
      Alike tree (.ok (a, u')) (.ok (a, u))

theorem Alike.map {result' result : Except SessionError (α × Session)}
    (alike : Alike tree result' result) (answer : α → β) :
    Alike tree (result'.map fun given => (answer given.1, given.2))
      (result.map fun given => (answer given.1, given.2)) := by
  cases alike with
  | refused e => exact .refused e
  | given a same => exact .given (answer a) same

theorem cases_of_map_eq {ε γ δ : Type} {result' result : Except ε γ} {f : γ → δ}
    (same : result'.map f = result.map f) :
    (∃ e, result' = .error e ∧ result = .error e) ∨
      ∃ c' c, result' = .ok c' ∧ result = .ok c ∧ f c' = f c := by
  cases result with
  | error e =>
    cases result' with
    | error e' => exact .inl ⟨e, congrArg Except.error (Except.error.inj same), rfl⟩
    | ok c' => cases same
  | ok c =>
    cases result' with
    | error e' => cases same
    | ok c' => exact .inr ⟨c', c, rfl, rfl, Except.ok.inj same⟩

theorem alike_withEditors (s : Session) {result' result : Except EditorError (α × Editors)}
    (same : result'.map (Prod.map id (Editors.only tree)) =
      result.map (Prod.map id (Editors.only tree))) :
    Alike tree ((s.only tree).withEditors result') (s.withEditors result) := by
  rcases cases_of_map_eq same with ⟨e, rfl, rfl⟩ | ⟨⟨a', editors'⟩, ⟨a, editors⟩, rfl, rfl, agree⟩
  · exact .refused _
  · obtain ⟨rfl, left⟩ := Prod.mk.inj agree
    refine .given a' ?_
    simp only [only, Draft.only_only, left]

theorem alike_openField (placed : Editors.Placed s.editors.frames) {label : String}
    (held : tree.holds label = true) (key : String) :
    Alike tree ((s.only tree).openField label key) (s.openField label key) := by
  have found : (s.only tree).editors.frame? label = s.editors.frame? label :=
    Editors.frame?_only s.editors held
  rw [openField, openField, found]
  cases s.editors.frame? label with
  | none => exact .refused _
  | some p => exact alike_withEditors s (Editors.openField_only placed held _)

theorem alike_setValue (placed : Editors.Placed s.editors.frames) {label : String}
    (held : tree.holds label = true) (value : Json) :
    Alike tree ((s.only tree).result (.setValue label value)) (s.result (.setValue label value)) := by
  have same : ((s.only tree).editors.setValue label value).map (Editors.only tree) =
      (s.editors.setValue label value).map (Editors.only tree) :=
    Editors.setValue_only placed held value
  rcases cases_of_map_eq same with ⟨e, refused', refused⟩ | ⟨editors', editors, set', set, left⟩
  · simp only [result, setValue, refused', refused]
    exact .refused _
  · simp only [result, setValue, set', set]
    refine .given none ?_
    simp only [only, Draft.only_only, left]

theorem alike_commit (live : s.Live) {label : String} (held : tree.holds label = true) :
    Alike tree ((s.only tree).result (.commit label)) (s.result (.commit label)) := by
  have found : (s.only tree).editors.frame? label = s.editors.frame? label :=
    Editors.frame?_only s.editors held
  simp only [result]
  cases opened : s.editors.frame? label with
  | none =>
    simp only [commit, found, opened]
    exact .refused _
  | some f =>
    have same : ((s.only tree).editors.commit label f.value (s.only tree).draft
          (s.only tree).context).map (Prod.map (Draft.only tree) (Editors.only tree)) =
        (s.editors.commit label f.value s.draft s.context).map
          (Prod.map (Draft.only tree) (Editors.only tree)) :=
      Editors.commit_only live.toPlaced held f.value s.context
    rcases cases_of_map_eq same with
      ⟨e, refused', refused⟩ | ⟨⟨d', editors'⟩, ⟨d, editors⟩, committed', committed, agree⟩
    · simp only [commit, found, opened, refused', refused]
      exact .refused _
    · rw [((live.only tree).commit_ok (found.trans opened) committed').1,
        (live.commit_ok opened committed).1]
      obtain ⟨draft, left⟩ := Prod.mk.inj agree
      refine .given none ?_
      simp only [only, draft, left]

theorem alike_close (placed : Editors.Placed s.editors.frames) {label : String}
    (held : tree.holds label = true) :
    Alike tree ((s.only tree).result (.close label)) (s.result (.close label)) := by
  have same : ((s.only tree).editors.close? label).map (Prod.map id (Editors.only tree)) =
      (s.editors.close? label).map (Prod.map id (Editors.only tree)) :=
    Editors.close?_only placed held
  simp only [result, close?]
  cases closed : s.editors.close? label with
  | none =>
    rw [closed, Option.map_none, Option.map_eq_none_iff] at same
    rw [same]
    exact .refused _
  | some given =>
    rw [closed, Option.map_some, Option.map_eq_some_iff] at same
    obtain ⟨⟨f', editors'⟩, closed', agree⟩ := same
    obtain ⟨f, editors⟩ := given
    obtain ⟨rfl, left⟩ := Prod.mk.inj agree
    rw [closed']
    refine .given (some f') ?_
    simp only [only, Draft.only_only, left]

/-- Without the other tree an operation does to the tree what it does beside it. -/
theorem alike_result (live : s.Live) (own : op.on tree = true) :
    Alike tree ((s.only tree).result op) (s.result op) := by
  have placed := live.toPlaced
  cases op with
  | openReturnValue =>
    obtain rfl := of_decide_eq_true own
    exact (alike_withEditors s (Editors.openReturnValue_only placed)).map some
  | openArgument functionName argument =>
    obtain rfl := of_decide_eq_true own
    exact (alike_withEditors s (Editors.openArgument_only placed functionName argument)).map some
  | openField label key => exact (alike_openField placed own key).map some
  | setValue label value => exact alike_setValue placed own value
  | commit label => exact alike_commit live own
  | close label => exact alike_close placed own
  | _ => cases own

theorem answer_only (live : s.Live) (own : op.on tree = true) :
    (s.only tree).answer op = s.answer op := by
  have alike := alike_result live own
  rw [answer, answer]
  generalize (s.only tree).result op = result' at alike
  generalize s.result op = result at alike
  cases alike <;> rfl

theorem after_only (live : s.Live) (own : op.on tree = true) :
    ((s.only tree).after op).only tree = (s.after op).only tree := by
  have alike := alike_result live own
  rw [after_eq, after_eq]
  generalize (s.only tree).result op = result' at alike
  generalize s.result op = result at alike
  cases alike with
  | refused e => exact s.only_only tree
  | given a same => exact same

theorem step_other (live : s.Live) (own : op.on tree = true) (apart : tree ≠ other)
    (done : s.Step op t) : t.only other = s.only other := by
  have placed := live.toPlaced
  have editors_only {editors : Editors} (same : editors.only other = s.editors.only other) :
      Session.only other { s with editors } = s.only other := by
    simp only [only, same]
  cases done with
  | openReturnValue opened =>
    obtain rfl := of_decide_eq_true own
    obtain ⟨r, value, -, -, rfl, pushed⟩ := Editors.openReturnValue_inv opened
    exact editors_only (Editors.push_other placed (.returnValue rfl rfl rfl) apart pushed)
  | openArgument opened =>
    obtain rfl := of_decide_eq_true own
    obtain ⟨slot, value, -, -, rfl, pushed⟩ := Editors.openArgument_inv opened
    exact editors_only (Editors.push_other placed (.argument rfl rfl rfl) apart pushed)
  | openField found opened =>
    obtain ⟨p, field, found, -, -, rfl, pushed⟩ := Editors.openField_inv opened
    obtain ⟨path, place⟩ := Editors.frame?_isAt placed own found
    obtain ⟨-, rfl⟩ := Editors.frame?_mem found
    exact editors_only (Editors.push_other placed (place.opened _ field) apart pushed)
  | setValue set => exact editors_only (Editors.setValue_other live own apart set)
  | commit found committed =>
    obtain ⟨draft, left⟩ := Editors.commit_other placed own apart committed
    have forest := Editors.Forest.commit live committed
    simp only [only, replaceDraft, forest.reconcile_eq_self, draft, left]
  | close closed =>
    obtain ⟨-, rfl⟩ := Editors.close?_inv closed
    exact editors_only (Editors.without_other placed own apart)
  | _ => cases own

theorem after_other (live : s.Live) (own : op.on tree = true) (apart : tree ≠ other) :
    (s.after op).only other = s.only other := by
  rcases s.after_cases op with done | ⟨-, same⟩
  · exact step_other live own apart done
  · rw [same]

/-! ## Sequences of operations -/

theorem answers_filter (liveS : s.Live) (liveT : t.Live) (same : s.only tree = t.only tree)
    {ops : List Operation} (own : ∀ op ∈ ops, ∃ tree, op.on tree = true) :
    (s.answers ops).filter (fun given => given.1.on tree) =
        t.answers (ops.filter fun op => op.on tree) ∧
      (s.afterAll ops).only tree = (t.afterAll (ops.filter fun op => op.on tree)).only tree := by
  induction ops generalizing s t with
  | nil => exact ⟨rfl, same⟩
  | cons op ops ih =>
    obtain ⟨⟨tree', here⟩, later⟩ := List.forall_mem_cons.1 own
    by_cases inside : op.on tree = true
    · have answered : s.answer op = t.answer op := by
        rw [← answer_only liveS inside, ← answer_only liveT inside, same]
      have left : (s.after op).only tree = (t.after op).only tree := by
        rw [← after_only liveS inside, ← after_only liveT inside, same]
      obtain ⟨answers, after⟩ := ih (liveS.after op) (liveT.after op) left later
      rw [List.filter_cons, if_pos inside]
      refine ⟨?_, after⟩
      rw [Session.answers, List.filter_cons, if_pos inside, answers, Session.answers, answered]
    · have apart : tree' ≠ tree := by
        rintro rfl
        exact inside here
      have left : (s.after op).only tree = t.only tree :=
        (after_other liveS here apart).trans same
      obtain ⟨answers, after⟩ := ih (liveS.after op) liveT left later
      rw [List.filter_cons, if_neg inside]
      refine ⟨?_, after⟩
      rw [Session.answers, List.filter_cons, if_neg inside, answers]

/-- The sequences that have the members of two others, those of each in their order. -/
inductive Interleaving : List α → List α → List α → Prop where
  | nil : Interleaving [] [] []
  | left {as bs cs : List α} (a : α) (others : Interleaving as bs cs) :
      Interleaving (a :: as) bs (a :: cs)
  | right {as bs cs : List α} (b : α) (others : Interleaving as bs cs) :
      Interleaving as (b :: bs) (b :: cs)

namespace Interleaving

variable {as bs cs : List α}

theorem symm (shuffled : Interleaving as bs cs) : Interleaving bs as cs := by
  induction shuffled with
  | nil => exact .nil
  | left a _ ih => exact .right a ih
  | right b _ ih => exact .left b ih

theorem mem (shuffled : Interleaving as bs cs) {c : α} (member : c ∈ cs) : c ∈ as ∨ c ∈ bs := by
  induction shuffled with
  | nil => cases member
  | left a _ ih =>
    rcases List.mem_cons.1 member with rfl | later
    · exact .inl List.mem_cons_self
    · exact (ih later).imp_left (List.mem_cons_of_mem a)
  | right b _ ih =>
    rcases List.mem_cons.1 member with rfl | later
    · exact .inr List.mem_cons_self
    · exact (ih later).imp_right (List.mem_cons_of_mem b)

theorem filter_eq_left (shuffled : Interleaving as bs cs) {keep : α → Bool}
    (all : ∀ a ∈ as, keep a = true) (none : ∀ b ∈ bs, ¬keep b = true) : cs.filter keep = as := by
  induction shuffled with
  | nil => rfl
  | left a _ ih =>
    obtain ⟨here, later⟩ := List.forall_mem_cons.1 all
    rw [List.filter_cons, if_pos here, ih later none]
  | right b _ ih =>
    obtain ⟨here, later⟩ := List.forall_mem_cons.1 none
    rw [List.filter_cons, if_neg here, ih all later]

end Interleaving

/-- What an interleaving does to a tree is what the sequence of operations on that tree does alone. -/
theorem interleaving_on (live : s.Live) {as bs ops : List Operation}
    (own : ∀ op ∈ as, op.on tree = true) (others : ∀ op ∈ bs, op.on other = true)
    (apart : tree ≠ other) (shuffled : Interleaving as bs ops) :
    (s.answers ops).filter (fun given => given.1.on tree) = s.answers as ∧
      (s.afterAll ops).only tree = (s.afterAll as).only tree := by
  have chosen : (ops.filter fun op => op.on tree) = as :=
    shuffled.filter_eq_left own fun op member inside =>
      apart (Operation.on_unique inside (others op member))
  have both : ∀ op ∈ ops, ∃ tree, op.on tree = true := fun op member =>
    (shuffled.mem member).elim (fun first => ⟨tree, own op first⟩)
      fun second => ⟨other, others op second⟩
  rw [← chosen]
  exact answers_filter live live rfl both

theorem afterAll_other (live : s.Live) {ops : List Operation}
    (own : ∀ op ∈ ops, op.on tree = true) (apart : tree ≠ other) :
    (s.afterAll ops).only other = s.only other := by
  induction ops generalizing s with
  | nil => rfl
  | cons op ops ih =>
    obtain ⟨here, later⟩ := List.forall_mem_cons.1 own
    exact (ih (live.after op) later).trans (after_other live here apart)

/-- However operations on the editors of the return value and operations on the editors of an argument
are interleaved in a session that can come about, each answers what it answers without those of the
other kind. The return value and its editors are left as the first leave them, the arguments and
their editors as the second do, and the rest of the draft as it was. So only the selected tab
depends on the interleaving. -/
theorem trees_do_not_interfere {s : Session} (reachable : s.Reachable) {as bs ops : List Operation}
    (onReturnValue : ∀ op ∈ as, op.on .returnValue = true)
    (onArgument : ∀ op ∈ bs, op.on .argument = true) (shuffled : Interleaving as bs ops) :
    (s.answers ops).filter (fun given => given.1.on .returnValue) = s.answers as ∧
      (s.answers ops).filter (fun given => given.1.on .argument) = s.answers bs ∧
      (s.afterAll ops).draft = { s.draft with modules := { s.draft.modules with
        returnValue := (s.afterAll as).draft.modules.returnValue
        argumentList := (s.afterAll bs).draft.modules.argumentList } } ∧
      ((s.afterAll ops).editors.frames.filter fun f => f.inTree .returnValue) =
        ((s.afterAll as).editors.frames.filter fun f => f.inTree .returnValue) ∧
      ((s.afterAll ops).editors.frames.filter fun f => f.inTree .argument) =
        ((s.afterAll bs).editors.frames.filter fun f => f.inTree .argument) := by
  have live := reachable.live
  have apart : EditorTree.returnValue ≠ .argument := by decide
  obtain ⟨answersL, onlyL⟩ := interleaving_on live onReturnValue onArgument apart shuffled
  obtain ⟨answersR, onlyR⟩ :=
    interleaving_on live onArgument onReturnValue apart.symm shuffled.symm
  have rest := afterAll_other live onArgument apart.symm
  refine ⟨answersL, answersR, ?_, ?_, ?_⟩
  · exact Draft.eq_of_only (congrArg Session.draft onlyL) (congrArg Session.draft onlyR)
      (congrArg Session.draft rest)
  · exact congrArg (fun s => s.editors.frames) onlyL
  · exact congrArg (fun s => s.editors.frames) onlyR

def twofold : Session :=
  (fresh { pathToProject := "/p", fileId := "a.js", functionId := "f",
           arguments := [⟨"f", [.identifier "x"]⟩] }).afterAll
    [.run (.updateReturnValue { type := .object, value := some (.obj [("a", .arr [])]) }),
      .run (.changeArgument { functionName := "f", argument := "x", type := .array })]

def returnValueEdits : List Operation :=
  [.openReturnValue, .openField "Return value" "a", .setValue "Return value.a" (.arr [.null]),
    .commit "Return value.a", .commit "Return value", .close "Return value"]

def argumentEdits : List Operation :=
  [.openArgument "f" "x", .openField "Argument" "0", .setValue "Argument" (.arr [.obj []]),
    .commit "Argument"]

def alternating : List Operation :=
  [.openArgument "f" "x", .openReturnValue, .openField "Argument" "0",
    .openField "Return value" "a", .setValue "Argument" (.arr [.obj []]),
    .setValue "Return value.a" (.arr [.null]), .commit "Return value.a", .commit "Argument",
    .commit "Return value", .close "Return value"]

theorem trees_do_not_interfere_alternating :
    twofold.Reachable ∧ Interleaving returnValueEdits argumentEdits alternating ∧
      (twofold.answers alternating).filter (fun given => given.1.on .argument) =
        twofold.answers argumentEdits ∧
      (twofold.afterAll alternating).draft.modules =
        { argumentList := some [
            { functionName := "f", argument := "x", type := .array, value := some (.arr [.obj []]) }]
          returnValue := some { type := .object, value := some (.obj [("a", .arr [.null])]) } } := by
  have reachable : twofold.Reachable := (Reachable.fresh _).afterAll _
  have shuffled : Interleaving returnValueEdits argumentEdits alternating :=
    .right _ <| .left _ <| .right _ <| .left _ <| .right _ <| .left _ <| .left _ <| .right _ <|
      .left _ <| .left _ .nil
  have onReturnValue : ∀ op ∈ returnValueEdits, op.on .returnValue = true := by decide
  have onArgument : ∀ op ∈ argumentEdits, op.on .argument = true := by decide
  obtain ⟨-, answers, draft, -⟩ :=
    trees_do_not_interfere reachable onReturnValue onArgument shuffled
  refine ⟨reachable, shuffled, answers, ?_⟩
  rw [draft]
  rfl

end Session

end Fixture
