import Fixture.Proofs.Draft.Change
import Mathlib.Tactic.ByContra

/-!
Commands on different parts of a draft. A command that is about one part sees and changes nothing
else: on a draft that has this part from another one it does what it does to the other one
(`apply_graft`). So two commands on parts that have nothing in common can be given in any order, and
neither has a say in whether the other one is refused.
-/

namespace Fixture

namespace Draft

inductive Part where
  | module (m : ModuleName)
  | slot (key : String × String)
  | name

def Part.module? : Part → Option ModuleName
  | .module m => some m
  | .slot _ => some .argumentList
  | .name => none

/-- Parts that have nothing in common. A slot is part of the module of all slots. -/
def Part.Disjoint : Part → Part → Prop
  | .slot key, .slot key' => key ≠ key'
  | p, q => p.module? ≠ q.module?

end Draft

def Command.part? : Command → Option Draft.Part
  | .addModule m | .removeModule m => some (.module m)
  | .changeArgument slot => some (.slot slot.key)
  | .updateReturnValue _ => some (.module .returnValue)
  | .updateException _ => some (.module .exception)
  | .rename _ => some .name
  | .setDraft _ | .clear | .discard => none

theorem Command.part?_eq_slot {c : Command} {key : String × String}
    (about : c.part? = some (.slot key)) : ∃ slot, c = .changeArgument slot ∧ slot.key = key := by
  cases c with
  | changeArgument slot =>
    cases about
    exact ⟨slot, rfl, rfl⟩
  | _ => cases about

namespace Draft

variable {d d' d₁ : Draft} {ctx : Context} {c c₁ c₂ : Command} {p p₁ p₂ : Part}

/-! ## One part -/

def graft (d : Draft) : Option ModuleName → Draft → Draft
  | some .argumentList, e =>
    { d with modules := { d.modules with argumentList := e.modules.argumentList } }
  | some .returnValue, e =>
    { d with modules := { d.modules with returnValue := e.modules.returnValue } }
  | some .exception, e => { d with modules := { d.modules with exception := e.modules.exception } }
  | none, e => { d with customName := e.customName }

theorem graft_self (d : Draft) (a : Option ModuleName) : d.graft a d = d := by
  rcases a with _ | _ | _ | _ <;> rfl

theorem graft_comm {a b : Option ModuleName} (different : a ≠ b) (d e e' : Draft) :
    (d.graft a e).graft b e' = (d.graft b e').graft a e := by
  rcases a with _ | _ | _ | _ <;> rcases b with _ | _ | _ | _ <;>
    first | rfl | exact absurd rfl different

theorem contains_graft (d e : Draft) (m : ModuleName) :
    (d.graft (some m) e).modules.contains m = e.modules.contains m := by
  cases m <;> rfl

/-- A command sees and changes no more than the module of its part. -/
theorem apply_graft (about : c.part? = some p) (d e : Draft) (ctx : Context) :
    (d.graft p.module? e).apply ctx c = (e.apply ctx c).map (d.graft p.module?) := by
  cases c with
  | setDraft | clear | discard => cases about
  | addModule m =>
    cases about
    simp only [Part.module?, apply, addModule, contains_graft]
    split
    · rfl
    cases m with
    | argumentList => cases ctx.requireFunction <;> rfl
    | returnValue | exception => rfl
  | removeModule m =>
    cases about
    cases m <;> rfl
  | changeArgument slot =>
    cases about
    simp only [Part.module?, apply, changeArgument, graft]
    cases e.modules.argumentList with
    | none => rfl
    | some slots =>
      dsimp only
      cases replaceSlot? slot.normalized slots <;> rfl
  | updateReturnValue r =>
    cases about
    simp only [Part.module?, apply, updateReturnValue, contains_graft]
    split <;> rfl
  | updateException e =>
    cases about
    simp only [Part.module?, apply, updateException, contains_graft]
    split <;> rfl
  | rename name =>
    cases about
    rfl

theorem eq_graft_of_apply (about : c.part? = some p) (applied : d.apply ctx c = .ok d') :
    d' = d.graft p.module? d' := by
  have onItself := apply_graft about d d ctx
  rw [graft_self, applied] at onItself
  exact Except.ok.inj onItself

/-- A draft that differs from another one in one part at most. In the list of slots only the first
slot with the key of the part is another one. -/
structure ChangedIn (p : Part) (d d' : Draft) : Prop where
  test : d.SameTest d'
  customName : p.module? ≠ none → d'.customName = d.customName
  argumentList : p.module? ≠ some .argumentList → d'.modules.argumentList = d.modules.argumentList
  returnValue : p.module? ≠ some .returnValue → d'.modules.returnValue = d.modules.returnValue
  exception : p.module? ≠ some .exception → d'.modules.exception = d.modules.exception
  slots : ∀ key, p = .slot key → ∃ front old new back,
    d.modules.argumentList = some (front ++ old :: back) ∧
      d'.modules.argumentList = some (front ++ new :: back) ∧
      (∀ s ∈ front, s.key ≠ key) ∧ old.key = key ∧ new.key = key

theorem changedIn_of_apply (about : c.part? = some p) (applied : d.apply ctx c = .ok d') :
    d.ChangedIn p d' := by
  have same := eq_graft_of_apply about applied
  constructor
  case test =>
    refine sameTest_apply (fun restarts => ?_) applied
    cases c <;> first | exact restarts | cases about
  case slots =>
    rintro key rfl
    obtain ⟨slot, rfl, rfl⟩ := Command.part?_eq_slot about
    obtain ⟨slots, out, listed, replaced, rfl⟩ := changeArgument_inv applied
    obtain ⟨front, old, back, rfl, others, key, rfl⟩ := replaceSlot?_eq_some_iff.1 replaced
    exact ⟨front, old, _, back, listed, rfl, others, key, rfl⟩
  all_goals
    intro other
    generalize p.module? = a at same other
    rcases a with _ | _ | _ | _ <;> first | exact absurd rfl other | rw [same]; rfl

/-! ## Two parts -/

def verdict (d : Draft) (ctx : Context) (c : Command) : Except Refusal Unit :=
  (d.apply ctx c).map fun _ => ()

/-- After a command that gives `d₁` another one is refused exactly as before, and if it is not, the
two commands give the same draft in either order. -/
structure Commutes (d : Draft) (ctx : Context) (c₁ c₂ : Command) (d₁ : Draft) : Prop where
  verdict : d₁.verdict ctx c₂ = d.verdict ctx c₂
  both : ∀ d₂, d.apply ctx c₂ = .ok d₂ →
    ∃ both, d₁.apply ctx c₂ = .ok both ∧ d₂.apply ctx c₁ = .ok both

theorem apply_apply_of_ne (first : c₁.part? = some p₁) (second : c₂.part? = some p₂)
    (different : p₁.module? ≠ p₂.module?) (applied : d.apply ctx c₁ = .ok d₁) :
    d₁.apply ctx c₂ = (d.apply ctx c₂).map (d₁.graft p₂.module?) := by
  have unseen : d₁.graft p₂.module? d = d₁ := by
    rw [eq_graft_of_apply first applied, graft_comm different, graft_self]
  rw [← apply_graft second, unseen]

theorem commutes_of_ne (first : c₁.part? = some p₁) (second : c₂.part? = some p₂)
    (different : p₁.module? ≠ p₂.module?) (applied : d.apply ctx c₁ = .ok d₁) :
    d.Commutes ctx c₁ c₂ d₁ := by
  have later := apply_apply_of_ne first second different applied
  refine ⟨?_, fun d₂ applied₂ => ⟨d₁.graft p₂.module? d₂, ?_, ?_⟩⟩
  · rw [verdict, verdict, later]
    cases d.apply ctx c₂ <;> rfl
  · rw [later, applied₂]
    rfl
  · rw [apply_apply_of_ne second first (Ne.symm different) applied₂, applied]
    refine congrArg Except.ok ?_
    calc d₂.graft p₁.module? d₁
      _ = (d.graft p₂.module? d₂).graft p₁.module? d₁ :=
        congrArg (graft · _ _) (eq_graft_of_apply second applied₂)
      _ = (d.graft p₁.module? d₁).graft p₂.module? d₂ := graft_comm (Ne.symm different) _ _ _
      _ = d₁.graft p₂.module? d₂ :=
        congrArg (graft · _ _) (eq_graft_of_apply first applied).symm

/-! ### Slots of one list -/

theorem replaceSlot?_eq_none_iff {slot : Slot} {slots : List Slot} :
    replaceSlot? slot slots = none ↔ slot.key ∉ slots.map Slot.key := by
  induction slots with
  | nil => simp [replaceSlot?]
  | cons s rest ih =>
    rw [replaceSlot?, List.map_cons, List.mem_cons, not_or]
    split
    next same => simp [same]
    next different => rw [Option.map_eq_none_iff, ih, and_iff_right (Ne.symm different)]

theorem replaceSlot?_comm {slot slot' : Slot} (different : slot.key ≠ slot'.key)
    (slots : List Slot) :
    (replaceSlot? slot slots).bind (replaceSlot? slot') =
      (replaceSlot? slot' slots).bind (replaceSlot? slot) := by
  induction slots with
  | nil => rfl
  | cons s rest ih =>
    by_cases first : s.key = slot.key
    · have other : s.key ≠ slot'.key := fun same => different (first.symm.trans same)
      simp only [replaceSlot?, if_pos first, if_neg other, if_neg different, Option.bind_some]
      cases replaceSlot? slot' rest <;> simp [replaceSlot?, first]
    by_cases second : s.key = slot'.key
    · simp only [replaceSlot?, if_neg first, if_pos second, if_neg (Ne.symm different),
        Option.bind_some]
      cases replaceSlot? slot rest <;> simp [replaceSlot?, second]
    -- Neither slot takes the first place, so both are replaced in the rest.
    have onward (a b : Slot) (apart : s.key ≠ b.key) :
        ((replaceSlot? a rest).map (s :: ·)).bind (replaceSlot? b) =
          ((replaceSlot? a rest).bind (replaceSlot? b)).map (s :: ·) := by
      cases replaceSlot? a rest <;> simp [replaceSlot?, apart]
    simp only [replaceSlot?, if_neg first, if_neg second]
    rw [onward _ _ second, onward _ _ first, ih]

theorem verdict_changeArgument (d : Draft) (ctx : Context) (slot : Slot) :
    d.verdict ctx (.changeArgument slot) =
      match d.modules.argumentList.map (List.map Slot.key) with
      | none => .error (.moduleDisabled .argumentList)
      | some keys =>
        if slot.key ∈ keys then .ok ()
        else .error (.slotNotFound slot.functionName slot.argument) := by
  rw [verdict, apply, changeArgument]
  cases d.modules.argumentList with
  | none => rfl
  | some slots =>
    have missing : replaceSlot? slot.normalized slots = none ↔
        slot.normalized.key ∉ slots.map Slot.key := replaceSlot?_eq_none_iff
    rw [Slot.key_normalized] at missing
    dsimp only [Option.map_some]
    cases replaced : replaceSlot? slot.normalized slots with
    | none =>
      rw [if_neg (missing.1 replaced)]
      rfl
    | some out =>
      have present : slot.key ∈ slots.map Slot.key := by
        by_contra absent
        rw [missing.2 absent] at replaced
        cases replaced
      rw [if_pos present]
      rfl

theorem commutes_changeArgument {slot slot' : Slot} (different : slot.key ≠ slot'.key)
    (applied : d.apply ctx (.changeArgument slot) = .ok d₁) :
    d.Commutes ctx (.changeArgument slot) (.changeArgument slot') d₁ := by
  obtain ⟨slots, out₁, listed, replaced₁, rfl⟩ := changeArgument_inv applied
  have keys := map_key_replaceSlot? replaced₁
  constructor
  case verdict =>
    rw [verdict_changeArgument, verdict_changeArgument, listed, Option.map_some, Option.map_some,
      keys]
  case both =>
    intro d₂ applied₂
    obtain ⟨slots', out₂, listed', replaced₂, rfl⟩ := changeArgument_inv applied₂
    obtain rfl := Option.some.inj (listed.symm.trans listed')
    have apart : slot.normalized.key ≠ slot'.normalized.key := different
    have orders := replaceSlot?_comm apart slots
    rw [replaced₁, replaced₂, Option.bind_some, Option.bind_some] at orders
    cases again : replaceSlot? slot'.normalized out₁ with
    | none =>
      rw [replaceSlot?_eq_none_iff, keys, ← replaceSlot?_eq_none_iff, replaced₂] at again
      cases again
    | some out =>
      rw [again] at orders
      refine ⟨{ d with modules := { d.modules with argumentList := some out } }, ?_, ?_⟩
      · simp only [apply, changeArgument, again]
      · simp only [apply, changeArgument, ← orders]

/-- A command changes nothing but its part, and it commutes with every command on a part that has
nothing in common with it. -/
theorem disjoint_commands_commute (first : c₁.part? = some p₁)
    (applied : d.apply ctx c₁ = .ok d₁) :
    d.ChangedIn p₁ d₁ ∧
      ∀ c₂ p₂, c₂.part? = some p₂ → p₁.Disjoint p₂ → d.Commutes ctx c₁ c₂ d₁ := by
  refine ⟨changedIn_of_apply first applied, fun c₂ p₂ second disjoint => ?_⟩
  cases p₁ with
  | slot key =>
    cases p₂ with
    | slot key' =>
      obtain ⟨slot, rfl, rfl⟩ := Command.part?_eq_slot first
      obtain ⟨slot', rfl, rfl⟩ := Command.part?_eq_slot second
      exact commutes_changeArgument disjoint applied
    | _ => exact commutes_of_ne first second disjoint applied
  | _ => exact commutes_of_ne first second disjoint applied

/-- A draft with two slots for each of two arguments. -/
def repeated : Draft where
  pathToProject := "/p"
  fileId := "a.js"
  functionId := "f"
  modules := { argumentList := some (["a", "b", "a", "b"].map fun argument =>
    { functionName := "f", argument }) }

def retyped (argument : String) : Command :=
  .changeArgument { functionName := "f", argument, type := .string, value := some (.str argument) }

theorem disjoint_commands_commute_repeated :
    (retyped "a").part? = some (.slot ("f", "a")) ∧ (retyped "b").part? = some (.slot ("f", "b")) ∧
      (Part.slot ("f", "a")).Disjoint (.slot ("f", "b")) ∧
      ∃ d₁ d₂ both, repeated.apply {} (retyped "a") = .ok d₁ ∧
        repeated.apply {} (retyped "b") = .ok d₂ ∧ d₁.apply {} (retyped "b") = .ok both ∧
        d₂.apply {} (retyped "a") = .ok both ∧
        (both.modules.argumentList.map (List.map Slot.type)) =
          some [.string, .string, .undefined, .undefined] := by
  have apart : (Part.slot ("f", "a")).Disjoint (.slot ("f", "b")) :=
    show ("f", "a") ≠ ("f", "b") by decide
  obtain ⟨-, commutes⟩ := disjoint_commands_commute (show (retyped "a").part? = _ from rfl)
    (show repeated.apply {} (retyped "a") = _ from rfl)
  obtain ⟨both, after₁, after₂⟩ := (commutes (retyped "b") _ rfl apart).both _ rfl
  refine ⟨rfl, rfl, apart, _, _, both, rfl, rfl, after₁, after₂, ?_⟩
  cases after₁
  rfl

end Draft

end Fixture
