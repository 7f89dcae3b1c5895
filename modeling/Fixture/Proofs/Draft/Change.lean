import Fixture.Command.Effect

/-!
What the commands on a single payload do to a draft: the first slot with a key is replaced, or the
return value is, and all else stays.
-/

namespace Fixture

theorem ok_of_toOption {ε α : Type} {result : Except ε α} {a : α}
    (present : result.toOption = some a) : result = .ok a := by
  cases result with
  | error e => cases present
  | ok b => rw [Option.some.inj present]

@[simp] theorem TypeTag.restrict_of_composite {type : TypeTag} (composite : type.isComposite = true)
    (value : Option Json) : type.restrict value = value := by
  cases type <;> first | rfl | cases composite

@[simp] theorem TypeTag.restrict_restrict (type : TypeTag) (value : Option Json) :
    type.restrict (type.restrict value) = type.restrict value := by
  cases type <;> rfl

@[simp] theorem Slot.key_withValue (slot : Slot) (type : TypeTag) (value : Option Json) :
    (slot.withValue type value).key = slot.key := rfl

@[simp] theorem Slot.key_normalized (slot : Slot) : slot.normalized.key = slot.key := rfl

@[simp] theorem Slot.normalized_withValue (slot : Slot) (type : TypeTag) (value : Option Json) :
    (slot.withValue type value).normalized = slot.withValue type value := by
  simp [Slot.normalized, Slot.withValue]

@[simp] theorem ReturnValue.normalized_ofTyped (type : TypeTag) (value : Option Json) :
    (ReturnValue.ofTyped type value).normalized = .ofTyped type value := by
  simp [ReturnValue.normalized, ReturnValue.ofTyped]

theorem ModuleName.parse?_name (m : ModuleName) : parse? m.name = some m := by
  cases m <;> decide

theorem ModuleName.eq_name_of_parse? {s : String} {m : ModuleName} (named : parse? s = some m) :
    s = m.name := by
  have same := List.find?_some named
  exact (beq_iff_eq.1 same).symm

theorem Modules.mem_enabled {ms : Modules} {m : ModuleName} :
    m ∈ ms.enabled ↔ ms.contains m = true := by
  simp [enabled, m.mem_all]

theorem Modules.contains_returnValue {ms : Modules} {r : ReturnValue}
    (found : ms.returnValue = some r) : ms.contains .returnValue = true := by
  rw [contains, found]
  rfl

theorem Modules.contains_argumentList {ms : Modules} {functionName argument : String} {slot : Slot}
    (found : ms.slot? functionName argument = some slot) : ms.contains .argumentList = true := by
  obtain ⟨slots, listed, -⟩ := Option.bind_eq_some_iff.1 found
  rw [contains, listed]
  rfl

theorem replaceSlot?_eq_some_iff {slot : Slot} {slots out : List Slot} :
    replaceSlot? slot slots = some out ↔
      ∃ front old back, slots = front ++ old :: back ∧ (∀ s ∈ front, s.key ≠ slot.key) ∧
        old.key = slot.key ∧ out = front ++ slot :: back := by
  induction slots generalizing out with
  | nil => simp [replaceSlot?]
  | cons s rest ih =>
    by_cases same : s.key = slot.key
    · rw [replaceSlot?, if_pos same]
      constructor
      · intro replaced
        exact ⟨[], s, rest, rfl, by simp, same, (Option.some.inj replaced).symm⟩
      · intro given
        obtain ⟨front, old, back, split, others, -, rfl⟩ := given
        cases front with
        | nil => simp_all
        | cons first front =>
          obtain ⟨rfl, -⟩ := List.cons.inj split
          exact absurd same (others s (by simp))
    · rw [replaceSlot?, if_neg same, Option.map_eq_some_iff]
      constructor
      · intro given
        obtain ⟨inner, replaced, rfl⟩ := given
        obtain ⟨front, old, back, rfl, others, key, rfl⟩ := ih.1 replaced
        exact ⟨s :: front, old, back, rfl, by simpa [same] using others, key, rfl⟩
      · intro given
        obtain ⟨front, old, back, split, others, key, rfl⟩ := given
        cases front with
        | nil =>
          obtain ⟨rfl, -⟩ := List.cons.inj split
          exact absurd key same
        | cons first front =>
          obtain ⟨rfl, rest_eq⟩ := List.cons.inj split
          refine ⟨front ++ slot :: back, ih.2 ?_, rfl⟩
          exact ⟨front, old, back, rest_eq, fun t member => others t (by simp [member]), key, rfl⟩

theorem find?_replaceSlot? {slot : Slot} {slots out : List Slot}
    (replaced : replaceSlot? slot slots = some out) (key : String × String) :
    (out.find? fun s => s.key == key) =
      if slot.key = key then some slot else slots.find? fun s => s.key == key := by
  obtain ⟨front, old, back, rfl, others, same, rfl⟩ := replaceSlot?_eq_some_iff.1 replaced
  rw [List.find?_append, List.find?_append]
  by_cases found : slot.key = key
  · subst key
    have none_before : (front.find? fun s => s.key == slot.key) = none := by
      rw [List.find?_eq_none]
      intro s member
      simpa using others s member
    simp [none_before]
  · have differs : ¬(old.key == key) = true := by
      rw [same]
      simpa using found
    simp [found, differs]

theorem map_key_replaceSlot? {slot : Slot} {slots out : List Slot}
    (replaced : replaceSlot? slot slots = some out) : out.map Slot.key = slots.map Slot.key := by
  obtain ⟨front, old, back, rfl, -, same, rfl⟩ := replaceSlot?_eq_some_iff.1 replaced
  rw [List.map_append, List.map_append, List.map_cons, List.map_cons, same]

theorem Modules.slot?_key {ms : Modules} {functionName argument : String} {slot : Slot}
    (found : ms.slot? functionName argument = some slot) : slot.key = (functionName, argument) := by
  obtain ⟨slots, -, first⟩ := Option.bind_eq_some_iff.1 found
  simpa using List.find?_some first

theorem Modules.slot?_eq_some {ms : Modules} {front back : List Slot} {slot : Slot}
    (listed : ms.argumentList = some (front ++ slot :: back))
    (others : ∀ t ∈ front, t.key ≠ slot.key) :
    ms.slot? slot.functionName slot.argument = some slot := by
  have none_before : (front.find? fun t => t.key == (slot.functionName, slot.argument)) = none := by
    rw [List.find?_eq_none]
    intro t member same
    exact others t member (beq_iff_eq.1 same)
  rw [slot?, listed, Option.bind_some, List.find?_append, none_before, Option.none_or]
  exact List.find?_cons_of_pos (beq_self_eq_true slot.key)

namespace Draft

variable {d d' : Draft}

theorem updateReturnValue_ok {old : ReturnValue} (found : d.modules.returnValue = some old)
    (r : ReturnValue) : d.updateReturnValue r =
      .ok { d with modules := { d.modules with returnValue := some r.normalized } } := by
  rw [updateReturnValue, if_pos (Modules.contains_returnValue found)]

theorem changeArgument_ok {front back : List Slot} {old slot : Slot}
    (listed : d.modules.argumentList = some (front ++ old :: back))
    (others : ∀ t ∈ front, t.key ≠ old.key) (same : slot.key = old.key) :
    d.changeArgument slot = .ok { d with modules := { d.modules with
      argumentList := some (front ++ slot.normalized :: back) } } := by
  have replaced : replaceSlot? slot.normalized (front ++ old :: back) =
      some (front ++ slot.normalized :: back) := by
    rw [replaceSlot?_eq_some_iff]
    refine ⟨front, old, back, rfl, fun t member => ?_, same.symm, rfl⟩
    rw [Slot.key_normalized, same]
    exact others t member
  simp only [changeArgument, listed, replaced]

theorem updateReturnValue_inv {r : ReturnValue} (updated : d.updateReturnValue r = .ok d') :
    d' = { d with modules := { d.modules with returnValue := some r.normalized } } := by
  rw [updateReturnValue] at updated
  split at updated
  · exact (Except.ok.inj updated).symm
  · cases updated

theorem changeArgument_inv {slot : Slot} (changed : d.changeArgument slot = .ok d') :
    ∃ slots out, d.modules.argumentList = some slots ∧
      replaceSlot? slot.normalized slots = some out ∧
      d' = { d with modules := { d.modules with argumentList := some out } } := by
  rw [changeArgument] at changed
  split at changed
  · cases changed
  next slots listed =>
    split at changed
    · cases changed
    next out replaced => exact ⟨slots, out, listed, replaced, (Except.ok.inj changed).symm⟩

theorem slot?_changeArgument {slot : Slot} (changed : d.changeArgument slot = .ok d')
    (functionName argument : String) :
    d'.modules.slot? functionName argument =
      if slot.key = (functionName, argument) then some slot.normalized
      else d.modules.slot? functionName argument := by
  obtain ⟨slots, out, listed, replaced, rfl⟩ := changeArgument_inv changed
  simp only [Modules.slot?, listed, Option.bind_some]
  rw [find?_replaceSlot? replaced, Slot.key_normalized]

/-! ## Commands that are not refused -/

theorem requireFunction_ok {ctx : Context} {f : AnalyzedFunction}
    (required : ctx.requireFunction = .ok f) : ctx.function = some f := by
  rw [Context.requireFunction] at required
  split at required
  next g known => rw [known, Except.ok.inj required]
  · cases required

/-- What a command that is not refused makes of a draft. -/
inductive Applied (d : Draft) (ctx : Context) : Command → Draft → Prop where
  | setDraft (next : Draft) : Applied d ctx (.setDraft next) next
  | clear {f : AnalyzedFunction} (known : ctx.function = some f) :
      Applied d ctx .clear { d with id := none, modules := f.defaultModules }
  | restored {saved : Draft} (last : ctx.persisted = some saved) (present : saved.id.isSome)
      (same : saved.id = d.id) : Applied d ctx .discard { d with modules := saved.modules }
  | kept (unsaved : ∀ saved, ctx.persisted = some saved → ¬(saved.id.isSome ∧ saved.id = d.id)) :
      Applied d ctx .discard d
  | present {m : ModuleName} (enabled : d.modules.contains m = true) :
      Applied d ctx (.addModule m) d
  | addArgumentList {f : AnalyzedFunction} (absent : ¬d.modules.contains .argumentList = true)
      (known : ctx.function = some f) :
      Applied d ctx (.addModule .argumentList) { d with modules := { d.modules with
        argumentList := some (AnalyzedFunction.defaultSlots f.arguments) } }
  | addReturnValue (absent : ¬d.modules.contains .returnValue = true) :
      Applied d ctx (.addModule .returnValue) { d with modules := { d.modules with
        returnValue := some {} } }
  | addException (absent : ¬d.modules.contains .exception = true) :
      Applied d ctx (.addModule .exception) { d with modules := { d.modules with
        exception := some {} } }
  | removeModule (m : ModuleName) :
      Applied d ctx (.removeModule m) { d with modules := d.modules.remove m }
  | changeArgument {slot : Slot} {slots out : List Slot}
      (listed : d.modules.argumentList = some slots)
      (replaced : replaceSlot? slot.normalized slots = some out) :
      Applied d ctx (.changeArgument slot)
        { d with modules := { d.modules with argumentList := some out } }
  | updateReturnValue (r : ReturnValue) (enabled : d.modules.contains .returnValue = true) :
      Applied d ctx (.updateReturnValue r)
        { d with modules := { d.modules with returnValue := some r.normalized } }
  | updateException (e : ExpectedException) (enabled : d.modules.contains .exception = true) :
      Applied d ctx (.updateException e)
        { d with modules := { d.modules with exception := some e } }
  | rename (name : String) : Applied d ctx (.rename name) { d with customName := name }

theorem discard_applied (d : Draft) (ctx : Context) : d.Applied ctx .discard (d.discard ctx) := by
  rw [discard]
  split
  next saved last =>
    split
    next restores => exact .restored last restores.1 restores.2
    next keeps =>
      refine .kept fun other given => ?_
      obtain rfl := Option.some.inj (last.symm.trans given)
      exact keeps
  next none_saved =>
    refine .kept fun saved given => ?_
    rw [none_saved] at given
    cases given

theorem addModule_inv {ctx : Context} {m : ModuleName} (added : d.addModule ctx m = .ok d') :
    d.Applied ctx (.addModule m) d' := by
  unfold addModule at added
  split at added
  next enabled =>
    obtain rfl := Except.ok.inj added
    exact .present enabled
  next absent =>
    cases m with
    | argumentList =>
      cases required : ctx.requireFunction with
      | error e =>
        rw [required] at added
        cases added
      | ok f =>
        rw [required] at added
        obtain rfl := Except.ok.inj added
        exact .addArgumentList absent (requireFunction_ok required)
    | returnValue =>
      obtain rfl := Except.ok.inj added
      exact .addReturnValue absent
    | exception =>
      obtain rfl := Except.ok.inj added
      exact .addException absent

theorem apply_inv {ctx : Context} {c : Command} (applied : d.apply ctx c = .ok d') :
    d.Applied ctx c d' := by
  cases c with
  | setDraft next =>
    obtain rfl := Except.ok.inj applied
    exact .setDraft next
  | clear =>
    rw [apply, clear] at applied
    cases required : ctx.requireFunction with
    | error e =>
      rw [required] at applied
      cases applied
    | ok f =>
      rw [required] at applied
      obtain rfl := Except.ok.inj applied
      exact .clear (requireFunction_ok required)
  | discard =>
    obtain rfl := Except.ok.inj applied
    exact d.discard_applied ctx
  | addModule m => exact addModule_inv applied
  | removeModule m =>
    obtain rfl := Except.ok.inj applied
    exact .removeModule m
  | changeArgument slot =>
    obtain ⟨slots, out, listed, replaced, rfl⟩ := changeArgument_inv applied
    exact .changeArgument listed replaced
  | updateReturnValue r =>
    rw [apply, updateReturnValue] at applied
    split at applied
    next enabled =>
      obtain rfl := Except.ok.inj applied
      exact .updateReturnValue r enabled
    · cases applied
  | updateException e =>
    rw [apply, updateException] at applied
    split at applied
    next enabled =>
      obtain rfl := Except.ok.inj applied
      exact .updateException e enabled
    · cases applied
  | rename name =>
    obtain rfl := Except.ok.inj applied
    exact .rename name

end Draft

/-! ## Drafts of one test -/

structure Draft.SameTest (d d' : Draft) : Prop where
  id : d'.id = d.id
  pathToProject : d'.pathToProject = d.pathToProject
  fileId : d'.fileId = d.fileId
  functionId : d'.functionId = d.functionId

/-- The commands after which a draft may be one of another test or have no id. -/
def Command.Restarts : Command → Prop
  | .setDraft _ | .clear => True
  | _ => False

namespace Draft

variable {d d' d'' : Draft}

theorem SameTest.refl (d : Draft) : d.SameTest d := ⟨rfl, rfl, rfl, rfl⟩

theorem SameTest.trans (first : d.SameTest d') (second : d'.SameTest d'') : d.SameTest d'' :=
  ⟨second.id.trans first.id, second.pathToProject.trans first.pathToProject,
    second.fileId.trans first.fileId, second.functionId.trans first.functionId⟩

theorem SameTest.eq (same : d.SameTest d') :
    d' = { d with customName := d'.customName, modules := d'.modules } := by
  obtain ⟨id, pathToProject, fileId, functionId⟩ := same
  cases d'
  simp_all

theorem sameTest_apply {ctx : Context} {c : Command} (keeps : ¬c.Restarts)
    (applied : d.apply ctx c = .ok d') : d.SameTest d' := by
  cases apply_inv applied with
  | setDraft => exact absurd trivial keeps
  | clear => exact absurd trivial keeps
  | _ => exact ⟨rfl, rfl, rfl, rfl⟩

end Draft

end Fixture
