import Fixture.Proofs.Draft.Payloads
import Fixture.Proofs.Session.Reduction

/-!
Types and values of payloads. The type is in the draft, while the value is in an editor until it is
committed. By then any value may have been set, and a command may have changed the type. A commit
puts the two together as they are, so that they agree exactly if the value was of the type that the
payload has by then.
-/

namespace Fixture

/-- With the type of an array or an object goes a value of that type, or none. -/
def TypeTag.Agrees (type : TypeTag) (value : Option Json) : Prop :=
  type.isComposite = true → ∀ v, value = some v → ofValue v = type

def Modules.Agree (ms : Modules) : Prop :=
  ms.Payloads (fun r => r.type.Agrees r.value) fun s => s.type.Agrees s.value

theorem Modules.agree_default (f : AnalyzedFunction) : f.defaultModules.Agree :=
  payloads_default f (fun composite => absurd composite Bool.false_ne_true)
    fun _ _ composite => absurd composite Bool.false_ne_true

def Draft.typeAt? (d : Draft) : Target → Option TypeTag
  | .returnValue => d.modules.returnValue.map (·.type)
  | .argument functionName argument => (d.modules.slot? functionName argument).map (·.type)
  | .field _ => none

def Frame.Fits (d : Draft) (f : Frame) : Prop :=
  ∀ type, d.typeAt? f.target = some type → TypeTag.ofValue f.value = type

theorem Frame.Fits.of_typeAt? {d d' : Draft} {f : Frame} (fits : f.Fits d)
    (same : d'.typeAt? f.target = d.typeAt? f.target) : f.Fits d' := by
  rwa [Fits, same]

theorem ofValue_of_startingValue? {type : TypeTag} {stored : Option Json} {start : Json}
    (starts : startingValue? type stored = some start) : TypeTag.ofValue start = type := by
  unfold startingValue? at starts
  split at starts <;> cases starts <;> rfl

theorem FieldKey.ofValue_set (key : FieldKey) (value v : Json) :
    TypeTag.ofValue (key.set value v) = TypeTag.ofValue v := by
  cases v with
  | arr items => cases key <;> rfl
  | obj members => cases key <;> rfl
  | _ => rfl

namespace Editors

variable {es next : Editors} {d d' : Draft} {f : Frame} {label : String} {value : Json}
  {ctx : Context}

/-! ## Committing -/

/-- The editor of a whole payload can always be committed. -/
theorem commit_ok_of_typeAt? (found : es.frame? label = some f) {type : TypeTag}
    (typed : d.typeAt? f.target = some type) (value : Json) (ctx : Context) :
    ∃ d' next, es.commit label value d ctx = .ok (d', next) := by
  rw [commit]
  cases target : f.target with
  | returnValue =>
    rw [target] at typed
    obtain ⟨r, here, -⟩ := Option.map_eq_some_iff.1 typed
    simp only [found, target, here, Draft.apply, Draft.updateReturnValue_ok here]
    exact ⟨_, _, rfl⟩
  | argument functionName argument =>
    rw [target] at typed
    obtain ⟨slot, here, -⟩ := Option.map_eq_some_iff.1 typed
    obtain ⟨slots, listed, first⟩ := Option.bind_eq_some_iff.1 here
    obtain ⟨-, front, back, rfl, others⟩ := List.find?_eq_some_iff_append.1 first
    have key := Modules.slot?_key here
    have applied := Draft.changeArgument_ok listed
      (fun t member => by simpa [key] using others t member)
      (slot.key_withValue slot.type (some value))
    simp only [found, target, here, Draft.apply, applied]
    exact ⟨_, _, rfl⟩
  | field key =>
    rw [target] at typed
    cases typed

namespace Committed

theorem typeAt? (result : Committed es label value d ctx f d' next) (target : Target) :
    d'.typeAt? target = d.typeAt? target := by
  cases result with
  | returnValue own found applied =>
    obtain rfl := Draft.updateReturnValue_inv applied
    cases target with
    | returnValue => simp only [Draft.typeAt?, found]; rfl
    | _ => rfl
  | argument own found applied =>
    cases target with
    | argument functionName argument =>
      simp only [Draft.typeAt?]
      rw [Draft.slot?_changeArgument applied]
      split
      next same =>
        rw [Slot.key_withValue, Modules.slot?_key found] at same
        obtain ⟨rfl, rfl⟩ := Prod.mk.inj same
        rw [found]
        rfl
      next => rfl
    | returnValue =>
      obtain ⟨slots, out, -, -, rfl⟩ := Draft.changeArgument_inv applied
      rfl
    | field key => rfl
  | field => rfl

theorem agree (result : Committed es label value d ctx f d' next) (before : d.modules.Agree)
    (fits : ∀ type, d.typeAt? f.target = some type → TypeTag.ofValue value = type) :
    d'.modules.Agree := by
  have typed (type : TypeTag) (named : d.typeAt? f.target = some type) :
      type.Agrees (type.restrict (some value)) := by
    intro composite v present
    rw [TypeTag.restrict_of_composite composite] at present
    exact Option.some.inj present ▸ fits type named
  cases result with
  | @returnValue r _ target found applied =>
    obtain rfl := Draft.updateReturnValue_inv applied
    refine Modules.Payloads.withReturnValue before ?_
    rw [ReturnValue.normalized_ofTyped]
    exact typed r.type (by rw [target, Draft.typeAt?, found]; rfl)
  | @argument _ _ slot _ target found applied =>
    obtain ⟨slots, out, listed, replaced, rfl⟩ := Draft.changeArgument_inv applied
    refine Modules.Payloads.replaceSlot? before listed replaced ?_
    rw [Slot.normalized_withValue]
    exact typed slot.type (by rw [target, Draft.typeAt?, found]; rfl)
  | field => exact before

theorem fits (result : Committed es label value d ctx f d' next) (after : d'.modules.Agree)
    {type : TypeTag} (named : d.typeAt? f.target = some type)
    (composite : type.isComposite = true) : TypeTag.ofValue value = type := by
  cases result with
  | @returnValue r _ target found applied =>
    obtain rfl : r.type = type := by simpa [target, Draft.typeAt?, found] using named
    obtain rfl := Draft.updateReturnValue_inv applied
    refine after.returnValue _ rfl composite value ?_
    rw [ReturnValue.normalized_ofTyped]
    exact TypeTag.restrict_of_composite composite (some value)
  | @argument functionName argument slot _ target found applied =>
    obtain rfl : slot.type = type := by simpa [target, Draft.typeAt?, found] using named
    obtain ⟨slots, out, -, replaced, rfl⟩ := Draft.changeArgument_inv applied
    obtain ⟨front, old, back, -, -, -, rfl⟩ := replaceSlot?_eq_some_iff.1 replaced
    refine after.slots _ rfl (slot.withValue slot.type (some value)).normalized (by simp) composite
      value ?_
    rw [Slot.normalized_withValue]
    exact TypeTag.restrict_of_composite composite (some value)
  | field target parent here nested =>
    rw [target] at named
    cases named

end Committed

/-- An open editor that is not that of a field is that of a payload, an array or an object. -/
theorem Forest.typeAt?_of_ne_field (forest : Forest d es.frames) (member : f ∈ es.frames)
    (root : ∀ key, f.target ≠ .field key) :
    ∃ type, d.typeAt? f.target = some type ∧ type.isComposite = true := by
  obtain ⟨before, after, split⟩ := List.append_of_mem member
  have stands := forest.stand before f after split
  cases target : f.target with
  | returnValue =>
    simp only [Frame.Stands, target] at stands
    obtain ⟨r, found, composite⟩ := stands
    exact ⟨r.type, by rw [Draft.typeAt?, found]; rfl, composite⟩
  | argument functionName argument =>
    simp only [Frame.Stands, target] at stands
    obtain ⟨slot, found, composite⟩ := stands
    exact ⟨slot.type, by rw [Draft.typeAt?, found]; rfl, composite⟩
  | field key => exact absurd target (root key)

theorem Forest.composite_of_typeAt? (forest : Forest d es.frames) (member : f ∈ es.frames)
    {type : TypeTag} (typed : d.typeAt? f.target = some type) : type.isComposite = true := by
  have root (key : FieldKey) (target : f.target = .field key) : False := by
    rw [target] at typed
    cases typed
  obtain ⟨type', same, composite⟩ := forest.typeAt?_of_ne_field member root
  obtain rfl := Option.some.inj (same.symm.trans typed)
  exact composite

/-! ## Values in editors -/

def Fit (d : Draft) (frames : List Frame) : Prop := ∀ f ∈ frames, f.Fits d

namespace Fit

theorem reconcile (fit : Fit d es.frames)
    (same : ∀ f ∈ (es.reconcile d').1.frames, d'.typeAt? f.target = d.typeAt? f.target) :
    Fit d' (es.reconcile d').1.frames := by
  intro f member
  exact (fit f ((reconcile_sublist es d').subset member)).of_typeAt? (same f member)

theorem without (fit : Fit d es.frames) (label : String) : Fit d (es.without label).frames :=
  fun f member => fit f (mem_without.1 member).1

theorem push (fit : Fit d es.frames) (pushed : es.push f d = .ok next) (fits : f.Fits d) :
    Fit d next.frames := by
  obtain ⟨-, -, rfl⟩ := push_inv pushed
  intro g member
  rcases List.mem_append.1 member with old | new
  · exact fit.without f.label g old
  · rwa [List.mem_singleton.1 new]

theorem openReturnValue (fit : Fit d es.frames) (opened : es.openReturnValue d = .ok (f, next)) :
    Fit d next.frames := by
  obtain ⟨r, start, found, starts, rfl, pushed⟩ := openReturnValue_inv opened
  refine fit.push pushed fun type typed => ?_
  obtain rfl : r.type = type := by simpa [Frame.opened, Draft.typeAt?, found] using typed
  exact ofValue_of_startingValue? starts

theorem openArgument (fit : Fit d es.frames) {functionName argument : String}
    (opened : es.openArgument d functionName argument = .ok (f, next)) : Fit d next.frames := by
  obtain ⟨slot, start, found, starts, rfl, pushed⟩ := openArgument_inv opened
  refine fit.push pushed fun type typed => ?_
  obtain rfl : slot.type = type := by simpa [Frame.opened, Draft.typeAt?, found] using typed
  exact ofValue_of_startingValue? starts

theorem openField (fit : Fit d es.frames) {parent : String} {key : FieldKey}
    (opened : es.openField d parent key = .ok (f, next)) : Fit d next.frames := by
  obtain ⟨p, field, -, -, -, rfl, pushed⟩ := openField_inv opened
  refine fit.push pushed fun type typed => ?_
  cases typed

theorem setValue (fit : Fit d es.frames) (nodup : (es.frames.map Frame.label).Nodup)
    (set : es.setValue label value = .ok next)
    (given : ∀ f, es.frame? label = some f → ∀ type, d.typeAt? f.target = some type →
      TypeTag.ofValue value = type) : Fit d next.frames := by
  rw [setValue_frames nodup set]
  intro f member
  obtain ⟨g, memberG, rfl⟩ := List.mem_map.1 ((sift_sublist _ _).subset member)
  by_cases same : g.label = label
  · subst same
    intro type typed
    rw [value_changeValue_self]
    rw [(samePlace_changeValue _ _ g).target] at typed
    exact given g (frame?_eq_some nodup memberG) type typed
  · rw [value_changeValue_of_ne _ same]
    exact fit g memberG

theorem commit (fit : Fit d es.frames) (nodup : (es.frames.map Frame.label).Nodup)
    (result : Committed es label value d ctx f d' next) : Fit d' next.frames := by
  have moved {frames : List Frame} (fit : Fit d frames) : Fit d' frames := fun g member =>
    (fit g member).of_typeAt? (result.typeAt? g.target)
  cases result with
  | returnValue => exact moved (fit.without label)
  | argument => exact moved (fit.without label)
  | @field key p old target parent here composite =>
    rw [field_commit_frames nodup label f.parent]
    intro g member
    obtain ⟨h, memberH, rfl⟩ := List.mem_map.1 member
    have fits := fit.without label h memberH
    intro type typed
    rw [(samePlace_changeValue _ _ h).target] at typed
    rw [changeValue]
    split
    · exact (key.ofValue_set value h.value).trans (fits type typed)
    · exact fits type typed

end Fit

end Editors

/-! ## Sessions -/

/-- The operations by which another draft can come in. -/
def Operation.IsCommand : Operation → Prop
  | .run _ | .dispatch _ | .markPersisted _ => True
  | _ => False

namespace Session

variable {s t : Session}

def CommitFits (s : Session) (label : String) : Prop :=
  ∀ f, s.editors.frame? label = some f → f.Fits s.draft

/-- An operation brings no value of another type into the editor of a payload, and no other type for
a payload whose editor stays open. -/
structure KeepsTypes (s : Session) (op : Operation) : Prop where
  value : ∀ label value, op = .setValue label value → ∀ f, s.editors.frame? label = some f →
    ∀ type, s.draft.typeAt? f.target = some type → TypeTag.ofValue value = type
  types : op.IsCommand → ∀ f ∈ (s.after op).editors.frames,
    (s.after op).draft.typeAt? f.target = s.draft.typeAt? f.target

theorem agree_commit_iff (live : s.Live) (before : s.draft.modules.Agree) (label : String) :
    (s.after (.commit label)).draft.modules.Agree ↔ s.CommitFits label := by
  constructor
  · intro after f found type typed
    obtain ⟨d, editors, committed⟩ :=
      Editors.commit_ok_of_typeAt? found typed f.value s.context
    have done : s.after (.commit label) = { s with draft := d, editors } := by
      rw [Session.after, step?, (live.commit_ok found committed).1]
      rfl
    obtain ⟨g, same, result⟩ := Editors.commit_inv committed
    obtain rfl := Option.some.inj (found.symm.trans same)
    rw [done] at after
    exact result.fits after typed
      (Editors.Forest.composite_of_typeAt? live (Editors.frame?_mem found).1 typed)
  · intro fits
    rcases s.after_cases (.commit label) with done | ⟨-, same⟩
    · generalize s.after (.commit label) = t at done
      cases done with
      | commit found committed =>
        obtain ⟨g, same, result⟩ := Editors.commit_inv committed
        obtain rfl := Option.some.inj (found.symm.trans same)
        exact result.agree before (fits _ found)
    · rwa [same]

theorem agree_after (live : s.Live) (before : s.draft.modules.Agree) {op : Operation}
    (brought : op.IsCommand → (s.after op).draft.modules.Agree)
    (fits : ∀ label, op = .commit label → s.CommitFits label) :
    (s.after op).draft.modules.Agree := by
  by_cases command : op.IsCommand
  · exact brought command
  have unsaved : ∀ saved, op ≠ .markPersisted saved := by
    rintro saved rfl
    exact command trivial
  rcases s.draft_after_cases unsaved with same | ⟨c, contributes, -⟩
  · rwa [same]
  · cases contributes with
    | run => exact absurd trivial command
    | dispatch => exact absurd trivial command
    | returnValue label => exact (agree_commit_iff live before label).2 (fits label rfl)
    | argument label => exact (agree_commit_iff live before label).2 (fits label rfl)

theorem fit_after (live : s.Live) (fit : Editors.Fit s.draft s.editors.frames) {op : Operation}
    (keeps : s.KeepsTypes op) : Editors.Fit (s.after op).draft (s.after op).editors.frames := by
  obtain ⟨value, types⟩ := keeps
  rcases s.after_cases op with done | ⟨-, same⟩
  · generalize s.after op = t at done types
    cases done with
    | run applied => exact fit.reconcile (types trivial)
    | ignored parsed => exact fit
    | dispatch parsed applied => exact fit.reconcile (types trivial)
    | markPersisted saved => exact fit.reconcile (types trivial)
    | openReturnValue opened => exact fit.openReturnValue opened
    | openArgument opened => exact fit.openArgument opened
    | openField found opened => exact fit.openField opened
    | setValue set => exact fit.setValue live.labels_nodup set (value _ _ rfl)
    | commit found committed =>
      obtain ⟨g, -, result⟩ := Editors.commit_inv committed
      exact (fit.commit live.labels_nodup result).reconcile fun _ _ => rfl
    | close closed =>
      obtain ⟨-, rfl⟩ := Editors.close?_inv closed
      exact fit.without _
    | select key => exact fit
  · rwa [same]

theorem afterAll_snoc (s : Session) (ops : List Operation) (op : Operation) :
    s.afterAll (ops ++ [op]) = (s.afterAll ops).after op := List.foldl_append

section Run

variable {ops part : List Operation} (reachable : s.Reachable)

include reachable

/-- If commands leave drafts that agree and the values that are committed fit, all drafts agree. -/
theorem agree_afterAll (start : s.draft.modules.Agree)
    (brought : ∀ part op, part ++ [op] <+: ops → op.IsCommand →
      (s.afterAll (part ++ [op])).draft.modules.Agree)
    (fits : ∀ part label, part ++ [.commit label] <+: ops → (s.afterAll part).CommitFits label)
    (first : part <+: ops) : (s.afterAll part).draft.modules.Agree := by
  induction part using List.reverseRecOn with
  | nil => exact start
  | append_singleton part op ih =>
    have before := ih ((List.prefix_append part [op]).trans first)
    have here := brought part op first
    rw [afterAll_snoc] at here ⊢
    refine agree_after (reachable.afterAll part).live before here ?_
    rintro label rfl
    exact fits part label first

theorem fit_afterAll (start : Editors.Fit s.draft s.editors.frames)
    (keeps : ∀ part op, part ++ [op] <+: ops → (s.afterAll part).KeepsTypes op)
    (first : part <+: ops) :
    Editors.Fit (s.afterAll part).draft (s.afterAll part).editors.frames := by
  induction part using List.reverseRecOn with
  | nil => exact start
  | append_singleton part op ih =>
    have before := ih ((List.prefix_append part [op]).trans first)
    rw [afterAll_snoc]
    exact fit_after (reachable.afterAll part).live before (keeps part op first)

end Run

/-- In the sessions that come about from a new test, if each command leaves a draft in which types
and values agree, then all drafts do if and only if each value that is committed is of the type that
its payload has by then. It is so if no value of another type is set in the editor of a payload, and
no command changes the type of a payload whose editor stays open. -/
theorem editors_keep_agreement (f : AnalyzedFunction) (ops : List Operation)
    (brought : ∀ part op, part ++ [op] <+: ops → op.IsCommand →
      ((fresh f).afterAll (part ++ [op])).draft.modules.Agree) :
    ((∀ part, part <+: ops → ((fresh f).afterAll part).draft.modules.Agree) ↔
      ∀ part label, part ++ [.commit label] <+: ops → ((fresh f).afterAll part).CommitFits label) ∧
    ((∀ part op, part ++ [op] <+: ops → ((fresh f).afterAll part).KeepsTypes op) →
      ∀ part, part <+: ops → ((fresh f).afterAll part).draft.modules.Agree) := by
  have settled (fits : ∀ part label, part ++ [.commit label] <+: ops →
      ((fresh f).afterAll part).CommitFits label) (part : List Operation) (first : part <+: ops) :
      ((fresh f).afterAll part).draft.modules.Agree :=
    agree_afterAll (.fresh f) (Modules.agree_default f) brought fits first
  have shorter {part : List Operation} {op : Operation} (first : part ++ [op] <+: ops) :
      part <+: ops := (List.prefix_append part [op]).trans first
  refine ⟨⟨fun agree part label first => ?_, settled⟩, fun keeps => settled ?_⟩
  · have live := ((Reachable.fresh f).afterAll part).live
    have after := agree _ first
    rw [afterAll_snoc] at after
    exact (agree_commit_iff live (agree part (shorter first)) label).1 after
  · intro part label first g found
    have start : Editors.Fit (fresh f).draft (fresh f).editors.frames :=
      fun _ member => absurd member List.not_mem_nil
    exact fit_afterAll (.fresh f) start keeps (shorter first) g (Editors.frame?_mem found).1

def nullary : AnalyzedFunction where
  pathToProject := "/p"
  fileId := "a.js"
  functionId := "f"

def emptied (type : TypeTag) : Json :=
  (Command.updateReturnValue { type, value := some (type.start none) }).toEnvelope

def objectEdited : List Operation :=
  [.dispatch (emptied .object), .openReturnValue,
    .setValue returnValueLabel (.obj [("k", .arr [])]), .commit returnValueLabel]

theorem forall_step_cons {holds : List Operation → Operation → Prop} {first : Operation}
    {ops : List Operation} (here : holds [] first)
    (later : ∀ part op, part ++ [op] <+: ops → holds (first :: part) op) :
    ∀ part op, part ++ [op] <+: first :: ops → holds part op := by
  intro part op begins
  cases part with
  | nil =>
    obtain ⟨rfl, -⟩ := List.cons_prefix_cons.1 begins
    exact here
  | cons start part =>
    obtain ⟨rfl, rest⟩ := List.cons_prefix_cons.1 begins
    exact later part op rest

theorem forall_step_nil {holds : List Operation → Operation → Prop} :
    ∀ part op, part ++ [op] <+: [] → holds part op := by
  intro part op begins
  simp at begins

theorem agree_of_returnValue {f : AnalyzedFunction} {ms : Modules} {r : ReturnValue}
    (slots : ms.argumentList = f.defaultModules.argumentList) (found : ms.returnValue = some r)
    (agrees : r.type.Agrees r.value) : ms.Agree := by
  refine ⟨fun r' found' => ?_, fun listed given => ?_⟩
  · obtain rfl := Option.some.inj (found.symm.trans found')
    exact agrees
  · exact (Modules.agree_default f).slots listed (slots.symm.trans given)

theorem object_agrees :
    ((fresh nullary).afterAll [.dispatch (emptied .object)]).draft.modules.Agree :=
  agree_of_returnValue rfl rfl fun _ _ given => Option.some.inj given ▸ rfl

theorem editors_keep_agreement_object :
    (∀ part, part <+: objectEdited → ((fresh nullary).afterAll part).draft.modules.Agree) ∧
      ((fresh nullary).afterAll objectEdited).draft.modules.returnValue =
        some ⟨.object, some (.obj [("k", .arr [])])⟩ := by
  refine ⟨(editors_keep_agreement nullary objectEdited ?_).2 ?_, rfl⟩
  · exact forall_step_cons (fun _ => object_agrees) <| forall_step_cons False.elim <|
      forall_step_cons False.elim <| forall_step_cons False.elim forall_step_nil
  · refine forall_step_cons ⟨nofun, fun _ => nofun⟩ <| forall_step_cons ⟨nofun, False.elim⟩ <|
      forall_step_cons ⟨?_, False.elim⟩ <| forall_step_cons ⟨nofun, False.elim⟩ forall_step_nil
    intro label value given f found type typed
    obtain ⟨rfl, rfl⟩ := Operation.setValue.inj given
    obtain rfl := Option.some.inj found
    obtain rfl := Option.some.inj typed
    rfl

def numberSet : List Operation :=
  [.dispatch (emptied .object), .openReturnValue, .setValue returnValueLabel (.num (.int 5)),
    .commit returnValueLabel]

def typeChanged : List Operation :=
  [.dispatch (emptied .object), .openReturnValue, .dispatch (emptied .array),
    .commit returnValueLabel]

/-- Each command leaves a draft that agrees, but a commit leaves an object with a number, or an array
with an object. -/
theorem commit_disagrees :
    (∀ run ∈ [numberSet, typeChanged], ∀ part op, part ++ [op] <+: run → op.IsCommand →
      ((fresh nullary).afterAll (part ++ [op])).draft.modules.Agree) ∧
    ((fresh nullary).afterAll numberSet).draft.modules.returnValue =
      some ⟨.object, some (.num (.int 5))⟩ ∧
    ((fresh nullary).afterAll typeChanged).draft.modules.returnValue =
      some ⟨.array, some (.obj [])⟩ ∧
    ∀ run ∈ [numberSet, typeChanged], ¬((fresh nullary).afterAll run).draft.modules.Agree := by
  have array : ((fresh nullary).afterAll (typeChanged.take 3)).draft.modules.Agree :=
    agree_of_returnValue rfl rfl fun _ _ given => Option.some.inj given ▸ rfl
  refine ⟨List.forall_mem_cons.2 ⟨?_, List.forall_mem_singleton.2 ?_⟩, rfl, rfl,
    List.forall_mem_cons.2 ⟨fun agree => ?_, List.forall_mem_singleton.2 fun agree => ?_⟩⟩
  · exact forall_step_cons (fun _ => object_agrees) <| forall_step_cons False.elim <|
      forall_step_cons False.elim <| forall_step_cons False.elim forall_step_nil
  · exact forall_step_cons (fun _ => object_agrees) <| forall_step_cons False.elim <|
      forall_step_cons (fun _ => array) <| forall_step_cons False.elim forall_step_nil
  · cases agree.returnValue _ rfl rfl _ rfl
  · cases agree.returnValue _ rfl rfl _ rfl

end Session

end Fixture
