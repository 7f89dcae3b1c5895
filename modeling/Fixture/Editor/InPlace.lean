import Fixture.Editor.Editors

/-!
The operations on the open editors as they are carried out, one write after the other. Nothing that
was written before a failure is taken back, so a failure leaves the editors as they were only if it
comes before the first write.
-/

namespace Fixture

/-- Code that reads and writes a state. If it fails, what it has written stays. -/
abbrev InPlace (ε σ : Type) : Type → Type := ExceptT ε (StateM σ)

namespace InPlace

variable {ε ε' σ α β : Type}

def run (code : InPlace ε σ α) (s : σ) : Except ε α × σ := code s

@[simp] theorem run_pure (a : α) (s : σ) : run (pure a : InPlace ε σ α) s = (.ok a, s) := rfl

@[simp] theorem run_throw (e : ε) (s : σ) : run (throw e : InPlace ε σ α) s = (.error e, s) := rfl

@[simp] theorem run_get (s : σ) : run (get : InPlace ε σ σ) s = (.ok s, s) := rfl

@[simp] theorem run_modify (change : σ → σ) (s : σ) :
    run (modify change : InPlace ε σ Unit) s = (.ok (), change s) := rfl

@[simp] theorem run_bind (first : InPlace ε σ α) (next : α → InPlace ε σ β) (s : σ) :
    run (first >>= next) s = match run first s with
      | (.ok a, s) => run (next a) s
      | (.error e, s) => (.error e, s) := by
  show (match first s with | (result, left) => ExceptT.bindCont next result left) = _
  simp only [run]
  obtain ⟨result, left⟩ := first s
  cases result <;> rfl

@[simp] theorem run_ite (c : Prop) [Decidable c] (yes no : InPlace ε σ α) (s : σ) :
    run (if c then yes else no) s = if c then run yes s else run no s := by
  split <;> rfl

def ofExcept (failure : ε' → ε) : Except ε' α → InPlace ε σ α
  | .ok a => pure a
  | .error e => throw (failure e)

@[simp] theorem run_ofExcept (failure : ε' → ε) (result : Except ε' α) (s : σ) :
    run (ofExcept failure result : InPlace ε σ α) s = match result with
      | .ok a => (.ok a, s)
      | .error e => (.error (failure e), s) := by
  cases result <;> rfl

end InPlace

namespace Editors

variable {ε : Type}

def closeInPlace (label : String) : InPlace ε Editors (Option Frame) := do
  let es ← get
  match es.frame? label with
  | none => return none
  | some frame =>
    let closed := es.subtree label
    modify fun es => { es with frames := es.frames.eraseP fun f => f.label == label }
    modify fun es => { es with frames := es.frames.filter fun f => !closed.contains f.label }
    if (← get).selected.any closed.contains then
      modify fun es => { es with selected := some frame.parent }
    return some frame

def pushInPlace (frame : Frame) (d : Draft) : InPlace EditorError Editors Frame := do
  let es ← get
  let replaced := es.subtree frame.label
  if replaced.contains frame.parent || !es.isLive d frame.parent then
    throw (.orphanFrame frame.label frame.parent)
  if !replaced.isEmpty then
    let _ ← closeInPlace frame.label
  modify fun es => { es with selected := some frame.label }
  modify fun es => { es with frames := es.frames ++ [frame] }
  return frame

def openReturnValueInPlace (d : Draft) : InPlace EditorError Editors Frame := do
  match d.modules.returnValue with
  | none => throw (.refused (.moduleDisabled .returnValue))
  | some r =>
    match startingValue? r.type r.value with
    | none => throw (.notComposite ModuleName.returnValue.name)
    | some value =>
      pushInPlace (.opened returnValueLabel ModuleName.returnValue.name .returnValue value) d

def openArgumentInPlace (d : Draft) (functionName argument : String) :
    InPlace EditorError Editors Frame := do
  if !d.modules.contains .argumentList then
    throw (.refused (.moduleDisabled .argumentList))
  match d.modules.slot? functionName argument with
  | none => throw (.refused (.slotNotFound functionName argument))
  | some slot =>
    match startingValue? slot.type slot.value with
    | none => throw (.notComposite (functionName ++ "." ++ argument))
    | some value =>
      pushInPlace (.opened argumentLabel ModuleName.argumentList.name
        (.argument functionName argument) value) d

def openFieldInPlace (d : Draft) (parent : String) (key : FieldKey) :
    InPlace EditorError Editors Frame := do
  match (← get).frame? parent with
  | none => throw (.unknownFrame parent)
  | some frame =>
    match key.get? frame.value with
    | none => throw (.missingField parent key.display)
    | some field =>
      let label := parent ++ key.segment
      if !field.isComposite then
        throw (.notComposite label)
      pushInPlace (.opened label parent (.field key) field) d

/-- Goes through the editors, which are taken out, and puts back those that stand given the ones put
back before. Gives the labels of the others. -/
def siftInPlace (stands : List Frame → Frame → Bool) : InPlace ε Editors (List String) := do
  let frames := (← get).frames
  modify fun es => { es with frames := [] }
  let (kept, closed) := sift stands frames
  modify fun es => { es with frames := kept }
  return closed

def setValueInPlace (label : String) (value : Json) : InPlace EditorError Editors Unit := do
  if ((← get).frame? label).isNone then
    throw (.unknownFrame label)
  modify fun es => { es with frames := modifyFirst label (fun f => { f with value }) es.frames }
  let closed ← siftInPlace fieldStands
  if (← get).selected.any closed.contains then
    modify fun es => { es with selected := some label }

/-- The draft after the commit of a value into what an editor edits. The value of a field is written
into the parent editor, which leaves the draft alone. -/
def commitTarget (label : String) (frame : Frame) (value : Json) (d : Draft) (ctx : Context) :
    InPlace EditorError Editors Draft := do
  match frame.target with
  | .returnValue =>
    match d.modules.returnValue with
    | none => throw (.refused (.moduleDisabled .returnValue))
    | some r => .ofExcept .refused (d.apply ctx (.updateReturnValue (.ofTyped r.type (some value))))
  | .argument functionName argument =>
    match d.modules.slot? functionName argument with
    | none => throw (.refused (.slotNotFound functionName argument))
    | some slot =>
      .ofExcept .refused (d.apply ctx (.changeArgument (slot.withValue slot.type (some value))))
  | .field key =>
    match (← get).frame? frame.parent with
    | none => throw (.unknownFrame frame.parent)
    | some parent =>
      match key.get? parent.value with
      | none => throw (.missingField frame.parent key.display)
      | some old =>
        if !old.isComposite then
          throw (.notComposite label)
        modify fun es => { es with
          frames := modifyFirst frame.parent (fun f => { f with value := key.set value f.value })
            es.frames }
        return d

def commitInPlace (label : String) (value : Json) (d : Draft) (ctx : Context) :
    InPlace EditorError Editors Draft := do
  match (← get).frame? label with
  | none => throw (.unknownFrame label)
  | some frame =>
    let next ← commitTarget label frame value d ctx
    let _ ← closeInPlace label
    return next

def reconcileInPlace (d : Draft) : InPlace ε Editors (List String) :=
  siftInPlace fun kept f => targetStands d kept f && parentStands d kept f

end Editors

end Fixture
