import Fixture.Command.Basic

/-!
The effect of a command on a draft. A command that is refused has none.
-/

namespace Fixture

/-- What a command may need besides the draft: the function under test, and the draft as last
saved. -/
structure Context where
  function : Option AnalyzedFunction := none
  persisted : Option Draft := none

inductive Refusal where
  | slotNotFound (functionName argument : String)
  | missingFunction
  | moduleDisabled (m : ModuleName)
deriving DecidableEq

namespace Refusal

def message : Refusal → String
  | .slotNotFound functionName argument =>
    "no argument slot `" ++ argument ++ "` in sub-function `" ++ functionName ++ "`"
  | .missingFunction => "no active function loaded; its parameter structure is required"
  | .moduleDisabled m => "module `" ++ m.name ++ "` is not enabled"

end Refusal

namespace Context

def requireFunction (ctx : Context) : Except Refusal AnalyzedFunction :=
  match ctx.function with
  | some f => .ok f
  | none => .error .missingFunction

end Context

/-- Replaces the first slot that has the key of the given one. -/
def replaceSlot? (slot : Slot) : List Slot → Option (List Slot)
  | [] => none
  | s :: rest =>
    if s.key = slot.key then some (slot :: rest) else (replaceSlot? slot rest).map (s :: ·)

namespace Draft

def addModule (d : Draft) (ctx : Context) (m : ModuleName) : Except Refusal Draft :=
  if d.modules.contains m then .ok d
  else match m with
    | .argumentList => do
      let f ← ctx.requireFunction
      let slots := AnalyzedFunction.defaultSlots f.arguments
      return { d with modules := { d.modules with argumentList := some slots } }
    | .returnValue => .ok { d with modules := { d.modules with returnValue := some {} } }
    | .exception => .ok { d with modules := { d.modules with exception := some {} } }

def removeModule (d : Draft) (m : ModuleName) : Draft := { d with modules := d.modules.remove m }

/-- Starts over with the modules of the function, as a test not yet saved. -/
def clear (d : Draft) (ctx : Context) : Except Refusal Draft := do
  let f ← ctx.requireFunction
  return { d with id := none, modules := f.defaultModules }

/-- Goes back to the modules last saved, if the draft was saved at all. -/
def discard (d : Draft) (ctx : Context) : Draft :=
  match ctx.persisted with
  | some saved =>
    if saved.id.isSome ∧ saved.id = d.id then { d with modules := saved.modules } else d
  | none => d

def changeArgument (d : Draft) (slot : Slot) : Except Refusal Draft :=
  match d.modules.argumentList with
  | none => .error (.moduleDisabled .argumentList)
  | some slots =>
    match replaceSlot? slot.normalized slots with
    | none => .error (.slotNotFound slot.functionName slot.argument)
    | some slots => .ok { d with modules := { d.modules with argumentList := some slots } }

def updateReturnValue (d : Draft) (r : ReturnValue) : Except Refusal Draft :=
  if d.modules.contains .returnValue then
    .ok { d with modules := { d.modules with returnValue := some r.normalized } }
  else .error (.moduleDisabled .returnValue)

def updateException (d : Draft) (e : ExpectedException) : Except Refusal Draft :=
  if d.modules.contains .exception then
    .ok { d with modules := { d.modules with exception := some e } }
  else .error (.moduleDisabled .exception)

def apply (d : Draft) (ctx : Context) : Command → Except Refusal Draft
  | .setDraft next => .ok next
  | .clear => d.clear ctx
  | .discard => .ok (d.discard ctx)
  | .addModule m => d.addModule ctx m
  | .removeModule m => .ok (d.removeModule m)
  | .changeArgument slot => d.changeArgument slot
  | .updateReturnValue r => d.updateReturnValue r
  | .updateException e => d.updateException e
  | .rename name => .ok { d with customName := name }

end Draft

inductive DispatchError where
  | command (e : CommandError)
  | refused (e : Refusal)
deriving DecidableEq

namespace DispatchError

def message : DispatchError → String
  | .command e => e.message
  | .refused e => e.message

end DispatchError

/-- The draft after the command in an envelope; an envelope of an unknown kind changes nothing. -/
def Draft.dispatch (d : Draft) (ctx : Context) (envelope : Json) : Except DispatchError Draft :=
  match Command.ofEnvelope envelope with
  | .error e => .error (.command e)
  | .ok (.ignored _) => .ok d
  | .ok (.command c) => (d.apply ctx c).mapError .refused

end Fixture
