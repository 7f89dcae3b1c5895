import Fixture.Draft.Basic

/-!
Commands on a draft and their envelopes. An envelope of an unknown kind is no error: it is ignored.
The tags of a known kind are a closed list.
-/

namespace Fixture

open Json (DecodeError Decoder)

inductive Command where
  | setDraft (d : Draft)
  | clear
  | discard
  | addModule (m : ModuleName)
  | removeModule (m : ModuleName)
  | changeArgument (s : Slot)
  | updateReturnValue (r : ReturnValue)
  | updateException (e : ExpectedException)
  | rename (name : String)
deriving BEq, Inhabited

inductive CommandError where
  | envelope (e : DecodeError)
  | missingTag (kind : String)
  | unknownTag (kind tag : String)
  | payload (kind tag : String) (e : DecodeError)
deriving DecidableEq

namespace CommandError

def message : CommandError → String
  | .envelope e => "malformed command envelope: " ++ e.message
  | .missingTag kind => "command kind `" ++ kind ++ "` requires a tag"
  | .unknownTag kind tag => "unknown tag `" ++ tag ++ "` for command kind `" ++ kind ++ "`"
  | .payload kind tag e => "invalid payload for `" ++ kind ++ "/" ++ tag ++ "`: " ++ e.message

def cause? : CommandError → Option DecodeError
  | .envelope e | .payload _ _ e => some e
  | .missingTag _ | .unknownTag _ _ => none

end CommandError

inductive Parsed where
  | command (c : Command)
  | ignored (kind : String)
deriving Inhabited

structure Envelope where
  kind : String
  tag : Option String
  payload : Json

namespace Envelope

def decode : Decoder Envelope :=
  .record "struct Envelope" [["kind"], ["tag"], ["payload"]] fun r =>
    Envelope.mk <$> r.required "kind" .text <*> r.optional "tag" .text <*>
      r.withDefault "payload" .null .json

def read {α : Type} (e : Envelope) (tag : String) (decode : Decoder α) (command : α → Command) :
    Except CommandError Parsed :=
  match decode.ofValue e.payload with
  | .ok a => .ok (.command (command a))
  | .error fault => .error (.payload e.kind tag fault)

def select (e : Envelope) (tags : List (String × Except CommandError Parsed)) :
    Except CommandError Parsed :=
  match e.tag with
  | none => .error (.missingTag e.kind)
  | some tag => (tags.lookup tag).getD (.error (.unknownTag e.kind tag))

def parse (e : Envelope) : Except CommandError Parsed :=
  match e.kind with
  | "setModuleData" => e.read "" Draft.decode .setDraft
  | "clearModuleData" => .ok (.command .clear)
  | "discardModuleDataChanges" => .ok (.command .discard)
  | "moduleData" => e.select [
      ("addModule", e.read "addModule" ModuleName.decode .addModule),
      ("removeModule", e.read "removeModule" ModuleName.decode .removeModule)]
  | "argumentList" => e.select [
      ("changeArgument", e.read "changeArgument" Slot.decode .changeArgument)]
  | "returnValue" => e.select [
      ("updateReturnValue", e.read "updateReturnValue" ReturnValue.decode .updateReturnValue)]
  | "exception" => e.select [
      ("updateException", e.read "updateException" ExpectedException.decode .updateException)]
  | "customName" => e.select [("rename", e.read "rename" .text .rename)]
  | kind => .ok (.ignored kind)

end Envelope

namespace Command

def ofEnvelope (v : Json) : Except CommandError Parsed :=
  match Envelope.decode.ofValue v with
  | .ok e => e.parse
  | .error fault => .error (.envelope fault)

def ofText (text : String) : Except CommandError Parsed :=
  match Decoder.json.ofText text with
  | .ok v => ofEnvelope v
  | .error fault => .error (.envelope fault)

def kind : Command → String
  | .setDraft _ => "setModuleData"
  | .clear => "clearModuleData"
  | .discard => "discardModuleDataChanges"
  | .addModule _ | .removeModule _ => "moduleData"
  | .changeArgument _ => "argumentList"
  | .updateReturnValue _ => "returnValue"
  | .updateException _ => "exception"
  | .rename _ => "customName"

def tag? : Command → Option String
  | .setDraft _ | .clear | .discard => none
  | .addModule _ => some "addModule"
  | .removeModule _ => some "removeModule"
  | .changeArgument _ => some "changeArgument"
  | .updateReturnValue _ => some "updateReturnValue"
  | .updateException _ => some "updateException"
  | .rename _ => some "rename"

def payload? : Command → Option Json
  | .setDraft d => some d.encode
  | .clear | .discard => none
  | .addModule m | .removeModule m => some m.encode
  | .changeArgument s => some s.encode
  | .updateReturnValue r => some r.encode
  | .updateException e => some e.encode
  | .rename name => some (.str name)

def toEnvelope (c : Command) : Json :=
  (Json.obj <| ("kind", .str c.kind) :: Json.optionalMember "tag" (c.tag?.map .str) ++
    Json.optionalMember "payload" c.payload?).sorted

end Command

end Fixture
