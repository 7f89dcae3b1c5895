import Fixture.CommandLine.Run
import Fixture.Proofs.Json.Accepted
import Fixture.Proofs.Session.Trees

/-!
Objects of an unknown kind, given as commands. They are ignored, but only after the whole envelope
has been decoded. So a tag that could not be the tag of any command makes an error of them, and any
other tag and any payload leave them without effect, also among other commands.
-/

namespace Fixture

open Json

/-! ## What stands in a value -/

def Json.found : Json → Found
  | .null => .null
  | .bool b => .bool b
  | .num (.int n) => .int n
  | .num (.float x) => .float x
  | .str s => .str s
  | .arr _ => .sequence
  | .obj _ => .map

/-! ## Envelopes of an unknown kind -/

/-- The members of an object whose kind is that of no command. -/
structure UnknownKind (kind : String) (members : List (String × Json)) : Prop where
  distinct : Distinct members
  named : lookup "kind" members = some (.str kind)
  unknown : ∀ c : Command, c.kind ≠ kind

def TagReads (members : List (String × Json)) : Prop :=
  ∀ w, lookup "tag" members = some w → w = .null ∨ ∃ tag, w = .str tag

namespace Envelope

variable {members : List (String × Json)} {kind : String}

theorem parse_of_unknown {e : Envelope} (unknown : ∀ c : Command, c.kind ≠ e.kind) :
    e.parse = .ok (.ignored e.kind) := by
  unfold parse
  split
  next known => exact absurd known.symm (unknown (.setDraft default))
  next known => exact absurd known.symm (unknown .clear)
  next known => exact absurd known.symm (unknown .discard)
  next known => exact absurd known.symm (unknown (.addModule .exception))
  next known => exact absurd known.symm (unknown (.changeArgument default))
  next known => exact absurd known.symm (unknown (.updateReturnValue default))
  next known => exact absurd known.symm (unknown (.updateException default))
  next known => exact absurd known.symm (unknown (.rename ""))
  next => rfl

/-- The kind decodes, and so does any payload. So it depends on the tag alone what is decoded. -/
theorem decode_of_unknown (unknown : UnknownKind kind members) :
    ∃ p : Parts, ∃ payload, p.Offers [["kind"], ["tag"], ["payload"]] members ∧
      decode.ofValue (.obj members) =
        (Envelope.mk kind <$> p.optional "tag" .text <*> pure payload).outcome.mapError (·.2) := by
  obtain ⟨p, offers, decoded⟩ : ∃ p : Parts, p.Offers [["kind"], ["tag"], ["payload"]] members ∧
      decode.ofValue (.obj members) =
        (Envelope.mk <$> p.required "kind" .text <*> p.optional "tag" .text <*>
          p.withDefault "payload" .null .json).outcome.mapError (·.2) :=
    Decoder.record_obj unknown.distinct
  obtain ⟨payload, read⟩ : ∃ payload, p.withDefault "payload" .null .json = pure payload := by
    cases given : lookup "payload" members with
    | none => exact ⟨.null, offers.fieldOr_none (by simp) (by simp) given⟩
    | some v => exact ⟨_, offers.withDefault "payload" (Decoder.accepts_json v) given (by simp)⟩
  refine ⟨p, payload, offers, decoded.trans ?_⟩
  rw [offers.required "kind" (Decoder.accepts_text kind) unknown.named (by simp), read]
  rfl

theorem decode_of_tagReads (unknown : UnknownKind kind members) (reads : TagReads members) :
    ∃ tag payload, decode.ofValue (.obj members) = .ok ⟨kind, tag, payload⟩ := by
  obtain ⟨p, payload, offers, decoded⟩ := decode_of_unknown unknown
  obtain ⟨tag, read⟩ : ∃ tag, p.optional "tag" .text = pure tag := by
    cases given : lookup "tag" members with
    | none => exact ⟨none, offers.fieldOr_none (by simp) (by simp) given⟩
    | some w =>
      rcases reads w given with rfl | ⟨tag, rfl⟩
      · exact ⟨none, offers.fieldOr_some (by simp) (by simp) given (Decoder.accepts_none _)⟩
      · exact ⟨some tag, offers.fieldOr_some (by simp) (by simp) given
          ((Decoder.accepts_text tag).some (by simp))⟩
  refine ⟨tag, payload, ?_⟩
  rw [decoded, read]
  rfl

theorem text_of_other {v w : Json} (arranged : Arranged v w) (absent : v ≠ .null)
    (other : ∀ s, v ≠ .str s) (origin : Origin) :
    Decoder.option .text origin (.ofJson w) = .error (.wrongType v.found "a string") := by
  cases v with
  | null => exact absurd rfl absent
  | bool b => cases arranged <;> rfl
  | num n => cases arranged <;> cases n <;> rfl
  | str s => exact absurd rfl (other s)
  | arr items =>
    obtain ⟨items', rfl, -⟩ := arranged.of_arr
    rfl
  | obj members =>
    cases arranged with
    | written => rfl
    | sorted => rw [sorted_obj]; rfl

theorem decode_of_other (unknown : UnknownKind kind members) {w : Json}
    (given : lookup "tag" members = some w) (absent : w ≠ .null) (other : ∀ tag, w ≠ .str tag) :
    decode.ofValue (.obj members) = .error (.wrongType w.found "a string") := by
  obtain ⟨p, payload, offers, decoded⟩ := decode_of_unknown unknown
  obtain ⟨i, w', arranged, read⟩ : ∃ i w', Arranged w w' ∧
      p.optional "tag" .text = .ofDecoded i (Decoder.option .text p.origin (.ofJson w')) :=
    offers.fieldOr_found (by simp) (by simp) given
  rw [decoded, read, text_of_other arranged absent other]
  rfl

end Envelope

namespace UnknownKind

variable {members : List (String × Json)} {kind : String} (unknown : UnknownKind kind members)

include unknown

theorem ofEnvelope_ignored (reads : TagReads members) :
    Command.ofEnvelope (.obj members) = .ok (.ignored kind) := by
  obtain ⟨tag, payload, decoded⟩ := Envelope.decode_of_tagReads unknown reads
  rw [Command.ofEnvelope, decoded]
  exact Envelope.parse_of_unknown unknown.unknown

theorem dispatch_ignored (reads : TagReads members) (s : Session) :
    s.dispatch (.obj members) = .ok s := by
  rw [Session.dispatch, unknown.ofEnvelope_ignored reads]

theorem ofEnvelope_other {w : Json} (given : lookup "tag" members = some w) (absent : w ≠ .null)
    (other : ∀ tag, w ≠ .str tag) : Command.ofEnvelope (.obj members) =
      .error (.envelope (.wrongType w.found "a string")) := by
  rw [Command.ofEnvelope, Envelope.decode_of_other unknown given absent other]

end UnknownKind

/-! ## Batches -/

namespace CommandLine

open Session (Interleaving)

/-- Among other commands, those without effect can be left out. Only the numbers in messages
change. -/
theorem applyAll_interleaving {batch inert padded : List Json}
    (mixed : Interleaving batch inert padded)
    (ignored : ∀ v ∈ inert, ∀ s : Session, s.dispatch v = .ok s) (s : Session) (i j : Nat) :
    (applyAll s i padded).toOption = (applyAll s j batch).toOption := by
  induction mixed generalizing s i j with
  | nil => rfl
  | left v others ih =>
    rw [applyAll, applyAll]
    cases s.dispatch v with
    | ok t => exact ih ignored t (i + 1) (j + 1)
    | error e => rfl
  | right v others ih =>
    obtain ⟨here, later⟩ := List.forall_mem_cons.1 ignored
    rw [applyAll, here s]
    exact ih later s (i + 1) j

theorem applyAll_of_refused {batch : List Json} {v : Json} (member : v ∈ batch)
    (refused : ∀ s : Session, (s.dispatch v).toOption = none) (s : Session) (i : Nat) :
    (applyAll s i batch).toOption = none := by
  induction batch generalizing s i with
  | nil => cases member
  | cons first rest ih =>
    rw [applyAll]
    cases dispatched : s.dispatch first with
    | error e => rfl
    | ok t =>
      rcases List.mem_cons.1 member with rfl | later
      · have none_left := refused s
        rw [dispatched] at none_left
        cases none_left
      · exact ih later t (i + 1)

/-- In any session an object of an unknown kind is ignored and leaves the whole session as it is, and
it can be put anywhere among other commands, whatever it holds besides, unless it has a tag that is no
string. With such a tag it is refused, and so is every batch that it is part of. -/
theorem unknown_kinds_inert (s : Session) :
    (∀ kind members, UnknownKind kind members →
      (TagReads members → Command.ofEnvelope (.obj members) = .ok (.ignored kind) ∧
        s.dispatch (.obj members) = .ok s) ∧
      ∀ w, lookup "tag" members = some w → w ≠ .null → (∀ tag, w ≠ .str tag) →
        let refusal : CommandError := .envelope (.wrongType w.found "a string")
        Command.ofEnvelope (.obj members) = .error refusal ∧
          s.dispatch (.obj members) = .error (.command refusal) ∧
          ∀ batch i, .obj members ∈ batch → (applyAll s i batch).toOption = none) ∧
    ∀ batch inert padded, Interleaving batch inert padded →
      (∀ v ∈ inert, ∃ kind members, v = .obj members ∧ UnknownKind kind members ∧
        TagReads members) →
      ∀ i j : Nat, (applyAll s i padded).toOption = (applyAll s j batch).toOption := by
  refine ⟨fun kind members unknown => ⟨fun reads => ?_, fun w given absent other => ?_⟩, ?_⟩
  · exact ⟨unknown.ofEnvelope_ignored reads, unknown.dispatch_ignored reads s⟩
  · intro refusal
    have refused := unknown.ofEnvelope_other given absent other
    have dispatched (t : Session) : t.dispatch (.obj members) = .error (.command refusal) := by
      rw [Session.dispatch, refused]
    refine ⟨refused, dispatched s, fun batch i member => ?_⟩
    exact applyAll_of_refused member (fun t => by rw [dispatched t]; rfl) s i
  · intro batch inert padded mixed unknown
    refine applyAll_interleaving mixed (fun v member t => ?_) s
    obtain ⟨kind, members, rfl, ofKind, reads⟩ := unknown v member
    exact ofKind.dispatch_ignored reads t

def coverage (others : List (String × Json)) : List (String × Json) :=
  ("kind", .str "setCoverage") :: others

theorem unknownKind_coverage {others : List (String × Json)}
    (distinct : Distinct (coverage others)) : UnknownKind "setCoverage" (coverage others) where
  distinct
  named := rfl
  unknown c := by cases c <;> simp [Command.kind]

def tagged : List (String × Json) :=
  coverage [("payload", .str "name"), ("tag", .str "rename")]

theorem unknown_kinds_inert_tagged :
    let rename := (Command.rename "name").toEnvelope
    let s : Session := default
    Command.ofEnvelope (.obj tagged) = .ok (.ignored "setCoverage") ∧
      (applyAll s 0 [.obj tagged, rename, .obj tagged]).toOption =
        (applyAll s 0 [rename]).toOption := by
  intro rename s
  have unknown : UnknownKind "setCoverage" tagged :=
    unknownKind_coverage (by simp [Distinct, coverage])
  have reads : TagReads tagged := fun w given => .inr ⟨"rename", (Option.some.inj given).symm⟩
  obtain ⟨single, mixed⟩ := unknown_kinds_inert s
  refine ⟨((single _ _ unknown).1 reads).1, mixed [rename] [.obj tagged, .obj tagged] _
    (.right _ (.left _ (.right _ .nil))) (fun v member => ?_) 0 0⟩
  obtain rfl : v = .obj tagged := by simpa using member
  exact ⟨_, _, rfl, unknown, reads⟩

def numbered : List (String × Json) := coverage [("tag", .num (.int 5))]

/-- With a number in the place of the tag, an object of an unknown kind is refused, and so is a batch
with nothing else in it. -/
theorem unknown_kind_refused :
    UnknownKind "setCoverage" numbered ∧
      Command.ofEnvelope (.obj numbered) =
        .error (.envelope (.wrongType (.int 5) "a string")) ∧
      ∀ s : Session, (applyAll s 0 [.obj numbered]).toOption = none ∧ applyAll s 0 [] = .ok s := by
  have unknown : UnknownKind "setCoverage" numbered :=
    unknownKind_coverage (by simp [Distinct, coverage])
  have refused := unknown.ofEnvelope_other rfl (by simp) (by simp)
  refine ⟨unknown, refused, fun s => ⟨?_, rfl⟩⟩
  refine applyAll_of_refused (List.mem_singleton_self _) (fun t => ?_) s 0
  rw [Session.dispatch, refused]
  rfl

end CommandLine

end Fixture
