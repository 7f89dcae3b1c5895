import Fixture.CommandLine.Run
import Fixture.Proofs.CommandLine.SessionFile
import Fixture.Proofs.Session.Reload

/-!
What commands leave behind. A session file that a command writes can be read again if what it holds
is not nested too deep. The depth has to be asked for: a value that is read from a text of its own
stands deeper in a session than in that text.
-/

namespace Fixture

open Json
open Memory (run)
open Number (Bounded)

namespace Session

variable {P : Json → Prop} {s t : Session}

theorem Values.step? (values : s.Values P) (editable : Editable P) (op : Operation)
    (given : op.Values P) (done : s.step? op = some t) : t.Values P := by
  have next := values.after editable given
  rwa [Session.after, done, Option.getD_some] at next

end Session

namespace CommandLine

/-- The commands that write a session file when they give an output, with the path of the file. -/
inductive Writes : Invocation → String → String → Prop where
  | new (function : String) (name directory : Option String) (path : String) :
    Writes (.session (.new function name directory)) (line path) path
  | load (function id : String) (storeDirectory directory : Option String) (path : String) :
    Writes (.session (.load function id storeDirectory directory)) (line path) path
  | apply (path : String) (command : Option String) (output : String) :
    Writes (.session (.apply path command)) output path
  | discard (path output : String) : Writes (.session (.discard path)) output path
  | openReturnValue (path output : String) : Writes (.edit (.openReturnValue path)) output path
  | openArgument (path functionName argument output : String) :
    Writes (.edit (.openArgument path functionName argument)) output path
  | openField (path parent key output : String) :
    Writes (.edit (.openField path parent key)) output path
  | setValue (path label : String) (value : Option String) (output : String) :
    Writes (.edit (.setValue path label value)) output path
  | commit (path label output : String) : Writes (.edit (.commit path label)) output path
  | close (path label output : String) : Writes (.edit (.close path label)) output path
  | select (path tab output : String) : Writes (.edit (.select path tab)) output path
  | save (path : String) (directory : Option String) (output : String) :
    Writes (.store (.save path directory)) output path

variable {m m' : Memory} {path : String} {s t : Session}

/-! ## What is read -/

abbrev Readable (s : Session) : Prop := s.Values (Numbers Bounded)

theorem numbers_of_valueOf {text : Option String} {what : String} {v : Json}
    (ran : run (valueOf text what) m = (.ok v, m')) : v.Numbers Bounded := by
  have given : ∃ read, Decoder.json.ofText read = .ok v := by
    cases text with
    | some text => exact ⟨text, ok_of_mapError (Prod.mk.inj ran).1⟩
    | none =>
      obtain ⟨read, m₁, -, rest⟩ := Memory.bind_ok ran
      exact ⟨read, ok_of_mapError (Prod.mk.inj rest).1⟩
  obtain ⟨read, decoded⟩ := given
  exact Document.numbers_of_toJson _ (Document.numbers_ofText read)
    (Decoder.json_ok (Decoder.ofText_ok decoded))

theorem values_of_get {store : Store} {id : String} {r : Record}
    (ran : run (store.get id) m = (.ok r, m')) : r.toDraft.Values (Numbers Bounded) := by
  obtain ⟨p, m₁, -, rest⟩ := Memory.bind_ok ran
  obtain ⟨text, m₂, -, rest⟩ := Memory.bind_ok rest
  obtain ⟨p, -, parts, built⟩ :=
    Decoder.record_ok (Decoder.ofText_ok (ok_of_mapError (Prod.mk.inj rest).1))
  simp only [Part.seq_ok, Part.map_ok] at built
  obtain ⟨_, ⟨_, ⟨_, ⟨_, ⟨_, ⟨_, ⟨_, ⟨_, -, rfl⟩, _, -, rfl⟩, _, -, rfl⟩, _, -, rfl⟩, _, -, rfl⟩,
    modules, given, rfl⟩, _, -, rfl⟩, _, -, rfl⟩ := built
  rcases Parts.withDefault_ok parts given with rfl | ⟨d, inside, decoded⟩
  · exact ⟨by rintro _ ⟨⟩, by rintro _ ⟨⟩⟩
  · have numbers := (Document.numbers_ofText text).within inside
    exact (Modules.values_of_decode decoded).mono fun v gives => gives.1.numbers numbers

theorem modules_of_save {store : Store} {d saved : Draft}
    (ran : run (store.save d) m = (.ok saved, m')) : saved.modules = d.modules := by
  obtain ⟨id, pathToProject, fileId, functionId, customName, modules⟩ := d
  cases id with
  | none =>
    obtain ⟨r, m₁, created, rest⟩ := Memory.bind_ok ran
    obtain rfl := Except.ok.inj (Prod.mk.inj rest).1
    obtain ⟨now, m₂, -, rest⟩ := Memory.bind_ok created
    obtain ⟨id, m₃, -, rest⟩ := Memory.bind_ok rest
    obtain ⟨_, m₄, -, rest⟩ := Memory.bind_ok rest
    obtain rfl := Except.ok.inj (Prod.mk.inj rest).1
    rfl
  | some id =>
    obtain ⟨r, m₁, updated, rest⟩ := Memory.bind_ok ran
    obtain rfl := Except.ok.inj (Prod.mk.inj rest).1
    obtain ⟨old, m₂, -, rest⟩ := Memory.bind_ok updated
    obtain ⟨now, m₃, -, rest⟩ := Memory.bind_ok rest
    obtain ⟨_, m₄, -, rest⟩ := Memory.bind_ok rest
    obtain rfl := Except.ok.inj (Prod.mk.inj rest).1
    rfl

/-! ## What is kept -/

theorem Readable.applyAll {envelopes : List Json} {index : Nat} (readable : Readable s)
    (each : ∀ v ∈ envelopes, v.Numbers Bounded)
    (applied : applyAll s index envelopes = .ok t) : Readable t := by
  induction envelopes generalizing s index with
  | nil =>
    obtain rfl := Except.ok.inj applied
    exact readable
  | cons envelope rest ih =>
    obtain ⟨here, later⟩ := List.forall_mem_cons.1 each
    rw [CommandLine.applyAll] at applied
    split at applied
    next u dispatched =>
      refine ih (readable.step? editable_numbers (.dispatch envelope) ?_ ?_) later applied
      · exact fun c parsed => Command.numbers_of_ofEnvelope here parsed
      · rw [Session.step?, dispatched]
        rfl
    · cases applied

theorem some_of_asked {α : Type} {result : Except SessionError α} {a : α}
    (done : asked result = .ok a) : result.toOption = some a := by
  rw [ok_of_mapError done]
  rfl

theorem isAt_of_change {α : Type} {a : α} {step : Session → Except Failure (α × Session)}
    (op : Operation) (given : op.Values (Numbers Bounded))
    (same : ∀ s t a, step s = .ok (a, t) → s.step? op = some t)
    (ran : run (change path step) m = (.ok a, m')) : ∃ f : SessionFile, f.IsAt path m' :=
  SessionFile.isAt_of_modify (fun readable done =>
    readable.step? editable_numbers op given (same _ _ _ (Prod.mk.inj done).1)) ran

theorem run_changed {f : SessionFile} {step : Session → Except Failure Session}
    (loaded : run (SessionFile.load path) m = (.ok f, m)) (stepped : step f.session = .ok t)
    (saved : run (SessionFile.save path { f with session := t }) m = (.ok (), m')) :
    run (changed path step) m = (.ok t, m') := by
  have given : (do let s ← step f.session; return (s, s)) = Except.ok (t, t) := by
    rw [stepped]
    rfl
  rw [changed, change, SessionFile.modify, Memory.run_bind, loaded]
  simp only [Memory.run_bind, Memory.run_lift, given, saved, Memory.run_pure]

theorem run_changed_error {f : SessionFile} {e : Failure} {step : Session → Except Failure Session}
    (loaded : run (SessionFile.load path) m = (.ok f, m)) (refused : step f.session = .error e) :
    run (changed path step) m = (.error e, m) := by
  have given : (do let s ← step f.session; return (s, s)) = Except.error e := by
    rw [refused]
    rfl
  rw [changed, change, SessionFile.modify, Memory.run_bind, loaded]
  simp only [Memory.run_bind, Memory.run_lift, given]

theorem changed_inv {step : Session → Except Failure Session}
    (ran : run (changed path step) m = (.ok t, m')) :
    ∃ f : SessionFile, run (SessionFile.load path) m = (.ok f, m) ∧ step f.session = .ok t ∧
      run (SessionFile.save path { f with session := t }) m = (.ok (), m') := by
  obtain ⟨f, m₁, loaded, rest⟩ := Memory.bind_ok ran
  obtain ⟨⟨a, u⟩, m₂, changed, rest⟩ := Memory.bind_ok rest
  obtain ⟨_, m₃, saved, done⟩ := Memory.bind_ok rest
  obtain ⟨outcome, rfl⟩ := Prod.mk.inj changed
  obtain ⟨v, stepped, same⟩ := bind_ok outcome
  obtain ⟨rfl, rfl⟩ := Prod.mk.inj (Except.ok.inj same)
  obtain ⟨last, rfl⟩ := Prod.mk.inj done
  obtain rfl := Except.ok.inj last
  obtain ⟨-, rfl⟩ := SessionFile.load_inv loaded
  exact ⟨f, loaded, stepped, saved⟩

theorem isAt_of_changed {step : Session → Except Failure Session}
    (kept : ∀ {s t : Session}, Readable s → step s = .ok t → Readable t)
    (ran : run (changed path step) m = (.ok s, m')) : ∃ f : SessionFile, f.IsAt path m' := by
  obtain ⟨f, loaded, stepped, saved⟩ := changed_inv ran
  obtain ⟨before, -⟩ := SessionFile.load_inv loaded
  have sound : SessionFile.Sound { f with session := s } :=
    ⟨before.version, kept before.values stepped⟩
  exact ⟨_, SessionFile.isAt_of_save sound saved⟩

theorem isAt_of_changed_by {step : Session → Except Failure Session}
    (op : Operation) (given : op.Values (Numbers Bounded))
    (same : ∀ s t, step s = .ok t → s.step? op = some t)
    (ran : run (changed path step) m = (.ok s, m')) : ∃ f : SessionFile, f.IsAt path m' :=
  isAt_of_changed (fun readable done =>
    readable.step? editable_numbers op given (same _ _ done)) ran

theorem line_inj {p : String} (same : line p = line path) : p = path := by
  have texts := congrArg String.toList same
  rw [line, line, String.toList_append, String.toList_append] at texts
  exact String.toList_inj.1 (List.append_cancel_right texts)

theorem isAt_of_created {s : Session} {out : String} {directory : String}
    (readable : Readable s)
    (ran : run (do return line (← SessionFile.create directory s)) m = (.ok out, m'))
    (printed : out = line path) : ∃ f : SessionFile, f.IsAt path m' := by
  obtain ⟨p, m₁, created, rest⟩ := Memory.bind_ok ran
  obtain ⟨same, rfl⟩ := Prod.mk.inj rest
  obtain rfl := line_inj ((Except.ok.inj same).trans printed)
  exact SessionFile.isAt_of_create readable created

theorem isAt_of_new {function out : String} {name directory : Option String} {pretty : Bool}
    (ran : run ((SessionCommand.new function name directory).run pretty) m = (.ok out, m'))
    (printed : out = line path) : ∃ f : SessionFile, f.IsAt path m' := by
  obtain ⟨f, m₁, -, rest⟩ := Memory.bind_ok ran
  have fresh : Readable (Session.fresh f) := Session.values_fresh f
  have named : ∃ s m₂, Readable s ∧ run (do
      return line (← SessionFile.create (← sessionDirectory (m := StateM Memory) directory) s)) m₂ =
        (.ok out, m') := by
    cases name with
    | none =>
      obtain ⟨s, m₂, kept, rest⟩ := Memory.bind_ok rest
      obtain rfl := Except.ok.inj (Prod.mk.inj kept).1
      exact ⟨_, m₂, fresh, rest⟩
    | some name =>
      obtain ⟨s, m₂, renamed, rest⟩ := Memory.bind_ok rest
      have ran : asked ((Session.fresh f).run (.rename name)) = .ok s := (Prod.mk.inj renamed).1
      refine ⟨s, m₂, fresh.step? editable_numbers (.run (.rename name)) trivial ?_, rest⟩
      rw [Session.step?, ok_of_mapError ran]
      rfl
  obtain ⟨s, m₂, readable, rest⟩ := named
  obtain ⟨d, m₃, -, rest⟩ := Memory.bind_ok rest
  exact isAt_of_created readable rest printed

theorem isAt_of_load {function id out : String} {storeDirectory directory : Option String}
    {pretty : Bool}
    (ran : run ((SessionCommand.load function id storeDirectory directory).run pretty) m =
      (.ok out, m'))
    (printed : out = line path) : ∃ f : SessionFile, f.IsAt path m' := by
  obtain ⟨store, m₁, -, rest⟩ := Memory.bind_ok ran
  obtain ⟨f, m₂, -, rest⟩ := Memory.bind_ok rest
  obtain ⟨r, m₃, got, rest⟩ := Memory.bind_ok rest
  obtain ⟨_, m₄, -, rest⟩ := Memory.bind_ok rest
  obtain ⟨d, m₅, -, rest⟩ := Memory.bind_ok rest
  have given : run (store.get id) m₂ = (.ok r, m₃) := by
    rw [Memory.run_adapt] at got
    obtain ⟨result, left⟩ := Prod.mk.inj got
    exact Prod.ext (ok_of_mapError result) left
  exact isAt_of_created (Session.values_ofPersisted f (values_of_get given)) rest printed

theorem isAt_of_session {c : SessionCommand} {out : String} {pretty : Bool}
    (ran : run (c.run pretty) m = (.ok out, m')) (writes : Writes (.session c) out path) :
    ∃ f : SessionFile, f.IsAt path m' := by
  cases writes with
  | new function name directory => exact isAt_of_new ran rfl
  | load function id storeDirectory directory => exact isAt_of_load ran rfl
  | apply _ command =>
    obtain ⟨v, m₁, given, rest⟩ := Memory.bind_ok ran
    obtain ⟨s, applied⟩ := Memory.bind_pure_ok rest
    have numbers := numbers_of_valueOf given
    refine isAt_of_changed (fun readable done => readable.applyAll ?_ done) applied
    cases v with
    | arr items => exact numbers_arr_iff.1 numbers
    | _ => exact List.forall_mem_singleton.2 numbers
  | discard =>
    obtain ⟨s, discarded⟩ := Memory.bind_pure_ok ran
    refine isAt_of_changed_by (.run .discard) trivial (fun s t done => ?_) discarded
    exact some_of_asked done

theorem isAt_of_edit {c : EditCommand} {out : String} {pretty : Bool}
    (ran : run (c.run pretty) m = (.ok out, m')) (writes : Writes (.edit c) out path) :
    ∃ f : SessionFile, f.IsAt path m' := by
  have second {α : Type} {result : Except SessionError (α × Session)} {t : Session} {a : α}
      (done : asked result = .ok (a, t)) : result.toOption.map Prod.snd = some t :=
    congrArg (Option.map Prod.snd) (some_of_asked done)
  cases writes with
  | openReturnValue =>
    obtain ⟨frame, opened⟩ := Memory.bind_pure_ok ran
    exact isAt_of_change .openReturnValue trivial (fun s t a done => second done) opened
  | openArgument _ functionName argument =>
    obtain ⟨frame, opened⟩ := Memory.bind_pure_ok ran
    exact isAt_of_change (.openArgument functionName argument) trivial
      (fun s t a done => second done) opened
  | openField _ parent key =>
    obtain ⟨frame, opened⟩ := Memory.bind_pure_ok ran
    exact isAt_of_change (.openField parent key) trivial (fun s t a done => second done) opened
  | setValue _ label value =>
    obtain ⟨v, m₁, given, rest⟩ := Memory.bind_ok ran
    obtain ⟨s, set⟩ := Memory.bind_pure_ok rest
    exact isAt_of_changed_by (.setValue label v) (numbers_of_valueOf given)
      (fun s t done => some_of_asked done) set
  | commit _ label =>
    obtain ⟨s, committed⟩ := Memory.bind_pure_ok ran
    exact isAt_of_changed_by (.commit label) trivial (fun s t done => some_of_asked done) committed
  | close _ label =>
    obtain ⟨s, closed⟩ := Memory.bind_pure_ok ran
    refine isAt_of_changed_by (.close label) trivial (fun s t done => ?_) closed
    unfold EditCommand.closeEditor at done
    split at done
    next frame u found =>
      rw [Session.step?, found, ← Except.ok.inj done]
      rfl
    · cases done
  | select _ tab =>
    obtain ⟨s, selected⟩ := Memory.bind_pure_ok ran
    exact isAt_of_changed_by (.select tab) trivial
      (fun s t done => congrArg some (Except.ok.inj done)) selected

theorem isAt_of_store {c : StoreCommand} {out : String} {pretty : Bool}
    (ran : run (c.run pretty) m = (.ok out, m')) (writes : Writes (.store c) out path) :
    ∃ f : SessionFile, f.IsAt path m' := by
  cases writes with
  | save _ directory =>
    obtain ⟨store, m₁, -, rest⟩ := Memory.bind_ok ran
    obtain ⟨d, saved⟩ := Memory.bind_pure_ok rest
    refine SessionFile.isAt_of_modify (fun {s t m m' d} readable done => ?_) saved
    obtain ⟨d, m₃, kept, rest⟩ := Memory.bind_ok done
    obtain ⟨-, rfl⟩ := Prod.mk.inj (Except.ok.inj (Prod.mk.inj rest).1)
    have given : run (store.save s.draft) m = (.ok d, m₃) := by
      rw [Memory.run_adapt] at kept
      obtain ⟨result, left⟩ := Prod.mk.inj kept
      exact Prod.ext (ok_of_mapError result) left
    have values : d.modules.Values (Numbers Bounded) := by
      rw [modules_of_save given]
      exact readable.draft
    exact readable.step? editable_numbers (.markPersisted d) values rfl

/-- A session file that a command wrote is read if it is not nested too deep, and only then. -/
theorem load_after_write {i : Invocation} {pretty : Bool} {out : String}
    (ran : run (i.run pretty) m = (.ok out, m')) (writes : Writes i out path) :
    ∃ f : SessionFile, m'.files.readText m'.current path = .ok f.encode.pretty ∧
      (f.encode.depth ≤ Document.maxDepth →
        run (SessionFile.load path) m' = (.ok f.reread, m')) ∧
      (Document.maxDepth < f.encode.depth →
        ∃ e, run (SessionFile.load path) m' = (.error (.parseSession path e), m')) := by
  have written : ∃ f : SessionFile, f.IsAt path m' := by
    cases i with
    | flatten input => cases writes
    | session c => exact isAt_of_session ran writes
    | edit c => exact isAt_of_edit ran writes
    | store c => exact isAt_of_store ran writes
  obtain ⟨f, here⟩ := written
  exact ⟨f, here.text, here.load, here.load_deep⟩

/-! ### Where the limit is -/

def arrays : Nat → Json
  | 0 => .arr []
  | n + 1 => .arr [arrays n]

theorem depth_arrays (n : Nat) : (arrays n).depth = n + 1 := by
  induction n with
  | zero => rfl
  | succ n ih => rw [arrays, depth, depthItems, depthItems, ih, Nat.max_zero]

theorem canonical_arrays (n : Nat) : (arrays n).Canonical := by
  induction n with
  | zero => rfl
  | succ n ih => exact canonical_arr_iff.2 (List.forall_mem_singleton.2 ih)

theorem numbers_arrays (P : Number → Prop) (n : Nat) : (arrays n).Numbers P := by
  induction n with
  | zero => exact numbers_arr_iff.2 nofun
  | succ n ih => exact numbers_arr_iff.2 (List.forall_mem_singleton.2 ih)

/-- A session in which the editor of the return value holds a value. -/
def editing (v : Json) : Session :=
  ((Session.ofPersisted Session.plainFunction Session.objectExpectedDraft).after
    .openReturnValue).after (.setValue returnValueLabel v)

def editingFile (v : Json) : SessionFile :=
  ⟨SessionFile.currentVersion, "2024-01-01T00:00:00Z", editing v⟩

def holding (f : SessionFile) : Memory where
  files := { nodes := [(["s.json"], .file f.encode.pretty)], nodup := List.nodup_singleton _ }
  clock := fun _ => default

theorem isAt_holding {f : SessionFile} (sound : f.Sound) : f.IsAt "s.json" (holding f) :=
  ⟨rfl, sound⟩

theorem put_only (place : List String) (old new : Node) :
    Files.put { nodes := [(place, old)], nodup := List.nodup_singleton _ } place new =
      { nodes := [(place, new)], nodup := List.nodup_singleton _ } := by
  have present : place ∈ [(place, old)].map Prod.fst := List.mem_singleton_self place
  rw [Files.put, dif_pos present]
  simp only [List.map_cons, List.map_nil, if_true]

theorem run_save_holding (f g : SessionFile) :
    run (SessionFile.save "s.json" g) (holding f) = (.ok (), holding g) := by
  have found : (holding f).files.find [] "." = .ok ([], .directory) := rfl
  have room : (Files.stagedPath [] "").utf8ByteSize ≤ Files.pathLimit := by decide
  have reached : (holding f).files.resolve [] "s.json" = .ok ["s.json"] := rfl
  have here : (holding f).files.node? ["s.json"] = some (.file f.encode.pretty) := rfl
  have bare : (holding f).files.node? ["s.json"] ≠ some .directory := by
    rw [here]
    rintro ⟨⟩
  have placed : (holding f).files.put ["s.json"] (.file g.encode.pretty) = (holding g).files :=
    put_only _ _ _
  have replaced : (holding f).files.replaceText [] "" "s.json" g.encode.pretty =
      .ok (holding g).files := by
    rw [← placed]
    exact Files.replaceText_ok found room reached bare
  have directories : (holding f).files.makeDirectories []
      (Path.ancestors ((Path.parent? "s.json").getD ".")) = (.ok (), (holding f).files) := rfl
  exact SessionFile.save_ok directories replaced

theorem run_changed_holding {f : SessionFile} {step : Session → Except Failure Session}
    (sound : f.Sound) (shallow : f.encode.depth ≤ Document.maxDepth) (kept : f.reread = f)
    (stepped : step f.session = .ok t) :
    run (changed "s.json" step) (holding f) = (.ok t, holding { f with session := t }) := by
  have loaded : run (SessionFile.load "s.json") (holding f) = (.ok f, holding f) := by
    rw [(isAt_holding sound).load shallow, kept]
  exact run_changed loaded stepped (run_save_holding f _)

theorem depth_editingFile (v : Json) : (editingFile v).encode.depth = max v.depth 1 + 5 := by
  have file : (editingFile v).encode = .obj [("version", .num (.int 1)),
      ("createdAt", .str "2024-01-01T00:00:00Z"), ("session", (editing v).encode)] := rfl
  have session : (editing v).encode = .obj [("function", Session.plainFunction.encode),
      ("draft", Session.objectExpectedDraft.encode),
      ("persisted", Session.objectExpectedDraft.encode), ("navigator", .obj
        [("frames", .arr [.obj [("label", .str returnValueLabel), ("initialValue", .obj []),
          ("value", v), ("parentEventKey", .str "returnValue"),
          ("target", Target.returnValue.encode)]]),
          ("selected", .str returnValueLabel)])] := rfl
  have function : Session.plainFunction.encode.depth = 2 := rfl
  have draft : Session.objectExpectedDraft.encode.depth = 3 := rfl
  have target : Target.returnValue.encode.depth = 1 := rfl
  simp only [file, session, depth, depthMembers, depthItems, function, draft, target]
  omega

theorem sound_editingFile {v : Json} (numbers : v.Numbers Bounded) : (editingFile v).Sound where
  version := rfl
  values := by
    have start : Session.objectExpectedDraft.Values (Numbers Bounded) :=
      ⟨nofun, by rintro _ ⟨⟩; exact nofun⟩
    have read := Session.values_ofPersisted Session.plainFunction start
    have opened : Readable (Session.after _ .openReturnValue) := read.after editable_numbers trivial
    have given : (Operation.setValue returnValueLabel v).Values (Numbers Bounded) := numbers
    exact opened.after editable_numbers given

theorem run_valueOf_pretty {v : Json} (canonical : v.Canonical) (bounded : v.Numbers Bounded)
    (kept : v.Numbers fun n => Number.reread n = n) (shallow : v.depth ≤ Document.maxDepth)
    (what : String) : run (valueOf (some v.pretty) what) m = (.ok v, m) := by
  have read : Decoder.json.ofText v.pretty = .ok v := by
    rw [Decoder.ofText, Document.ofText_pretty bounded, mapNumbers_eq_self kept,
      Document.nested_eq_ofJson (by rwa [Nat.zero_add])]
    simp only [Decoder.accepts_json v _ v .written]
    exact congrArg Except.ok canonical
  show ((Decoder.json.ofText v.pretty).mapError (Failure.parseJson what), m) = (.ok v, m)
  rw [read]
  rfl

theorem run_setValue {m₁ : Memory} {label : String} {text : Option String} {v : Json}
    {pretty : Bool} (given : run (valueOf text "value") m = (.ok v, m₁))
    (set : run (changed path fun s => asked (s.setValue label v)) m₁ = (.ok s, m')) :
    run ((EditCommand.setValue path label text).run pretty) m =
      (.ok (printed pretty (listing s)), m') := by
  rw [EditCommand.run, Memory.run_bind, given]
  simp only [Memory.run_bind, set, Memory.run_pure]

def setting (v : Json) : Invocation :=
  .edit (.setValue "s.json" returnValueLabel (some v.pretty))

theorem run_setting_arrays (n : Nat) (shallow : n < Document.maxDepth) (pretty : Bool) :
    run ((setting (arrays n)).run pretty) (holding (editingFile .null)) =
      (.ok (printed pretty (listing (editing (arrays n)))), holding (editingFile (arrays n))) := by
  have value : run (valueOf (some (arrays n).pretty) "value") (holding (editingFile .null)) =
      (.ok (arrays n), holding (editingFile .null)) := by
    refine run_valueOf_pretty (canonical_arrays n) (numbers_arrays _ n) (numbers_arrays _ n) ?_ _
    rw [depth_arrays]
    exact shallow
  have set : (editing .null).setValue returnValueLabel (arrays n) = .ok (editing (arrays n)) := rfl
  have changed : run (changed "s.json" fun s => asked (s.setValue returnValueLabel (arrays n)))
      (holding (editingFile .null)) =
        (.ok (editing (arrays n)), holding (editingFile (arrays n))) := by
    refine run_changed_holding (sound_editingFile numbers_null) ?_ rfl (congrArg asked set)
    rw [depth_editingFile]
    decide
  exact run_setValue value changed

/-- A value nested 122 deep is the deepest that an editor of the return value may be set to. -/
theorem load_after_write_arrays :
    ∃ out m', run ((setting (arrays 121)).run false) (holding (editingFile .null)) = (.ok out, m') ∧
      Writes (setting (arrays 121)) out "s.json" ∧
      ∃ f : SessionFile, m'.files.readText m'.current "s.json" = .ok f.encode.pretty ∧
        f.encode.depth ≤ Document.maxDepth ∧
        run (SessionFile.load "s.json") m' = (.ok f.reread, m') := by
  have ran := run_setting_arrays 121 (by decide) false
  have writes (out : String) : Writes (setting (arrays 121)) out "s.json" := .setValue _ _ _ _
  obtain ⟨f, text, shallow, deep⟩ := load_after_write ran (writes _)
  have room : (editingFile (arrays 121)).encode.depth ≤ Document.maxDepth := by
    rw [depth_editingFile, depth_arrays]
    decide
  refine ⟨_, _, ran, writes _, f, text, ?_⟩
  rcases Nat.lt_or_ge Document.maxDepth f.encode.depth with below | above
  · obtain ⟨e, refused⟩ := deep below
    rw [(isAt_holding (sound_editingFile (numbers_arrays _ 121))).load room] at refused
    cases refused
  · exact ⟨above, shallow above⟩

/-- A deeper value is read and written as well, but then the session is lost. -/
theorem write_loses_session :
    ∃ out m' e, run ((setting (arrays 122)).run false) (holding (editingFile .null)) =
        (.ok out, m') ∧
      Writes (setting (arrays 122)) out "s.json" ∧
      run (SessionFile.load "s.json") m' = (.error (.parseSession "s.json" e), m') := by
  have ran := run_setting_arrays 122 (by decide) false
  have deep : Document.maxDepth < (editingFile (arrays 122)).encode.depth := by
    rw [depth_editingFile, depth_arrays]
    decide
  obtain ⟨e, refused⟩ := (isAt_holding (sound_editingFile (numbers_arrays _ 122))).load_deep deep
  exact ⟨_, _, e, ran, .setValue _ _ _ _, refused⟩

end CommandLine

end Fixture
