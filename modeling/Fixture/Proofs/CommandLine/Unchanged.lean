import Fixture.Proofs.CommandLine.Arguments
import Fixture.Proofs.CommandLine.Run
import Fixture.Proofs.Host.Detour
import Fixture.Proofs.Store.Location
import Fixture.Proofs.Store.Save

/-!
What commands on a session leave behind when they fail. All that a command reads and works out comes
before the session file is written, so a failure finds the file as it was. Only the save of a test
writes something else before: its record, which may lie in the place of the session file.
-/

namespace Fixture.CommandLine

open Memory (run Making Harmless Careful)

variable {m m' : Memory} {path : String} {s t : Session} {f : SessionFile} {e : Failure}

/-! ## Commands that change no file if they fail -/

namespace SessionFile

theorem harmless_load (path : String) :
    Harmless (load path : ExceptT Failure (StateM Memory) SessionFile) :=
  (Memory.harmless_during _ fun _ => rfl).bind fun _ => Memory.harmless_lift _

theorem careful_save (path : String) (f : SessionFile) :
    Careful (save path f : ExceptT Failure (StateM Memory) Unit) :=
  (Memory.making_makeDirectories _ _).harmless.bind_careful fun _ => Memory.careful_replaceText _ _ _ _

theorem careful_modify {α : Type} {change : Session → ExceptT Failure (StateM Memory) (α × Session)}
    (path : String) (harmless : ∀ s, Harmless (change s)) : Careful (modify path change) :=
  (harmless_load path).bind_careful fun f =>
    (harmless f.session).bind_careful fun (_, _) => (careful_save path _).bind_pure _

theorem modify_error {α : Type} {change : Session → ExceptT Failure (StateM Memory) (α × Session)}
    (failed : run (modify path change) m = (.error e, m')) :
    run (load path) m = (.error e, m') ∨ ∃ f, run (load path) m = (.ok f, m) ∧
      (run (change f.session) m = (.error e, m') ∨ ∃ a s m₁,
        run (change f.session) m = (.ok (a, s), m₁) ∧
          run (save path { f with session := s }) m₁ = (.error e, m')) := by
  rcases Memory.bind_error failed with unread | ⟨f, m₁, loaded, rest⟩
  · exact .inl unread
  obtain ⟨-, rfl⟩ := load_inv loaded
  refine .inr ⟨f, loaded, ?_⟩
  rcases Memory.bind_error rest with refused | ⟨⟨a, s⟩, m₂, changed, rest⟩
  · exact .inl refused
  rcases Memory.bind_error rest with unsaved | ⟨_, m₃, -, done⟩
  · exact .inr ⟨a, s, m₂, changed, unsaved⟩
  · cases (Prod.mk.inj done).1

end SessionFile

theorem harmless_valueOf (text : Option String) (what : String) :
    Harmless (valueOf text what : ExceptT Failure (StateM Memory) Json) := by
  cases text with
  | some text => exact Memory.harmless_lift _
  | none => exact (Memory.harmless_during _ fun _ => rfl).bind fun _ => Memory.harmless_lift _

theorem careful_change {α : Type} (path : String) (step : Session → Except Failure (α × Session)) :
    Careful (change path step : ExceptT Failure (StateM Memory) α) :=
  SessionFile.careful_modify path fun _ => Memory.harmless_lift _

theorem careful_changed (path : String) (step : Session → Except Failure Session) :
    Careful (changed path step : ExceptT Failure (StateM Memory) Session) :=
  careful_change path _

theorem careful_closeFile (path : String) (force : Bool) :
    Careful (SessionCommand.closeFile path force : ExceptT Failure (StateM Memory) Unit) := by
  refine (SessionFile.harmless_load path).bind_careful fun f => ?_
  split
  · exact (Memory.harmless_throw _).careful
  · exact Memory.careful_remove _ _

theorem careful_edit (c : EditCommand) (pretty : Bool) :
    Careful (c.run pretty : ExceptT Failure (StateM Memory) String) := by
  cases c with
  | openReturnValue | openArgument | openField => exact (careful_change _ _).bind_pure _
  | setValue _ _ value =>
    exact (harmless_valueOf value _).bind_careful fun _ => (careful_changed _ _).bind_pure _
  | commit | close | select => exact (careful_changed _ _).bind_pure _
  | frames path => exact (SessionFile.harmless_load path).careful.bind_pure _

theorem careful_apply (path : String) (command : Option String) (pretty : Bool) :
    Careful ((SessionCommand.apply path command).run pretty :
      ExceptT Failure (StateM Memory) String) :=
  (harmless_valueOf command _).bind_careful fun _ => (careful_changed _ _).bind_pure _

/-! ## The save of a test -/

theorem making_storeIn (directory : Option String) :
    Making (storeIn directory : ExceptT Failure (StateM Memory) Store) := by
  cases directory with
  | some path => exact (Memory.making_pure _).bind fun _ => (Store.making_atLocation _).adapt _
  | none => exact Making.bind Memory.Makes.refl fun _ => (Store.making_atLocation _).adapt _

theorem harmless_storeIn (directory : Option String) :
    Harmless (storeIn directory : ExceptT Failure (StateM Memory) Store) :=
  (making_storeIn directory).harmless

theorem directory_of_storeIn {directory : Option String} {store : Store} (given : directory ≠ some "")
    (opened : run (storeIn directory) m = (.ok store, m')) : store.directory ≠ "" := by
  have located : ∃ l : Location, l.path? ≠ some "" ∧ ∃ m₁,
      run ((Store.atLocation l).adapt Failure.openStore) m₁ = (.ok store, m') := by
    cases directory with
    | some path =>
      obtain ⟨l, m₁, given', rest⟩ := Memory.bind_ok opened
      obtain rfl := Except.ok.inj (Prod.mk.inj given').1
      exact ⟨{ directory := some path }, given, m₁, rest⟩
    | none =>
      obtain ⟨l, m₁, found, rest⟩ := Memory.bind_ok opened
      obtain rfl := Except.ok.inj (Prod.mk.inj found).1
      exact ⟨.ofVariable m.storeVariable, Location.path?_ofVariable _, m₁, rest⟩
  obtain ⟨l, named, m₁, ran⟩ := located
  rw [Memory.run_adapt] at ran
  obtain ⟨outcome, left⟩ := Prod.mk.inj ran
  exact Store.directory_of_atLocation named (Prod.ext (Json.ok_of_mapError outcome) left)

/-- The record of a test was put in the place of the session file that it was saved from, and then
the session could not be written. -/
inductive SavedOver (path : String) (m m' : Memory) : Invocation → Prop where
  | save {directory : Option String} {store : Store} {f : SessionFile} {id : String} {old : Record}
    {saved : Draft} {place : List String} {m₁ m₂ : Memory} {e : Failure}
    (opened : run (storeIn directory) m = (.ok store, m₁))
    (loaded : run (SessionFile.load path) m₁ = (.ok f, m₁))
    (identified : f.session.draft.id = some id)
    (got : run (store.get id) m₁ = (.ok old, m₁))
    (here : m₁.files.resolve m₁.current path = .ok place)
    (there : m₁.files.resolve m₁.current (store.pathOf old.id) = .ok place)
    (kept : run (store.save f.session.draft) m₁ = (.ok saved, m₂))
    (refused : run (SessionFile.save path { f with session := f.session.markPersisted saved }) m₂ =
      (.error e, m'))
    (left : m'.files.readText m'.current path = .ok (Store.updated old f.session.draft.modules
      f.session.draft.customName (Store.time m₁)).encode.pretty) :
    SavedOver path m m' (.store (.save path directory))

theorem careful_saveDraft (store : Store) (s : Session) :
    Careful (StoreCommand.saveDraft store s :
      ExceptT Failure (StateM Memory) (Draft × Session)) :=
  ((Store.careful_save store s.draft).adapt _).bind_pure _

theorem saveDraft_inv {store : Store} {d : Draft}
    (done : run (StoreCommand.saveDraft store s) m = (.ok (d, t), m')) :
    ∃ saved, run (store.save s.draft) m = (.ok saved, m') ∧ d = saved ∧
      t = s.markPersisted saved := by
  obtain ⟨saved, m₁, kept, rest⟩ := Memory.bind_ok done
  obtain ⟨outcome, rfl⟩ := Prod.mk.inj rest
  obtain ⟨rfl, rfl⟩ := Prod.mk.inj (Except.ok.inj outcome)
  rw [Memory.run_adapt] at kept
  obtain ⟨result, left⟩ := Prod.mk.inj kept
  exact ⟨_, Prod.ext (Json.ok_of_mapError result) left, rfl, rfl⟩

theorem unchanged_or_savedOver {directory : Option String} {store : Store} {m₁ : Memory}
    {text : String} (given : directory ≠ some "")
    (opened : run (storeIn directory) m = (.ok store, m₁))
    (failed : run (SessionFile.modify path (StoreCommand.saveDraft store)) m₁ = (.error e, m'))
    (read : m₁.files.readText m₁.current path = .ok text) :
    m'.files.readText m'.current path = .ok text ∨
      SavedOver path m m' (.store (.save path directory)) := by
  rcases SessionFile.modify_error failed with unread | ⟨f, loaded, unsaved | ⟨d, s, m₂, done, refused⟩⟩
  · exact .inl (((SessionFile.harmless_load path).careful _ _ _ unread).readText read)
  · exact .inl ((careful_saveDraft store f.session _ _ _ unsaved).readText read)
  obtain ⟨saved, kept, rfl, rfl⟩ := saveDraft_inv done
  have after := SessionFile.careful_save _ _ _ _ _ refused
  rcases Store.save_inv (directory_of_storeIn given opened) kept with
    same | ⟨id, old, target, identified, got, there, bare, left, still⟩
  · exact .inl (after.readText (same.readText read))
  obtain ⟨place, here, -⟩ := Files.readText_inv read
  by_cases onto : place = target
  · subst onto
    refine .inr (.save opened loaded identified got here there kept refused (after.readText ?_))
    rw [left, still]
    exact Files.readText_put here bare
  · refine .inl (after.readText ?_)
    rw [left, still]
    refine Files.readText_put_elsewhere read bare fun other reached => ?_
    rw [here] at reached
    rwa [← Except.ok.inj reached]

inductive OnSession : Invocation → String → Prop where
  | apply (path : String) (command : Option String) :
    OnSession (.session (.apply path command)) path
  | discard (path : String) : OnSession (.session (.discard path)) path
  | close (path : String) (force : Bool) : OnSession (.session (.close path force)) path
  | edit (c : EditCommand) : OnSession (.edit c) c.session
  | save (path : String) (directory : Option String) :
    OnSession (.store (.save path directory)) path

/-- A command that fails leaves the session file as it was, but for a record in its place. -/
theorem readText_of_failed {arguments : List String} {i : Invocation} {pretty : Bool}
    {text : String} (asked : Invocation.ofArguments arguments = .ok (i, pretty))
    (on : OnSession i path) (failed : run (i.run pretty) m = (.error e, m'))
    (read : m.files.readText m.current path = .ok text) :
    m'.files.readText m'.current path = .ok text ∨ SavedOver path m m' i := by
  cases on with
  | apply _ command => exact .inl ((careful_apply path command pretty _ _ _ failed).readText read)
  | discard =>
    exact .inl (((careful_changed path _).bind_pure _ _ _ _ failed).readText read)
  | close _ force =>
    exact .inl (((careful_closeFile path force).bind_pure _ _ _ _ failed).readText read)
  | edit c => exact .inl ((careful_edit c pretty _ _ _ failed).readText read)
  | save _ directory =>
    have given : directory ≠ some "" := by
      rintro rfl
      exact paths_ne_empty asked "" (List.mem_cons_of_mem _ List.mem_cons_self) rfl
    rcases Memory.bind_error failed with closed | ⟨store, m₁, opened, rest⟩
    · exact .inl (((harmless_storeIn directory).careful _ _ _ closed).readText read)
    rcases Memory.bind_error rest with refused | ⟨d, m₂, -, done⟩
    · have kept := harmless_storeIn directory m
      rw [opened] at kept
      exact unchanged_or_savedOver given opened refused (kept.readText read)
    · cases (Prod.mk.inj done).1

/-! ## Commands in envelopes -/

inductive Batch : Json → List Json → Prop where
  | one {v : Json} (single : ∀ items, v ≠ .arr items) : Batch v [v]
  | many (items : List Json) : Batch (.arr items) items

theorem Batch.envelopesOf_eq {v : Json} {envelopes : List Json} (batch : Batch v envelopes) :
    envelopesOf v = envelopes := by
  cases batch with
  | one single =>
    cases v with
    | arr items => exact absurd rfl (single items)
    | _ => rfl
  | many items => rfl

theorem applyAll_ok_iff {envelopes : List Json} {index : Nat} :
    applyAll s index envelopes = .ok t ↔ envelopes.foldlM Session.dispatch s = .ok t := by
  induction envelopes generalizing s index with
  | nil => exact ⟨fun same => congrArg _ (Except.ok.inj same), fun same => congrArg _ (Except.ok.inj same)⟩
  | cons envelope rest ih =>
    rw [applyAll, List.foldlM_cons]
    cases s.dispatch envelope with
    | ok u => exact ih
    | error e =>
      constructor
      · intro accepted
        cases accepted
      · intro accepted
        cases accepted

/-- The session file can be written, whatever it is to hold. -/
def Writable (path : String) (m : Memory) : Prop :=
  ∀ f : SessionFile, (run (SessionFile.save path f) m).1 = .ok ()

section

variable {command : Option String} {v : Json} {envelopes : List Json} {pretty : Bool}
  {out : String} (given : run (valueOf command "command") m = (.ok v, m)) (batch : Batch v envelopes)

include given batch

theorem apply_inv
    (ran : run ((SessionCommand.apply path command).run pretty) m = (.ok out, m')) :
    ∃ f t, run (SessionFile.load path) m = (.ok f, m) ∧
      envelopes.foldlM Session.dispatch f.session = .ok t ∧ out = printed pretty t.draft.encode ∧
      m'.files.readText m'.current path = .ok ({ f with session := t } : SessionFile).encode.pretty := by
  obtain ⟨w, m₁, read, rest⟩ := Memory.bind_ok ran
  rw [given] at read
  obtain ⟨same, rfl⟩ := Prod.mk.inj read
  obtain rfl := Except.ok.inj same
  obtain ⟨t, m₂, changed, done⟩ := Memory.bind_ok rest
  obtain ⟨same, rfl⟩ := Prod.mk.inj done
  obtain ⟨f, loaded, stepped, saved⟩ := changed_inv changed
  rw [batch.envelopesOf_eq] at stepped
  exact ⟨f, t, loaded, applyAll_ok_iff.1 stepped, (Except.ok.inj same).symm,
    SessionFile.readText_of_save saved⟩

theorem run_apply (writable : Writable path m) (loaded : run (SessionFile.load path) m = (.ok f, m))
    (dispatched : envelopes.foldlM Session.dispatch f.session = .ok t) :
    ∃ m', run ((SessionCommand.apply path command).run pretty) m =
      (.ok (printed pretty t.draft.encode), m') := by
  obtain ⟨m', saved⟩ : ∃ m', run (SessionFile.save path { f with session := t }) m = (.ok (), m') :=
    ⟨_, Prod.ext (writable _) rfl⟩
  have stepped : applyAll f.session 0 (envelopesOf v) = .ok t := by
    rw [batch.envelopesOf_eq]
    exact applyAll_ok_iff.2 dispatched
  have changed : run (changed path fun s => applyAll s 0 (envelopesOf v)) m = (.ok t, m') :=
    run_changed loaded stepped saved
  refine ⟨m', ?_⟩
  rw [SessionCommand.run, Memory.run_bind, given]
  dsimp only
  rw [Memory.run_bind, changed]
  rfl

end

/-- Commands on a session do all or nothing. A command that fails leaves the text of the session file,
unless it saved a record in the place of that very file. Commands in envelopes go through exactly if
the file can be loaded and all of them can be carried out in turn; then the file, with all else that
it held, holds the session after all of them, whose draft is printed. -/
theorem session_all_or_nothing (m : Memory) (path : String) (pretty : Bool) :
    (∀ arguments i e m' text, Invocation.ofArguments arguments = .ok (i, pretty) →
      OnSession i path → run (i.run pretty) m = (.error e, m') →
      m.files.readText m.current path = .ok text →
      m'.files.readText m'.current path = .ok text ∨ SavedOver path m m' i) ∧
    ∀ command v envelopes, run (valueOf command "command") m = (.ok v, m) → Batch v envelopes →
      (Writable path m →
        ((∃ out m', run ((SessionCommand.apply path command).run pretty) m = (.ok out, m')) ↔
          ∃ f t, run (SessionFile.load path) m = (.ok f, m) ∧
            envelopes.foldlM Session.dispatch f.session = .ok t)) ∧
      ∀ out m', run ((SessionCommand.apply path command).run pretty) m = (.ok out, m') →
        ∃ f t, run (SessionFile.load path) m = (.ok f, m) ∧
          envelopes.foldlM Session.dispatch f.session = .ok t ∧
          out = printed pretty t.draft.encode ∧
          m'.files.readText m'.current path =
            .ok ({ f with session := t } : SessionFile).encode.pretty := by
  refine ⟨fun arguments i e m' text => readText_of_failed, fun command v envelopes given batch =>
    ⟨fun writable => ⟨?_, ?_⟩, fun out m' => apply_inv given batch⟩⟩
  · rintro ⟨out, m', ran⟩
    obtain ⟨f, t, loaded, dispatched, -⟩ := apply_inv given batch ran
    exact ⟨f, t, loaded, dispatched⟩
  · rintro ⟨f, t, loaded, dispatched⟩
    obtain ⟨m', ran⟩ := run_apply given batch writable loaded dispatched
    exact ⟨_, m', ran⟩

theorem load_editingFile : run (SessionFile.load "s.json") (holding (editingFile .null)) =
    (.ok (editingFile .null), holding (editingFile .null)) := by
  have shallow : (editingFile .null).encode.depth ≤ Json.Document.maxDepth := by
    rw [depth_editingFile]
    decide
  have kept : (editingFile .null).reread = editingFile .null := rfl
  rw [(isAt_holding (sound_editingFile Json.numbers_null)).load shallow, kept]

theorem run_close_error {label : String} {pretty : Bool}
    (failed : run (changed path (EditCommand.closeEditor label)) m = (.error e, m')) :
    run ((Invocation.edit (.close path label)).run pretty) m = (.error e, m') := by
  rw [Invocation.run, EditCommand.run, Memory.run_bind, failed]

def clearing : List Json := [Command.clear.toEnvelope, (Command.rename "new").toEnvelope]

theorem numbers_clearing (P : Number → Prop) : (Json.arr clearing).Numbers P := by
  have clear : Command.clear.toEnvelope = .obj [("kind", .str "clearModuleData")] := rfl
  have rename : (Command.rename "new").toEnvelope =
    .obj [("kind", .str "customName"), ("payload", .str "new"), ("tag", .str "rename")] := rfl
  rw [clearing, clear, rename]
  simp

/-- An editor that is not open cannot be closed, and the file stays. Both commands of a batch are
carried out. -/
theorem session_all_or_nothing_holding :
    (∃ m', run ((Invocation.edit (.close "s.json" "x")).run false) (holding (editingFile .null)) =
        (.error (.unknownEditor "x"), m') ∧
      m'.files.readText m'.current "s.json" = .ok (editingFile .null).encode.pretty) ∧
    ∃ t out m', clearing.foldlM Session.dispatch (editing .null) = .ok t ∧
      run ((SessionCommand.apply "s.json" (some (Json.arr clearing).pretty)).run false)
        (holding (editingFile .null)) = (.ok out, m') ∧
      m'.files.readText m'.current "s.json" =
        .ok ({ editingFile .null with session := t } : SessionFile).encode.pretty := by
  obtain ⟨failing, applying⟩ := session_all_or_nothing (holding (editingFile .null)) "s.json" false
  constructor
  · have failed : run ((Invocation.edit (.close "s.json" "x")).run false)
        (holding (editingFile .null)) =
          (.error (.unknownEditor "x"), holding (editingFile .null)) := by
      have refused : EditCommand.closeEditor "x" (editingFile .null).session =
        .error (.unknownEditor "x") := rfl
      exact run_close_error (run_changed_error load_editingFile refused)
    have asked : Invocation.ofArguments ["edit", "close", "--session", "s.json", "--label", "x"] =
        .ok (.edit (.close "s.json" "x"), false) := rfl
    refine ⟨_, failed, ?_⟩
    have read := (isAt_holding (sound_editingFile Json.numbers_null)).text
    rcases failing _ _ _ _ _ asked (.edit (.close "s.json" "x")) failed read with same | savedOver
    · exact same
    · cases savedOver
  · have given : run (valueOf (some (Json.arr clearing).pretty) "command")
        (holding (editingFile .null)) = (.ok (.arr clearing), holding (editingFile .null)) := by
      have canonical : (Json.arr clearing).Canonical := by
        rw [Json.Canonical]
        rfl
      exact run_valueOf_pretty canonical (numbers_clearing _) (numbers_clearing _) (by decide) _
    have writable : Writable "s.json" (holding (editingFile .null)) := by
      intro f
      rw [run_save_holding]
    obtain ⟨succeeds, writes⟩ := applying _ _ _ given (.many _)
    have dispatched : ∃ t, clearing.foldlM Session.dispatch (editing .null) = .ok t := ⟨_, rfl⟩
    obtain ⟨t, dispatched⟩ := dispatched
    obtain ⟨out, m', ran⟩ := (succeeds writable).2 ⟨_, t, load_editingFile, dispatched⟩
    obtain ⟨f, u, loaded, folded, -, text⟩ := writes out m' ran
    rw [load_editingFile] at loaded
    obtain rfl := Except.ok.inj (Prod.mk.inj loaded).1
    obtain rfl : t = u := Except.ok.inj (dispatched.symm.trans folded)
    exact ⟨t, out, m', dispatched, ran, text⟩

/-! ### A record in the place of the session file -/

def crossed : SessionFile :=
  ⟨SessionFile.currentVersion, "2024-01-01T00:00:00Z",
    .ofPersisted Session.plainFunction (Record.plain "x" "").toDraft⟩

/-- A directory with the file of the session, and with a record for `x` that has the id `t`, whose own
file is that of the session. -/
def crossing : Memory where
  files := {
    nodes := [(["d"], .directory), (["d", "t.json"], .file crossed.encode.pretty),
      (["d", "x.json"], .file (Record.plain "t" "").encode.pretty)]
    nodup := by simp }
  clock := fun _ => newYear

def longWay (n : Nat) : String := Path.detour n "d/t.json"

theorem sound_crossed : crossed.Sound where
  version := rfl
  values := Session.values_ofPersisted Session.plainFunction
    ⟨by rintro _ ⟨⟩, by rintro _ ⟨⟩⟩

theorem node?_session : crossing.files.node? ["d", "t.json"] = some (.file crossed.encode.pretty) := rfl

theorem node?_record : crossing.files.node? ["d", "x.json"] =
    some (.file (Record.plain "t" "").encode.pretty) := rfl

theorem resolve_longWay {n : Nat} (short : 2 * n + 8 ≤ Files.pathLimit) :
    crossing.files.resolve [] (longWay n) = .ok ["d", "t.json"] := by
  have plain : crossing.files.resolve [] "d/t.json" = .ok ["d", "t.json"] := rfl
  have size : "d/t.json".utf8ByteSize = 8 := rfl
  rw [longWay, Files.resolve_detour rfl (by decide) (by decide) (by decide) n (by rwa [size]), plain]

theorem load_longWay {n : Nat} (short : 2 * n + 8 ≤ Files.pathLimit) :
    run (SessionFile.load (longWay n)) crossing = (.ok crossed, crossing) := by
  have here : crossed.IsAt (longWay n) crossing :=
    ⟨Files.readText_of_node (resolve_longWay short) node?_session, sound_crossed⟩
  have kept : crossed.reread = crossed := rfl
  rw [here.load (by decide), kept]

theorem parent?_longWay (n : Nat) :
    Path.parent? (longWay (n + 1)) = some (Path.detour (n + 1) "d") := by
  have parts : Path.parts (longWay (n + 1)) = "." :: (List.replicate n "." ++ ["d", "t.json"]) := by
    rw [longWay, Path.parts_detour]
    rfl
  have directory : "." :: (List.replicate n "." ++ ["d"]) =
    List.replicate (n + 1) "." ++ Path.parts "d" := rfl
  rw [Path.parent?_of_parts parts rfl rfl, directory, Path.ofParts_points]

theorem find_longWay {fs : Files} {n : Nat} (kept : crossing.files.KeepsDirectories fs)
    (short : 2 * n + 8 ≤ Files.pathLimit) :
    fs.find [] (Path.detour n "d") = .ok (["d"], .directory) := by
  have plain : crossing.files.resolve [] "d" = .ok ["d"] := rfl
  have size : "d".utf8ByteSize = 1 := rfl
  have there : crossing.files.node? ["d"] = some .directory := rfl
  have reached : fs.resolve [] (Path.detour n "d") = .ok ["d"] := by
    rw [Files.resolve_detour rfl (by decide) (by decide) (by decide) n (by omega)]
    exact kept.resolve plain
  rw [Files.find_of_resolve reached, kept _ there]

theorem save_longWay {n : Nat} (kept : crossing.files.KeepsDirectories m.files)
    (start : m.current = []) (short : 2 * (n + 1) + 8 ≤ Files.pathLimit)
    (long : Files.pathLimit < 2 * (n + 1) + 12) (f : SessionFile) :
    run (SessionFile.save (longWay (n + 1)) f) m =
      (.error (.stageSession .invalidFilename), m) := by
  have found : m.files.find m.current (Path.detour (n + 1) "d") = .ok (["d"], .directory) := by
    rw [start]
    exact find_longWay kept short
  have given : (Path.detour (n + 1) "d").isEmpty = false :=
    String.isEmpty_eq_false_iff.2 (Files.resolve_inv (Files.find_inv found).1).1
  have opened : m.files.find m.current (if (Path.detour (n + 1) "d").isEmpty then "."
      else Path.detour (n + 1) "d") = .ok (["d"], .directory) := by
    rw [given]
    exact found
  have named : (Path.parts (Path.detour (n + 1) "d")).getLast? ≠ some "" := by
    rw [Path.parts_detour, show Path.parts "d" = ["d"] from rfl, List.getLast?_concat]
    decide
  have parent : (Path.parent? (longWay (n + 1))).getD "." = Path.detour (n + 1) "d" := by
    rw [parent?_longWay, Option.getD_some]
  have directories : m.files.makeDirectories m.current
      (Path.ancestors ((Path.parent? (longWay (n + 1))).getD ".")) = (.ok (), m.files) := by
    rw [parent]
    exact Files.makeDirectories_there found named
  rw [SessionFile.run_save directories, parent, Files.replaceText_long opened]
  have relative : (Path.detour (n + 1) "d").toList.head? ≠ some '/' := by
    rw [Path.detour, String.toList_append]
    exact fun first => absurd (Option.some.inj first) (by decide)
  have inner := Path.le_utf8ByteSize_join relative ("/" ++ Path.ofParts m.current)
  have plain : Files.stagedName.toList.head? ≠ some '/' := by decide
  have outer := Path.le_utf8ByteSize_join plain
    (Path.join ("/" ++ Path.ofParts m.current) (Path.detour (n + 1) "d"))
  have name : Files.stagedName.utf8ByteSize = 10 := rfl
  have size : "d".utf8ByteSize = 1 := rfl
  rw [Path.utf8ByteSize_detour, String.utf8ByteSize_append] at inner
  have root : "/".utf8ByteSize = 1 := rfl
  rw [Files.stagedPath]
  omega

theorem run_saveDraft {store : Store} {saved : Draft}
    (kept : run (store.save s.draft) m = (.ok saved, m')) :
    run (StoreCommand.saveDraft store s) m = (.ok (saved, s.markPersisted saved), m') := by
  rw [StoreCommand.saveDraft, Memory.run_bind, Memory.run_adapt, kept]
  rfl

theorem run_save_unwritten {store : Store} {saved : Draft} {directory : Option String}
    {pretty : Bool} {m₁ m₂ : Memory} (opened : run (storeIn directory) m = (.ok store, m₁))
    (loaded : run (SessionFile.load path) m₁ = (.ok f, m₁))
    (kept : run (store.save f.session.draft) m₁ = (.ok saved, m₂))
    (refused : run (SessionFile.save path { f with session := f.session.markPersisted saved }) m₂ =
      (.error e, m')) :
    run ((Invocation.store (.save path directory)).run pretty) m = (.error e, m') := by
  have unsaved : run (SessionFile.modify path (StoreCommand.saveDraft store)) m₁ =
      (.error e, m') := by
    rw [SessionFile.modify, Memory.run_bind, loaded]
    dsimp only
    rw [Memory.run_bind, run_saveDraft kept]
    dsimp only
    rw [Memory.run_bind, refused]
  rw [Invocation.run, StoreCommand.run, Memory.run_bind, opened]
  dsimp only
  rw [Memory.run_bind, unsaved]

theorem run_storeIn {directory : String} {place : List String}
    (found : m.files.find m.current directory = .ok (place, .directory))
    (named : (Path.parts directory).getLast? ≠ some "") :
    run (storeIn (some directory)) m = (.ok ⟨directory⟩, m) := by
  have there : m.files.makeDirectories m.current (Path.ancestors directory) = (.ok (), m.files) :=
    Files.makeDirectories_there found named
  have made : run (Store.inDirectory (m := StateM Memory) directory) m = (.ok ⟨directory⟩, m) := by
    rw [Store.inDirectory, Memory.run_bind, Memory.run_during]
    simp only [Host.makeDirectories, there]
    rfl
  rw [storeIn, Memory.run_bind, Memory.run_pure]
  dsimp only
  rw [Memory.run_adapt]
  show ((run (Store.inDirectory directory) m).1.mapError Failure.openStore,
    (run (Store.inDirectory directory) m).2) = _
  rw [made]
  rfl

theorem get_crossing :
    run (Store.shelf.get "x") crossing = (.ok (Record.plain "t" ""), crossing) := by
  have lies : Store.shelf.LiesAt ["d"] crossing := rfl
  have name : Store.fileName "x" = "x.json" := rfl
  have here : crossing.files.node? (["d"] ++ [Store.fileName "x"]) =
      some (.file (Record.plain "t" "").encode.pretty) := by
    rw [name]
    exact node?_record
  exact Store.get_of_readsBack lies (by decide) (by decide) here (Record.readsBack_plain "t" "")

def crossedOver : Memory :=
  { Store.ticked crossing with
    files := crossing.files.put ["d", "t.json"] (.file (Record.plain "t" "").encode.pretty) }

theorem save_crossing : run (Store.shelf.save crossed.session.draft) crossing =
    (.ok (Record.plain "t" "").toDraft, crossedOver) := by
  have lies : Store.shelf.LiesAt ["d"] crossing := rfl
  have stages : Store.shelf.Stages crossing := by
    have room : (Files.stagedPath [] "d").utf8ByteSize ≤ Files.pathLimit := by decide
    exact room
  have own := Record.id_plain "t" ""
  have bare : crossing.files.node? (["d"] ++ [Store.fileName (Record.plain "t" "").id]) ≠
      some .directory := by
    rw [own]
    show crossing.files.node? ["d", "t.json"] ≠ some .directory
    rw [node?_session]
    rintro ⟨⟩
  have done := Store.update_ok lies stages get_crossing (by decide) (by decide) bare
    crossed.session.draft.modules crossed.session.draft.customName
  have same : Store.updated (Record.plain "t" "") crossed.session.draft.modules
    crossed.session.draft.customName (Store.time crossing) = Record.plain "t" "" := rfl
  rw [same] at done
  exact Store.run_save rfl done

/-- On a long way to the session file the save of its test puts the record in the place of the file,
and then it cannot write the session there. -/
theorem save_loses_session {n : Nat} (short : 2 * (n + 1) + 8 ≤ Files.pathLimit)
    (long : Files.pathLimit < 2 * (n + 1) + 12) :
    run ((Invocation.store (.save (longWay (n + 1)) (some "d"))).run false) crossing =
        (.error (.stageSession .invalidFilename), crossedOver) ∧
      crossedOver.files.readText crossedOver.current (longWay (n + 1)) =
        .ok (Record.plain "t" "").encode.pretty := by
  have opened : run (storeIn (some "d")) crossing = (.ok Store.shelf, crossing) :=
    run_storeIn rfl (by decide)
  have bare : crossing.files.node? ["d", "t.json"] ≠ some .directory := by
    rw [node?_session]
    rintro ⟨⟩
  have kept : crossing.files.KeepsDirectories crossedOver.files :=
    Files.KeepsDirectories.put (List.cons_ne_nil _ _) bare
  have refused := save_longWay kept rfl short long
    { crossed with session := crossed.session.markPersisted (Record.plain "t" "").toDraft }
  constructor
  · exact run_save_unwritten opened (load_longWay short) save_crossing refused
  · have files : crossedOver.files =
      crossing.files.put ["d", "t.json"] (.file (Record.plain "t" "").encode.pretty) := rfl
    have start : crossedOver.current = [] := rfl
    rw [files, start]
    exact Files.readText_put (resolve_longWay short) bare

/-- So the session is lost by a command that fails. -/
theorem failed_save_overwrites_session :
    ∃ path text m' e, OnSession (.store (.save path (some "d"))) path ∧
      crossing.files.readText crossing.current path = .ok crossed.encode.pretty ∧
      run ((Invocation.store (.save path (some "d"))).run false) crossing = (.error e, m') ∧
      m'.files.readText m'.current path = .ok text ∧ text ≠ crossed.encode.pretty := by
  have short : 2 * (2042 + 1) + 8 ≤ Files.pathLimit := by decide
  have long : Files.pathLimit < 2 * (2042 + 1) + 12 := by decide
  obtain ⟨failed, left⟩ := save_loses_session short long
  have read := Files.readText_of_node (resolve_longWay short) node?_session
  refine ⟨_, _, _, _, .save _ _, read, failed, left, fun same => ?_⟩
  have letters := congrArg (fun text => text.toList[5]?) same
  have first : (Json.prettyChars 0 (Record.plain "t" "").encode)[5]? = some 'i' := rfl
  have second : (Json.prettyChars 0 crossed.encode)[5]? = some 'v' := rfl
  simp only [Json.pretty, String.toList_ofList, first, second] at letters
  exact absurd letters (by decide)

end Fixture.CommandLine
