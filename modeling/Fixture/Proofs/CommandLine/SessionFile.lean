import Fixture.CommandLine.SessionFile
import Fixture.Proofs.Host.Tree
import Fixture.Proofs.Session.Numbers
import Fixture.Proofs.Session.Room

/-!
Session files that were written. A file can be read again if what it holds is not nested too deep.
-/

namespace Fixture.CommandLine

open Json
open Memory (run)
open Number (Bounded)

namespace SessionFile

variable {f : SessionFile} {m m' : Memory} {path : String}

theorem accepts (f : SessionFile) :
    decode.Accepts f.encode { f with session := f.session.stored } := by
  refine Decoder.accepts_record (by simp [Distinct]) fun p offers => ?_
  rw [offers.required "version" (Decoder.accepts_word f.version),
    offers.required "createdAt" (Decoder.accepts_text f.createdAt),
    offers.required "session" f.session.accepts]
  · rfl
  all_goals simp

theorem bounds (f : SessionFile) : decode.Bounds f.encode := by
  refine Decoder.bounds_record fun nests built => ?_
  simp only [Part.seq_ok, Part.map_ok] at built
  obtain ⟨_, ⟨_, ⟨_, -, rfl⟩, _, -, rfl⟩, _, session, rfl⟩ := built
  simp only [List.forall_mem_cons]
  exact ⟨nests.flat rfl, nests.flat rfl,
    nests.required session f.session.bounds (by simp) (by simp), nofun⟩

theorem rereads (values : f.session.Values (Numbers Bounded)) :
    Rereads f.encode (encode { f with session := f.session.reread }) :=
  .obj (.cons _ (.word (f.version.toNat_lt.trans (by decide))) (.cons _ (.str _)
    (.cons _ (Session.rereads values) .nil)))

def reread (f : SessionFile) : SessionFile := { f with session := f.session.reread.stored }

/-- A file in the form of the current version, all of whose values can be read back. -/
structure Sound (f : SessionFile) : Prop where
  version : f.version = currentVersion
  values : f.session.Values (Numbers Bounded)

theorem Sound.ofText_pretty (sound : f.Sound) (shallow : f.encode.depth ≤ Document.maxDepth)
    (path : String) : ofText path f.encode.pretty = .ok f.reread := by
  have rereads := SessionFile.rereads sound.values
  have depth : 0 + (encode { f with session := f.session.reread }).depth ≤ Document.maxDepth := by
    rw [← rereads.read, depth_mapNumbers, Nat.zero_add]
    exact shallow
  have decoded : decode.ofText f.encode.pretty = .ok f.reread := by
    rw [Decoder.ofText, Document.ofText_pretty rereads.bounded, rereads.read,
      Document.nested_eq_ofJson depth]
    simp only [accepts _ .text _ .written]
    rfl
  rw [ofText, decoded]
  exact if_pos sound.version

/-- What is nested too deep is refused. -/
theorem Sound.ofText_pretty_deep (sound : f.Sound) (deep : Document.maxDepth < f.encode.depth)
    (path : String) : ∃ e, ofText path f.encode.pretty = .error (.parseSession path e) := by
  have rereads := SessionFile.rereads sound.values
  cases decoded : decode.ofText f.encode.pretty with
  | error e =>
    refine ⟨e, ?_⟩
    rw [ofText, decoded]
  | ok g =>
    have inside := Decoder.ofText_ok decoded
    rw [Document.ofText_pretty rereads.bounded, rereads.read] at inside
    have room := bounds { f with session := f.session.reread } 0 g (Nat.zero_le _) inside
    rw [← rereads.read, depth_mapNumbers, Nat.zero_add] at room
    exact absurd room (not_le_of_gt deep)

/-- Whatever text is read, what it holds can be written and read again. -/
theorem sound_of_ofText {text : String} (read : ofText path text = .ok f) : f.Sound := by
  unfold ofText at read
  split at read
  · cases read
  next g decoded =>
    split at read
    next current =>
      obtain rfl := Except.ok.inj read
      obtain ⟨p, -, parts, built⟩ := Decoder.record_ok (Decoder.ofText_ok decoded)
      simp only [Part.seq_ok, Part.map_ok] at built
      obtain ⟨_, ⟨_, ⟨_, -, rfl⟩, _, -, rfl⟩, s, last, rfl⟩ := built
      obtain ⟨d, inside, decoded⟩ := Parts.required_ok parts last
      have numbers := (Document.numbers_ofText text).within inside
      exact ⟨current, Session.numbers_of_decode numbers decoded⟩
    · cases read

/-! ## In memory -/

structure IsAt (f : SessionFile) (path : String) (m : Memory) : Prop where
  text : m.files.readText m.current path = .ok f.encode.pretty
  sound : f.Sound

theorem IsAt.load_eq (here : f.IsAt path m) :
    run (load path) m = (ofText path f.encode.pretty, m) := by
  have read : run (Host.during (Failure.readSession path) (Host.readText path)) m =
      (.ok f.encode.pretty, m) := by
    rw [Memory.run_during]
    exact Prod.ext (congrArg (Except.mapError (Failure.readSession path)) here.text) rfl
  rw [load, Memory.run_bind, read]
  simp only [Memory.run_lift]

theorem IsAt.load (here : f.IsAt path m) (shallow : f.encode.depth ≤ Document.maxDepth) :
    run (load path) m = (.ok f.reread, m) := by
  rw [here.load_eq, here.sound.ofText_pretty shallow]

theorem IsAt.load_deep (here : f.IsAt path m) (deep : Document.maxDepth < f.encode.depth) :
    ∃ e, run (SessionFile.load path) m = (.error (.parseSession path e), m) := by
  obtain ⟨e, refused⟩ := here.sound.ofText_pretty_deep deep path
  exact ⟨e, by rw [here.load_eq, refused]⟩

theorem load_inv (loaded : run (load path) m = (.ok f, m')) : f.Sound ∧ m' = m := by
  obtain ⟨text, m₁, first, rest⟩ := Memory.bind_ok loaded
  obtain ⟨-, rfl⟩ := Prod.mk.inj first
  obtain ⟨read, rfl⟩ := Prod.mk.inj rest
  exact ⟨sound_of_ofText read, rfl⟩

theorem run_save {made : Files}
    (directories : m.files.makeDirectories m.current
      (Path.ancestors ((Path.parent? path).getD ".")) = (.ok (), made)) :
    run (save path f) m =
      match made.replaceText m.current ((Path.parent? path).getD ".") path f.encode.pretty with
      | .ok placed => (.ok (), { m with files := placed })
      | .error (.staging e) => (.error (.stageSession e), { m with files := made })
      | .error (.placing e) => (.error (.persistSession path e), { m with files := made }) := by
  have first : run (Host.during (Failure.makeSessionDirectory ((Path.parent? path).getD "."))
      (Host.makeDirectories (m := StateM Memory) ((Path.parent? path).getD "."))) m =
      (.ok (), { m with files := made }) := by
    rw [Memory.run_during]
    simp only [Host.makeDirectories, directories]
    rfl
  rw [save, Memory.run_bind, first]
  simp only [Memory.run_during, Host.replaceText]
  rcases made.replaceText m.current ((Path.parent? path).getD ".") path f.encode.pretty with
    (_ | _) | _ <;> rfl

theorem save_ok {made placed : Files}
    (directories : m.files.makeDirectories m.current
      (Path.ancestors ((Path.parent? path).getD ".")) = (.ok (), made))
    (replaced : made.replaceText m.current ((Path.parent? path).getD ".") path f.encode.pretty =
      .ok placed) :
    run (save path f) m = (.ok (), { m with files := placed }) := by
  rw [run_save directories, replaced]

theorem save_inv (saved : run (save path f) m = (.ok (), m')) :
    ∃ made place, m.Makes { m with files := made } ∧ made.resolve m.current path = .ok place ∧
      made.node? place ≠ some .directory ∧
      m' = { m with files := made.put place (.file f.encode.pretty) } := by
  obtain ⟨_, m₁, made, rest⟩ := Memory.bind_ok saved
  rw [Memory.run_during] at made rest
  obtain ⟨-, rfl⟩ := Prod.mk.inj made
  obtain ⟨outcome, left⟩ := Prod.mk.inj rest
  have makes := Memory.Makes.makeDirectories m (Path.ancestors ((Path.parent? path).getD "."))
  clear rest
  simp only [Host.makeDirectories, Host.replaceText] at outcome left
  generalize (m.files.makeDirectories m.current
    (Path.ancestors ((Path.parent? path).getD "."))).2 = files at makes outcome left
  cases replaced : files.replaceText m.current ((Path.parent? path).getD ".") path
      f.encode.pretty with
  | error e => rw [replaced] at outcome; cases outcome
  | ok placed =>
    rw [replaced] at left
    obtain ⟨place, reached, bare, rfl⟩ := Files.replaceText_inv replaced
    exact ⟨files, place, makes, reached, bare, left.symm⟩

theorem readText_of_save (saved : run (save path f) m = (.ok (), m')) :
    m'.files.readText m'.current path = .ok f.encode.pretty := by
  obtain ⟨made, place, -, reached, bare, rfl⟩ := save_inv saved
  exact Files.readText_put reached bare

theorem isAt_of_save (sound : f.Sound) (saved : run (save path f) m = (.ok (), m')) :
    f.IsAt path m' := ⟨readText_of_save saved, sound⟩

theorem isAt_of_modify {α : Type} {a : α}
    {change : Session → ExceptT Failure (StateM Memory) (α × Session)}
    (kept : ∀ {s t : Session} {m m' : Memory} {a : α}, s.Values (Numbers Bounded) →
      run (change s) m = (.ok (a, t), m') → t.Values (Numbers Bounded))
    (ran : run (modify path change) m = (.ok a, m')) : ∃ f : SessionFile, f.IsAt path m' := by
  obtain ⟨f, m₁, loaded, rest⟩ := Memory.bind_ok ran
  obtain ⟨⟨b, t⟩, m₂, changed, rest⟩ := Memory.bind_ok rest
  obtain ⟨_, m₃, saved, done⟩ := Memory.bind_ok rest
  obtain ⟨-, rfl⟩ := Prod.mk.inj done
  have sound : Sound { f with session := t } :=
    ⟨(load_inv loaded).1.version, kept (load_inv loaded).1.values changed⟩
  exact ⟨_, isAt_of_save sound saved⟩

theorem isAt_of_create {s : Session} {directory : String} (values : s.Values (Numbers Bounded))
    (ran : run (create directory s) m = (.ok path, m')) : ∃ f : SessionFile, f.IsAt path m' := by
  obtain ⟨p, m₁, -, rest⟩ := Memory.bind_ok ran
  obtain ⟨now, m₂, -, rest⟩ := Memory.bind_ok rest
  obtain ⟨_, m₃, saved, done⟩ := Memory.bind_ok rest
  obtain ⟨same, rfl⟩ := Prod.mk.inj done
  obtain rfl := Except.ok.inj same
  exact ⟨_, isAt_of_save ⟨rfl, values⟩ saved⟩

end SessionFile

end Fixture.CommandLine
