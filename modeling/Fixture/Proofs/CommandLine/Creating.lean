import Fixture.Proofs.CommandLine.Flatten
import Fixture.Proofs.CommandLine.Unchanged

/-!
Making of new files. The name of a new record or of a new session file is one that no file in the
directory has, and so nothing is written over. For a session file it must be known where the path of
the directory leads before the directory is made.
-/

namespace Fixture

open Json.Decoder (Reads)
open Memory (run Makes Making)
open Store (fileName isValidId numberedId time ticked)

variable {m m' : Memory}

/-! ## New records -/

namespace Store

variable {s : Store} {r : Record}

theorem findsFree_nextId (s : Store) (ordinary : (time m).HasFourDigitYear) :
    ∃ n, FindsFree m s.directory (fun n => fileName (numberedId (time m) n)) n ∧
      run s.nextId m = (.ok (numberedId (time m) n), ticked m) ∧
      isValidId (numberedId (time m) n) = true := by
  have valid (n : Nat) : isValidId (numberedId (time m) n) = true := isValidId_numberedId ordinary n
  have distinct : Function.Injective fun n => fileName (numberedId (time m) (n + 1)) :=
    (fileName_injective.comp (numberedId_injective (time m))).comp Nat.succ_injective
  have uses : (fun n => s.Uses m (numberedId (time m) n)) = fun n =>
      m.files.isTaken m.current (Path.join s.directory (fileName (numberedId (time m) n))) :=
    funext fun n => uses_of_valid (valid n)
  refine ⟨s.freshNumber m, ?_, ?_, valid _⟩
  · rw [freshNumber, uses]
    exact findsFree m s.directory (fun n => isName_fileName (valid n)) distinct
  · rcases run_nextId s m with given | ⟨invalid, -⟩
    · exact given
    · rw [freshId, valid] at invalid
      cases invalid

theorem create_inv {n : NewRecord} (created : run (s.create n) m = (.ok r, m')) :
    ∃ place, m.files.resolve m.current (s.pathOf r.id) = .ok place ∧
      m.files.node? place = none ∧ m'.files = m.files.put place (.file r.encode.pretty) := by
  rw [run_create] at created
  obtain ⟨outcome, left⟩ := Prod.mk.inj created
  have own := id_toRecord n (s.freshId (ticked m)) (time m)
  generalize n.toRecord (s.freshId (ticked m)) (time m) = new at outcome left own
  cases result : (run (s.write new) (ticked (ticked m))).1 with
  | error e => rw [result] at outcome; cases outcome
  | ok _ =>
    rw [result] at outcome
    obtain rfl := Except.ok.inj outcome
    obtain ⟨valid, place, reached, bare, rfl⟩ := write_inv (Prod.ext result left)
    refine ⟨place, reached, Files.free_of_isTaken reached ?_, rfl⟩
    have unused := freshId_unused s (ticked m)
    rwa [← own, uses_of_valid valid] at unused

end Store

/-! ## New session files -/

namespace CommandLine

namespace SessionFile

def stem (now : Timestamp) (processId n : Nat) : String :=
  namePrefix ++ now.toStamp ++ "-" ++ toString processId ++
    (if n ≤ 1 then "" else "-" ++ toString n)

theorem numberedName_eq (now : Timestamp) (processId n : Nat) :
    numberedName now processId n = fileName (stem now processId n) := rfl

theorem toList_stem (now : Timestamp) (processId n : Nat) : (stem now processId n).toList =
    ['d', 'r', 'a', 'f', 't', '-'] ++ now.toStamp.toList ++ ['-'] ++ Nat.toDigits 10 processId ++
      if n ≤ 1 then [] else '-' :: Nat.toDigits 10 n := by
  by_cases first : n ≤ 1 <;>
    simp [stem, namePrefix, first, Nat.repr_eq_ofList_toDigits]

theorem isName_numberedName {now : Timestamp} (ordinary : now.HasFourDigitYear)
    (processId n : Nat) : Path.IsName (numberedName now processId n) := by
  rw [numberedName_eq]
  refine Store.isName_fileName (Store.isValidId_iff.2 ?_)
  rw [toList_stem]
  refine ⟨by simp, fun c member => ?_⟩
  simp only [List.mem_append, List.mem_cons, List.not_mem_nil, or_false] at member
  rcases member with (((letter | stamp) | rfl) | number) | suffix
  · rcases letter with rfl | rfl | rfl | rfl | rfl | rfl <;> decide
  · exact Store.isIdChar_of_mem_toStamp ordinary stamp
  · decide
  · exact Store.isIdChar_of_mem_toDigits number
  · split at suffix
    · cases suffix
    · rcases List.mem_cons.1 suffix with rfl | number
      · decide
      · exact Store.isIdChar_of_mem_toDigits number

theorem numberedName_injective (now : Timestamp) (processId : Nat) :
    Function.Injective fun n => numberedName now processId (n + 1) := by
  intro i j same
  have stems : stem now processId (i + 1) = stem now processId (j + 1) :=
    Store.fileName_injective same
  have texts := congrArg String.toList stems
  rw [toList_stem, toList_stem] at texts
  have suffixes := List.append_cancel_left texts
  split at suffixes
  · split at suffixes
    · omega
    · cases suffixes
  · split at suffixes
    · cases suffixes
    · have digits := (List.cons.inj suffixes).2
      have numbers : i + 1 = j + 1 := by
        rw [← Nat.ofDigitChars_ten_toDigits (n := i + 1), digits, Nat.ofDigitChars_ten_toDigits]
      exact Nat.succ.inj numbers

variable {directory path : String} {s : Session}

theorem run_newPath (directory : String) (m : Memory) :
    (newPath directory : StateM Memory String) m =
      (Path.join directory (numberedName (time m) m.processId (freeNumber
        (fun n => m.files.isTaken m.current
          (Path.join directory (numberedName (time m) m.processId n)))
        (m.files.nodes.length + 1))), ticked m) := by
  have now : (Host.now : StateM Memory Timestamp) m = (time m, ticked m) := rfl
  have process : (Host.processId : StateM Memory Nat) (ticked m) = (m.processId, ticked m) := rfl
  have bound : (Host.nameBound : StateM Memory Nat) (ticked m) =
      (m.files.nodes.length + 1, ticked m) := rfl
  have looked := firstFree_memory (m := ticked m)
    (fun n => Host.isTaken (Path.join directory (numberedName (time m) m.processId n)))
    (fun n => m.files.isTaken m.current
      (Path.join directory (numberedName (time m) m.processId n)))
    (fun n => rfl) (m.files.nodes.length + 1) 1
  rw [newPath, Memory.bind_apply, now, Memory.bind_apply, process, Memory.bind_apply, bound,
    Memory.bind_apply, looked, freeNumber]
  rfl

theorem findsFree_newPath (directory : String) (ordinary : (time m).HasFourDigitYear) :
    ∃ n, FindsFree m directory (numberedName (time m) m.processId) n ∧
      (newPath directory : StateM Memory String) m =
        (Path.join directory (numberedName (time m) m.processId n), ticked m) :=
  ⟨_, findsFree m directory (isName_numberedName ordinary m.processId)
    (numberedName_injective _ _), run_newPath directory m⟩

theorem run_create {m₁ : Memory}
    (looked : (newPath directory : StateM Memory String) m = (path, m₁)) :
    run (create directory s) m =
      ((run (save path (ofSession s (time m₁))) (ticked m₁)).1.map fun _ => path,
        (run (save path (ofSession s (time m₁))) (ticked m₁)).2) := by
  rw [create, Memory.run_bind, Memory.run_always, looked]
  dsimp only
  rw [Memory.run_bind, Store.run_now]
  dsimp only
  rw [Memory.run_bind]
  generalize run (save path (ofSession s (time m₁))) (ticked m₁) = saved
  obtain ⟨_ | _, m'⟩ := saved <;> rfl

theorem create_inv (ordinary : (time m).HasFourDigitYear) (tree : m.files.IsTree)
    (foreseen : m.files.Foresees m.current directory)
    (created : run (create directory s) m = (.ok path, m')) :
    ∃ n made place, path = Path.join directory (numberedName (time m) m.processId n) ∧
      m.files.OnlyDirectories made ∧ made.node? place = none ∧
      m'.files.resolve m'.current path = .ok place ∧
      m'.files = made.put place (.file (ofSession s (time (ticked m))).encode.pretty) := by
  obtain ⟨n, found, looked⟩ := findsFree_newPath directory ordinary
  rw [run_create looked] at created
  obtain ⟨outcome, left⟩ := Prod.mk.inj created
  cases result : (run (save (Path.join directory (numberedName (time m) m.processId n))
      (ofSession s (time (ticked m)))) (ticked (ticked m))).1 with
  | error e => rw [result] at outcome; cases outcome
  | ok _ =>
    rw [result] at outcome
    obtain rfl := Except.ok.inj outcome
    obtain ⟨made, place, makes, reached, bare, rfl⟩ := save_inv (Prod.ext result left)
    have free := tree.free_made makes.only (isName_numberedName ordinary m.processId n) foreseen
      (Bool.eq_false_iff.2 found.search.free) reached bare
    have below : place ≠ [] := Files.below_of_free free
    exact ⟨n, made, place, rfl, makes.only, free,
      (Files.KeepsDirectories.put below bare).resolve reached, rfl⟩

end SessionFile

/-! ## Commands that make session files -/

/-- The commands that make a session file, with the directory that is given for it. -/
inductive Creates : SessionCommand → Option String → Prop where
  | new (function : String) (name directory : Option String) :
    Creates (.new function name directory) directory
  | load (function id : String) (storeDirectory directory : Option String) :
    Creates (.load function id storeDirectory directory) directory

theorem making_functionOf (path : String) :
    Making (functionOf path : ExceptT Failure (StateM Memory) AnalyzedFunction) := by
  refine Making.bind ?_ fun _ => Memory.making_lift _
  rw [textOf, inputText]
  split <;> exact Memory.making_during _ fun _ => rfl

theorem making_get (store : Store) (id : String) :
    Making ((store.get id).adapt (Failure.loadTest id) :
      ExceptT Failure (StateM Memory) Record) := by
  intro m
  rw [Memory.run_adapt, Store.get_keeps]
  exact .refl m

theorem run_sessionDirectory (directory : Option String) (m : Memory) :
    run (liftM (sessionDirectory (m := StateM Memory) directory) :
      ExceptT Failure (StateM Memory) String) m =
        (.ok (directory.getD m.temporaryDirectory), m) := by
  cases directory <;> rfl

theorem creates_inv {c : SessionCommand} {given : Option String} {pretty : Bool} {output : String}
    (creates : Creates c given) (ran : run (c.run pretty) m = (.ok output, m')) :
    ∃ m₁ s path, m.Makes m₁ ∧ output = line path ∧
      run (SessionFile.create (given.getD m.temporaryDirectory) s) m₁ = (.ok path, m') := by
  have last {m₁ : Memory} {s : Session} (makes : m.Makes m₁)
      (done : run (do
        let path ← SessionFile.create (← sessionDirectory (m := StateM Memory) given) s
        return line path) m₁ = (.ok output, m')) :
      ∃ m₁ s path, m.Makes m₁ ∧ output = line path ∧
        run (SessionFile.create (given.getD m.temporaryDirectory) s) m₁ = (.ok path, m') := by
    rw [Memory.run_bind, run_sessionDirectory, makes.temporaryDirectory] at done
    obtain ⟨path, m₂, created, rest⟩ := Memory.bind_ok done
    obtain ⟨same, rfl⟩ := Prod.mk.inj rest
    obtain rfl := Except.ok.inj same
    exact ⟨m₁, s, path, makes, rfl, created⟩
  cases creates with
  | new function name =>
    rw [SessionCommand.run] at ran
    obtain ⟨f, m₁, read, rest⟩ := (making_functionOf function).bind_ok ran
    cases name with
    | some name =>
      obtain ⟨s, m₂, named, rest⟩ :=
        (Memory.making_lift (asked ((Session.fresh f).run (.rename name)))).bind_ok rest
      exact last (read.trans named) rest
    | none =>
      obtain ⟨s, m₂, named, rest⟩ := (Memory.making_pure (Session.fresh f)).bind_ok rest
      exact last (read.trans named) rest
  | load function id storeDirectory =>
    rw [SessionCommand.run] at ran
    obtain ⟨store, m₁, opened, rest⟩ := (making_storeIn storeDirectory).bind_ok ran
    obtain ⟨f, m₂, read, rest⟩ := (making_functionOf function).bind_ok rest
    obtain ⟨r, m₃, got, rest⟩ := (making_get store id).bind_ok rest
    obtain ⟨_, m₄, checked, rest⟩ := (Memory.making_lift (checkFunction r f id)).bind_ok rest
    exact last (((opened.trans read).trans got).trans checked) rest

/-- Creating overwrites nothing. The search for a name ends, after one try more than there are names
in the directory at most, at a number that fits into 32 bits, and the name is not in the directory;
as an id it is valid. Whatever is made then is put where nothing was. For a session file this needs
a directory whose path goes up only where there is a way already: the name is looked for before the
directory is made, and the path may lead elsewhere then. -/
theorem creating_overwrites_nothing (ordinary : ∀ k, (m.clock k).HasFourDigitYear)
    (tree : m.files.IsTree) :
    (∀ directory : String, (m.files.entries m.current directory).length < 2 ^ 31 →
      (∃ n, FindsFree m directory (fun n => fileName (numberedId (time m) n)) n ∧ n + 1 < 2 ^ 32 ∧
        run (Store.nextId ⟨directory⟩) m = (.ok (numberedId (time m) n), ticked m) ∧
        isValidId (numberedId (time m) n) = true) ∧
      ∃ n, FindsFree m directory (SessionFile.numberedName (time m) m.processId) n ∧
        n + 1 < 2 ^ 32 ∧
        (SessionFile.newPath directory : StateM Memory String) m =
          (Path.join directory (SessionFile.numberedName (time m) m.processId n), ticked m)) ∧
    (∀ (s : Store) (new : NewRecord) (r : Record) (m' : Memory),
      run (s.create new) m = (.ok r, m') →
      ∃ place, m.files.resolve m.current (s.pathOf r.id) = .ok place ∧
        m.files.node? place = none ∧ m'.files = m.files.put place (.file r.encode.pretty)) ∧
    ∀ (c : SessionCommand) (given : Option String) (pretty : Bool) (output : String) (m' : Memory),
      Creates c given → m.files.Foresees m.current (given.getD m.temporaryDirectory) →
      run (c.run pretty) m = (.ok output, m') →
      ∃ n path place s, output = line path ∧
        path = Path.join (given.getD m.temporaryDirectory)
          (SessionFile.numberedName (time m) m.processId n) ∧
        m'.files.resolve m'.current path = .ok place ∧
        m.files.AddsFile place (SessionFile.ofSession s (time (ticked m))).encode.pretty
          m'.files := by
  refine ⟨fun directory few => ⟨?_, ?_⟩, fun s new r m' => Store.create_inv, ?_⟩
  · obtain ⟨n, found, given, valid⟩ := Store.findsFree_nextId ⟨directory⟩ (ordinary m.readings)
    have tries := found.tries
    exact ⟨n, found, by dsimp only at tries; omega, given, valid⟩
  · obtain ⟨n, found, given⟩ := SessionFile.findsFree_newPath directory (ordinary m.readings)
    have tries := found.tries
    exact ⟨n, found, by omega, given⟩
  · intro c given pretty output m' creates foreseen ran
    obtain ⟨m₁, s, path, makes, rfl, created⟩ := creates_inv creates ran
    obtain ⟨now, later, processId⟩ : time m₁ = time m ∧ time (ticked m₁) = time (ticked m) ∧
        m₁.processId = m.processId := by
      rw [makes.same]
      exact ⟨rfl, rfl, rfl⟩
    have ordinary₁ : (time m₁).HasFourDigitYear := now ▸ ordinary m.readings
    have foreseen₁ : m₁.files.Foresees m₁.current (given.getD m.temporaryDirectory) := by
      rw [makes.current]
      exact makes.only.foresees foreseen
    obtain ⟨n, made, place, named, only, free, reached, left⟩ :=
      SessionFile.create_inv ordinary₁ (makes.tree tree) foreseen₁ created
    rw [now, processId] at named
    refine ⟨n, path, place, s, rfl, named, reached, ?_⟩
    rw [left, later]
    exact .of_put (makes.only.trans only) free

/-! ## A directory that is reached by going up -/

theorem run_functionOf {text : String} {f : AnalyzedFunction}
    (given : run (textOf path) m = (.ok text, m')) (reads : Reads AnalyzedFunction.decode text f) :
    run (functionOf path) m = (.ok f, m') := by
  rw [functionOf, Memory.run_bind, given]
  simp only [reads.2, Memory.run_lift, Except.mapError]

theorem run_new {function directory : String} {f : AnalyzedFunction} {m₁ : Memory}
    (read : run (functionOf function) m = (.ok f, m))
    (looked : (SessionFile.newPath directory : StateM Memory String) m = (path, m₁))
    (saved : run (SessionFile.save path (.ofSession (.fresh f) (time m₁))) (ticked m₁) =
      (.ok (), m')) (pretty : Bool) :
    run ((SessionCommand.new function none (some directory)).run pretty) m =
      (.ok (line path), m') := by
  rw [SessionCommand.run, Memory.run_bind, read]
  dsimp only
  rw [Memory.run_bind, Memory.run_pure]
  dsimp only
  rw [Memory.run_bind, run_sessionDirectory]
  dsimp only [Option.getD_some]
  rw [Memory.run_bind, SessionFile.run_create looked, saved]
  rfl

/-- A directory with a session file in it, next to a function. -/
def crowded : Memory where
  files := { nodes := [
    (["f.json"], .file swapped.encode.pretty),
    (["d"], .directory),
    (["d", "draft-20240101T000000-1.json"], .file "")] }
  clock := fun _ => newYear

theorem isTree_crowded : crowded.files.IsTree := Files.isTree_of_nodes (by decide)

theorem run_functionOf_crowded :
    run (functionOf "f.json") crowded = (.ok swapped, crowded) := by
  have given : run (textOf "f.json") crowded = (.ok swapped.encode.pretty, crowded) := rfl
  exact run_functionOf given (swapped.accepts.reads swapped.rereads (by decide))

def crowdedFile : SessionFile := .ofSession (.fresh swapped) newYear

theorem numberedName_crowded :
    SessionFile.numberedName newYear 1 1 = "draft-20240101T000000-1.json" := rfl

theorem run_newPath_crowded {directory : String}
    (missing : crowded.files.directory? [] directory = none) :
    (SessionFile.newPath directory : StateM Memory String) crowded =
      (Path.join directory (SessionFile.numberedName newYear 1 1), ticked crowded) := by
  have free : crowded.files.isTaken []
      (Path.join directory (SessionFile.numberedName newYear 1 1)) = false := by
    refine Bool.eq_false_iff.2 fun taken => ?_
    have listed := Files.mem_entries_of_isTaken
      (SessionFile.isName_numberedName ordinary_newYear 1 1) taken
    rw [Files.entries, missing] at listed
    cases listed
  rw [SessionFile.run_newPath, freeNumber_of_free free]
  rfl

theorem run_new_crowded (directory : String) (front place : List String) {last : String}
    {made : Files}
    (missing : crowded.files.directory? [] directory = none)
    (directories : crowded.files.makeDirectories [] (Path.ancestors directory) = (.ok (), made))
    (there : made.find [] directory = .ok (place, .directory))
    (ends : Path.parts directory = front ++ [last]) (busy : Path.isIdle last = false)
    (room : (Files.stagedPath [] directory).utf8ByteSize ≤ Files.pathLimit)
    (fits : Files.Fits directory "draft-20240101T000000-1.json")
    (bare : made.node? (place ++ ["draft-20240101T000000-1.json"]) ≠ some .directory) :
    run ((SessionCommand.new "f.json" none (some directory)).run false) crowded =
      (.ok (line (Path.join directory "draft-20240101T000000-1.json")),
        { ticked (ticked crowded) with
          files := made.put (place ++ ["draft-20240101T000000-1.json"])
            (.file crowdedFile.encode.pretty) }) := by
  have plain := SessionFile.isName_numberedName ordinary_newYear 1 1
  have looked := run_newPath_crowded missing
  rw [numberedName_crowded] at plain looked
  have parent : (Path.parent? (Path.join directory "draft-20240101T000000-1.json")).getD "." =
      directory := by rw [Path.parent?_join ends busy plain, Option.getD_some]
  have replaced :=
    Files.replaceText_join there room plain fits bare crowdedFile.encode.pretty
  rw [← parent] at directories
  nth_rewrite 1 [← parent] at replaced
  exact run_new run_functionOf_crowded looked (SessionFile.save_ok directories replaced) false

theorem creating_overwrites_nothing_crowded : ∃ output m',
    run ((SessionCommand.new "f.json" none (some "a")).run false) crowded = (.ok output, m') ∧
      m'.files.node? ["d", "draft-20240101T000000-1.json"] = some (.file "") ∧
      ∃ place text, crowded.files.AddsFile place text m'.files := by
  have ran := run_new_crowded "a" [] ["a"] rfl rfl rfl rfl rfl
    (by decide +kernel) (by decide +kernel) (by decide +kernel)
  obtain ⟨n, path, place, s, -, -, -, adds⟩ :=
    (creating_overwrites_nothing (fun _ => ordinary_newYear) isTree_crowded).2.2 _ (some "a") _ _ _
      (.new _ _ _) (Files.foresees_of_level (by decide)) ran
  have kept : crowded.files.node? ["d", "draft-20240101T000000-1.json"] = some (.file "") := rfl
  exact ⟨_, _, ran, adds.grows _ _ kept, place, _, adds⟩

/-- With a path that goes up out of a directory that is not there yet, the name is looked for in
vain: the directory that is made then is another one, in which the name is taken. -/
theorem creating_overwrites_by_detour : ∃ output m' text,
    run ((SessionCommand.new "f.json" none (some "a/../d")).run false) crowded = (.ok output, m') ∧
      crowded.files.node? ["d", "draft-20240101T000000-1.json"] = some (.file "") ∧
      m'.files.node? ["d", "draft-20240101T000000-1.json"] = some (.file text) ∧ text ≠ "" := by
  have ran := run_new_crowded "a/../d" ["a", ".."] ["d"] rfl rfl rfl rfl rfl
    (by decide +kernel) (by decide +kernel) (by decide +kernel)
  exact ⟨_, _, crowdedFile.encode.pretty, ran, rfl, rfl, Json.pretty_obj_ne_empty _⟩

end CommandLine

end Fixture
