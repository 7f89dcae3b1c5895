import Fixture.Host.Memory

/-!
Reading what was written. A text that was put in the place of a file is what is read there, by the
same path. An operation in memory that gives a result has done all its steps.
-/

namespace Fixture

namespace Files

variable {fs : Files} {current place : List String} {path : String} {node : Node}

theorem below_of_bare (bare : fs.node? place ≠ some .directory) : place ≠ [] := by
  rintro rfl
  exact bare rfl

theorem below_of_free (free : fs.node? place = none) : place ≠ [] :=
  below_of_bare (by rw [free]; nofun)

theorem here_of_walk {start rest : List String} {part : String}
    (reached : fs.walk start (part :: rest) = .ok place) : fs.node? start = some .directory := by
  rw [walk] at reached
  split at reached
  · cases reached
  · cases reached
  · assumption

/-- What is a directory stays one. Only directories are passed on a way, so every way stays open. -/
def KeepsDirectories (fs fs' : Files) : Prop :=
  ∀ place, fs.node? place = some .directory → fs'.node? place = some .directory

namespace KeepsDirectories

variable {fs' : Files}

theorem refl (fs : Files) : fs.KeepsDirectories fs := fun _ here => here

theorem trans {fs'' : Files} (first : fs.KeepsDirectories fs') (second : fs'.KeepsDirectories fs'') :
    fs.KeepsDirectories fs'' := fun place here => second place (first place here)

theorem put (below : place ≠ []) (bare : fs.node? place ≠ some .directory) :
    fs.KeepsDirectories (fs.put place node) := by
  intro other here
  have elsewhere : other ≠ place := by
    rintro rfl
    exact bare here
  rw [node?_put fs place other node below, if_neg elsewhere, here]

theorem erase (below : place ≠ []) (bare : fs.node? place ≠ some .directory) :
    fs.KeepsDirectories (fs.erase place) := by
  intro other here
  have elsewhere : other ≠ place := by
    rintro rfl
    exact bare here
  rw [node?_erase fs place other below, if_neg elsewhere, here]

theorem walk (kept : fs.KeepsDirectories fs') {start target parts : List String}
    (reached : fs.walk start parts = .ok target) : fs'.walk start parts = .ok target := by
  induction parts generalizing start with
  | nil => exact reached
  | cons part rest ih =>
    have passed : fs.node? start = some .directory := here_of_walk reached
    simp only [Files.walk, passed] at reached
    simp only [Files.walk, kept start passed]
    split
    next idle => exact ih (by rwa [if_pos idle] at reached)
    next named =>
      rw [if_neg named] at reached
      split
      next up => exact ih (by rwa [if_pos up] at reached)
      next down =>
        rw [if_neg down] at reached
        split
        next long => rw [if_pos long] at reached; cases reached
        next fits => exact ih (by rwa [if_neg fits] at reached)

theorem resolve (kept : fs.KeepsDirectories fs') {target : List String}
    (reached : fs.resolve current path = .ok target) : fs'.resolve current path = .ok target := by
  unfold Files.resolve at reached ⊢
  split
  next zero => rw [if_pos zero] at reached; cases reached
  next clean =>
    rw [if_neg clean] at reached
    split
    next empty => rw [if_pos empty] at reached; cases reached
    next some_text =>
      rw [if_neg some_text] at reached
      split
      next long => rw [if_pos long] at reached; cases reached
      next fits =>
        rw [if_neg fits] at reached
        split at reached <;> exact kept.walk reached

end KeepsDirectories

private theorem mapError_ok {ε ε' α : Type} (f : ε → ε') (a : α) :
    (Except.ok a).mapError f = .ok a := rfl

theorem replaceText_inv {directory text : String} {fs' : Files}
    (replaced : fs.replaceText current directory path text = .ok fs') :
    ∃ place, fs.resolve current path = .ok place ∧ fs.node? place ≠ some .directory ∧
      fs' = fs.put place (.file text) := by
  simp only [replaceText, bind, Except.bind] at replaced
  split at replaced
  · cases replaced
  split at replaced
  · cases replaced
  split at replaced
  · cases replaced
  split at replaced
  · cases replaced
  next place resolved =>
    split at replaced
    · cases replaced
    next bare =>
      refine ⟨place, ?_, bare, (Except.ok.inj replaced).symm⟩
      cases reached : fs.resolve current path with
      | error e => rw [reached] at resolved; cases resolved
      | ok target =>
        rw [reached] at resolved
        exact congrArg Except.ok (Except.ok.inj resolved)

theorem remove_inv {fs' : Files} (removed : fs.remove current path = .ok fs') :
    ∃ place, fs.resolve current path = .ok place ∧ fs.node? place ≠ some .directory ∧
      fs' = fs.erase place := by
  unfold remove find at removed
  cases reached : fs.resolve current path with
  | error e => rw [reached] at removed; cases removed
  | ok place =>
    rw [reached] at removed
    simp only [bind, Except.bind] at removed
    cases here : fs.node? place with
    | none => rw [here] at removed; cases removed
    | some node =>
      rw [here] at removed
      cases node with
      | directory => cases removed
      | file text => exact ⟨place, rfl, by simp [here], (Except.ok.inj removed).symm⟩

/-- A text is set aside in a directory that is there. -/
theorem find_of_replaceText {directory text : String} {fs' : Files}
    (replaced : fs.replaceText current directory path text = .ok fs') :
    ∃ start, fs.find current (if directory.isEmpty then "." else directory) =
      .ok (start, .directory) := by
  unfold replaceText at replaced
  cases found : fs.find current (if directory.isEmpty then "." else directory) with
  | error e => rw [found] at replaced; cases replaced
  | ok there =>
    obtain ⟨start, node⟩ := there
    cases node with
    | file held => rw [found] at replaced; cases replaced
    | directory => exact ⟨start, rfl⟩

theorem room_of_replaceText {directory text : String} {fs' : Files}
    (replaced : fs.replaceText current directory path text = .ok fs') :
    (stagedPath current directory).utf8ByteSize ≤ pathLimit := by
  obtain ⟨start, found⟩ := find_of_replaceText replaced
  unfold replaceText at replaced
  rw [found] at replaced
  refine Nat.not_lt.1 fun long => ?_
  simp only [mapError_ok, if_pos long, bind, Except.bind] at replaced
  cases replaced

theorem replaceText_ok {directory text : String} {start : List String}
    (found : fs.find current (if directory.isEmpty then "." else directory) =
      .ok (start, .directory))
    (room : (stagedPath current directory).utf8ByteSize ≤ pathLimit)
    (reached : fs.resolve current path = .ok place) (bare : fs.node? place ≠ some .directory) :
    fs.replaceText current directory path text = .ok (fs.put place (.file text)) := by
  unfold replaceText
  simp only [found, reached, mapError_ok, if_neg (Nat.not_lt.2 room), bind, Except.bind]

theorem readText_inv {text : String} (read : fs.readText current path = .ok text) :
    ∃ place, fs.resolve current path = .ok place ∧ fs.node? place = some (.file text) := by
  unfold readText find at read
  cases reached : fs.resolve current path with
  | error e => rw [reached] at read; cases read
  | ok place =>
    rw [reached] at read
    simp only [bind, Except.bind] at read
    cases here : fs.node? place with
    | none => rw [here] at read; cases read
    | some node =>
      rw [here] at read
      cases node with
      | directory => cases read
      | file held =>
        obtain rfl := Except.ok.inj read
        exact ⟨place, rfl, here⟩

theorem readText_of_node {text : String} (reached : fs.resolve current path = .ok place)
    (here : fs.node? place = some (.file text)) : fs.readText current path = .ok text := by
  unfold readText find
  rw [reached]
  simp only [bind, Except.bind, here]

theorem readText_put {text : String} (reached : fs.resolve current path = .ok place)
    (bare : fs.node? place ≠ some .directory) :
    (fs.put place (.file text)).readText current path = .ok text := by
  have below : place ≠ [] := below_of_bare bare
  refine readText_of_node ((KeepsDirectories.put below bare).resolve reached) ?_
  rw [node?_put _ _ _ _ below, if_pos rfl]

theorem readText_put_elsewhere {text : String} (read : fs.readText current path = .ok text)
    (bare : fs.node? place ≠ some .directory)
    (elsewhere : ∀ target, fs.resolve current path = .ok target → target ≠ place) :
    (fs.put place node).readText current path = .ok text := by
  obtain ⟨target, reached, here⟩ := readText_inv read
  have below : place ≠ [] := below_of_bare bare
  refine readText_of_node ((KeepsDirectories.put below bare).resolve reached) ?_
  rw [node?_put _ _ _ _ below, if_neg (elsewhere target reached), here]

end Files

namespace Memory

variable {ε α β : Type} {m m' : Memory}

theorem bind_ok {first : ExceptT ε (StateM Memory) α} {next : α → ExceptT ε (StateM Memory) β}
    {b : β} (done : run (first >>= next) m = (.ok b, m')) :
    ∃ a m₁, run first m = (.ok a, m₁) ∧ run (next a) m₁ = (.ok b, m') := by
  rw [run_bind] at done
  split at done
  next a m₁ ran => exact ⟨a, m₁, ran, done⟩
  · cases done

theorem bind_error {first : ExceptT ε (StateM Memory) α} {next : α → ExceptT ε (StateM Memory) β}
    {e : ε} (failed : run (first >>= next) m = (.error e, m')) :
    run first m = (.error e, m') ∨
      ∃ a m₁, run first m = (.ok a, m₁) ∧ run (next a) m₁ = (.error e, m') := by
  rw [run_bind] at failed
  split at failed
  next a m₁ ran => exact .inr ⟨a, m₁, ran, failed⟩
  next e' m₁ ran =>
    obtain ⟨same, rfl⟩ := Prod.mk.inj failed
    obtain rfl := Except.error.inj same
    exact .inl ran

theorem bind_pure_ok {first : ExceptT ε (StateM Memory) α} {f : α → β} {b : β}
    (done : run (first >>= fun a => pure (f a)) m = (.ok b, m')) :
    ∃ a, run first m = (.ok a, m') := by
  obtain ⟨a, m₁, ran, rest⟩ := bind_ok done
  obtain ⟨-, rfl⟩ := Prod.mk.inj rest
  exact ⟨a, ran⟩

end Memory

end Fixture
