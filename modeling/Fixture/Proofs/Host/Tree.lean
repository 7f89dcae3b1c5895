import Fixture.Proofs.Host.Keeps
import Fixture.Proofs.Host.Place

/-!
Files in a tree: whatever there is lies in a directory. A directory that a path leads to only once
directories were made was made itself, unless the path goes up again on its way, and so there is
nothing in it.
-/

namespace Fixture.Files

variable {fs fs' fs'' : Files} {current place : List String} {name path : String} {node : Node}

/-- Whatever there is lies in a directory. -/
def IsTree (fs : Files) : Prop :=
  ∀ place name node, fs.node? (place ++ [name]) = some node → fs.node? place = some .directory

theorem isTree_of_nodes
    (inside : ∀ entry ∈ fs.nodes, fs.node? entry.1.dropLast = some .directory) : fs.IsTree := by
  intro place name node here
  have listed := inside _ ((node?_eq_some_iff (place_ne_nil place name)).1 here)
  rwa [List.dropLast_concat] at listed

namespace IsTree

theorem nothing_below (tree : fs.IsTree) (free : fs.node? place = none) (names : List String) :
    fs.node? (place ++ names) = none := by
  induction names generalizing place with
  | nil => rwa [List.append_nil]
  | cons name names ih =>
    have next : fs.node? (place ++ [name]) = none := by
      cases here : fs.node? (place ++ [name]) with
      | none => rfl
      | some node =>
        rw [tree _ _ _ here] at free
        cases free
    rw [List.append_cons]
    exact ih next

theorem dropLast (tree : fs.IsTree) (here : fs.node? place = some node) :
    fs.node? place.dropLast = some .directory := by
  cases last : place.getLast? with
  | none =>
    rw [List.getLast?_eq_none_iff.1 last]
    rfl
  | some name =>
    rw [← List.dropLast_append_getLast? name last] at here
    exact tree _ _ _ here

end IsTree

def OnlyDirectories (fs fs' : Files) : Prop :=
  ∀ place, fs'.node? place = fs.node? place ∨
    fs.node? place = none ∧ fs'.node? place = some .directory

namespace OnlyDirectories

theorem refl (fs : Files) : fs.OnlyDirectories fs := fun _ => .inl rfl

theorem trans (first : fs.OnlyDirectories fs') (second : fs'.OnlyDirectories fs'') :
    fs.OnlyDirectories fs'' := by
  intro place
  rcases second place with same | ⟨free, made⟩
  · rw [same]
    exact first place
  · rcases first place with same | ⟨-, made'⟩
    · exact .inr ⟨same ▸ free, made⟩
    · rw [free] at made'
      cases made'

theorem put (free : fs.node? place = none) : fs.OnlyDirectories (fs.put place .directory) := by
  have below : place ≠ [] := below_of_free free
  intro other
  rw [node?_put _ _ _ _ below]
  split
  next here =>
    rw [here]
    exact .inr ⟨free, rfl⟩
  · exact .inl rfl

theorem grows (only : fs.OnlyDirectories fs') : fs.Grows fs' := by
  intro place node here
  rcases only place with same | ⟨free, -⟩
  · rw [same, here]
  · rw [free] at here
    cases here

theorem free (only : fs.OnlyDirectories fs') (free : fs'.node? place = none) :
    fs.node? place = none := by
  rcases only place with same | ⟨free, -⟩
  · rw [← same, free]
  · exact free

end OnlyDirectories

theorem onlyDirectories_makeDirectories (fs : Files) (current : List String)
    (paths : List String) : fs.OnlyDirectories (fs.makeDirectories current paths).2 := by
  refine makeDirectories_steps OnlyDirectories.refl OnlyDirectories.trans (fun made => ?_) fs paths
  obtain ⟨-, place, -, free, rfl⟩ := makeDirectory_inv made
  exact .put free

/-- There is one file more, where nothing was, and apart from it only directories were made. -/
structure AddsFile (fs : Files) (place : List String) (text : String) (fs' : Files) : Prop where
  free : fs.node? place = none
  here : fs'.node? place = some (.file text)
  elsewhere : ∀ other, other ≠ place → fs'.node? other = fs.node? other ∨
    fs.node? other = none ∧ fs'.node? other = some .directory

theorem AddsFile.of_put {text : String} (only : fs.OnlyDirectories fs')
    (free : fs'.node? place = none) : fs.AddsFile place text (fs'.put place (.file text)) := by
  have below : place ≠ [] := below_of_free free
  refine ⟨only.free free, by rw [node?_put _ _ _ _ below, if_pos rfl], fun other elsewhere => ?_⟩
  rw [node?_put _ _ _ _ below, if_neg elsewhere]
  exact only other

theorem AddsFile.grows {text : String} (adds : fs.AddsFile place text fs') : fs.Grows fs' := by
  intro other node here
  have elsewhere : other ≠ place := by
    rintro rfl
    rw [adds.free] at here
    cases here
  rcases adds.elsewhere other elsewhere with same | ⟨free, -⟩
  · rw [same, here]
  · rw [free] at here
    cases here

/-! ## Ways in a tree -/

theorem walk_level {start parts : List String} (level : ".." ∉ parts)
    (reached : fs.walk start parts = .ok place) : ∃ more, place = start ++ more := by
  induction parts generalizing start with
  | nil => exact ⟨[], by rw [List.append_nil, Except.ok.inj reached]⟩
  | cons part rest ih =>
    have up : part ≠ ".." := fun same => level (same ▸ List.mem_cons_self)
    have level : ".." ∉ rest := fun inside => level (List.mem_cons_of_mem _ inside)
    simp only [Files.walk, here_of_walk reached, if_neg up] at reached
    split at reached
    · exact ih level reached
    split at reached
    · cases reached
    · obtain ⟨more, rfl⟩ := ih level reached
      exact ⟨part :: more, List.append_assoc ..⟩

namespace IsTree

/-- In a tree a way ends at something, or else at a name in a directory. -/
theorem walk (tree : fs.IsTree) {start parts : List String}
    (reached : fs.walk start parts = .ok place) (given : parts ≠ []) :
    (fs.node? place).isSome ∨
      ∃ inside name, place = inside ++ [name] ∧ fs.node? inside = some .directory := by
  induction parts generalizing start with
  | nil => exact absurd rfl given
  | cons part rest ih =>
    have here : fs.node? start = some .directory := here_of_walk reached
    have onwards {next : List String} (reached : fs.walk next rest = .ok place)
        (ends : rest = [] → (fs.node? next).isSome ∨
          ∃ inside name, next = inside ++ [name] ∧ fs.node? inside = some .directory) :
        (fs.node? place).isSome ∨
          ∃ inside name, place = inside ++ [name] ∧ fs.node? inside = some .directory := by
      cases rest with
      | nil =>
        obtain rfl := Except.ok.inj reached
        exact ends rfl
      | cons part rest => exact ih reached (List.cons_ne_nil _ _)
    simp only [Files.walk, here] at reached
    split at reached
    · exact onwards reached fun _ => .inl (by rw [here]; rfl)
    split at reached
    · exact onwards reached fun _ => .inl (by rw [tree.dropLast here]; rfl)
    split at reached
    · cases reached
    · exact onwards reached fun _ => .inr ⟨start, part, rfl, here⟩

theorem resolve (tree : fs.IsTree) (reached : fs.resolve current path = .ok place) :
    (fs.node? place).isSome ∨
      ∃ inside name, place = inside ++ [name] ∧ fs.node? inside = some .directory := by
  obtain ⟨-, -, followed⟩ := resolve_inv reached
  unfold follow at followed
  split at followed
  next rest _ =>
    cases rest with
    | nil =>
      obtain rfl := Except.ok.inj followed
      exact .inl rfl
    | cons part rest => exact tree.walk followed (List.cons_ne_nil _ _)
  · refine tree.walk followed ?_
    simpa [Path.parts] using Path.split_ne_nil path.toList

theorem makeDirectories (tree : fs.IsTree) (current paths : List String) :
    (fs.makeDirectories current paths).2.IsTree := by
  refine makeDirectories_steps (R := fun fs fs' => fs.IsTree → fs'.IsTree) (fun _ tree => tree)
    (fun first second tree => second (first tree)) (fun made tree => ?_) fs paths tree
  obtain ⟨way, place, reached, free, rfl⟩ := makeDirectory_inv made
  have below : place ≠ [] := below_of_free free
  intro other name node here
  rw [node?_put _ _ _ _ below] at here ⊢
  split at here
  next same =>
    rcases tree.resolve reached with there | ⟨inside, last, rfl, inner⟩
    · rw [free] at there
      cases there
    · obtain ⟨rfl, -⟩ := List.append_inj' same rfl
      rw [inner, if_neg (by simp)]
  next =>
    have inner := tree _ _ _ here
    have elsewhere : other ≠ place := by
      rintro rfl
      rw [free] at inner
      cases inner
    rw [if_neg elsewhere, inner]

/-- A way to a directory that does not go up again leads to it from the start, or the directory was
made on the way. -/
theorem walk_made (tree : fs.IsTree) (only : fs.OnlyDirectories fs') {start parts : List String}
    (level : ".." ∉ parts) (reached : fs'.walk start parts = .ok place)
    (there : fs'.node? place = some .directory) :
    fs.walk start parts = .ok place ∧ fs.node? place = some .directory ∨
      fs.node? place = none := by
  induction parts generalizing start with
  | nil =>
    obtain rfl := Except.ok.inj reached
    rcases only start with same | ⟨free, -⟩
    · exact .inl ⟨rfl, same ▸ there⟩
    · exact .inr free
  | cons part rest ih =>
    have up : part ≠ ".." := fun same => level (same ▸ List.mem_cons_self)
    have level : ".." ∉ rest := fun inside => level (List.mem_cons_of_mem _ inside)
    have here : fs'.node? start = some .directory := here_of_walk reached
    rcases only start with same | ⟨free, -⟩
    · have here' : fs.node? start = some .directory := same ▸ here
      simp only [Files.walk, here, here', if_neg up] at reached ⊢
      split
      next idle => exact ih level (by rwa [if_pos idle] at reached)
      next named =>
        rw [if_neg named] at reached
        split
        next long => rw [if_pos long] at reached; cases reached
        next fits => exact ih level (by rwa [if_neg fits] at reached)
    · obtain ⟨more, rfl⟩ := walk_level (List.not_mem_cons_of_ne_of_not_mem up.symm level) reached
      exact .inr (tree.nothing_below free more)

theorem follow_made (tree : fs.IsTree) (only : fs.OnlyDirectories fs') {parts : List String}
    (level : ".." ∉ parts) (reached : fs'.follow current parts = .ok place)
    (there : fs'.node? place = some .directory) :
    fs.follow current parts = .ok place ∧ fs.node? place = some .directory ∨
      fs.node? place = none := by
  unfold follow at reached ⊢
  split at reached
  next rest =>
    have level : ".." ∉ rest := fun inside => level (List.mem_cons_of_mem _ inside)
    exact tree.walk_made only level reached there
  · exact tree.walk_made only level reached there

theorem follow_foreseen (tree : fs.IsTree) (only : fs.OnlyDirectories fs')
    {front back : List String} (known : front ≠ [] → ∃ start, fs.follow current front = .ok start)
    (level : ".." ∉ back) (reached : fs'.follow current (front ++ back) = .ok place)
    (there : fs'.node? place = some .directory) :
    fs.follow current (front ++ back) = .ok place ∧ fs.node? place = some .directory ∨
      fs.node? place = none := by
  by_cases short : front = []
  · subst short
    exact tree.follow_made only level reached there
  · obtain ⟨start, ahead⟩ := known short
    rw [follow_append _ _ short, only.grows.keepsDirectories.follow ahead] at reached
    rw [follow_append _ _ short, ahead]
    exact tree.walk_made only level reached there

end IsTree

/-- It is known where a path leads before directories are made for it: there is a way along its
first parts, and after them it does not go up. -/
def Foresees (fs : Files) (current : List String) (path : String) : Prop :=
  ∃ front back, Path.parts path = front ++ back ∧
    (front ≠ [] → ∃ start, fs.follow current front = .ok start) ∧ ".." ∉ back

theorem foresees_of_level (level : ".." ∉ Path.parts path) : fs.Foresees current path :=
  ⟨[], _, rfl, fun given => absurd rfl given, level⟩

theorem OnlyDirectories.foresees (only : fs.OnlyDirectories fs')
    (foreseen : fs.Foresees current path) : fs'.Foresees current path := by
  obtain ⟨front, back, parts, known, level⟩ := foreseen
  refine ⟨front, back, parts, fun given => ?_, level⟩
  obtain ⟨start, ahead⟩ := known given
  exact ⟨start, only.grows.keepsDirectories.follow ahead⟩

/-- A directory that is where a path leads once directories were made was there before, or there was
nothing in its place. -/
theorem IsTree.directory_made (tree : fs.IsTree) (only : fs.OnlyDirectories fs')
    {directory : String} (foreseen : fs.Foresees current directory)
    (there : fs'.directory? current directory = some place) :
    fs.directory? current directory = some place ∨ fs.node? place = none := by
  rw [directory?_eq_some_iff] at there ⊢
  have foreseen' : fs.Foresees current (if directory.isEmpty then "." else directory) := by
    split
    · exact foresees_of_level (by decide)
    · exact foreseen
  generalize (if directory.isEmpty then "." else directory) = way at there foreseen' ⊢
  obtain ⟨reached, here⟩ := find_inv there
  obtain ⟨given, clean, followed⟩ := resolve_inv reached
  obtain ⟨front, back, parts, known, level⟩ := foreseen'
  rw [parts] at followed
  rcases tree.follow_foreseen only known level followed here with ⟨followed', here'⟩ | free
  · left
    rw [resolve_of_text given clean] at reached
    split at reached
    · cases reached
    next short =>
      have led : fs.resolve current way = .ok place := by
        rw [resolve_of_text given clean, if_neg short, parts, followed']
      rw [find_of_resolve led, here']
  · exact .inr free

/-- Nothing is in the place of a name that is not taken, also once directories were made for it. -/
theorem IsTree.free_made (tree : fs.IsTree) (only : fs.OnlyDirectories fs') {directory : String}
    (plain : Path.IsName name) (foreseen : fs.Foresees current directory)
    (untaken : fs.isTaken current (Path.join directory name) = false)
    (reached : fs'.resolve current (Path.join directory name) = .ok place)
    (bare : fs'.node? place ≠ some .directory) : fs'.node? place = none := by
  obtain ⟨inside, there, rfl⟩ := resolve_join_inv plain reached
  have free : fs.node? (inside ++ [name]) = none := by
    rcases tree.directory_made only foreseen there with old | free
    · refine free_of_isTaken ?_ untaken
      rw [resolve_join_directory old plain, if_pos (fits_of_resolve_join plain reached)]
    · exact tree.nothing_below free [name]
  rcases only (inside ++ [name]) with same | ⟨-, made⟩
  · exact same.trans free
  · exact absurd made bare

end Fixture.Files

namespace Fixture.Memory

variable {ε ε' α β : Type} {m m' m'' : Memory}

structure Makes (m m' : Memory) : Prop where
  only : m.files.OnlyDirectories m'.files
  tree : m.files.IsTree → m'.files.IsTree
  same : m' = { m with files := m'.files }

namespace Makes

theorem refl (m : Memory) : m.Makes m := ⟨.refl _, id, rfl⟩

theorem trans (first : m.Makes m') (second : m'.Makes m'') : m.Makes m'' where
  only := first.only.trans second.only
  tree := second.tree ∘ first.tree
  same := by rw [second.same, first.same]

theorem makeDirectories (m : Memory) (paths : List String) :
    m.Makes { m with files := (m.files.makeDirectories m.current paths).2 } :=
  ⟨Files.onlyDirectories_makeDirectories _ _ _, fun tree => tree.makeDirectories _ _, rfl⟩

theorem current (makes : m.Makes m') : m'.current = m.current := by rw [makes.same]

theorem temporaryDirectory (makes : m.Makes m') :
    m'.temporaryDirectory = m.temporaryDirectory := by rw [makes.same]

theorem keeps (makes : m.Makes m') : m.Keeps m' := ⟨makes.only.grows, makes.current⟩

end Makes

def Making (operation : ExceptT ε (StateM Memory) α) : Prop :=
  ∀ m : Memory, m.Makes (run operation m).2

theorem Making.harmless {operation : ExceptT ε (StateM Memory) α} (making : Making operation) :
    Harmless operation := fun m => (making m).keeps

theorem making_pure (a : α) : Making (pure a : ExceptT ε (StateM Memory) α) := Makes.refl

theorem making_lift (result : Except ε α) :
    Making (liftM result : ExceptT ε (StateM Memory) α) := Makes.refl

theorem making_during {operation : StateM Memory (Except ε α)} (failure : ε → ε')
    (same : ∀ m, (operation m).2 = m) : Making (Host.during failure operation) := by
  intro m
  rw [run_during, same]
  exact .refl m

theorem making_makeDirectories (failure : FileError → ε') (directory : String) :
    Making (Host.during failure (Host.makeDirectories (m := StateM Memory) directory)) := by
  intro m
  rw [run_during]
  exact Makes.makeDirectories m (Path.ancestors directory)

theorem Making.bind {first : ExceptT ε (StateM Memory) α}
    {next : α → ExceptT ε (StateM Memory) β} (one : Making first) (two : ∀ a, Making (next a)) :
    Making (first >>= next) := by
  intro m
  have before := one m
  rw [run_bind]
  generalize run first m = ran at before
  obtain ⟨_ | a, m'⟩ := ran
  · exact before
  · exact before.trans (two a m')

theorem Making.adapt {operation : ExceptT ε (StateM Memory) α} (making : Making operation)
    (failure : ε → ε') : Making (operation.adapt failure) := making

theorem Making.bind_ok {first : ExceptT ε (StateM Memory) α}
    {next : α → ExceptT ε (StateM Memory) β} {b : β} (making : Making first)
    (done : run (first >>= next) m = (.ok b, m')) :
    ∃ a m₁, m.Makes m₁ ∧ run (next a) m₁ = (.ok b, m') := by
  obtain ⟨a, m₁, ran, rest⟩ := Memory.bind_ok done
  have makes := making m
  rw [ran] at makes
  exact ⟨a, m₁, makes, rest⟩

end Fixture.Memory
