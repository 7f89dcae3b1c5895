import Fixture.Host.Basic
import Fixture.Host.Path

/-!
Files and directories as a value. Every place has a list of names that leads to it from the root,
and holds at most one thing. Main statements: `node?_put` and `node?_erase` say what is where after
a change.
-/

namespace Fixture

inductive Node where
  | file (text : String)
  | directory
deriving DecidableEq, Repr

/-- Files and directories by the names that lead to them. The root is always a directory. -/
structure Files where
  nodes : List (List String × Node) := []
  nodup : (nodes.map Prod.fst).Nodup := by decide

namespace Files

instance : Inhabited Files := ⟨{}⟩

def node? (fs : Files) (place : List String) : Option Node :=
  if place = [] then some .directory else fs.nodes.lookup place

def put (fs : Files) (place : List String) (node : Node) : Files :=
  if present : place ∈ fs.nodes.map Prod.fst then
    { nodes := fs.nodes.map fun entry => if entry.1 = place then (place, node) else entry
      nodup := by
        have names : (fs.nodes.map fun entry =>
            if entry.1 = place then (place, node) else entry).map Prod.fst =
              fs.nodes.map Prod.fst := by
          simp only [List.map_map]
          refine List.map_congr_left fun entry _ => ?_
          by_cases same : entry.1 = place <;> simp [same]
        rw [names]
        exact fs.nodup }
  else
    { nodes := fs.nodes ++ [(place, node)]
      nodup := by
        rw [List.map_append, List.nodup_append]
        refine ⟨fs.nodup, by simp, fun a member b last => ?_⟩
        simp only [List.map_cons, List.map_nil, List.mem_singleton] at last
        intro same
        exact present (last ▸ same ▸ member) }

def erase (fs : Files) (place : List String) : Files :=
  { nodes := fs.nodes.filter fun entry => entry.1 ≠ place
    nodup := fs.nodup.sublist (List.filter_sublist.map Prod.fst) }

private theorem lookup_replaced (nodes : List (List String × Node)) (place other : List String)
    (node : Node) (present : place ∈ nodes.map Prod.fst) :
    (nodes.map fun entry => if entry.1 = place then (place, node) else entry).lookup other =
      if other = place then some node else nodes.lookup other := by
  induction nodes with
  | nil => simp at present
  | cons entry rest ih =>
    obtain ⟨name, old⟩ := entry
    by_cases same : name = place
    · subst same
      by_cases here : other = name
      · simp [here]
      · have elsewhere : (other == name) = false := by simp [here]
        simp only [List.map_cons, if_true, List.lookup_cons, elsewhere, here, if_false]
        by_cases again : name ∈ rest.map Prod.fst
        · rw [ih again, if_neg here]
        · have kept : (rest.map fun entry =>
              if entry.1 = name then (name, node) else entry) = rest := by
            refine (List.map_congr_left fun entry member => ?_).trans (List.map_id rest)
            have different : entry.1 ≠ name := fun h => again (h ▸ List.mem_map_of_mem member)
            simp [different]
          rw [kept]
    · have later : place ∈ rest.map Prod.fst := by
        simpa [Ne.symm same] using present
      by_cases here : other = name
      · subst here
        simp [same]
      · have elsewhere : (other == name) = false := by simp [here]
        simp only [List.map_cons, if_neg same, List.lookup_cons, elsewhere]
        exact ih later

private theorem lookup_appended (nodes : List (List String × Node)) (place other : List String)
    (node : Node) (absent : place ∉ nodes.map Prod.fst) :
    (nodes ++ [(place, node)]).lookup other =
      if other = place then some node else nodes.lookup other := by
  induction nodes with
  | nil =>
    by_cases here : other = place
    · simp [here]
    · have elsewhere : (other == place) = false := by simp [here]
      simp [List.lookup_cons, elsewhere, here]
  | cons entry rest ih =>
    obtain ⟨name, old⟩ := entry
    have parts : place ≠ name ∧ place ∉ rest.map Prod.fst := by simpa using absent
    by_cases here : other = name
    · subst here
      simp [Ne.symm parts.1]
    · have elsewhere : (other == name) = false := by simp [here]
      simp only [List.cons_append, List.lookup_cons, elsewhere]
      exact ih parts.2

private theorem lookup_filtered (nodes : List (List String × Node)) (place other : List String) :
    (nodes.filter fun entry => entry.1 ≠ place).lookup other =
      if other = place then none else nodes.lookup other := by
  induction nodes with
  | nil => simp
  | cons entry rest ih =>
    obtain ⟨name, old⟩ := entry
    by_cases same : name = place
    · subst same
      rw [List.filter_cons_of_neg (by simp), ih]
      by_cases here : other = name
      · simp [here]
      · have elsewhere : (other == name) = false := by simp [here]
        simp [List.lookup_cons, elsewhere]
    · rw [List.filter_cons_of_pos (by simpa using same), List.lookup_cons, List.lookup_cons, ih]
      by_cases here : other = name
      · subst here
        simp [same]
      · have elsewhere : (other == name) = false := by simp [here]
        simp only [elsewhere]

theorem node?_put (fs : Files) (place other : List String) (node : Node) (below : place ≠ []) :
    (fs.put place node).node? other = if other = place then some node else fs.node? other := by
  by_cases root : other = []
  · subst root
    simp [node?, Ne.symm below]
  · simp only [node?, if_neg root, put]
    split
    · exact lookup_replaced fs.nodes place other node ‹_›
    · exact lookup_appended fs.nodes place other node ‹_›

theorem node?_erase (fs : Files) (place other : List String) (below : place ≠ []) :
    (fs.erase place).node? other = if other = place then none else fs.node? other := by
  by_cases root : other = []
  · subst root
    simp [node?, Ne.symm below]
  · simp only [node?, if_neg root, erase]
    exact lookup_filtered fs.nodes place other

/-! ## Places by path -/

/-- The longest name and the longest path that a file can have, in bytes. -/
def nameLimit : Nat := 255

def pathLimit : Nat := 4095

/-- Goes from a directory along the parts of a path. Whatever is passed on the way, and whatever a
part that leads nowhere stands behind, must be a directory. -/
def walk (fs : Files) : List String → List String → Except FileError (List String)
  | place, [] => .ok place
  | place, part :: rest =>
    match fs.node? place with
    | none => .error .notFound
    | some (.file _) => .error .notADirectory
    | some .directory =>
      if Path.isIdle part then fs.walk place rest
      else if part = ".." then fs.walk place.dropLast rest
      else if nameLimit < part.utf8ByteSize then .error .invalidFilename
      else fs.walk (place ++ [part]) rest

/-- The place that a path leads to from a directory. There need not be anything. -/
def resolve (fs : Files) (current : List String) (path : String) :
    Except FileError (List String) :=
  if path.toList.contains '\x00' then .error .invalidInput
  else if path.isEmpty then .error .notFound
  else if pathLimit < path.utf8ByteSize then .error .invalidFilename
  else match Path.parts path with
    | "" :: rest => fs.walk [] rest
    | parts => fs.walk current parts

def find (fs : Files) (current : List String) (path : String) :
    Except FileError (List String × Node) := do
  let place ← fs.resolve current path
  match fs.node? place with
  | some node => .ok (place, node)
  | none => .error .notFound

def isTaken (fs : Files) (current : List String) (path : String) : Bool :=
  match fs.find current path with
  | .ok _ => true
  | .error _ => false

def isDirectory (fs : Files) (current : List String) (path : String) : Bool :=
  match fs.find current path with
  | .ok (_, .directory) => true
  | _ => false

/-! ## Operations -/

def readText (fs : Files) (current : List String) (path : String) : Except FileError String := do
  match ← fs.find current path with
  | (_, .file text) => .ok text
  | (_, .directory) => .error .isADirectory

def namesAt (fs : Files) (directory : List String) : List String :=
  fs.nodes.filterMap fun entry =>
    if entry.1 ≠ [] ∧ entry.1.dropLast = directory then entry.1.getLast? else none

def names (fs : Files) (current : List String) (path : String) :
    Except FileError (List String) := do
  match ← fs.find current path with
  | (place, .directory) => .ok (fs.namesAt place)
  | (_, .file _) => .error .notADirectory

/-- Makes one directory, where there is nothing. Slashes at the end do not count. -/
def makeDirectory (fs : Files) (current : List String) (path : String) :
    Except FileError Files := do
  let parts := ((Path.parts path).reverse.dropWhile (· == "")).reverse
  let place ← fs.resolve current (if parts.isEmpty then path else Path.ofParts parts)
  match fs.node? place with
  | some _ => .error .alreadyExists
  | none => .ok (fs.put place .directory)

/-- Makes a directory unless it is there, after its parents if one of them is missing. They come
after it in the list. -/
def makeDirectories (fs : Files) (current : List String) :
    List String → Except FileError Unit × Files
  | [] => (.error .other, fs)
  | path :: parents =>
    let unlessThere (fs : Files) (e : FileError) : Except FileError Unit × Files :=
      if fs.isDirectory current path then (.ok (), fs) else (.error e, fs)
    if path.isEmpty then (.ok (), fs)
    else match fs.makeDirectory current path with
      | .ok made => (.ok (), made)
      | .error .notFound =>
        match fs.makeDirectories current parents with
        | (.error e, fs) => (.error e, fs)
        | (.ok _, fs) =>
          match fs.makeDirectory current path with
          | .ok made => (.ok (), made)
          | .error e => unlessThere fs e
      | .error e => unlessThere fs e

/-- A name such as texts have that are set aside: its length is what counts. -/
def stagedName : String := ".tmpXXXXXX"

def stagedPath (current : List String) (directory : String) : String :=
  Path.join (Path.join ("/" ++ Path.ofParts current) directory) stagedName

/-- Puts a text in the place of a file, or where there is nothing. It is set aside in a directory
before, whose path has to leave room for that; the empty path is the current one. -/
def replaceText (fs : Files) (current : List String) (directory path text : String) :
    Except ReplaceError Files := do
  match ← (fs.find current (if directory.isEmpty then "." else directory)).mapError .staging with
  | (_, .file _) => .error (.staging .notADirectory)
  | (_, .directory) =>
    if pathLimit < (stagedPath current directory).utf8ByteSize then
      .error (.staging .invalidFilename)
    else
      let place ← (fs.resolve current path).mapError .placing
      match fs.node? place with
      | some .directory => .error (.placing .isADirectory)
      | _ => .ok (fs.put place (.file text))

def remove (fs : Files) (current : List String) (path : String) : Except FileError Files := do
  match ← fs.find current path with
  | (place, .file _) => .ok (fs.erase place)
  | (_, .directory) => .error .isADirectory

end Files

end Fixture
