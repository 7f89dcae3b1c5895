import Fixture.Proofs.Host.Files
import Mathlib.Data.List.Nodup

/-!
The files that are directly in a directory. A name below the path of a directory leads to the place
of that name in the directory, unless the name or the path gets too long. The names in a directory
are those of its places that are not empty, each once.
-/

namespace Fixture

namespace Path

structure IsName (name : String) : Prop where
  slash : '/' ∉ name.toList
  zero : '\x00' ∉ name.toList
  idle : isIdle name = false
  up : name ≠ ".."

theorem IsName.relative {name : String} (plain : IsName name) : name.toList.head? ≠ some '/' :=
  fun first => plain.slash (List.mem_of_head? first)

theorem split_ne_nil (cs : List Char) : split cs ≠ [] := by
  cases cs with
  | nil => exact List.cons_ne_nil _ _
  | cons c cs =>
    rw [split]
    split
    · exact List.cons_ne_nil _ _
    · split <;> exact List.cons_ne_nil _ _

theorem split_append (front back : List Char) :
    split (front ++ '/' :: back) = split front ++ split back := by
  induction front with
  | nil => rfl
  | cons c cs ih =>
    rw [List.cons_append, split, split, ih]
    by_cases slash : c = '/'
    · rw [if_pos slash, if_pos slash, List.cons_append]
    · rw [if_neg slash, if_neg slash]
      cases parts : split cs with
      | nil => exact absurd parts (split_ne_nil cs)
      | cons part others => rfl

theorem split_eq_self {cs : List Char} (whole : '/' ∉ cs) : split cs = [cs] := by
  induction cs with
  | nil => rfl
  | cons c cs ih =>
    have here : c ≠ '/' := fun slash => whole (slash ▸ List.mem_cons_self)
    rw [split, if_neg here, ih fun later => whole (List.mem_cons_of_mem c later)]

/-- The path of a name below a directory has the parts of the directory, but for the empty one
after a slash at its end, and then the name. -/
theorem parts_join {directory name : String} (given : directory ≠ "") (whole : '/' ∉ name.toList) :
    ∃ front, front ≠ [] ∧ parts (join directory name) = front ++ [name] ∧
      (parts directory = front ∨ parts directory = front ++ [""]) := by
  have relative : name.toList.head? ≠ some '/' := fun first => whole (List.mem_of_head? first)
  have last : split name.toList = [name.toList] := split_eq_self whole
  have present : directory.isEmpty = false := String.isEmpty_eq_false_iff.2 given
  rw [join, if_neg relative, present]
  by_cases ended : directory.toList.getLast? = some '/'
  · obtain ⟨front, ends⟩ := List.getLast?_eq_some_iff.1 ended
    refine ⟨(split front).map String.ofList, ?_, ?_, .inr ?_⟩
    · simpa using split_ne_nil front
    · rw [if_pos (.inr ended), parts, String.toList_append, ends, List.append_assoc]
      rw [List.singleton_append, split_append, last]
      simp
    · rw [parts, ends, split_append]
      simp [split]
  · refine ⟨parts directory, ?_, ?_, .inl rfl⟩
    · simpa [parts] using split_ne_nil directory.toList
    · rw [if_neg (by simpa using ended), parts, parts, String.toList_append, String.toList_append,
        List.append_assoc]
      rw [show "/".toList = ['/'] from rfl, List.singleton_append, split_append, last]
      simp

theorem toList_join (directory : String) {name : String} (whole : '/' ∉ name.toList) :
    ∃ between, between ⊆ ['/'] ∧
      (join directory name).toList = directory.toList ++ between ++ name.toList := by
  have relative : name.toList.head? ≠ some '/' := fun first => whole (List.mem_of_head? first)
  rw [join, if_neg relative]
  split
  · exact ⟨[], List.nil_subset _, by simp⟩
  · exact ⟨['/'], List.Subset.refl _, by simp⟩

theorem utf8ByteSize_join_le (directory name : String) :
    (join directory name).utf8ByteSize ≤ directory.utf8ByteSize + 1 + name.utf8ByteSize := by
  rw [join]
  split
  · omega
  split
  · rw [String.utf8ByteSize_append]
    omega
  · rw [String.utf8ByteSize_append, String.utf8ByteSize_append]
    exact Nat.le_refl _

theorem le_utf8ByteSize_join {name : String} (relative : name.toList.head? ≠ some '/')
    (directory : String) :
    directory.utf8ByteSize + name.utf8ByteSize ≤ (join directory name).utf8ByteSize := by
  rw [join, if_neg relative]
  split
  · exact Nat.le_of_eq (String.utf8ByteSize_append ..).symm
  · rw [String.utf8ByteSize_append, String.utf8ByteSize_append]
    omega

end Path

namespace Files

variable {fs : Files} {current place : List String} {directory name : String}

theorem walk_append (fs : Files) (start front back : List String) :
    fs.walk start (front ++ back) = fs.walk start front >>= fun place => fs.walk place back := by
  induction front generalizing start with
  | nil => rfl
  | cons part rest ih =>
    rw [List.cons_append, walk, walk]
    cases fs.node? start with
    | none => rfl
    | some node =>
      cases node with
      | file text => rfl
      | directory =>
        simp only
        split
        · exact ih _
        split
        · exact ih _
        split
        · rfl
        · exact ih _

theorem walk_name (here : fs.node? place = some .directory) (plain : Path.IsName name) :
    fs.walk place [name] =
      if nameLimit < name.utf8ByteSize then .error .invalidFilename else .ok (place ++ [name]) := by
  rw [walk, here]
  simp only [plain.idle, plain.up, Bool.false_eq_true, if_false]
  rfl

theorem walk_slash_inv {start : List String} (reached : fs.walk start [""] = .ok place) :
    start = place := by
  rw [walk] at reached
  split at reached
  · cases reached
  · cases reached
  · exact Except.ok.inj reached

def follow (fs : Files) (current : List String) : List String → Except FileError (List String)
  | "" :: rest => fs.walk [] rest
  | parts => fs.walk current parts

theorem follow_append (fs : Files) (current : List String) {front : List String}
    (given : front ≠ []) (back : List String) :
    fs.follow current (front ++ back) =
      fs.follow current front >>= fun place => fs.walk place back := by
  cases front with
  | nil => exact absurd rfl given
  | cons first rest =>
    by_cases root : first = ""
    · subst root
      exact walk_append fs [] rest back
    · rw [List.cons_append, follow, follow]
      · exact walk_append fs current (first :: rest) back
      · exact fun _ same => root (List.cons.inj same).1
      · exact fun _ same => root (List.cons.inj same).1

theorem KeepsDirectories.follow {fs' : Files} (kept : fs.KeepsDirectories fs')
    {parts : List String} (reached : fs.follow current parts = .ok place) :
    fs'.follow current parts = .ok place := by
  unfold Files.follow at reached ⊢
  split at reached <;> exact kept.walk reached

theorem resolve_of_text {path : String} (given : path ≠ "") (clean : '\x00' ∉ path.toList) :
    fs.resolve current path =
      if pathLimit < path.utf8ByteSize then .error .invalidFilename
      else fs.follow current (Path.parts path) := by
  have zero : path.toList.contains '\x00' = false := by simpa using clean
  have present : path.isEmpty = false := String.isEmpty_eq_false_iff.2 given
  rw [resolve, zero, present]
  rfl

theorem resolve_inv {path : String} (reached : fs.resolve current path = .ok place) :
    path ≠ "" ∧ '\x00' ∉ path.toList ∧ fs.follow current (Path.parts path) = .ok place := by
  have given : path ≠ "" := by
    rintro rfl
    rw [resolve] at reached
    cases reached
  have clean : '\x00' ∉ path.toList := by
    intro zero
    rw [resolve, if_pos (by simpa using zero)] at reached
    cases reached
  rw [resolve_of_text given clean] at reached
  split at reached
  · cases reached
  · exact ⟨given, clean, reached⟩

theorem find_inv {path : String} {node : Node} (found : fs.find current path = .ok (place, node)) :
    fs.resolve current path = .ok place ∧ fs.node? place = some node := by
  unfold find at found
  cases reached : fs.resolve current path with
  | error e => rw [reached] at found; cases found
  | ok target =>
    rw [reached] at found
    simp only [bind, Except.bind] at found
    split at found
    next other here =>
      obtain ⟨rfl, rfl⟩ := Prod.mk.inj (Except.ok.inj found)
      exact ⟨rfl, here⟩
    · cases found

theorem find_of_resolve {path : String} (reached : fs.resolve current path = .ok place) :
    fs.find current path = match fs.node? place with
      | some node => .ok (place, node)
      | none => .error .notFound := by
  rw [find, reached]
  rfl

theorem KeepsDirectories.find {fs' : Files} (kept : fs.KeepsDirectories fs') {path : String}
    (found : fs.find current path = .ok (place, .directory)) :
    fs'.find current path = .ok (place, .directory) := by
  obtain ⟨reached, here⟩ := find_inv found
  rw [find_of_resolve (kept.resolve reached), kept place here]

def Fits (directory name : String) : Prop :=
  (Path.join directory name).utf8ByteSize ≤ pathLimit ∧ name.utf8ByteSize ≤ nameLimit

instance : Decidable (Fits directory name) := inferInstanceAs (Decidable (_ ∧ _))

/-- The path is looked at before the name. -/
theorem fits_or_long (directory name : String) (target : List String) :
    (if pathLimit < (Path.join directory name).utf8ByteSize then .error .invalidFilename
      else if nameLimit < name.utf8ByteSize then .error .invalidFilename else .ok target) =
      if Fits directory name then .ok target else Except.error FileError.invalidFilename := by
  by_cases long : pathLimit < (Path.join directory name).utf8ByteSize
  · rw [if_pos long, if_neg fun fits => absurd fits.1 (Nat.not_le.2 long)]
  by_cases long_name : nameLimit < name.utf8ByteSize
  · rw [if_neg long, if_pos long_name, if_neg fun fits => absurd fits.2 (Nat.not_le.2 long_name)]
  · rw [if_neg long, if_neg long_name, if_pos ⟨Nat.not_lt.1 long, Nat.not_lt.1 long_name⟩]

theorem resolve_join (found : fs.find current directory = .ok (place, .directory))
    (plain : Path.IsName name) :
    fs.resolve current (Path.join directory name) =
      if Fits directory name then .ok (place ++ [name]) else .error .invalidFilename := by
  obtain ⟨reached, here⟩ := find_inv found
  obtain ⟨given, clean, followed⟩ := resolve_inv reached
  obtain ⟨between, only, text⟩ := Path.toList_join directory plain.slash
  obtain ⟨front, some_part, parts, before⟩ := Path.parts_join given plain.slash
  have directed : fs.follow current front = .ok place := by
    rcases before with same | slash
    · rwa [← same]
    · rw [slash, follow_append fs current some_part] at followed
      cases ahead : fs.follow current front with
      | error e => rw [ahead] at followed; cases followed
      | ok start =>
        rw [ahead] at followed
        rw [walk_slash_inv followed]
  have whole : '\x00' ∉ (Path.join directory name).toList := by
    rw [text, List.mem_append, List.mem_append]
    rintro ((zero | zero) | zero)
    · exact clean zero
    · exact absurd (List.mem_singleton.1 (only zero)) (by decide)
    · exact plain.zero zero
  have named : Path.join directory name ≠ "" := by
    intro empty
    rw [empty] at text
    simp only [String.toList_empty, List.nil_eq, List.append_eq_nil_iff,
      String.toList_eq_nil_iff] at text
    exact given text.1.1
  rw [resolve_of_text named whole, parts, follow_append fs current some_part, directed]
  simp only [bind, Except.bind, walk_name here plain]
  exact fits_or_long directory name _

theorem walk_name_inv {start : List String} (plain : Path.IsName name)
    (reached : fs.walk start [name] = .ok place) : place = start ++ [name] := by
  rw [walk_name (here_of_walk reached) plain] at reached
  split at reached
  · cases reached
  · exact (Except.ok.inj reached).symm

def directory? (fs : Files) (current : List String) (path : String) : Option (List String) :=
  match fs.find current (if path.isEmpty then "." else path) with
  | .ok (place, .directory) => some place
  | _ => none

theorem directory?_eq_some_iff : fs.directory? current directory = some place ↔
    fs.find current (if directory.isEmpty then "." else directory) = .ok (place, .directory) := by
  rw [directory?]
  split
  next found =>
    rw [found]
    simp
  next other =>
    constructor
    · rintro ⟨⟩
    · exact fun found => absurd found (other _)

theorem directory?_of_find (found : fs.find current directory = .ok (place, .directory)) :
    fs.directory? current directory = some place := by
  have given : directory.isEmpty = false :=
    String.isEmpty_eq_false_iff.2 (resolve_inv (find_inv found).1).1
  rw [directory?_eq_some_iff, given]
  exact found

theorem resolve_name (plain : Path.IsName name) :
    fs.resolve current (Path.join "" name) =
      if pathLimit < name.utf8ByteSize then .error .invalidFilename
      else fs.walk current [name] := by
  have named : name ≠ "" := by
    rintro rfl
    exact absurd plain.idle (by decide)
  have only : Path.parts name = [name] := by
    rw [Path.parts, Path.split_eq_self plain.slash]
    exact congrArg (fun text => [text]) String.ofList_toList
  rw [Path.join, if_neg plain.relative, if_pos (.inl rfl), String.empty_append,
    resolve_of_text named plain.zero, only, follow]
  exact fun _ same => named (List.cons.inj same).1

theorem find_here : fs.find current "." = .ok (place, .directory) ↔
    current = place ∧ fs.node? current = some .directory := by
  have start : fs.resolve current "." = fs.walk current ["."] := rfl
  have idle : Path.isIdle "." = true := rfl
  rw [find, start, walk]
  cases here : fs.node? current with
  | none => simp [bind, Except.bind]
  | some node => cases node <;> simp [bind, Except.bind, here, idle, walk]

theorem resolve_join_inv {target : List String} (plain : Path.IsName name)
    (reached : fs.resolve current (Path.join directory name) = .ok target) :
    ∃ place, fs.directory? current directory = some place ∧ target = place ++ [name] := by
  have walked_inv {start : List String} (walked : fs.walk start [name] = .ok target) :
      fs.node? start = some .directory ∧ target = start ++ [name] :=
    ⟨here_of_walk walked, walk_name_inv plain walked⟩
  by_cases given : directory = ""
  · subst given
    rw [resolve_name plain] at reached
    split at reached
    · cases reached
    · obtain ⟨here, named⟩ := walked_inv reached
      exact ⟨current, directory?_eq_some_iff.2 (find_here.2 ⟨rfl, here⟩), named⟩
  · obtain ⟨between, -, text⟩ := Path.toList_join directory plain.slash
    obtain ⟨front, some_part, parts, before⟩ := Path.parts_join given plain.slash
    obtain ⟨named, clean, followed⟩ := resolve_inv reached
    rw [parts, follow_append fs current some_part] at followed
    cases ahead : fs.follow current front with
    | error e => rw [ahead] at followed; cases followed
    | ok start =>
      rw [ahead] at followed
      obtain ⟨here, same⟩ := walked_inv followed
      have directed : fs.follow current (Path.parts directory) = .ok start := by
        rcases before with same | slash
        · rwa [same]
        · rw [slash, follow_append fs current some_part, ahead]
          simp only [bind, Except.bind, walk, here]
          rfl
      have clean' : '\x00' ∉ directory.toList := fun zero => clean (by simp [text, zero])
      have short : ¬pathLimit < directory.utf8ByteSize := by
        have whole := Path.le_utf8ByteSize_join plain.relative directory
        rw [resolve_of_text named clean] at reached
        split at reached
        · cases reached
        · omega
      have led : fs.resolve current directory = .ok start := by
        rw [resolve_of_text given clean', if_neg short, directed]
      refine ⟨start, directory?_of_find ?_, same⟩
      rw [find_of_resolve led, here]

theorem getLast?_of_resolve_join (plain : Path.IsName name)
    (reached : fs.resolve current (Path.join directory name) = .ok place) :
    place.getLast? = some name := by
  obtain ⟨start, -, rfl⟩ := resolve_join_inv plain reached
  rw [List.getLast?_concat]

theorem resolve_join_directory (there : fs.directory? current directory = some place)
    (plain : Path.IsName name) :
    fs.resolve current (Path.join directory name) =
      if Fits directory name then .ok (place ++ [name]) else .error .invalidFilename := by
  rw [directory?_eq_some_iff] at there
  by_cases given : directory = ""
  · subst given
    obtain ⟨rfl, here⟩ := find_here.1 there
    have whole : Path.join "" name = name := by
      rw [Path.join, if_neg plain.relative, if_pos (.inl rfl), String.empty_append]
    rw [resolve_name plain, walk_name here plain, ← fits_or_long, whole]
  · rw [if_neg (by simpa using given)] at there
    exact resolve_join there plain

theorem fits_of_resolve_join {target : List String} (plain : Path.IsName name)
    (reached : fs.resolve current (Path.join directory name) = .ok target) :
    Fits directory name := by
  obtain ⟨place, there, -⟩ := resolve_join_inv plain reached
  rw [resolve_join_directory there plain] at reached
  split at reached
  next fits => exact fits
  · cases reached

/-! ## Operations on a name in a directory -/

theorem place_ne_nil (place : List String) (name : String) : place ++ [name] ≠ [] :=
  List.append_ne_nil_of_right_ne_nil _ (List.cons_ne_nil _ _)

theorem place_inj {name' : String} (same : place ++ [name] = place ++ [name']) : name = name' :=
  List.singleton_inj.1 (List.append_cancel_left same)

theorem find_join (found : fs.find current directory = .ok (place, .directory))
    (plain : Path.IsName name) (fits : Fits directory name) :
    fs.find current (Path.join directory name) = match fs.node? (place ++ [name]) with
      | some node => .ok (place ++ [name], node)
      | none => .error .notFound := by
  rw [find_of_resolve]
  rw [resolve_join found plain, if_pos fits]

theorem find_join_long (found : fs.find current directory = .ok (place, .directory))
    (plain : Path.IsName name) (long : ¬Fits directory name) :
    fs.find current (Path.join directory name) = .error .invalidFilename := by
  rw [find, resolve_join found plain, if_neg long]
  rfl

theorem readText_join (found : fs.find current directory = .ok (place, .directory))
    (plain : Path.IsName name) (fits : Fits directory name) :
    fs.readText current (Path.join directory name) = match fs.node? (place ++ [name]) with
      | some (.file text) => .ok text
      | some .directory => .error .isADirectory
      | none => .error .notFound := by
  rw [readText, find_join found plain fits]
  cases fs.node? (place ++ [name]) with
  | none => rfl
  | some node => cases node <;> rfl

theorem readText_join_long (found : fs.find current directory = .ok (place, .directory))
    (plain : Path.IsName name) (long : ¬Fits directory name) :
    fs.readText current (Path.join directory name) = .error .invalidFilename := by
  rw [readText, find_join_long found plain long]
  rfl

theorem remove_join (found : fs.find current directory = .ok (place, .directory))
    (plain : Path.IsName name) (fits : Fits directory name) :
    fs.remove current (Path.join directory name) = match fs.node? (place ++ [name]) with
      | some (.file _) => .ok (fs.erase (place ++ [name]))
      | some .directory => .error .isADirectory
      | none => .error .notFound := by
  rw [remove, find_join found plain fits]
  cases fs.node? (place ++ [name]) with
  | none => rfl
  | some node => cases node <;> rfl

theorem remove_join_long (found : fs.find current directory = .ok (place, .directory))
    (plain : Path.IsName name) (long : ¬Fits directory name) :
    fs.remove current (Path.join directory name) = .error .invalidFilename := by
  rw [remove, find_join_long found plain long]
  rfl

theorem replaceText_join (found : fs.find current directory = .ok (place, .directory))
    (room : (stagedPath current directory).utf8ByteSize ≤ pathLimit)
    (plain : Path.IsName name) (fits : Fits directory name)
    (bare : fs.node? (place ++ [name]) ≠ some .directory) (text : String) :
    fs.replaceText current directory (Path.join directory name) text =
      .ok (fs.put (place ++ [name]) (.file text)) := by
  have given : directory.isEmpty = false :=
    String.isEmpty_eq_false_iff.2 (resolve_inv (find_inv found).1).1
  have start : fs.find current (if directory.isEmpty then "." else directory) =
      .ok (place, .directory) := by
    rw [given]
    exact found
  refine replaceText_ok start room ?_ bare
  rw [resolve_join found plain, if_pos fits]

/-- A file in a directory is no part of the way to the directory. -/
theorem find_put_join (found : fs.find current directory = .ok (place, .directory))
    (bare : fs.node? (place ++ [name]) ≠ some .directory) (text : String) :
    (fs.put (place ++ [name]) (.file text)).find current directory = .ok (place, .directory) :=
  (KeepsDirectories.put (place_ne_nil place name) bare).find found

theorem find_erase_join (found : fs.find current directory = .ok (place, .directory))
    (bare : fs.node? (place ++ [name]) ≠ some .directory) :
    (fs.erase (place ++ [name])).find current directory = .ok (place, .directory) :=
  (KeepsDirectories.erase (place_ne_nil place name) bare).find found

/-! ## Names -/

def lastName? (directory place : List String) : Option String :=
  if place ≠ [] ∧ place.dropLast = directory then place.getLast? else none

theorem lastName?_eq_some_iff {other : List String} :
    lastName? place other = some name ↔ other = place ++ [name] := by
  rw [lastName?]
  constructor
  · intro last
    split at last
    next inside =>
      rw [← inside.2]
      exact (List.dropLast_append_getLast? name last).symm
    · cases last
  · rintro rfl
    simp

theorem namesAt_eq (fs : Files) (place : List String) :
    fs.namesAt place = (fs.nodes.map Prod.fst).filterMap (lastName? place) := by
  rw [List.filterMap_map]
  rfl

theorem mem_namesAt : name ∈ fs.namesAt place ↔ (fs.node? (place ++ [name])).isSome := by
  have below : place ++ [name] ≠ [] := List.append_ne_nil_of_right_ne_nil _ (List.cons_ne_nil _ _)
  rw [node?, if_neg below, List.lookup_isSome_iff, namesAt_eq, List.mem_filterMap]
  simp only [lastName?_eq_some_iff, List.mem_map, beq_iff_eq]
  constructor
  · rintro ⟨other, ⟨entry, member, rfl⟩, same⟩
    exact ⟨entry, member, same.symm⟩
  · rintro ⟨entry, member, same⟩
    exact ⟨entry.1, ⟨entry, member, rfl⟩, same.symm⟩

theorem names_of_find (found : fs.find current directory = .ok (place, .directory)) :
    fs.names current directory = .ok (fs.namesAt place) := by
  rw [names, found]
  rfl

def entries (fs : Files) (current : List String) (directory : String) : List String :=
  ((fs.directory? current directory).map fs.namesAt).getD []

theorem entries_of_directory (there : fs.directory? current directory = some place) :
    fs.entries current directory = fs.namesAt place := by
  rw [entries, there]
  rfl

theorem length_entries_le (fs : Files) (current : List String) (directory : String) :
    (fs.entries current directory).length ≤ fs.nodes.length := by
  cases there : fs.directory? current directory with
  | none =>
    rw [entries, there]
    exact Nat.zero_le _
  | some place =>
    rw [entries_of_directory there]
    exact List.length_filterMap_le _ _

theorem isTaken_iff {path : String} :
    fs.isTaken current path = true ↔ ∃ found, fs.find current path = .ok found := by
  rw [isTaken]
  cases fs.find current path <;> simp

theorem free_of_isTaken {path : String} (reached : fs.resolve current path = .ok place)
    (untaken : fs.isTaken current path = false) : fs.node? place = none := by
  cases here : fs.node? place with
  | none => rfl
  | some node =>
    rw [isTaken, find_of_resolve reached, here] at untaken
    cases untaken

theorem mem_entries_of_isTaken (plain : Path.IsName name)
    (taken : fs.isTaken current (Path.join directory name) = true) :
    name ∈ fs.entries current directory := by
  obtain ⟨⟨target, node⟩, found⟩ := isTaken_iff.1 taken
  obtain ⟨reached, here⟩ := find_inv found
  obtain ⟨place, there, rfl⟩ := resolve_join_inv plain reached
  rw [entries_of_directory there, mem_namesAt, here]
  rfl

/-- Of the names in a directory those are found that do not get too long. -/
theorem isTaken_join (there : fs.directory? current directory = some place)
    (plain : Path.IsName name) (fits : Fits directory name) :
    fs.isTaken current (Path.join directory name) = (fs.node? (place ++ [name])).isSome := by
  have reached := resolve_join_directory there plain
  rw [if_pos fits] at reached
  rw [isTaken, find_of_resolve reached]
  cases fs.node? (place ++ [name]) <;> rfl

theorem nodup_namesAt (fs : Files) (place : List String) : (fs.namesAt place).Nodup := by
  rw [namesAt_eq]
  refine List.Nodup.filterMap (fun a b name first second => ?_) fs.nodup
  rw [lastName?_eq_some_iff.1 first, lastName?_eq_some_iff.1 second]

theorem node?_eq_some_iff {node : Node} (below : place ≠ []) :
    fs.node? place = some node ↔ (place, node) ∈ fs.nodes := by
  rw [node?, if_neg below, List.lookup_eq_some_iff]
  constructor
  · rintro ⟨front, back, whole, -⟩
    rw [whole]
    exact List.mem_append_right _ List.mem_cons_self
  · intro member
    obtain ⟨front, back, whole⟩ := List.append_of_mem member
    have names := fs.nodup
    rw [whole, List.map_append, List.map_cons, List.nodup_append] at names
    refine ⟨front, back, whole, fun entry inside => ?_⟩
    exact bne_iff_ne.2 (names.2.2 _ (List.mem_map_of_mem inside) _ List.mem_cons_self).symm

/-- It makes no difference to what is where in which order it is listed. -/
theorem node?_of_perm {fs' : Files} (perm : fs'.nodes.Perm fs.nodes) (place : List String) :
    fs'.node? place = fs.node? place := by
  by_cases root : place = []
  · rw [node?, node?, if_pos root, if_pos root]
  · refine Option.ext fun node => ?_
    rw [node?_eq_some_iff root, node?_eq_some_iff root, perm.mem_iff]

theorem namesAt_put (absent : fs.node? (place ++ [name]) = none) (node : Node) :
    (fs.put (place ++ [name]) node).namesAt place = fs.namesAt place ++ [name] := by
  have free : place ++ [name] ∉ fs.nodes.map Prod.fst := by
    intro member
    obtain ⟨⟨other, old⟩, inside, rfl⟩ := List.mem_map.1 member
    rw [(node?_eq_some_iff (place_ne_nil place name)).2 inside] at absent
    cases absent
  rw [namesAt_eq, namesAt_eq, put, dif_neg free, List.map_append, List.filterMap_append]
  have last : lastName? place (place ++ [name]) = some name := lastName?_eq_some_iff.2 rfl
  simp only [List.map_cons, List.map_nil, List.filterMap_cons, last, List.filterMap_nil]

theorem namesAt_erase (fs : Files) (place : List String) (name : String) :
    (fs.erase (place ++ [name])).namesAt place = (fs.namesAt place).filter (· ≠ name) := by
  rw [namesAt_eq, namesAt_eq, erase, List.filter_filterMap, List.filterMap_map, List.filterMap_map,
    List.filterMap_filter]
  refine List.filterMap_congr fun entry _ => ?_
  simp only [Function.comp_apply]
  by_cases gone : entry.1 = place ++ [name]
  · have last : lastName? place entry.1 = some name := lastName?_eq_some_iff.2 gone
    rw [if_neg (by simp [gone]), last, Option.filter_some, if_neg (by simp)]
  · rw [if_pos (by simpa using gone)]
    cases last : lastName? place entry.1 with
    | none => rfl
    | some other =>
      have kept : other ≠ name := by
        rintro rfl
        exact gone (lastName?_eq_some_iff.1 last)
      rw [Option.filter_some, if_pos (by simpa using kept)]

end Files

end Fixture
