import Fixture.Proofs.Host.Place

/-!
Paths that are longer than they need to be. A point leads nowhere, so with points in front a path leads
where it did, but it gets longer, and no text can be set aside in a directory whose path is too long.
-/

namespace Fixture

namespace Path

theorem intercalate_split (cs : List Char) : ['/'].intercalate (split cs) = cs := by
  induction cs with
  | nil => rfl
  | cons c cs ih =>
    rw [split]
    split
    next slash =>
      obtain ⟨part, others, same⟩ := List.exists_cons_of_ne_nil (split_ne_nil cs)
      rw [same] at ih ⊢
      rw [List.intercalate_cons_cons, ih, slash]
      rfl
    next other =>
      cases parts : split cs with
      | nil => exact absurd parts (split_ne_nil cs)
      | cons part others =>
        rw [parts] at ih
        cases others with
        | nil => rw [← ih]; rfl
        | cons next others =>
          rw [List.intercalate_cons_cons] at ih ⊢
          rw [← ih]
          rfl

theorem ofParts_parts (path : String) : ofParts (parts path) = path := by
  refine String.toList_inj.1 ?_
  rw [ofParts, parts, String.toList_intercalate, List.map_map]
  have same : (split path.toList).map (String.toList ∘ String.ofList) = split path.toList :=
    List.map_id'' (fun _ => String.toList_ofList) _
  rw [same]
  exact intercalate_split _

def detour : Nat → String → String
  | 0, path => path
  | n + 1, path => "./" ++ detour n path

theorem parts_detour (n : Nat) (path : String) :
    parts (detour n path) = List.replicate n "." ++ parts path := by
  induction n with
  | zero => rfl
  | succ n ih =>
    have point : split (detour (n + 1) path).toList = ['.'] :: split (detour n path).toList := by
      rw [detour, String.toList_append]
      exact split_append ['.'] _
    rw [parts, point, List.map_cons, ← parts, ih]
    rfl

theorem utf8ByteSize_detour (n : Nat) (path : String) :
    (detour n path).utf8ByteSize = 2 * n + path.utf8ByteSize := by
  induction n with
  | zero => simp [detour]
  | succ n ih =>
    rw [detour, String.utf8ByteSize_append, ih, show "./".utf8ByteSize = 2 from rfl]
    omega

theorem ofParts_points (n : Nat) (path : String) :
    ofParts (List.replicate n "." ++ parts path) = detour n path := by
  rw [← parts_detour, ofParts_parts]

theorem trim_concat {names : List String} {name : String} (busy : isIdle name = false) :
    trim (names ++ [name]) = names ++ [name] := by
  rw [trim, List.reverse_concat, List.dropWhile_cons_of_neg (by rw [busy]; decide),
    List.reverse_cons, List.reverse_reverse]

theorem parent?_of_parts {path first directory name : String} {names : List String}
    (given : parts path = first :: (names ++ [directory, name])) (inner : isIdle directory = false)
    (last : isIdle name = false) :
    parent? path = some (ofParts (first :: (names ++ [directory]))) := by
  have whole : trim (names ++ [directory, name]) = names ++ [directory] ++ [name] := by
    rw [← trim_concat last, List.append_assoc]
    rfl
  have some_name (names : List String) (name : String) : names ++ [name] ≠ [] :=
    List.append_ne_nil_of_right_ne_nil _ (List.cons_ne_nil _ _)
  rw [parent?, given]
  dsimp only
  rw [whole]
  split
  next none => exact absurd none (some_name _ _)
  · rw [List.dropLast_concat, trim_concat inner]
    split
    next none => exact absurd none (some_name _ _)
    · rfl

theorem parent?_join {directory name last : String} {front : List String}
    (ends : parts directory = front ++ [last]) (busy : isIdle last = false)
    (plain : IsName name) : parent? (join directory name) = some directory := by
  have given : directory ≠ "" := by
    rintro rfl
    have only : parts "" = [] ++ [""] := rfl
    obtain ⟨-, same⟩ := List.append_inj' (only.symm.trans ends) rfl
    rw [← List.singleton_inj.1 same] at busy
    cases busy
  obtain ⟨front', -, below, before⟩ := parts_join given plain.slash
  have whole : front' = front ++ [last] := by
    rcases before with same | slash
    · rw [← same, ends]
    · rw [ends] at slash
      obtain ⟨-, same⟩ := List.append_inj' slash rfl
      rw [List.singleton_inj.1 same] at busy
      cases busy
  rw [whole, List.append_assoc] at below
  have named : ofParts (front ++ [last]) = directory := by rw [← ends, ofParts_parts]
  cases front with
  | nil =>
    have only : trim ([] ++ [name]) = [] ++ [name] := trim_concat plain.idle
    have some_text : last.isEmpty = false := by
      refine String.isEmpty_eq_false_iff.2 ?_
      rintro rfl
      cases busy
    rw [parent?, below]
    dsimp only [List.nil_append, List.cons_append] at only ⊢
    rw [only]
    simpa [trim, some_text, ofParts] using named
  | cons first names => exact (parent?_of_parts below busy plain.idle).trans (congrArg some named)

end Path

namespace Files

variable {fs : Files} {current place : List String} {path : String}

theorem walk_points (here : fs.node? place = some .directory) (n : Nat) (parts : List String) :
    fs.walk place (List.replicate n "." ++ parts) = fs.walk place parts := by
  induction n with
  | zero => rfl
  | succ n ih =>
    rw [List.replicate_succ, List.cons_append, walk, here]
    exact ih

/-- With points in front a path leads where it did, as long as it does not get too long. -/
theorem resolve_detour (here : fs.node? current = some .directory) (given : path ≠ "")
    (relative : (Path.parts path).head? ≠ some "") (clean : '\x00' ∉ path.toList) (n : Nat)
    (short : 2 * n + path.utf8ByteSize ≤ pathLimit) :
    fs.resolve current (Path.detour n path) = fs.resolve current path := by
  have size := Path.utf8ByteSize_detour n path
  have points : Path.detour n path ≠ "" := by
    cases n with
    | zero => exact given
    | succ n => exact fun empty => absurd (String.append_eq_empty_iff.1 empty).1 (by decide)
  have still : '\x00' ∉ (Path.detour n path).toList := by
    clear size points short
    induction n with
    | zero => exact clean
    | succ n ih =>
      rw [Path.detour, String.toList_append, List.mem_append, not_or]
      exact ⟨by decide, ih⟩
  have start (parts : List String) (relative : parts.head? ≠ some "") :
      fs.follow current parts = fs.walk current parts := by
    rw [follow]
    rintro rest rfl
    exact relative rfl
  rw [resolve_of_text points still, resolve_of_text given clean, if_neg (by omega), if_neg (by omega),
    Path.parts_detour, start _ relative, ← walk_points here n, start]
  cases n with
  | zero => exact relative
  | succ n => exact fun first => absurd (Option.some.inj first) (by decide)

theorem makeDirectories_there {parents : List String}
    (found : fs.find current path = .ok (place, .directory))
    (named : (Path.parts path).getLast? ≠ some "") :
    fs.makeDirectories current (path :: parents) = (.ok (), fs) := by
  obtain ⟨reached, here⟩ := find_inv found
  obtain ⟨given, -, -⟩ := resolve_inv reached
  have some_part : Path.parts path ≠ [] := by
    intro none
    exact Path.split_ne_nil _ (List.map_eq_nil_iff.1 none)
  have whole : ((Path.parts path).reverse.dropWhile (· == "")).reverse = Path.parts path := by
    obtain ⟨last, ends⟩ := Option.isSome_iff_exists.1 (List.getLast?_isSome.2 some_part)
    obtain ⟨names, same⟩ := List.getLast?_eq_some_iff.1 ends
    rw [same, List.reverse_concat, List.dropWhile_cons_of_neg, List.reverse_cons,
      List.reverse_reverse]
    intro empty
    rw [beq_iff_eq] at empty
    exact named (ends.trans (congrArg some empty))
  have there : fs.makeDirectory current path = .error .alreadyExists := by
    have present : (Path.parts path).isEmpty = false := by simpa using some_part
    simp only [makeDirectory, whole, present, Path.ofParts_parts, Bool.false_eq_true, if_false,
      reached, bind, Except.bind, here]
  have known : fs.isDirectory current path = true := by
    rw [isDirectory, found]
  have some_path : path.isEmpty = false := String.isEmpty_eq_false_iff.2 given
  simp only [makeDirectories, some_path, there, known]
  rfl

theorem replaceText_long {start : List String} {directory text : String}
    (found : fs.find current (if directory.isEmpty then "." else directory) =
      .ok (start, .directory))
    (long : pathLimit < (stagedPath current directory).utf8ByteSize) :
    fs.replaceText current directory path text = .error (.staging .invalidFilename) := by
  rw [replaceText, found]
  exact if_pos long

end Files

end Fixture
