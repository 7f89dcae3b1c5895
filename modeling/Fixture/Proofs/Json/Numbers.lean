import Fixture.Proofs.Json.Document
import Fixture.Proofs.Json.Scan
import Fixture.Proofs.Number.Significand

/-!
The numbers of a value. `mapNumbers` changes each of them and nothing else, and `Numbers` says that
something holds of each. A document brings in no other numbers than those of its scalars.
-/

namespace Fixture.Json

variable {f : Number → Number} {P : Number → Prop}

mutual

def mapNumbers (f : Number → Number) : Json → Json
  | .num n => .num (f n)
  | .arr items => .arr (mapNumbersItems f items)
  | .obj members => .obj (mapNumbersMembers f members)
  | v => v

def mapNumbersItems (f : Number → Number) : List Json → List Json
  | [] => []
  | v :: vs => mapNumbers f v :: mapNumbersItems f vs

def mapNumbersMembers (f : Number → Number) : List (String × Json) → List (String × Json)
  | [] => []
  | (name, v) :: ms => (name, mapNumbers f v) :: mapNumbersMembers f ms

end

@[simp] theorem mapNumbers_null : mapNumbers f .null = .null := rfl

@[simp] theorem mapNumbers_bool (b : Bool) : mapNumbers f (.bool b) = .bool b := rfl

@[simp] theorem mapNumbers_num (n : Number) : mapNumbers f (.num n) = .num (f n) := rfl

@[simp] theorem mapNumbers_str (s : String) : mapNumbers f (.str s) = .str s := rfl

@[simp] theorem mapNumbers_arr (items : List Json) :
    mapNumbers f (.arr items) = .arr (items.map (mapNumbers f)) := by
  rw [mapNumbers, Json.arr.injEq]
  induction items with
  | nil => rfl
  | cons v vs ih => rw [mapNumbersItems, ih, List.map_cons]

@[simp] theorem mapNumbers_obj (members : List (String × Json)) :
    mapNumbers f (.obj members) = .obj (mapValues (mapNumbers f) members) := by
  rw [mapNumbers, Json.obj.injEq]
  induction members with
  | nil => rfl
  | cons m ms ih => rw [mapNumbersMembers, ih, mapValues, mapValues, List.map_cons]

mutual

def Numbers (P : Number → Prop) : Json → Prop
  | .num n => P n
  | .arr items => NumbersItems P items
  | .obj members => NumbersMembers P members
  | _ => True

def NumbersItems (P : Number → Prop) : List Json → Prop
  | [] => True
  | v :: vs => Numbers P v ∧ NumbersItems P vs

def NumbersMembers (P : Number → Prop) : List (String × Json) → Prop
  | [] => True
  | (_, v) :: ms => Numbers P v ∧ NumbersMembers P ms

end

@[simp] theorem numbers_null : Numbers P .null := trivial

@[simp] theorem numbers_bool (b : Bool) : Numbers P (.bool b) := trivial

@[simp] theorem numbers_num {n : Number} : Numbers P (.num n) ↔ P n := Iff.rfl

@[simp] theorem numbers_str (s : String) : Numbers P (.str s) := trivial

@[simp] theorem numbers_arr_iff {items : List Json} :
    Numbers P (.arr items) ↔ ∀ v ∈ items, Numbers P v := by
  rw [Numbers]
  induction items with
  | nil => simp [NumbersItems]
  | cons v vs ih => rw [NumbersItems, ih, List.forall_mem_cons]

@[simp] theorem numbers_obj_iff {members : List (String × Json)} :
    Numbers P (.obj members) ↔ ∀ m ∈ members, Numbers P m.2 := by
  rw [Numbers]
  induction members with
  | nil => simp [NumbersMembers]
  | cons m ms ih => rw [NumbersMembers, ih, List.forall_mem_cons]

theorem numbers_ofMembers {members : List (String × Json)}
    (each : ∀ m ∈ members, Numbers P m.2) : Numbers P (ofMembers members) := by
  rw [ofMembers_eq, numbers_obj_iff]
  exact fun m member => each m (mem_of_mem_arrange member)

theorem mapNumbers_eq_self {v : Json} (kept : v.Numbers fun n => f n = n) :
    mapNumbers f v = v := by
  induction v using induct with
  | num n => exact congrArg num kept
  | arr items ih =>
    rw [mapNumbers_arr, map_eq_self_iff.2]
    exact fun v member => ih v member (numbers_arr_iff.1 kept v member)
  | obj members ih =>
    rw [mapNumbers_obj, mapValues, map_eq_self_iff.2]
    exact fun m member => congrArg (m.1, ·) (ih m member (numbers_obj_iff.1 kept m member))
  | _ => rfl

@[simp] theorem depth_mapNumbers (v : Json) : (mapNumbers f v).depth = v.depth := by
  induction v using induct with
  | arr items ih =>
    rw [mapNumbers_arr, depth, depth, Nat.add_right_cancel_iff]
    induction items with
    | nil => rfl
    | cons v vs later =>
      rw [List.map_cons, depthItems, depthItems, ih v List.mem_cons_self,
        later fun u inside => ih u (List.mem_cons_of_mem _ inside)]
  | obj members ih =>
    rw [mapNumbers_obj, depth, depth, Nat.add_right_cancel_iff]
    induction members with
    | nil => rfl
    | cons m ms later =>
      show depthMembers ((m.1, mapNumbers f m.2) :: mapValues (mapNumbers f) ms) = _
      rw [depthMembers, depthMembers, ih m List.mem_cons_self,
        later fun n inside => ih n (List.mem_cons_of_mem _ inside)]
  | _ => rfl

/-! ## In documents -/

namespace Document

def Numbers (P : Number → Prop) (d : Document) : Prop :=
  ∀ n, Within (.scalar (.num (.ok n))) d → P n

theorem Numbers.within {d e : Document} (numbers : d.Numbers P) (inside : Within e d) :
    e.Numbers P :=
  fun n inner => numbers n (inner.trans inside)

theorem numbers_scalar {s : Scalar} (given : ∀ n, s = .num (.ok n) → P n) :
    (scalar s).Numbers P := by
  intro n inside
  cases inside
  exact given n rfl

theorem numbers_arr {items : List Document} {ending : Ending}
    (each : ∀ d ∈ items, d.Numbers P) : (arr items ending).Numbers P := by
  intro n inside
  cases inside with
  | item member inner => exact each _ member n inner

theorem numbers_obj {members : List Member} {ending : Ending}
    (each : ∀ m ∈ members, m.2.Numbers P) : (obj members ending).Numbers P := by
  intro n inside
  cases inside with
  | member member inner => exact each _ member n inner

theorem numbers_missing (fault : Fault) : (missing fault).Numbers P := by
  intro n inside
  cases inside

theorem Numbers.atDepth {d : Document} (numbers : d.Numbers P) (outer : Nat) :
    (atDepth outer d).Numbers P := by
  unfold Document.atDepth
  split
  · exact numbers
  · intro n inside
    cases inside

theorem numbers_ofJson {v : Json} (numbers : v.Numbers P) : (ofJson v).Numbers P := by
  induction v using induct with
  | num n =>
    refine numbers_scalar fun m same => ?_
    obtain rfl := Except.ok.inj (Scalar.num.inj same)
    exact numbers
  | arr items ih =>
    rw [ofJson, itemsOf_eq]
    refine numbers_arr fun d member => ?_
    obtain ⟨v, inside, rfl⟩ := List.mem_map.1 member
    exact ih v inside (Json.numbers_arr_iff.1 numbers v inside)
  | obj members ih =>
    rw [ofJson, membersOf_eq]
    refine numbers_obj fun m member => ?_
    obtain ⟨n, inside, rfl⟩ := List.mem_map.1 member
    exact ih n inside (Json.numbers_obj_iff.1 numbers n inside)
  | _ => exact numbers_scalar (by simp)

mutual

theorem numbers_of_toJson : (d : Document) → {v : Json} → d.Numbers P → d.toJson = .ok v →
    v.Numbers P
  | .scalar s, v, numbers, given => by
    cases s with
    | null => cases given; trivial
    | bool b => cases given; trivial
    | num value =>
      cases value with
      | error f => cases given
      | ok n => cases given; exact numbers n (.self _)
    | str value => cases value <;> cases given; trivial
    | _ => cases given
  | .arr items ending, v, numbers, given => by
    obtain ⟨vs, listed, -, rfl⟩ := toJson_arr given
    refine numbers_arr_iff.2 (numbers_of_items items (fun d member => ?_) listed)
    exact numbers.within (.item member (.self d))
  | .obj members ending, v, numbers, given => by
    obtain ⟨ms, listed, -, rfl⟩ := toJson_obj given
    refine numbers_ofMembers (numbers_of_members members (fun m member => ?_) listed)
    have inside : (m.1, m.2) ∈ members := member
    exact numbers.within (.member inside (.self m.2))

theorem numbers_of_items : (ds : List Document) → {vs : List Json} →
    (∀ d ∈ ds, d.Numbers P) → itemsToJson ds = .ok vs → ∀ v ∈ vs, v.Numbers P
  | [], vs, _, given => by cases given; exact fun v member => absurd member List.not_mem_nil
  | d :: ds, vs, numbers, given => by
    obtain ⟨v, rest, first, later, rfl⟩ := itemsToJson_cons given
    obtain ⟨here, others⟩ := List.forall_mem_cons.1 numbers
    exact List.forall_mem_cons.2 ⟨numbers_of_toJson d here first, numbers_of_items ds others later⟩

theorem numbers_of_members : (members : List (Except Fault String × Document)) →
    {ms : List (String × Json)} → (∀ m ∈ members, m.2.Numbers P) →
    membersToJson members = .ok ms → ∀ m ∈ ms, m.2.Numbers P
  | [], ms, _, given => by cases given; exact fun m member => absurd member List.not_mem_nil
  | (key, d) :: members, ms, numbers, given => by
    obtain ⟨name, v, rest, -, first, later, rfl⟩ := membersToJson_cons given
    obtain ⟨here, others⟩ := List.forall_mem_cons.1 numbers
    exact List.forall_mem_cons.2
      ⟨numbers_of_toJson d here first, numbers_of_members members others later⟩

end

theorem Gives.numbers {d : Document} {v : Json} (gives : d.Gives v) (numbers : d.Numbers P) :
    v.Numbers P := by
  obtain ⟨e, inside, given⟩ := gives
  exact numbers_of_toJson e (numbers.within inside) given

end Document

/-! ## In texts -/

def Token.Numbers (P : Number → Prop) (t : Token) : Prop := ∀ n, t = .scalar (.num (.ok n)) → P n

namespace Surrounding

def Numbers (P : Number → Prop) : Surrounding → Prop
  | .item before => ∀ d ∈ before, d.Numbers P
  | .member before _ => ∀ m ∈ before, m.2.Numbers P

end Surrounding

namespace Reading

open Document (atDepth sealIn)

/-- Something holds of all numbers in what is read so far. -/
def Numbers (P : Number → Prop) : Reading → Prop
  | .atValue around | .atFirstItem around | .atFirstName around => ∀ s ∈ around, s.Numbers P
  | .afterItem items around => (∀ d ∈ items, d.Numbers P) ∧ ∀ s ∈ around, s.Numbers P
  | .atName members around | .atColon members _ around | .afterMember members around =>
    (∀ m ∈ members, m.2.Numbers P) ∧ ∀ s ∈ around, s.Numbers P
  | .done d _ => d.Numbers P

variable {around : List Surrounding} {d : Document}

theorem numbers_push {members : List Member} (value : d.Numbers P)
    (each : ∀ m ∈ members, m.2.Numbers P) (name : Except Fault String) :
    ∀ m ∈ (name, d) :: members, m.2.Numbers P := by
  intro m member
  rcases List.mem_cons.1 member with rfl | later
  · exact value
  · exact each m later

theorem numbers_closeArray {items : List Document} (each : ∀ d ∈ items, d.Numbers P)
    (ending : Ending) (around : List Surrounding) :
    (closeArray items ending around).Numbers P :=
  (Document.numbers_arr fun d member => each d (List.mem_reverse.1 member)).atDepth _

theorem numbers_closeObject {members : List Member} (each : ∀ m ∈ members, m.2.Numbers P)
    (ending : Ending) (around : List Surrounding) :
    (closeObject members ending around).Numbers P :=
  (Document.numbers_obj fun m member => each m (List.mem_reverse.1 member)).atDepth _

theorem numbers_sealIn (outer : ∀ s ∈ around, s.Numbers P) (inner : d.Numbers P) :
    (sealIn around d).Numbers P := by
  induction around generalizing d with
  | nil => exact inner
  | cons s around ih =>
    obtain ⟨here, further⟩ := List.forall_mem_cons.1 outer
    cases s with
    | item before =>
      exact ih further (numbers_closeArray (List.forall_mem_cons.2 ⟨inner, here⟩) _ around)
    | member before name =>
      exact ih further (numbers_closeObject (numbers_push inner here name) _ around)

theorem numbers_place (outer : ∀ s ∈ around, s.Numbers P) (inner : d.Numbers P) :
    (place d around).Numbers P := by
  cases around with
  | nil => exact inner
  | cons s around =>
    obtain ⟨here, further⟩ := List.forall_mem_cons.1 outer
    cases s with
    | item before => exact ⟨List.forall_mem_cons.2 ⟨inner, here⟩, further⟩
    | member before name =>
      exact ⟨numbers_push inner here name, further⟩

theorem numbers_readValue {token : Token} (outer : ∀ s ∈ around, s.Numbers P)
    (numbers : token.Numbers P) : (readValue around token).Numbers P := by
  cases token with
  | scalar s =>
    have given : (Document.scalar s).Numbers P :=
      Document.numbers_scalar fun n same => numbers n (same ▸ rfl)
    rw [readValue]
    split
    · exact numbers_place outer given
    · exact numbers_sealIn outer given
  | openArray => exact outer
  | openObject => exact outer
  | _ => exact numbers_sealIn outer (Document.numbers_missing _)

theorem numbers_readName {members : List Member} {token : Token}
    (each : ∀ m ∈ members, m.2.Numbers P) (outer : ∀ s ∈ around, s.Numbers P) :
    (readName members around token).Numbers P := by
  have stopped (ending : Ending) :
      (stop (closeObject members ending around) around).Numbers P :=
    numbers_sealIn outer (numbers_closeObject each ending around)
  cases token with
  | scalar s =>
    cases s with
    | str value => exact ⟨each, outer⟩
    | brokenText wanted skipped =>
      exact numbers_sealIn outer
        (numbers_closeObject (numbers_push (Document.numbers_missing _) each _) _ around)
    | _ => exact stopped _
  | _ => exact stopped _

theorem Numbers.next {r : Reading} {token : Token} (reading : r.Numbers P)
    (numbers : token.Numbers P) : (r.next token).Numbers P := by
  cases r with
  | atValue around => exact numbers_readValue reading numbers
  | atFirstItem around =>
    have value : (readValue (.item [] :: around) token).Numbers P :=
      numbers_readValue (List.forall_mem_cons.2 ⟨by simp [Surrounding.Numbers], reading⟩) numbers
    cases token with
    | closeArray => exact numbers_place reading (numbers_closeArray (by simp) _ around)
    | _ => exact value
  | afterItem items around =>
    obtain ⟨each, outer⟩ := reading
    cases token with
    | comma => exact List.forall_mem_cons.2 ⟨each, outer⟩
    | closeArray => exact numbers_place outer (numbers_closeArray each _ around)
    | _ => exact numbers_sealIn outer (numbers_closeArray each _ around)
  | atFirstName around =>
    have name : (readName [] around token).Numbers P := numbers_readName (by simp) reading
    cases token with
    | closeObject => exact numbers_place reading (numbers_closeObject (by simp) _ around)
    | _ => exact name
  | atName members around => exact numbers_readName reading.1 reading.2
  | atColon members name around =>
    obtain ⟨each, outer⟩ := reading
    have within : ∀ s ∈ Surrounding.member members name :: around, s.Numbers P :=
      List.forall_mem_cons.2 ⟨each, outer⟩
    cases token with
    | colon => exact within
    | _ => exact numbers_sealIn within (Document.numbers_missing _)
  | afterMember members around =>
    obtain ⟨each, outer⟩ := reading
    cases token with
    | comma => exact ⟨each, outer⟩
    | closeObject => exact numbers_place outer (numbers_closeObject each _ around)
    | _ => exact numbers_sealIn outer (numbers_closeObject each _ around)
  | done d trailing => exact reading

theorem Numbers.finish {r : Reading} (reading : r.Numbers P) : r.finish.1.Numbers P := by
  cases r with
  | atValue around => exact numbers_sealIn reading (Document.numbers_missing _)
  | atFirstItem around => exact numbers_sealIn reading (numbers_closeArray (by simp) _ around)
  | afterItem items around =>
    exact numbers_sealIn reading.2 (numbers_closeArray reading.1 _ around)
  | atFirstName around => exact numbers_sealIn reading (numbers_closeObject (by simp) _ around)
  | atName members around =>
    exact numbers_sealIn reading.2 (numbers_closeObject reading.1 _ around)
  | atColon members name around =>
    exact numbers_sealIn (List.forall_mem_cons.2 reading) (Document.numbers_missing _)
  | afterMember members around =>
    exact numbers_sealIn reading.2 (numbers_closeObject reading.1 _ around)
  | done d trailing => exact reading

end Reading

namespace TextScan

theorem plainChar_ne_num (t : TextScan) (c : Char) (n : Except Fault Number) :
    t.plainChar c ≠ .error (.num n) := by
  unfold plainChar
  split_ifs <;> simp [broken]

theorem escapedChar_ne_num (t : TextScan) (c : Char) (n : Except Fault Number) :
    t.escapedChar c ≠ .error (.num n) := by
  unfold escapedChar
  split
  · simp
  · split <;> simp [broken]

theorem next_ne_num (t : TextScan) (c : Char) (n : Except Fault Number) :
    t.next c ≠ .error (.num n) := by
  unfold next
  split
  · exact plainChar_ne_num t c n
  · exact escapedChar_ne_num t c n
  · split
    · simp
    · split <;> simp [broken]
  · split <;> simp [broken]
  · split
    · simp
    · exact plainChar_ne_num _ c n
  · split
    · simp
    · exact escapedChar_ne_num _ c n

end TextScan

namespace Scan

open Number (Bounded)

def Wordless (s : Scan) : Prop := ∀ rest n, s ≠ .word rest (.num (.ok n))

/-- Tokens in which all integers have at most 64 bits, and a state that leads to no others. -/
structure Sound (step : List Token × Scan) : Prop where
  tokens : ∀ t ∈ step.1, t.Numbers Bounded
  state : step.2.Wordless

theorem Sound.ite {p : Prop} [Decidable p] {step step' : List Token × Scan} (sound : Sound step)
    (sound' : Sound step') : Sound (if p then step else step') := by
  split
  · exact sound
  · exact sound'

theorem sound_start (c : Char) : Sound (start c) := by
  unfold start
  repeat' apply Sound.ite
  all_goals exact ⟨by simp [Token.Numbers], by simp [Wordless]⟩

theorem numbers_numeralScalar (n : Numeral) :
    (Token.scalar (numeralScalar n)).Numbers Bounded := by
  intro m same
  unfold numeralScalar at same
  simp only [Token.scalar.injEq, Scalar.num.injEq] at same
  cases read : Numeral.value? _ with
  | none => rw [read] at same; cases same
  | some k =>
    rw [read] at same
    obtain rfl := Except.ok.inj same
    exact Numeral.bounded_of_value? read

theorem Sound.cons {step : List Token × Scan} (sound : Sound step) {t : Token}
    (bounded : t.Numbers Bounded) : Sound (t :: step.1, step.2) :=
  ⟨List.forall_mem_cons.2 ⟨bounded, sound.tokens⟩, sound.state⟩

theorem sound_inNumeral (stage : NumeralStage) (n : Numeral) (c : Char) :
    Sound (inNumeral stage n c) := by
  have ended := (sound_start c).cons (numbers_numeralScalar n)
  have wrong : Sound ([.scalar (.brokenWord .malformed .malformed)], .stopped) :=
    ⟨by simp [Token.Numbers], by simp [Wordless]⟩
  have onward (stage : NumeralStage) (n : Numeral) : Sound ([], .numeral stage n) :=
    ⟨by simp, by simp [Wordless]⟩
  unfold inNumeral
  refine Sound.ite ?_ ?_
  · simp only
    split
    · exact onward _ _
    · exact wrong
  · cases stage with
    | zero => exact (onward _ _).ite ((onward _ _).ite ended)
    | whole => exact (onward _ _).ite ((onward _ _).ite ended)
    | fraction => exact (onward _ _).ite ((onward _ _).ite ended)
    | exponent => exact ended
    | mark => exact (onward _ _).ite ((onward _ _).ite wrong)
    | _ => exact wrong

theorem Wordless.next {s : Scan} (wordless : s.Wordless) (c : Char) : Sound (s.next c) := by
  have wrong : Sound ([.scalar (.brokenWord .malformed .malformed)], .stopped) :=
    ⟨by simp [Token.Numbers], by simp [Wordless]⟩
  cases s with
  | between => exact sound_start c
  | word rest scalar =>
    have plain (n : Number) : scalar ≠ .num (.ok n) := by
      rintro rfl
      exact wordless rest n rfl
    cases rest with
    | nil =>
      refine (sound_start c).cons fun n same => ?_
      exact absurd (Token.scalar.inj same) (plain n)
    | cons expected rest =>
      simp only [Scan.next]
      split
      · exact ⟨by simp, fun rest' n same => plain n (Scan.word.inj same).2⟩
      · exact wrong
  | numeral stage n => exact sound_inNumeral stage n c
  | text t =>
    simp only [Scan.next]
    split
    · exact ⟨by simp, by simp [Wordless]⟩
    next scalar ended =>
      refine ⟨fun t' member n same => ?_, by split <;> simp [Wordless]⟩
      obtain rfl := List.mem_singleton.1 member
      exact absurd (Token.scalar.inj same ▸ ended) (t.next_ne_num c (.ok n))
  | stopped => exact ⟨by simp [Scan.next], by simp [Scan.next, Wordless]⟩

theorem Wordless.run {s : Scan} (wordless : s.Wordless) (cs : List Char) : Sound (s.run cs) := by
  induction cs generalizing s with
  | nil => exact ⟨by simp, wordless⟩
  | cons c cs ih =>
    have first := wordless.next c
    have rest := ih first.state
    refine ⟨fun t member => ?_, rest.state⟩
    rcases List.mem_append.1 member with here | later
    · exact first.tokens t here
    · exact rest.tokens t later

theorem Wordless.finish {s : Scan} (wordless : s.Wordless) :
    ∀ t ∈ s.finish, t.Numbers Bounded := by
  intro t member
  cases s with
  | between => cases member
  | stopped => cases member
  | word rest scalar =>
    cases rest with
    | nil =>
      obtain rfl := List.mem_singleton.1 member
      exact fun n same => absurd (congrArg (Scan.word []) (Token.scalar.inj same)) (wordless [] n)
    | cons c rest =>
      obtain rfl := List.mem_singleton.1 member
      simp [Token.Numbers]
  | numeral stage n =>
    obtain rfl := List.mem_singleton.1 member
    split
    · exact numbers_numeralScalar n
    · simp [Token.Numbers]
  | text t' =>
    obtain rfl := List.mem_singleton.1 member
    simp [Token.Numbers, TextScan.broken]

end Scan

theorem numbers_tokens (text : List Char) : ∀ t ∈ tokens text, t.Numbers Number.Bounded := by
  have between : Scan.between.Wordless := by simp [Scan.Wordless]
  have sound := between.run text
  intro t member
  rw [tokens_eq] at member
  rcases List.mem_append.1 member with inside | last
  · exact sound.tokens t inside
  · exact sound.state.finish t last

/-- Whatever a text holds, integers in it have at most 64 bits. -/
theorem Document.numbers_ofText (text : String) :
    (Document.ofText text).1.Numbers Number.Bounded := by
  have onward (ts : List Token) (bounded : ∀ t ∈ ts, t.Numbers Number.Bounded) (r : Reading)
      (reading : r.Numbers Number.Bounded) :
      (ts.foldl (fun reading token => reading.next token) r).Numbers Number.Bounded := by
    induction ts generalizing r with
    | nil => exact reading
    | cons t ts ih =>
      obtain ⟨here, later⟩ := List.forall_mem_cons.1 bounded
      exact ih later _ (reading.next here)
  exact (onward _ (numbers_tokens text.toList) (.atValue []) (by simp [Reading.Numbers])).finish

end Fixture.Json
