import Fixture.CommandLine.Menu
import Fixture.Proofs.Json.Document

/-!
What arguments can ask for. Every text that a command gets is the text of one of its settings, and the
path that a setting takes is not empty, however the arguments are put.
-/

namespace Fixture.CommandLine

variable {l l' : Level} {s : Setting} {g : Given} {text : String}

inductive Menu.Offers : Menu → List Setting → (Given → Invocation) → Prop where
  | command (settings : List Setting) (invocation : Given → Invocation) :
    Offers (.command settings invocation) settings invocation
  | group {choices : List (String × Menu)} {name : String} {menu : Menu} {settings : List Setting}
    {invocation : Given → Invocation} (chosen : (name, menu) ∈ choices)
    (offers : menu.Offers settings invocation) : Offers (.group choices) settings invocation

namespace Given

def OfSettings (g : Given) (settings : List Setting) : Prop :=
  ∀ entry ∈ g.texts, ∃ s ∈ settings, s.name = entry.1 ∧ (s.taking = .path → entry.2 ≠ "")

def Complete (g : Given) (settings : List Setting) : Prop :=
  ∀ s ∈ settings, s.isRequired = true → (g.text? s.name).isSome = true

variable {settings : List Setting}

theorem OfSettings.optional (texts : g.OfSettings settings) (name : String)
    (taken : ∀ s ∈ settings, s.name = name → s.taking = .path) :
    ∀ path ∈ (g.text? name).toList, path ≠ "" := by
  rintro _ found rfl
  obtain ⟨before, after, same, -⟩ := List.lookup_eq_some_iff.1 (Option.mem_toList.1 found)
  have member : (name, "") ∈ g.texts := by
    rw [same]
    exact List.mem_append_right _ List.mem_cons_self
  obtain ⟨s, own, named, given⟩ := texts _ member
  exact given (taken s own named) rfl

theorem OfSettings.required (texts : g.OfSettings (settings ++ commonSettings))
    (complete : g.Complete settings) (name : String)
    (asked : ∃ s ∈ settings, s.name = name ∧ s.isRequired = true)
    (taken : ∀ s ∈ settings ++ commonSettings, s.name = name → s.taking = .path) :
    g.text name ≠ "" := by
  obtain ⟨s, own, rfl, required⟩ := asked
  obtain ⟨path, found⟩ := Option.isSome_iff_exists.1 (complete s own required)
  have given := texts.optional _ taken path (Option.mem_toList.2 found)
  rwa [Given.text, found]

end Given

namespace Level

structure Sound (l : Level) : Prop where
  given : l.given.OfSettings l.settings
  waiting : ∀ {s text}, l.waiting = some (s, text) → s ∈ l.settings

theorem sound_start (menu : Menu) : Sound { menu } where
  given := List.forall_mem_nil _
  waiting := by rintro _ _ ⟨⟩

structure Keeps (l l' : Level) : Prop where
  menu : l'.menu = l.menu
  sound : l'.Sound

namespace Keeps

theorem settings (keeps : l.Keeps l') : l'.settings = l.settings := by
  rw [Level.settings, Level.settings, keeps.menu]

theorem trans {l'' : Level} (first : l.Keeps l') (second : l'.Keeps l'') : l.Keeps l'' :=
  ⟨second.menu.trans first.menu, second.sound⟩

end Keeps

theorem keeps_take (sound : l.Sound) (own : s ∈ l.settings) (taken : l.take s text = .ok l') :
    l.Keeps l' := by
  rw [take] at taken
  split at taken
  · cases taken
  split at taken
  · cases taken
  next named =>
    obtain rfl := Except.ok.inj taken
    refine ⟨rfl, fun entry member => ?_, sound.waiting⟩
    rcases List.mem_append.1 member with before | last
    · exact sound.given entry before
    · obtain rfl := List.mem_singleton.1 last
      refine ⟨s, own, rfl, fun path empty => named ⟨path, ?_⟩⟩
      exact String.isEmpty_iff.2 empty

theorem keeps_settle (sound : l.Sound) (settled : l.settle = .ok l') : l.Keeps l' := by
  unfold settle at settled
  split at settled
  · obtain rfl := Except.ok.inj settled
    exact ⟨rfl, sound⟩
  · cases settled
  next s text waits =>
    have free : Sound { l with waiting := none } := ⟨sound.given, by rintro _ _ ⟨⟩⟩
    have keeps := keeps_take free (sound.waiting waits) settled
    exact ⟨keeps.menu, keeps.sound⟩

theorem keeps_raise (sound : l.Sound) (raised : l.raise s = .ok l') : l.Keeps l' := by
  obtain ⟨l₁, settled, rest⟩ := Json.bind_ok raised
  have keeps := keeps_settle sound settled
  split at rest
  · cases rest
  split at rest
  · cases rest
  · obtain rfl := Except.ok.inj rest
    exact keeps.trans ⟨rfl, keeps.sound.given, keeps.sound.waiting⟩

theorem keeps_start {text : Option String} (sound : l.Sound) (own : s ∈ l.settings)
    (started : l.start s text = .ok l') : l.Keeps l' := by
  obtain ⟨l₁, settled, rest⟩ := Json.bind_ok started
  have keeps := keeps_settle sound settled
  have here : s ∈ l₁.settings := keeps.settings ▸ own
  cases text with
  | some text => exact keeps.trans (keeps_take keeps.sound here rest)
  | none =>
    obtain rfl := Except.ok.inj rest
    refine keeps.trans ⟨rfl, keeps.sound.given, fun waits => ?_⟩
    obtain ⟨rfl, -⟩ := Prod.mk.inj (Option.some.inj waits)
    exact here

theorem keeps_readName {body : List Char} (sound : l.Sound) (read : l.readName body = .ok l') :
    l.Keeps l' := by
  cases found : l.withName? (String.ofList (body.takeWhile (· ≠ '='))) with
  | none =>
    simp only [readName, found] at read
    cases read
  | some s =>
    have own : s ∈ l.settings := List.mem_of_find?_eq_some found
    cases after : body.dropWhile (· ≠ '=')
    all_goals
      simp only [readName, found, after] at read
      split at read
      · exact keeps_raise sound read
      · cases read
      · exact keeps_start sound own read

theorem keeps_readLetters {letters : List Char} (sound : l.Sound)
    (read : l.readLetters letters = .ok l') : l.Keeps l' := by
  induction letters generalizing l with
  | nil =>
    obtain rfl := Except.ok.inj read
    exact ⟨rfl, sound⟩
  | cons letter rest ih =>
    rw [readLetters] at read
    split at read
    · cases read
    next s found =>
      have own : s ∈ l.settings := List.mem_of_find?_eq_some found
      split at read
      · obtain ⟨l₁, raised, later⟩ := Json.bind_ok read
        have keeps := keeps_raise sound raised
        exact keeps.trans (ih keeps.sound later)
      · split at read <;> exact keeps_start sound own read

theorem finish_inv {i : Invocation} {pretty p : Bool} (sound : l.Sound)
    (finished : l.finish pretty = .ok (i, p)) :
    ∃ settings invocation g, l.menu.Offers settings invocation ∧ i = invocation g ∧
      g.OfSettings (settings ++ commonSettings) ∧ g.Complete settings := by
  obtain ⟨l₁, settled, rest⟩ := Json.bind_ok finished
  have keeps := keeps_settle sound settled
  rw [← keeps.menu]
  split at rest
  next settings invocation menu =>
    split at rest
    next complete =>
      obtain ⟨rfl, -⟩ := Prod.mk.inj (Except.ok.inj rest)
      rw [menu]
      refine ⟨settings, invocation, l₁.given, .command _ _, rfl, ?_, fun s own required => ?_⟩
      · have given := keeps.sound.given
        rwa [Level.settings, menu] at given
      · have present := List.all_eq_true.1 complete s own
        rwa [required] at present
    · cases rest
  · split at rest <;> cases rest

theorem read_inv {arguments : List String} {i : Invocation} {pretty p : Bool} (sound : l.Sound)
    (read : l.read pretty arguments = .ok (i, p)) :
    ∃ settings invocation g, l.menu.Offers settings invocation ∧ i = invocation g ∧
      g.OfSettings (settings ++ commonSettings) ∧ g.Complete settings := by
  induction arguments generalizing l pretty with
  | nil => exact finish_inv sound read
  | cons argument rest ih =>
    unfold Level.read at read
    split at read
    · split at read
      · exact finish_inv sound read
      · cases read
    · obtain ⟨l₁, first, later⟩ := Json.bind_ok read
      have keeps := keeps_readName sound first
      rw [← keeps.menu]
      exact ih keeps.sound later
    · obtain ⟨l₁, first, later⟩ := Json.bind_ok read
      have keeps := keeps_readLetters sound first
      rw [← keeps.menu]
      exact ih keeps.sound later
    · split at read
      next waiting choices group =>
        split at read
        next menu chosen =>
          obtain ⟨settings, invocation, g, offers, asked⟩ := ih (sound_start menu) read
          obtain ⟨before, after, same, -⟩ := List.lookup_eq_some_iff.1 chosen
          have listed : (argument, menu) ∈ choices := by
            rw [same]
            exact List.mem_append_right _ List.mem_cons_self
          rw [group]
          exact ⟨settings, invocation, g, .group listed offers, asked⟩
        · cases read
      next s menu waits =>
        have own := sound.waiting waits
        refine ih (l := { l with waiting := some (s, some argument) }) ⟨sound.given, fun given => ?_⟩ read
        obtain ⟨rfl, -⟩ := Prod.mk.inj (Option.some.inj given)
        exact own
      · cases read

end Level

def EditCommand.session : EditCommand → String
  | openReturnValue session | openArgument session _ _ | openField session _ _
  | setValue session _ _ | commit session _ | close session _ | select session _
  | frames session => session

def Invocation.paths : Invocation → List String
  | .flatten input => [input]
  | .session (.new function _ directory) => function :: directory.toList
  | .session (.load function _ records directory) => function :: (records.toList ++ directory.toList)
  | .session (.print file) | .session (.apply file _) | .session (.discard file)
  | .session (.status file) | .session (.close file _) => [file]
  | .session (.list directory _) => directory.toList
  | .edit c => [c.session]
  | .store (.save file directory) => file :: directory.toList
  | .store (.list directory _ _) | .store (.get _ directory) | .store (.delete _ directory) =>
    directory.toList

theorem paths_ne_empty {arguments : List String} {i : Invocation} {pretty : Bool}
    (read : Invocation.ofArguments arguments = .ok (i, pretty)) : ∀ path ∈ i.paths, path ≠ "" := by
  obtain ⟨settings, invocation, g, offers, rfl, texts, complete⟩ :=
    Level.read_inv (Level.sound_start Menu.program) read
  cases offers with
  | group chosen offers =>
    simp only [List.mem_cons, List.not_mem_nil, or_false, Prod.mk.injEq] at chosen
    rcases chosen with ⟨-, rfl⟩ | ⟨-, rfl⟩ | ⟨-, rfl⟩ | ⟨-, rfl⟩
    · cases offers
      exact List.forall_mem_singleton.2 (texts.required complete "input" (by decide) (by decide))
    · cases offers with
      | group chosen offers =>
        simp only [List.mem_cons, List.not_mem_nil, or_false, Prod.mk.injEq] at chosen
        rcases chosen with ⟨-, rfl⟩ | ⟨-, rfl⟩ | ⟨-, rfl⟩ | ⟨-, rfl⟩ | ⟨-, rfl⟩ | ⟨-, rfl⟩ | ⟨-, rfl⟩ |
          ⟨-, rfl⟩ <;> cases offers
        · exact List.forall_mem_cons.2 ⟨texts.required complete "function" (by decide) (by decide),
            texts.optional "session-dir" (by decide)⟩
        · exact List.forall_mem_cons.2 ⟨texts.required complete "function" (by decide) (by decide),
            List.forall_mem_append.2 ⟨texts.optional "store-dir" (by decide),
              texts.optional "session-dir" (by decide)⟩⟩
        · exact List.forall_mem_singleton.2 (texts.required complete "session" (by decide) (by decide))
        · exact List.forall_mem_singleton.2 (texts.required complete "session" (by decide) (by decide))
        · exact List.forall_mem_singleton.2 (texts.required complete "session" (by decide) (by decide))
        · exact List.forall_mem_singleton.2 (texts.required complete "session" (by decide) (by decide))
        · exact texts.optional "session-dir" (by decide)
        · exact List.forall_mem_singleton.2 (texts.required complete "session" (by decide) (by decide))
    · cases offers with
      | group chosen offers =>
        simp only [List.mem_cons, List.not_mem_nil, or_false, Prod.mk.injEq] at chosen
        rcases chosen with ⟨-, rfl⟩ | ⟨-, rfl⟩ | ⟨-, rfl⟩ | ⟨-, rfl⟩ | ⟨-, rfl⟩ | ⟨-, rfl⟩ | ⟨-, rfl⟩ |
          ⟨-, rfl⟩ <;> cases offers <;>
            exact List.forall_mem_singleton.2 (texts.required complete "session" (by decide) (by decide))
    · cases offers with
      | group chosen offers =>
        simp only [List.mem_cons, List.not_mem_nil, or_false, Prod.mk.injEq] at chosen
        rcases chosen with ⟨-, rfl⟩ | ⟨-, rfl⟩ | ⟨-, rfl⟩ | ⟨-, rfl⟩ <;> cases offers
        · exact List.forall_mem_cons.2 ⟨texts.required complete "session" (by decide) (by decide),
            texts.optional "store-dir" (by decide)⟩
        all_goals exact texts.optional "store-dir" (by decide)

end Fixture.CommandLine
