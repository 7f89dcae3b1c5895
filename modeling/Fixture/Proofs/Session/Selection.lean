import Fixture.Proofs.Editor.Closing
import Fixture.Proofs.Editor.Last
import Fixture.Proofs.Session.Live

/-!
The selected tab. What is stored is only a text: selecting takes any, and a change of the draft does
not look at the selection. So the text is looked up when the tab is asked for. What is found is
always an enabled module or an open editor, and there is none only if no module is enabled, when no
editor can be open either.
-/

namespace Fixture

namespace Editors

variable {es next : Editors} {d : Draft} {f : Frame} {key : String}

/-- A key is looked up among the modules first, but no editor has the name of one. -/
theorem Forest.isLive_iff (forest : Forest d es.frames) :
    es.isLive d key = true ↔ es.HasTab d key := by
  constructor
  · intro live
    rw [isLive] at live
    split at live
    next m named =>
      rw [ModuleName.eq_name_of_parse? named]
      exact .module (Modules.mem_enabled.2 live)
    next =>
      obtain ⟨f, opened, rfl⟩ := frame?_isSome_iff.1 live
      exact .editor opened
  · intro tab
    cases tab with
    | module enabled =>
      rw [isLive, ModuleName.parse?_name]
      exact Modules.mem_enabled.1 enabled
    | editor opened => exact forest.isLive_label opened

theorem Forest.frames_eq_nil (forest : Forest d es.frames) (disabled : d.modules.enabled = []) :
    es.frames = [] := by
  cases frames : es.frames with
  | nil => rfl
  | cons f rest =>
    have first : es.frames = [] ++ f :: rest := frames
    rcases forest.parent first with ⟨m, -, enabled⟩ | ⟨p, earlier, -⟩
    · have listed := Modules.mem_enabled.2 enabled
      rw [disabled] at listed
      cases listed
    · cases earlier

theorem Forest.selectedTab_of_tab (forest : Forest d es.frames) (selected : es.selected = some key)
    (tab : es.HasTab d key) : es.selectedTab d = some key := by
  rw [selectedTab, selected]
  exact if_pos (forest.isLive_iff.2 tab)

theorem Forest.selectedTab_of_stale (forest : Forest d es.frames)
    (stale : ∀ key, es.selected = some key → ¬es.HasTab d key) :
    es.selectedTab d = (ModuleName.all.find? d.modules.contains).map ModuleName.name := by
  have first : d.modules.enabled.head? = ModuleName.all.find? d.modules.contains :=
    List.head?_filter
  rw [selectedTab]
  split
  next key selected => rw [if_neg fun live => stale key selected (forest.isLive_iff.1 live), first]
  next => rw [first]

theorem Forest.tab_of_selectedTab (forest : Forest d es.frames)
    (shown : es.selectedTab d = some key) : es.HasTab d key := by
  by_cases there : ∃ stored, es.selected = some stored ∧ es.HasTab d stored
  · obtain ⟨stored, selected, tab⟩ := there
    rw [forest.selectedTab_of_tab selected tab] at shown
    exact Option.some.inj shown ▸ tab
  · rw [forest.selectedTab_of_stale fun stored selected tab => there ⟨stored, selected, tab⟩] at shown
    obtain ⟨m, first, rfl⟩ := Option.map_eq_some_iff.1 shown
    exact .module (Modules.mem_enabled.2 (List.find?_some first))

theorem Forest.selectedTab_eq_none_iff (forest : Forest d es.frames) :
    es.selectedTab d = none ↔ d.modules.enabled = [] := by
  constructor
  · intro hidden
    have stale (key : String) (selected : es.selected = some key) : ¬es.HasTab d key := by
      intro tab
      rw [forest.selectedTab_of_tab selected tab] at hidden
      cases hidden
    rw [forest.selectedTab_of_stale stale, Option.map_eq_none_iff, List.find?_eq_none] at hidden
    exact List.filter_eq_nil_iff.2 hidden
  · intro disabled
    rw [Option.eq_none_iff_forall_ne_some]
    intro key shown
    cases forest.tab_of_selectedTab shown with
    | module enabled => simp [disabled] at enabled
    | editor opened => simp [forest.frames_eq_nil disabled] at opened

theorem Forest.selectedTab_of_push {d' : Draft} (forest : Forest d next.frames)
    (pushed : es.push f d' = .ok next) : next.selectedTab d = some f.label := by
  obtain ⟨-, -, rfl⟩ := push_inv pushed
  exact forest.selectedTab_of_tab rfl (.editor (by simp))

end Editors

open Editors

namespace Session

/-- In every session that can come about the tab that is shown is an enabled module or an open
editor. There is none exactly if no module is enabled, and then no editor is open. It is the stored
selection if that is there, else the first enabled module; and after an editor was opened it is that
editor. -/
theorem selected_tab_is_there {s : Session} (reachable : s.Reachable) :
    (∀ key, s.selectedTab = some key → s.editors.HasTab s.draft key) ∧
    (s.selectedTab = none ↔ s.draft.modules.enabled = []) ∧
    (s.draft.modules.enabled = [] → s.editors.frames = []) ∧
    (∀ key, s.editors.selected = some key → s.editors.HasTab s.draft key →
      s.selectedTab = some key) ∧
    ((∀ key, s.editors.selected = some key → ¬s.editors.HasTab s.draft key) →
      s.selectedTab =
        ([.argumentList, .returnValue, .exception].find? s.draft.modules.contains).map
          ModuleName.name) ∧
    ∀ f t, (s.openReturnValue = .ok (f, t) ∨
        (∃ functionName argument, s.openArgument functionName argument = .ok (f, t)) ∨
        ∃ parent key, s.openField parent key = .ok (f, t)) →
      t.selectedTab = some f.label := by
  have forest : Forest s.draft s.editors.frames := reachable.live
  refine ⟨fun key => forest.tab_of_selectedTab, forest.selectedTab_eq_none_iff,
    forest.frames_eq_nil, fun key => forest.selectedTab_of_tab, forest.selectedTab_of_stale, ?_⟩
  intro f t opened
  rcases opened with opened | ⟨functionName, argument, opened⟩ | ⟨parent, key, opened⟩
  · obtain ⟨editors, inner, rfl⟩ := withEditors_inv opened
    obtain ⟨r, value, -, -, -, pushed⟩ := openReturnValue_inv inner
    exact (forest.openReturnValue inner).selectedTab_of_push pushed
  · obtain ⟨editors, inner, rfl⟩ := withEditors_inv opened
    obtain ⟨slot, value, -, -, -, pushed⟩ := openArgument_inv inner
    exact (forest.openArgument inner).selectedTab_of_push pushed
  · obtain ⟨p, editors, -, inner, rfl⟩ := openField_inv opened
    obtain ⟨p', field, -, -, -, -, pushed⟩ := Editors.openField_inv inner
    exact (forest.openField inner).selectedTab_of_push pushed

def astray : Session := nested.after (.select argumentLabel)

theorem selected_tab_is_there_astray :
    astray.Reachable ∧ ¬astray.editors.HasTab astray.draft argumentLabel ∧
      astray.selectedTab = some "argumentList" ∧
      ∃ f t, astray.openField "Return value" "c" = .ok (f, t) ∧
        t.selectedTab = some f.label := by
  have reachable : astray.Reachable := nested_reachable.after _
  have absent : ¬astray.editors.HasTab astray.draft argumentLabel := by decide
  obtain ⟨-, -, -, -, fallback, opening⟩ := selected_tab_is_there reachable
  have accepted : (astray.openField "Return value" "c").toOption.isSome = true := by decide
  obtain ⟨⟨f, t⟩, present⟩ := Option.isSome_iff_exists.1 accepted
  have opened := ok_of_toOption present
  refine ⟨reachable, absent, ?_, f, t, opened, opening f t (.inr (.inr ⟨_, _, opened⟩))⟩
  rw [fallback fun key selected tab => absent (Option.some.inj selected ▸ tab)]
  rfl

end Session

end Fixture
