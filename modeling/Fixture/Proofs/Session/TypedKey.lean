import Fixture.Proofs.Editor.Last
import Fixture.Proofs.Editor.TypedKey
import Fixture.Proofs.Session.Live

/-!
Opening editors by keys that are typed in. Only what a key means counts: all ways to type the index of
an element open the same editor, with the index as it is shown in its label, and the element has no
second one. What is shown of the key of a field is always one of the ways to type it.
-/

namespace Fixture

open Editors

namespace Session

variable {s t : Session} {p f : Frame} {parent raw other : String}

theorem openField_congr (found : s.editors.frame? parent = some p)
    (same : FieldKey.ofRaw p.value raw = FieldKey.ofRaw p.value other) :
    s.openField parent raw = s.openField parent other := by
  rw [openField, openField, found]
  simp only [same]

theorem label_of_openField (found : s.editors.frame? parent = some p)
    (opened : s.openField parent raw = .ok (f, t)) :
    f.label = parent ++ (FieldKey.ofRaw p.value raw).segment := by
  obtain ⟨p', editors, found', inner, -⟩ := openField_inv opened
  obtain rfl := Option.some.inj (found.symm.trans found')
  obtain ⟨-, field, -, -, -, rfl, -⟩ := Editors.openField_inv inner
  rfl

namespace Live

theorem openField_ok (live : s.Live) (found : s.editors.frame? parent = some p) {field : Json}
    (here : (FieldKey.ofRaw p.value raw).get? p.value = some field)
    (composite : field.isComposite = true) : ∃ f t, s.openField parent raw = .ok (f, t) := by
  have forest : Forest s.draft s.editors.frames := live
  obtain ⟨member, rfl⟩ := frame?_mem found
  rw [openField, found]
  simp only [forest.openField_ok member here composite rfl, withEditors]
  exact ⟨_, _, rfl⟩

theorem openField_again (live : s.Live) (found : s.editors.frame? parent = some p)
    (same : FieldKey.ofRaw p.value raw = FieldKey.ofRaw p.value other)
    (opened : s.openField parent raw = .ok (f, t)) : t.openField parent other = .ok (f, t) := by
  have forest : Forest s.draft s.editors.frames := live
  obtain ⟨p', editors, found', inner, rfl⟩ := openField_inv opened
  obtain rfl := Option.some.inj (found.symm.trans found')
  obtain ⟨member, rfl⟩ := frame?_mem found
  obtain ⟨stays, again⟩ := forest.openField_again member inner
  have later : Forest s.draft editors.frames := forest.openField inner
  have there := frame?_eq_some later.labels_nodup stays
  have reread : Session.openField { s with editors } p.label raw =
      Session.openField { s with editors } p.label other := openField_congr there same
  rw [← reread, openField, there]
  simp only [again, withEditors]

end Live

/-- What is shown of the key of a field, when it is typed in, means that field. Every other way to
type the index of an element means the same element as what is shown of the index, and is the same
as a key to open an editor with, whose label has the index as it is shown. In a session that can come
about an element that is an array or an object can be opened by either, and then the other gives the
same editor again. -/
theorem shown_keys_mean_fields :
    (∀ (v field : Json) (key : FieldKey), key.get? v = some field →
      FieldKey.ofRaw v key.display = key) ∧
    ∀ (items : List Json) (raw : String) (i : UInt64), FieldKey.ofRaw (.arr items) raw = .index i →
      (FieldKey.ofRaw (.arr items) raw).get? (.arr items) = items[i.toNat]? ∧
      (FieldKey.ofRaw (.arr items) (FieldKey.index i).display).get? (.arr items) =
        items[i.toNat]? ∧
      ∀ (s : Session) (parent : String) (p : Frame), s.editors.frame? parent = some p →
        p.value = .arr items →
        s.openField parent raw = s.openField parent (FieldKey.index i).display ∧
        (∀ f t, s.openField parent raw = .ok (f, t) →
          f.label = parent ++ ("[" ++ toString i.toNat ++ "]")) ∧
        (s.Reachable → ∀ item, items[i.toNat]? = some item → item.isComposite = true →
          ∃ f t, s.openField parent raw = .ok (f, t) ∧
            t.openField parent (FieldKey.index i).display = .ok (f, t)) := by
  refine ⟨fun v field key found => FieldKey.ofRaw_display found, ?_⟩
  intro items raw i read
  have shown := FieldKey.ofRaw_display_index items i
  refine ⟨by rw [read, FieldKey.get?], by rw [shown, FieldKey.get?], ?_⟩
  intro s parent p found value
  rw [← value] at read shown
  have same := read.trans shown.symm
  refine ⟨openField_congr found same, fun f t opened => ?_, fun reachable item here composite => ?_⟩
  · rw [label_of_openField found opened, read, FieldKey.segment]
  · have element : (FieldKey.ofRaw p.value raw).get? p.value = some item := by
      rw [read, value, FieldKey.get?, here]
    obtain ⟨f, t, opened⟩ := reachable.live.openField_ok found element composite
    exact ⟨f, t, opened, reachable.live.openField_again found same opened⟩

/-- Names of digits are names in an object. In an array two zeros after a plus sign open the editor of
the first element. -/
theorem shown_keys_mean_fields_nested :
    FieldKey.ofRaw (.obj [("7", .null), ("+007", .bool true), ("", .null)]) "+007" =
      .property "+007" ∧
    nested.Reachable ∧ ∃ f t, nested.openField "Return value[\"a.b\"]" "+00" = .ok (f, t) ∧
      f.label = "Return value[\"a.b\"][0]" ∧
      t.openField "Return value[\"a.b\"]" "0" = .ok (f, t) := by
  obtain ⟨shown, typed⟩ := shown_keys_mean_fields
  refine ⟨shown _ (.bool true) (.property "+007") rfl, nested_reachable, ?_⟩
  have found : (nested.editors.frame? "Return value[\"a.b\"]").map Frame.value =
      some (.arr [.obj []]) := rfl
  obtain ⟨p, there, value⟩ := Option.map_eq_some_iff.1 found
  obtain ⟨-, -, opening⟩ := typed [.obj []] "+00" 0 (by decide)
  obtain ⟨-, label, opens⟩ := opening nested _ p there value
  obtain ⟨f, t, opened, again⟩ := opens nested_reachable (.obj []) rfl rfl
  exact ⟨f, t, opened, label f t opened, again⟩

end Session

end Fixture
