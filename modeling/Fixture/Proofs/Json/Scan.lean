import Fixture.Json.Token
import Fixture.Proofs.Text.Quoted

/-!
Scanning of written text. `run` is scanning without an accumulator, and takes a text apart wherever
it is cut. A text is `Scanned` as some tokens if it is so before a comma or a new line as well as at
the end of the text, whether or not its last token waits for the character that ends it.
-/

namespace Fixture.Json

open Text.Quoted

namespace Scan

def run (s : Scan) : List Char → List Token × Scan
  | [] => ([], s)
  | c :: cs => ((s.next c).1 ++ ((s.next c).2.run cs).1, ((s.next c).2.run cs).2)

@[simp] theorem run_nil (s : Scan) : s.run [] = ([], s) := rfl

theorem run_cons (s : Scan) (c : Char) (cs : List Char) :
    s.run (c :: cs) = ((s.next c).1 ++ ((s.next c).2.run cs).1, ((s.next c).2.run cs).2) := rfl

theorem run_append (s : Scan) (front back : List Char) :
    s.run (front ++ back) =
      ((s.run front).1 ++ ((s.run front).2.run back).1, ((s.run front).2.run back).2) := by
  induction front generalizing s with
  | nil => rfl
  | cons c cs ih => simp only [List.cons_append, run_cons, ih, List.append_assoc]

theorem run_cons_of_next {s t : Scan} {c : Char} (next : s.next c = ([], t)) (cs : List Char) :
    s.run (c :: cs) = t.run cs := by
  rw [run_cons, next]
  rfl

/-- What is being scanned ends with a comma and with a new line as it ends with the text. -/
def Settled (s : Scan) : Prop :=
  ∀ c, c = ',' ∨ c = '\n' → s.next c = (s.finish ++ (start c).1, (start c).2)

theorem settled_between : Settled .between := fun _ _ => rfl

theorem settled_word (scalar : Scalar) : Settled (.word [] scalar) := fun _ _ => rfl

end Scan

theorem tokens_eq (text : List Char) :
    tokens text = (Scan.between.run text).1 ++ (Scan.between.run text).2.finish := by
  have onward (done : List Token) (s : Scan) : text.foldl (fun s c =>
      ((s.2.next c).1.reverse ++ s.1, (s.2.next c).2)) (done, s) =
        ((s.run text).1.reverse ++ done, (s.run text).2) := by
    induction text generalizing done s with
    | nil => rfl
    | cons c cs ih => rw [List.foldl_cons, ih, Scan.run_cons, List.reverse_append, List.append_assoc]
  simp only [tokens, onward, List.append_nil, List.reverse_append, List.reverse_reverse]

/-- A text that is scanned as some tokens whatever ends it. -/
def Scanned (text : List Char) (ts : List Token) : Prop :=
  ∃ front s, Scan.between.run text = (front, s) ∧ s.Settled ∧ front ++ s.finish = ts

namespace Scanned

variable {text : List Char} {ts : List Token}

theorem tokens_eq (scanned : Scanned text ts) : tokens text = ts := by
  obtain ⟨front, s, run, -, rfl⟩ := scanned
  rw [Json.tokens_eq, run]

theorem run_before (scanned : Scanned text ts) {c : Char} (ends : c = ',' ∨ c = '\n')
    (rest : List Char) :
    Scan.between.run (text ++ c :: rest) =
      (ts ++ (Scan.between.run (c :: rest)).1, (Scan.between.run (c :: rest)).2) := by
  obtain ⟨front, s, run, settled, rfl⟩ := scanned
  have between : Scan.between.next c = Scan.start c := rfl
  rw [Scan.run_append, run, Scan.run_cons, Scan.run_cons, settled c ends, between]
  simp only [List.append_assoc]

theorem of_run (run : Scan.between.run text = (ts, .between)) : Scanned text ts :=
  ⟨ts, .between, run, Scan.settled_between, List.append_nil ts⟩

theorem word_null : Scanned ['n', 'u', 'l', 'l'] [.scalar .null] :=
  ⟨[], .word [] .null, rfl, Scan.settled_word _, rfl⟩

theorem word_true : Scanned ['t', 'r', 'u', 'e'] [.scalar (.bool true)] :=
  ⟨[], .word [] (.bool true), rfl, Scan.settled_word _, rfl⟩

theorem word_false : Scanned ['f', 'a', 'l', 's', 'e'] [.scalar (.bool false)] :=
  ⟨[], .word [] (.bool false), rfl, Scan.settled_word _, rfl⟩

end Scanned

/-! ## Strings -/

namespace TextScan

def sound (chars : List Char) : TextScan := { chars }

theorem run_control (chars : List Char) {c : Char} (small : c.toNat < 32) (rest : List Char) :
    (Scan.text { chars, stage := .hex 2 0 none }).run
        (hexDigit (c.toNat / 16) :: hexDigit (c.toNat % 16) :: rest) =
      (Scan.text (sound (c :: chars))).run rest := by
  have high := hexValue?_hexDigit (c.toNat / 16) (by omega)
  have low := hexValue?_hexDigit (c.toNat % 16) (by omega)
  have whole : c.toNat / 16 * 16 + c.toNat % 16 = c.toNat := by omega
  have first : (Scan.text { chars, stage := .hex 2 0 none }).next (hexDigit (c.toNat / 16)) =
      ([], .text { chars, stage := .hex 1 (c.toNat / 16) none }) := by
    simp [Scan.next, next, high]
  have second : (Scan.text { chars, stage := .hex 1 (c.toNat / 16) none }).next
      (hexDigit (c.toNat % 16)) = ([], .text (sound (c :: chars))) := by
    have unpaired : ¬(0xDC00 ≤ c.toNat ∧ c.toNat ≤ 0xDFFF) := by omega
    have single : ¬(0xD800 ≤ c.toNat ∧ c.toNat ≤ 0xDBFF) := by omega
    simp [Scan.next, next, low, whole, codeUnit, unpaired, single, push, sound]
  rw [Scan.run_cons_of_next first, Scan.run_cons_of_next second]

theorem next_plain (chars : List Char) {c : Char} (quote : c ≠ '"') (backslash : c ≠ '\\')
    (visible : ¬c < ' ') :
    (Scan.text (sound chars)).next c = ([], .text (sound (c :: chars))) := by
  simp [Scan.next, next, sound, plainChar, quote, backslash, visible, push]

theorem run_encodeChar (chars : List Char) (c : Char) (rest : List Char) :
    (Scan.text (sound chars)).run (encodeChar c ++ rest) =
      (Scan.text (sound (c :: chars))).run rest := by
  unfold encodeChar
  split_ifs with quote backslash backspace feed line carriage tab control
  any_goals (subst c; rfl)
  · exact run_control chars control rest
  · exact Scan.run_cons_of_next (next_plain chars quote backslash control) rest

theorem run_encode (chars cs rest : List Char) :
    (Scan.text (sound chars)).run (encode cs ++ rest) =
      (Scan.text (sound (cs.reverse ++ chars))).run rest := by
  induction cs generalizing chars with
  | nil => rfl
  | cons c cs ih =>
    rw [encode_cons, List.append_assoc, run_encodeChar, ih, List.reverse_cons, List.append_assoc]
    rfl

end TextScan

theorem Scanned.run_quoted (s : String) :
    Scan.between.run (quoted s.toList) = ([.scalar (.str (.ok s))], .between) := by
  have opened : Scan.between.next '"' = ([], .text (TextScan.sound [])) := rfl
  rw [Text.Quoted.quoted, List.cons_append, Scan.run_cons_of_next opened, TextScan.run_encode]
  show ([Token.scalar (.str (.ok (String.ofList (s.toList.reverse ++ []).reverse)))], Scan.between) = _
  rw [List.append_nil, List.reverse_reverse, String.ofList_toList]

theorem Scanned.quoted (s : String) : Scanned (quoted s.toList) [.scalar (.str (.ok s))] :=
  .of_run (run_quoted s)

end Fixture.Json
