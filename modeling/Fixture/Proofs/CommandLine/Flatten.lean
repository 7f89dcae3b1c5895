import Fixture.CommandLine.Run
import Fixture.Proofs.Host.Files
import Fixture.Proofs.Parameter.Choice
import Fixture.Proofs.Session.Numbers

/-!
Flattening. A function and the list of its parameter lists are told apart in every form in which
they may be given, and the same names come out of both.
-/

namespace Fixture

open Json
open Memory (run)
open Number (Bounded)

namespace Json.Decoder

variable {α : Type} {decode : Decoder α} {text : String} {a : α}

/-- A text of a value, nested no deeper than a text may be, is decoded to `a`. -/
def Reads (decode : Decoder α) (text : String) (a : α) : Prop :=
  (∃ v, json.ofText text = .ok v) ∧ decode.ofText text = .ok a

theorem reads_iff : Reads decode text a ↔
    ∃ d v, Document.ofText text = (d, false) ∧ d.toJson = .ok v ∧ decode .text d = .ok a := by
  simp only [Reads, ofText]
  obtain ⟨d, trailing⟩ := Document.ofText text
  constructor
  · rintro ⟨⟨v, readable⟩, decoded⟩
    obtain ⟨w, given, rest⟩ := bind_ok readable
    obtain ⟨b, read, rest'⟩ := bind_ok decoded
    cases trailing with
    | true => cases rest
    | false => exact ⟨d, w, rfl, json_ok given, read.trans rest'⟩
  · rintro ⟨_, v, same, given, read⟩
    obtain ⟨rfl, rfl⟩ := Prod.mk.inj same
    refine ⟨⟨v, ?_⟩, ?_⟩
    · rw [json, given]
      rfl
    · rw [read]
      rfl

theorem Accepts.reads {v : Json} (accepts : decode.Accepts v a) (rereads : Rereads v v)
    (shallow : v.depth ≤ Document.maxDepth) : Reads decode v.pretty a := by
  refine reads_iff.2 ⟨.ofJson v, v.sorted, ?_, Document.toJson_ofJson v, accepts .text v .written⟩
  rw [Document.ofText_pretty rereads.bounded, rereads.read,
    Document.nested_eq_ofJson (by rwa [Nat.zero_add])]

end Json.Decoder

theorem ParameterList.rereads (l : ParameterList) : Rereads l.encode l.encode :=
  .obj (.cons _ (.str _) (.cons _ (.list (Pattern.rereads_properties l.body)) .nil))

theorem AnalyzedFunction.depth_arguments_lt (f : AnalyzedFunction) :
    (Json.arr (f.arguments.map ParameterList.encode)).depth < f.encode.depth := by
  simp only [AnalyzedFunction.encode, depth, depthMembers]
  omega

namespace CommandLine

open Json.Decoder (Reads)

variable {m m' : Memory} {input text : String} {pretty : Bool} {lists : List ParameterList}

theorem reads_choice_of_function {f : AnalyzedFunction}
    (reads : Reads AnalyzedFunction.decode text f) :
    Reads ParameterList.decodeChoice text f.arguments := by
  obtain ⟨d, v, read, readable, decoded⟩ := Decoder.reads_iff.1 reads
  exact Decoder.reads_iff.2
    ⟨d, v, read, readable, ParameterList.decodeChoice_of_function readable decoded⟩

theorem reads_choice_of_list (reads : Reads (.list ParameterList.decode) text lists) :
    Reads ParameterList.decodeChoice text lists ∧ ∀ f, ¬ Reads AnalyzedFunction.decode text f := by
  obtain ⟨d, v, read, readable, decoded⟩ := Decoder.reads_iff.1 reads
  refine ⟨Decoder.reads_iff.2 ⟨d, v, read, readable,
    ParameterList.decodeChoice_of_list readable decoded⟩, fun f function => ?_⟩
  obtain ⟨e, _, read', -, decoded'⟩ := Decoder.reads_iff.1 function
  obtain ⟨rfl, -⟩ := Prod.mk.inj (read.symm.trans read')
  exact AnalyzedFunction.decode_ne_ok_of_list decoded f decoded'

/-- What is printed depends on nothing but the parameter lists that are read. -/
theorem run_flatten (given : run (textOf input) m = (.ok text, m'))
    (reads : Reads ParameterList.decodeChoice text lists) :
    run (flatten pretty input) m =
      (.ok (printed pretty (.arr (lists.map fun l => (LeafList.ofParameters l).encode))), m') := by
  rw [flatten, Memory.run_bind, given]
  simp only [reads.2, Memory.run_bind, Memory.run_lift, Except.mapError, Memory.run_pure]

/-- The two forms of input are never confused. A function gives its parameter lists, and a list of
them gives itself, whatever is accepted as one; no such list is read as a function. For a function
and for the list of its parameter lists, whose texts can be read if they are not nested too deep, the
names that each of the lists binds are printed. -/
theorem flatten_tells_forms :
    (∀ f : AnalyzedFunction, ParameterList.decodeChoice.Accepts f.encode f.arguments) ∧
    (∀ lists : List ParameterList,
      ParameterList.decodeChoice.Accepts (.arr (lists.map ParameterList.encode)) lists) ∧
    (∀ (v : Json) (lists : List ParameterList),
      (Decoder.list ParameterList.decode).ofValue v = .ok lists →
        ParameterList.decodeChoice.ofValue v = .ok lists ∧
          ∀ origin f, AnalyzedFunction.decode origin (.ofJson v) ≠ .ok f) ∧
    (∀ (text : String) (lists : List ParameterList), Reads (.list ParameterList.decode) text lists →
      Reads ParameterList.decodeChoice text lists ∧ ∀ f, ¬ Reads AnalyzedFunction.decode text f) ∧
    (∀ f : AnalyzedFunction, f.encode.depth ≤ Document.maxDepth →
      Reads AnalyzedFunction.decode f.encode.pretty f ∧
        Reads (.list ParameterList.decode) (Json.arr (f.arguments.map ParameterList.encode)).pretty
          f.arguments) ∧
    ∀ (pretty : Bool) (whole bare text text' : String) (m m₁ n n₁ : Memory) (f : AnalyzedFunction),
      run (textOf whole) m = (.ok text, m₁) → Reads AnalyzedFunction.decode text f →
      run (textOf bare) n = (.ok text', n₁) →
      Reads (.list ParameterList.decode) text' f.arguments →
      let output := printed pretty (.arr (f.arguments.map fun l => (LeafList.ofParameters l).encode))
      run (flatten pretty whole) m = (.ok output, m₁) ∧
        run (flatten pretty bare) n = (.ok output, n₁) := by
  refine ⟨ParameterList.accepts_choice_function, ParameterList.accepts_choice_list, ?_,
    fun text lists => reads_choice_of_list, ?_, ?_⟩
  · intro v lists decoded
    exact ⟨ParameterList.decodeChoice_of_list (Document.toJson_ofJson v) decoded,
      fun origin => AnalyzedFunction.decode_ne_ok_of_list decoded⟩
  · intro f shallow
    have listed := Decoder.Accepts.list (f := id) fun l (_ : l ∈ f.arguments) => l.accepts
    rw [List.map_id] at listed
    exact ⟨f.accepts.reads f.rereads shallow,
      listed.reads (.arr fun l _ => l.rereads) (f.depth_arguments_lt.le.trans shallow)⟩
  · intro pretty whole bare text text' m m₁ n n₁ f given reads given' reads'
    exact ⟨run_flatten given (reads_choice_of_function reads),
      run_flatten given' (reads_choice_of_list reads').1⟩

def swapped : AnalyzedFunction where
  pathToProject := "/p"
  fileId := "a.js"
  functionId := "f"
  arguments := [⟨"f", [.array [none, some (.identifier "x")], .rest (.identifier "y")]⟩]

def givenTwice : Memory where
  files := { nodes := [
    (["f.json"], .file swapped.encode.pretty),
    (["l.json"], .file (Json.arr (swapped.arguments.map ParameterList.encode)).pretty)] }
  clock := fun _ => default

/-- The same is printed for a function and for its parameter lists. A list in which one item is an
array and another goes by its other name is read as a list. -/
theorem flatten_tells_forms_mixed :
    (let output := printed false (.arr [LeafList.encode ⟨"f", ["x", "RestElement"]⟩])
     run (flatten false "f.json") givenTwice = (.ok output, givenTwice) ∧
       run (flatten false "l.json") givenTwice = (.ok output, givenTwice)) ∧
    ParameterList.decodeChoice.ofValue (.arr [
        .arr [.str "f", .obj [("name", .str "x"), ("type", .str "Identifier")]],
        .obj [("body", .null), ("name", .str "g")]]) =
      .ok [⟨"f", [.identifier "x"]⟩, ⟨"g", []⟩] := by
  obtain ⟨-, -, values, -, texts, prints⟩ := flatten_tells_forms
  refine ⟨?_, (values _ _ rfl).1⟩
  obtain ⟨function, list⟩ := texts swapped (by decide)
  have bound : swapped.arguments.map LeafList.ofParameters =
      [⟨"f", ["x", "RestElement"]⟩] := by decide
  have output : swapped.arguments.map (fun l => (LeafList.ofParameters l).encode) =
      [LeafList.encode ⟨"f", ["x", "RestElement"]⟩] := by
    rw [← Function.comp_def, ← List.map_map, bound, List.map_singleton]
  rw [← output]
  exact prints false "f.json" "l.json" _ _ givenTwice givenTwice givenTwice givenTwice swapped
    rfl function rfl list

end CommandLine

end Fixture
