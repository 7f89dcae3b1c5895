import Fixture.Parameter.Function
import Fixture.Proofs.Json.Accepted

/-!
Encoding of patterns and of functions. A pattern is read back from its node, and a function from its
encoding, as it was.
-/

namespace Fixture

open Json

namespace Pattern

theorem lookup_childrenOf (key : String) (members : List (String × Json)) :
    (childrenOf members).lookup key =
      (Json.lookup key members).map fun v => ⟨v.str?, ofNode v, elementsOf v⟩ := by
  induction members with
  | nil => rfl
  | cons m rest ih =>
    obtain ⟨name, v⟩ := m
    rw [childrenOf, Json.lookup_cons]
    by_cases here : name = key
    · subst here
      simp
    · have other : (key == name) = false := by simpa using Ne.symm here
      rw [List.lookup_cons, other, if_neg here]
      exact ih

theorem ofNode_sorted {members : List (String × Json)} (distinct : Distinct members) :
    ofNode (obj members).sorted = assemble (childrenOf (mapValues sorted members)) := by
  have same (key : String) : (childrenOf (arrange (mapValues sorted members))).lookup key =
      (childrenOf (mapValues sorted members)).lookup key := by
    have names : Distinct (mapValues sorted members) := by
      rw [Distinct, List.map_map]
      exact distinct
    rw [lookup_childrenOf, lookup_childrenOf, lookup_arrange names]
  rw [sorted_obj, ofNode]
  simp only [assemble, same]

theorem isNull_encode_sorted (p : Pattern) : p.encode.sorted.isNull = false := by
  cases p <;> rw [encode, sorted_obj] <;> rfl

mutual

theorem ofNode_encode : (p : Pattern) → ofNode p.encode.sorted = p
  | identifier name => by
    rw [encode, ofNode_sorted (by simp [Distinct])]
    simp [childrenOf, assemble, List.lookup_cons, sorted, str?]
  | property key => by
    rw [encode, ofNode_sorted (by simp [Distinct])]
    simp [childrenOf, assemble, List.lookup_cons, sorted, str?]
  | object properties => by
    rw [encode, ofNode_sorted (by simp [Distinct])]
    simp [childrenOf, assemble, List.lookup_cons, sorted, str?, elementsOf,
      ofItems_encodeProperties properties]
  | array elements => by
    rw [encode, ofNode_sorted (by simp [Distinct])]
    simp [childrenOf, assemble, List.lookup_cons, sorted, str?, elementsOf,
      ofItems_encodeElements elements]
  | rest inner => by
    rw [encode, ofNode_sorted (by simp [Distinct])]
    simp [childrenOf, assemble, List.lookup_cons, List.lookup_nil, sorted, str?,
      ofNode_encode inner]
  | unrecognized => by
    rw [encode, ofNode_sorted (by simp [Distinct])]
    simp [childrenOf, assemble, sorted, str?]

theorem ofItems_encodeProperties : (ps : List Pattern) →
    (ofItems ((encodeProperties ps).map sorted)).map (·.getD unrecognized) = ps
  | [] => rfl
  | p :: ps => by
    rw [encodeProperties, List.map_cons, ofItems, List.map_cons, ofItems_encodeProperties ps,
      ofNode_encode p, isNull_encode_sorted]
    rfl

theorem ofItems_encodeElements : (ps : List (Option Pattern)) →
    ofItems ((encodeElements ps).map sorted) = ps
  | [] => rfl
  | none :: ps => by
    rw [encodeElements, List.map_cons, ofItems, ofItems_encodeElements ps]
    rfl
  | some p :: ps => by
    rw [encodeElements, List.map_cons, ofItems, ofItems_encodeElements ps, ofNode_encode p,
      isNull_encode_sorted]
    rfl

end

theorem listOfNode_encode (ps : List Pattern) :
    listOfNode (arr (encodeProperties ps)).sorted = ps := by
  rw [sorted_arr, listOfNode, ofItems_encodeProperties]

theorem accepts (p : Pattern) : decode.Accepts p.encode p := by
  intro origin w arranged
  rw [decode, Document.toJson_ofJson, arranged.sorted_eq]
  exact congrArg Except.ok (ofNode_encode p)

/-! ## Patterns are told apart by their nodes -/

theorem encode_injective {p q : Pattern} (nodes : p.encode.sorted = q.encode.sorted) : p = q :=
  calc
    p = ofNode p.encode.sorted := (ofNode_encode p).symm
    _ = ofNode q.encode.sorted := congrArg ofNode nodes
    _ = q := ofNode_encode q

mutual

/-- A node of a pattern has no numbers in it, so that nodes that compare as equal are one node. -/
theorem eq_of_same : (p q : Pattern) → p.encode.same q.encode = true → p = q
  | identifier _, q, equal | property _, q, equal | unrecognized, q, equal => by
    cases q <;> simp_all [encode, Json.same, sameMembers]
  | object properties, q, equal => by
    cases q with
    | object others =>
      simp only [encode, Json.same, sameMembers, beq_self_eq_true, Bool.true_and,
        Bool.and_true] at equal
      rw [properties_eq_of_same properties others equal]
    | _ => simp [encode, Json.same, sameMembers] at equal
  | array elements, q, equal => by
    cases q with
    | array others =>
      simp only [encode, Json.same, sameMembers, beq_self_eq_true, Bool.true_and,
        Bool.and_true] at equal
      rw [elements_eq_of_same elements others equal]
    | _ => simp [encode, Json.same, sameMembers] at equal
  | rest inner, q, equal => by
    cases q with
    | rest other =>
      simp only [encode, Json.same, sameMembers, beq_self_eq_true, Bool.true_and,
        Bool.and_true] at equal
      rw [eq_of_same inner other equal]
    | _ => simp [encode, Json.same, sameMembers] at equal

theorem properties_eq_of_same : (ps qs : List Pattern) →
    sameItems (encodeProperties ps) (encodeProperties qs) = true → ps = qs
  | [], [], _ => rfl
  | [], _ :: _, equal | _ :: _, [], equal => by cases equal
  | p :: ps, q :: qs, equal => by
    rw [encodeProperties, encodeProperties, sameItems, Bool.and_eq_true] at equal
    rw [eq_of_same p q equal.1, properties_eq_of_same ps qs equal.2]

/-- A hole is told apart from every pattern, since no pattern has null for a node. -/
theorem elements_eq_of_same : (ps qs : List (Option Pattern)) →
    sameItems (encodeElements ps) (encodeElements qs) = true → ps = qs
  | [], [], _ => rfl
  | [], none :: _, equal | [], some _ :: _, equal => by cases equal
  | none :: _, [], equal | some _ :: _, [], equal => by cases equal
  | none :: ps, none :: qs, equal => by
    rw [elements_eq_of_same ps qs equal]
  | none :: _, some q :: _, equal => by
    cases q <;> cases equal
  | some p :: _, none :: _, equal => by
    cases p <;> cases equal
  | some p :: ps, some q :: qs, equal => by
    rw [encodeElements, encodeElements, sameItems, Bool.and_eq_true] at equal
    rw [eq_of_same p q equal.1, elements_eq_of_same ps qs equal.2]

end

theorem same_iff_eq {p q : Pattern} : p.same q = true ↔ p = q :=
  ⟨eq_of_same p q, fun equal => equal ▸ p.encode.same_refl⟩

/-- Decoding undoes encoding: a pattern is read back from its node, so that two patterns never
share a node, patterns that compare as equal are one pattern, every pattern is read from some node,
and what is read from any node is read again from its own node, with the same names bound. -/
theorem decoding_inverts_encoding :
    (∀ p : Pattern, ofNode p.encode.sorted = p ∧ decode.ofValue p.encode.sorted = .ok p) ∧
    (∀ p q : Pattern, p.encode.sorted = q.encode.sorted → p = q) ∧
    (∀ p q : Pattern, p.same q = true ↔ p = q) ∧
    (∀ p : Pattern, ∃ node : Json, node.Canonical ∧ ofNode node = p) ∧
    ∀ node : Json, ofNode (ofNode node).encode.sorted = ofNode node ∧
      (ofNode (ofNode node).encode.sorted).leaves = (ofNode node).leaves := by
  have reread (node : Json) : ofNode (ofNode node).encode.sorted = ofNode node :=
    ofNode_encode (ofNode node)
  exact ⟨fun p => ⟨ofNode_encode p, p.accepts .value _ .sorted⟩, fun p q => encode_injective,
    fun p q => same_iff_eq, fun p => ⟨p.encode.sorted, sorted_sorted p.encode, ofNode_encode p⟩,
    fun node => ⟨reread node, congrArg leaves (reread node)⟩⟩

end Pattern

/-! ## Parameter lists and functions -/

/-- A body is read node by node, whatever it holds. -/
theorem ParameterList.accepts_body (name : String) (body : Json) :
    decode.Accepts (.obj [("functionName", .str name), ("body", body)])
      ⟨name, Pattern.listOfNode body.sorted⟩ := by
  refine Decoder.accepts_record (by simp [Distinct]) fun p offers => ?_
  have nodes : Decoder.Accepts (fun _ d => Pattern.listOfNode <$> Decoder.ofFault d.toJson)
      body (Pattern.listOfNode body.sorted) := by
    intro origin w arranged
    beta_reduce
    rw [Document.toJson_ofJson, arranged.sorted_eq]
    rfl
  have text : p.required "functionName" .text = pure name :=
    offers.fieldOr_some (by simp) (by simp) (by simp) (Decoder.accepts_text name)
  rw [text, offers.withDefault "body" nodes (by simp) (by simp)]
  rfl

theorem ParameterList.accepts (l : ParameterList) : decode.Accepts l.encode l := by
  have accepts := accepts_body l.functionName (.arr (Pattern.encodeProperties l.body))
  rwa [Pattern.listOfNode_encode] at accepts

theorem AnalyzedFunction.accepts (f : AnalyzedFunction) : decode.Accepts f.encode f := by
  refine Decoder.accepts_record (by simp [Distinct]) fun p offers => ?_
  have arguments : (Decoder.list ParameterList.decode).Accepts
      (.arr (f.arguments.map ParameterList.encode)) (f.arguments.map id) :=
    Decoder.Accepts.list fun l _ => l.accepts
  rw [offers.required "pathToProject" (Decoder.accepts_text f.pathToProject),
    offers.required "fileId" (Decoder.accepts_text f.fileId),
    offers.required "functionId" (Decoder.accepts_text f.functionId),
    offers.withDefault "arguments" arguments, List.map_id]
  · rfl
  all_goals simp

end Fixture
