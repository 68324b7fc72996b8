import Rettp.AssertionSpec
import Rettp.Check
import Rettp.Resolver
import Rettp.SharedCaptures

/-!
# What a checked expectation resolves to

Evaluation and extraction rely on the shape of a resolved assertion: every field is declared under
its own name, and assertions are nested on object fields only. The checker guarantees this shape
for every store (`resolveExpectation_regular`).
-/

namespace Rettp

/-- What evaluation and extraction rely on. -/
structure ResolvedObjectAssertion.Regular (assertion : ResolvedObjectAssertion) : Prop where
  keyed : assertion.Keyed
  nestedOnObjects : assertion.NestedOnObjects

/-- A field that a checked test can resolve to. -/
structure ResolvedFieldAssertion.Regular (name : String) (field : ResolvedFieldAssertion) :
    Prop where
  keyed : field.Keyed name
  nestedOnObjects : field.NestedOnObjects

/-- An assertion is regular when its fields are. -/
theorem ResolvedObjectAssertion.Regular.of_fields {mode : ObjectMatchMode}
    {fields : IndexMap String ResolvedFieldAssertion}
    (h : ∀ entry ∈ fields, entry.2.Regular entry.1) :
    ResolvedObjectAssertion.Regular ⟨mode, fields⟩ := by
  induction fields with
  | nil =>
    refine ⟨?_, ?_⟩
    · trivial
    · trivial
  | cons entry fields ih =>
    obtain ⟨hentry, hfields⟩ := List.forall_mem_cons.mp h
    obtain ⟨hkeyed, hnested⟩ := ih hfields
    refine ⟨?_, ?_⟩
    · rw [ResolvedObjectAssertion.Keyed, ResolvedFieldAssertion.KeyedAll]
      exact ⟨hentry.keyed, hkeyed⟩
    · rw [ResolvedObjectAssertion.NestedOnObjects, ResolvedFieldAssertion.NestedOnObjectsAll]
      exact ⟨hentry.nestedOnObjects, hnested⟩

variable [Platform]

namespace RuntimeResolver

variable {config : RuntimeConfig} {store : VariableStore} {scope : Finset VariableName}

mutual

theorem resolveObjectAssertion_regular (assertion : ObjectAssertionAst)
    (hrules : ∀ field ∈ assertion.allFields, FieldRules scope field) {depth : Nat}
    {resolved : ResolvedObjectAssertion}
    (h : resolveObjectAssertion config store assertion.toAssertion depth = .ok resolved) :
    resolved.Regular := by
  match assertion with
  | ⟨mode, fields, span⟩ =>
    obtain ⟨entries, hentries, rfl⟩ := resolveObjectAssertion_ok h
    refine .of_fields fun entry hentry => ?_
    exact resolveFieldAssertions_regular fields hrules hentries entry
      (IndexMap.mem_of_mem_ofEntries hentry)

theorem resolveFieldAssertions_regular (fields : List FieldAssertionAst)
    (hrules : ∀ field ∈ allFieldsOf fields, FieldRules scope field) {depth : Nat}
    {resolved : List (String × ResolvedFieldAssertion)}
    (h : resolveFieldAssertions config store (fieldsToEntries fields) depth = .ok resolved) :
    ∀ entry ∈ resolved, entry.2.Regular entry.1 := by
  match fields with
  | [] =>
    obtain rfl := Except.ok.inj h
    exact List.forall_mem_nil _
  | field :: fields =>
    rw [allFieldsOf, List.forall_mem_append] at hrules
    rw [fieldsToEntries, resolveFieldAssertions] at h
    obtain ⟨r, hr, h⟩ := Except.bind_eq_ok.mp h
    obtain ⟨rs, hrs, h⟩ := Except.bind_eq_ok.mp h
    obtain rfl := Except.ok.inj h
    exact List.forall_mem_cons.mpr ⟨resolveFieldAssertion_regular field hrules.1 hr,
      resolveFieldAssertions_regular fields hrules.2 hrs⟩

theorem resolveFieldAssertion_regular (field : FieldAssertionAst)
    (hrules : ∀ part ∈ field.allFields, FieldRules scope part) {depth : Nat}
    {resolved : ResolvedFieldAssertion}
    (h : resolveFieldAssertion config store field.toField depth = .ok resolved) :
    resolved.Regular field.name.value := by
  match field with
  | ⟨name, expectedType, expectedValue, nested, capture, span⟩ =>
    rw [FieldAssertionAst.allFields, List.forall_mem_append, List.forall_mem_singleton] at hrules
    obtain ⟨value', nested', -, hnested, rfl⟩ := resolveFieldAssertion_ok h
    match nested with
    | none =>
      cases hnested
      exact ⟨by rw [ResolvedFieldAssertion.Keyed.eq_def]; exact ⟨rfl, trivial⟩,
        by rw [ResolvedFieldAssertion.NestedOnObjects.eq_def]; trivial⟩
    | some nested =>
      obtain ⟨hobject⟩ := hnested
      obtain ⟨hkeyed, hbelow⟩ := resolveObjectAssertion_regular nested hrules.1 hobject
      have htype : expectedType.map (·.value) = some .object := (hrules.2.nested nested rfl).1
      obtain ⟨type, rfl, hvalue⟩ := Option.map_eq_some_iff.mp htype
      refine ⟨?_, ?_⟩
      · rw [ResolvedFieldAssertion.Keyed.eq_def]
        exact ⟨rfl, hkeyed⟩
      · rw [ResolvedFieldAssertion.NestedOnObjects.eq_def]
        refine ⟨?_, hbelow⟩
        show Converter.convertAssertionType type.value = .object
        rw [hvalue]
        rfl

end

/-- **A checked expectation resolves to a regular one.** -/
theorem resolveExpectation_regular {limit : Nat} {expectation : ExpectationAst}
    (hrules : ExpectationRules scope limit expectation) {resolved : ResolvedResponseExpectation}
    (h : resolveExpectation config store expectation.toExpectation = .ok resolved)
    {object : ResolvedObjectAssertion} (hobject : resolved.body = some (.json object)) :
    object.Regular := by
  obtain ⟨assertion, hbody, hresolve⟩ := resolveExpectation_of_json h hobject
  obtain ⟨assertionAst, hassertion, rfl⟩ := ExpectationAst.assertion_of_body hbody
  exact resolveObjectAssertion_regular assertionAst (hrules.assertions assertionAst hassertion).fields
    hresolve

end RuntimeResolver

end Rettp
