import Rettp.FiniteNumbers

/-!
# Checked tests

What the rules of a tree leave of a test: every text names variables in scope, and every number is
finite. `TestRules.toCase_checked` says so of the tests of an accepted source, wherever a text or
a number may stand in a test.
-/

namespace Rettp

variable [Platform]

/-! ## Texts in scope and finite numbers -/

mutual

/-- The texts of a value mention only variables in scope, and its numbers are finite. -/
def Value.Checked (scope : Finset VariableName) : Value → Prop
  | .string input => TextRule scope input.raw
  | .number x => x.isFinite = true
  | .array items => Value.CheckedItems scope items
  | .object entries => Value.CheckedEntries scope entries
  | .integer _ | .boolean _ | .null => True

/-- All items are checked. -/
def Value.CheckedItems (scope : Finset VariableName) : List Value → Prop
  | [] => True
  | item :: items => item.Checked scope ∧ Value.CheckedItems scope items

/-- The values of all entries are checked. -/
def Value.CheckedEntries (scope : Finset VariableName) : List (String × Value) → Prop
  | [] => True
  | (_, v) :: entries => v.Checked scope ∧ Value.CheckedEntries scope entries

end

/-- The texts of a body mention only variables in scope. -/
def RequestBody.Checked (scope : Finset VariableName) : RequestBody → Prop
  | .json value => value.Checked scope
  | .text value => TextRule scope value.raw
  | .formData fields => Value.CheckedEntries scope fields
  | .binary _ => True

/-- The texts of a request mention only variables in scope. -/
structure HttpRequestSpec.Checked (scope : Finset VariableName) (request : HttpRequestSpec) :
    Prop where
  path : TextRule scope request.path.raw
  headers : Value.CheckedEntries scope request.headers
  query : Value.CheckedEntries scope request.query
  body : ∀ body ∈ request.body, body.Checked scope

/-- The text of a header assertion mentions only variables in scope. -/
def HeaderAssertion.Checked (scope : Finset VariableName) : HeaderAssertion → Prop
  | .exists_ => True
  | .exact expected | .contains expected => TextRule scope expected.raw

mutual

/-- All fields of an object assertion are checked. -/
def ObjectAssertion.Checked (scope : Finset VariableName) : ObjectAssertion → Prop
  | ⟨_, fields⟩ => FieldAssertion.CheckedAll scope fields

/-- All of these fields are checked. -/
def FieldAssertion.CheckedAll (scope : Finset VariableName) : List (String × FieldAssertion) → Prop
  | [] => True
  | (_, field) :: fields => field.Checked scope ∧ FieldAssertion.CheckedAll scope fields

/-- The value and the nested fields of a field are checked. -/
def FieldAssertion.Checked (scope : Finset VariableName) : FieldAssertion → Prop
  | ⟨_, _, expectedValue, nested, _⟩ => (∀ value ∈ expectedValue, value.Checked scope) ∧
      match nested with
      | some assertion => assertion.Checked scope
      | none => True

end

/-- What is expected of a body is checked. -/
def BodyAssertion.Checked (scope : Finset VariableName) : BodyAssertion → Prop
  | .json assertion => assertion.Checked scope
  | .text (.exact expected) | .text (.contains expected) => TextRule scope expected.raw
  | .empty => True

/-- All texts and values of an expectation are checked. -/
structure ResponseExpectation.Checked (scope : Finset VariableName)
    (expectation : ResponseExpectation) : Prop where
  headers : ∀ entry ∈ expectation.headers, entry.2.Checked scope
  body : ∀ body ∈ expectation.body, body.Checked scope

/-- The request and the expectation of a test are checked. -/
structure TestCase.Checked (scope : Finset VariableName) (test : TestCase) : Prop where
  request : test.request.Checked scope
  expectation : test.expectation.Checked scope

variable {scope : Finset VariableName}

theorem checkedEntries_iff {entries : List (String × Value)} :
    Value.CheckedEntries scope entries ↔ ∀ entry ∈ entries, entry.2.Checked scope := by
  induction entries with
  | nil => simp [Value.CheckedEntries]
  | cons entry entries ih => rw [Value.CheckedEntries, List.forall_mem_cons, ih]

/-! ## What a tree with rules stands for -/

mutual

theorem ValueAst.toValue_checked (value : ValueAst)
    (htexts : ∀ text ∈ value.texts, TextRule scope text) (hfinite : value.erase.Finite) :
    value.toValue.Checked scope := by
  match value with
  | .string value =>
    rw [ValueAst.toValue, Value.Checked]
    exact htexts value.value (List.mem_singleton_self _)
  | .number value =>
    rw [ValueAst.toValue, Value.Checked]
    exact hfinite
  | .array ⟨items, span⟩ =>
    rw [ValueAst.toValue, Value.Checked]
    exact itemsToValues_checked items htexts hfinite
  | .object ⟨entries, span⟩ =>
    rw [ValueAst.toValue, Value.Checked]
    exact entriesToValues_checked entries htexts hfinite
  | .integer _ | .boolean _ | .null _ =>
    rw [ValueAst.toValue, Value.Checked]
    trivial

theorem itemsToValues_checked (items : List ValueAst)
    (htexts : ∀ text ∈ textsOfItems items, TextRule scope text)
    (hfinite : Tree.Value.FiniteItems (eraseItems items)) :
    Value.CheckedItems scope (itemsToValues items) := by
  match items with
  | [] => trivial
  | item :: items =>
    rw [textsOfItems, List.forall_mem_append] at htexts
    rw [eraseItems, Tree.Value.FiniteItems] at hfinite
    rw [itemsToValues, Value.CheckedItems]
    exact ⟨item.toValue_checked htexts.1 hfinite.1,
      itemsToValues_checked items htexts.2 hfinite.2⟩

theorem entriesToValues_checked (entries : List ObjectValueEntryAst)
    (htexts : ∀ text ∈ textsOfEntries entries, TextRule scope text)
    (hfinite : Tree.Value.FiniteEntries (eraseEntries entries)) :
    Value.CheckedEntries scope (entriesToValues entries) := by
  match entries with
  | [] => trivial
  | ⟨key, value, span⟩ :: entries =>
    rw [textsOfEntries, List.forall_mem_append] at htexts
    rw [eraseEntries, Tree.Value.FiniteEntries] at hfinite
    rw [entriesToValues, Value.CheckedEntries]
    exact ⟨value.toValue_checked htexts.1 hfinite.1,
      entriesToValues_checked entries htexts.2 hfinite.2⟩

end

omit [Platform] in
theorem mem_textsOfEntries {entries : List ObjectValueEntryAst} {text : String}
    (h : text ∈ textsOfEntries entries) : ∃ entry ∈ entries, text ∈ entry.value.texts := by
  induction entries with
  | nil => cases h
  | cons entry entries ih =>
    obtain ⟨key, value, span⟩ := entry
    rw [textsOfEntries, List.mem_append] at h
    rcases h with h | h
    · exact ⟨_, List.mem_cons_self, h⟩
    · obtain ⟨entry', hmem, htext⟩ := ih h
      exact ⟨entry', List.mem_cons_of_mem _ hmem, htext⟩

/-- The parts of a request section. -/
theorem RequestSectionAst.parts_checked {section_ : RequestSectionAst}
    (htexts : ∀ value ∈ section_.values, ∀ text ∈ value.texts, TextRule scope text)
    (hfinite : section_.erase.Finite) :
    (∀ entry ∈ section_.toHeaders, entry.2.Checked scope) ∧
      (∀ entry ∈ section_.toQuery, entry.2.Checked scope) ∧
      ∀ body ∈ section_.toBodies, body.Checked scope := by
  cases section_ with
  | headers headers =>
    refine ⟨?_, nofun, nofun⟩
    intro entry hentry
    obtain ⟨source, hsource, rfl⟩ := List.mem_map.mp hentry
    exact source.value.toValue_checked (htexts _ (List.mem_map_of_mem hsource))
      (finiteEntries_iff.mp hfinite _ (List.mem_map_of_mem hsource))
  | query query =>
    refine ⟨nofun, ?_, nofun⟩
    refine checkedEntries_iff.mp (entriesToValues_checked query.entries ?_ hfinite)
    intro text htext
    obtain ⟨entry, hentry, htext⟩ := mem_textsOfEntries htext
    exact htexts _ (List.mem_map_of_mem hentry) text htext
  | body body =>
    refine ⟨nofun, nofun, ?_⟩
    intro b hb
    obtain ⟨⟨entries, span⟩, span'⟩ := body
    rw [List.mem_singleton.mp hb]
    exact (ValueAst.object ⟨entries, span⟩).toValue_checked
      (htexts _ (List.mem_singleton_self _)) hfinite

/-- **The request of a test** names variables in scope. -/
theorem RequestRules.toSpec_checked {limit : Nat} {request : RequestAst}
    (h : RequestRules scope limit request)
    (hfinite : ∀ section_ ∈ request.erase.sections, section_.Finite) :
    request.toSpec.Checked scope := by
  have hparts : ∀ section_ ∈ request.sections, _ := fun section_ hsection =>
    RequestSectionAst.parts_checked
      (fun value hvalue => (h.values value (List.mem_flatMap.mpr ⟨section_, hsection, hvalue⟩)).texts)
      (hfinite _ (List.mem_map_of_mem hsection))
  refine ⟨?_, ?_, ?_, ?_⟩
  · exact h.path
  · refine checkedEntries_iff.mpr fun entry hentry => ?_
    obtain ⟨section_, hsection, hentry⟩ := List.mem_flatMap.mp hentry
    exact (hparts section_ hsection).1 entry hentry
  · refine checkedEntries_iff.mpr fun entry hentry => ?_
    obtain ⟨section_, hsection, hentry⟩ := List.mem_flatMap.mp hentry
    exact (hparts section_ hsection).2.1 entry hentry
  · intro body hbody
    change ((request.sections.flatMap (·.toBodies)).getLast?.or none) = _ at hbody
    rw [Option.or_none] at hbody
    obtain ⟨section_, hsection, hbody⟩ := List.mem_flatMap.mp (List.mem_of_getLast? hbody)
    exact (hparts section_ hsection).2.2 body hbody

mutual

theorem ObjectAssertionAst.toAssertion_checked (assertion : ObjectAssertionAst)
    (hrules : ∀ field ∈ assertion.allFields, FieldRules scope field)
    (hfinite : assertion.erase.Finite) : assertion.toAssertion.Checked scope := by
  match assertion with
  | ⟨mode, fields, span⟩ =>
    rw [ObjectAssertionAst.toAssertion, ObjectAssertion.Checked]
    exact fieldsToEntries_checked fields hrules hfinite

theorem fieldsToEntries_checked (fields : List FieldAssertionAst)
    (hrules : ∀ field ∈ allFieldsOf fields, FieldRules scope field)
    (hfinite : Tree.FieldAssertion.FiniteAll (eraseFields fields)) :
    FieldAssertion.CheckedAll scope (fieldsToEntries fields) := by
  match fields with
  | [] => trivial
  | field :: fields =>
    rw [allFieldsOf, List.forall_mem_append] at hrules
    rw [eraseFields, Tree.FieldAssertion.FiniteAll] at hfinite
    rw [fieldsToEntries, FieldAssertion.CheckedAll]
    exact ⟨field.toField_checked hrules.1 hfinite.1,
      fieldsToEntries_checked fields hrules.2 hfinite.2⟩

theorem FieldAssertionAst.toField_checked (field : FieldAssertionAst)
    (hrules : ∀ part ∈ field.allFields, FieldRules scope part) (hfinite : field.erase.Finite) :
    field.toField.Checked scope := by
  match field with
  | ⟨name, expectedType, expectedValue, nested, capture, span⟩ =>
    rw [FieldAssertionAst.allFields, List.forall_mem_append, List.forall_mem_singleton] at hrules
    rw [FieldAssertionAst.erase, Tree.FieldAssertion.Finite.eq_def] at hfinite
    rw [FieldAssertionAst.toField, FieldAssertion.Checked.eq_def]
    refine ⟨?_, ?_⟩
    · intro value hvalue
      obtain ⟨source, rfl, rfl⟩ := Option.map_eq_some_iff.mp hvalue
      exact source.toValue_checked (hrules.2.texts source rfl) (hfinite.1 _ rfl)
    · match nested with
      | none => trivial
      | some nested => exact nested.toAssertion_checked hrules.1 hfinite.2

end

/-- The parts of a section of an expectation. -/
theorem ExpectationSectionAst.parts_checked {section_ : ExpectationSectionAst}
    (htexts : ∀ text ∈ section_.texts, TextRule scope text)
    (hrules : ∀ assertion ∈ section_.assertions, ∀ field ∈ assertion.allFields,
      FieldRules scope field)
    (hfinite : section_.erase.Finite) :
    (∀ entry ∈ section_.toHeaders, entry.2.Checked scope) ∧
      ∀ body ∈ section_.toBodies, body.Checked scope := by
  cases section_ with
  | status status => exact ⟨nofun, nofun⟩
  | headers headers =>
    refine ⟨?_, nofun⟩
    intro entry hentry
    obtain ⟨source, hsource, rfl⟩ := List.mem_map.mp hentry
    have htext (text : String) (h : text ∈ source.expected) : TextRule scope text :=
      htexts text (List.mem_flatMap.mpr ⟨source, hsource, h⟩)
    cases source with
    | exists_ name typeSpan span => trivial
    | exact name expected span => exact htext _ (List.mem_singleton_self _)
    | contains name expected span => exact htext _ (List.mem_singleton_self _)
  | body body =>
    refine ⟨nofun, ?_⟩
    intro b hb
    rw [List.mem_singleton.mp hb]
    cases body with
    | empty span => trivial
    | textExact expected span => exact htexts _ (List.mem_singleton_self _)
    | textContains expected span => exact htexts _ (List.mem_singleton_self _)
    | object assertion =>
      exact assertion.toAssertion_checked (hrules assertion (List.mem_singleton_self _)) hfinite

/-- **The expectation of a test** names variables in scope. -/
theorem ExpectationRules.toExpectation_checked {limit : Nat} {expectation : ExpectationAst}
    (h : ExpectationRules scope limit expectation)
    (hfinite : ∀ section_ ∈ expectation.erase, section_.Finite) :
    expectation.toExpectation.Checked scope := by
  have hparts : ∀ section_ ∈ expectation.sections, _ := fun section_ hsection =>
    ExpectationSectionAst.parts_checked
      (fun text htext => h.texts text (List.mem_flatMap.mpr ⟨section_, hsection, htext⟩))
      (fun assertion hassertion =>
        (h.assertions assertion (List.mem_flatMap.mpr ⟨section_, hsection, hassertion⟩)).fields)
      (hfinite _ (List.mem_map_of_mem hsection))
  refine ⟨?_, ?_⟩
  · intro entry hentry
    obtain ⟨section_, hsection, hentry⟩ := List.mem_flatMap.mp hentry
    exact (hparts section_ hsection).1 entry hentry
  · intro body hbody
    change ((expectation.sections.flatMap (·.toBodies)).getLast?.or none) = _ at hbody
    rw [Option.or_none] at hbody
    obtain ⟨section_, hsection, hbody⟩ := List.mem_flatMap.mp (List.mem_of_getLast? hbody)
    exact (hparts section_ hsection).2 body hbody

/-- **A test that satisfies the rules is checked.** -/
theorem TestRules.toCase_checked {limit : Nat} {test : TestAst} (h : TestRules scope limit test)
    (hfinite : test.erase.Finite) : test.toCase.Checked scope := by
  obtain ⟨-, ⟨request, hrequest, hrequestRules⟩, expectation, hexpectation, hexpectationRules⟩ := h
  obtain ⟨hrequests, hexpectations⟩ := hfinite
  have hmem : request.erase ∈ test.erase.requests :=
    List.mem_map_of_mem (by rw [hrequest]; exact List.mem_singleton_self _)
  have hmem' : expectation.erase ∈ test.erase.expectations :=
    List.mem_map_of_mem (by rw [hexpectation]; exact List.mem_singleton_self _)
  rw [TestAst.toCase, hrequest, hexpectation]
  exact ⟨hrequestRules.toSpec_checked (hrequests _ hmem),
    hexpectationRules.toExpectation_checked (hexpectations _ hmem')⟩

end Rettp
