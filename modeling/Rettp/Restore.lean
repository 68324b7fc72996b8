import Rettp.Lossless

/-!
# The tree in a converted suite

From a converted suite the syntax tree without spans can be read back (`restore`), the names of
fields from the keys of the maps, which the fields repeat (`TestSuite.Keyed`). What comes back
differs from the tree that was converted in three ways only (`Tree.Block.Same`): the sections of a
request or of an expectation stand in a fixed order, sections without entries are gone, and every
field has its type written out (`Tree.ObjectAssertion.explicit`).
-/

/-! ## Lists sorted into three kinds -/

/-- The elements of three disjoint kinds, one kind after the other. -/
theorem perm_three_kinds {α : Type} {p q r : α → Bool}
    (h : ∀ a, p a ∧ ¬ q a ∧ ¬ r a ∨ ¬ p a ∧ q a ∧ ¬ r a ∨ ¬ p a ∧ ¬ q a ∧ r a) (as : List α) :
    (as.filter p ++ (as.filter q ++ as.filter r)).Perm as := by
  induction as with
  | nil => exact .refl []
  | cons a as ih =>
    rcases h a with ⟨hp, hq, hr⟩ | ⟨hp, hq, hr⟩ | ⟨hp, hq, hr⟩
    · rw [List.filter_cons_of_pos hp, List.filter_cons_of_neg hq, List.filter_cons_of_neg hr]
      exact ih.cons a
    · rw [List.filter_cons_of_neg hp, List.filter_cons_of_pos hq, List.filter_cons_of_neg hr]
      exact List.perm_middle.trans (ih.cons a)
    · rw [List.filter_cons_of_neg hp, List.filter_cons_of_neg hq, List.filter_cons_of_pos hr,
        ← List.append_assoc]
      exact List.perm_middle.trans ((List.append_assoc .. ▸ ih).cons a)

/-- What is rebuilt from the contents of the only element of a kind. -/
theorem rebuild_kind {α β : Type} {p keep : α → Bool} {content : α → List β}
    {build : List β → List α} {as : List α} (hnil : build [] = [])
    (hbuild : ∀ a, p a → build (content a) = [a].filter keep)
    (hother : ∀ a, ¬ p a → content a = []) (hone : (as.filter p).length ≤ 1) :
    build (as.flatMap content) = (as.filter p).filter keep := by
  have hcontent : as.flatMap content = (as.filter p).flatMap content := by
    induction as with
    | nil => rfl
    | cons a as ih =>
      by_cases ha : p a
      · rw [List.filter_cons_of_pos ha] at hone ⊢
        rw [List.flatMap_cons, List.flatMap_cons, ih (Nat.le_of_succ_le hone)]
      · rw [List.filter_cons_of_neg ha] at hone ⊢
        rw [List.flatMap_cons, hother a ha, ih hone, List.nil_append]
  rw [hcontent]
  match hlist : as.filter p with
  | [] => exact hnil
  | [a] =>
    have ha : p a := (List.mem_filter.mp (by rw [hlist]; exact List.mem_singleton_self a)).2
    rw [List.flatMap_singleton, hbuild a ha]
  | _ :: _ :: _ =>
    rw [hlist] at hone
    exact absurd hone (by simp)

/-- Of distinct kinds there is one each at most. -/
theorem length_filter_le_one {α κ : Type} [DecidableEq κ] {kind : α → κ} {as : List α}
    (h : (as.map kind).Nodup) (k : κ) : (as.filter (kind · = k)).length ≤ 1 := by
  have hcount := List.nodup_iff_count_le_one.mp h k
  rwa [List.count, List.countP_map, List.countP_eq_length_filter] at hcount

namespace Rettp

/-! ## Trees that differ in form -/

namespace Tree

/-- The type that a literal is written in. -/
def Value.type : Value → AssertionTypeAst
  | .string _ => .string
  | .integer _ => .integer
  | .number _ => .number
  | .boolean _ => .boolean
  | .null => .null
  | .array _ => .array
  | .object _ => .object

mutual

/-- An assertion with the type of every field written out. -/
def ObjectAssertion.explicit : ObjectAssertion → ObjectAssertion
  | ⟨mode, fields⟩ => ⟨mode, explicitFields fields⟩

/-- Fields with their types written out. -/
def explicitFields : List FieldAssertion → List FieldAssertion
  | [] => []
  | field :: fields => field.explicit :: explicitFields fields

/-- A field with its type written out. -/
def FieldAssertion.explicit : FieldAssertion → FieldAssertion
  | ⟨name, expectedType, expectedValue, nested, capture⟩ =>
    ⟨name, expectedType.or ((expectedValue.map Value.type).or (nested.map fun _ => .object)),
      expectedValue, explicitNested nested, capture⟩

/-- Nested fields with their types written out. -/
def explicitNested : Option ObjectAssertion → Option ObjectAssertion
  | none => none
  | some nested => some nested.explicit

end

/-- A body assertion with all types written out. -/
def BodyAssertion.explicit : BodyAssertion → BodyAssertion
  | .object assertion => .object assertion.explicit
  | body => body

namespace RequestSection

/-- The kind of a section of a request. -/
def kind : RequestSection → DuplicateKind
  | .headers _ => .requestHeaders
  | .query _ => .requestQuery
  | .body _ => .requestBody

/-- A section that may be left out. -/
def isEmpty : RequestSection → Bool
  | .headers entries => entries.isEmpty
  | .query entries => entries.isEmpty
  | .body _ => false

end RequestSection

namespace ExpectationSection

/-- The kind of a section of an expectation. -/
def kind : ExpectationSection → DuplicateKind
  | .status _ => .responseStatus
  | .headers _ => .responseHeaders
  | .body _ => .responseBody

/-- A section without entries. -/
def isEmpty : ExpectationSection → Bool
  | .headers entries => entries.isEmpty
  | .status _ | .body _ => false

/-- A section with all types written out. -/
def explicit : ExpectationSection → ExpectationSection
  | .body assertion => .body assertion.explicit
  | section_ => section_

end ExpectationSection

/-- The same request, up to the order of its sections and empty ones. -/
structure Request.Same (restored original : Request) : Prop where
  method : restored.method = original.method
  path : restored.path = original.path
  sections : restored.sections.Perm (original.sections.filter (! ·.isEmpty))

/-- The same expectation, up to the order of its sections, empty ones and inferred types. -/
def SameExpectation (restored original : List ExpectationSection) : Prop :=
  restored.Perm ((original.map (·.explicit)).filter (! ·.isEmpty))

/-- Tests that say the same. -/
structure Test.Same (restored original : Test) : Prop where
  name : restored.name = original.name
  requests : List.Forall₂ Request.Same restored.requests original.requests
  expectations : List.Forall₂ SameExpectation restored.expectations original.expectations

/-- Blocks of one kind with tests that say the same. -/
inductive Block.Same : Block → Block → Prop
  | core {restored original : List Test} (h : List.Forall₂ Test.Same restored original) :
      Same (.core restored) (.core original)
  | pipeline {name : String} {restored original : List Test}
      (h : List.Forall₂ Test.Same restored original) :
      Same (.pipeline name restored) (.pipeline name original)
  | test {restored original : Test} (h : restored.Same original) :
      Same (.test restored) (.test original)

end Tree

/-! ## Reading the tree back -/

namespace Restore

/-- The method of a request. -/
def method : HttpMethod → HttpMethodAst
  | .get => .get
  | .post => .post
  | .put => .put
  | .patch => .patch
  | .delete => .delete
  | .head => .head
  | .options => .options

/-- The type of a field. -/
def type : ExpectedType → AssertionTypeAst
  | .string => .string
  | .integer => .integer
  | .number => .number
  | .object => .object
  | .array => .array
  | .boolean => .boolean
  | .null => .null

/-- The mode of an object assertion. -/
def mode : ObjectMatchMode → ObjectMatchModeAst
  | .partially => .partially
  | .exact => .exact

mutual

/-- A literal. -/
def value : Value → Tree.Value
  | .string text => .string text.raw
  | .integer n => .integer n
  | .number x => .number x
  | .boolean b => .boolean b
  | .null => .null
  | .array items => .array (values items)
  | .object entries => .object (valueEntries entries)

/-- The items of an array. -/
def values : List Value → List Tree.Value
  | [] => []
  | item :: items => value item :: values items

/-- The entries of an object. -/
def valueEntries : List (String × Value) → List (String × Tree.Value)
  | [] => []
  | (key, item) :: entries => (key, value item) :: valueEntries entries

end

mutual

/-- An object assertion. -/
def objectAssertion : ObjectAssertion → Tree.ObjectAssertion
  | ⟨mode', fields⟩ => ⟨mode mode', fieldEntries fields⟩

/-- Fields, each under the name that it is stored under. -/
def fieldEntries : List (String × FieldAssertion) → List Tree.FieldAssertion
  | [] => []
  | (name, field) :: fields => fieldAssertion name field :: fieldEntries fields

/-- A field has the name that it stands under. -/
def fieldAssertion (name : String) : FieldAssertion → Tree.FieldAssertion
  | ⟨_, expectedType, expectedValue, nested', capture⟩ =>
    ⟨name, some (type expectedType), expectedValue.map value, nested nested',
      capture.map (·.variableName.raw)⟩

/-- Nested fields, if there are any. -/
def nested : Option ObjectAssertion → Option Tree.ObjectAssertion
  | none => none
  | some assertion => some (objectAssertion assertion)

end

/-- The section for headers, if there are any. -/
def headersSection : List (String × Tree.Value) → List Tree.RequestSection
  | [] => []
  | entries => [.headers entries]

/-- The section for query parameters, if there are any. -/
def querySection : List (String × Tree.Value) → List Tree.RequestSection
  | [] => []
  | entries => [.query entries]

/-- A body that the converter makes; it makes no other ones. -/
def bodySection : RequestBody → List Tree.RequestSection
  | .json (.object entries) => [.body (valueEntries entries)]
  | _ => []

/-- A request: what it has, section by section. -/
def request (spec : HttpRequestSpec) : Tree.Request :=
  ⟨method spec.method, spec.path.raw,
    headersSection (valueEntries spec.headers) ++
      (querySection (valueEntries spec.query) ++ spec.body.toList.flatMap bodySection)⟩

/-- A header assertion. -/
def headerAssertion : String × HeaderAssertion → Tree.HeaderAssertion
  | (name, .exists_) => .exists_ name
  | (name, .exact expected) => .exact name expected.raw
  | (name, .contains expected) => .contains name expected.raw

/-- A body assertion. -/
def bodyAssertion : BodyAssertion → Tree.BodyAssertion
  | .empty => .empty
  | .text (.exact expected) => .textExact expected.raw
  | .text (.contains expected) => .textContains expected.raw
  | .json assertion => .object (objectAssertion assertion)

/-- The section for header assertions, if there are any. -/
def responseHeadersSection : List Tree.HeaderAssertion → List Tree.ExpectationSection
  | [] => []
  | entries => [.headers entries]

/-- An expectation: what it has, section by section. -/
def expectation (e : ResponseExpectation) : List Tree.ExpectationSection :=
  e.status.toList.map (fun (status : Nat) => .status status) ++
    (responseHeadersSection (e.headers.map headerAssertion) ++
      e.body.toList.map (fun body => .body (bodyAssertion body)))

/-- A test. -/
def test (t : TestCase) : Tree.Test := ⟨t.name, [request t.request], [expectation t.expectation]⟩

/-- A block. -/
def block : SuiteBlock → Tree.Block
  | .core tests => .core (tests.map test)
  | .pipeline name tests => .pipeline name (tests.map test)
  | .test t => .test (test t)

end Restore

/-! ## Names of fields -/

mutual

/-- Every field of an assertion stands under its own name, at every depth. -/
def ObjectAssertion.Keyed : ObjectAssertion → Prop
  | ⟨_, fields⟩ => FieldAssertion.KeyedAll fields

/-- All fields are stored under their names, at every depth. -/
def FieldAssertion.KeyedAll : List (String × FieldAssertion) → Prop
  | [] => True
  | (name, field) :: fields => field.Keyed name ∧ FieldAssertion.KeyedAll fields

/-- A field is stored under its name, and so are its nested fields. -/
def FieldAssertion.Keyed (name : String) : FieldAssertion → Prop
  | ⟨fieldName, _, _, nested, _⟩ => fieldName = name ∧ ObjectAssertion.KeyedNested nested

/-- Nested fields are stored under their names. -/
def ObjectAssertion.KeyedNested : Option ObjectAssertion → Prop
  | none => True
  | some nested => nested.Keyed

end

/-- The assertions of a suite are keyed. -/
def TestSuite.Keyed (suite : TestSuite) : Prop :=
  ∀ block ∈ suite.blocks, ∀ test ∈ block.tests, ∀ assertion,
    test.expectation.body = some (.json assertion) → assertion.Keyed

mutual

/-- Conversion stores every field under its name. -/
theorem toAssertion_keyed : (assertion : ObjectAssertionAst) → assertion.toAssertion.Keyed
  | ⟨mode, fields, span⟩ => by
    rw [ObjectAssertionAst.toAssertion, ObjectAssertion.Keyed]
    exact fieldsToEntries_keyed fields

/-- Fields are stored under their names. -/
theorem fieldsToEntries_keyed : (fields : List FieldAssertionAst) →
    FieldAssertion.KeyedAll (fieldsToEntries fields)
  | [] => by
    rw [fieldsToEntries, FieldAssertion.KeyedAll]
    trivial
  | field :: fields => by
    rw [fieldsToEntries, FieldAssertion.KeyedAll]
    exact ⟨toField_keyed field, fieldsToEntries_keyed fields⟩

/-- A field and what is nested in it. -/
theorem toField_keyed : (field : FieldAssertionAst) → field.toField.Keyed field.name.value
  | ⟨name, expectedType, expectedValue, nested, capture, span⟩ => by
    rw [FieldAssertionAst.toField, FieldAssertion.Keyed]
    exact ⟨rfl, nestedToAssertion_keyed nested⟩

/-- Nested fields are stored under their names. -/
theorem nestedToAssertion_keyed : (nested : Option ObjectAssertionAst) →
    ObjectAssertion.KeyedNested (nestedToAssertion nested)
  | none => by
    rw [nestedToAssertion, ObjectAssertion.KeyedNested]
    trivial
  | some nested => by
    rw [nestedToAssertion, ObjectAssertion.KeyedNested]
    exact toAssertion_keyed nested

end

/-- The fields of an expected body are stored under their names. -/
theorem toExpectation_keyed (e : ExpectationAst) {assertion : ObjectAssertion}
    (h : e.toExpectation.body = some (.json assertion)) : assertion.Keyed := by
  have hbody : (e.sections.flatMap (·.toBodies)).getLast? = some (.json assertion) := by
    rw [← h]
    exact Option.or_none.symm
  obtain ⟨section_, -, hmem⟩ := List.mem_flatMap.mp (List.mem_of_getLast? hbody)
  cases section_ with
  | body body =>
    have heq : .json assertion = body.toAssertion := List.mem_singleton.mp hmem
    cases body with
    | object object =>
      obtain rfl : assertion = object.toAssertion := BodyAssertion.json.inj heq
      exact toAssertion_keyed object
    | _ => cases heq
  | _ => cases hmem

/-- The fields that a test expects are stored under their names. -/
theorem toCase_keyed (t : TestAst) {assertion : ObjectAssertion}
    (h : t.toCase.expectation.body = some (.json assertion)) : assertion.Keyed := by
  unfold TestAst.toCase at h
  split at h
  · exact toExpectation_keyed _ h
  · cases h

/-- **Names of fields.** What a tree stands for has every field under its own name. -/
theorem toSuite_keyed (ast : SuiteAst) : ast.toSuite.Keyed := by
  intro block hblock test htest assertion h
  obtain ⟨b, -, rfl⟩ := List.mem_map.mp hblock
  cases b with
  | core core =>
    obtain ⟨t, -, rfl⟩ := List.mem_map.mp htest
    exact toCase_keyed t h
  | pipeline pipeline =>
    obtain ⟨t, -, rfl⟩ := List.mem_map.mp htest
    exact toCase_keyed t h
  | test t =>
    obtain rfl := List.mem_singleton.mp htest
    exact toCase_keyed t h

/-- The tree that a suite was converted from. -/
def restore (suite : TestSuite) : Tree.Suite := suite.blocks.map Restore.block

/-! ## What is read back -/

namespace Restore

open Converter

/-- Entries are restored one by one. -/
theorem valueEntries_eq (entries : List (String × Value)) :
    valueEntries entries = entries.map fun entry => (entry.1, value entry.2) := by
  induction entries with
  | nil => rfl
  | cons entry entries ih => rw [valueEntries, ih, List.map_cons]

mutual

/-- A literal comes back. -/
theorem value_toValue : (v : ValueAst) → value v.toValue = v.erase
  | .string v => by rw [ValueAst.toValue, value, ValueAst.erase]
  | .integer v => by rw [ValueAst.toValue, value, ValueAst.erase]
  | .number v => by rw [ValueAst.toValue, value, ValueAst.erase]
  | .boolean v => by rw [ValueAst.toValue, value, ValueAst.erase]
  | .null span => by rw [ValueAst.toValue, value, ValueAst.erase]
  | .array ⟨items, span⟩ => by
    rw [ValueAst.toValue, value, ValueAst.erase, values_itemsToValues items]
  | .object ⟨entries, span⟩ => by
    rw [ValueAst.toValue, ObjectValueAst.toEntries, value, ValueAst.erase,
      valueEntries_entriesToValues entries]

/-- The items of an array come back. -/
theorem values_itemsToValues : (items : List ValueAst) →
    values (itemsToValues items) = eraseItems items
  | [] => rfl
  | item :: items => by
    rw [itemsToValues, values, eraseItems, value_toValue item, values_itemsToValues items]

/-- The entries of an object come back. -/
theorem valueEntries_entriesToValues : (entries : List ObjectValueEntryAst) →
    valueEntries (entriesToValues entries) = eraseEntries entries
  | [] => rfl
  | ⟨key, v, span⟩ :: entries => by
    rw [entriesToValues, valueEntries, eraseEntries, value_toValue v,
      valueEntries_entriesToValues entries]

end

/-- A method comes back. -/
theorem method_convert (m : HttpMethodAst) : method (convertMethod m) = m := by cases m <;> rfl

/-- A mode comes back. -/
theorem mode_convert (m : ObjectMatchModeAst) : mode (convertMatchMode m) = m := by
  cases m <;> rfl

/-- A type comes back. -/
theorem type_convert (t : AssertionTypeAst) : type (convertAssertionType t) = t := by
  cases t <;> rfl

/-- An inferred type is that of the literal. -/
theorem type_infer (v : ValueAst) : type (inferExpectedType v) = v.erase.type := by
  cases v with
  | array v =>
    obtain ⟨items, span⟩ := v
    rw [ValueAst.erase]
    rfl
  | object v =>
    obtain ⟨entries, span⟩ := v
    rw [ValueAst.erase]
    rfl
  | _ => rfl

/-- The type of a field is the one that its tree has, written out. -/
theorem type_convertFieldType {expectedType : Option (Spanned AssertionTypeAst)}
    {expectedValue : Option ValueAst} {nested : Option ObjectAssertionAst}
    (h : (convertFieldType expectedType expectedValue nested).isSome) :
    some (type ((convertFieldType expectedType expectedValue nested).getD .null)) =
      (expectedType.map (·.value)).or (((expectedValue.map ValueAst.erase).map Tree.Value.type).or
        ((eraseNested nested).map fun _ => .object)) := by
  rw [eraseNested_eq]
  cases expectedType with
  | some t => simp [convertFieldType, type_convert]
  | none =>
    cases expectedValue with
    | some v => simp [convertFieldType, type_infer]
    | none =>
      cases nested with
      | some assertion => rfl
      | none => cases h

mutual

/-- **An object assertion comes back**, with its types written out. -/
theorem objectAssertion_toAssertion : (assertion : ObjectAssertionAst) →
    (∀ field ∈ assertion.allFields,
      (convertFieldType field.expectedType field.expectedValue field.nested).isSome) →
    objectAssertion assertion.toAssertion = assertion.erase.explicit
  | ⟨m, fields, span⟩, h => by
    rw [ObjectAssertionAst.toAssertion, objectAssertion, ObjectAssertionAst.erase,
      Tree.ObjectAssertion.explicit, mode_convert, fieldEntries_fieldsToEntries fields h]

/-- Fields come back, with their types written out. -/
theorem fieldEntries_fieldsToEntries : (fields : List FieldAssertionAst) →
    (∀ field ∈ allFieldsOf fields,
      (convertFieldType field.expectedType field.expectedValue field.nested).isSome) →
    fieldEntries (fieldsToEntries fields) = Tree.explicitFields (eraseFields fields)
  | [], _ => rfl
  | field :: fields, h => by
    rw [allFieldsOf, List.forall_mem_append] at h
    rw [fieldsToEntries, fieldEntries, eraseFields, Tree.explicitFields,
      fieldAssertion_toField field h.1, fieldEntries_fieldsToEntries fields h.2]

/-- A field comes back, with its type written out. -/
theorem fieldAssertion_toField : (field : FieldAssertionAst) →
    (∀ part ∈ field.allFields,
      (convertFieldType part.expectedType part.expectedValue part.nested).isSome) →
    fieldAssertion field.name.value field.toField = field.erase.explicit
  | ⟨name, expectedType, expectedValue, nested', capture, span⟩, h => by
    rw [FieldAssertionAst.allFields, List.forall_mem_append, List.forall_mem_singleton] at h
    rw [FieldAssertionAst.toField, fieldAssertion, FieldAssertionAst.erase,
      Tree.FieldAssertion.explicit, type_convertFieldType h.2,
      nested_nestedToAssertion nested' h.1, Option.map_map, Option.map_map,
      show value ∘ ValueAst.toValue = ValueAst.erase from funext value_toValue]
    cases capture <;> rfl

/-- Nested fields come back, with their types written out. -/
theorem nested_nestedToAssertion : (nested' : Option ObjectAssertionAst) →
    (∀ field ∈ nestedFields nested',
      (convertFieldType field.expectedType field.expectedValue field.nested).isSome) →
    nested (nestedToAssertion nested') = Tree.explicitNested (eraseNested nested')
  | none, _ => rfl
  | some assertion, h => by
    rw [nestedToAssertion, nested, eraseNested, Tree.explicitNested,
      objectAssertion_toAssertion assertion h]

end

/-! ## Requests -/

/-- A list of one element at most is its last one. -/
theorem getLast?_toList {α : Type} {as : List α} (h : as.length ≤ 1) : as.getLast?.toList = as := by
  match as, h with
  | [], _ => rfl
  | [a], _ => rfl

/-- The entries of a section of headers. -/
def headerEntries : Tree.RequestSection → List (String × Tree.Value)
  | .headers entries => entries
  | _ => []

/-- The query parameters of a section. -/
def queryEntries : Tree.RequestSection → List (String × Tree.Value)
  | .query entries => entries
  | _ => []

/-- The bodies of a section. -/
def bodies : Tree.RequestSection → List (List (String × Tree.Value))
  | .body entries => [entries]
  | _ => []

/-- The headers of a request come back. -/
theorem headers_erase (sections : List RequestSectionAst) :
    valueEntries (sections.flatMap (·.toHeaders)) =
      (sections.map RequestSectionAst.erase).flatMap headerEntries := by
  rw [valueEntries_eq, List.map_flatMap, List.flatMap_map]
  refine List.flatMap_congr fun section_ _ => ?_
  cases section_ with
  | headers section_ =>
    simp only [RequestSectionAst.toHeaders, RequestSectionAst.erase, headerEntries, List.map_map]
    refine List.map_congr_left fun entry _ => ?_
    simp [HeaderValueEntryAst.toEntry, HeaderValueEntryAst.erase, value_toValue]
  | query section_ => rfl
  | body section_ => rfl

/-- The query parameters of a request come back. -/
theorem query_erase (sections : List RequestSectionAst) :
    valueEntries (sections.flatMap (·.toQuery)) =
      (sections.map RequestSectionAst.erase).flatMap queryEntries := by
  rw [valueEntries_eq, List.map_flatMap, List.flatMap_map]
  refine List.flatMap_congr fun section_ _ => ?_
  cases section_ with
  | headers section_ => rfl
  | query section_ =>
    rw [← valueEntries_eq]
    exact valueEntries_entriesToValues section_.entries
  | body section_ => rfl

/-- The body of a request comes back. -/
theorem body_erase (sections : List RequestSectionAst) :
    (sections.flatMap (·.toBodies)).flatMap bodySection =
      ((sections.map RequestSectionAst.erase).flatMap bodies).map .body := by
  rw [List.flatMap_assoc, List.map_flatMap, List.flatMap_map]
  refine List.flatMap_congr fun section_ _ => ?_
  cases section_ with
  | headers section_ => rfl
  | query section_ => rfl
  | body section_ =>
    obtain ⟨⟨entries, objectSpan⟩, span⟩ := section_
    have hentries := valueEntries_entriesToValues entries
    simpa [RequestSectionAst.toBodies, bodySection, RequestSectionAst.erase, bodies,
      ObjectValueAst.toEntries] using hentries

/-- A section keeps its kind. -/
theorem kind_erase (section_ : RequestSectionAst) : section_.erase.kind = section_.kind := by
  cases section_ <;> rfl

/-- As many bodies as sections for them. -/
theorem length_toBodies (sections : List RequestSectionAst) :
    (sections.flatMap (·.toBodies)).length =
      (sections.filter (·.kind = .requestBody)).length := by
  induction sections with
  | nil => rfl
  | cons section_ sections ih =>
    rw [List.flatMap_cons, List.length_append, ih]
    cases section_ <;> simp [RequestSectionAst.toBodies, RequestSectionAst.kind, Nat.add_comm]

/-- The sections in their fixed order. -/
theorem rebuild_request {sections : List Tree.RequestSection}
    (h : (sections.map Tree.RequestSection.kind).Nodup) :
    (headersSection (sections.flatMap headerEntries) ++
      (querySection (sections.flatMap queryEntries) ++
        (sections.flatMap bodies).map Tree.RequestSection.body)).Perm (sections.filter (! ·.isEmpty)) := by
  have hone := length_filter_le_one h
  have hheaders : headersSection (sections.flatMap headerEntries) =
      (sections.filter (·.kind = .requestHeaders)).filter (! ·.isEmpty) := by
    refine rebuild_kind rfl (fun a ha => ?_) (fun a ha => ?_) (hone .requestHeaders) <;> cases a
    · rename_i entries
      cases entries <;> rfl
    all_goals first | rfl | (simp [Tree.RequestSection.kind] at ha)
  have hquery : querySection (sections.flatMap queryEntries) =
      (sections.filter (·.kind = .requestQuery)).filter (! ·.isEmpty) := by
    refine rebuild_kind rfl (fun a ha => ?_) (fun a ha => ?_) (hone .requestQuery) <;> cases a
    · simp [Tree.RequestSection.kind] at ha
    · rename_i entries
      cases entries <;> rfl
    all_goals first | rfl | (simp [Tree.RequestSection.kind] at ha)
  have hbodies : (sections.flatMap bodies).map Tree.RequestSection.body =
      (sections.filter (·.kind = .requestBody)).filter (! ·.isEmpty) := by
    refine rebuild_kind rfl (fun a ha => ?_) (fun a ha => ?_) (hone .requestBody) <;> cases a
    all_goals first | rfl | (simp [Tree.RequestSection.kind] at ha)
  rw [hheaders, hquery, hbodies, ← List.filter_append, ← List.filter_append]
  refine (perm_three_kinds (fun a => ?_) sections).filter _
  cases a <;> simp [Tree.RequestSection.kind]

/-- **Requests.** -/
theorem request_toSpec {r : RequestAst} (h : (r.sections.map (·.kind)).Nodup) :
    (request r.toSpec).Same r.erase where
  method := method_convert r.method.value
  path := rfl
  sections := by
    have hkinds : ((r.sections.map RequestSectionAst.erase).map Tree.RequestSection.kind).Nodup := by
      rwa [List.map_map, show Tree.RequestSection.kind ∘ RequestSectionAst.erase =
        RequestSectionAst.kind from funext kind_erase]
    have hbodies : r.toSpec.body.toList = r.sections.flatMap (·.toBodies) := by
      have hlength := length_filter_le_one h .requestBody
      rw [← length_toBodies] at hlength
      rw [← getLast?_toList hlength]
      exact congrArg Option.toList Option.or_none
    have hsections := rebuild_request hkinds
    rw [← headers_erase, ← query_erase, ← body_erase, ← hbodies] at hsections
    exact hsections

/-! ## Expectations -/

/-- The statuses of a section. -/
def statuses : Tree.ExpectationSection → List Int
  | .status status => [status]
  | _ => []

/-- The header assertions of a section. -/
def responseEntries : Tree.ExpectationSection → List Tree.HeaderAssertion
  | .headers entries => entries
  | _ => []

/-- The body assertions of a section. -/
def responseBodies : Tree.ExpectationSection → List Tree.BodyAssertion
  | .body body => [body]
  | _ => []

/-- A section of an expectation keeps its kind. -/
theorem expectationKind_erase (section_ : ExpectationSectionAst) :
    section_.erase.explicit.kind = section_.kind := by
  cases section_ <;> rfl

/-- The sections in their fixed order. -/
theorem rebuild_expectation {sections : List Tree.ExpectationSection}
    (h : (sections.map Tree.ExpectationSection.kind).Nodup) :
    ((sections.flatMap statuses).map Tree.ExpectationSection.status ++
      (responseHeadersSection (sections.flatMap responseEntries) ++
        (sections.flatMap responseBodies).map Tree.ExpectationSection.body)).Perm
      (sections.filter (! ·.isEmpty)) := by
  have hone := length_filter_le_one h
  have hstatus : (sections.flatMap statuses).map Tree.ExpectationSection.status =
      (sections.filter (·.kind = .responseStatus)).filter (! ·.isEmpty) := by
    refine rebuild_kind rfl (fun a ha => ?_) (fun a ha => ?_) (hone .responseStatus) <;> cases a
    all_goals first | rfl | (simp [Tree.ExpectationSection.kind] at ha)
  have hheaders : responseHeadersSection (sections.flatMap responseEntries) =
      (sections.filter (·.kind = .responseHeaders)).filter (! ·.isEmpty) := by
    refine rebuild_kind rfl (fun a ha => ?_) (fun a ha => ?_) (hone .responseHeaders) <;> cases a
    · simp [Tree.ExpectationSection.kind] at ha
    · rename_i entries
      cases entries <;> rfl
    all_goals first | rfl | (simp [Tree.ExpectationSection.kind] at ha)
  have hbodies : (sections.flatMap responseBodies).map Tree.ExpectationSection.body =
      (sections.filter (·.kind = .responseBody)).filter (! ·.isEmpty) := by
    refine rebuild_kind rfl (fun a ha => ?_) (fun a ha => ?_) (hone .responseBody) <;> cases a
    all_goals first | rfl | (simp [Tree.ExpectationSection.kind] at ha)
  rw [hstatus, hheaders, hbodies, ← List.filter_append, ← List.filter_append]
  refine (perm_three_kinds (fun a => ?_) sections).filter _
  cases a <;> simp [Tree.ExpectationSection.kind]

/-- The fields of an expectation all have a type. -/
def Typed (expectation : ExpectationAst) : Prop :=
  ∀ assertion ∈ expectation.assertions, ∀ field ∈ assertion.allFields,
    (convertFieldType field.expectedType field.expectedValue field.nested).isSome

/-- A body assertion comes back. -/
theorem bodyAssertion_toAssertion {body : BodyAssertionAst}
    (h : ∀ assertion ∈ body.assertions, ∀ field ∈ assertion.allFields,
      (convertFieldType field.expectedType field.expectedValue field.nested).isSome) :
    bodyAssertion body.toAssertion = body.erase.explicit := by
  cases body with
  | object assertion =>
    have hassertion := objectAssertion_toAssertion assertion
      (h assertion (by simp [BodyAssertionAst.assertions]))
    simp [BodyAssertionAst.toAssertion, bodyAssertion, BodyAssertionAst.erase,
      Tree.BodyAssertion.explicit, hassertion]
  | _ => rfl

/-- The status comes back. -/
theorem statuses_erase {sections : List ExpectationSectionAst}
    (h : ∀ status ∈ sections.flatMap (·.statuses), 100 ≤ status ∧ status ≤ 599) :
    ((sections.flatMap (·.statuses)).map Int.toNat).map (fun (status : Nat) => (status : Int)) =
      (sections.map fun section_ => section_.erase.explicit).flatMap statuses := by
  have hstatuses : (sections.map fun section_ => section_.erase.explicit).flatMap statuses =
      sections.flatMap (·.statuses) := by
    rw [List.flatMap_map]
    refine List.flatMap_congr fun section_ _ => ?_
    cases section_ <;> rfl
  rw [hstatuses, List.map_map]
  refine (List.map_congr_left fun status hstatus => ?_).trans (List.map_id _)
  have := h status hstatus
  exact Int.toNat_of_nonneg (by omega)

/-- The header assertions come back. -/
theorem responseHeaders_erase (sections : List ExpectationSectionAst) :
    (sections.flatMap (·.toHeaders)).map headerAssertion =
      (sections.map fun section_ => section_.erase.explicit).flatMap responseEntries := by
  rw [List.map_flatMap, List.flatMap_map]
  refine List.flatMap_congr fun section_ _ => ?_
  cases section_ with
  | headers assertions =>
    simp only [ExpectationSectionAst.toHeaders, ExpectationSectionAst.erase,
      Tree.ExpectationSection.explicit, responseEntries, List.map_map]
    refine List.map_congr_left fun entry _ => ?_
    cases entry <;> rfl
  | status assertion => rfl
  | body assertion => rfl

/-- The body assertion comes back. -/
theorem responseBodies_erase {sections : List ExpectationSectionAst}
    (h : ∀ assertion ∈ sections.flatMap (·.assertions), ∀ field ∈ assertion.allFields,
      (convertFieldType field.expectedType field.expectedValue field.nested).isSome) :
    (sections.flatMap (·.toBodies)).map bodyAssertion =
      (sections.map fun section_ => section_.erase.explicit).flatMap responseBodies := by
  rw [List.map_flatMap, List.flatMap_map]
  refine List.flatMap_congr fun section_ hsection => ?_
  cases section_ with
  | headers assertions => rfl
  | status assertion => rfl
  | body body =>
    have hbody : bodyAssertion body.toAssertion = body.erase.explicit :=
      bodyAssertion_toAssertion fun assertion hassertion =>
        h assertion (List.mem_flatMap.mpr ⟨_, hsection, hassertion⟩)
    simp [ExpectationSectionAst.toBodies, ExpectationSectionAst.erase,
      Tree.ExpectationSection.explicit, responseBodies, hbody]

/-- As many statuses as sections for them. -/
theorem length_statuses (sections : List ExpectationSectionAst) :
    ((sections.flatMap (·.statuses)).map Int.toNat).length =
      (sections.filter (·.kind = .responseStatus)).length := by
  induction sections with
  | nil => rfl
  | cons section_ sections ih =>
    rw [List.flatMap_cons, List.map_append, List.length_append, ih]
    cases section_ <;>
      simp [ExpectationSectionAst.statuses, ExpectationSectionAst.kind, Nat.add_comm]

/-- As many body assertions as sections for them. -/
theorem length_responseBodies (sections : List ExpectationSectionAst) :
    (sections.flatMap (·.toBodies)).length =
      (sections.filter (·.kind = .responseBody)).length := by
  induction sections with
  | nil => rfl
  | cons section_ sections ih =>
    rw [List.flatMap_cons, List.length_append, ih]
    cases section_ <;>
      simp [ExpectationSectionAst.toBodies, ExpectationSectionAst.kind, Nat.add_comm]

/-- The body of an expectation is that of its only body section. -/
theorem body_toExpectation {e : ExpectationAst} (h : (e.sections.map (·.kind)).Nodup) :
    e.toExpectation.body.toList = e.sections.flatMap (·.toBodies) := by
  have hlength := length_filter_le_one h .responseBody
  rw [← length_responseBodies] at hlength
  rw [← getLast?_toList hlength]
  exact congrArg Option.toList Option.or_none

/-- **Expectations.** -/
theorem expectation_toExpectation {e : ExpectationAst} (h : (e.sections.map (·.kind)).Nodup)
    (hstatus : ∀ status ∈ e.statuses, 100 ≤ status ∧ status ≤ 599) (htyped : Typed e) :
    Tree.SameExpectation (expectation e.toExpectation) e.erase := by
  have hexplicit : e.erase.map Tree.ExpectationSection.explicit =
      e.sections.map fun section_ => section_.erase.explicit := by
    rw [ExpectationAst.erase, List.map_map]
    rfl
  have hkinds : ((e.erase.map Tree.ExpectationSection.explicit).map
      Tree.ExpectationSection.kind).Nodup := by
    rwa [hexplicit, List.map_map, show Tree.ExpectationSection.kind ∘
      (fun section_ : ExpectationSectionAst => section_.erase.explicit) =
        ExpectationSectionAst.kind from funext expectationKind_erase]
  have hone := length_filter_le_one h
  have hstatuses : e.toExpectation.status.toList = (e.sections.flatMap (·.statuses)).map Int.toNat := by
    have hlength := hone .responseStatus
    rw [← length_statuses] at hlength
    rw [← getLast?_toList hlength]
    exact congrArg Option.toList Option.or_none
  have hbodies := body_toExpectation h
  have hsections := rebuild_expectation hkinds
  rw [hexplicit, ← statuses_erase hstatus, ← responseHeaders_erase,
    ← responseBodies_erase htyped, ← hstatuses, ← hbodies, List.map_map, List.map_map] at hsections
  rw [Tree.SameExpectation, hexplicit]
  exact hsections

/-! ## Suites -/

/-- The tests of a block come back. -/
theorem tests_toCase {tests : List TestAst} (h : ∀ t ∈ tests, (test t.toCase).Same t.erase) :
    List.Forall₂ Tree.Test.Same ((tests.map TestAst.toCase).map test) (tests.map TestAst.erase) := by
  rw [List.map_map]
  exact List.forall₂_map_left_iff.mpr (List.forall₂_map_right_iff.mpr
    (List.forall₂_same.mpr h))

variable [Platform]

/-- **A test comes back** as what it said. -/
theorem test_toCase {scope : Finset VariableName} {limit : Nat} {t : TestAst}
    (h : TestRules scope limit t) : (test t.toCase).Same t.erase := by
  obtain ⟨-, ⟨r, hrequest, rr⟩, ⟨e, hexpectation, er⟩⟩ := h
  have htyped : Typed e := fun assertion hassertion field hfield => by
    have hrules := (er.assertions assertion hassertion).fields field hfield
    refine (convertible hrules fun capture hcapture => ?_).type
    refine er.captures _ ?_
    rw [ExpectationAst.captures]
    obtain ⟨section_, hsection, hmem⟩ := List.mem_flatMap.mp hassertion
    exact List.mem_flatMap.mpr ⟨section_, hsection, List.mem_flatMap.mpr
      ⟨assertion, hmem, mem_capturesOfFields hfield hcapture⟩⟩
  refine ⟨?_, ?_, ?_⟩
  · rw [TestAst.toCase, hrequest, hexpectation]
    rfl
  · rw [TestAst.toCase, TestAst.erase, hrequest, hexpectation]
    exact .cons (request_toSpec rr.sections) .nil
  · rw [TestAst.toCase, TestAst.erase, hrequest, hexpectation]
    exact .cons (expectation_toExpectation er.sections er.status htyped) .nil

/-- **The tree of a valid suite is read back.** -/
theorem restore_toSuite {context : ValidationContext} {ast : SuiteAst}
    (h : SuiteRules context ast) :
    List.Forall₂ Tree.Block.Same (restore ast.toSuite) ast.erase := by
  rw [restore, SuiteAst.toSuite, SuiteAst.erase, List.map_map]
  refine List.forall₂_map_left_iff.mpr (List.forall₂_map_right_iff.mpr
    (List.forall₂_same.mpr fun b hblock => ?_))
  have htest (t : TestAst) (ht : t ∈ b.tests) : (test t.toCase).Same t.erase := by
    obtain ⟨i, hi, rfl⟩ := List.getElem_of_mem ht
    exact test_toCase (h.tests b hblock i hi)
  cases b with
  | core core => exact .core (tests_toCase htest)
  | pipeline pipeline => exact .pipeline (tests_toCase htest)
  | test t => exact .test (htest t (List.mem_singleton_self t))

end Restore

variable [Platform]

/-- **Validated conversion is total and lossless.** A suite without semantic errors is converted
without a panic, an insertion that refuses to overwrite makes the same suite of it, every field of
the suite stands under its own name, and the tree can be read back from it. -/
theorem convert_lossless (context : ValidationContext) (ast : SuiteAst)
    (h : validate ast context = []) :
    ∃ suite, convert ast = some suite ∧ Converter.convertSuite .refusing ast = some suite ∧
      suite.Keyed ∧ List.Forall₂ Tree.Block.Same (restore suite) ast.erase := by
  have hrules : SuiteRules context ast := (Validator.validateSuite_meets context ast).clean.mp h
  exact ⟨ast.toSuite, Converter.convertSuite_eq .overwriting hrules,
    Converter.convertSuite_eq .refusing hrules, toSuite_keyed ast, Restore.restore_toSuite hrules⟩

/-- A test that sends a header and a body, and captures a token. -/
def loginSuite : SuiteAst :=
  let span : SourceSpan := ⟨0, 0⟩
  let header : HeaderValueEntryAst := ⟨⟨"X-Id", span⟩, .integer ⟨7, span⟩, span⟩
  let entry : ObjectValueEntryAst := ⟨⟨"user", span⟩, .string ⟨"ada", span⟩, span⟩
  let field : FieldAssertionAst :=
    ⟨⟨"token", span⟩, some ⟨.string, span⟩, none, none, some ⟨"TOKEN", span⟩, span⟩
  let request : RequestAst := ⟨⟨.post, span⟩, ⟨"/login", span⟩,
    [.headers ⟨[header], span⟩, .body ⟨⟨[entry], span⟩, span⟩], span⟩
  let expectation : ExpectationAst :=
    ⟨[.status ⟨⟨200, span⟩, span⟩, .body (.object ⟨.partially, [field], span⟩)], span⟩
  ⟨[.test ⟨⟨"login", span⟩, [request], [expectation], span⟩], span⟩

omit [Platform] in
/-- The login is valid, and read back from its suite. -/
theorem convert_lossless_login :
    letI := asciiPlatform
    validate loginSuite .new = [] ∧
      ∃ suite, convert loginSuite = some suite ∧
        Converter.convertSuite .refusing loginSuite = some suite ∧ suite.Keyed ∧
        List.Forall₂ Tree.Block.Same (restore suite) loginSuite.erase :=
  letI := asciiPlatform
  have h : validate loginSuite .new = [] := by decide +kernel
  ⟨h, convert_lossless .new loginSuite h⟩

end Rettp
