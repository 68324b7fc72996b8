import Rettp.Check

/-!
# Layout

Spans serve diagnostics only: a tree without spans has a tree with every span at the start
(`toAst`), and whatever the rules and the conversion look at is the same in a tree and in that one
(`suiteRules_erase`, `toSuite_erase`).

So what a source stands for depends on the kinds of its tokens alone, not on the white space and
the comments between them and not on how a string or a number is written (`checkSource_layout`).
-/

namespace Rettp

/-! ## Trees with every span at the start -/

/-- A value at no place in particular. -/
def Spanned.atStart {α : Type} (value : α) : Spanned α := ⟨value, ⟨0, 0⟩⟩

namespace Tree

mutual

/-- A literal at no place in particular. -/
def Value.toAst : Value → ValueAst
  | .string value => .string (.atStart value)
  | .integer value => .integer (.atStart value)
  | .number value => .number (.atStart value)
  | .boolean value => .boolean (.atStart value)
  | .null => .null ⟨0, 0⟩
  | .array items => .array ⟨itemsToAst items, ⟨0, 0⟩⟩
  | .object entries => .object ⟨entriesToAst entries, ⟨0, 0⟩⟩

/-- The items of an array at no place in particular. -/
def itemsToAst : List Value → List ValueAst
  | [] => []
  | item :: items => item.toAst :: itemsToAst items

/-- The entries of an object at no place in particular. -/
def entriesToAst : List (String × Value) → List ObjectValueEntryAst
  | [] => []
  | (key, value) :: entries => ⟨.atStart key, value.toAst, ⟨0, 0⟩⟩ :: entriesToAst entries

end

/-- A request header at no place in particular. -/
def headerEntryToAst (entry : String × Value) : HeaderValueEntryAst :=
  ⟨.atStart entry.1, entry.2.toAst, ⟨0, 0⟩⟩

/-- A section of a request at no place in particular. -/
def RequestSection.toAst : RequestSection → RequestSectionAst
  | .headers entries => .headers ⟨entries.map headerEntryToAst, ⟨0, 0⟩⟩
  | .query entries => .query ⟨entriesToAst entries, ⟨0, 0⟩⟩
  | .body entries => .body ⟨⟨entriesToAst entries, ⟨0, 0⟩⟩, ⟨0, 0⟩⟩

/-- A request at no place in particular. -/
def Request.toAst (request : Request) : RequestAst :=
  ⟨.atStart request.method, .atStart request.path, request.sections.map RequestSection.toAst,
    ⟨0, 0⟩⟩

mutual

/-- An object assertion at no place in particular. -/
def ObjectAssertion.toAst : ObjectAssertion → ObjectAssertionAst
  | ⟨mode, fields⟩ => ⟨mode, fieldsToAst fields, ⟨0, 0⟩⟩

/-- Fields at no place in particular. -/
def fieldsToAst : List FieldAssertion → List FieldAssertionAst
  | [] => []
  | field :: fields => field.toAst :: fieldsToAst fields

/-- A field at no place in particular. -/
def FieldAssertion.toAst : FieldAssertion → FieldAssertionAst
  | ⟨name, expectedType, expectedValue, nested, capture⟩ =>
    ⟨.atStart name, expectedType.map .atStart, expectedValue.map Value.toAst, nestedToAst nested,
      capture.map .atStart, ⟨0, 0⟩⟩

/-- Nested fields at no place in particular. -/
def nestedToAst : Option ObjectAssertion → Option ObjectAssertionAst
  | none => none
  | some nested => some nested.toAst

end

/-- A header assertion at no place in particular. -/
def HeaderAssertion.toAst : HeaderAssertion → ResponseHeaderAssertionAst
  | .exists_ name => .exists_ (.atStart name) ⟨0, 0⟩ ⟨0, 0⟩
  | .exact name expected => .exact (.atStart name) (.atStart expected) ⟨0, 0⟩
  | .contains name expected => .contains (.atStart name) (.atStart expected) ⟨0, 0⟩

/-- A body assertion at no place in particular. -/
def BodyAssertion.toAst : BodyAssertion → BodyAssertionAst
  | .empty => .empty ⟨0, 0⟩
  | .textExact expected => .textExact (.atStart expected) ⟨0, 0⟩
  | .textContains expected => .textContains (.atStart expected) ⟨0, 0⟩
  | .object assertion => .object assertion.toAst

/-- A section of an expectation at no place in particular. -/
def ExpectationSection.toAst : ExpectationSection → ExpectationSectionAst
  | .status expected => .status ⟨.atStart expected, ⟨0, 0⟩⟩
  | .headers entries => .headers ⟨entries.map HeaderAssertion.toAst, ⟨0, 0⟩⟩
  | .body assertion => .body assertion.toAst

/-- An expectation at no place in particular. -/
def expectationToAst (sections : List ExpectationSection) : ExpectationAst :=
  ⟨sections.map ExpectationSection.toAst, ⟨0, 0⟩⟩

/-- A test at no place in particular. -/
def Test.toAst (test : Test) : TestAst :=
  ⟨.atStart test.name, test.requests.map Request.toAst, test.expectations.map expectationToAst,
    ⟨0, 0⟩⟩

/-- A block at no place in particular. -/
def Block.toAst : Block → BlockAst
  | .core tests => .core ⟨tests.map Test.toAst, ⟨0, 0⟩⟩
  | .pipeline name tests => .pipeline ⟨.atStart name, tests.map Test.toAst, ⟨0, 0⟩⟩
  | .test t => .test t.toAst

/-- A suite at no place in particular: the tree that it is the erasure of. -/
def suiteToAst (suite : Suite) : SuiteAst := ⟨suite.map Block.toAst, ⟨0, 0⟩⟩

end Tree

open Rettp.Tree

/-! ## Values -/

mutual

/-- The string literals of a value do not depend on where it stands. -/
@[simp] theorem ValueAst.texts_erase : (v : ValueAst) → v.erase.toAst.texts = v.texts
  | .string _ | .integer _ | .number _ | .boolean _ | .null _ => rfl
  | .array ⟨items, _⟩ => textsOfItems_erase items
  | .object ⟨entries, _⟩ => textsOfEntries_erase entries

/-- Nor do those of the items of an array. -/
theorem textsOfItems_erase : (items : List ValueAst) →
    textsOfItems (itemsToAst (eraseItems items)) = textsOfItems items
  | [] => rfl
  | item :: items => by
    rw [eraseItems, itemsToAst, textsOfItems, textsOfItems, item.texts_erase,
      textsOfItems_erase items]

/-- Nor do those of the entries of an object. -/
theorem textsOfEntries_erase : (entries : List ObjectValueEntryAst) →
    textsOfEntries (entriesToAst (eraseEntries entries)) = textsOfEntries entries
  | [] => rfl
  | ⟨_, value, _⟩ :: entries => by
    rw [eraseEntries, entriesToAst, textsOfEntries, textsOfEntries, value.texts_erase,
      textsOfEntries_erase entries]

end

/-- The keys of an object do not depend on where they stand. -/
theorem keys_erase (entries : List ObjectValueEntryAst) :
    (entriesToAst (eraseEntries entries)).map (·.key.value) = entries.map (·.key.value) := by
  induction entries with
  | nil => rfl
  | cons entry entries ih =>
    obtain ⟨key, value, span⟩ := entry
    rw [eraseEntries, entriesToAst, List.map_cons, List.map_cons, ih]
    rfl

mutual

/-- Nor do the keys of all objects in a value. -/
@[simp] theorem ValueAst.keyLists_erase : (v : ValueAst) → v.erase.toAst.keyLists = v.keyLists
  | .string _ | .integer _ | .number _ | .boolean _ | .null _ => rfl
  | .array ⟨items, _⟩ => keyListsOfItems_erase items
  | .object ⟨entries, _⟩ =>
    congrArg₂ List.cons (keys_erase entries) (keyListsOfEntries_erase entries)

/-- The keys of all objects in the items of an array. -/
theorem keyListsOfItems_erase : (items : List ValueAst) →
    keyListsOfItems (itemsToAst (eraseItems items)) = keyListsOfItems items
  | [] => rfl
  | item :: items => by
    rw [eraseItems, itemsToAst, keyListsOfItems, keyListsOfItems, item.keyLists_erase,
      keyListsOfItems_erase items]

/-- The keys of all objects in the entries of an object. -/
theorem keyListsOfEntries_erase : (entries : List ObjectValueEntryAst) →
    keyListsOfEntries (entriesToAst (eraseEntries entries)) = keyListsOfEntries entries
  | [] => rfl
  | ⟨_, value, _⟩ :: entries => by
    rw [eraseEntries, entriesToAst, keyListsOfEntries, keyListsOfEntries, value.keyLists_erase,
      keyListsOfEntries_erase entries]

end

mutual

/-- A value is nested as deep wherever it stands. -/
@[simp] theorem ValueAst.height_erase : (v : ValueAst) → v.erase.toAst.height = v.height
  | .string _ | .integer _ | .number _ | .boolean _ | .null _ => rfl
  | .array ⟨items, _⟩ => congrArg (· + 1) (heightOfItems_erase items)
  | .object ⟨entries, _⟩ => congrArg (· + 1) (heightOfEntries_erase entries)

/-- The items of an array are nested as deep. -/
theorem heightOfItems_erase : (items : List ValueAst) →
    heightOfItems (itemsToAst (eraseItems items)) = heightOfItems items
  | [] => rfl
  | item :: items => by
    rw [eraseItems, itemsToAst, heightOfItems, heightOfItems, item.height_erase,
      heightOfItems_erase items]

/-- The entries of an object are nested as deep. -/
theorem heightOfEntries_erase : (entries : List ObjectValueEntryAst) →
    heightOfEntries (entriesToAst (eraseEntries entries)) = heightOfEntries entries
  | [] => rfl
  | ⟨_, value, _⟩ :: entries => by
    rw [eraseEntries, entriesToAst, heightOfEntries, heightOfEntries, value.height_erase,
      heightOfEntries_erase entries]

end

mutual

/-- A value is converted to the same wherever it stands. -/
@[simp] theorem ValueAst.toValue_erase : (v : ValueAst) → v.erase.toAst.toValue = v.toValue
  | .string _ | .integer _ | .number _ | .boolean _ | .null _ => rfl
  | .array ⟨items, _⟩ => congrArg Value.array (itemsToValues_erase items)
  | .object ⟨entries, _⟩ => congrArg Value.object (entriesToValues_erase entries)

/-- The items of an array are converted to the same. -/
theorem itemsToValues_erase : (items : List ValueAst) →
    itemsToValues (itemsToAst (eraseItems items)) = itemsToValues items
  | [] => rfl
  | item :: items => by
    rw [eraseItems, itemsToAst, itemsToValues, itemsToValues, item.toValue_erase,
      itemsToValues_erase items]

/-- The entries of an object are converted to the same. -/
theorem entriesToValues_erase : (entries : List ObjectValueEntryAst) →
    entriesToValues (entriesToAst (eraseEntries entries)) = entriesToValues entries
  | [] => rfl
  | ⟨_, value, _⟩ :: entries => by
    rw [eraseEntries, entriesToAst, entriesToValues, entriesToValues, value.toValue_erase,
      entriesToValues_erase entries]
    rfl

end

/-- The type of a literal does not depend on where it stands. -/
theorem writtenType_erase (v : ValueAst) : v.erase.toAst.writtenType = v.writtenType := by
  rcases v with _ | _ | _ | _ | _ | ⟨_, _⟩ | ⟨_, _⟩ <;> rfl

/-- Nor does the type that is inferred from it. -/
theorem inferExpectedType_erase (v : ValueAst) :
    Converter.inferExpectedType v.erase.toAst = Converter.inferExpectedType v := by
  rcases v with _ | _ | _ | _ | _ | ⟨_, _⟩ | ⟨_, _⟩ <;> rfl

/-- **The rules of a value** do not look at a span. -/
theorem valueRules_erase [Platform] {visible : Finset VariableName} {limit : Nat} {v : ValueAst} :
    ValueRules visible limit v.erase.toAst ↔ ValueRules visible limit v := by
  simp only [ValueRules, ValueAst.texts_erase, ValueAst.keyLists_erase, ValueAst.height_erase]

/-! ## Requests -/

namespace RequestSectionAst

/-- A section of a request stays one of its kind. -/
theorem kind_toAst_erase (section_ : RequestSectionAst) :
    section_.erase.toAst.kind = section_.kind := by
  cases section_ <;> rfl

/-- The header names of a section stay. -/
theorem headerNames_erase (section_ : RequestSectionAst) :
    section_.erase.toAst.headerNames = section_.headerNames := by
  cases section_ with
  | headers section_ =>
    rw [erase, RequestSection.toAst, headerNames, headerNames, List.map_map, List.map_map]
    rfl
  | _ => rfl

/-- The query names of a section stay. -/
theorem queryNames_erase (section_ : RequestSectionAst) :
    section_.erase.toAst.queryNames = section_.queryNames := by
  cases section_ with
  | query section_ => exact keys_erase section_.entries
  | _ => rfl

/-- The body of a section stays, at no place in particular. -/
theorem bodies_erase (section_ : RequestSectionAst) :
    section_.erase.toAst.bodies =
      section_.bodies.map fun body => ⟨entriesToAst (eraseEntries body.entries), ⟨0, 0⟩⟩ := by
  cases section_ <;> rfl

/-- The values of a section stay, at no place in particular. -/
theorem values_erase (section_ : RequestSectionAst) :
    section_.erase.toAst.values = section_.values.map (·.erase.toAst) := by
  cases section_ with
  | headers section_ =>
    rw [erase, RequestSection.toAst, values, values, List.map_map, List.map_map, List.map_map]
    rfl
  | query section_ =>
    rw [erase, RequestSection.toAst, values, values, List.map_map]
    induction section_.entries with
    | nil => rfl
    | cons entry entries ih =>
      obtain ⟨key, value, span⟩ := entry
      exact congrArg (value.erase.toAst :: ·) ih
  | body section_ =>
    obtain ⟨⟨entries, objectSpan⟩, span⟩ := section_
    rfl

/-- A section adds the same headers. -/
theorem toHeaders_erase (section_ : RequestSectionAst) :
    section_.erase.toAst.toHeaders = section_.toHeaders := by
  cases section_ with
  | headers section_ =>
    rw [erase, RequestSection.toAst, toHeaders, toHeaders, List.map_map, List.map_map]
    refine List.map_congr_left fun entry _ => ?_
    exact congrArg (entry.name.value, ·) entry.value.toValue_erase
  | _ => rfl

/-- A section adds the same query parameters. -/
theorem toQuery_erase (section_ : RequestSectionAst) :
    section_.erase.toAst.toQuery = section_.toQuery := by
  cases section_ with
  | query section_ => exact entriesToValues_erase section_.entries
  | _ => rfl

/-- A section adds the same bodies. -/
theorem toBodies_erase (section_ : RequestSectionAst) :
    section_.erase.toAst.toBodies = section_.toBodies := by
  cases section_ with
  | body section_ =>
    obtain ⟨⟨entries, objectSpan⟩, span⟩ := section_
    exact congrArg (fun entries => [RequestBody.json (.object entries)])
      (entriesToValues_erase entries)
  | _ => rfl

end RequestSectionAst

/-- A request is converted to the same wherever it stands. -/
theorem RequestAst.toSpec_erase (request : RequestAst) :
    request.erase.toAst.toSpec = request.toSpec := by
  simp only [toSpec, HttpRequestSpec.addSections, erase, Request.toAst, List.map_map,
    List.flatMap_map, Function.comp_def, RequestSectionAst.toHeaders_erase,
    RequestSectionAst.toQuery_erase, RequestSectionAst.toBodies_erase, Spanned.atStart]

attribute [mk_iff] RequestRules

/-- **The rules of a request** do not look at a span. -/
theorem requestRules_erase [Platform] {visible : Finset VariableName} {limit : Nat}
    {request : RequestAst} :
    RequestRules visible limit request.erase.toAst ↔ RequestRules visible limit request := by
  rw [requestRules_iff, requestRules_iff]
  simp only [RequestAst.erase, Request.toAst, RequestAst.headerNames, RequestAst.queryNames,
    RequestAst.bodies, RequestAst.values, Spanned.atStart, List.map_map, List.flatMap_map,
    Function.comp_def, RequestSectionAst.kind_toAst_erase, RequestSectionAst.headerNames_erase,
    RequestSectionAst.queryNames_erase, RequestSectionAst.bodies_erase,
    RequestSectionAst.values_erase, ← List.map_flatMap, List.forall_mem_map, valueRules_erase]

/-! ## Assertions -/

/-- The name of a field stays. -/
theorem FieldAssertionAst.name_erase (field : FieldAssertionAst) :
    field.erase.toAst.name.value = field.name.value := by
  obtain ⟨name, expectedType, expectedValue, nested, capture, span⟩ := field
  rfl

/-- The names of fields stay. -/
theorem fieldNames_erase (fields : List FieldAssertionAst) :
    (fieldsToAst (eraseFields fields)).map (·.name.value) = fields.map (·.name.value) := by
  induction fields with
  | nil => rfl
  | cons field fields ih =>
    rw [eraseFields, fieldsToAst, List.map_cons, List.map_cons, ih, field.name_erase]

mutual

/-- The names in all nested assertions stay. -/
theorem ObjectAssertionAst.nameLists_erase : (assertion : ObjectAssertionAst) →
    assertion.erase.toAst.nameLists = assertion.nameLists
  | ⟨_, fields, _⟩ => congrArg₂ List.cons (fieldNames_erase fields) (nameListsOfFields_erase fields)

/-- The names in what is nested in fields stay. -/
theorem nameListsOfFields_erase : (fields : List FieldAssertionAst) →
    nameListsOfFields (fieldsToAst (eraseFields fields)) = nameListsOfFields fields
  | [] => rfl
  | field :: fields => by
    rw [eraseFields, fieldsToAst, nameListsOfFields, nameListsOfFields, field.nameLists_erase,
      nameListsOfFields_erase fields]

/-- The names in what is nested in a field stay. -/
theorem FieldAssertionAst.nameLists_erase : (field : FieldAssertionAst) →
    field.erase.toAst.nameLists = field.nameLists
  | ⟨_, _, _, nested, _, _⟩ => nameListsOfNested_erase nested

/-- The names in a nested assertion stay. -/
theorem nameListsOfNested_erase : (nested : Option ObjectAssertionAst) →
    nameListsOfNested (nestedToAst (eraseNested nested)) = nameListsOfNested nested
  | none => rfl
  | some nested => nested.nameLists_erase

end

mutual

/-- An object assertion is nested as deep wherever it stands. -/
theorem ObjectAssertionAst.height_erase : (assertion : ObjectAssertionAst) →
    assertion.erase.toAst.height = assertion.height
  | ⟨_, fields, _⟩ => congrArg (· + 1) (heightOfFields_erase fields)

/-- Fields are nested as deep. -/
theorem heightOfFields_erase : (fields : List FieldAssertionAst) →
    heightOfFields (fieldsToAst (eraseFields fields)) = heightOfFields fields
  | [] => rfl
  | field :: fields => by
    rw [eraseFields, fieldsToAst, heightOfFields, heightOfFields, field.height_erase,
      heightOfFields_erase fields]

/-- A field is nested as deep. -/
theorem FieldAssertionAst.height_erase : (field : FieldAssertionAst) →
    field.erase.toAst.height = field.height
  | ⟨_, _, expectedValue, nested, _, _⟩ => by
    refine congrArg₂ max ?_ (heightOfNested_erase nested)
    cases expectedValue with
    | none => rfl
    | some v => exact v.height_erase

/-- A nested assertion is nested as deep. -/
theorem heightOfNested_erase : (nested : Option ObjectAssertionAst) →
    heightOfNested (nestedToAst (eraseNested nested)) = heightOfNested nested
  | none => rfl
  | some nested => nested.height_erase

end

/-- The type of a field does not depend on where it stands. -/
theorem convertFieldType_erase (expectedType : Option (Spanned AssertionTypeAst))
    (expectedValue : Option ValueAst) (nested : Option ObjectAssertionAst) :
    Converter.convertFieldType ((expectedType.map (·.value)).map .atStart)
        ((expectedValue.map ValueAst.erase).map Tree.Value.toAst)
        (nestedToAst (eraseNested nested)) =
      Converter.convertFieldType expectedType expectedValue nested := by
  cases expectedType with
  | some type => rfl
  | none =>
    cases expectedValue with
    | some v => exact congrArg some (inferExpectedType_erase v)
    | none => cases nested <;> rfl

mutual

/-- An object assertion is converted to the same wherever it stands. -/
theorem ObjectAssertionAst.toAssertion_erase [Platform] : (assertion : ObjectAssertionAst) →
    assertion.erase.toAst.toAssertion = assertion.toAssertion
  | ⟨mode, fields, _⟩ =>
    congrArg (ObjectAssertion.mk (Converter.convertMatchMode mode)) (fieldsToEntries_erase fields)

/-- Fields are converted to the same. -/
theorem fieldsToEntries_erase [Platform] : (fields : List FieldAssertionAst) →
    fieldsToEntries (fieldsToAst (eraseFields fields)) = fieldsToEntries fields
  | [] => rfl
  | field :: fields => by
    rw [eraseFields, fieldsToAst, fieldsToEntries, fieldsToEntries, field.toField_erase,
      fieldsToEntries_erase fields, field.name_erase]

/-- A field is converted to the same. -/
theorem FieldAssertionAst.toField_erase [Platform] : (field : FieldAssertionAst) →
    field.erase.toAst.toField = field.toField
  | ⟨name, expectedType, expectedValue, nested, capture, _⟩ => by
    rw [FieldAssertionAst.erase, FieldAssertion.toAst, FieldAssertionAst.toField,
      FieldAssertionAst.toField, convertFieldType_erase, nestedToAssertion_erase nested]
    simp only [Option.map_map, Function.comp_def, ValueAst.toValue_erase, Spanned.atStart]

/-- A nested assertion is converted to the same. -/
theorem nestedToAssertion_erase [Platform] : (nested : Option ObjectAssertionAst) →
    nestedToAssertion (nestedToAst (eraseNested nested)) = nestedToAssertion nested
  | none => rfl
  | some nested => congrArg some nested.toAssertion_erase

end

mutual

/-- All fields of an object assertion stay, at no place in particular. -/
theorem ObjectAssertionAst.allFields_erase : (assertion : ObjectAssertionAst) →
    assertion.erase.toAst.allFields = assertion.allFields.map (·.erase.toAst)
  | ⟨_, fields, _⟩ => allFieldsOf_erase fields

/-- Fields stay with all that are nested in them. -/
theorem allFieldsOf_erase : (fields : List FieldAssertionAst) →
    allFieldsOf (fieldsToAst (eraseFields fields)) = (allFieldsOf fields).map (·.erase.toAst)
  | [] => rfl
  | field :: fields => by
    rw [eraseFields, fieldsToAst, allFieldsOf, allFieldsOf, List.map_append,
      field.allFields_erase, allFieldsOf_erase fields]

/-- A field stays with all that are nested in it. -/
theorem FieldAssertionAst.allFields_erase : (field : FieldAssertionAst) →
    field.erase.toAst.allFields = field.allFields.map (·.erase.toAst)
  | ⟨name, expectedType, expectedValue, nested, capture, _⟩ => by
    rw [FieldAssertionAst.allFields, List.map_append, ← nestedFields_erase nested]
    rfl

/-- All fields of a nested assertion stay. -/
theorem nestedFields_erase : (nested : Option ObjectAssertionAst) →
    nestedFields (nestedToAst (eraseNested nested)) = (nestedFields nested).map (·.erase.toAst)
  | none => rfl
  | some nested => nested.allFields_erase

end

/-- An object assertion captures the same names. -/
theorem ObjectAssertionAst.captures_erase (assertion : ObjectAssertionAst) :
    assertion.erase.toAst.captures = assertion.captures := by
  rw [captures, captures, allFields_erase, capturesOfFields, capturesOfFields, List.flatMap_map]
  congr 1
  funext field
  obtain ⟨name, expectedType, expectedValue, nested, capture, span⟩ := field
  cases capture <;> rfl

section Rules

variable [Platform] {visible : Finset VariableName} {limit : Nat}

attribute [mk_iff] FieldRules

/-- **The rules of a field** do not look at a span. -/
theorem fieldRules_erase {field : FieldAssertionAst} :
    FieldRules visible field.erase.toAst ↔ FieldRules visible field := by
  obtain ⟨name, expectedType, expectedValue, nested, capture, span⟩ := field
  have hnested : nestedToAst (eraseNested nested) = nested.map (·.erase.toAst) := by
    cases nested <;> rfl
  have hmode (assertion : ObjectAssertionAst) : assertion.erase.toAst.mode = assertion.mode := by
    obtain ⟨mode, fields, span⟩ := assertion
    rfl
  rw [FieldAssertionAst.erase, FieldAssertion.toAst, fieldRules_iff, fieldRules_iff]
  simp only [hnested, Option.isSome_map, Option.mem_map, forall_exists_index, and_imp,
    forall_apply_eq_imp_iff₂, Option.map_map, Function.comp_def, Spanned.atStart,
    ValueAst.AgreesWith, writtenType_erase, ValueAst.texts_erase, ValueAst.keyLists_erase, hmode]

/-- **The rules of an object assertion** do not look at a span. -/
theorem assertionRules_erase {assertion : ObjectAssertionAst} :
    AssertionRules visible limit assertion.erase.toAst ↔
      AssertionRules visible limit assertion := by
  have hfields : (∀ field ∈ assertion.erase.toAst.allFields, FieldRules visible field) ↔
      ∀ field ∈ assertion.allFields, FieldRules visible field := by
    rw [assertion.allFields_erase]
    simp only [List.mem_map, forall_exists_index, and_imp, forall_apply_eq_imp_iff₂,
      fieldRules_erase]
  refine ⟨?_, ?_⟩
  · rintro ⟨names, fields, nesting⟩
    exact ⟨assertion.nameLists_erase ▸ names, hfields.mp fields, assertion.height_erase ▸ nesting⟩
  · rintro ⟨names, fields, nesting⟩
    exact ⟨assertion.nameLists_erase.symm ▸ names, hfields.mpr fields,
      assertion.height_erase.symm ▸ nesting⟩

end Rules

/-! ## Expectations -/

namespace ExpectationSectionAst

/-- A section of an expectation stays one of its kind. -/
theorem kind_toAst_erase (section_ : ExpectationSectionAst) :
    section_.erase.toAst.kind = section_.kind := by
  cases section_ <;> rfl

/-- The status of a section stays. -/
theorem statuses_erase (section_ : ExpectationSectionAst) :
    section_.erase.toAst.statuses = section_.statuses := by
  cases section_ <;> rfl

/-- The header names of a section of an expectation stay. -/
theorem headerNames_erase (section_ : ExpectationSectionAst) :
    section_.erase.toAst.headerNames = section_.headerNames := by
  cases section_ with
  | headers assertions =>
    rw [erase, ExpectationSection.toAst, headerNames, headerNames, List.map_map, List.map_map]
    refine List.map_congr_left fun entry _ => ?_
    cases entry <;> rfl
  | _ => rfl

/-- The texts of a section stay. -/
theorem texts_erase (section_ : ExpectationSectionAst) :
    section_.erase.toAst.texts = section_.texts := by
  cases section_ with
  | headers assertions =>
    rw [erase, ExpectationSection.toAst, texts, texts, List.map_map, List.flatMap_map]
    congr 1
    funext entry
    cases entry <;> rfl
  | body assertion => cases assertion <;> rfl
  | status assertion => rfl

/-- The object assertion of a section stays, at no place in particular. -/
theorem assertions_erase (section_ : ExpectationSectionAst) :
    section_.erase.toAst.assertions = section_.assertions.map (·.erase.toAst) := by
  cases section_ with
  | body assertion => cases assertion <;> rfl
  | _ => rfl

/-- A section captures the same names. -/
theorem captures_erase (section_ : ExpectationSectionAst) :
    section_.erase.toAst.captures = section_.captures := by
  rw [captures, captures, assertions_erase, List.flatMap_map]
  simp only [ObjectAssertionAst.captures_erase]

/-- A section adds the same header assertions. -/
theorem toHeaders_erase (section_ : ExpectationSectionAst) :
    section_.erase.toAst.toHeaders = section_.toHeaders := by
  cases section_ with
  | headers assertions =>
    rw [erase, ExpectationSection.toAst, toHeaders, toHeaders, List.map_map, List.map_map]
    refine List.map_congr_left fun entry _ => ?_
    cases entry <;> rfl
  | _ => rfl

/-- A section adds the same body assertions. -/
theorem toBodies_erase [Platform] (section_ : ExpectationSectionAst) :
    section_.erase.toAst.toBodies = section_.toBodies := by
  cases section_ with
  | body assertion =>
    cases assertion with
    | object assertion =>
      exact congrArg (fun assertion => [BodyAssertion.json assertion]) assertion.toAssertion_erase
    | _ => rfl
  | _ => rfl

end ExpectationSectionAst

/-- The sections of an expectation stay, at no place in particular. -/
theorem ExpectationAst.sections_erase (expectation : ExpectationAst) :
    (expectationToAst expectation.erase).sections =
      expectation.sections.map fun section_ => section_.erase.toAst := by
  rw [erase, expectationToAst, List.map_map]
  rfl

/-- An expectation captures the same names. -/
theorem ExpectationAst.captures_erase (expectation : ExpectationAst) :
    (expectationToAst expectation.erase).captures = expectation.captures := by
  rw [captures, captures, sections_erase, List.flatMap_map]
  simp only [ExpectationSectionAst.captures_erase]

section Rules

variable [Platform]

/-- An expectation is converted to the same wherever it stands. -/
theorem ExpectationAst.toExpectation_erase (expectation : ExpectationAst) :
    (expectationToAst expectation.erase).toExpectation = expectation.toExpectation := by
  rw [toExpectation, toExpectation, sections_erase]
  simp only [ResponseExpectation.addSections, List.flatMap_map,
    ExpectationSectionAst.statuses_erase, ExpectationSectionAst.toHeaders_erase,
    ExpectationSectionAst.toBodies_erase]

attribute [mk_iff] ExpectationRules

/-- **The rules of an expectation** do not look at a span. -/
theorem expectationRules_erase {visible : Finset VariableName} {limit : Nat}
    {expectation : ExpectationAst} :
    ExpectationRules visible limit (expectationToAst expectation.erase) ↔
      ExpectationRules visible limit expectation := by
  rw [expectationRules_iff, expectationRules_iff, ExpectationAst.captures_erase]
  simp only [ExpectationAst.statuses, ExpectationAst.headerNames, ExpectationAst.texts,
    ExpectationAst.assertions, ExpectationAst.sections_erase, List.map_map, List.flatMap_map,
    Function.comp_def, ExpectationSectionAst.kind_toAst_erase,
    ExpectationSectionAst.statuses_erase, ExpectationSectionAst.headerNames_erase,
    ExpectationSectionAst.texts_erase, ExpectationSectionAst.assertions_erase]
  have hassertions : (∀ assertion ∈ expectation.sections.flatMap
        fun section_ => section_.assertions.map (·.erase.toAst),
        AssertionRules visible limit assertion) ↔
      ∀ assertion ∈ expectation.sections.flatMap (·.assertions),
        AssertionRules visible limit assertion := by
    rw [← List.map_flatMap]
    simp only [List.mem_map, forall_exists_index, and_imp, forall_apply_eq_imp_iff₂,
      assertionRules_erase]
  rw [hassertions]

end Rules

/-! ## Suites -/

/-- A test captures the same names. -/
theorem TestAst.captures_erase (test : TestAst) : test.erase.toAst.captures = test.captures := by
  rw [captures, captures, erase, Tree.Test.toAst, List.flatMap_map, List.flatMap_map]
  simp only [ExpectationAst.captures_erase]

namespace BlockAst

/-- A core stays the core. -/
theorem isCore_erase (block : BlockAst) : block.erase.toAst.isCore = block.isCore := by
  cases block <;> rfl

/-- The tests of a block stay, at no place in particular. -/
theorem tests_erase (block : BlockAst) :
    block.erase.toAst.tests = block.tests.map fun test => test.erase.toAst := by
  cases block with
  | core block => exact List.map_map
  | pipeline block => exact List.map_map
  | test t => rfl

end BlockAst

/-- The blocks of a suite stay, at no place in particular. -/
theorem SuiteAst.blocks_erase (ast : SuiteAst) :
    (suiteToAst ast.erase).blocks = ast.blocks.map fun block => block.erase.toAst := by
  rw [erase, suiteToAst, List.map_map]
  rfl

/-- Tests capture the same variables. -/
theorem capturedBy_erase (tests : List TestAst) :
    capturedBy (tests.map fun test => test.erase.toAst) = capturedBy tests := by
  rw [capturedBy, capturedBy, List.flatMap_map]
  simp only [TestAst.captures_erase]

/-- The same variables are visible to a test. -/
theorem visible_erase (context : ValidationContext) (ast : SuiteAst) (block : BlockAst)
    (before : List TestAst) :
    visible context (suiteToAst ast.erase) block.erase.toAst
        (before.map fun test => test.erase.toAst) =
      visible context ast block before := by
  have hcore : (suiteToAst ast.erase).coreTests =
      ast.coreTests.map fun test => test.erase.toAst := by
    rw [SuiteAst.coreTests, SuiteAst.coreTests, ast.blocks_erase, List.filter_map,
      List.flatMap_map, List.map_flatMap]
    simp only [BlockAst.tests_erase, Function.comp_def, BlockAst.isCore_erase]
  rw [visible, visible, hcore, capturedBy_erase, capturedBy_erase, block.isCore_erase]

variable [Platform]

/-- A test is converted to the same wherever it stands. -/
theorem TestAst.toCase_erase (test : TestAst) : test.erase.toAst.toCase = test.toCase := by
  obtain ⟨name, requests, expectations, span⟩ := test
  cases requests with
  | nil => rfl
  | cons request requests =>
    cases expectations with
    | nil => rfl
    | cons expectation expectations =>
      exact congrArg₂ (TestCase.mk name.value) request.toSpec_erase expectation.toExpectation_erase

/-- A block is converted to the same wherever it stands. -/
theorem BlockAst.toBlock_erase (block : BlockAst) : block.erase.toAst.toBlock = block.toBlock := by
  cases block with
  | core block =>
    simp only [erase, Tree.Block.toAst, toBlock, List.map_map, Function.comp_def,
      TestAst.toCase_erase]
  | pipeline block =>
    simp only [erase, Tree.Block.toAst, toBlock, List.map_map, Function.comp_def,
      TestAst.toCase_erase, Spanned.atStart]
  | test t => exact congrArg SuiteBlock.test t.toCase_erase

/-- A tree stands for the same suite wherever its parts stand. -/
theorem SuiteAst.toSuite_erase (ast : SuiteAst) : (suiteToAst ast.erase).toSuite = ast.toSuite := by
  rw [toSuite, toSuite, ast.blocks_erase, List.map_map]
  simp only [Function.comp_def, BlockAst.toBlock_erase]

/-- **The rules of a test** do not look at a span. -/
theorem testRules_erase {visible : Finset VariableName} {limit : Nat} {test : TestAst} :
    TestRules visible limit test.erase.toAst ↔ TestRules visible limit test := by
  have hrequests : test.erase.toAst.requests =
      test.requests.map fun request => request.erase.toAst := List.map_map
  have hexpectations : test.erase.toAst.expectations =
      test.expectations.map fun expectation => expectationToAst expectation.erase := List.map_map
  refine ⟨?_, ?_⟩
  · rintro ⟨named, ⟨request, hrequest, request'⟩, ⟨expectation, hexpectation, expectation'⟩⟩
    rw [hrequests] at hrequest
    rw [hexpectations] at hexpectation
    obtain ⟨r, hr, rfl⟩ := List.map_eq_singleton_iff.mp hrequest
    obtain ⟨e, he, rfl⟩ := List.map_eq_singleton_iff.mp hexpectation
    exact ⟨named, ⟨r, hr, requestRules_erase.mp request'⟩,
      ⟨e, he, expectationRules_erase.mp expectation'⟩⟩
  · rintro ⟨named, ⟨request, hrequest, request'⟩, ⟨expectation, hexpectation, expectation'⟩⟩
    refine ⟨named, ⟨_, ?_, requestRules_erase.mpr request'⟩,
      ⟨_, ?_, expectationRules_erase.mpr expectation'⟩⟩
    · rw [hrequests, hrequest, List.map_singleton]
    · rw [hexpectations, hexpectation, List.map_singleton]

/-- The rules hold of a tree wherever its parts stand. -/
theorem suiteRules_erase {context : ValidationContext} {ast : SuiteAst} :
    SuiteRules context (suiteToAst ast.erase) ↔ SuiteRules context ast := by
  have hcore : ((suiteToAst ast.erase).blocks.filter BlockAst.isCore).length =
      (ast.blocks.filter BlockAst.isCore).length := by
    rw [ast.blocks_erase, List.filter_map, List.length_map]
    simp only [Function.comp_def, BlockAst.isCore_erase]
  have hpipeline (block : BlockAst) :
      (∀ pipeline, block.erase.toAst = .pipeline pipeline →
        pipeline.name.value ≠ "" ∧ pipeline.tests ≠ []) ↔
      ∀ pipeline, block = .pipeline pipeline →
        pipeline.name.value ≠ "" ∧ pipeline.tests ≠ [] := by
    cases block with
    | core block => exact iff_of_true (by rintro _ ⟨⟩) (by rintro _ ⟨⟩)
    | pipeline block => simp [BlockAst.erase, Tree.Block.toAst, Spanned.atStart]
    | test t => exact iff_of_true (by rintro _ ⟨⟩) (by rintro _ ⟨⟩)
  have htests (block : BlockAst) :
      (∀ i (h : i < block.erase.toAst.tests.length),
        TestRules (visible context (suiteToAst ast.erase) block.erase.toAst
          (block.erase.toAst.tests.take i)) context.maxDepth block.erase.toAst.tests[i]) ↔
      ∀ i (h : i < block.tests.length),
        TestRules (visible context ast block (block.tests.take i)) context.maxDepth
          block.tests[i] := by
    simp only [block.tests_erase, List.length_map, List.getElem_map, ← List.map_take,
      visible_erase, testRules_erase]
  have hblocks {p q : BlockAst → Prop} (h : ∀ block, p block.erase.toAst ↔ q block) :
      (∀ block ∈ (suiteToAst ast.erase).blocks, p block) ↔ ∀ block ∈ ast.blocks, q block := by
    rw [ast.blocks_erase, List.forall_mem_map]
    exact forall₂_congr fun block _ => h block
  have hpipelines : (∀ block ∈ (suiteToAst ast.erase).blocks, ∀ pipeline,
        block = .pipeline pipeline → pipeline.name.value ≠ "" ∧ pipeline.tests ≠ []) ↔
      ∀ block ∈ ast.blocks, ∀ pipeline,
        block = .pipeline pipeline → pipeline.name.value ≠ "" ∧ pipeline.tests ≠ [] :=
    hblocks hpipeline
  refine ⟨?_, ?_⟩
  · rintro ⟨core, pipelines, tests⟩
    exact ⟨hcore ▸ core,
      fun pipeline h => hpipelines.mp (fun _ h _ he => pipelines _ (he ▸ h)) _ h _ rfl,
      (hblocks htests).mp tests⟩
  · rintro ⟨core, pipelines, tests⟩
    exact ⟨hcore.symm ▸ core,
      fun pipeline h => hpipelines.mpr (fun _ h _ he => pipelines _ (he ▸ h)) _ h _ rfl,
      (hblocks htests).mpr tests⟩

/-! ## Sources -/

/-- The kinds of tokens of a source, the end included. -/
def SourceText.kinds (source : SourceText) : List TokenKind := (lex source).tokens.map (·.kind)

omit [Platform] in
/-- Equal kinds are equal up to the first end. -/
theorem upToEof_congr {tokens tokens' : List Token}
    (h : tokens.map (·.kind) = tokens'.map (·.kind)) :
    Parser.upToEof tokens = Parser.upToEof tokens' := by
  induction tokens generalizing tokens' with
  | nil =>
    rw [List.map_eq_nil_iff.mp h.symm]
  | cons t tokens ih =>
    obtain ⟨t', tokens', rfl, hkind, hrest⟩ := List.map_eq_cons_iff.mp h.symm
    rw [Parser.upToEof, Parser.upToEof, hkind, ih hrest.symm]

/-- Where one source has a tree, a source with the same kinds of tokens has the same one. -/
theorem ast_layout {source source' : SourceText} (hkinds : source.kinds = source'.kinds)
    (h : (parse (lex source).tokens).errors = []) :
    (parse (lex source').tokens).errors = [] ∧ source'.ast.erase = source.ast.erase := by
  have hrecognized : (Parser.new (lex source').tokens).recognized =
      (Parser.new (lex source).tokens).recognized := by
    rw [Parser.recognized, Parser.recognized]
    have heq : (Parser.new (lex source').tokens).kinds = (Parser.new (lex source).tokens).kinds :=
      upToEof_congr hkinds.symm
    rw [heq]
    rfl
  obtain ⟨suite, hsuite⟩ := (parse_errors_recognized (Parser.new (lex source).tokens) rfl).mp h
  refine ⟨(parse_errors_recognized (Parser.new (lex source').tokens) rfl).mpr
    ⟨suite, hrecognized.trans hsuite⟩, ?_⟩
  exact (parse_ast_recognized _ (hrecognized.trans hsuite)).trans
    (parse_ast_recognized _ hsuite).symm

/-- One half of `checkSource_layout`. -/
theorem accepts_layout {source source' : SourceText} {context : ValidationContext}
    {suite : TestSuite} (hlex : (lex source').errors = []) (hkinds : source.kinds = source'.kinds)
    (h : checkSource source context = some ⟨some suite, []⟩) :
    checkSource source' context = some ⟨some suite, []⟩ := by
  obtain ⟨-, hparse, hrules, rfl⟩ := checkSource_accepts_iff.mp h
  obtain ⟨hparse', htree⟩ := ast_layout hkinds hparse
  refine checkSource_accepts_iff.mpr ⟨hlex, hparse', ?_, ?_⟩
  · rw [← suiteRules_erase, htree, suiteRules_erase]
    exact hrules
  · rw [← source.ast.toSuite_erase, ← htree, SuiteAst.toSuite_erase]

/-- **Layout has no meaning.** Two sources that are read as the same kinds of tokens, whatever
white space and comments stand between them or nowhere and however their words are written, are
accepted under the same contexts and stand for the same suite. -/
theorem checkSource_layout {source source' : SourceText} (hlex : (lex source).errors = [])
    (hlex' : (lex source').errors = []) (hkinds : source.kinds = source'.kinds)
    (context : ValidationContext) (suite : TestSuite) :
    checkSource source context = some ⟨some suite, []⟩ ↔
      checkSource source' context = some ⟨some suite, []⟩ :=
  ⟨accepts_layout hlex' hkinds, accepts_layout hlex hkinds.symm⟩

/-- A test on one line, with as few blanks as there can be. -/
def compactSource : SourceText where
  name := "compact.rttp"
  content := "test\"a\\tb\"\x7brequest GET\"/\"\x7bquery\x7bpage=7\x7d\x7d" ++
    "expect\x7bstatus=200 body\x7bid:integer=-7\x7d\x7d\x7d"

/-- The same test on several lines with comments, its name with a tab and its numbers with leading
zeros. -/
def looseSource : SourceText where
  name := "loose.rttp"
  content := "# one test
    test \"a\tb\" \x7b
      request GET \"/\" \x7b query \x7b page = 007 \x7d \x7d
      expect \x7b // of any kind\r
        status = 0200
        body \x7b id : integer = -07 \x7d
      \x7d
    \x7d # the end"

omit [Platform] in
/-- Both texts of the test are accepted, and stand for one suite. -/
theorem checkSource_layout_loose :
    letI := asciiPlatform
    ((lex compactSource).errors = [] ∧ (lex looseSource).errors = [] ∧
      compactSource.kinds = looseSource.kinds) ∧
    ∃ suite, checkSource compactSource .new = some ⟨some suite, []⟩ ∧
      checkSource looseSource .new = some ⟨some suite, []⟩ := by
  let := asciiPlatform
  have hreport : (checkSource compactSource .new).map
      (fun report => (report.suite.isSome, report.diagnostics)) = some (true, []) := by
    decide +kernel
  have hlex : (lex compactSource).errors = [] := by decide +kernel
  have hlex' : (lex looseSource).errors = [] := by decide +kernel
  have hkinds : compactSource.kinds = looseSource.kinds := by decide +kernel
  obtain ⟨⟨suite?, diagnostics⟩, hcheck, hreport⟩ := Option.map_eq_some_iff.mp hreport
  obtain ⟨hsuite, rfl⟩ := Prod.mk.inj hreport
  obtain ⟨suite, rfl⟩ := Option.isSome_iff_exists.mp hsuite
  exact ⟨⟨hlex, hlex', hkinds⟩, suite, hcheck,
    (checkSource_layout hlex hlex' hkinds .new suite).mp hcheck⟩

end Rettp
