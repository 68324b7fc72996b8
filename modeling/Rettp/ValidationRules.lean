import Rettp.Validator

/-!
# The rules of semantic validation

What a suite must satisfy, said about the parts of its syntax tree (`SuiteRules`), and the proof
that the validator reports nothing exactly for the suites that satisfy it.

A rule about every text, every object or every field speaks of the list of them, however deep
they are nested (`ValueAst.texts`, `ValueAst.keyLists`, `ObjectAssertionAst.allFields`). The
variables that a test may use are a function of the suite and of its place (`visible`).
-/

namespace Rettp

/-! ## Parts of a tree -/

mutual

/-- The string literals of a value. -/
def ValueAst.texts : ValueAst → List String
  | .string value => [value.value]
  | .array ⟨items, _⟩ => textsOfItems items
  | .object object => object.texts
  | .integer _ | .number _ | .boolean _ | .null _ => []

/-- The string literals of the items of an array. -/
def textsOfItems : List ValueAst → List String
  | [] => []
  | item :: items => item.texts ++ textsOfItems items

/-- The string literals of an object. -/
def ObjectValueAst.texts : ObjectValueAst → List String
  | ⟨entries, _⟩ => textsOfEntries entries

/-- The string literals of the values of entries. -/
def textsOfEntries : List ObjectValueEntryAst → List String
  | [] => []
  | ⟨_, value, _⟩ :: entries => value.texts ++ textsOfEntries entries

end

mutual

/-- The keys of every object in a value, a list for each object. -/
def ValueAst.keyLists : ValueAst → List (List String)
  | .array ⟨items, _⟩ => keyListsOfItems items
  | .object object => object.keyLists
  | .string _ | .integer _ | .number _ | .boolean _ | .null _ => []

/-- The keys of every object in the items of an array. -/
def keyListsOfItems : List ValueAst → List (List String)
  | [] => []
  | item :: items => item.keyLists ++ keyListsOfItems items

/-- The keys of an object, and of every object in it. -/
def ObjectValueAst.keyLists : ObjectValueAst → List (List String)
  | ⟨entries, _⟩ => entries.map (·.key.value) :: keyListsOfEntries entries

/-- The keys of every object in the values of entries. -/
def keyListsOfEntries : List ObjectValueEntryAst → List (List String)
  | [] => []
  | ⟨_, value, _⟩ :: entries => value.keyLists ++ keyListsOfEntries entries

end

mutual

/-- How deep the containers of a value are nested. -/
def ValueAst.height : ValueAst → Nat
  | .array ⟨items, _⟩ => heightOfItems items + 1
  | .object object => object.height
  | .string _ | .integer _ | .number _ | .boolean _ | .null _ => 0

/-- The nesting of the items of an array. -/
def heightOfItems : List ValueAst → Nat
  | [] => 0
  | item :: items => max item.height (heightOfItems items)

/-- The nesting of an object. -/
def ObjectValueAst.height : ObjectValueAst → Nat
  | ⟨entries, _⟩ => heightOfEntries entries + 1

/-- The nesting of the values of entries. -/
def heightOfEntries : List ObjectValueEntryAst → Nat
  | [] => 0
  | ⟨_, value, _⟩ :: entries => max value.height (heightOfEntries entries)

end

mutual

/-- The fields of an assertion and of the assertions nested in it, the nested ones first. -/
def ObjectAssertionAst.allFields : ObjectAssertionAst → List FieldAssertionAst
  | ⟨_, fields, _⟩ => allFieldsOf fields

/-- Fields with all that are nested in them. -/
def allFieldsOf : List FieldAssertionAst → List FieldAssertionAst
  | [] => []
  | field :: fields => field.allFields ++ allFieldsOf fields

/-- A field behind all that are nested in it. -/
def FieldAssertionAst.allFields : FieldAssertionAst → List FieldAssertionAst
  | ⟨name, expectedType, expectedValue, nested, capture, span⟩ =>
    nestedFields nested ++ [⟨name, expectedType, expectedValue, nested, capture, span⟩]

/-- All fields of a nested assertion. -/
def nestedFields : Option ObjectAssertionAst → List FieldAssertionAst
  | none => []
  | some nested => nested.allFields

end

mutual

/-- The names in an assertion and in the assertions nested in it, a list for each assertion. -/
def ObjectAssertionAst.nameLists : ObjectAssertionAst → List (List String)
  | ⟨_, fields, _⟩ => fields.map (·.name.value) :: nameListsOfFields fields

/-- The names of every nested assertion of fields. -/
def nameListsOfFields : List FieldAssertionAst → List (List String)
  | [] => []
  | field :: fields => field.nameLists ++ nameListsOfFields fields

/-- The names of every assertion nested in a field. -/
def FieldAssertionAst.nameLists : FieldAssertionAst → List (List String)
  | ⟨_, _, _, nested, _, _⟩ => nameListsOfNested nested

/-- The names of a nested assertion, and of every one in it. -/
def nameListsOfNested : Option ObjectAssertionAst → List (List String)
  | none => []
  | some nested => nested.nameLists

end

mutual

/-- How deep the containers of an assertion are nested, with those of its values. -/
def ObjectAssertionAst.height : ObjectAssertionAst → Nat
  | ⟨_, fields, _⟩ => heightOfFields fields + 1

/-- The nesting of fields. -/
def heightOfFields : List FieldAssertionAst → Nat
  | [] => 0
  | field :: fields => max field.height (heightOfFields fields)

/-- The nesting of a field: that of its value or of its nested fields. -/
def FieldAssertionAst.height : FieldAssertionAst → Nat
  | ⟨_, _, expectedValue, nested, _, _⟩ =>
    max (expectedValue.elim 0 ValueAst.height) (heightOfNested nested)

/-- The nesting of a nested assertion. -/
def heightOfNested : Option ObjectAssertionAst → Nat
  | none => 0
  | some nested => nested.height

end

/-- The names that fields capture, those of nested fields not among them. -/
def capturesOfFields (fields : List FieldAssertionAst) : List String :=
  fields.flatMap fun field => (field.capture.map (·.value)).toList

/-- The names that an assertion captures, in order. -/
def ObjectAssertionAst.captures (assertion : ObjectAssertionAst) : List String :=
  capturesOfFields assertion.allFields

namespace RequestSectionAst

/-- What a section is a declaration of. -/
def kind : RequestSectionAst → DuplicateKind
  | .headers _ => .requestHeaders
  | .query _ => .requestQuery
  | .body _ => .requestBody

/-- The header names of a section. -/
def headerNames : RequestSectionAst → List String
  | .headers section_ => section_.entries.map (·.name.value)
  | _ => []

/-- The query names of a section. -/
def queryNames : RequestSectionAst → List String
  | .query section_ => section_.entries.map (·.key.value)
  | _ => []

/-- The body of a section. -/
def bodies : RequestSectionAst → List ObjectValueAst
  | .body section_ => [section_.value]
  | _ => []

/-- The values of the headers, the query parameters or the body. -/
def values : RequestSectionAst → List ValueAst
  | .headers section_ => section_.entries.map (·.value)
  | .query section_ => section_.entries.map (·.value)
  | .body section_ => [.object section_.value]

end RequestSectionAst

namespace RequestAst

/-- All header names of a request. -/
def headerNames (request : RequestAst) : List String := request.sections.flatMap (·.headerNames)

/-- All query names of a request. -/
def queryNames (request : RequestAst) : List String := request.sections.flatMap (·.queryNames)

/-- All bodies of a request. -/
def bodies (request : RequestAst) : List ObjectValueAst := request.sections.flatMap (·.bodies)

/-- All values of a request. -/
def values (request : RequestAst) : List ValueAst := request.sections.flatMap (·.values)

end RequestAst

namespace ResponseHeaderAssertionAst

/-- The name of the header. -/
def name : ResponseHeaderAssertionAst → Spanned String
  | .exists_ name _ _ | .exact name _ _ | .contains name _ _ => name

/-- The text that a header is compared with. -/
def expected : ResponseHeaderAssertionAst → List String
  | .exists_ _ _ _ => []
  | .exact _ expected _ | .contains _ expected _ => [expected.value]

end ResponseHeaderAssertionAst

namespace BodyAssertionAst

/-- The text that a body is compared with. -/
def expected : BodyAssertionAst → List String
  | .textExact expected _ | .textContains expected _ => [expected.value]
  | .empty _ | .object _ => []

/-- The object assertion of a body, if it has one. -/
def assertions : BodyAssertionAst → List ObjectAssertionAst
  | .object assertion => [assertion]
  | .empty _ | .textExact _ _ | .textContains _ _ => []

end BodyAssertionAst

namespace ExpectationSectionAst

/-- What a section is a declaration of. -/
def kind : ExpectationSectionAst → DuplicateKind
  | .status _ => .responseStatus
  | .headers _ => .responseHeaders
  | .body _ => .responseBody

/-- The status of a section. -/
def statuses : ExpectationSectionAst → List Int
  | .status assertion => [assertion.expected.value]
  | _ => []

/-- The header names of a section of an expectation. -/
def headerNames : ExpectationSectionAst → List String
  | .headers assertions => assertions.entries.map (·.name.value)
  | _ => []

/-- The texts that a response is compared with, those in an object assertion apart. -/
def texts : ExpectationSectionAst → List String
  | .status _ => []
  | .headers assertions => assertions.entries.flatMap (·.expected)
  | .body assertion => assertion.expected

/-- The object assertion of a section, if it has one. -/
def assertions : ExpectationSectionAst → List ObjectAssertionAst
  | .body assertion => assertion.assertions
  | _ => []

/-- The names that a section captures. -/
def captures (section_ : ExpectationSectionAst) : List String :=
  section_.assertions.flatMap (·.captures)

end ExpectationSectionAst

namespace ExpectationAst

/-- All statuses of an expectation. -/
def statuses (expectation : ExpectationAst) : List Int :=
  expectation.sections.flatMap (·.statuses)

/-- All header names of an expectation. -/
def headerNames (expectation : ExpectationAst) : List String :=
  expectation.sections.flatMap (·.headerNames)

/-- The texts of an expectation outside of its object assertions. -/
def texts (expectation : ExpectationAst) : List String := expectation.sections.flatMap (·.texts)

/-- All object assertions of an expectation. -/
def assertions (expectation : ExpectationAst) : List ObjectAssertionAst :=
  expectation.sections.flatMap (·.assertions)

/-- The names that an expectation captures. -/
def captures (expectation : ExpectationAst) : List String :=
  expectation.sections.flatMap (·.captures)

end ExpectationAst

/-- The names that a test captures. -/
def TestAst.captures (test : TestAst) : List String :=
  test.expectations.flatMap (·.captures)

namespace BlockAst

/-- The block is the core. -/
def isCore : BlockAst → Bool
  | .core _ => true
  | _ => false

/-- The tests of a block in declaration order. -/
def tests : BlockAst → List TestAst
  | .core block => block.tests
  | .pipeline block => block.tests
  | .test t => [t]

end BlockAst

/-- The tests of the core. -/
def SuiteAst.coreTests (ast : SuiteAst) : List TestAst :=
  (ast.blocks.filter BlockAst.isCore).flatMap BlockAst.tests

/-! ## Rules -/

/-- Names that are not empty, each used once up to `fold`. -/
structure DistinctNamesBy (fold : String → String) (names : List String) : Prop where
  named : ∀ name ∈ names, name ≠ ""
  distinct : (names.map fold).Nodup

/-- Names are given, and distinct. -/
abbrev DistinctNames : List String → Prop := DistinctNamesBy id

/-- Header names are distinct ignoring ASCII case. -/
abbrev DistinctHeaderNames : List String → Prop := DistinctNamesBy toAsciiLowercase

variable [Platform]

/-- A name of a visible variable. -/
def NameRule (visible : Finset VariableName) (name : String) : Prop :=
  ∃ variable_ ∈ visible, VariableName.new name = .ok variable_

/-- A well-formed text that names visible variables only. -/
def TextRule (visible : Finset VariableName) (text : String) : Prop :=
  ∃ names, Template text.toList names ∧ ∀ name ∈ names, NameRule visible (String.ofList name)

/-- The rules of what is in a value: its texts, the keys of its objects, and how deep its
containers are nested. -/
structure ContentRules (visible : Finset VariableName) (limit : Nat) (texts : List String)
    (keyLists : List (List String)) (height : Nat) : Prop where
  texts : ∀ text ∈ texts, TextRule visible text
  keys : ∀ keys ∈ keyLists, DistinctNames keys
  nesting : height ≤ limit

/-- The rules of a value with all that is nested in it. -/
abbrev ValueRules (visible : Finset VariableName) (limit : Nat) (value : ValueAst) : Prop :=
  ContentRules visible limit value.texts value.keyLists value.height

/-- The rules of a request. -/
structure RequestRules (visible : Finset VariableName) (limit : Nat) (request : RequestAst) :
    Prop where
  pathGiven : request.path.value ≠ ""
  path : TextRule visible request.path.value
  sections : (request.sections.map (·.kind)).Nodup
  headerNames : DistinctHeaderNames request.headerNames
  queryNames : DistinctNames request.queryNames
  body : ∀ _ ∈ request.bodies, request.method.value ∈ [.post, .put, .patch]
  values : ∀ value ∈ request.values, ValueRules visible limit value

/-- The type that a literal is written in. -/
def ValueAst.writtenType : ValueAst → AssertionTypeAst
  | .string _ => .string
  | .integer _ => .integer
  | .number _ => .number
  | .boolean _ => .boolean
  | .null _ => .null
  | .array _ => .array
  | .object _ => .object

/-- A literal agrees with its own type, and `number` accepts integers and floating-point values. -/
def ValueAst.AgreesWith (value : ValueAst) (type : AssertionTypeAst) : Prop :=
  type = value.writtenType ∨ type = .number ∧ value.writtenType = .integer

/-- The rules of one field; its containers are counted with those of the whole assertion. -/
structure FieldRules (visible : Finset VariableName) (field : FieldAssertionAst) : Prop where
  given : field.expectedType.isSome ∨ field.expectedValue.isSome ∨ field.nested.isSome
  accepts : ∀ type ∈ field.expectedType, ∀ value ∈ field.expectedValue, value.AgreesWith type.value
  texts : ∀ value ∈ field.expectedValue, ∀ text ∈ value.texts, TextRule visible text
  keys : ∀ value ∈ field.expectedValue, ∀ keys ∈ value.keyLists, DistinctNames keys
  nested : ∀ nested ∈ field.nested,
    field.expectedType.map (·.value) = some .object ∧ nested.mode = .partially
  captureTyped : field.capture.isSome → field.expectedType.isSome

/-- The rules of an object assertion with all that is nested in it. -/
structure AssertionRules (visible : Finset VariableName) (limit : Nat)
    (assertion : ObjectAssertionAst) : Prop where
  names : ∀ names ∈ assertion.nameLists, DistinctNames names
  fields : ∀ field ∈ assertion.allFields, FieldRules visible field
  nesting : assertion.height ≤ limit

/-- A name that a test may capture. -/
def CaptureRule (visible : Finset VariableName) (name : String) : Prop :=
  ∃ variable_, VariableName.new name = .ok variable_ ∧ variable_ ∉ visible

/-- The rules of an expectation. -/
structure ExpectationRules (visible : Finset VariableName) (limit : Nat)
    (expectation : ExpectationAst) : Prop where
  sections : (expectation.sections.map (·.kind)).Nodup
  status : ∀ status ∈ expectation.statuses, 100 ≤ status ∧ status ≤ 599
  headerNames : DistinctHeaderNames expectation.headerNames
  texts : ∀ text ∈ expectation.texts, TextRule visible text
  assertions : ∀ assertion ∈ expectation.assertions, AssertionRules visible limit assertion
  captures : ∀ name ∈ expectation.captures, CaptureRule visible name
  distinctCaptures : expectation.captures.Nodup

/-- The rules of a test. -/
structure TestRules (visible : Finset VariableName) (limit : Nat) (test : TestAst) : Prop where
  named : test.name.value ≠ ""
  request : ∃ request, test.requests = [request] ∧ RequestRules visible limit request
  expectation : ∃ expectation, test.expectations = [expectation] ∧
    ExpectationRules visible limit expectation

/-- The variables that tests capture. -/
def capturedBy (tests : List TestAst) : Finset VariableName :=
  ((tests.flatMap (·.captures)).map VariableName.mk).toFinset

/-- The variables that are visible to a test of a block, given the tests before it there. -/
def visible (context : ValidationContext) (ast : SuiteAst) (block : BlockAst)
    (before : List TestAst) : Finset VariableName :=
  context.predefinedVariables ∪ (if block.isCore then ∅ else capturedBy ast.coreTests) ∪
    capturedBy before

/-- **The rules of a suite.** -/
structure SuiteRules (context : ValidationContext) (ast : SuiteAst) : Prop where
  core : (ast.blocks.filter BlockAst.isCore).length ≤ 1
  pipelines : ∀ pipeline, .pipeline pipeline ∈ ast.blocks →
    pipeline.name.value ≠ "" ∧ pipeline.tests ≠ []
  tests : ∀ block ∈ ast.blocks, ∀ i (h : i < block.tests.length),
    TestRules (visible context ast block (block.tests.take i)) context.maxDepth block.tests[i]

end Rettp
