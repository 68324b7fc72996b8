import Rettp.Token

/-!
# Syntax trees

The tree that the parser builds, in declaration order, with duplicates and with a span on every
node, and the same tree without spans (`Tree`), which is what a grammar derives. `erase` forgets
the spans.
-/

namespace Rettp

/-- A value and the place that it was read from. -/
structure Spanned (α : Type) where
  value : α
  span : SourceSpan

/-! ## Values -/

mutual

/-- A literal. -/
inductive ValueAst where
  | string (value : Spanned String)
  | integer (value : Spanned Int)
  | number (value : Spanned Float)
  | boolean (value : Spanned Bool)
  | null (span : SourceSpan)
  | array (value : ArrayValueAst)
  | object (value : ObjectValueAst)

/-- An array literal. -/
structure ArrayValueAst where
  items : List ValueAst
  span : SourceSpan

/-- An object literal. -/
structure ObjectValueAst where
  entries : List ObjectValueEntryAst
  span : SourceSpan

/-- A key of an object literal with its value. -/
structure ObjectValueEntryAst where
  key : Spanned String
  value : ValueAst
  span : SourceSpan

end

/-- The place of a literal. -/
def ValueAst.span : ValueAst → SourceSpan
  | .string value => value.span
  | .integer value => value.span
  | .number value => value.span
  | .boolean value => value.span
  | .null span => span
  | .array value => value.span
  | .object value => value.span

/-! ## Requests -/

/-- The methods of the language. -/
inductive HttpMethodAst where
  | get | post | put | patch | delete | head | options
  deriving DecidableEq

/-- A request header with its value. -/
structure HeaderValueEntryAst where
  name : Spanned String
  value : ValueAst
  span : SourceSpan

/-- The section `headers` of a request. -/
structure RequestHeadersAst where
  entries : List HeaderValueEntryAst
  span : SourceSpan

/-- The section `query` of a request. -/
structure RequestQueryAst where
  entries : List ObjectValueEntryAst
  span : SourceSpan

/-- The section `body` of a request. -/
structure RequestBodyAst where
  value : ObjectValueAst
  span : SourceSpan

/-- A section of a request. -/
inductive RequestSectionAst where
  | headers (section_ : RequestHeadersAst)
  | query (section_ : RequestQueryAst)
  | body (section_ : RequestBodyAst)

/-- A request: its method, its path and its sections in source order. -/
structure RequestAst where
  method : Spanned HttpMethodAst
  path : Spanned String
  sections : List RequestSectionAst
  span : SourceSpan

/-! ## Expectations -/

/-- The types of the language. -/
inductive AssertionTypeAst where
  | string | integer | number | object | array | boolean | null
  deriving DecidableEq

/-- Whether an object may have fields that are not declared. -/
inductive ObjectMatchModeAst where
  | partially
  | exact
  deriving DecidableEq

mutual

/-- An object assertion with its fields in source order. -/
structure ObjectAssertionAst where
  mode : ObjectMatchModeAst
  fields : List FieldAssertionAst
  span : SourceSpan

/-- A field: its name, its type, its value, its nested fields and its capture. -/
structure FieldAssertionAst where
  name : Spanned String
  expectedType : Option (Spanned AssertionTypeAst)
  expectedValue : Option ValueAst
  nested : Option ObjectAssertionAst
  capture : Option (Spanned String)
  span : SourceSpan

end

/-- What is expected of a response header. -/
inductive ResponseHeaderAssertionAst where
  | exists_ (name : Spanned String) (typeSpan span : SourceSpan)
  | exact (name expected : Spanned String) (span : SourceSpan)
  | contains (name expected : Spanned String) (span : SourceSpan)

/-- The section `headers` of an expectation. -/
structure ResponseHeadersAst where
  entries : List ResponseHeaderAssertionAst
  span : SourceSpan

/-- The section `status` of an expectation. -/
structure StatusAssertionAst where
  expected : Spanned Int
  span : SourceSpan

/-- The section `body` of an expectation. -/
inductive BodyAssertionAst where
  | empty (span : SourceSpan)
  | textExact (expected : Spanned String) (span : SourceSpan)
  | textContains (expected : Spanned String) (span : SourceSpan)
  | object (assertion : ObjectAssertionAst)

/-- The place of a body assertion. -/
def BodyAssertionAst.span : BodyAssertionAst → SourceSpan
  | .empty span => span
  | .textExact _ span => span
  | .textContains _ span => span
  | .object assertion => assertion.span

/-- A section of an expectation. -/
inductive ExpectationSectionAst where
  | status (assertion : StatusAssertionAst)
  | headers (assertions : ResponseHeadersAst)
  | body (assertion : BodyAssertionAst)

/-- An expectation with its sections in source order. -/
structure ExpectationAst where
  sections : List ExpectationSectionAst
  span : SourceSpan

/-! ## Suites -/

/-- A test with all its requests and expectations, also those too many. -/
structure TestAst where
  name : Spanned String
  requests : List RequestAst
  expectations : List ExpectationAst
  span : SourceSpan

/-- The block `core`. -/
structure CoreBlockAst where
  tests : List TestAst
  span : SourceSpan

/-- A block `pipeline` with its name. -/
structure PipelineBlockAst where
  name : Spanned String
  tests : List TestAst
  span : SourceSpan

/-- A block of a suite; a test on its own is one, too. -/
inductive BlockAst where
  | core (block : CoreBlockAst)
  | pipeline (block : PipelineBlockAst)
  | test (test : TestAst)

/-- The place of a block. -/
def BlockAst.span : BlockAst → SourceSpan
  | .core block => block.span
  | .pipeline block => block.span
  | .test t => t.span

/-- A suite with its blocks in source order. -/
structure SuiteAst where
  blocks : List BlockAst
  span : SourceSpan

/-! ## Trees without spans -/

namespace Tree

/-- A literal without places. -/
inductive Value where
  | string (value : String)
  | integer (value : Int)
  | number (value : Float)
  | boolean (value : Bool)
  | null
  | array (items : List Value)
  | object (entries : List (String × Value))

/-- A section of a request without places. -/
inductive RequestSection where
  | headers (entries : List (String × Value))
  | query (entries : List (String × Value))
  | body (entries : List (String × Value))

/-- A request without places. -/
structure Request where
  method : HttpMethodAst
  path : String
  sections : List RequestSection

mutual

/-- An object assertion without places. -/
structure ObjectAssertion where
  mode : ObjectMatchModeAst
  fields : List FieldAssertion

/-- A field without places. -/
structure FieldAssertion where
  name : String
  expectedType : Option AssertionTypeAst
  expectedValue : Option Value
  nested : Option ObjectAssertion
  capture : Option String

end

/-- What is expected of a header, without places. -/
inductive HeaderAssertion where
  | exists_ (name : String)
  | exact (name expected : String)
  | contains (name expected : String)

/-- What is expected of a body, without places. -/
inductive BodyAssertion where
  | empty
  | textExact (expected : String)
  | textContains (expected : String)
  | object (assertion : ObjectAssertion)

/-- A section of an expectation without places. -/
inductive ExpectationSection where
  | status (expected : Int)
  | headers (entries : List HeaderAssertion)
  | body (assertion : BodyAssertion)

/-- A test without places. -/
structure Test where
  name : String
  requests : List Request
  expectations : List (List ExpectationSection)

/-- A block without places. -/
inductive Block where
  | core (tests : List Test)
  | pipeline (name : String) (tests : List Test)
  | test (test : Test)

/-- What a suite says, without places: its blocks in source order. -/
abbrev Suite := List Block

end Tree

/-! ## Forgetting spans -/

mutual

/-- Forget the places of a literal. -/
def ValueAst.erase : ValueAst → Tree.Value
  | .string value => .string value.value
  | .integer value => .integer value.value
  | .number value => .number value.value
  | .boolean value => .boolean value.value
  | .null _ => .null
  | .array ⟨items, _⟩ => .array (eraseItems items)
  | .object ⟨entries, _⟩ => .object (eraseEntries entries)

/-- Forget the places of the items of an array. -/
def eraseItems : List ValueAst → List Tree.Value
  | [] => []
  | item :: items => item.erase :: eraseItems items

/-- Forget the places of the entries of an object. -/
def eraseEntries : List ObjectValueEntryAst → List (String × Tree.Value)
  | [] => []
  | ⟨key, value, _⟩ :: entries => (key.value, value.erase) :: eraseEntries entries

end

/-- Forget the places of a request header. -/
def HeaderValueEntryAst.erase (entry : HeaderValueEntryAst) : String × Tree.Value :=
  (entry.name.value, entry.value.erase)

/-- Forget the places of a section of a request. -/
def RequestSectionAst.erase : RequestSectionAst → Tree.RequestSection
  | .headers h => .headers (h.entries.map HeaderValueEntryAst.erase)
  | .query q => .query (eraseEntries q.entries)
  | .body b => .body (eraseEntries b.value.entries)

/-- Forget the places of a request. -/
def RequestAst.erase (request : RequestAst) : Tree.Request :=
  ⟨request.method.value, request.path.value, request.sections.map RequestSectionAst.erase⟩

mutual

/-- Forget the places of an object assertion. -/
def ObjectAssertionAst.erase : ObjectAssertionAst → Tree.ObjectAssertion
  | ⟨mode, fields, _⟩ => ⟨mode, eraseFields fields⟩

/-- Forget the places of fields. -/
def eraseFields : List FieldAssertionAst → List Tree.FieldAssertion
  | [] => []
  | field :: fields => field.erase :: eraseFields fields

/-- Forget the places of a field. -/
def FieldAssertionAst.erase : FieldAssertionAst → Tree.FieldAssertion
  | ⟨name, expectedType, expectedValue, nested, capture, _⟩ =>
    ⟨name.value, expectedType.map (·.value), expectedValue.map ValueAst.erase,
      eraseNested nested, capture.map (·.value)⟩

/-- Forget the places of nested fields, if there are any. -/
def eraseNested : Option ObjectAssertionAst → Option Tree.ObjectAssertion
  | none => none
  | some assertion => some assertion.erase

end

/-- Forget the places of a header assertion. -/
def ResponseHeaderAssertionAst.erase : ResponseHeaderAssertionAst → Tree.HeaderAssertion
  | .exists_ name _ _ => .exists_ name.value
  | .exact name expected _ => .exact name.value expected.value
  | .contains name expected _ => .contains name.value expected.value

/-- Forget the places of a body assertion. -/
def BodyAssertionAst.erase : BodyAssertionAst → Tree.BodyAssertion
  | .empty _ => .empty
  | .textExact expected _ => .textExact expected.value
  | .textContains expected _ => .textContains expected.value
  | .object assertion => .object assertion.erase

/-- Forget the places of a section of an expectation. -/
def ExpectationSectionAst.erase : ExpectationSectionAst → Tree.ExpectationSection
  | .status s => .status s.expected.value
  | .headers h => .headers (h.entries.map ResponseHeaderAssertionAst.erase)
  | .body b => .body b.erase

/-- Forget the places of an expectation. -/
def ExpectationAst.erase (expectation : ExpectationAst) : List Tree.ExpectationSection :=
  expectation.sections.map ExpectationSectionAst.erase

/-- Forget the places of a test. -/
def TestAst.erase (test : TestAst) : Tree.Test :=
  ⟨test.name.value, test.requests.map RequestAst.erase,
    test.expectations.map ExpectationAst.erase⟩

/-- Forget the places of a block. -/
def BlockAst.erase : BlockAst → Tree.Block
  | .core block => .core (block.tests.map TestAst.erase)
  | .pipeline block => .pipeline block.name.value (block.tests.map TestAst.erase)
  | .test t => .test t.erase

/-- Forget the places of a suite. -/
def SuiteAst.erase (suite : SuiteAst) : Tree.Suite := suite.blocks.map BlockAst.erase

/-! ## Lists of nodes -/

/-- Forget the places of an entry of an object. -/
def ObjectValueEntryAst.erase (entry : ObjectValueEntryAst) : String × Tree.Value :=
  (entry.key.value, entry.value.erase)

theorem eraseItems_eq (items : List ValueAst) : eraseItems items = items.map ValueAst.erase := by
  induction items with
  | nil => rfl
  | cons item items ih => rw [eraseItems, ih, List.map_cons]

theorem eraseEntries_eq (entries : List ObjectValueEntryAst) :
    eraseEntries entries = entries.map ObjectValueEntryAst.erase := by
  induction entries with
  | nil => rfl
  | cons entry entries ih =>
    obtain ⟨key, value, span⟩ := entry
    rw [eraseEntries, ih, List.map_cons, ObjectValueEntryAst.erase]

theorem eraseFields_eq (fields : List FieldAssertionAst) :
    eraseFields fields = fields.map FieldAssertionAst.erase := by
  induction fields with
  | nil => rfl
  | cons field fields ih => rw [eraseFields, ih, List.map_cons]

theorem eraseNested_eq (nested : Option ObjectAssertionAst) :
    eraseNested nested = nested.map ObjectAssertionAst.erase := by
  cases nested with
  | none => rfl
  | some assertion => rw [eraseNested, Option.map_some]

end Rettp
