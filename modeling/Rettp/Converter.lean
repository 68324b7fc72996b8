import Rettp.Validator

/-!
# Conversion to the domain model

A suite that has passed validation becomes a `TestSuite`. Where the conversion relies on the
validator it would panic otherwise, which is `none` here.

All maps are filled through `put`, which takes an `Insertion`: the program overwrites, and an
insertion that refuses a key already there tells whether anything was overwritten.
-/

namespace Rettp

/-- What happens to an entry that is inserted again. -/
inductive Insertion where
  | overwriting | refusing
  deriving DecidableEq

namespace Converter

/-! ## Words for types and methods -/

/-- The method of a request, one to one. -/
def convertMethod : HttpMethodAst → HttpMethod
  | .get => .get
  | .post => .post
  | .put => .put
  | .patch => .patch
  | .delete => .delete
  | .head => .head
  | .options => .options

/-- The type of a field, one to one. -/
def convertAssertionType : AssertionTypeAst → ExpectedType
  | .string => .string
  | .integer => .integer
  | .number => .number
  | .object => .object
  | .array => .array
  | .boolean => .boolean
  | .null => .null

/-- The type of a field that has only a value: that of the literal. -/
def inferExpectedType : ValueAst → ExpectedType
  | .string _ => .string
  | .integer _ => .integer
  | .number _ => .number
  | .boolean _ => .boolean
  | .null _ => .null
  | .array _ => .array
  | .object _ => .object

/-- The mode of an object assertion, one to one. -/
def convertMatchMode : ObjectMatchModeAst → ObjectMatchMode
  | .partially => .partially
  | .exact => .exact

/-- `u16::try_from` on an `i64`. -/
def u16TryFrom (value : Int) : Option Nat :=
  if 0 ≤ value ∧ value ≤ 65535 then some value.toNat else none

/-! ## Values -/

/-- Put an entry into a map that conversion builds. -/
def put {α : Type} (insertion : Insertion) (map : IndexMap String α) (key : String) (value : α) :
    Option (IndexMap String α) :=
  match insertion with
  | .overwriting => some (map.insert key value)
  | .refusing => if key ∈ map.keys then none else some (map.insert key value)

mutual

/-- A literal without its places. -/
def convertValue (insertion : Insertion) : ValueAst → Option Value
  | .string value => some (.string ⟨value.value⟩)
  | .integer value => some (.integer value.value)
  | .number value => some (.number value.value)
  | .boolean value => some (.boolean value.value)
  | .null _ => some .null
  | .array ⟨items, _⟩ => do return .array (← convertItems insertion items)
  | .object object => do return .object (← convertObject insertion object)

/-- The items of an array. -/
def convertItems (insertion : Insertion) : List ValueAst → Option (List Value)
  | [] => some []
  | item :: items => do return (← convertValue insertion item) :: (← convertItems insertion items)

/-- The entries of an object. -/
def convertObject (insertion : Insertion) : ObjectValueAst → Option (IndexMap String Value)
  | ⟨entries, _⟩ => convertEntries insertion entries []

/-- The loop over the entries of an object. -/
def convertEntries (insertion : Insertion) :
    List ObjectValueEntryAst → IndexMap String Value → Option (IndexMap String Value)
  | [], map => some map
  | ⟨key, value, _⟩ :: entries, map => do
    let value ← convertValue insertion value
    let map ← put insertion map key.value value
    convertEntries insertion entries map

end

/-! ## Requests -/

/-- One header of a request. -/
def convertHeaderEntry (insertion : Insertion) (headers : IndexMap String Value)
    (entry : HeaderValueEntryAst) : Option (IndexMap String Value) := do
  put insertion headers entry.name.value (← convertValue insertion entry.value)

/-- One section of a request. -/
def convertRequestSection (insertion : Insertion) (converted : HttpRequestSpec) :
    RequestSectionAst → Option HttpRequestSpec
  | .headers headers => do
    let headers ← headers.entries.foldlM (convertHeaderEntry insertion) converted.headers
    return { converted with headers }
  | .query query => do
    let query ← convertEntries insertion query.entries converted.query
    return { converted with query }
  | .body body => do
    let object ← convertObject insertion body.value
    return { converted with body := some (.json (.object object)) }

/-- A request, section by section. -/
def convertRequest (insertion : Insertion) (request : RequestAst) : Option HttpRequestSpec :=
  request.sections.foldlM (convertRequestSection insertion)
    (.new (convertMethod request.method.value) ⟨request.path.value⟩)

/-! ## Expectations -/

variable [Platform]

/-- The variable of a capture. -/
def convertCapture (capture : Spanned String) : Option Capture :=
  match VariableName.new capture.value with
  | .ok variable_ => some ⟨variable_⟩
  | .error _ => none

/-- The type of a field: the declared one, or that of its value, or an object. -/
def convertFieldType (expectedType : Option (Spanned AssertionTypeAst))
    (expectedValue : Option ValueAst) (nested : Option ObjectAssertionAst) : Option ExpectedType :=
  (expectedType.map (convertAssertionType ·.value)).or
    ((expectedValue.map inferExpectedType).or (nested.map fun _ => .object))

/-- The value of a field, if it has one. -/
def convertOptionalValue (insertion : Insertion) : Option ValueAst → Option (Option Value)
  | none => some none
  | some value => do return some (← convertValue insertion value)

/-- The capture of a field, if it has one. -/
def convertOptionalCapture : Option (Spanned String) → Option (Option Capture)
  | none => some none
  | some capture => do return some (← convertCapture capture)

mutual

/-- An object assertion with its fields by name. -/
def convertObjectAssertion (insertion : Insertion) : ObjectAssertionAst → Option ObjectAssertion
  | ⟨mode, fields, _⟩ => do return ⟨convertMatchMode mode, ← convertFields insertion fields []⟩

/-- The loop over the fields of an object assertion. -/
def convertFields (insertion : Insertion) : List FieldAssertionAst →
    IndexMap String FieldAssertion → Option (IndexMap String FieldAssertion)
  | [], map => some map
  | field :: fields, map => do
    let field ← convertFieldAssertion insertion field
    let map ← put insertion map field.fieldName field
    convertFields insertion fields map

/-- One field with its declared or inferred type. -/
def convertFieldAssertion (insertion : Insertion) : FieldAssertionAst → Option FieldAssertion
  | ⟨name, expectedType, expectedValue, nested, capture, _⟩ => do
    let type ← convertFieldType expectedType expectedValue nested
    let value ← convertOptionalValue insertion expectedValue
    let nested ← convertNested insertion nested
    let capture ← convertOptionalCapture capture
    return ⟨name.value, type, value, nested, capture⟩

/-- The nested fields of a field, if it has some. -/
def convertNested (insertion : Insertion) :
    Option ObjectAssertionAst → Option (Option ObjectAssertion)
  | none => some none
  | some nested => do return some (← convertObjectAssertion insertion nested)

end

/-- One expected header. -/
def convertResponseHeader (insertion : Insertion) (headers : IndexMap String HeaderAssertion) :
    ResponseHeaderAssertionAst → Option (IndexMap String HeaderAssertion)
  | .exists_ name _ _ => put insertion headers name.value .exists_
  | .exact name expected _ => put insertion headers name.value (.exact ⟨expected.value⟩)
  | .contains name expected _ => put insertion headers name.value (.contains ⟨expected.value⟩)

/-- What is expected of a body. -/
def convertBodyAssertion (insertion : Insertion) : BodyAssertionAst → Option BodyAssertion
  | .empty _ => some .empty
  | .textExact expected _ => some (.text (.exact ⟨expected.value⟩))
  | .textContains expected _ => some (.text (.contains ⟨expected.value⟩))
  | .object object => do return .json (← convertObjectAssertion insertion object)

/-- One section of an expectation. -/
def convertExpectationSection (insertion : Insertion) (converted : ResponseExpectation) :
    ExpectationSectionAst → Option ResponseExpectation
  | .status status => do
    let status ← u16TryFrom status.expected.value
    return { converted with status := some status }
  | .headers headers => do
    let headers ← headers.entries.foldlM (convertResponseHeader insertion) converted.headers
    return { converted with headers }
  | .body body => do
    let body ← convertBodyAssertion insertion body
    return { converted with body := some body }

/-- An expectation, section by section. -/
def convertExpectation (insertion : Insertion) (expectation : ExpectationAst) :
    Option ResponseExpectation :=
  expectation.sections.foldlM (convertExpectationSection insertion) ⟨none, [], none⟩

/-! ## Suites -/

/-- A test: its first request and its first expectation. -/
def convertTest (insertion : Insertion) (test : TestAst) : Option TestCase := do
  let request ← test.requests.head?
  let expectation ← test.expectations.head?
  let request ← convertRequest insertion request
  let expectation ← convertExpectation insertion expectation
  return ⟨test.name.value, request, expectation⟩

/-- A block, test by test. -/
def convertBlock (insertion : Insertion) : BlockAst → Option SuiteBlock
  | .core core => do return .core (← core.tests.mapM (convertTest insertion))
  | .pipeline pipeline => do
    return .pipeline pipeline.name.value (← pipeline.tests.mapM (convertTest insertion))
  | .test test => do return .test (← convertTest insertion test)

/-- A suite, block by block; it has no name. -/
def convertSuite (insertion : Insertion) (ast : SuiteAst) : Option TestSuite := do
  return ⟨none, ← ast.blocks.mapM (convertBlock insertion)⟩

end Converter

variable [Platform]

/-- The suite that a syntax tree stands for; `none` when the conversion panics. -/
def convert : SuiteAst → Option TestSuite := Converter.convertSuite .overwriting

/-- A suite, or what is wrong with it. -/
structure ValidationResult where
  suite : Option TestSuite
  errors : List ValidationError

/-- Validate a suite, and convert it if there are no errors. -/
def validateAndConvert (ast : SuiteAst) (context : ValidationContext) : Option ValidationResult :=
  let errors := validate ast context
  if errors ≠ [] then some ⟨none, errors⟩
  else do return ⟨some (← convert ast), errors⟩

end Rettp
