import Rettp.Platform
import Rettp.IndexMap

/-!
# The domain model

The contract shared by the parser, the executor and the reporter: a suite of blocks of tests,
each with an HTTP request and an expected response, and the results of running it.

`IndexMap`s keep declaration order. The maps inside the recursive types (`Value.object`,
`ObjectAssertion.fields`) are written as entry lists, which is what `IndexMap` abbreviates.
Integers that the source stores as `i64`, `u64` or `u16` are `Int` and `Nat`.
-/

namespace Rettp

/-! ## Values and variables -/

/-- Text that may contain `${variable}` placeholders. -/
structure InterpolatedString where
  raw : String
  deriving DecidableEq

/-- A typed value of a request or of an expected JSON document. -/
inductive Value where
  | string (value : InterpolatedString)
  | integer (value : Int)
  | number (value : Float)
  | boolean (value : Bool)
  | null
  | array (items : List Value)
  | object (entries : List (String × Value))

/-- The errors of building domain values that the parser and the runtime can meet. -/
inductive DomainError where
  | emptyVariableName
  | invalidVariableName (name : String)
  deriving DecidableEq

/-- An identifier of a value shared between tests. -/
structure VariableName where
  raw : String
  deriving DecidableEq

/-- Validate a variable name: a letter or `_`, then letters, digits and `_`. -/
def VariableName.new [Platform] (value : String) : Except DomainError VariableName :=
  match value.toList with
  | [] => .error .emptyVariableName
  | first :: characters =>
    if !Platform.isAlphabetic first && first != '_' then .error (.invalidVariableName value)
    else if !characters.all (fun c => Platform.isAlphanumeric c || c == '_') then
      .error (.invalidVariableName value)
    else .ok ⟨value⟩

/-- A validated name carries the text it was made from. -/
theorem VariableName.new_ok [Platform] {value : String} {name : VariableName}
    (h : VariableName.new value = .ok name) : name.raw = value := by
  unfold VariableName.new at h
  split at h
  · cases h
  · split at h
    · cases h
    · split at h
      · cases h
      · cases h; rfl

/-- A request to save a response value under a variable name. -/
structure Capture where
  variableName : VariableName
  deriving DecidableEq

/-! ## Assertions -/

/-- A JSON type expected of a field. -/
inductive ExpectedType where
  | string | boolean | integer | number | object | array | null
  deriving DecidableEq

/-- The name of a type in the language. -/
def ExpectedType.asStr : ExpectedType → String
  | .string => "string"
  | .boolean => "boolean"
  | .integer => "integer"
  | .number => "number"
  | .object => "object"
  | .array => "array"
  | .null => "null"

/-- Policy for fields that an object assertion does not declare. -/
inductive ObjectMatchMode where
  | exact
  | partially
  deriving DecidableEq

mutual

/-- Expectations for one named field of a JSON object. -/
structure FieldAssertion where
  fieldName : String
  expectedType : ExpectedType
  expectedValue : Option Value
  nested : Option ObjectAssertion
  capture : Option Capture

/-- Assertions about a JSON object. -/
structure ObjectAssertion where
  mode : ObjectMatchMode
  fields : List (String × FieldAssertion)

end

/-- How one response header is compared. -/
inductive HeaderAssertion where
  | exists_
  | exact (expected : InterpolatedString)
  | contains (expected : InterpolatedString)
  deriving DecidableEq

/-- How a text body is compared. -/
inductive TextAssertion where
  | exact (expected : InterpolatedString)
  | contains (expected : InterpolatedString)
  deriving DecidableEq

/-- The expected shape or contents of a response body. -/
inductive BodyAssertion where
  | json (assertion : ObjectAssertion)
  | text (assertion : TextAssertion)
  | empty

/-- Expected properties of a response; an omitted status or body requires nothing. -/
structure ResponseExpectation where
  status : Option Nat
  headers : IndexMap String HeaderAssertion
  body : Option BodyAssertion

/-! ## Requests -/

/-- The methods of a request. -/
inductive HttpMethod where
  | get | post | put | patch | delete | head | options
  deriving DecidableEq

/-- Encoded content of a request. -/
inductive RequestBody where
  | json (value : Value)
  | text (value : InterpolatedString)
  | formData (fields : IndexMap String Value)
  | binary (bytes : List UInt8)

/-- A transport-independent description of one HTTP request. -/
structure HttpRequestSpec where
  method : HttpMethod
  path : InterpolatedString
  headers : IndexMap String Value
  query : IndexMap String Value
  body : Option RequestBody
  timeoutMs : Option Nat

/-- A request without headers, query, body or timeout. -/
def HttpRequestSpec.new (method : HttpMethod) (path : InterpolatedString) : HttpRequestSpec :=
  ⟨method, path, [], [], none, none⟩

/-! ## Suites -/

/-- One executable HTTP test. -/
structure TestCase where
  name : String
  request : HttpRequestSpec
  expectation : ResponseExpectation

/-- A unit of a suite: the shared core, a named pipeline, or a standalone test. -/
inductive SuiteBlock where
  | core (tests : List TestCase)
  | pipeline (name : String) (tests : List TestCase)
  | test (test : TestCase)

/-- A suite with an optional display name and ordered blocks. -/
structure TestSuite where
  name : Option String
  blocks : List SuiteBlock

/-- The block is the core. -/
def SuiteBlock.isCore : SuiteBlock → Bool
  | .core _ => true
  | _ => false

/-- The tests of a block in declaration order. -/
def SuiteBlock.tests : SuiteBlock → List TestCase
  | .core tests => tests
  | .pipeline _ tests => tests
  | .test t => [t]

/-! ## Results -/

/-- Final state of a test or a block. -/
inductive ExecutionStatus where
  | passed | failed | skipped | aborted
  deriving DecidableEq

/-- Why a test came to no verdict on its response. -/
inductive ExecutionErrorKind where
  | invalidRequest | connection | timeout | invalidResponse | variableResolution
  | dependencyFailed | internal
  deriving DecidableEq

/-- An error that prevented normal test execution. -/
structure ExecutionErrorInfo where
  kind : ExecutionErrorKind
  message : String
  deriving DecidableEq

/-- What is wrong with a response. -/
inductive AssertionFailureKind where
  | missingField | typeMismatch | valueMismatch | unexpectedField | statusMismatch
  | headerMismatch | invalidBody
  deriving DecidableEq

/-- One failed response assertion. -/
structure AssertionFailure where
  path : String
  kind : AssertionFailureKind
  expected : Option String
  actual : Option String
  message : String
  deriving DecidableEq

/-- The recorded outcome of one test. -/
structure TestResult where
  name : String
  status : ExecutionStatus
  durationMs : Nat
  failures : List AssertionFailure
  error : Option ExecutionErrorInfo
  deriving DecidableEq

namespace TestResult

/-- A test that met its expectation. -/
def passed (name : String) (durationMs : Nat) : TestResult := ⟨name, .passed, durationMs, [], none⟩

/-- A test that was not run. -/
def skipped (name reason : String) : TestResult :=
  ⟨name, .skipped, 0, [], some ⟨.dependencyFailed, reason⟩⟩

/-- A test that did not meet its expectation, or whose request failed. -/
def failed (name : String) (durationMs : Nat) (failures : List AssertionFailure)
    (error : Option ExecutionErrorInfo) : TestResult :=
  ⟨name, .failed, durationMs, failures, error⟩

/-- A test that the executor could not finish. -/
def aborted (name : String) (durationMs : Nat) (reason : String) : TestResult :=
  ⟨name, .aborted, durationMs, [], some ⟨.internal, reason⟩⟩

end TestResult

/-- The outcome of a block; a core or pipeline also carries its own status and duration. -/
inductive BlockResult where
  | core (status : ExecutionStatus) (durationMs : Nat) (tests : List TestResult)
  | pipeline (name : String) (status : ExecutionStatus) (durationMs : Nat)
      (tests : List TestResult)
  | test (result : TestResult)
  deriving DecidableEq

/-- The test results of a block in declaration order. -/
def BlockResult.tests : BlockResult → List TestResult
  | .core _ _ tests => tests
  | .pipeline _ _ _ tests => tests
  | .test r => [r]

/-- The result is that of the core. -/
def BlockResult.isCore : BlockResult → Bool
  | .core .. => true
  | _ => false

/-- The source-ordered outcome of a suite. -/
structure SuiteResult where
  name : Option String
  status : ExecutionStatus
  durationMs : Nat
  blocks : List BlockResult
  error : Option ExecutionErrorInfo
  deriving DecidableEq

end Rettp
