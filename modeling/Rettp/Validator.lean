import Mathlib.Data.Finset.Insert
import Mathlib.Data.Finset.Lattice.Basic
import Rettp.Ast
import Rettp.Checked
import Rettp.VariableNames

/-!
# Semantic validation

The checks that a parsed suite must pass before it is converted. All errors are collected, in
the order of the traversal; the names in scope and the names already used are passed along.
-/

namespace Rettp

/-! ## Errors -/

/-- What is duplicated or has no name. -/
inductive DuplicateKind where
  | coreBlock | request | expectation
  | requestHeaders | requestQuery | requestBody
  | responseStatus | responseHeaders | responseBody
  | requestHeader | responseHeader | queryParameter | objectKey | assertionField
  deriving DecidableEq

/-- The rules that can be violated. -/
inductive ValidationErrorKind where
  | duplicate (kind : DuplicateKind)
  | duplicateNamed (kind : DuplicateKind) (name : String)
  | emptyName (kind : DuplicateKind)
  | emptyPipelineName
  | emptyTestName
  | emptyPipeline
  | invalidRequestCount
  | invalidExpectationCount
  | emptyRequestPath
  | invalidHttpStatus (status : Int)
  | requestBodyNotAllowed (method : String)
  | typeValueMismatch (field expected actual : String)
  | missingFieldAssertion (field : String)
  | captureRequiresType (name : String)
  | nestedAssertionRequiresObject (field : String)
  | nestedAssertionMustBePartial (field : String)
  | invalidVariableName (name : String)
  | undefinedVariable (name : String)
  | duplicateVariable (name : String)
  | emptyInterpolation
  | unterminatedInterpolation
  | nestingLimitExceeded (limit : Nat)
  deriving DecidableEq

/-- A violated rule and the place of the violation. -/
structure ValidationError where
  kind : ValidationErrorKind
  span : SourceSpan
  deriving DecidableEq

/-! ## Context -/

/-- `DEFAULT_MAX_SEMANTIC_DEPTH` -/
def defaultMaxSemanticDepth : Nat := 128

/-- `HARD_MAX_SEMANTIC_DEPTH`: no limit goes beyond it. -/
def hardMaxSemanticDepth : Nat := 256

/-- The variables that exist before the suite, and how deep containers may be nested. -/
structure ValidationContext where
  predefinedVariables : Finset VariableName
  maxDepth : Nat
  maxDepth_le : maxDepth ≤ hardMaxSemanticDepth

namespace ValidationContext

/-- No variables are known before the suite, and the limit of nesting is the default one. -/
def new : ValidationContext := ⟨∅, defaultMaxSemanticDepth, by decide⟩

/-- One more variable is known before the suite. -/
def withPredefinedVariable (context : ValidationContext) (variable_ : VariableName) :
    ValidationContext :=
  { context with predefinedVariables := insert variable_ context.predefinedVariables }

/-- Several more variables are known before the suite. -/
def withPredefinedVariables (context : ValidationContext) (variables_ : List VariableName) :
    ValidationContext :=
  variables_.foldl withPredefinedVariable context

/-- Another limit of nesting, within the hard one. -/
def withMaxDepth (context : ValidationContext) (limit : Nat) : ValidationContext :=
  { context with
    maxDepth := min limit hardMaxSemanticDepth
    maxDepth_le := Nat.min_le_right _ _ }

end ValidationContext

/-! ## Words for types and methods -/

/-- The methods whose requests may have a body. -/
def methodAllowsBody : HttpMethodAst → Bool
  | .post | .put | .patch => true
  | _ => false

/-- The name of a method in a message. -/
def methodName : HttpMethodAst → String
  | .get => "GET"
  | .post => "POST"
  | .put => "PUT"
  | .patch => "PATCH"
  | .delete => "DELETE"
  | .head => "HEAD"
  | .options => "OPTIONS"

/-- The name of a type in a message. -/
def assertionTypeName : AssertionTypeAst → String
  | .string => "string"
  | .integer => "integer"
  | .number => "number"
  | .object => "object"
  | .array => "array"
  | .boolean => "boolean"
  | .null => "null"

/-- The type of a literal in a message. -/
def valueTypeName : ValueAst → String
  | .string _ => "string"
  | .integer _ => "integer"
  | .number _ => "number"
  | .boolean _ => "boolean"
  | .null _ => "null"
  | .array _ => "array"
  | .object _ => "object"

/-- Whether a declared type accepts a literal. -/
def typeAcceptsValue : AssertionTypeAst → ValueAst → Bool
  | .number, .integer _ | .number, .number _ => true
  | .string, .string _ => true
  | .integer, .integer _ => true
  | .object, .object _ => true
  | .array, .array _ => true
  | .boolean, .boolean _ => true
  | .null, .null _ => true
  | _, _ => false

/-! ## Names and texts -/

variable [Platform]

namespace Validator

/-- A check that goes on after an error and collects all of them. -/
abbrev Validation (α : Type) := Checked ValidationError α

/-- A declaration that may occur once. -/
def duplicateIf (c : Bool) (kind : DuplicateKind) (span : SourceSpan) : Validation Unit :=
  .reportIf c ⟨.duplicate kind, span⟩

/-- A name that is used once, up to `fold`. -/
def validateNameBy (fold : String → String) (kind : DuplicateKind) (names : Finset String)
    (name : Spanned String) : Validation (Finset String) := do
  .reportIf name.value.isEmpty ⟨.emptyName kind, name.span⟩
  .reportIf (fold name.value ∈ names) ⟨.duplicateNamed kind name.value, name.span⟩
  pure (insert (fold name.value) names)

/-- A name that is used once. -/
def validateName : DuplicateKind → Finset String → Spanned String → Validation (Finset String) :=
  validateNameBy id

/-- Header names are the same up to ASCII case. -/
def validateHeaderName :
    DuplicateKind → Finset String → Spanned String → Validation (Finset String) :=
  validateNameBy toAsciiLowercase

/-- A name in a placeholder. -/
def validateVariable (scope : Finset VariableName) (span : SourceSpan) (name : String) :
    Validation Unit :=
  match VariableName.new name with
  | .ok variable_ => .reportIf (variable_ ∉ scope) ⟨.undefinedVariable name, span⟩
  | .error _ => .report ⟨.invalidVariableName name, span⟩

/-- The placeholders of a text name variables in scope. -/
def validateInterpolation (scope : Finset VariableName) (value : Spanned String) :
    Validation Unit :=
  match variableNames value.value with
  | .error .empty => .report ⟨.emptyInterpolation, value.span⟩
  | .error .unterminated => .report ⟨.unterminatedInterpolation, value.span⟩
  | .ok names => .forEach (validateVariable scope value.span) names

/-! ## Values -/

/-- Whether a container may be nested here. -/
def enterDepth (maxDepth depth : Nat) (span : SourceSpan) : Validation Bool := do
  .reportIf (depth ≥ maxDepth) ⟨.nestingLimitExceeded maxDepth, span⟩
  pure (depth < maxDepth)

mutual

/-- A literal with all that is nested in it. -/
def validateValue (maxDepth : Nat) (scope : Finset VariableName) :
    ValueAst → Nat → Validation Unit
  | .string value, _ => validateInterpolation scope value
  | .array ⟨items, span⟩, depth => do
    if ← enterDepth maxDepth depth span then validateItems maxDepth scope items (depth + 1)
  | .object object, depth => validateObject maxDepth scope object depth
  | .integer _, _ | .number _, _ | .boolean _, _ | .null _, _ => pure ()

/-- The loop over the items of an array. -/
def validateItems (maxDepth : Nat) (scope : Finset VariableName) :
    List ValueAst → Nat → Validation Unit
  | [], _ => pure ()
  | item :: items, depth => do
    validateValue maxDepth scope item depth
    validateItems maxDepth scope items depth

/-- An object: its depth, then its entries. -/
def validateObject (maxDepth : Nat) (scope : Finset VariableName) :
    ObjectValueAst → Nat → Validation Unit
  | ⟨entries, span⟩, depth => do
    if ← enterDepth maxDepth depth span then
      let _ ← validateObjectEntries maxDepth scope .objectKey entries (depth + 1) ∅

/-- The entries of an object or of a query section. -/
def validateObjectEntries (maxDepth : Nat) (scope : Finset VariableName) (kind : DuplicateKind) :
    List ObjectValueEntryAst → Nat → Finset String → Validation (Finset String)
  | [], _, names => pure names
  | ⟨key, value, _⟩ :: entries, depth, names => do
    let names ← validateName kind names key
    validateValue maxDepth scope value depth
    validateObjectEntries maxDepth scope kind entries depth names

end

/-! ## Requests -/

/-- The sections and names that have been seen in a request. -/
structure SeenInRequest where
  sawHeaders : Bool
  sawQuery : Bool
  sawBody : Bool
  headerNames : Finset String
  queryNames : Finset String

/-- A request header: its name, then its value. -/
def validateHeaderEntry (maxDepth : Nat) (scope : Finset VariableName)
    (names : Finset String) (entry : HeaderValueEntryAst) : Validation (Finset String) := do
  let names ← validateHeaderName .requestHeader names entry.name
  validateValue maxDepth scope entry.value 0
  pure names

/-- A section of a request, which may occur once. -/
def validateRequestSection (maxDepth : Nat) (scope : Finset VariableName) (method : HttpMethodAst)
    (seen : SeenInRequest) : RequestSectionAst → Validation SeenInRequest
  | .headers headers => do
    duplicateIf seen.sawHeaders .requestHeaders headers.span
    let names ← .foldM (validateHeaderEntry maxDepth scope) seen.headerNames headers.entries
    pure { seen with sawHeaders := true, headerNames := names }
  | .query query => do
    duplicateIf seen.sawQuery .requestQuery query.span
    let names ← validateObjectEntries maxDepth scope .queryParameter query.entries 0 seen.queryNames
    pure { seen with sawQuery := true, queryNames := names }
  | .body body => do
    duplicateIf seen.sawBody .requestBody body.span
    .reportIf (!methodAllowsBody method) ⟨.requestBodyNotAllowed (methodName method), body.span⟩
    validateObject maxDepth scope body.value 0
    pure { seen with sawBody := true }

/-- A request: its path, then its sections. -/
def validateRequest (maxDepth : Nat) (scope : Finset VariableName) (request : RequestAst) :
    Validation Unit := do
  .reportIf request.path.value.isEmpty ⟨.emptyRequestPath, request.path.span⟩
  validateInterpolation scope request.path
  let _ ← .foldM (validateRequestSection maxDepth scope request.method.value)
    ⟨false, false, false, ∅, ∅⟩ request.sections

/-! ## Assertions -/

/-- A capture: it needs a type, a valid name, and one that is new. -/
def validateCapture (scope captures : Finset VariableName) (typed : Bool) (capture : Spanned String) :
    Validation (Finset VariableName) := do
  .reportIf (!typed) ⟨.captureRequiresType capture.value, capture.span⟩
  match VariableName.new capture.value with
  | .ok variable_ =>
    if variable_ ∈ scope then
      .report ⟨.duplicateVariable capture.value, capture.span⟩
      pure captures
    else
      .reportIf (variable_ ∈ captures) ⟨.duplicateVariable capture.value, capture.span⟩
      pure (insert variable_ captures)
  | .error _ =>
    .report ⟨.invalidVariableName capture.value, capture.span⟩
    pure captures

/-- A field is compared with a value of its declared type. -/
def validateComparison (field : String) (expectedType : Option (Spanned AssertionTypeAst))
    (expectedValue : Option ValueAst) : Validation Unit :=
  match expectedType, expectedValue with
  | some expected, some value =>
    .reportIf (!typeAcceptsValue expected.value value)
      ⟨.typeValueMismatch field (assertionTypeName expected.value) (valueTypeName value), value.span⟩
  | _, _ => pure ()

/-- The value of a field, if it has one. -/
def validateExpectedValue (maxDepth : Nat) (scope : Finset VariableName)
    (expectedValue : Option ValueAst) (depth : Nat) : Validation Unit :=
  match expectedValue with
  | some value => validateValue maxDepth scope value depth
  | none => pure ()

mutual

/-- An object assertion: its depth, then its fields. -/
def validateAssertion (maxDepth : Nat) (scope : Finset VariableName) :
    ObjectAssertionAst → Finset VariableName → Nat → Validation (Finset VariableName)
  | ⟨_, fields, span⟩, captures, depth => do
    if ← enterDepth maxDepth depth span then
      validateFields maxDepth scope fields captures (depth + 1) ∅
    else pure captures

/-- The loop over the fields of an object assertion. -/
def validateFields (maxDepth : Nat) (scope : Finset VariableName) :
    List FieldAssertionAst → Finset VariableName → Nat → Finset String →
    Validation (Finset VariableName)
  | [], captures, _, _ => pure captures
  | field :: fields, captures, depth, names => do
    let names ← validateName .assertionField names field.name
    let captures ← validateField maxDepth scope field captures depth
    validateFields maxDepth scope fields captures depth names

/-- A field: its type, its value, its nested fields, its capture. -/
def validateField (maxDepth : Nat) (scope : Finset VariableName) :
    FieldAssertionAst → Finset VariableName → Nat → Validation (Finset VariableName)
  | ⟨name, expectedType, expectedValue, nested, capture, span⟩, captures, depth => do
    .reportIf (expectedType.isNone && expectedValue.isNone && nested.isNone)
      ⟨.missingFieldAssertion name.value, span⟩
    validateComparison name.value expectedType expectedValue
    validateExpectedValue maxDepth scope expectedValue depth
    let captures ← validateNested maxDepth scope name.value (expectedType.map (·.value)) nested
      captures depth
    match capture with
    | some capture => validateCapture scope captures expectedType.isSome capture
    | none => pure captures

/-- Nested fields: on an object only, and matched partially. -/
def validateNested (maxDepth : Nat) (scope : Finset VariableName) (field : String)
    (expectedType : Option AssertionTypeAst) :
    Option ObjectAssertionAst → Finset VariableName → Nat → Validation (Finset VariableName)
  | none, captures, _ => pure captures
  | some nested, captures, depth => do
    .reportIf (expectedType != some .object) ⟨.nestedAssertionRequiresObject field, nested.span⟩
    .reportIf (nested.mode != .partially) ⟨.nestedAssertionMustBePartial field, nested.span⟩
    validateAssertion maxDepth scope nested captures depth

end

/-! ## Expectations -/

/-- The sections, names and captures that have been seen in an expectation. -/
structure SeenInExpectation where
  sawStatus : Bool
  sawHeaders : Bool
  sawBody : Bool
  headerNames : Finset String
  captures : Finset VariableName

/-- A header assertion: its name, then its text. -/
def validateResponseHeader (scope : Finset VariableName) (names : Finset String) :
    ResponseHeaderAssertionAst → Validation (Finset String)
  | .exists_ name _ _ => validateHeaderName .responseHeader names name
  | .exact name expected _ | .contains name expected _ => do
    let names ← validateHeaderName .responseHeader names name
    validateInterpolation scope expected
    pure names

/-- A body assertion. -/
def validateBody (maxDepth : Nat) (scope captures : Finset VariableName) :
    BodyAssertionAst → Validation (Finset VariableName)
  | .empty _ => pure captures
  | .textExact expected _ | .textContains expected _ => do
    validateInterpolation scope expected
    pure captures
  | .object assertion => validateAssertion maxDepth scope assertion captures 0

/-- A section of an expectation, which may occur once. -/
def validateExpectationSection (maxDepth : Nat) (scope : Finset VariableName)
    (seen : SeenInExpectation) : ExpectationSectionAst → Validation SeenInExpectation
  | .status status => do
    duplicateIf seen.sawStatus .responseStatus status.span
    .reportIf (!(100 ≤ status.expected.value && status.expected.value ≤ 599))
      ⟨.invalidHttpStatus status.expected.value, status.expected.span⟩
    pure { seen with sawStatus := true }
  | .headers headers => do
    duplicateIf seen.sawHeaders .responseHeaders headers.span
    let names ← .foldM (validateResponseHeader scope) seen.headerNames headers.entries
    pure { seen with sawHeaders := true, headerNames := names }
  | .body body => do
    duplicateIf seen.sawBody .responseBody body.span
    let captures ← validateBody maxDepth scope seen.captures body
    pure { seen with sawBody := true, captures }

/-- An expectation, section by section; the result are the captures so far. -/
def validateExpectation (maxDepth : Nat) (scope captures : Finset VariableName)
    (expectation : ExpectationAst) : Validation (Finset VariableName) := do
  let seen ← .foldM (validateExpectationSection maxDepth scope) ⟨false, false, false, ∅, captures⟩
    expectation.sections
  pure seen.captures

/-! ## Suites -/

/-- Check a test; the names that are visible after it. -/
def validateTest (maxDepth : Nat) (scope : Finset VariableName) (test : TestAst) :
    Validation (Finset VariableName) := do
  .reportIf test.name.value.isEmpty ⟨.emptyTestName, test.name.span⟩
  .reportIf (test.requests.length != 1) ⟨.invalidRequestCount, test.span⟩
  .forEach (fun request => .report ⟨.duplicate .request, request.span⟩) (test.requests.drop 1)
  .reportIf (test.expectations.length != 1) ⟨.invalidExpectationCount, test.span⟩
  .forEach (fun expectation => .report ⟨.duplicate .expectation, expectation.span⟩)
    (test.expectations.drop 1)
  .forEach (validateRequest maxDepth scope) test.requests
  let captures ← .foldM (validateExpectation maxDepth scope) ∅ test.expectations
  pure (scope ∪ captures)

/-- Tests one after the other; each sees what the tests before it capture. -/
def validateTests (maxDepth : Nat) (scope : Finset VariableName) (tests : List TestAst) :
    Validation (Finset VariableName) :=
  .foldM (validateTest maxDepth) scope tests

/-- One round of the search for the core; a second one is an error. -/
def findCoreStep (first : Option Nat) : BlockAst × Nat → Validation (Option Nat)
  | (.core core, index) => do
    duplicateIf first.isSome .coreBlock core.span
    pure (first.or (some index))
  | _ => pure first

/-- The place of the first core; any other one is a duplicate. -/
def findCore (blocks : List (BlockAst × Nat)) : Validation (Option Nat) :=
  .foldM findCoreStep none blocks

/-- The tests of the core, if there is one. -/
def coreTests (blocks : List BlockAst) (firstCore : Option Nat) : List TestAst :=
  match firstCore.bind (blocks[·]?) with
  | some (.core core) => core.tests
  | _ => []

/-- Check a block; the first core has been checked before. -/
def validateBlock (maxDepth : Nat) (global globalWithCore : Finset VariableName)
    (firstCore : Option Nat) : BlockAst × Nat → Validation Unit
  | (.core core, index) => do
    if firstCore ≠ some index then
      let _ ← validateTests maxDepth global core.tests
  | (.pipeline pipeline, _) => do
    .reportIf pipeline.name.value.isEmpty ⟨.emptyPipelineName, pipeline.name.span⟩
    .reportIf pipeline.tests.isEmpty ⟨.emptyPipeline, pipeline.span⟩
    let _ ← validateTests maxDepth globalWithCore pipeline.tests
  | (.test test, _) => do
    let _ ← validateTest maxDepth globalWithCore test

/-- A suite: its core first, then every other block with what the core captures. -/
def validateSuite (context : ValidationContext) (ast : SuiteAst) : Validation Unit := do
  let firstCore ← findCore ast.blocks.zipIdx
  let global := context.predefinedVariables
  let globalWithCore ← validateTests context.maxDepth global (coreTests ast.blocks firstCore)
  .forEach (validateBlock context.maxDepth global globalWithCore firstCore) ast.blocks.zipIdx

end Validator

/-- All semantic errors of a suite. -/
def validate (ast : SuiteAst) (context : ValidationContext) : List ValidationError :=
  (Validator.validateSuite context ast).errors

end Rettp
