import Mathlib
import Rettp.Http

/-!
# The assertion engine

Evaluation of a resolved expectation against a response: status, then headers in declaration
order, then the body. Failures are collected up to a configured number; the first one beyond it
marks the report as truncated and stops the evaluation.

The source mutates an `Evaluation`; here every check maps one to the next.
-/

namespace Rettp

/-! ## Expectations -/

/-- What is expected of a header. -/
inductive ResolvedHeaderAssertion where
  | exists_
  | exact (expected : String)
  | contains (expected : String)

/-- What is expected of a text body. -/
inductive ResolvedTextAssertion where
  | exact (expected : String)
  | contains (expected : String)

mutual

/-- Expectations for one JSON field whose comparison value is resolved. -/
structure ResolvedFieldAssertion where
  fieldName : String
  expectedType : ExpectedType
  expectedValue : Option JsonValue
  nested : Option ResolvedObjectAssertion
  capture : Option Capture

/-- An object assertion: its mode and its fields by name. -/
structure ResolvedObjectAssertion where
  mode : ObjectMatchMode
  fields : List (String × ResolvedFieldAssertion)

end

/-- What is expected of a body. -/
inductive ResolvedBodyAssertion where
  | json (assertion : ResolvedObjectAssertion)
  | text (assertion : ResolvedTextAssertion)
  | empty

/-- Expected properties of a response, fully resolved. -/
structure ResolvedResponseExpectation where
  status : Option Nat
  headers : IndexMap String ResolvedHeaderAssertion
  body : Option ResolvedBodyAssertion

/-! ## Limits -/

/-- `DEFAULT_MAX_FAILURES` -/
def defaultMaxFailures : Nat := 100

/-- `DEFAULT_MAX_JSON_DEPTH` -/
def defaultMaxJsonDepth : Nat := 128

/-- `HARD_MAX_JSON_DEPTH`: no configuration goes beyond it. -/
def hardMaxJsonDepth : Nat := 256

/-- Validated limits of assertion evaluation. -/
structure AssertionConfig where
  maxFailures : Nat
  maxJsonDepth : Nat
  failures_pos : 0 < maxFailures
  depth_pos : 0 < maxJsonDepth
  depth_le : maxJsonDepth ≤ hardMaxJsonDepth

/-- Why limits are refused. -/
inductive AssertionConfigError where
  | zeroMaxFailures
  | zeroMaxJsonDepth
  | jsonDepthExceedsHardLimit (requested hardLimit : Nat)
  deriving DecidableEq

/-- Limits of an evaluation, both positive and the depth within the hard limit. -/
def AssertionConfig.new (maxFailures maxJsonDepth : Nat) :
    Except AssertionConfigError AssertionConfig :=
  if h1 : maxFailures = 0 then .error .zeroMaxFailures
  else if h2 : maxJsonDepth = 0 then .error .zeroMaxJsonDepth
  else if h3 : maxJsonDepth > hardMaxJsonDepth then
    .error (.jsonDepthExceedsHardLimit maxJsonDepth hardMaxJsonDepth)
  else .ok ⟨maxFailures, maxJsonDepth, by omega, by omega, by omega⟩

/-- The limits of an engine that nobody configured. -/
def AssertionConfig.default : AssertionConfig :=
  ⟨defaultMaxFailures, defaultMaxJsonDepth, by decide, by decide, by decide⟩

/-! ## Numbers -/

/-- The greatest integer below which every integer is a double. -/
def maxExactFloatInteger : Int := 9007199254740991

/-- A number that is stored as an integer, signed or unsigned. -/
def numberIsInteger (n : JsonNumber) : Bool := n.isI64 || n.isU64

/-- The type that a number is reported as. -/
def numberTypeName (n : JsonNumber) : String := if numberIsInteger n then "integer" else "number"

/-- The value of an integral number, which the source widens to `i128`. -/
def integerValue (n : JsonNumber) : Option Int := n.asI64.or (n.asU64.map Int.ofNat)

/-- An integer as a double, if all integers up to it are doubles. -/
def safeIntegerAsF64 (value : Int) : Option Float :=
  if -maxExactFloatInteger ≤ value ∧ value ≤ maxExactFloatInteger then some (Float.ofInt value)
  else none

/-- Equality of JSON numbers: of integers exactly, of doubles as doubles, and of an integer with a
double only where the integer is one exactly. -/
def numbersEqual (expected actual : JsonNumber) : Bool :=
  match integerValue expected, integerValue actual with
  | some expected, some actual => expected == actual
  | some integer, none => (safeIntegerAsF64 integer).any (· == actual.asF64)
  | none, some integer => (safeIntegerAsF64 integer).any (expected.asF64 == ·)
  | none, none => expected.asF64 == actual.asF64

/-- Under the type `number`, a value with a fraction or an exponent may meet any number. -/
def expectedNumberIsFlexible (value : JsonValue) : Bool :=
  value.asNumber.any fun n => !numberIsInteger n

/-- Whether a value has a declared type. -/
def matchesExpectedType (value : JsonValue) : ExpectedType → Bool
  | .string => value.asStr.isSome
  | .boolean => value.asBool.isSome
  | .integer => value.asNumber.any numberIsInteger
  | .number => value.asNumber.isSome
  | .object => value.asObject.isSome
  | .array => value.asArray.isSome
  | .null => value.isNull

/-! ## Texts of failures -/

variable [Platform]

/-- The length of a preview, in characters. -/
def maxValuePreviewChars : Nat := 256

/-- A quoted string, cut off at the limit. -/
def previewString (value : String) : String :=
  let preview := String.ofList (value.toList.take maxValuePreviewChars)
  if value.toList.length > maxValuePreviewChars then Platform.debugStr preview ++ "…"
  else Platform.debugStr preview

/-- A value in a failure: scalars as they are, containers by their size. -/
def previewJson : JsonValue → String
  | .null => "null"
  | .bool value => toString value
  | .number value => value.display
  | .string value => previewString value
  | .array values => s!"array with {values.length} elements"
  | .object values => s!"object with {values.length} fields"

/-- A key that a path writes after a dot. -/
def isIdentifier (value : String) : Bool :=
  match value.toList with
  | [] => false
  | first :: chars =>
    (first == '_' || isAsciiAlphabetic first) &&
      chars.all fun c => c == '_' || isAsciiAlphanumeric c

/-- The path of a field: with a dot if its name is an identifier, quoted otherwise. -/
def childPath (parent key : String) : String :=
  if isIdentifier key then s!"{parent}.{key}" else s!"{parent}[{Platform.jsonQuote key}]"

/-- The path of an element of an array. -/
def elementPath (parent : String) (index : Nat) : String := s!"{parent}[{index}]"

/-- The kind of a body as it is reported. -/
def responseBodyKind : ResponseBody → String
  | .empty => "empty"
  | .json .. => "JSON"
  | .text _ => "text"
  | .binary _ => "binary"

/-- The value of a header in a failure, or how many there are. -/
def previewHeaderValues (values : List ByteArray) : String :=
  match values with
  | [value] =>
    match String.fromUTF8? value with
    | some value => previewString value
    | none => "non-UTF-8 value"
  | values => s!"{values.length} values"

/-- The failure of a header assertion. -/
def headerFailure (name : String) (assertion : ResolvedHeaderAssertion)
    (actual : Option (List ByteArray)) : AssertionFailure where
  path := s!"headers[{Platform.debugStr name}]"
  kind := .headerMismatch
  expected := some <| match assertion with
    | .exists_ => "header to exist"
    | .exact value => s!"exactly one value equal to {previewString value}"
    | .contains value => s!"a value containing {previewString value}"
  actual := actual.map previewHeaderValues
  message := s!"response header `{name}` did not satisfy its assertion"

/-- The body is of another kind than expected. -/
def invalidBodyFailure (expected actual : String) : AssertionFailure :=
  ⟨"$", .invalidBody, some expected, some actual,
    s!"expected a {expected} response body, received {actual}"⟩

/-- A field has another type than declared. -/
def typeFailure (path expected actual : String) : AssertionFailure :=
  ⟨path, .typeMismatch, some expected, some actual,
    s!"expected type `{expected}`, received `{actual}`"⟩

/-- A value is not the expected one. -/
def valueFailure (path expected actual : String) : AssertionFailure :=
  ⟨path, .valueMismatch, some expected, some actual,
    "actual value does not equal the expected value"⟩

/-- The status is not the expected one. -/
def statusFailure (expected actual : Nat) : AssertionFailure :=
  ⟨"status", .statusMismatch, some (toString expected), some (toString actual),
    s!"expected HTTP status {expected}, received {actual}"⟩

/-- There are bytes where none were expected. -/
def emptyBodyFailure (size : Nat) : AssertionFailure :=
  ⟨"$", .valueMismatch, some "empty body", some s!"{size} bytes",
    "expected an empty response body"⟩

/-- A text body is not UTF-8. -/
def utf8Failure : AssertionFailure :=
  ⟨"$", .invalidBody, some "valid UTF-8 text", some "non-UTF-8 text body",
    "text response body is not valid UTF-8"⟩

/-- A text body does not compare as expected. -/
def textFailure (expected actual comparison : String) : AssertionFailure :=
  ⟨"$", .valueMismatch, some (previewString expected), some (previewString actual),
    s!"expected text response to {comparison} the expected value"⟩

/-- A declared field is missing. -/
def missingFieldFailure (path name : String) (expectedType : ExpectedType) : AssertionFailure :=
  ⟨path, .missingField, some expectedType.asStr, none, s!"required field `{name}` is missing"⟩

/-- A field of an expected value is missing. -/
def missingComparedFailure (path key : String) (expected : JsonValue) : AssertionFailure :=
  ⟨path, .missingField, some (previewJson expected), none,
    s!"required compared field `{key}` is missing"⟩

/-- An exact assertion meets a field that it does not declare. -/
def unexpectedFieldFailure (path name : String) (actual : JsonValue) : AssertionFailure :=
  ⟨path, .unexpectedField, none, some (previewJson actual),
    s!"field `{name}` is not permitted by the exact object assertion"⟩

/-- Arrays of different lengths are not compared any further. -/
def arrayLengthFailure (path : String) (expected actual : Nat) : AssertionFailure :=
  ⟨path, .valueMismatch, some s!"array length {expected}", some s!"array length {actual}",
    "array lengths differ"⟩

/-- The body is nested too deep to be compared here. -/
def depthFailure (path : String) (maxJsonDepth depth : Nat) : AssertionFailure :=
  ⟨path, .invalidBody, some s!"JSON nesting at most {maxJsonDepth} levels",
    some s!"JSON nesting exceeds level {depth}",
    "JSON assertion comparison depth limit exceeded"⟩

/-! ## Evaluation -/

/-- The failures found so far. Only a full list can be truncated. -/
structure Evaluation where
  config : AssertionConfig
  failures : List AssertionFailure
  truncated : Bool
  length_le : failures.length ≤ config.maxFailures
  full : truncated = true → failures.length = config.maxFailures

namespace Evaluation

/-- An evaluation without failures. -/
def new (config : AssertionConfig) : Evaluation :=
  ⟨config, [], false, Nat.zero_le _, by simp⟩

/-- The evaluation stops once a failure was dropped. -/
def shouldStop (ev : Evaluation) : Bool := ev.truncated

/-- Record a failure, or note that it was dropped. -/
def push (ev : Evaluation) (failure : AssertionFailure) : Evaluation :=
  if h : ev.failures.length = ev.config.maxFailures then
    { ev with truncated := true, full := fun _ => h }
  else
    { ev with
      failures := ev.failures ++ [failure]
      length_le := by
        have := ev.length_le
        simp only [List.length_append, List.length_singleton]
        omega
      full := fun ht => absurd (ev.full ht) h }

/-- Compare the status, if one is expected. -/
def assertStatus (ev : Evaluation) (expected : Option Nat) (actual : Nat) : Evaluation :=
  match expected with
  | none => ev
  | some expected => if expected ≠ actual then ev.push (statusFailure expected actual) else ev

/-- Whether the values of a header satisfy its assertion. -/
def headerMatches (assertion : ResolvedHeaderAssertion) (values : Option (List ByteArray)) :
    Bool :=
  match assertion with
  | .exists_ => values.any fun values => !values.isEmpty
  | .exact expected => values.any fun values => decide (values = [expected.toUTF8])
  | .contains expected => values.any fun values => values.any fun value =>
      (String.fromUTF8? value).any fun actual => containsStr actual.toList expected.toList

/-- The loop over the expected headers. -/
def assertHeaders (ev : Evaluation) (expected : IndexMap String ResolvedHeaderAssertion)
    (actual : ResponseHeaders) : Evaluation :=
  match expected with
  | [] => ev
  | (name, assertion) :: expected =>
    let values := actual.get name
    if headerMatches assertion values then ev.assertHeaders expected actual
    else
      let ev := ev.push (headerFailure name assertion values)
      if ev.shouldStop then ev else ev.assertHeaders expected actual

/-- Compare a text body. -/
def assertText (ev : Evaluation) (assertion : ResolvedTextAssertion) (actual : String) :
    Evaluation :=
  match assertion with
  | .exact expected =>
    if actual == expected then ev else ev.push (textFailure expected actual "equal exactly")
  | .contains expected =>
    if containsStr actual.toList expected.toList then ev
    else ev.push (textFailure expected actual "contain")

/-- Check the depth of a container; the flag says whether its contents are looked at. -/
def enterDepth (ev : Evaluation) (path : String) (depth : Nat) : Evaluation × Bool :=
  if depth ≤ ev.config.maxJsonDepth then (ev, true)
  else (ev.push (depthFailure path ev.config.maxJsonDepth depth), false)

/-- Compare two numbers: their types first, then their values. -/
def compareNumbers (ev : Evaluation) (expected actual : JsonNumber) (path : String)
    (flexibleNumber : Bool) : Evaluation :=
  let typeMatches := flexibleNumber || !numberIsInteger expected || numberIsInteger actual
  if !typeMatches then ev.push (typeFailure path "integer" "number")
  else if !numbersEqual expected actual then
    ev.push (valueFailure path expected.display actual.display)
  else ev

mutual

/-- Compare an expected value with the actual one. -/
def compareJson (ev : Evaluation) (expected actual : JsonValue) (path : String) (depth : Nat)
    (flexibleNumber : Bool) : Evaluation :=
  if ev.shouldStop then ev
  else
    match expected with
    | .object expected =>
      match actual.asObject with
      | none => ev.push (typeFailure path "object" (jsonTypeName actual))
      | some actual =>
        match ev.enterDepth path depth with
        | (ev, false) => ev
        | (ev, true) => ev.compareEntries expected actual path depth
    | .array expected =>
      match actual.asArray with
      | none => ev.push (typeFailure path "array" (jsonTypeName actual))
      | some actual =>
        match ev.enterDepth path depth with
        | (ev, false) => ev
        | (ev, true) =>
          let ev := if expected.length ≠ actual.length then
              ev.push (arrayLengthFailure path expected.length actual.length)
            else ev
          if ev.shouldStop then ev else ev.compareItems expected actual path 0 depth
    | .number expected =>
      match actual.asNumber with
      | none => ev.push (typeFailure path (numberTypeName expected) (jsonTypeName actual))
      | some actual => ev.compareNumbers expected actual path flexibleNumber
    | .string expected =>
      match actual.asStr with
      | some actual =>
        if actual == expected then ev
        else ev.push (valueFailure path (previewString expected) (previewString actual))
      | none => ev.push (typeFailure path "string" (jsonTypeName actual))
    | .bool expected =>
      match actual.asBool with
      | some actual =>
        if actual == expected then ev
        else ev.push (valueFailure path (toString expected) (toString actual))
      | none => ev.push (typeFailure path "boolean" (jsonTypeName actual))
    | .null =>
      if !actual.isNull then ev.push (typeFailure path "null" (jsonTypeName actual)) else ev

/-- The loop over the fields of an expected object. -/
def compareEntries (ev : Evaluation) (expected : List (String × JsonValue))
    (actual : SortedMap String JsonValue) (path : String) (depth : Nat) : Evaluation :=
  match expected with
  | [] => ev
  | (key, expectedValue) :: expected =>
    let childPath := childPath path key
    let ev := match IndexMap.get actual key with
      | none => ev.push (missingComparedFailure childPath key expectedValue)
      | some actualValue => ev.compareJson expectedValue actualValue childPath (depth + 1)
          (expectedNumberIsFlexible expectedValue)
    if ev.shouldStop then ev else ev.compareEntries expected actual path depth

/-- The loop over the common positions of two arrays. -/
def compareItems (ev : Evaluation) (expected actual : List JsonValue) (path : String)
    (index depth : Nat) : Evaluation :=
  match expected, actual with
  | expectedValue :: expected, actualValue :: actual =>
    let ev := ev.compareJson expectedValue actualValue (elementPath path index) (depth + 1)
      (expectedNumberIsFlexible expectedValue)
    if ev.shouldStop then ev else ev.compareItems expected actual path (index + 1) depth
  | _, _ => ev

end

/-- The loop over the fields of an object under an exact assertion. -/
def assertDeclared (ev : Evaluation) (fields : List (String × ResolvedFieldAssertion))
    (actual : SortedMap String JsonValue) (path : String) : Evaluation :=
  match actual with
  | [] => ev
  | (name, value) :: actual =>
    if name ∈ IndexMap.keys fields then ev.assertDeclared fields actual path
    else
      let ev := ev.push (unexpectedFieldFailure (childPath path name) name value)
      if ev.shouldStop then ev else ev.assertDeclared fields actual path

mutual

/-- The fields of an object, and for an exact assertion also what else it has. -/
def assertObject (ev : Evaluation) (assertion : ResolvedObjectAssertion)
    (actual : SortedMap String JsonValue) (path : String) (depth : Nat) : Evaluation :=
  match assertion with
  | ⟨mode, fields⟩ =>
    match ev.enterDepth path depth with
    | (ev, false) => ev
    | (ev, true) =>
      let ev := ev.assertFields fields actual path depth
      if ev.shouldStop then ev
      else
        match mode with
        | .exact => ev.assertDeclared fields actual path
        | .partially => ev

/-- The loop over the declared fields. -/
def assertFields (ev : Evaluation) (fields : List (String × ResolvedFieldAssertion))
    (actual : SortedMap String JsonValue) (path : String) (depth : Nat) : Evaluation :=
  match fields with
  | [] => ev
  | (declaredName, field) :: fields =>
    let fieldPath := childPath path declaredName
    let ev := match IndexMap.get actual declaredName with
      | none => ev.push (missingFieldFailure fieldPath declaredName field.expectedType)
      | some actualValue => ev.assertField field actualValue fieldPath depth
    if ev.shouldStop then ev else ev.assertFields fields actual path depth

/-- One field: its type, its value, its nested fields. -/
def assertField (ev : Evaluation) (assertion : ResolvedFieldAssertion) (actual : JsonValue)
    (path : String) (depth : Nat) : Evaluation :=
  match assertion with
  | ⟨_, expectedType, expectedValue, nested, _⟩ =>
    if !matchesExpectedType actual expectedType then
      ev.push (typeFailure path expectedType.asStr (jsonTypeName actual))
    else
      let ev := match expectedValue with
        | some expected =>
          ev.compareJson expected actual path (depth + 1) (expectedType == .number)
        | none => ev
      if expectedValue.isSome && ev.shouldStop then ev
      else
        match nested with
        | none => ev
        | some nested =>
          match actual.asObject with
          | none => ev
          | some actual => ev.assertObject nested actual path (depth + 1)

end

/-- Compare the body, if one is expected. -/
def assertBody (ev : Evaluation) (expected : Option ResolvedBodyAssertion)
    (actual : HttpResponse) : Evaluation :=
  match expected with
  | none => ev
  | some .empty =>
    if actual.rawBody.size ≠ 0 then ev.push (emptyBodyFailure actual.rawBody.size) else ev
  | some (.text assertion) =>
    match actual.body with
    | .text bytes =>
      match String.fromUTF8? bytes with
      | none => ev.push utf8Failure
      | some text => ev.assertText assertion text
    | body => ev.push (invalidBodyFailure "text" (responseBodyKind body))
  | some (.json assertion) =>
    match actual.body with
    | .json _ value =>
      match value.value.asObject with
      | none => ev.push (typeFailure "$" "object" (jsonTypeName value.value))
      | some object => ev.assertObject assertion object "$" 0
    | body => ev.push (invalidBodyFailure "JSON" (responseBodyKind body))

end Evaluation

/-- The outcome of an evaluation. -/
structure AssertionReport where
  failures : List AssertionFailure
  truncated : Bool

/-- No failure was recorded. -/
def AssertionReport.isSuccess (report : AssertionReport) : Bool := report.failures.isEmpty

/-- Evaluate every requested assertion. -/
def evaluate (config : AssertionConfig) (expected : ResolvedResponseExpectation)
    (actual : HttpResponse) : AssertionReport :=
  let ev := (Evaluation.new config).assertStatus expected.status actual.status
  let ev := if ev.shouldStop then ev else ev.assertHeaders expected.headers actual.headers
  let ev := if ev.shouldStop then ev else ev.assertBody expected.body actual
  ⟨ev.failures, ev.truncated⟩

end Rettp
