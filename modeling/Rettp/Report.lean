import Rettp.Domain

/-!
# The report model

What reporters may show of a run: the results with assertion previews redacted unless they are
known to be harmless, and with fixed texts in place of error messages.

Counts and durations are `u64` in the source and added with saturation; a list in memory has
fewer than `2 ^ 64` elements, so the counts here are plain natural numbers.
-/

namespace Rettp

/-- `REPORT_SCHEMA_VERSION` -/
def reportSchemaVersion : Nat := 1

/-- What stands for a value that is not shown. -/
def redacted : String := "<redacted>"

/-- A status in a report. -/
inductive ReportStatus where
  | passed | failed | skipped | aborted
  deriving DecidableEq

/-- The status of a result, one to one. -/
def ReportStatus.ofExecution : ExecutionStatus → ReportStatus
  | .passed => .passed
  | .failed => .failed
  | .skipped => .skipped
  | .aborted => .aborted

/-! ## Assertion failures -/

/-- The kind of a failure in a report. -/
inductive ReportFailureKind where
  | missingField | typeMismatch | valueMismatch | unexpectedField | statusMismatch
  | headerMismatch | invalidBody
  deriving DecidableEq

namespace ReportFailureKind

/-- The word for a kind of failure. -/
def asStr : ReportFailureKind → String
  | .missingField => "missing_field"
  | .typeMismatch => "type_mismatch"
  | .valueMismatch => "value_mismatch"
  | .unexpectedField => "unexpected_field"
  | .statusMismatch => "status_mismatch"
  | .headerMismatch => "header_mismatch"
  | .invalidBody => "invalid_body"

/-- A message that shows no value. -/
def safeMessage : ReportFailureKind → String
  | .missingField => "a required field is missing"
  | .typeMismatch => "the actual value has an incompatible type"
  | .valueMismatch => "the actual value does not equal the expected value"
  | .unexpectedField => "an undeclared field was present during exact matching"
  | .statusMismatch => "the HTTP response status did not match"
  | .headerMismatch => "a response header assertion failed"
  | .invalidBody => "the response body has an incompatible representation"

/-- The kind of a failure, one to one. -/
def ofAssertion : AssertionFailureKind → ReportFailureKind
  | .missingField => .missingField
  | .typeMismatch => .typeMismatch
  | .valueMismatch => .valueMismatch
  | .unexpectedField => .unexpectedField
  | .statusMismatch => .statusMismatch
  | .headerMismatch => .headerMismatch
  | .invalidBody => .invalidBody

end ReportFailureKind

/-- A failure without values that should not be shown. -/
structure ReportAssertionFailure where
  path : String
  kind : ReportFailureKind
  expected : Option String
  actual : Option String
  message : String
  deriving DecidableEq

/-- The value of a decimal digit. -/
def digitValue (c : Char) : Option Nat :=
  if '0' ≤ c ∧ c ≤ '9' then some (c.toNat - '0'.toNat) else none

/-- `str::parse::<u16>`: an optional plus sign and digits whose value fits. -/
def parseU16 (value : String) : Option Nat :=
  let digits := match value.toList with
    | '+' :: digits => digits
    | digits => digits
  if digits.isEmpty then none
  else do
    let n ← digits.foldlM (fun n c => (digitValue c).map (n * 10 + ·)) 0
    if n ≤ 65535 then some n else none

/-- A status, or the name of a type or of a kind of body. -/
def previewIsSafe (value : String) : ReportFailureKind → Bool
  | .statusMismatch => (parseU16 value).any fun status => 100 ≤ status && status ≤ 599
  | .typeMismatch | .invalidBody =>
    value ∈ ["empty", "JSON", "text", "binary", "object", "array", "string", "boolean", "integer",
      "number", "null", "valid UTF-8 text", "non-UTF-8 text body"]
  | .missingField | .valueMismatch | .unexpectedField | .headerMismatch => false

/-- A preview is shown if it is safe. -/
def sanitizePreview (value : Option String) (kind : ReportFailureKind) : Option String :=
  value.map fun value => if previewIsSafe value kind then value else redacted

/-- A failure with a safe message and safe previews; its path stays. -/
def ReportAssertionFailure.ofFailure (failure : AssertionFailure) : ReportAssertionFailure :=
  let kind := ReportFailureKind.ofAssertion failure.kind
  ⟨failure.path, kind, sanitizePreview failure.expected kind, sanitizePreview failure.actual kind,
    kind.safeMessage⟩

/-! ## Execution errors -/

/-- The kind of an error in a report. -/
inductive ReportErrorKind where
  | invalidRequest | connection | timeout | invalidResponse | variableResolution
  | dependencyFailed | internal
  deriving DecidableEq

namespace ReportErrorKind

/-- The word for a kind of error. -/
def asStr : ReportErrorKind → String
  | .invalidRequest => "invalid_request"
  | .connection => "connection"
  | .timeout => "timeout"
  | .invalidResponse => "invalid_response"
  | .variableResolution => "variable_resolution"
  | .dependencyFailed => "dependency_failed"
  | .internal => "internal"

/-- A message that shows no value. -/
def safeMessage : ReportErrorKind → String
  | .invalidRequest => "the HTTP request is invalid"
  | .connection => "the HTTP connection failed"
  | .timeout => "the HTTP request timed out"
  | .invalidResponse => "the HTTP response is invalid"
  | .variableResolution => "runtime variable resolution failed"
  | .dependencyFailed => "execution was skipped because a dependency failed"
  | .internal => "an internal execution invariant failed"

/-- The kind of an error, one to one. -/
def ofExecution : ExecutionErrorKind → ReportErrorKind
  | .invalidRequest => .invalidRequest
  | .connection => .connection
  | .timeout => .timeout
  | .invalidResponse => .invalidResponse
  | .variableResolution => .variableResolution
  | .dependencyFailed => .dependencyFailed
  | .internal => .internal

end ReportErrorKind

/-- An error with a safe message. -/
structure ReportExecutionError where
  kind : ReportErrorKind
  message : String
  deriving DecidableEq

/-- An error without its own message. -/
def ReportExecutionError.ofInfo (info : ExecutionErrorInfo) : ReportExecutionError :=
  let kind := ReportErrorKind.ofExecution info.kind
  ⟨kind, kind.safeMessage⟩

/-! ## Tests, blocks and runs -/

/-- A test in a report. -/
structure ReportTest where
  name : String
  status : ReportStatus
  durationMs : Nat
  failures : List ReportAssertionFailure
  error : Option ReportExecutionError
  deriving DecidableEq

/-- The result of a test, without what should not be shown. -/
def ReportTest.ofResult (r : TestResult) : ReportTest :=
  ⟨r.name, .ofExecution r.status, r.durationMs, r.failures.map .ofFailure, r.error.map .ofInfo⟩

/-- The kind of a block in a report. -/
inductive ReportBlockKind where
  | core | pipeline | test
  deriving DecidableEq

/-- A block in a report. -/
structure ReportBlock where
  kind : ReportBlockKind
  name : Option String
  status : ReportStatus
  durationMs : Nat
  tests : List ReportTest
  deriving DecidableEq

/-- The result of a block, test by test. -/
def ReportBlock.ofResult : BlockResult → ReportBlock
  | .core status durationMs tests =>
    ⟨.core, none, .ofExecution status, durationMs, tests.map .ofResult⟩
  | .pipeline name status durationMs tests =>
    ⟨.pipeline, some name, .ofExecution status, durationMs, tests.map .ofResult⟩
  | .test r => ⟨.test, some r.name, .ofExecution r.status, r.durationMs, [.ofResult r]⟩

/-- Numbers of tests by status. -/
structure ReportSummary where
  total : Nat
  passed : Nat
  failed : Nat
  skipped : Nat
  aborted : Nat
  deriving DecidableEq

/-- Count one more test. -/
def ReportSummary.add (s : ReportSummary) (t : ReportTest) : ReportSummary :=
  let s := { s with total := s.total + 1 }
  match t.status with
  | .passed => { s with passed := s.passed + 1 }
  | .failed => { s with failed := s.failed + 1 }
  | .skipped => { s with skipped := s.skipped + 1 }
  | .aborted => { s with aborted := s.aborted + 1 }

/-- How many tests have each status. -/
def ReportSummary.ofBlocks (blocks : List ReportBlock) : ReportSummary :=
  (blocks.flatMap (·.tests)).foldl .add ⟨0, 0, 0, 0, 0⟩

/-- The report of a run. -/
structure RunReport where
  schemaVersion : Nat
  source : String
  name : Option String
  status : ReportStatus
  durationMs : Nat
  summary : ReportSummary
  blocks : List ReportBlock
  error : Option ReportExecutionError
  deriving DecidableEq

/-- The report of a result. -/
def RunReport.fromSuiteResult (source : String) (result : SuiteResult) : RunReport :=
  let blocks := result.blocks.map .ofResult
  ⟨reportSchemaVersion, source, result.name, .ofExecution result.status, result.durationMs,
    .ofBlocks blocks, blocks, result.error.map .ofInfo⟩

end Rettp
