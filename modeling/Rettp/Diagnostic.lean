import Rettp.Check
import Rettp.Location

/-!
# The text of diagnostics

Every diagnostic of a check names its place in the source, its phase and the rule that is violated.
Names stand in it as they were written, so it is one line only if they are.
-/

namespace Rettp

/-- What is doubled, in words. -/
def DuplicateKind.display : DuplicateKind → String
  | .coreBlock => "core block"
  | .request => "request declaration"
  | .expectation => "expectation declaration"
  | .requestHeaders => "request headers section"
  | .requestQuery => "request query section"
  | .requestBody => "request body section"
  | .responseStatus => "response status section"
  | .responseHeaders => "response headers section"
  | .responseBody => "response body section"
  | .requestHeader => "request header"
  | .responseHeader => "response header"
  | .queryParameter => "query parameter"
  | .objectKey => "object key"
  | .assertionField => "assertion field"

/-- The message of a lexical error. -/
def LexerErrorKind.display : LexerErrorKind → String
  | .unexpectedCharacter character => s!"unexpected character `{character}`"
  | .unterminatedString => "unterminated string literal"
  | .invalidEscapeSequence character => s!"invalid escape sequence `\\{character}`"
  | .invalidInteger value => s!"invalid integer literal `{value}`"
  | .invalidNumber value => s!"invalid number literal `{value}`"

/-- The message of a syntax error. -/
def ParserErrorKind.display : ParserErrorKind → String
  | .unexpectedToken expected found => s!"expected {expected}, found {found}"
  | .unexpectedEof expected => s!"expected {expected}, found end of input"
  | .emptySuite => "a suite must contain at least one block"
  | .duplicateCore => "a suite may contain at most one core block"
  | .emptyPipeline => "a pipeline must contain at least one test"
  | .missingRequest => "a test must contain at least one request"
  | .missingExpectation => "a test must contain at least one expectation"
  | .requestAfterExpectation => "request declarations must appear before expectations"
  | .captureRequiresType => "a capture requires an explicit assertion type"
  | .missingFieldAssertion =>
    "a field must contain a type assertion, value comparison, or nested object assertion"
  | .nestingLimitExceeded limit => s!"maximum parser nesting depth of {limit} exceeded"

/-- The message of a violated rule. Names stand in it as they were written. -/
def ValidationErrorKind.display : ValidationErrorKind → String
  | .duplicate kind => s!"duplicate {kind.display}"
  | .duplicateNamed kind name => s!"duplicate {kind.display} `{name}`"
  | .emptyName kind => s!"{kind.display} name cannot be empty"
  | .emptyPipelineName => "pipeline name cannot be empty"
  | .emptyTestName => "test name cannot be empty"
  | .emptyPipeline => "a pipeline must contain at least one test"
  | .invalidRequestCount => "a test must contain exactly one request"
  | .invalidExpectationCount => "a test must contain exactly one expectation"
  | .emptyRequestPath => "request path cannot be empty"
  | .invalidHttpStatus status => s!"HTTP status code {status} is outside 100..=599"
  | .requestBodyNotAllowed method => s!"HTTP method {method} does not allow a request body"
  | .typeValueMismatch field expected actual =>
    s!"field `{field}` expects {expected}, but comparison value is {actual}"
  | .missingFieldAssertion field => s!"field `{field}` has no type, comparison, or nested assertion"
  | .captureRequiresType name => s!"capture `{name}` requires an explicit assertion type"
  | .nestedAssertionRequiresObject field =>
    s!"nested assertion for `{field}` requires the object type"
  | .nestedAssertionMustBePartial field =>
    s!"nested assertion for `{field}` must use partial matching"
  | .invalidVariableName name => s!"invalid variable name `{name}`"
  | .undefinedVariable name => s!"undefined variable `{name}`"
  | .duplicateVariable name => s!"variable `{name}` is already defined in this scope"
  | .emptyInterpolation => "empty interpolation placeholder"
  | .unterminatedInterpolation => "unterminated interpolation placeholder"
  | .nestingLimitExceeded limit => s!"maximum semantic nesting depth of {limit} exceeded"

/-- The message of a diagnostic of any phase. -/
def CheckDiagnosticKind.display : CheckDiagnosticKind → String
  | .lexical kind => kind.display
  | .syntactic kind => kind.display
  | .semantic kind => kind.display

/-- Some diagnostic was found. -/
def CheckReport.hasErrors (report : CheckReport) : Bool := !report.diagnostics.isEmpty

/-- The phase that found a diagnostic. -/
def CheckDiagnostic.phase (diagnostic : CheckDiagnostic) : CheckPhase := diagnostic.kind.phase

/-- The line that `diagnostic::render` writes; `none` when the location panics. -/
def diagnosticLine (source : SourceText) (diagnostic : CheckDiagnostic) : Option String :=
  (source.location diagnostic.span.start).map fun location =>
    s!"{source.name}:{location.line}:{location.column}: error[{diagnostic.phase.asStr}]: {diagnostic.kind.display}"

theorem diagnosticLine_isSome (source : SourceText) (diagnostic : CheckDiagnostic) :
    (diagnosticLine source diagnostic).isSome = true := by
  rw [diagnosticLine, Option.isSome_map, SourceText.location_eq]
  rfl

end Rettp
