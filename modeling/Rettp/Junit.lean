import Rettp.Report

/-!
# The JUnit reporter

Renders a report as a JUnit document: one `testsuite` element for each block in order and, for
a suite-level error, a synthetic one. The document is written line by line.
-/

namespace Rettp

namespace Junit

/-! ## Texts -/

/-- The characters that XML 1.0 allows. -/
def isXmlCharacter (c : Char) : Bool :=
  let n := c.toNat
  n == 0x9 || n == 0xa || n == 0xd || (0x20 ≤ n && n ≤ 0xd7ff) || (0xe000 ≤ n && n ≤ 0xfffd) ||
    (0x10000 ≤ n && n ≤ 0x10ffff)

/-- A character in a text or in an attribute value; what XML does not allow is replaced. -/
def escapeCharacter (inAttribute : Bool) (c : Char) : List Char :=
  if c = '&' then "&amp;".toList
  else if c = '<' then "&lt;".toList
  else if c = '>' then "&gt;".toList
  else if c = '"' ∧ inAttribute then "&quot;".toList
  else if c = '\'' ∧ inAttribute then "&apos;".toList
  else if isXmlCharacter c then [c]
  else [Char.ofNat 0xfffd]

/-- The characters of a text one by one. -/
def escape (value : String) (inAttribute : Bool) : String :=
  String.ofList (value.toList.flatMap (escapeCharacter inAttribute))

/-- A text between the quotes of an attribute. -/
def escapeAttribute (value : String) : String := escape value true

/-- A text between tags. -/
def escapeText (value : String) : String := escape value false

/-- Milliseconds as seconds with three decimals. -/
def seconds (durationMs : Nat) : String :=
  let fraction := toString (durationMs % 1000)
  let padding := String.ofList (List.replicate (3 - fraction.length) '0')
  s!"{durationMs / 1000}.{padding}{fraction}"

/-! ## Counts -/

/-- The counts of a suite of tests. -/
structure Counts where
  tests : Nat
  failures : Nat
  errors : Nat
  skipped : Nat
  deriving DecidableEq

/-- Nothing was counted. -/
def Counts.zero : Counts := ⟨0, 0, 0, 0⟩

/-- Counts of two suites together. -/
def Counts.add (c d : Counts) : Counts :=
  ⟨c.tests + d.tests, c.failures + d.failures, c.errors + d.errors, c.skipped + d.skipped⟩

theorem Counts.add_zero (c : Counts) : c.add .zero = c := rfl

theorem Counts.zero_add (c : Counts) : Counts.zero.add c = c := by
  simp [Counts.add, Counts.zero]

theorem Counts.add_assoc (c d e : Counts) : (c.add d).add e = c.add (d.add e) := by
  simp [Counts.add, Nat.add_assoc]

/-- Whether a test is written as an assertion failure rather than an error. -/
def isAssertionFailure (test : ReportTest) : Bool := test.error.isNone && !test.failures.isEmpty

/-- Count one more test. -/
def Counts.addTest (c : Counts) (test : ReportTest) : Counts :=
  let c := { c with tests := c.tests + 1 }
  match test.status with
  | .passed => c
  | .skipped => { c with skipped := c.skipped + 1 }
  | .failed =>
    if isAssertionFailure test then { c with failures := c.failures + 1 }
    else { c with errors := c.errors + 1 }
  | .aborted => { c with errors := c.errors + 1 }

/-- The counts of the tests of a block. -/
def blockCounts (block : ReportBlock) : Counts := block.tests.foldl .addTest .zero

/-- The counts of all blocks. -/
def reportCounts (report : RunReport) : Counts :=
  (report.blocks.map blockCounts).foldl .add .zero

/-! ## Elements -/

/-- The opening tag of a `testsuite`. -/
def openSuite (name : String) (counts : Counts) (time : String) : String :=
  s!"  <testsuite name=\"{escapeAttribute name}\" tests=\"{counts.tests}\" failures=\"{counts.failures}\" errors=\"{counts.errors}\" skipped=\"{counts.skipped}\" time=\"{time}\">"

/-- The end of a suite. -/
def closeSuite : String := "  </testsuite>"

/-- An error, with its kind and its message. -/
def errorLine (kind message : String) : String :=
  s!"      <error type=\"{kind}\" message=\"{escapeAttribute message}\" />"

/-- The lines of a failure: where, what and why, and the values if there are any. -/
def failureLines (failure : ReportAssertionFailure) : List String :=
  s!"{escapeText failure.path} [{failure.kind.asStr}]: {escapeText failure.message}" ::
    ((failure.expected.map fun expected => s!"expected: {escapeText expected}").toList ++
      (failure.actual.map fun actual => s!"actual: {escapeText actual}").toList)

/-- What a test that did not pass has inside its `testcase`. -/
def outcomeLines (test : ReportTest) : List String :=
  let error :=
    match test.error with
    | some error => [errorLine (escapeAttribute error.kind.asStr) error.message]
    | none => [errorLine (escapeAttribute "internal") "test execution failed"]
  match test.status with
  | .passed => []
  | .skipped =>
    let message := match test.error with
      | some error => error.message
      | none => "dependency failed"
    [s!"      <skipped message=\"{escapeAttribute message}\" />"]
  | .failed =>
    if isAssertionFailure test then
      s!"      <failure type=\"assertion\" message=\"{test.failures.length} assertion failure(s)\">" ::
        (test.failures.flatMap failureLines ++ ["      </failure>"])
    else error
  | .aborted => error

/-- The lines of a test. -/
def renderTest (className : String) (test : ReportTest) : List String :=
  s!"    <testcase classname=\"{escapeAttribute className}\" name=\"{escapeAttribute test.name}\" time=\"{seconds test.durationMs}\">" ::
    (outcomeLines test ++ ["    </testcase>"])

/-- The name of the suite of a block. -/
def suiteName (block : ReportBlock) : String :=
  match block.kind with
  | .core => "core"
  | .pipeline => "pipeline:" ++ block.name.getD "unnamed"
  | .test => "test:" ++ block.name.getD "unnamed"

/-- The lines of a block. -/
def renderBlock (block : ReportBlock) : List String :=
  openSuite (suiteName block) (blockCounts block) (seconds block.durationMs) ::
    (block.tests.flatMap (renderTest (suiteName block)) ++ [closeSuite])

/-- The synthetic element of a suite-level error. -/
def renderError (error : ReportExecutionError) : List String :=
  ["  <testsuite name=\"rettp\" tests=\"1\" failures=\"0\" errors=\"1\" skipped=\"0\" time=\"0.000\">",
    "    <testcase name=\"suite\" time=\"0.000\">",
    errorLine error.kind.asStr error.message,
    "    </testcase>",
    closeSuite]

/-- The start of the document, with the counts of the whole run. -/
def openRoot (name : String) (counts : Counts) (time : String) : String :=
  s!"<testsuites name=\"{escapeAttribute name}\" tests=\"{counts.tests}\" failures=\"{counts.failures}\" errors=\"{counts.errors}\" skipped=\"{counts.skipped}\" time=\"{time}\">"

/-- A run that failed as a whole counts as one more error. -/
def synthetic (report : RunReport) : Nat := if report.error.isSome then 1 else 0

/-- The counts of the root element. -/
def rootCounts (report : RunReport) : Counts :=
  let counts := reportCounts report
  ⟨counts.tests + synthetic report, counts.failures, counts.errors + synthetic report,
    counts.skipped⟩

/-- The lines of the document. -/
def renderLines (report : RunReport) : List String :=
  ["<?xml version=\"1.0\" encoding=\"UTF-8\"?>",
    openRoot (report.name.getD report.source) (rootCounts report) (seconds report.durationMs)] ++
    report.blocks.flatMap renderBlock ++
    (match report.error with
      | some error => renderError error
      | none => []) ++
    ["</testsuites>"]

/-- The document, every line ended by a line feed. -/
def render (report : RunReport) : String :=
  String.join ((renderLines report).map (· ++ "\n"))

end Junit

end Rettp
