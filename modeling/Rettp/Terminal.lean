import Rettp.Report

/-!
# The terminal and JSON reporters

The text of a report for people, with or without colors, and its serialization. A report has
only texts, numbers and lists, so its serialization cannot fail.
-/

namespace Rettp

/-- The word for a status on the terminal. -/
def ReportStatus.label : ReportStatus → String
  | .passed => "PASS"
  | .failed => "FAIL"
  | .skipped => "SKIP"
  | .aborted => "ABORT"

/-- The word for a status in a file. -/
def ReportStatus.asStr : ReportStatus → String
  | .passed => "passed"
  | .failed => "failed"
  | .skipped => "skipped"
  | .aborted => "aborted"

/-- The word for a kind of block. -/
def ReportBlockKind.asStr : ReportBlockKind → String
  | .core => "core"
  | .pipeline => "pipeline"
  | .test => "test"

/-- Whether the terminal shows colors. -/
inductive ColorMode where
  | plain | ansi
  deriving DecidableEq

namespace Terminal

/-! ## Terminal -/

/-- The sequence that ends a color. -/
def ansiReset : String := "\x1b[0m"

/-- The color of what passed. -/
def ansiGreen : String := "\x1b[32m"

/-- The color of what failed. -/
def ansiRed : String := "\x1b[31m"

/-- The color of what was skipped. -/
def ansiGray : String := "\x1b[90m"

/-- `char::escape_default` on a control character. -/
def escapeDefault (c : Char) : List Char :=
  if c = '\t' then ['\\', 't']
  else if c = '\r' then ['\\', 'r']
  else if c = '\n' then ['\\', 'n']
  else "\\u\x7b".toList ++ Nat.toDigits 16 c.toNat ++ "\x7d".toList

/-- A text in which control characters are written out. -/
def escapeControlCharacters (value : String) : String :=
  String.ofList (value.toList.flatMap fun c => if isControl c then escapeDefault c else [c])

/-- The status of a test, with its color. -/
def status (color : ColorMode) (status : ReportStatus) : String :=
  let label := s!"[{status.label}]"
  match color with
  | .plain => label
  | .ansi =>
    let color := match status with
      | .passed => ansiGreen
      | .failed | .aborted => ansiRed
      | .skipped => ansiGray
    color ++ label ++ ansiReset

/-- The lines of a failure: where, what and why, and the values if there are any. -/
def failureLines (failure : ReportAssertionFailure) : List String :=
  s!"      - {escapeControlCharacters failure.path} [{failure.kind.asStr}]: {escapeControlCharacters failure.message}" ::
    ((failure.expected.map fun expected =>
        s!"        expected: {escapeControlCharacters expected}").toList ++
      (failure.actual.map fun actual =>
        s!"        actual: {escapeControlCharacters actual}").toList)

variable [Platform]

/-- The lines of a test. -/
def renderTest (color : ColorMode) (test : ReportTest) : List String :=
  s!"    {status color test.status} {Platform.debugStr test.name} ({test.durationMs} ms)" ::
    (test.failures.flatMap failureLines ++
      (test.error.map fun error =>
        s!"      error [{error.kind.asStr}]: {escapeControlCharacters error.message}").toList)

/-- The lines of a block. -/
def renderBlock (color : ColorMode) (block : ReportBlock) : List String :=
  let name := match block.name with
    | some name => s!"{block.kind.asStr} {Platform.debugStr name}"
    | none => block.kind.asStr
  s!"  {status color block.status} {name} ({block.tests.length} tests, {block.durationMs} ms)" ::
    block.tests.flatMap (renderTest color)

/-- The lines of a report. -/
def renderLines (color : ColorMode) (report : RunReport) : List String :=
  let suiteName := report.name.getD "unnamed suite"
  let summary := report.summary
  [s!"Rettp: {Platform.debugStr report.source}",
    s!"{status color report.status} {Platform.debugStr suiteName} ({report.durationMs} ms)"] ++
    report.blocks.flatMap (renderBlock color) ++
    [s!"Summary: {summary.total} total, {summary.passed} passed, {summary.failed} failed, {summary.skipped} skipped, {summary.aborted} aborted"] ++
    (report.error.map fun error =>
      s!"Suite error [{error.kind.asStr}]: {escapeControlCharacters error.message}").toList

/-- The text, every line ended by a line feed. -/
def render (color : ColorMode) (report : RunReport) : String :=
  String.join ((renderLines color report).map (· ++ "\n"))

end Terminal

/-! ## JSON -/

namespace JsonReport

open Serialized

/-- The derived `Serialize` of a failure. -/
def failure (f : ReportAssertionFailure) : Serialized :=
  struct [("path", string f.path), ("kind", string f.kind.asStr),
    ("expected", optional string f.expected), ("actual", optional string f.actual),
    ("message", string f.message)]

/-- The derived `Serialize` of an error. -/
def error (e : ReportExecutionError) : Serialized :=
  struct [("kind", string e.kind.asStr), ("message", string e.message)]

/-- The derived `Serialize` of a test. -/
def test (t : ReportTest) : Serialized :=
  struct [("name", string t.name), ("status", string t.status.asStr),
    ("duration_ms", number t.durationMs), ("failures", array (t.failures.map failure)),
    ("error", optional error t.error)]

/-- The derived `Serialize` of a block. -/
def block (b : ReportBlock) : Serialized :=
  struct [("kind", string b.kind.asStr), ("name", optional string b.name),
    ("status", string b.status.asStr), ("duration_ms", number b.durationMs),
    ("tests", array (b.tests.map test))]

/-- The derived `Serialize` of a summary. -/
def summary (s : ReportSummary) : Serialized :=
  struct [("total", number s.total), ("passed", number s.passed), ("failed", number s.failed),
    ("skipped", number s.skipped), ("aborted", number s.aborted)]

/-- The derived `Serialize` of a report. -/
def report (r : RunReport) : Serialized :=
  struct [("schema_version", number r.schemaVersion), ("source", string r.source),
    ("name", optional string r.name), ("status", string r.status.asStr),
    ("duration_ms", number r.durationMs), ("summary", summary r.summary),
    ("blocks", array (r.blocks.map block)), ("error", optional error r.error)]

/-- The published text. -/
def render [Platform] (r : RunReport) : String := Platform.jsonPretty (report r) ++ "\n"

end JsonReport

end Rettp
