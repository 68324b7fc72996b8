import Rettp.Placeholder
import Rettp.AssertionSpec
import Rettp.Resolver
import Rettp.Capture
import Rettp.Isolation
import Rettp.Verdicts
import Rettp.HttpConfig
import Rettp.Acceptance
import Rettp.Restore
import Rettp.LexerLines
import Rettp.LexerRendering
import Rettp.JunitReading
import Rettp.Redaction
import Rettp.ComparisonTypes
import Rettp.Soundness
import Rettp.SharedCaptures
import Rettp.Transaction
import Rettp.Location
import Rettp.FailurePath
import Rettp.TerminalText
import Rettp.Dotenv
import Rettp.BlockOrder
import Rettp.Resynchronization
import Rettp.TrailingEof
import Rettp.DepthLimits
import Rettp.ParserSpans
import Rettp.SpanNesting
import Rettp.NumberEquality
import Rettp.Noninterference
import Rettp.AdapterSpec
import Rettp.ExecutionMeaning
import Rettp.Deviations
import Rettp.VariableSources
import Rettp.ResolvedLevels
import Rettp.Layout
import Rettp.CheckedRequests
import Rettp.JsonReport
import Rettp.AsyncExecution
import Rettp.CheckCommand
import Rettp.Extension
import Rettp.Preparation
import Rettp.ReportFiles
