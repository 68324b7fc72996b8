import Rettp.Resolver
import Rettp.Capture
import Rettp.FailFast

/-!
# The executor

Sequential execution of a suite: the core first, then the other blocks in source order, each
with its own copy of the variables that the core left behind.

The HTTP client and the clock are parameters. A client answers a request knowing all requests
sent before it, so that any server state is covered; the clock is a sequence of readings. The
`World` counts readings, holds the requests sent, and keeps a record that the source does not:
every test that is reached, with the variables in scope at that moment.
-/

namespace Rettp

variable [Platform]

/-! ## The surroundings of a run -/

/-- An HTTP client: the reply to a request after a history of requests. -/
abbrev HttpClient := List ResolvedHttpRequest → ResolvedHttpRequest → Except HttpError HttpResponse

/-- The readings of the clock, in nanoseconds. -/
abbrev Clock := Nat → Nat

/-- A test that was reached, with the variables in scope. -/
structure Attempt where
  test : TestCase
  store : VariableStore

/-- What an execution leaves outside: the requests sent, and how often the clock was read. -/
structure World where
  sent : List ResolvedHttpRequest
  readings : Nat
  attempts : List Attempt

/-- Nothing has happened yet. -/
def World.initial : World := ⟨[], 0, []⟩

/-- `u64::MAX` -/
def u64Max : Nat := 18446744073709551615

/-- `Instant::now` -/
def World.now (clock : Clock) (w : World) : Nat × World :=
  (clock w.readings, { w with readings := w.readings + 1 })

/-- The saturating number of milliseconds since a reading. -/
def World.elapsedMs (clock : Clock) (started : Nat) (w : World) : Nat × World :=
  let (now, w) := w.now clock
  (min ((now - started) / 1000000) u64Max, w)

/-- Send a request. -/
def World.send (client : HttpClient) (request : ResolvedHttpRequest) (w : World) :
    Except HttpError HttpResponse × World :=
  (client w.sent request, { w with sent := w.sent ++ [request] })

/-- Record that a test is reached. -/
def World.reach (test : TestCase) (store : VariableStore) (w : World) : World :=
  { w with attempts := w.attempts ++ [⟨test, store⟩] }

/-- The limits of resolution and of assertion evaluation. -/
structure ExecutionEngine where
  resolver : RuntimeConfig
  assertions : AssertionConfig

/-- An engine with the default limits. -/
def ExecutionEngine.default : ExecutionEngine := ⟨RuntimeConfig.default, AssertionConfig.default⟩

/-! ## One test -/

/-- A test whose request or expectation cannot be resolved. -/
def failedWithError (test : TestCase) (durationMs : Nat) (kind : ExecutionErrorKind)
    (error : RuntimeError) : TestResult :=
  TestResult.failed test.name durationMs [] (some ⟨kind, error.display⟩)

/-- A test whose captures cannot be extracted. -/
def abortedCapture (test : TestCase) (durationMs : Nat) (error : RuntimeError) : TestResult :=
  TestResult.aborted test.name durationMs error.display

/-- The error of a test whose request was not answered. -/
def httpErrorInfo (error : HttpError) : ExecutionErrorInfo :=
  let kind := match error with
    | .invalidBaseUrl _ => .internal
    | .invalidRequest _ => .invalidRequest
    | .connection _ => .connection
    | .timeout _ => .timeout
    | .invalidResponse _ | .bodyTooLarge _ => .invalidResponse
  ⟨kind, error.display⟩

section Engine

variable (engine : ExecutionEngine) (client : HttpClient) (clock : Clock)

/-- Run one test: resolve, send, evaluate, commit. The store changes only if the test passes. -/
def executeTest (test : TestCase) (store : VariableStore) (w : World) :
    TestResult × VariableStore × World :=
  let w := w.reach test store
  let (started, w) := w.now clock
  match RuntimeResolver.resolveRequest engine.resolver store test.request with
  | .error error =>
    let (ms, w) := w.elapsedMs clock started
    (failedWithError test ms .variableResolution error, store, w)
  | .ok request =>
    match RuntimeResolver.resolveExpectation engine.resolver store test.expectation with
    | .error error =>
      let (ms, w) := w.elapsedMs clock started
      (failedWithError test ms .variableResolution error, store, w)
    | .ok expectation =>
      match w.send client request with
      | (.error error, w) =>
        let (ms, w) := w.elapsedMs clock started
        (TestResult.failed test.name ms [] (some (httpErrorInfo error)), store, w)
      | (.ok response, w) =>
        match CaptureEngine.evaluate engine.assertions expectation response with
        | .error error =>
          let (ms, w) := w.elapsedMs clock started
          (abortedCapture test ms error, store, w)
        | .ok ⟨report, pending⟩ =>
          let (ms, w) := w.elapsedMs clock started
          if !report.isSuccess then
            (TestResult.failed test.name ms report.failures none, store, w)
          else
            match pending with
            | none =>
              (TestResult.aborted test.name ms
                "successful assertion evaluation did not stage a capture transaction", store, w)
            | some pending =>
              match store.commit pending with
              | .error error => (abortedCapture test ms error, store, w)
              | .ok store => (TestResult.passed test.name ms, store, w)

/-! ## Blocks -/

/-- Why everything after a failed core is skipped. -/
def coreFailedReason : String := "core dependency failed"

/-- Why the rest of a pipeline is skipped. -/
def pipelineFailedReason : String := "an earlier pipeline test failed"

/-- What the loop over the tests of a block carries from one test to the next. -/
structure BlockState where
  status : ExecutionStatus
  store : VariableStore
  world : World

/-- One round of the loop: run a test and, unless it passed, set the status of the block. -/
def blockStep (failedStatus : ExecutionStatus → ExecutionStatus) (test : TestCase)
    (s : BlockState) : TestResult × BlockState :=
  let (result, store, world) := executeTest engine client clock test s.store s.world
  let status := if result.status ≠ .passed then failedStatus result.status else s.status
  (result, ⟨status, store, world⟩)

/-- The loop over the tests of a block; the tests after the first one that does not pass are
skipped. -/
def executeTests (failedStatus : ExecutionStatus → ExecutionStatus) (reason : String)
    (tests : List TestCase) (store : VariableStore) (w : World) : List TestResult × BlockState :=
  FailFast.run (blockStep engine client clock failedStatus) (fun r => r.status == .passed)
    (fun t => TestResult.skipped t.name reason) tests ⟨.passed, store, w⟩

/-- A core is aborted with its test, and failed otherwise. -/
def coreStatus (status : ExecutionStatus) : ExecutionStatus :=
  if status == .aborted then .aborted else .failed

/-- The tests of the core, with the status that they come to and the variables after them. -/
def executeCore (tests : List TestCase) (store : VariableStore) (w : World) :
    BlockResult × ExecutionStatus × VariableStore × World :=
  let (started, w) := w.now clock
  let (results, s) := executeTests engine client clock coreStatus coreFailedReason tests store w
  let (ms, w) := s.world.elapsedMs clock started
  (.core s.status ms results, s.status, s.store, w)

/-- The tests of a pipeline, with the status that they come to. -/
def executePipeline (name : String) (tests : List TestCase) (store : VariableStore) (w : World) :
    BlockResult × ExecutionStatus × World :=
  let (started, w) := w.now clock
  let (results, s) :=
    executeTests engine client clock (fun _ => .failed) pipelineFailedReason tests store w
  let (ms, w) := s.world.elapsedMs clock started
  (.pipeline name s.status ms results, s.status, w)

/-! ## Suites -/

/-- What is checked before a suite is executed. -/
def preflight (suite : TestSuite) : Except String Unit :=
  if suite.blocks.isEmpty then .error "suite must contain at least one block"
  else if (suite.blocks.filter SuiteBlock.isCore).length > 1 then
    .error "suite must contain at most one core block"
  else if suite.blocks.any (fun b => match b with
      | .pipeline _ tests => tests.isEmpty
      | _ => false) then
    .error "pipeline must contain at least one test"
  else .ok ()

/-- A block of which no test is run. -/
def skippedBlock (block : SuiteBlock) (reason : String) : BlockResult :=
  match block with
  | .core tests => .core .skipped 0 (tests.map fun t => TestResult.skipped t.name reason)
  | .pipeline name tests =>
    .pipeline name .skipped 0 (tests.map fun t => TestResult.skipped t.name reason)
  | .test t => .test (TestResult.skipped t.name reason)

/-- The result of a suite that does not pass the first check. -/
def invalidSuiteResult (suite : TestSuite) (durationMs : Nat) (reason : String) : SuiteResult :=
  ⟨suite.name, .aborted, durationMs, suite.blocks.map (skippedBlock · reason),
    some ⟨.internal, reason⟩⟩

/-- Take the results out of their slots; an empty slot panics in the source. -/
def collectResults : List (Option BlockResult) → Option (List BlockResult)
  | [] => some []
  | none :: _ => none
  | some result :: results => (collectResults results).map (result :: ·)

/-- The loop over the blocks other than the core. A second core panics in the source. -/
def executeBlocks (coreIndex : Option Nat) (postCore : VariableStore) :
    List (SuiteBlock × Nat) → List (Option BlockResult) → Bool → World →
    Option (List (Option BlockResult) × Bool × World)
  | [], results, suiteFailed, w => some (results, suiteFailed, w)
  | (block, index) :: blocks, results, suiteFailed, w =>
    if some index = coreIndex then executeBlocks coreIndex postCore blocks results suiteFailed w
    else
      match block with
      | .core _ => none
      | .pipeline name tests =>
        let (result, status, w) := executePipeline engine client clock name tests postCore w
        let suiteFailed := if status ≠ .passed then true else suiteFailed
        executeBlocks coreIndex postCore blocks (results.set index (some result)) suiteFailed w
      | .test t =>
        let (result, _, w) := executeTest engine client clock t postCore w
        let suiteFailed := if result.status ≠ .passed then true else suiteFailed
        executeBlocks coreIndex postCore blocks (results.set index (some (.test result)))
          suiteFailed w

/-- Fill the empty slots with skipped blocks. -/
def skipRemaining (blocks : List SuiteBlock) (results : List (Option BlockResult)) :
    List (Option BlockResult) :=
  List.zipWith (fun result block => match result with
    | none => some (skippedBlock block coreFailedReason)
    | some result => some result) results blocks

/-- The part of `execute` after the core. -/
def executeRest (suite : TestSuite) (suiteStarted : Nat) (coreIndex : Option Nat)
    (postCore : VariableStore) (results : List (Option BlockResult)) (w : World) :
    Option (SuiteResult × World) := do
  let (results, suiteFailed, w) ←
    executeBlocks engine client clock coreIndex postCore suite.blocks.zipIdx results false w
  let (ms, w) := w.elapsedMs clock suiteStarted
  let blocks ← collectResults results
  return (⟨suite.name, if suiteFailed then .failed else .passed, ms, blocks, none⟩, w)

/-- Run a suite. `none` stands for a panic. -/
def execute (suite : TestSuite) (initialVariables : VariableStore) (w : World) :
    Option (SuiteResult × World) :=
  let (suiteStarted, w) := w.now clock
  match preflight suite with
  | .error reason =>
    let (ms, w) := w.elapsedMs clock suiteStarted
    some (invalidSuiteResult suite ms reason, w)
  | .ok () =>
    let results : List (Option BlockResult) := List.replicate suite.blocks.length none
    match suite.blocks.findIdx? SuiteBlock.isCore with
    | none => executeRest engine client clock suite suiteStarted none initialVariables results w
    | some index =>
      match suite.blocks[index]? with
      | some (.core tests) =>
        let (coreResult, status, postCore, w) :=
          executeCore engine client clock tests initialVariables w
        let results := results.set index (some coreResult)
        if status = .passed then
          executeRest engine client clock suite suiteStarted (some index) postCore results w
        else
          let (ms, w) := w.elapsedMs clock suiteStarted
          (collectResults (skipRemaining suite.blocks results)).map fun blocks =>
            (⟨suite.name, .aborted, ms, blocks, some ⟨.dependencyFailed, coreFailedReason⟩⟩, w)
      | _ => none

end Engine

end Rettp
