import Rettp.Process
import Rettp.Verdicts

/-!
# The executor between its awaits

The same executor as a process: it reads the clock and awaits the client, and nothing else. Any run
of the process, stopped or not, is a part of what the executor does against some client and some
clock (`execute_after`), so that whatever holds of the executor holds of it.
-/

namespace Rettp

/-- What an execution asks of the outside. -/
inductive ExecutionCall where
  /-- `Instant::now` -/
  | now
  /-- `HttpClient::execute` -/
  | send (request : ResolvedHttpRequest)

/-- What it is told. -/
def ExecutionCall.Answer : ExecutionCall → Type
  | .now => Nat
  | .send _ => Except HttpError HttpResponse

/-- An execution as a process. -/
abbrev Execution := Process ExecutionCall ExecutionCall.Answer

namespace Async

/-- Read the clock. -/
def now : Execution Nat := Process.ask ExecutionCall.now

/-- Send a request and wait for its answer. -/
def send (request : ResolvedHttpRequest) : Execution (Except HttpError HttpResponse) :=
  Process.ask (ExecutionCall.send request)

/-- The milliseconds since a reading of the clock. -/
def elapsedMs (started : Nat) : Execution Nat := do
  return min (((← now) - started) / 1000000) u64Max

variable [Platform] (engine : ExecutionEngine)

/-- One test: resolve, send, evaluate, capture. -/
def executeTest (test : TestCase) (store : VariableStore) :
    Execution (TestResult × VariableStore) := do
  let started ← now
  match RuntimeResolver.resolveRequest engine.resolver store test.request with
  | .error error =>
    let ms ← elapsedMs started
    return (failedWithError test ms .variableResolution error, store)
  | .ok request =>
    match RuntimeResolver.resolveExpectation engine.resolver store test.expectation with
    | .error error =>
      let ms ← elapsedMs started
      return (failedWithError test ms .variableResolution error, store)
    | .ok expectation =>
      match ← send request with
      | .error error =>
        let ms ← elapsedMs started
        return (TestResult.failed test.name ms [] (some (httpErrorInfo error)), store)
      | .ok response =>
        match CaptureEngine.evaluate engine.assertions expectation response with
        | .error error =>
          let ms ← elapsedMs started
          return (abortedCapture test ms error, store)
        | .ok ⟨report, pending⟩ =>
          let ms ← elapsedMs started
          if !report.isSuccess then
            return (TestResult.failed test.name ms report.failures none, store)
          else
            match pending with
            | none =>
              return (TestResult.aborted test.name ms
                "successful assertion evaluation did not stage a capture transaction", store)
            | some pending =>
              match store.commit pending with
              | .error error => return (abortedCapture test ms error, store)
              | .ok store => return (TestResult.passed test.name ms, store)

/-- The loop over the tests of a block. -/
def executeTests (failedStatus : ExecutionStatus → ExecutionStatus) (reason : String) :
    List TestCase → ExecutionStatus → VariableStore →
      Execution (List TestResult × ExecutionStatus × VariableStore)
  | [], status, store => return ([], status, store)
  | test :: tests, status, store => do
    let (result, store) ← executeTest engine test store
    if result.status ≠ .passed then
      return (result :: tests.map (fun t => TestResult.skipped t.name reason),
        failedStatus result.status, store)
    else
      let (results, status, store) ← executeTests failedStatus reason tests status store
      return (result :: results, status, store)

/-- The tests of the core, with the status that they come to and the variables after them. -/
def executeCore (tests : List TestCase) (store : VariableStore) :
    Execution (BlockResult × ExecutionStatus × VariableStore) := do
  let started ← now
  let (results, status, store) ←
    executeTests engine coreStatus coreFailedReason tests .passed store
  let ms ← elapsedMs started
  return (.core status ms results, status, store)

/-- The tests of a pipeline, with the status that they come to. -/
def executePipeline (name : String) (tests : List TestCase) (store : VariableStore) :
    Execution (BlockResult × ExecutionStatus) := do
  let started ← now
  let (results, status, _) ←
    executeTests engine (fun _ => .failed) pipelineFailedReason tests .passed store
  let ms ← elapsedMs started
  return (.pipeline name status ms results, status)

/-- The loop over the blocks other than the core. A second core panics in the source. -/
def executeBlocks (coreIndex : Option Nat) (postCore : VariableStore) :
    List (SuiteBlock × Nat) → List (Option BlockResult) → Bool →
      Execution (Option (List (Option BlockResult) × Bool))
  | [], results, suiteFailed => return some (results, suiteFailed)
  | (block, index) :: blocks, results, suiteFailed =>
    if some index = coreIndex then executeBlocks coreIndex postCore blocks results suiteFailed
    else
      match block with
      | .core _ => return none
      | .pipeline name tests => do
        let (result, status) ← executePipeline engine name tests postCore
        let suiteFailed := if status ≠ .passed then true else suiteFailed
        executeBlocks coreIndex postCore blocks (results.set index (some result)) suiteFailed
      | .test t => do
        let (result, _) ← executeTest engine t postCore
        let suiteFailed := if result.status ≠ .passed then true else suiteFailed
        executeBlocks coreIndex postCore blocks (results.set index (some (.test result)))
          suiteFailed

/-- The part of `execute` after the core. -/
def executeRest (suite : TestSuite) (suiteStarted : Nat) (coreIndex : Option Nat)
    (postCore : VariableStore) (results : List (Option BlockResult)) :
    Execution (Option SuiteResult) := do
  match ← executeBlocks engine coreIndex postCore suite.blocks.zipIdx results false with
  | none => return none
  | some (results, suiteFailed) =>
    let ms ← elapsedMs suiteStarted
    return (collectResults results).map fun blocks =>
      ⟨suite.name, if suiteFailed then .failed else .passed, ms, blocks, none⟩

/-- Run a suite. `none` stands for a panic. -/
def execute (suite : TestSuite) (initialVariables : VariableStore) :
    Execution (Option SuiteResult) := do
  let suiteStarted ← now
  match preflight suite with
  | .error reason =>
    let ms ← elapsedMs suiteStarted
    return some (invalidSuiteResult suite ms reason)
  | .ok () =>
    let results : List (Option BlockResult) := List.replicate suite.blocks.length none
    match suite.blocks.findIdx? SuiteBlock.isCore with
    | none => executeRest engine suite suiteStarted none initialVariables results
    | some index =>
      match suite.blocks[index]? with
      | some (.core tests) =>
        let (coreResult, status, postCore) ← executeCore engine tests initialVariables
        let results := results.set index (some coreResult)
        if status = .passed then
          executeRest engine suite suiteStarted (some index) postCore results
        else
          let ms ← elapsedMs suiteStarted
          return (collectResults (skipRemaining suite.blocks results)).map fun blocks =>
            ⟨suite.name, .aborted, ms, blocks, some ⟨.dependencyFailed, coreFailedReason⟩⟩
      | _ => return none

end Async

/-! ## Against a client and a clock -/

namespace Async

/-- The requests sent and the number of readings. -/
abbrev Seen := List ResolvedHttpRequest × Nat

/-- What a client and a clock answer. -/
def surroundings (client : HttpClient) (clock : Clock) (seen : Seen) :
    (c : ExecutionCall) → c.Answer × Seen
  | .now => (clock seen.2, (seen.1, seen.2 + 1))
  | .send request => (client seen.1 request, (seen.1 ++ [request], seen.2))

end Async

/-- What a client and a clock see of a world. -/
def World.seen (w : World) : Async.Seen := (w.sent, w.readings)

namespace Async

open Process (perform perform_bind)

variable [Platform] (engine : ExecutionEngine) (client : HttpClient) (clock : Clock)

section

omit [Platform]

theorem perform_now (w : World) : perform (surroundings client clock) now w.seen =
    ((w.now clock).1, (w.now clock).2.seen) := rfl

theorem perform_elapsedMs (started : Nat) (w : World) :
    perform (surroundings client clock) (elapsedMs started) w.seen =
      ((w.elapsedMs clock started).1, (w.elapsedMs clock started).2.seen) := rfl

theorem perform_send (request : ResolvedHttpRequest) (w : World) :
    perform (surroundings client clock) (send request) w.seen =
      ((w.send client request).1, (w.send client request).2.seen) := rfl

end

theorem perform_executeTest (test : TestCase) (store : VariableStore) (w : World) :
    perform (surroundings client clock) (executeTest engine test store) w.seen =
      let (result, store, w) := Rettp.executeTest engine client clock test store w
      ((result, store), w.seen) := by
  -- `seen` leaves out the attempts, so to reach a test changes nothing in it
  change perform _ _ (w.reach test store).seen = _
  unfold executeTest Rettp.executeTest
  generalize w.reach test store = w
  dsimp only
  rw [perform_bind, perform_now]
  generalize w.now clock = reading
  obtain ⟨started, w⟩ := reading
  cases RuntimeResolver.resolveRequest engine.resolver store test.request with
  | error error => rfl
  | ok request =>
    cases RuntimeResolver.resolveExpectation engine.resolver store test.expectation with
    | error error => rfl
    | ok expectation =>
      dsimp only
      rw [perform_bind, perform_send]
      generalize w.send client request = reply
      obtain ⟨reply, w⟩ := reply
      cases reply with
      | error error => rfl
      | ok response =>
        dsimp only
        cases CaptureEngine.evaluate engine.assertions expectation response with
        | error error => rfl
        | ok evaluation =>
          obtain ⟨report, pending⟩ := evaluation
          dsimp only
          rw [perform_bind, perform_elapsedMs]
          generalize w.elapsedMs clock started = elapsed
          obtain ⟨ms, w⟩ := elapsed
          dsimp only
          split
          · rfl
          · cases pending with
            | none => rfl
            | some pending =>
              dsimp only
              cases store.commit pending <;> rfl

theorem perform_executeTests (failedStatus : ExecutionStatus → ExecutionStatus) (reason : String)
    (tests : List TestCase) (status : ExecutionStatus) (store : VariableStore) (w : World) :
    perform (surroundings client clock)
        (executeTests engine failedStatus reason tests status store) w.seen =
      let (results, s) := FailFast.run (blockStep engine client clock failedStatus)
        (fun r => r.status == .passed) (fun t => TestResult.skipped t.name reason) tests
        ⟨status, store, w⟩
      ((results, s.status, s.store), s.world.seen) := by
  induction tests generalizing status store w with
  | nil => rfl
  | cons test tests ih =>
    rw [executeTests, perform_bind, perform_executeTest, FailFast.run]
    unfold blockStep
    generalize Rettp.executeTest engine client clock test store w = run
    obtain ⟨result, store, w⟩ := run
    dsimp only
    -- the first test that does not pass ends the block
    by_cases hpassed : result.status = .passed
    · rw [if_neg (not_not.mpr hpassed), perform_bind, ih, if_pos (beq_iff_eq.mpr hpassed),
        if_neg (not_not.mpr hpassed)]
      rfl
    · rw [if_pos hpassed, if_neg (mt beq_iff_eq.mp hpassed), if_pos hpassed]
      rfl

theorem perform_executeCore (tests : List TestCase) (store : VariableStore) (w : World) :
    perform (surroundings client clock) (executeCore engine tests store) w.seen =
      let (result, status, store, w) := Rettp.executeCore engine client clock tests store w
      ((result, status, store), w.seen) := by
  unfold executeCore Rettp.executeCore Rettp.executeTests
  dsimp only
  rw [perform_bind, perform_now, perform_bind, perform_executeTests]
  rfl

theorem perform_executePipeline (name : String) (tests : List TestCase) (store : VariableStore)
    (w : World) :
    perform (surroundings client clock) (executePipeline engine name tests store) w.seen =
      let (result, status, w) := Rettp.executePipeline engine client clock name tests store w
      ((result, status), w.seen) := by
  unfold executePipeline Rettp.executePipeline Rettp.executeTests
  dsimp only
  rw [perform_bind, perform_now, perform_bind, perform_executeTests]
  rfl

theorem perform_executeBlocks (coreIndex : Option Nat) (postCore : VariableStore)
    (blocks : List (SuiteBlock × Nat)) (results : List (Option BlockResult)) (suiteFailed : Bool)
    (w : World) {results' : List (Option BlockResult)} {suiteFailed' : Bool} {w' : World}
    (h : Rettp.executeBlocks engine client clock coreIndex postCore blocks results suiteFailed w =
      some (results', suiteFailed', w')) :
    perform (surroundings client clock)
        (executeBlocks engine coreIndex postCore blocks results suiteFailed) w.seen =
      (some (results', suiteFailed'), w'.seen) := by
  induction blocks generalizing results suiteFailed w with
  | nil =>
    cases h
    rfl
  | cons block blocks ih =>
    obtain ⟨block, index⟩ := block
    unfold Rettp.executeBlocks at h
    unfold executeBlocks
    by_cases hindex : some index = coreIndex
    · rw [if_pos hindex] at h ⊢
      exact ih _ _ _ h
    · rw [if_neg hindex] at h ⊢
      cases block with
      | core tests => cases h
      | pipeline name tests =>
        dsimp only at h ⊢
        rw [perform_bind, perform_executePipeline]
        exact ih _ _ _ h
      | test test =>
        dsimp only at h ⊢
        rw [perform_bind, perform_executeTest]
        exact ih _ _ _ h

theorem perform_executeRest (suite : TestSuite) (suiteStarted : Nat) (coreIndex : Option Nat)
    (postCore : VariableStore) (results : List (Option BlockResult)) (w : World)
    {result : SuiteResult} {w' : World}
    (h : Rettp.executeRest engine client clock suite suiteStarted coreIndex postCore results w =
      some (result, w')) :
    perform (surroundings client clock)
        (executeRest engine suite suiteStarted coreIndex postCore results) w.seen =
      (some result, w'.seen) := by
  rw [Rettp.executeRest, Option.bind_eq_bind, Option.bind_eq_some_iff] at h
  obtain ⟨⟨results', suiteFailed, w''⟩, hblocks, h⟩ := h
  rw [executeRest, perform_bind, perform_executeBlocks engine client clock _ _ _ _ _ _ hblocks]
  dsimp only at h ⊢
  rw [Option.bind_eq_bind, Option.bind_eq_some_iff] at h
  obtain ⟨blocks, hcollect, h⟩ := h
  cases h
  rw [perform_bind, perform_elapsedMs, hcollect]
  rfl

/-- **The process refines the executor**: against a client and a clock it does the same. -/
theorem perform_execute (suite : TestSuite) (store : VariableStore) (w : World)
    {result : SuiteResult} {w' : World}
    (h : Rettp.execute engine client clock suite store w = some (result, w')) :
    perform (surroundings client clock) (execute engine suite store) w.seen =
      (some result, w'.seen) := by
  unfold Rettp.execute at h
  rw [execute, perform_bind, perform_now]
  generalize w.now clock = reading at h ⊢
  obtain ⟨suiteStarted, w⟩ := reading
  dsimp only at h ⊢
  cases hpre : preflight suite with
  | error reason =>
    rw [hpre] at h
    cases h
    rfl
  | ok =>
    rw [hpre] at h
    dsimp only at h ⊢
    cases hcore : suite.blocks.findIdx? SuiteBlock.isCore with
    | none =>
      rw [hcore] at h
      exact perform_executeRest engine client clock _ _ _ _ _ _ h
    | some index =>
      rw [hcore] at h
      dsimp only at h ⊢
      -- the executor has a result, so the block at this index is a core
      cases hblock : suite.blocks[index]? with
      | none =>
        rw [hblock] at h
        cases h
      | some block =>
        rw [hblock] at h
        cases block with
        | test => cases h
        | pipeline => cases h
        | core tests =>
          dsimp only at h ⊢
          rw [perform_bind, perform_executeCore]
          generalize Rettp.executeCore engine client clock tests store w = run at h ⊢
          obtain ⟨coreResult, status, postCore, w⟩ := run
          dsimp only at h ⊢
          split at h
          · next hpassed =>
            rw [if_pos hpassed]
            exact perform_executeRest engine client clock _ _ _ _ _ _ h
          · next hpassed =>
            rw [if_neg hpassed]
            obtain ⟨blocks, hcollect, h⟩ := Option.map_eq_some_iff.mp h
            cases h
            rw [perform_bind, perform_elapsedMs, hcollect]
            rfl

/-! ## Every run -/

section Scripted

omit [Platform]

/-- The requests that a trace sends. -/
def requests (trace : List (Process.Event ExecutionCall.Answer)) : List ResolvedHttpRequest :=
  trace.filterMap fun event => match event with
    | ⟨.send request, _⟩ => some request
    | ⟨.now, _⟩ => none

/-- The answers to the requests of a trace. -/
def replies (trace : List (Process.Event ExecutionCall.Answer)) :
    List (Except HttpError HttpResponse) :=
  trace.filterMap fun event => match event with
    | ⟨.send _, reply⟩ => some reply
    | ⟨.now, _⟩ => none

/-- The readings of the clock of a trace. -/
def readings (trace : List (Process.Event ExecutionCall.Answer)) : List Nat :=
  trace.filterMap fun event => match event with
    | ⟨.now, reading⟩ => some reading
    | ⟨.send _, _⟩ => none

/-- The client that gives the replies of a trace. -/
def scriptedClient (trace : List (Process.Event ExecutionCall.Answer)) : HttpClient :=
  fun history _ => (replies trace)[history.length]?.getD (.error (.connection ""))

/-- The clock that gives the readings of a trace. -/
def scriptedClock (trace : List (Process.Event ExecutionCall.Answer)) : Clock :=
  fun n => (readings trace)[n]?.getD 0

variable {before after trace : List (Process.Event ExecutionCall.Answer)}

theorem requests_append : requests (before ++ after) = requests before ++ requests after :=
  List.filterMap_append

theorem replies_append : replies (before ++ after) = replies before ++ replies after :=
  List.filterMap_append

theorem readings_append : readings (before ++ after) = readings before ++ readings after :=
  List.filterMap_append

theorem length_replies : (replies trace).length = (requests trace).length := by
  induction trace with
  | nil => rfl
  | cons event trace ih =>
    obtain ⟨call, answer⟩ := event
    cases call with
    | now => exact ih
    | send request => exact congrArg (· + 1) ih

theorem scriptedClock_next {reading : Nat} :
    scriptedClock (before ++ ⟨.now, reading⟩ :: after) (readings before).length = reading := by
  have hnext : readings (before ++ ⟨.now, reading⟩ :: after) =
      readings before ++ reading :: readings after := readings_append
  rw [scriptedClock, hnext, List.getElem?_append_right (Nat.le_refl _), Nat.sub_self]
  rfl

theorem scriptedClient_next {request : ResolvedHttpRequest}
    {reply : Except HttpError HttpResponse} :
    scriptedClient (before ++ ⟨.send request, reply⟩ :: after) (requests before) request =
      reply := by
  have hnext : replies (before ++ ⟨.send request, reply⟩ :: after) =
      replies before ++ reply :: replies after := replies_append
  rw [scriptedClient, hnext, ← length_replies, List.getElem?_append_right (Nat.le_refl _),
    Nat.sub_self]
  rfl

/-- What the scripted surroundings answer is the rest of the script. -/
theorem answers_scripted (before after : List (Process.Event ExecutionCall.Answer)) :
    Process.Answers (surroundings (scriptedClient (before ++ after))
        (scriptedClock (before ++ after)))
      (requests before, (readings before).length) after
      (requests (before ++ after), (readings (before ++ after)).length) := by
  induction after generalizing before with
  | nil =>
    rw [List.append_nil]
    exact .nil _
  | cons event after ih =>
    have hrest := ih (before ++ [event])
    rw [List.append_assoc, List.singleton_append] at hrest
    refine .of_eq ?_ hrest
    obtain ⟨call, answer⟩ := event
    rw [requests_append, readings_append, List.length_append]
    cases call with
    | now =>
      exact congrArg₂ Prod.mk scriptedClock_next
        (congrArg₂ Prod.mk (List.append_nil (requests before)).symm rfl)
    | send request => exact congrArg₂ Prod.mk scriptedClient_next rfl

end Scripted

/-- Every suite gets a result. -/
theorem execute_returns (client : HttpClient) (clock : Clock) (suite : TestSuite)
    (store : VariableStore) :
    ∃ result w, Rettp.execute engine client clock suite store World.initial = some (result, w) := by
  cases hpre : preflight suite with
  | error reason =>
    unfold Rettp.execute
    simp only [hpre]
    exact ⟨_, _, rfl⟩
  | ok =>
    rcases core_split (preflight_ok_iff.mp hpre).2.1 with
      hnone | ⟨before, tests, after, hsplit, hbefore, hafter⟩
    · obtain ⟨r, w, hrun, -⟩ := execute_without_core engine client clock store hpre hnone
      exact ⟨r, w, hrun⟩
    · obtain ⟨r, w, hrun, -⟩ :=
        execute_with_core engine client clock store hpre hsplit hbefore hafter
      exact ⟨r, w, hrun⟩

/-- **Every moment of every run** of the process belongs to a run of the executor against some
client and some clock: what was sent so far is the beginning of what that run sends, and a result is
the result of that run. -/
theorem execute_after {suite : TestSuite} {store : VariableStore}
    {trace : List (Process.Event ExecutionCall.Answer)} {q : Execution (Option SuiteResult)}
    (h : (execute engine suite store).After trace q) :
    ∃ client clock result w,
      Rettp.execute engine client clock suite store World.initial = some (result, w) ∧
        requests trace <+: w.sent ∧
        ∀ outcome, q = .done outcome → outcome = some result ∧ requests trace = w.sent := by
  obtain ⟨result, w, hrun⟩ := execute_returns engine (scriptedClient trace) (scriptedClock trace)
    suite store
  have hperform := perform_execute engine _ _ suite store World.initial hrun
  have hrest : perform _ q _ = _ :=
    (Process.perform_after h (answers_scripted [] trace)).symm.trans hperform
  refine ⟨_, _, result, w, hrun, ?_, ?_⟩
  · have hgrows := Process.perform_keeps
      (surroundings (scriptedClient trace) (scriptedClock trace))
      (R := fun s s' : Seen => s.1 <+: s'.1)
      (fun _ => List.prefix_refl _) (fun _ _ _ => List.IsPrefix.trans) (fun s c => by
        cases c with
        | now => exact List.prefix_refl _
        | send request => exact List.prefix_append _ _) q
      (requests trace, (readings trace).length)
    rw [List.nil_append] at hrest
    rw [hrest] at hgrows
    exact hgrows
  · rintro outcome rfl
    obtain ⟨rfl, hseen⟩ := Prod.mk.inj hrest
    exact ⟨rfl, congrArg Prod.fst hseen⟩

end Async

end Rettp
