import Rettp.Execution

/-!
# What a test comes to

`executeTest` without the clock: its request (`requestOf`), its result apart from the duration
and the variables it leaves behind (`testOutcome`) are functions of the variables in scope and
of the client's reply. `executeTest_spec` says that the executor does exactly this and records
one attempt; every result about runs is drawn from it.
-/

namespace Rettp

/-- The result without its duration. -/
def TestResult.untimed (r : TestResult) : TestResult := { r with durationMs := 0 }

@[simp] theorem TestResult.untimed_name (r : TestResult) : r.untimed.name = r.name := rfl

@[simp] theorem TestResult.untimed_status (r : TestResult) : r.untimed.status = r.status := rfl

variable [Platform]

/-- The request that an attempt sends: none if the request or the expectation of the test does
not resolve. -/
def requestOf (engine : ExecutionEngine) (a : Attempt) : Option ResolvedHttpRequest :=
  match RuntimeResolver.resolveRequest engine.resolver a.store a.test.request,
    RuntimeResolver.resolveExpectation engine.resolver a.store a.test.expectation with
  | .ok request, .ok _ => some request
  | _, _ => none

/-- What a response comes to: the evaluation of the expectation, then the commit. -/
def concludeTest (engine : ExecutionEngine) (test : TestCase) (store : VariableStore)
    (expectation : ResolvedResponseExpectation) (response : HttpResponse) :
    TestResult × VariableStore :=
  match CaptureEngine.evaluate engine.assertions expectation response with
  | .error error => (abortedCapture test 0 error, store)
  | .ok ⟨report, pending⟩ =>
    if !report.isSuccess then (TestResult.failed test.name 0 report.failures none, store)
    else
      match pending with
      | none =>
        (TestResult.aborted test.name 0
          "successful assertion evaluation did not stage a capture transaction", store)
      | some pending =>
        match store.commit pending with
        | .error error => (abortedCapture test 0 error, store)
        | .ok store => (TestResult.passed test.name 0, store)

/-- The result of a test without its duration, and the variables after it. -/
def testOutcome (engine : ExecutionEngine)
    (reply : ResolvedHttpRequest → Except HttpError HttpResponse) (test : TestCase)
    (store : VariableStore) : TestResult × VariableStore :=
  match RuntimeResolver.resolveRequest engine.resolver store test.request with
  | .error error => (failedWithError test 0 .variableResolution error, store)
  | .ok request =>
    match RuntimeResolver.resolveExpectation engine.resolver store test.expectation with
    | .error error => (failedWithError test 0 .variableResolution error, store)
    | .ok expectation =>
      match reply request with
      | .error error => (TestResult.failed test.name 0 [] (some (httpErrorInfo error)), store)
      | .ok response => concludeTest engine test store expectation response

/-- **One test.** The result, the store, the request and the recorded attempt. -/
theorem executeTest_spec (engine : ExecutionEngine) (client : HttpClient) (clock : Clock)
    (test : TestCase) (store : VariableStore) (w : World) :
    (executeTest engine client clock test store w).1.untimed =
        (testOutcome engine (client w.sent) test store).1 ∧
      (executeTest engine client clock test store w).2.1 =
        (testOutcome engine (client w.sent) test store).2 ∧
      (executeTest engine client clock test store w).2.2.sent =
        w.sent ++ (requestOf engine ⟨test, store⟩).toList ∧
      (executeTest engine client clock test store w).2.2.attempts =
        w.attempts ++ [⟨test, store⟩] := by
  unfold executeTest testOutcome requestOf
  dsimp only [World.reach, World.now, World.elapsedMs, World.send]
  cases RuntimeResolver.resolveRequest engine.resolver store test.request with
  | error e => exact ⟨rfl, rfl, (List.append_nil _).symm, rfl⟩
  | ok request =>
    cases RuntimeResolver.resolveExpectation engine.resolver store test.expectation with
    | error e => exact ⟨rfl, rfl, (List.append_nil _).symm, rfl⟩
    | ok expectation =>
      dsimp only
      cases client w.sent request with
      | error e => exact ⟨rfl, rfl, rfl, rfl⟩
      | ok response =>
        unfold concludeTest
        dsimp only
        cases CaptureEngine.evaluate engine.assertions expectation response with
        | error e => exact ⟨rfl, rfl, rfl, rfl⟩
        | ok evaluation =>
          obtain ⟨report, pending⟩ := evaluation
          dsimp only
          cases report.isSuccess with
          | false => exact ⟨rfl, rfl, rfl, rfl⟩
          | true =>
            cases pending with
            | none => exact ⟨rfl, rfl, rfl, rfl⟩
            | some pending =>
              dsimp only [Bool.not_true, Bool.false_eq_true, if_false]
              cases store.commit pending with
              | error e => exact ⟨rfl, rfl, rfl, rfl⟩
              | ok store' => exact ⟨rfl, rfl, rfl, rfl⟩

section Outcome

variable (engine : ExecutionEngine) (reply : ResolvedHttpRequest → Except HttpError HttpResponse)
  (test : TestCase) (store : VariableStore)

/-- How a test can end: with its own name, failed or aborted with the store it began with, or
passed. -/
theorem testOutcome_cases :
    (testOutcome engine reply test store).1.name = test.name ∧
      ((testOutcome engine reply test store).1.status = .passed ∨
        ((testOutcome engine reply test store).1.status = .failed ∨
          (testOutcome engine reply test store).1.status = .aborted) ∧
        (testOutcome engine reply test store).2 = store) := by
  unfold testOutcome
  cases RuntimeResolver.resolveRequest engine.resolver store test.request with
  | error e => exact ⟨rfl, .inr ⟨.inl rfl, rfl⟩⟩
  | ok request =>
    cases RuntimeResolver.resolveExpectation engine.resolver store test.expectation with
    | error e => exact ⟨rfl, .inr ⟨.inl rfl, rfl⟩⟩
    | ok expectation =>
      dsimp only
      cases reply request with
      | error e => exact ⟨rfl, .inr ⟨.inl rfl, rfl⟩⟩
      | ok response =>
        dsimp only [concludeTest]
        cases CaptureEngine.evaluate engine.assertions expectation response with
        | error e => exact ⟨rfl, .inr ⟨.inr rfl, rfl⟩⟩
        | ok evaluation =>
          obtain ⟨report, pending⟩ := evaluation
          dsimp only
          cases report.isSuccess with
          | false => exact ⟨rfl, .inr ⟨.inl rfl, rfl⟩⟩
          | true =>
            cases pending with
            | none => exact ⟨rfl, .inr ⟨.inr rfl, rfl⟩⟩
            | some pending =>
              dsimp only [Bool.not_true, Bool.false_eq_true, if_false]
              cases store.commit pending with
              | error e => exact ⟨rfl, .inr ⟨.inr rfl, rfl⟩⟩
              | ok store' => exact ⟨rfl, .inl rfl⟩

end Outcome

/-! ## The executor's results -/

section Execute

variable (engine : ExecutionEngine) (client : HttpClient) (clock : Clock) (test : TestCase)
  (store : VariableStore) (w : World)

theorem executeTest_name : (executeTest engine client clock test store w).1.name = test.name := by
  rw [← TestResult.untimed_name, (executeTest_spec engine client clock test store w).1]
  exact (testOutcome_cases engine (client w.sent) test store).1

/-- A test that is reached is not skipped. -/
theorem executeTest_status_ne_skipped :
    (executeTest engine client clock test store w).1.status ≠ .skipped := by
  rw [← TestResult.untimed_status, (executeTest_spec engine client clock test store w).1]
  rcases (testOutcome_cases engine (client w.sent) test store).2 with h | ⟨h | h, -⟩ <;>
    simp [h]

end Execute

end Rettp
