import Rettp.Outcome
import Rettp.SharedCaptures

/-!
# A test is a transaction

A test that does not pass leaves the variables as they were. One that passes appends exactly the
captures that its expectation declares, in the order of their declaration and under names that
were not there before (`executeTest_transaction`).
-/

namespace Rettp

/-! ## Declared captures -/

mutual

/-- The captures that an assertion declares: those of a field, then those of its own fields. -/
def ObjectAssertion.captures : ObjectAssertion → List VariableName
  | ⟨_, fields⟩ => (IndexMap.ofEntries (FieldAssertion.capturesAll fields)).flatMap Prod.snd

/-- The variables that fields capture, field by field. -/
def FieldAssertion.capturesAll : List (String × FieldAssertion) → List (String × List VariableName)
  | [] => []
  | (name, field) :: fields => (name, field.captures) :: FieldAssertion.capturesAll fields

/-- The variables that a field captures, its own before those of its nested fields. -/
def FieldAssertion.captures : FieldAssertion → List VariableName
  | ⟨_, _, _, nested, capture⟩ => (capture.map (·.variableName)).toList ++
      match nested with
      | some assertion => assertion.captures
      | none => []

end

/-- The variables that a test captures. -/
def ResponseExpectation.captures (expectation : ResponseExpectation) : List VariableName :=
  match expectation.body with
  | some (.json assertion) => assertion.captures
  | _ => []

/-- The captures of a resolved expectation with their paths. -/
def ResolvedResponseExpectation.captures (expectation : ResolvedResponseExpectation) :
    List (VariableName × List String) :=
  match expectation.body with
  | some (.json assertion) => assertion.captures []
  | _ => []

/-- A resolved field that declares certain captures. -/
def Declares (field : ResolvedFieldAssertion) (names : List VariableName) : Prop :=
  ∀ path, (field.captures path).map Prod.fst = names

theorem capturesAll_names {fields : List (String × ResolvedFieldAssertion)}
    {names : List (String × List VariableName)} (h : IndexMap.EntriesRel Declares fields names)
    (path : List String) :
    (ResolvedFieldAssertion.capturesAll path fields).map Prod.fst = names.flatMap Prod.snd := by
  induction h with
  | nil => rfl
  | @cons e e' fields names he _ ih =>
    obtain ⟨name, field⟩ := e
    rw [ResolvedFieldAssertion.capturesAll, List.map_append, he.2 path, ih, List.flatMap_cons]

variable [Platform]

namespace RuntimeResolver

variable (config : RuntimeConfig) (store : VariableStore)

mutual

/-- **Resolving keeps the captures.** -/
theorem resolveObjectAssertion_captures (assertion : ObjectAssertion) {depth : Nat}
    {resolved : ResolvedObjectAssertion}
    (h : resolveObjectAssertion config store assertion depth = .ok resolved) (path : List String) :
    (resolved.captures path).map Prod.fst = assertion.captures := by
  match assertion with
  | ⟨mode, fields⟩ =>
    obtain ⟨resolved', hresolved, rfl⟩ := resolveObjectAssertion_ok h
    have hfields := resolveFieldAssertions_captures fields hresolved
    exact capturesAll_names (IndexMap.forall₂_ofEntries hfields) path

theorem resolveFieldAssertions_captures (fields : List (String × FieldAssertion)) {depth : Nat}
    {resolved : List (String × ResolvedFieldAssertion)}
    (h : resolveFieldAssertions config store fields depth = .ok resolved) :
    IndexMap.EntriesRel Declares resolved (FieldAssertion.capturesAll fields) := by
  match fields with
  | [] =>
    obtain rfl := Except.ok.inj h
    exact .nil
  | (name, field) :: fields =>
    rw [resolveFieldAssertions] at h
    obtain ⟨r, hr, h⟩ := Except.bind_eq_ok.mp h
    obtain ⟨rs, hrs, h⟩ := Except.bind_eq_ok.mp h
    obtain rfl := Except.ok.inj h
    exact .cons ⟨rfl, resolveFieldAssertion_captures field hr⟩ (resolveFieldAssertions_captures fields hrs)

theorem resolveFieldAssertion_captures (field : FieldAssertion) {depth : Nat}
    {resolved : ResolvedFieldAssertion}
    (h : resolveFieldAssertion config store field depth = .ok resolved) :
    Declares resolved field.captures := by
  match field with
  | ⟨fieldName, expectedType, expectedValue, nested, capture⟩ =>
    obtain ⟨value', nested', -, hnested, rfl⟩ := resolveFieldAssertion_ok h
    intro path
    rw [ResolvedFieldAssertion.captures.eq_def, FieldAssertion.captures.eq_def, List.map_append]
    have hcapture : ((capture.map fun capture =>
        (capture.variableName, path ++ [fieldName])).toList).map Prod.fst =
        (capture.map (·.variableName)).toList := by
      cases capture <;> rfl
    rw [hcapture]
    match nested, nested', hnested with
    | none, _, .none => rfl
    | some assertion, _, .some hassertion =>
      exact congrArg _ (resolveObjectAssertion_captures assertion hassertion _)

end

theorem resolveExpectation_captures {expectation : ResponseExpectation}
    {resolved : ResolvedResponseExpectation}
    (h : resolveExpectation config store expectation = .ok resolved) :
    resolved.captures.map Prod.fst = expectation.captures := by
  obtain ⟨status, headers, body⟩ := expectation
  rw [resolveExpectation] at h
  obtain ⟨headers', -, h⟩ := Except.bind_eq_ok.mp h
  cases body with
  | none =>
    obtain rfl := Except.ok.inj h
    rfl
  | some body =>
    obtain ⟨body', hbody, h⟩ := Except.bind_eq_ok.mp h
    obtain rfl := Except.ok.inj h
    obtain ⟨resolved, hresolved, rfl⟩ := Except.map_eq_ok.mp hbody
    cases body with
    | empty =>
      obtain rfl := Except.ok.inj hresolved
      rfl
    | text text =>
      cases text <;> obtain ⟨value, -, h⟩ := Except.bind_eq_ok.mp hresolved <;>
        obtain rfl := Except.ok.inj h <;> rfl
    | json assertion =>
      obtain ⟨object, hobject, h⟩ := Except.bind_eq_ok.mp hresolved
      obtain rfl := Except.ok.inj h
      exact resolveObjectAssertion_captures config store assertion hobject []

end RuntimeResolver

namespace CaptureEngine

/-- How an evaluation ends: without success, with all declared captures staged, or with an error
after success. -/
inductive Evaluated (report : AssertionReport) (declared : List VariableName) :
    Except RuntimeError CaptureEvaluation → Prop
  | failure (h : report.isSuccess = false) : Evaluated report declared (.ok ⟨report, none⟩)
  | success (h : report.isSuccess = true) (staged : PendingCaptures)
      (hstaged : staged.names = declared) : Evaluated report declared (.ok ⟨report, some staged⟩)
  | error (h : report.isSuccess = true) (e : RuntimeError) : Evaluated report declared (.error e)

/-- **Evaluation.** -/
theorem evaluate_evaluated (config : AssertionConfig) (expected : ResolvedResponseExpectation)
    (actual : HttpResponse) :
    Evaluated (Rettp.evaluate config expected actual) (expected.captures.map Prod.fst)
      (evaluate config expected actual) := by
  obtain ⟨status, headers, body⟩ := expected
  unfold evaluate
  generalize Rettp.evaluate config ⟨status, headers, body⟩ actual = report
  cases hsuccess : report.isSuccess with
  | false =>
    simp only [hsuccess, Bool.not_false, if_true]
    exact .failure hsuccess
  | true =>
    simp only [hsuccess, Bool.not_true, Bool.false_eq_true, if_false]
    match body with
    | none => exact .success hsuccess _ rfl
    | some .empty => exact .success hsuccess _ rfl
    | some (.text text) => exact .success hsuccess _ rfl
    | some (.json assertion) =>
      show Evaluated report ((assertion.captures []).map Prod.fst) _
      cases hcontains : containsCapture assertion with
      | false =>
        rw [captures_eq_nil assertion hcontains]
        simp only [hcontains, Bool.not_false, if_true]
        exact .success hsuccess _ rfl
      | true =>
        simp only [hcontains, Bool.not_true, Bool.false_eq_true, if_false]
        match actual with
        | ⟨_, _, .empty⟩ => exact .error hsuccess _
        | ⟨_, _, .text _⟩ => exact .error hsuccess _
        | ⟨_, _, .binary _⟩ => exact .error hsuccess _
        | ⟨_, _, .json _ value⟩ =>
          cases hobject : value.asObject with
          | none =>
            simp only [hobject]
            exact .error hsuccess _
          | some object =>
            simp only [hobject]
            have hextracts := extractObject_root assertion hobject
            cases hresult : extractObject assertion object none [] "$" PendingCaptures.new with
            | error e => exact .error hsuccess e
            | ok pending =>
              rw [hresult] at hextracts
              obtain ⟨staged, hvalues, hreads⟩ := hextracts
              refine .success hsuccess pending ?_
              rw [PendingCaptures.names, hvalues, ← Extracts.names_eq hreads]
              rfl

end CaptureEngine

/-! ## The outcome of a test -/

section Outcome

variable (engine : ExecutionEngine) (reply : ResolvedHttpRequest → Except HttpError HttpResponse)
  (test : TestCase) (store : VariableStore)

/-- The request or the expectation does not resolve. -/
def Unresolved : Prop :=
  (∃ e, RuntimeResolver.resolveRequest engine.resolver store test.request = .error e) ∨
    ∃ e, RuntimeResolver.resolveExpectation engine.resolver store test.expectation = .error e

/-- The test gets an answer from the client. -/
def Answered (expectation : ResolvedResponseExpectation)
    (answer : Except HttpError HttpResponse) : Prop :=
  ∃ request, RuntimeResolver.resolveRequest engine.resolver store test.request = .ok request ∧
    RuntimeResolver.resolveExpectation engine.resolver store test.expectation = .ok expectation ∧
    reply request = answer

/-- A resolution or HTTP error, or a response with failures. -/
def Fails : Prop :=
  Unresolved engine test store ∨
    (∃ expectation e, Answered engine reply test store expectation (.error e)) ∨
    ∃ expectation response, Answered engine reply test store expectation (.ok response) ∧
      (evaluate engine.assertions expectation response).failures ≠ []

/-- A capture error, or a commit error. -/
def Aborts : Prop :=
  ∃ expectation response, Answered engine reply test store expectation (.ok response) ∧
    ((∃ e, CaptureEngine.evaluate engine.assertions expectation response = .error e) ∨
      ∃ report pending e,
        CaptureEngine.evaluate engine.assertions expectation response = .ok ⟨report, some pending⟩ ∧
        store.commit pending = .error e)

/-- What holds of the result of a test and of the variables after it. -/
structure Transaction (result : TestResult) (after : VariableStore) : Prop where
  unchanged : result.status ≠ .passed → after = store
  committed : result.status = .passed → ∃ captured, after.values = store.values ++ captured ∧
    IndexMap.keys captured = test.expectation.captures ∧
    ∀ name ∈ test.expectation.captures, name ∉ store.names
  failed_iff : result.status = .failed ↔ Fails engine reply test store
  aborted_iff : result.status = .aborted ↔ Aborts engine reply test store
  status : result.status = .passed ∨ result.status = .failed ∨ result.status = .aborted

variable {engine reply test store}

/-- A test gets at most one answer. -/
theorem Answered.unique {expectation expectation' : ResolvedResponseExpectation}
    {answer answer' : Except HttpError HttpResponse}
    (h : Answered engine reply test store expectation answer)
    (h' : Answered engine reply test store expectation' answer') :
    expectation = expectation' ∧ answer = answer' := by
  obtain ⟨request, hrequest, hexpectation, rfl⟩ := h
  obtain ⟨request', hrequest', hexpectation', rfl⟩ := h'
  obtain rfl := Except.ok.inj (hrequest.symm.trans hrequest')
  exact ⟨Except.ok.inj (hexpectation.symm.trans hexpectation'), rfl⟩

theorem Answered.not_unresolved {expectation : ResolvedResponseExpectation}
    {answer : Except HttpError HttpResponse}
    (h : Answered engine reply test store expectation answer) : ¬ Unresolved engine test store := by
  obtain ⟨request, hrequest, hexpectation, -⟩ := h
  rintro (⟨e, he⟩ | ⟨e, he⟩)
  · cases hrequest.symm.trans he
  · cases hexpectation.symm.trans he

/-- A test that ends without a passed status and keeps the variables. -/
theorem Transaction.of_failed {result : TestResult} (hstatus : result.status = .failed)
    (hfails : Fails engine reply test store) (haborts : ¬ Aborts engine reply test store) :
    Transaction engine reply test store result store where
  unchanged _ := rfl
  committed h := by cases hstatus.symm.trans h
  failed_iff := iff_of_true hstatus hfails
  aborted_iff := iff_of_false (fun h => by cases hstatus.symm.trans h) haborts
  status := .inr (.inl hstatus)

theorem Transaction.of_aborted {result : TestResult} (hstatus : result.status = .aborted)
    (hfails : ¬ Fails engine reply test store) (haborts : Aborts engine reply test store) :
    Transaction engine reply test store result store where
  unchanged _ := rfl
  committed h := by cases hstatus.symm.trans h
  failed_iff := iff_of_false (fun h => by cases hstatus.symm.trans h) hfails
  aborted_iff := iff_of_true hstatus haborts
  status := .inr (.inr hstatus)

/-- With a response, a test fails exactly when the evaluation is no success. -/
theorem Answered.fails_iff {expectation : ResolvedResponseExpectation} {response : HttpResponse}
    (h : Answered engine reply test store expectation (.ok response)) :
    Fails engine reply test store ↔
      (evaluate engine.assertions expectation response).isSuccess = false := by
  rw [AssertionReport.isSuccess, List.isEmpty_eq_false_iff]
  refine ⟨?_, ?_⟩
  · rintro (hunresolved | ⟨_, e, he⟩ | ⟨_, response', hresponse', hfailures⟩)
    · exact absurd hunresolved h.not_unresolved
    · cases (h.unique he).2
    · obtain ⟨rfl, heq⟩ := h.unique hresponse'
      obtain rfl := Except.ok.inj heq
      exact hfailures
  · intro hfailures
    exact .inr (.inr ⟨expectation, response, h, hfailures⟩)

theorem Answered.aborts_iff {expectation : ResolvedResponseExpectation} {response : HttpResponse}
    (h : Answered engine reply test store expectation (.ok response)) :
    Aborts engine reply test store ↔
      (∃ e, CaptureEngine.evaluate engine.assertions expectation response = .error e) ∨
      ∃ report pending e,
        CaptureEngine.evaluate engine.assertions expectation response = .ok ⟨report, some pending⟩ ∧
        store.commit pending = .error e := by
  refine ⟨?_, ?_⟩
  · rintro ⟨_, response', hresponse', haborts⟩
    obtain ⟨rfl, heq⟩ := h.unique hresponse'
    obtain rfl := Except.ok.inj heq
    exact haborts
  · intro haborts
    exact ⟨expectation, response, h, haborts⟩

/-- A response concludes the test. -/
theorem Answered.transaction {expectation : ResolvedResponseExpectation} {response : HttpResponse}
    (h : Answered engine reply test store expectation (.ok response)) :
    Transaction engine reply test store
      (concludeTest engine test store expectation response).1
      (concludeTest engine test store expectation response).2 := by
  have hdeclared : expectation.captures.map Prod.fst = test.expectation.captures := by
    obtain ⟨request, -, hexpectation, -⟩ := h
    exact RuntimeResolver.resolveExpectation_captures engine.resolver store hexpectation
  have hevaluated := CaptureEngine.evaluate_evaluated engine.assertions expectation response
  have hfails := h.fails_iff
  have haborts := h.aborts_iff
  rw [hdeclared] at hevaluated
  unfold concludeTest
  -- the conclusion depends on the evaluation alone
  generalize CaptureEngine.evaluate engine.assertions expectation response = evaluation at *
  generalize evaluate engine.assertions expectation response = report at *
  cases hevaluated with
  | failure hfailure =>
    simp only [hfailure, Bool.not_false, if_true]
    have hnot : ¬ Aborts engine reply test store := by
      rw [haborts]
      rintro (⟨e, he⟩ | ⟨report, pending, e, he, -⟩) <;> cases he
    exact .of_failed rfl (hfails.mpr hfailure) hnot
  | error hsuccess e =>
    have hnot : ¬ Fails engine reply test store := by
      rw [hfails, hsuccess]
      exact nofun
    exact .of_aborted rfl hnot (haborts.mpr (.inl ⟨e, rfl⟩))
  | success hsuccess staged hstaged =>
    have hnot : ¬ Fails engine reply test store := by
      rw [hfails, hsuccess]
      exact nofun
    simp only [hsuccess, Bool.not_true, Bool.false_eq_true, if_false]
    cases hcommit : store.commit staged with
    | error e => exact .of_aborted rfl hnot (haborts.mpr (.inr ⟨report, staged, e, rfl, hcommit⟩))
    | ok after =>
      have hnot' : ¬ Aborts engine reply test store := by
        rw [haborts]
        rintro (⟨e, he⟩ | ⟨report, pending, e, he, hpending⟩)
        · cases he
        · cases he
          cases hcommit.symm.trans hpending
      have hnew := VariableStore.commit_isOk_iff.mp ⟨after, hcommit⟩
      rw [hstaged] at hnew
      exact {
        unchanged := fun hstatus => absurd rfl hstatus
        committed := fun _ => ⟨staged.values, VariableStore.commit_ok hcommit, hstaged, hnew⟩
        failed_iff := iff_of_false nofun hnot
        aborted_iff := iff_of_false nofun hnot'
        status := .inl rfl }

/-- **The outcome is a transaction.** -/
theorem testOutcome_transaction : Transaction engine reply test store
    (testOutcome engine reply test store).1 (testOutcome engine reply test store).2 := by
  unfold testOutcome
  have hnot (h : Unresolved engine test store) : ¬ Aborts engine reply test store := by
    rintro ⟨expectation, response, hanswered, -⟩
    exact hanswered.not_unresolved h
  cases hrequest : RuntimeResolver.resolveRequest engine.resolver store test.request with
  | error e =>
    have hunresolved : Unresolved engine test store := .inl ⟨e, hrequest⟩
    exact .of_failed rfl (.inl hunresolved) (hnot hunresolved)
  | ok request =>
    cases hexpectation :
        RuntimeResolver.resolveExpectation engine.resolver store test.expectation with
    | error e =>
      have hunresolved : Unresolved engine test store := .inr ⟨e, hexpectation⟩
      exact .of_failed rfl (.inl hunresolved) (hnot hunresolved)
    | ok expectation =>
      have hanswered {answer : Except HttpError HttpResponse} (h : reply request = answer) :
          Answered engine reply test store expectation answer := ⟨request, hrequest, hexpectation, h⟩
      dsimp only
      cases hreply : reply request with
      | error e =>
        have hunanswered := hanswered hreply
        refine .of_failed rfl (.inr (.inl ⟨expectation, e, hunanswered⟩)) ?_
        rintro ⟨expectation', response, hresponse, -⟩
        cases (hunanswered.unique hresponse).2
      | ok response => exact (hanswered hreply).transaction

variable (engine test store) in
/-- A request goes out exactly when the request and the expectation resolve. -/
theorem requestOf_isSome_iff : (requestOf engine ⟨test, store⟩).isSome = true ↔
    (∃ request, RuntimeResolver.resolveRequest engine.resolver store test.request = .ok request) ∧
      ∃ expectation, RuntimeResolver.resolveExpectation engine.resolver store test.expectation =
        .ok expectation := by
  unfold requestOf
  cases RuntimeResolver.resolveRequest engine.resolver store test.request <;>
    cases RuntimeResolver.resolveExpectation engine.resolver store test.expectation <;> simp

end Outcome

/-- **A test is a transaction.** -/
theorem executeTest_transaction (engine : ExecutionEngine) (client : HttpClient) (clock : Clock)
    (test : TestCase) (store : VariableStore) (w : World) :
    let (result, after, w') := executeTest engine client clock test store w
    w'.sent = w.sent ++ (requestOf engine ⟨test, store⟩).toList ∧
    ((requestOf engine ⟨test, store⟩).isSome ↔
      (∃ request, RuntimeResolver.resolveRequest engine.resolver store test.request = .ok request) ∧
      ∃ expectation,
        RuntimeResolver.resolveExpectation engine.resolver store test.expectation =
          .ok expectation) ∧
    Transaction engine (client w.sent) test store result after := by
  obtain ⟨hresult, hafter, hsent, -⟩ := executeTest_spec engine client clock test store w
  have htransaction : Transaction engine (client w.sent) test store _ _ := testOutcome_transaction
  rw [← hresult, ← hafter] at htransaction
  generalize executeTest engine client clock test store w = executed at *
  obtain ⟨result, after, w'⟩ := executed
  exact ⟨hsent, requestOf_isSome_iff engine test store, { htransaction with }⟩

end Rettp
