import Rettp.Noninterference
import Rettp.ResolvedLevels

/-!
# What a suite means

The declarative side of the executor, without a clock, limits of evaluation, staged values or shared
documents. A test passes when its request is answered and everything that its expectation says holds
of the answer; the JSON values that the expectation captures are then variables. The tests of a
block run up to the first one that does not pass, the core before the other blocks, which all start
from what it leaves behind (`SuiteRuns`).

The relation is functional: a suite has one list of verdicts and sends one list of requests
(`SuiteRuns.unique`).
-/

namespace Rettp

/-! ## Captures -/

/-- Each captured variable is the JSON value that the path of its capture leads to. -/
def Captured (expectation : ResolvedResponseExpectation) (response : HttpResponse)
    (captured : List (VariableName × Json)) : Prop :=
  List.Forall₂ (fun entry capture => entry.1 = capture.1 ∧
    ∃ raw value, response.body = .json raw value ∧ value.follow capture.2 = some entry.2)
    captured expectation.captures

/-- Captured values as variables. -/
def asVariables (captured : List (VariableName × Json)) : IndexMap VariableName VariableValue :=
  captured.map fun entry => (entry.1, .json entry.2)

theorem Captured.unique {expectation : ResolvedResponseExpectation} {response : HttpResponse}
    {captured captured' : List (VariableName × Json)} (h : Captured expectation response captured)
    (h' : Captured expectation response captured') : captured = captured' := by
  unfold Captured at h h'
  generalize expectation.captures = captures at h h'
  induction h generalizing captured' with
  | nil =>
    cases h'
    rfl
  | @cons entry capture captured captures hentry _ ih =>
    cases h' with
    | @cons entry' _ captured' _ hentry' hrest =>
      obtain ⟨name, json⟩ := entry
      obtain ⟨name', json'⟩ := entry'
      obtain ⟨rfl, raw, value, hbody, hvalue⟩ := hentry
      obtain ⟨rfl, raw', value', hbody', hvalue'⟩ := hentry'
      obtain ⟨-, rfl⟩ := ResponseBody.json.inj (hbody.symm.trans hbody')
      obtain rfl := Option.some.inj (hvalue.symm.trans hvalue')
      rw [ih hrest]

/-! ## Tests -/

/-- What a test starts from: the requests sent so far and the variables. -/
structure Scene where
  sent : List ResolvedHttpRequest
  store : VariableStore

variable [Platform]

omit [Platform] in
/-- What an answer means for a test: its verdict, and the variables after it. -/
inductive ReplyMeans (expectation : ResolvedResponseExpectation) (store : VariableStore) :
    Except HttpError HttpResponse → ExecutionStatus → VariableStore → Prop
  | passes {response : HttpResponse} {captured : List (VariableName × Json)}
      {after : VariableStore} (hholds : ExpectationHolds expectation response)
      (hcaptured : Captured expectation response captured)
      (hafter : after.values = store.values ++ asVariables captured) :
      ReplyMeans expectation store (.ok response) .passed after
  | violated {response : HttpResponse} (hviolated : ¬ ExpectationHolds expectation response) :
      ReplyMeans expectation store (.ok response) .failed store
  | unanswered {error : HttpError} : ReplyMeans expectation store (.error error) .failed store

section Semantics

variable (engine : ExecutionEngine) (client : HttpClient)

/-- **One test.** -/
inductive TestRuns (test : TestCase) (scene : Scene) : ExecutionStatus → Scene → Prop
  | answered {request : ResolvedHttpRequest} {expectation : ResolvedResponseExpectation}
      {verdict : ExecutionStatus} {after : VariableStore}
      (hrequest : RuntimeResolver.resolveRequest engine.resolver scene.store test.request =
        .ok request)
      (hexpectation : RuntimeResolver.resolveExpectation engine.resolver scene.store
        test.expectation = .ok expectation)
      (hreply : ReplyMeans expectation scene.store (client scene.sent request) verdict after) :
      TestRuns test scene verdict ⟨scene.sent ++ [request], after⟩
  | unresolved (h : Unresolved engine test scene.store) : TestRuns test scene .failed scene

/-- The tests of a block, up to the first one that does not pass; the others are skipped. -/
inductive TestsRun : List TestCase → Scene → List ExecutionStatus → Scene → Prop
  | nil {scene : Scene} : TestsRun [] scene [] scene
  | next {test : TestCase} {tests : List TestCase} {scene next last : Scene}
      {verdicts : List ExecutionStatus} (h : TestRuns engine client test scene .passed next)
      (hrest : TestsRun tests next verdicts last) :
      TestsRun (test :: tests) scene (.passed :: verdicts) last
  | stop {test : TestCase} {tests : List TestCase} {scene last : Scene} {verdict : ExecutionStatus}
      (h : TestRuns engine client test scene verdict last) (hverdict : verdict ≠ .passed) :
      TestsRun (test :: tests) scene (verdict :: tests.map fun _ => .skipped) last

/-! ## Suites -/

/-- Blocks one after the other, each from the same variables. -/
inductive BlocksRun (store : VariableStore) : List SuiteBlock → List ResolvedHttpRequest →
    List (List ExecutionStatus) → List ResolvedHttpRequest → Prop
  | nil {sent : List ResolvedHttpRequest} : BlocksRun store [] sent [] sent
  | cons {block : SuiteBlock} {blocks : List SuiteBlock} {sent sent' : List ResolvedHttpRequest}
      {verdicts : List ExecutionStatus} {rest : List (List ExecutionStatus)} {last : Scene}
      (h : TestsRun engine client block.tests ⟨sent, store⟩ verdicts last)
      (hrest : BlocksRun store blocks last.sent rest sent') :
      BlocksRun store (block :: blocks) sent (verdicts :: rest) sent'

/-- The verdicts on blocks of which no test runs. -/
def skippedVerdicts (blocks : List SuiteBlock) : List (List ExecutionStatus) :=
  blocks.map fun block => block.tests.map fun _ => .skipped

/-- **A suite**: the verdicts on its tests, block by block in source order, and the requests. -/
inductive SuiteRuns (suite : TestSuite) (store : VariableStore) :
    List (List ExecutionStatus) → List ResolvedHttpRequest → Prop
  | withoutCore {verdicts : List (List ExecutionStatus)} {sent : List ResolvedHttpRequest}
      (hnone : ∀ block ∈ suite.blocks, block.isCore = false)
      (h : BlocksRun engine client store suite.blocks [] verdicts sent) :
      SuiteRuns suite store verdicts sent
  | corePasses {before after : List SuiteBlock} {tests : List TestCase}
      {verdicts : List ExecutionStatus} {first last : List (List ExecutionStatus)} {scene : Scene}
      {sent sent' : List ResolvedHttpRequest}
      (hsplit : suite.blocks = before ++ .core tests :: after)
      (hbefore : ∀ block ∈ before, block.isCore = false)
      (hcore : TestsRun engine client tests ⟨[], store⟩ verdicts scene)
      (hpassed : ∀ verdict ∈ verdicts, verdict = .passed)
      (hfirst : BlocksRun engine client scene.store before scene.sent first sent)
      (hlast : BlocksRun engine client scene.store after sent last sent') :
      SuiteRuns suite store (first ++ verdicts :: last) sent'
  | coreFails {before after : List SuiteBlock} {tests : List TestCase}
      {verdicts : List ExecutionStatus} {scene : Scene}
      (hsplit : suite.blocks = before ++ .core tests :: after)
      (hbefore : ∀ block ∈ before, block.isCore = false)
      (hcore : TestsRun engine client tests ⟨[], store⟩ verdicts scene)
      (hfails : ∃ verdict ∈ verdicts, verdict ≠ .passed) :
      SuiteRuns suite store
        (skippedVerdicts before ++ verdicts :: skippedVerdicts after) scene.sent

end Semantics

/-! ## The relation is functional -/

section Unique

omit [Platform] in
theorem ReplyMeans.unique {expectation : ResolvedResponseExpectation} {store : VariableStore}
    {reply : Except HttpError HttpResponse} {verdict verdict' : ExecutionStatus}
    {after after' : VariableStore} (h : ReplyMeans expectation store reply verdict after)
    (h' : ReplyMeans expectation store reply verdict' after') :
    verdict = verdict' ∧ after = after' := by
  cases h with
  | unanswered =>
    cases h'
    exact ⟨rfl, rfl⟩
  | violated hviolated =>
    cases h' with
    | passes hholds => exact absurd hholds hviolated
    | violated => exact ⟨rfl, rfl⟩
  | passes hholds hcaptured hafter =>
    cases h' with
    | violated hviolated => exact absurd hholds hviolated
    | passes _ hcaptured' hafter' =>
      obtain ⟨values, nodup⟩ := after
      obtain ⟨values', nodup'⟩ := after'
      obtain rfl := hcaptured.unique hcaptured'
      obtain rfl : values = values' := hafter.trans hafter'.symm
      exact ⟨rfl, rfl⟩

variable {engine : ExecutionEngine} {client : HttpClient} {scene last last' : Scene}

theorem TestRuns.unique {test : TestCase} {verdict verdict' : ExecutionStatus}
    (h : TestRuns engine client test scene verdict last)
    (h' : TestRuns engine client test scene verdict' last') :
    verdict = verdict' ∧ last = last' := by
  have hresolves {request : ResolvedHttpRequest} {expectation : ResolvedResponseExpectation}
      (hrequest : RuntimeResolver.resolveRequest engine.resolver scene.store test.request =
        .ok request)
      (hexpectation : RuntimeResolver.resolveExpectation engine.resolver scene.store
        test.expectation = .ok expectation) : ¬ Unresolved engine test scene.store := by
    have hanswered : Answered engine (client scene.sent) test scene.store expectation _ :=
      ⟨request, hrequest, hexpectation, rfl⟩
    exact hanswered.not_unresolved
  cases h with
  | answered hrequest hexpectation hreply =>
    cases h' with
    | answered hrequest' hexpectation' hreply' =>
      obtain rfl := Except.ok.inj (hrequest.symm.trans hrequest')
      obtain rfl := Except.ok.inj (hexpectation.symm.trans hexpectation')
      obtain ⟨rfl, rfl⟩ := hreply.unique hreply'
      exact ⟨rfl, rfl⟩
    | unresolved hunresolved => exact absurd hunresolved (hresolves hrequest hexpectation)
  | unresolved hunresolved =>
    cases h' with
    | answered hrequest hexpectation =>
      exact absurd hunresolved (hresolves hrequest hexpectation)
    | unresolved => exact ⟨rfl, rfl⟩

/-- A block of one test. -/
theorem TestsRun.single {test : TestCase} {verdict : ExecutionStatus}
    (h : TestRuns engine client test scene verdict last) :
    TestsRun engine client [test] scene [verdict] last := by
  by_cases hverdict : verdict = .passed
  · subst hverdict
    exact .next h .nil
  · exact .stop h hverdict

theorem TestsRun.unique {tests : List TestCase} {verdicts verdicts' : List ExecutionStatus}
    (h : TestsRun engine client tests scene verdicts last)
    (h' : TestsRun engine client tests scene verdicts' last') :
    verdicts = verdicts' ∧ last = last' := by
  induction h generalizing verdicts' last' with
  | nil =>
    cases h'
    exact ⟨rfl, rfl⟩
  | next h _ ih =>
    cases h' with
    | next h' hrest' =>
      obtain ⟨-, rfl⟩ := h.unique h'
      obtain ⟨rfl, rfl⟩ := ih hrest'
      exact ⟨rfl, rfl⟩
    | stop h' hverdict => exact absurd (h.unique h').1.symm hverdict
  | stop h hverdict =>
    cases h' with
    | next h' => exact absurd (h.unique h').1 hverdict
    | stop h' =>
      obtain ⟨rfl, rfl⟩ := h.unique h'
      exact ⟨rfl, rfl⟩

theorem BlocksRun.unique {store : VariableStore} {blocks : List SuiteBlock}
    {sent sent' sent'' : List ResolvedHttpRequest}
    {verdicts verdicts' : List (List ExecutionStatus)}
    (h : BlocksRun engine client store blocks sent verdicts sent')
    (h' : BlocksRun engine client store blocks sent verdicts' sent'') :
    verdicts = verdicts' ∧ sent' = sent'' := by
  induction h generalizing verdicts' sent'' with
  | nil =>
    cases h'
    exact ⟨rfl, rfl⟩
  | cons h _ ih =>
    cases h' with
    | cons h' hrest' =>
      obtain ⟨rfl, rfl⟩ := h.unique h'
      obtain ⟨rfl, rfl⟩ := ih hrest'
      exact ⟨rfl, rfl⟩

omit [Platform] in
/-- A suite splits at its first core in one way. -/
theorem core_split_unique {before before' after after' : List SuiteBlock}
    {tests tests' : List TestCase}
    (h : before ++ .core tests :: after = before' ++ .core tests' :: after')
    (hbefore : ∀ block ∈ before, block.isCore = false)
    (hbefore' : ∀ block ∈ before', block.isCore = false) :
    before = before' ∧ tests = tests' ∧ after = after' := by
  induction before generalizing before' with
  | nil =>
    cases before' with
    | nil =>
      obtain ⟨htests, rfl⟩ := List.cons.inj h
      exact ⟨rfl, SuiteBlock.core.inj htests, rfl⟩
    | cons block before' =>
      obtain ⟨rfl, -⟩ := List.cons.inj h
      cases (List.forall_mem_cons.mp hbefore').1
  | cons block before ih =>
    cases before' with
    | nil =>
      obtain ⟨rfl, -⟩ := List.cons.inj h
      cases (List.forall_mem_cons.mp hbefore).1
    | cons block' before' =>
      obtain ⟨rfl, hrest⟩ := List.cons.inj h
      obtain ⟨rfl, htests, hafter⟩ := ih hrest (List.forall_mem_cons.mp hbefore).2
        (List.forall_mem_cons.mp hbefore').2
      exact ⟨rfl, htests, hafter⟩

/-- **A suite has one meaning.** -/
theorem SuiteRuns.unique {suite : TestSuite} {store : VariableStore}
    {verdicts verdicts' : List (List ExecutionStatus)} {sent sent' : List ResolvedHttpRequest}
    (h : SuiteRuns engine client suite store verdicts sent)
    (h' : SuiteRuns engine client suite store verdicts' sent') :
    verdicts = verdicts' ∧ sent = sent' := by
  have hcore {before after : List SuiteBlock} {tests : List TestCase}
      (hsplit : suite.blocks = before ++ .core tests :: after) :
      ¬ ∀ block ∈ suite.blocks, block.isCore = false := by
    intro hnone
    cases hnone (.core tests) (by rw [hsplit]; simp)
  -- both runs have the same core, or none
  cases h with
  | withoutCore hnone h =>
    cases h' with
    | withoutCore _ h' => exact h.unique h'
    | corePasses hsplit => exact absurd hnone (hcore hsplit)
    | coreFails hsplit => exact absurd hnone (hcore hsplit)
  | corePasses hsplit hbefore hrun hpassed hfirst hlast =>
    cases h' with
    | withoutCore hnone => exact absurd hnone (hcore hsplit)
    | corePasses hsplit' hbefore' hrun' _ hfirst' hlast' =>
      obtain ⟨rfl, rfl, rfl⟩ := core_split_unique (hsplit.symm.trans hsplit') hbefore hbefore'
      obtain ⟨rfl, rfl⟩ := hrun.unique hrun'
      obtain ⟨rfl, rfl⟩ := hfirst.unique hfirst'
      obtain ⟨rfl, rfl⟩ := hlast.unique hlast'
      exact ⟨rfl, rfl⟩
    | coreFails hsplit' hbefore' hrun' hfails =>
      obtain ⟨rfl, rfl, rfl⟩ := core_split_unique (hsplit.symm.trans hsplit') hbefore hbefore'
      obtain ⟨rfl, -⟩ := hrun.unique hrun'
      obtain ⟨verdict, hmem, hverdict⟩ := hfails
      exact absurd (hpassed verdict hmem) hverdict
  | coreFails hsplit hbefore hrun hfails =>
    cases h' with
    | withoutCore hnone => exact absurd hnone (hcore hsplit)
    | corePasses hsplit' hbefore' hrun' hpassed =>
      obtain ⟨rfl, rfl, rfl⟩ := core_split_unique (hsplit.symm.trans hsplit') hbefore hbefore'
      obtain ⟨rfl, -⟩ := hrun.unique hrun'
      obtain ⟨verdict, hmem, hverdict⟩ := hfails
      exact absurd (hpassed verdict hmem) hverdict
    | coreFails hsplit' hbefore' hrun' =>
      obtain ⟨rfl, rfl, rfl⟩ := core_split_unique (hsplit.symm.trans hsplit') hbefore hbefore'
      obtain ⟨rfl, rfl⟩ := hrun.unique hrun'
      exact ⟨rfl, rfl⟩

end Unique

end Rettp
