import Rettp.Meaning

/-!
# The executor runs what a suite means

A run and the meaning of its suite are compared store by store: the variables of the run stand for
those of the meaning when they have the same names, in the same order, and read the same
(`VariableStore.StandsFor`). One test keeps this (`executeTest_means`), hence a block does, and a
checked suite comes to exactly the verdicts and the requests that it means (`execute_means`).
-/

namespace Rettp

/-! ## Stores -/

/-- The variables of a run stand for those of the meaning. -/
structure VariableStore.StandsFor (s t : VariableStore) : Prop where
  names : s.names = t.names
  reads : ∀ name, s.read name = t.read name

theorem VariableStore.StandsFor.refl (s : VariableStore) : s.StandsFor s := ⟨rfl, fun _ => rfl⟩

theorem VariableStore.StandsFor.agreeOn {s t : VariableStore} (h : s.StandsFor t)
    (names : Set VariableName) : s.AgreeOn names t := fun name _ => h.reads name

/-- A staged value stands for a captured one. -/
def StagedAs (entry : VariableName × VariableValue) (capture : VariableName × Json) : Prop :=
  entry.1 = capture.1 ∧ entry.2.read = .json capture.2

theorem keys_asVariables {staged : List (VariableName × VariableValue)}
    {captured : List (VariableName × Json)} (h : List.Forall₂ StagedAs staged captured) :
    IndexMap.keys staged = IndexMap.keys (asVariables captured) := by
  induction h with
  | nil => rfl
  | cons hentry _ ih => exact congrArg₂ List.cons hentry.1 ih

theorem read_asVariables {staged : List (VariableName × VariableValue)}
    {captured : List (VariableName × Json)} (h : List.Forall₂ StagedAs staged captured)
    (name : VariableName) : (IndexMap.get staged name).map VariableValue.read =
      (IndexMap.get (asVariables captured) name).map VariableValue.read := by
  induction h with
  | nil => rfl
  | @cons entry capture staged captured hentry _ ih =>
    rw [asVariables, List.map_cons, IndexMap.get_cons, IndexMap.get_cons, hentry.1]
    split
    · exact congrArg some hentry.2
    · exact ih

/-- **A commit** of what stands for the captured values. -/
theorem VariableStore.StandsFor.commit {s t after : VariableStore} {pending : PendingCaptures}
    {captured : List (VariableName × Json)} (h : s.StandsFor t)
    (hstaged : List.Forall₂ StagedAs pending.values captured)
    (hcommit : s.commit pending = .ok after) :
    ∃ after', after'.values = t.values ++ asVariables captured ∧ after.StandsFor after' := by
  have hvalues := commit_ok hcommit
  have hnames : after.names = IndexMap.keys (t.values ++ asVariables captured) := by
    rw [VariableStore.names, hvalues, IndexMap.keys_append, IndexMap.keys_append,
      keys_asVariables hstaged]
    exact congrArg (· ++ _) h.names
  refine ⟨⟨t.values ++ asVariables captured, hnames ▸ after.nodup⟩, rfl, hnames, fun name => ?_⟩
  rw [read_commit hcommit, h.reads name, read_asVariables hstaged, VariableStore.read,
    VariableStore.read, VariableStore.get, VariableStore.get, IndexMap.get_append, Option.map_or]

/-! ## One test -/

/-- Only a JSON body is captured from. -/
theorem ResolvedResponseExpectation.json_of_captures {expected : ResolvedResponseExpectation}
    (h : expected.captures ≠ []) : ∃ assertion, expected.body = some (.json assertion) := by
  rw [ResolvedResponseExpectation.captures] at h
  split at h
  · next assertion hbody => exact ⟨assertion, hbody⟩
  · exact absurd rfl h

/-- What resolution gives for a test of a checked suite. -/
def Attempt.Regular [Platform] (engine : ExecutionEngine) (attempt : Attempt) : Prop :=
  ∀ expectation, RuntimeResolver.resolveExpectation engine.resolver attempt.store
    attempt.test.expectation = .ok expectation →
    ∀ object, expectation.body = some (.json object) → object.Regular

variable [Platform]

namespace CaptureEngine

omit [Platform] in
/-- What reads as values of the response stands for them. -/
theorem stagedAs_of_reads {response : Json} {raw : ByteArray} {actual : HttpResponse}
    (hactual : actual.body = .json raw response) {captures : List (VariableName × List String)}
    {staged : List (VariableName × VariableValue)}
    (h : List.Forall₂ (Reads response) staged captures) :
    ∃ captured, List.Forall₂ StagedAs staged captured ∧
      List.Forall₂ (fun entry capture => entry.1 = capture.1 ∧
        ∃ raw value, actual.body = .json raw value ∧ value.follow capture.2 = some entry.2)
        captured captures := by
  induction h with
  | nil => exact ⟨[], .nil, .nil⟩
  | @cons entry capture staged captures hentry _ ih =>
    obtain ⟨captured, hstaged, hcaptured⟩ := ih
    obtain ⟨hname, -, value, hjson, hvalue⟩ := hentry
    have hread : entry.2.read = .json value := by
      obtain ⟨name, stored⟩ := entry
      cases stored with
      | text => cases hjson
      | json => exact congrArg VariableValue.json (Option.some.inj hjson)
      | sharedJson => exact congrArg VariableValue.json (Option.some.inj hjson)
    exact ⟨(entry.1, value) :: captured, .cons ⟨rfl, hread⟩ hstaged,
      .cons ⟨hname, raw, response, hactual, hvalue⟩ hcaptured⟩

/-- What is staged for a JSON body reads as values of the response. -/
theorem reads_of_evaluate {config : AssertionConfig} {expected : ResolvedResponseExpectation}
    {assertion : ResolvedObjectAssertion} {actual : HttpResponse} {raw : ByteArray}
    {response : Json} (hbody : expected.body = some (.json assertion))
    (hactual : actual.body = .json raw response)
    (hsuccess : (Rettp.evaluate config expected actual).isSuccess = true) {report : AssertionReport}
    {pending : PendingCaptures} (h : evaluate config expected actual = .ok ⟨report, some pending⟩) :
    List.Forall₂ (Reads response) pending.values (assertion.captures []) := by
  obtain ⟨object, hobject, -⟩ := object_of_success hbody hactual hsuccess
  unfold evaluate at h
  simp only [hsuccess, hbody, hactual, hobject, Bool.not_true, Bool.false_eq_true, if_false] at h
  by_cases hcontains : containsCapture assertion = true
  · simp only [hcontains, Bool.not_true, Bool.false_eq_true, if_false] at h
    have hextracts := extractObject_root assertion hobject
    cases hresult : extractObject assertion object none [] "$" PendingCaptures.new with
    | error e =>
      rw [hresult] at h
      cases h
    | ok staged =>
      rw [hresult] at h hextracts
      obtain ⟨values, hvalues, hreads⟩ := hextracts
      cases h
      rwa [hvalues]
  · rw [Bool.not_eq_true] at hcontains
    simp only [hcontains, Bool.not_false, if_true] at h
    cases h
    rw [captures_eq_nil assertion hcontains]
    exact .nil

/-- **What is staged** stands for what is captured. -/
theorem evaluate_captured {config : AssertionConfig} {expected : ResolvedResponseExpectation}
    {actual : HttpResponse} {report : AssertionReport} {pending : PendingCaptures}
    (h : evaluate config expected actual = .ok ⟨report, some pending⟩) :
    ∃ captured, List.Forall₂ StagedAs pending.values captured ∧
      Captured expected actual captured := by
  have hevaluated := evaluate_evaluated config expected actual
  rw [h] at hevaluated
  cases hevaluated with
  | success hsuccess _ hnames =>
    by_cases hnil : expected.captures = []
    · rw [hnil, List.map_nil, PendingCaptures.names, IndexMap.keys, List.map_eq_nil_iff] at hnames
      refine ⟨[], hnames ▸ .nil, ?_⟩
      unfold Captured
      rw [hnil]
      exact .nil
    · obtain ⟨assertion, hbody⟩ := ResolvedResponseExpectation.json_of_captures hnil
      have hcaptures : expected.captures = assertion.captures [] := by
        rw [ResolvedResponseExpectation.captures, hbody]
      cases hactual : actual.body with
      | json raw response =>
        have hreads := reads_of_evaluate hbody hactual hsuccess h
        obtain ⟨captured, hstaged, hcaptured⟩ := stagedAs_of_reads hactual hreads
        refine ⟨captured, hstaged, ?_⟩
        unfold Captured
        rw [hcaptures]
        exact hcaptured
      | _ =>
        have hcontains : containsCapture assertion = true := by
          rw [← Bool.not_eq_false]
          exact fun hcontains => hnil (hcaptures.trans (captures_eq_nil assertion hcontains _))
        unfold evaluate at h
        simp only [hsuccess, hbody, hcontains, hactual, Bool.not_true, Bool.false_eq_true,
          if_false] at h
        cases h

end CaptureEngine

section Test

variable {engine : ExecutionEngine} (client : HttpClient)
  (hlimit : engine.resolver.maxResolutionDepth ≤ engine.assertions.maxJsonDepth)

/-- Evaluation succeeds when the response is as expected. -/
theorem isSuccess_iff_holds (config : AssertionConfig) {expected : ResolvedResponseExpectation}
    (actual : HttpResponse) (hn : expected.NestedOnObjects)
    (hd : expected.CoveredBy config.maxJsonDepth) :
    (evaluate config expected actual).isSuccess = true ↔ ExpectationHolds expected actual := by
  have hbody : bodyFailures config.maxJsonDepth expected.body actual = [] ↔
      ∀ body, expected.body = some body → BodyHolds actual body := by
    cases hb : expected.body with
    | none => simp [bodyFailures]
    | some body =>
      rw [bodyFailures_eq_nil_iff (fun a ha => hn a (hb.trans (congrArg some ha)))
        (fun a ha => hd a (hb.trans (congrArg some ha)))]
      simp
  rw [evaluate_isSuccess_iff, expectationFailures, List.append_eq_nil_iff,
    List.append_eq_nil_iff, statusFailures_eq_nil_iff, headersFailures_eq_nil_iff, hbody]
  exact ⟨fun h => ⟨h.1.1, h.1.2, h.2⟩, fun h => ⟨⟨h.status, h.headers⟩, h.body⟩⟩

include hlimit in
/-- **An answer.** -/
theorem concludeTest_means {test : TestCase} {s t : VariableStore} (h : s.StandsFor t)
    (hsound : Attempt.Sound engine ⟨test, s⟩) (hregular : Attempt.Regular engine ⟨test, s⟩)
    {expectation : ResolvedResponseExpectation}
    (hexpectation : RuntimeResolver.resolveExpectation engine.resolver s test.expectation =
      .ok expectation) (response : HttpResponse) :
    ∃ after, ReplyMeans expectation t (.ok response)
        (concludeTest engine test s expectation response).1.status after ∧
      (concludeTest engine test s expectation response).2.StandsFor after := by
  have hobject := hregular expectation hexpectation
  have hdecides := isSuccess_iff_holds engine.assertions response
    (fun object hbody => (hobject object hbody).nestedOnObjects)
    (RuntimeResolver.resolveExpectation_coveredBy hexpectation hlimit)
  obtain ⟨⟨report, pending⟩, hevaluation, hcommits⟩ :=
    hsound.captures expectation hexpectation response
  have hevaluated := CaptureEngine.evaluate_evaluated engine.assertions expectation response
  rw [hevaluation] at hevaluated
  unfold concludeTest
  rw [hevaluation]
  dsimp only
  cases hevaluated with
  | failure hfailure =>
    rw [hfailure]
    refine ⟨t, .violated fun hholds => ?_, h⟩
    rw [hdecides.mpr hholds] at hfailure
    cases hfailure
  | success hsuccess staged hnames =>
    rw [hsuccess]
    obtain ⟨captured, hstaged, hcaptured⟩ := CaptureEngine.evaluate_captured hevaluation
    obtain ⟨after, hcommit⟩ := hcommits staged rfl
    change s.commit staged = .ok after at hcommit
    obtain ⟨after', hafter, hstands⟩ := h.commit hstaged hcommit
    simp only [Bool.not_true, Bool.false_eq_true, if_false]
    rw [hcommit]
    exact ⟨after', .passes (hdecides.mp hsuccess) hcaptured hafter, hstands⟩

variable (clock : Clock)

include hlimit in
/-- **One test.** -/
theorem executeTest_means {test : TestCase} {s t : VariableStore} (h : s.StandsFor t)
    (hsound : Attempt.Sound engine ⟨test, s⟩) (hregular : Attempt.Regular engine ⟨test, s⟩)
    (w : World) :
    let run := executeTest engine client clock test s w
    ∃ after, TestRuns engine client test ⟨w.sent, t⟩ run.1.status ⟨run.2.2.sent, after⟩ ∧
      run.2.1.StandsFor after := by
  intro run
  obtain ⟨hresult, hafter, hsent, -⟩ := executeTest_spec engine client clock test s w
  obtain ⟨hrequest, hexpectation⟩ := resolve_relevant engine (h.agreeOn test.relevant)
  rw [← TestResult.untimed_status, hresult, hafter, hsent]
  unfold testOutcome requestOf
  dsimp only
  cases hr : RuntimeResolver.resolveRequest engine.resolver s test.request with
  | error e =>
    rw [Option.toList_none, List.append_nil]
    exact ⟨t, .unresolved (.inl ⟨e, hrequest.symm.trans hr⟩), h⟩
  | ok request =>
    cases he : RuntimeResolver.resolveExpectation engine.resolver s test.expectation with
    | error e =>
      rw [Option.toList_none, List.append_nil]
      exact ⟨t, .unresolved (.inr ⟨e, hexpectation.symm.trans he⟩), h⟩
    | ok expectation =>
      have hanswered {reply : Except HttpError HttpResponse} {verdict : ExecutionStatus}
          {after : VariableStore} (hreply : client w.sent request = reply)
          (hmeans : ReplyMeans expectation t reply verdict after) :
          TestRuns engine client test ⟨w.sent, t⟩ verdict ⟨w.sent ++ [request], after⟩ :=
        .answered (hrequest.symm.trans hr) (hexpectation.symm.trans he) (hreply.symm ▸ hmeans)
      dsimp only [Option.toList_some]
      cases hreply : client w.sent request with
      | error e => exact ⟨t, hanswered hreply .unanswered, h⟩
      | ok response =>
        obtain ⟨after, hmeans, hstands⟩ :=
          concludeTest_means hlimit h hsound hregular he response
        exact ⟨after, hanswered hreply hmeans, hstands⟩

end Test

/-! ## Blocks -/

/-- The verdicts on the tests of a block. -/
def BlockResult.verdicts (result : BlockResult) : List ExecutionStatus :=
  result.tests.map (·.status)

omit [Platform] in
/-- A skipped block. -/
theorem verdicts_skippedBlocks (blocks : List SuiteBlock) (reason : String) :
    (blocks.map (skippedBlock · reason)).map BlockResult.verdicts = skippedVerdicts blocks := by
  rw [List.map_map]
  refine List.map_congr_left fun block _ => ?_
  cases block with
  | core tests => exact List.map_map
  | pipeline name tests => exact List.map_map
  | test test => rfl

section Blocks

variable {engine : ExecutionEngine} (client : HttpClient) (clock : Clock)
  (hlimit : engine.resolver.maxResolutionDepth ≤ engine.assertions.maxJsonDepth)
  {context : ValidationContext} {ast : SuiteAst} (hchecked : ast.Checked context)

/-- The test of a checked suite at a scene. -/
theorem TestRules.regular {scope : Finset VariableName} {limit : Nat} {test : TestAst}
    (h : TestRules scope limit test) (store : VariableStore) :
    Attempt.Regular engine ⟨test.toCase, store⟩ := by
  intro expectation hexpectation object hobject
  obtain ⟨source, hsource, hrules⟩ := h.toCase_expectation
  rw [hsource] at hexpectation
  exact RuntimeResolver.resolveExpectation_regular hrules hexpectation hobject

include hlimit hchecked

/-- **The tests of a block**, from a test that is reached in scope on. -/
theorem run_means (failedStatus : ExecutionStatus → ExecutionStatus) (reason : String)
    {block : BlockAst} (hblock : block ∈ ast.blocks) (tests : List TestAst)
    {before : List TestAst} (hsplit : block.tests = before ++ tests) {b : BlockState}
    (hscope : b.store.InScope (visible context ast block before)) {t : VariableStore}
    (h : b.store.StandsFor t) :
    let run := FailFast.run (blockStep engine client clock failedStatus)
      (fun r => r.status == .passed) (fun t => TestResult.skipped t.name reason)
      (tests.map TestAst.toCase) b
    ∃ after, TestsRun engine client (tests.map TestAst.toCase) ⟨b.world.sent, t⟩
        (run.1.map (·.status)) ⟨run.2.world.sent, after⟩ ∧ run.2.store.StandsFor after := by
  induction tests generalizing before b t with
  | nil => exact ⟨t, .nil, h⟩
  | cons test tests ih =>
    obtain ⟨hrules, hfinite⟩ := hchecked.rulesAt hblock hsplit
    obtain ⟨after, htest, hstands⟩ := executeTest_means client hlimit clock h
      (hrules.sound hfinite hscope) (hrules.regular b.store) b.world
    cases hstatus :
        (blockStep engine client clock failedStatus test.toCase b).1.status == .passed with
    | true =>
      have hpassed := beq_iff_eq.mp hstatus
      have hnext := hrules.inScope_of_passed engine client clock hscope hpassed
      rw [← visible_snoc] at hnext
      obtain ⟨last, hrest, hlast⟩ := ih (by rw [hsplit, List.append_cons])
        (b := (blockStep engine client clock failedStatus test.toCase b).2) hnext hstands
      dsimp only
      rw [List.map_cons, FailFast.run_cons_ok hstatus, List.map_cons, hpassed]
      change (executeTest engine client clock test.toCase b.store b.world).1.status = _ at hpassed
      rw [hpassed] at htest
      exact ⟨last, .next htest hrest, hlast⟩
    | false =>
      dsimp only
      rw [List.map_cons, FailFast.run_cons_fail hstatus, List.map_cons, List.map_map]
      exact ⟨after, .stop htest (beq_eq_false_iff_ne.mp hstatus), hstands⟩

/-- The core, with the variables that it leaves to the other blocks. -/
theorem executeCore_means {core : CoreBlockAst} (hblock : .core core ∈ ast.blocks)
    {s t : VariableStore} (hscope : s.InScope (visible context ast (.core core) []))
    (h : s.StandsFor t) (w : World) :
    let run := executeCore engine client clock (core.tests.map TestAst.toCase) s w
    ∃ after, TestsRun engine client (core.tests.map TestAst.toCase) ⟨w.sent, t⟩ run.1.verdicts
        ⟨run.2.2.2.sent, after⟩ ∧ run.2.2.1.StandsFor after :=
  run_means client clock hlimit hchecked coreStatus coreFailedReason hblock core.tests rfl
    (b := ⟨.passed, s, (w.now clock).2⟩) hscope h

/-- A block. -/
theorem executeBlock_means {block : BlockAst} (hblock : block ∈ ast.blocks) {s t : VariableStore}
    (hscope : s.InScope (visible context ast block [])) (h : s.StandsFor t) (w : World) :
    let run := executeBlock engine client clock s block.toBlock w
    ∃ after, TestsRun engine client block.toBlock.tests ⟨w.sent, t⟩ run.1.verdicts
      ⟨run.2.sent, after⟩ := by
  cases block with
  | core core =>
    obtain ⟨after, hrun, -⟩ := executeCore_means client clock hlimit hchecked hblock hscope h w
    exact ⟨after, hrun⟩
  | pipeline pipeline =>
    obtain ⟨after, hrun, -⟩ := run_means client clock hlimit hchecked (fun _ => .failed)
      pipelineFailedReason hblock pipeline.tests rfl (b := ⟨.passed, s, (w.now clock).2⟩) hscope h
    exact ⟨after, hrun⟩
  | test test =>
    have hsplit : (BlockAst.test test).tests = [] ++ test :: [] := rfl
    obtain ⟨hrules, hfinite⟩ := hchecked.rulesAt hblock hsplit
    obtain ⟨after, hrun, -⟩ := executeTest_means client hlimit clock h
      (hrules.sound hfinite hscope) (hrules.regular s) w
    exact ⟨after, .single hrun⟩

/-- Blocks one after the other. -/
theorem executeAll_means {blocks : List BlockAst} (hblocks : ∀ b ∈ blocks, b ∈ ast.blocks)
    {s t : VariableStore} (hscope : ∀ b ∈ blocks, s.InScope (visible context ast b []))
    (h : s.StandsFor t) (w : World) :
    let run := executeAll engine client clock s (blocks.map BlockAst.toBlock) w
    BlocksRun engine client t (blocks.map BlockAst.toBlock) w.sent
      (run.1.map BlockResult.verdicts) run.2.sent := by
  induction blocks generalizing w with
  | nil => exact .nil
  | cons block blocks ih =>
    obtain ⟨hblock, hblocks⟩ := List.forall_mem_cons.mp hblocks
    obtain ⟨hfirst, hscope⟩ := List.forall_mem_cons.mp hscope
    obtain ⟨after, hrun⟩ := executeBlock_means client clock hlimit hchecked hblock hfirst h w
    exact .cons hrun (ih hblocks hscope (executeBlock engine client clock s block.toBlock w).2)

/-! ## Suites -/

/-- A suite without a core. -/
theorem execute_means_without_core (hpre : preflight ast.toSuite = .ok ()) {s : VariableStore}
    (hscope : s.InScope context.predefinedVariables)
    (hnone : ∀ b ∈ ast.blocks, b.isCore = false) :
    ∃ result w, execute engine client clock ast.toSuite s World.initial = some (result, w) ∧
      SuiteRuns engine client ast.toSuite s (result.blocks.map BlockResult.verdicts) w.sent := by
  obtain ⟨-, htests⟩ := SuiteAst.coreFirst_of_none hnone
  refine ⟨_, _, execute_of_no_core engine client clock hpre (isCore_map_toBlock hnone) s
    World.initial, ?_⟩
  exact .withoutCore (isCore_map_toBlock hnone) (executeAll_means client clock hlimit hchecked
    (fun _ h => h) (fun b _ => by rw [visible_start (.inr htests)]; exact hscope) (.refl s)
    (World.initial.now clock).2)

/-- A suite with a core: either every block runs, or the core alone. -/
theorem execute_means_with_core (hpre : preflight ast.toSuite = .ok ()) {s : VariableStore}
    (hscope : s.InScope context.predefinedVariables) {before after : List BlockAst}
    {core : CoreBlockAst} (hsplit : ast.blocks = before ++ .core core :: after)
    (hbefore : ∀ b ∈ before, b.isCore = false) (hafter : ∀ b ∈ after, b.isCore = false) :
    ∃ result w, execute engine client clock ast.toSuite s World.initial = some (result, w) ∧
      SuiteRuns engine client ast.toSuite s (result.blocks.map BlockResult.verdicts) w.sent := by
  obtain ⟨-, htests⟩ := SuiteAst.coreFirst_of_split hsplit hbefore hafter
  have hsplit' : ast.toSuite.blocks = before.map BlockAst.toBlock ++
      .core (core.tests.map TestAst.toCase) :: after.map BlockAst.toBlock := by
    rw [SuiteAst.toSuite, hsplit, List.map_append, List.map_cons]
    rfl
  have hmem {block : BlockAst} (h : block ∈ before ∨ block = .core core ∨ block ∈ after) :
      block ∈ ast.blocks := by
    rw [hsplit, List.mem_append, List.mem_cons]
    exact h
  have hscopeCore : s.InScope (visible context ast (.core core) []) := by
    rw [visible_start (.inl rfl)]
    exact hscope
  obtain ⟨scene, hcore, hstands⟩ := executeCore_means client clock hlimit hchecked
    (hmem (.inr (.inl rfl))) hscopeCore (.refl s) (World.initial.now clock).2
  have hran := executeCore_ran engine client clock s (core.tests.map TestAst.toCase)
    (World.initial.now clock).2
  have hpost := (executeCore_sound hchecked engine client clock (hmem (.inr (.inl rfl))) hscopeCore
    (World.initial.now clock).2).2
  have hpass := execute_of_core_passed engine client clock hpre hsplit'
    (isCore_map_toBlock hbefore) (isCore_map_toBlock hafter) s World.initial
  have hfail := execute_of_core_unpassed engine client clock hpre hsplit'
    (isCore_map_toBlock hbefore) s World.initial
  have hstatus := executeCore_status engine client clock s (core.tests.map TestAst.toCase)
    (World.initial.now clock).2
  generalize executeCore engine client clock (core.tests.map TestAst.toCase) s
    (World.initial.now clock).2 = run at *
  have hverdicts : run.1.status = .passed ↔ ∀ verdict ∈ run.1.verdicts, verdict = .passed := by
    rw [hran.passed_iff, BlockResult.verdicts, List.forall_mem_map]
  by_cases hpassed : run.1.status = .passed
  · -- the other blocks start from what the core leaves behind
    have hscope' (b : BlockAst) (hb : b.isCore = false) :
        run.2.2.1.InScope (visible context ast b []) := by
      rw [visible_after_core (.core core) rfl hb, htests]
      exact hpost hpassed
    refine ⟨_, _, hpass (hstatus.trans hpassed), ?_⟩
    have hfirst := executeAll_means client clock hlimit hchecked (fun b hb => hmem (.inl hb))
      (fun b hb => hscope' b (hbefore b hb)) hstands run.2.2.2
    have hlast := executeAll_means client clock hlimit hchecked
      (fun b hb => hmem (.inr (.inr hb))) (fun b hb => hscope' b (hafter b hb)) hstands
      (executeAll engine client clock run.2.2.1 (before.map BlockAst.toBlock) run.2.2.2).2
    dsimp only
    rw [List.map_append, List.map_cons]
    exact .corePasses hsplit' (isCore_map_toBlock hbefore) hcore (hverdicts.mp hpassed) hfirst hlast
  · -- the other blocks are skipped
    refine ⟨_, _, hfail fun h => hpassed (hstatus.symm.trans h), ?_⟩
    dsimp only
    rw [List.map_append, List.map_cons, verdicts_skippedBlocks, verdicts_skippedBlocks]
    refine .coreFails hsplit' (isCore_map_toBlock hbefore) hcore ?_
    rw [hverdicts] at hpassed
    simpa using hpassed

end Blocks

/-- The grammar has no suite without a block. -/
theorem SourceText.ast_blocks_ne_nil {source : SourceText}
    (h : (parse (lex source).tokens).errors = []) : source.ast.blocks ≠ [] := by
  obtain ⟨nesting, hblocks, -⟩ := source.ast_grammar h
  obtain ⟨-, hne⟩ := Phrase.many1_iff.mp hblocks
  exact fun hnil => hne (congrArg (List.map BlockAst.erase) hnil)

/-- An accepted suite passes the checks of the executor. -/
theorem checkSource_preflight {source : SourceText} {context : ValidationContext}
    {suite : TestSuite} (h : checkSource source context = some ⟨some suite, []⟩) :
    preflight suite = .ok () := by
  obtain ⟨-, hparse, hrules, rfl⟩ := checkSource_accepts_iff.mp h
  have hchecked : source.ast.Checked context :=
    ⟨hrules, fun _ hblock _ htest => source.test_finite hparse hblock htest⟩
  exact hchecked.preflight_ok (SourceText.ast_blocks_ne_nil hparse)

/-- A result of the executor is as scheduled. -/
theorem scheduled_of_execute {engine : ExecutionEngine} {client : HttpClient} {clock : Clock}
    {suite : TestSuite} {store : VariableStore} (hpre : preflight suite = .ok ())
    {result : SuiteResult} {w : World}
    (h : execute engine client clock suite store World.initial = some (result, w)) :
    Scheduled engine suite result w.attempts w.sent := by
  obtain ⟨result', w', hrun, hscheduled⟩ : ∃ result w,
      execute engine client clock suite store World.initial = some (result, w) ∧
        Scheduled engine suite result w.attempts w.sent := by
    rcases core_split (preflight_ok_iff.mp hpre).2.1 with
      hnone | ⟨before, tests, after, hsplit, hbefore, hafter⟩
    · exact execute_without_core engine client clock store hpre hnone
    · exact execute_with_core engine client clock store hpre hsplit hbefore hafter
  obtain ⟨rfl, rfl⟩ := Prod.mk.inj (Option.some.inj (h.symm.trans hrun))
  exact hscheduled

/-- A suite passes when all of its verdicts do. -/
theorem Scheduled.passed_iff_verdicts {engine : ExecutionEngine} {suite : TestSuite}
    {result : SuiteResult} {attempts : List Attempt} {sent : List ResolvedHttpRequest}
    (h : Scheduled engine suite result attempts sent) : result.status = .passed ↔
      ∀ block ∈ result.blocks.map BlockResult.verdicts, ∀ verdict ∈ block,
        verdict = ExecutionStatus.passed := by
  rw [h.passed, List.forall_mem_map]
  simp only [BlockResult.verdicts, List.forall_mem_map]

/-- The tests of a checked suite are those of its source. -/
theorem SuiteRules.toSuite_tests {context : ValidationContext} {ast : SuiteAst}
    (h : SuiteRules context ast) {test : TestCase}
    (htest : test ∈ ast.toSuite.blocks.flatMap (·.tests)) :
    ∃ scope given, TestRules scope context.maxDepth given ∧ test = given.toCase := by
  obtain ⟨block, hblock, htest⟩ := List.mem_flatMap.mp htest
  obtain ⟨source, hsource, rfl⟩ := List.mem_map.mp hblock
  rw [BlockAst.tests_toBlock] at htest
  obtain ⟨given, hgiven, rfl⟩ := List.mem_map.mp htest
  obtain ⟨i, hi, rfl⟩ := List.getElem_of_mem hgiven
  exact ⟨_, _, h.tests source hsource i hi, rfl⟩

/-- A run of an accepted suite is one of those that the suite means. -/
theorem execute_suiteRuns {source : SourceText} {context : ValidationContext} {suite : TestSuite}
    (h : checkSource source context = some ⟨some suite, []⟩) {store : VariableStore}
    (hnames : ∀ name, name ∈ store.names ↔ name ∈ context.predefinedVariables)
    {engine : ExecutionEngine}
    (hlimit : engine.resolver.maxResolutionDepth ≤ engine.assertions.maxJsonDepth)
    (client : HttpClient) (clock : Clock) :
    ∃ result w, execute engine client clock suite store World.initial = some (result, w) ∧
      SuiteRuns engine client suite store (result.blocks.map BlockResult.verdicts) w.sent := by
  have hpre := checkSource_preflight h
  obtain ⟨-, hparse, hrules, rfl⟩ := checkSource_accepts_iff.mp h
  have hchecked : source.ast.Checked context :=
    ⟨hrules, fun _ hblock _ htest => source.test_finite hparse hblock htest⟩
  rcases SuiteAst.core_split hrules.core with
    hnone | ⟨before, core, after, hsplit, hbefore, hafter⟩
  · exact execute_means_without_core client clock hlimit hchecked hpre hnames hnone
  · exact execute_means_with_core client clock hlimit hchecked hpre hnames hsplit hbefore hafter

/-- **The executor runs what a suite means.** Let a source be accepted under the names of the
initial variables, and let the limit of resolution be within that of evaluation, as it is by
default. Against every client the verdicts on the tests and the requests that are sent are exactly
those that the suite means. -/
theorem execute_means {source : SourceText} {context : ValidationContext} {suite : TestSuite}
    (h : checkSource source context = some ⟨some suite, []⟩) {store : VariableStore}
    (hnames : ∀ name, name ∈ store.names ↔ name ∈ context.predefinedVariables)
    {engine : ExecutionEngine}
    (hlimit : engine.resolver.maxResolutionDepth ≤ engine.assertions.maxJsonDepth)
    (client : HttpClient) (clock : Clock) :
    ∃ result w, execute engine client clock suite store World.initial = some (result, w) ∧
      ∀ verdicts sent, SuiteRuns engine client suite store verdicts sent ↔
        verdicts = result.blocks.map BlockResult.verdicts ∧ sent = w.sent := by
  obtain ⟨result, w, hrun, hmeans⟩ := execute_suiteRuns h hnames hlimit client clock
  refine ⟨result, w, hrun, fun verdicts sent => ⟨fun h => h.unique hmeans, ?_⟩⟩
  rintro ⟨rfl, rfl⟩
  exact hmeans

omit [Platform] in
/-- Against a server that hands out a token. -/
theorem execute_means_token :
    letI := asciiPlatform
    ∃ suite, checkSource tokenSource .new = some ⟨some suite, []⟩ ∧ ∃ result w,
      execute .default
        (fun _ _ => .ok ⟨200, ResponseHeaders.new, .json ByteArray.empty tokenBody⟩) (fun n => n)
        suite VariableStore.new World.initial = some (result, w) ∧
      ∀ verdicts sent, SuiteRuns .default
        (fun _ _ => .ok ⟨200, ResponseHeaders.new, .json ByteArray.empty tokenBody⟩)
        suite VariableStore.new verdicts sent ↔
          verdicts = result.blocks.map BlockResult.verdicts ∧ sent = w.sent := by
  let := asciiPlatform
  have hreport : (checkSource tokenSource .new).map
      (fun report => (report.suite.isSome, report.diagnostics)) = some (true, []) := by
    decide +kernel
  obtain ⟨⟨suite?, diagnostics⟩, hcheck, hreport⟩ := Option.map_eq_some_iff.mp hreport
  obtain ⟨hsuite, rfl⟩ := Prod.mk.inj hreport
  obtain ⟨suite, rfl⟩ := Option.isSome_iff_exists.mp hsuite
  exact ⟨suite, hcheck, execute_means hcheck
    (fun name => iff_of_false List.not_mem_nil (Finset.notMem_empty name)) (by decide) _ _⟩

end Rettp
