import Rettp.Mentions
import Rettp.Soundness
import Rettp.VariableSources

/-!
# What a run depends on

A run reads the initial variables only where a text of the suite mentions one or a test captures
one: from two stores that agree there, the executor sends the same requests and comes to the same
result (`execute_agree`). A checked suite captures nothing that was there before, so what its
texts do not mention has no influence, whatever else the environment holds
(`unmentioned_variables_unused`).
-/

namespace Rettp

/-! ## What matters to a test, and to a suite -/

/-- The variables that a test looks up or captures. -/
def TestCase.relevant (test : TestCase) : Set VariableName :=
  mentioned test.texts ∪ {name | name ∈ test.expectation.captures}

/-- The variables that the tests of a suite look up or capture. -/
def TestSuite.relevant (suite : TestSuite) : Set VariableName :=
  {name | ∃ block ∈ suite.blocks, ∃ test ∈ block.tests, name ∈ test.relevant}

/-- The variables that the texts of a suite mention. -/
def TestSuite.mentions (suite : TestSuite) : Set VariableName :=
  {name | ∃ block ∈ suite.blocks, ∃ test ∈ block.tests, name ∈ mentioned test.texts}

/-- Two worlds that the client and the clock cannot tell apart. -/
structure World.Alike (w w' : World) : Prop where
  sent : w.sent = w'.sent
  readings : w.readings = w'.readings

theorem World.Alike.refl (w : World) : w.Alike w := ⟨rfl, rfl⟩

namespace VariableStore

variable {s t : VariableStore} {names : Set VariableName}

theorem contains_eq (s : VariableStore) (name : VariableName) :
    s.contains name = (s.read name).isSome := by
  rw [Bool.eq_iff_iff, contains, decide_eq_true_iff, names, read, Option.isSome_map, get,
    IndexMap.get_isSome_iff]

/-- A commit adds what it has for names that are not there. -/
theorem read_commit {s' : VariableStore} {pending : PendingCaptures}
    (h : s.commit pending = .ok s') (name : VariableName) :
    s'.read name =
      (s.read name).or ((IndexMap.get pending.values name).map VariableValue.read) := by
  rw [read, get, commit_ok h, IndexMap.get_append, Option.map_or]
  rfl

/-- **A commit** of names that the stores agree on. -/
theorem AgreeOn.commit (h : s.AgreeOn names t) (pending : PendingCaptures)
    (hpending : ∀ name ∈ pending.names, name ∈ names) :
    Except.Rel Eq (AgreeOn names) (s.commit pending) (t.commit pending) := by
  have hfind : pending.names.find? s.contains = pending.names.find? t.contains := by
    refine List.find?_congr fun name hname => ?_
    rw [contains_eq, contains_eq, h name (hpending name hname)]
  cases hs : s.commit pending with
  | error e =>
    suffices t.commit pending = .error e by
      rw [this]
      exact .error rfl
    unfold VariableStore.commit at hs ⊢
    rw [← hfind]
    split at hs
    · exact hs
    · cases hs
  | ok s' =>
    cases ht : t.commit pending with
    | error e =>
      unfold VariableStore.commit at hs ht
      rw [← hfind] at ht
      split at hs
      · cases hs
      · next hnone => rw [hnone] at ht; cases ht
    | ok t' =>
      refine .ok fun name hname => ?_
      rw [read_commit hs, read_commit ht, h name hname]

end VariableStore

variable [Platform]

section Engine

variable (engine : ExecutionEngine) (client : HttpClient) (clock : Clock)
  {names : Set VariableName} {s t : VariableStore} {w w' : World}

/-! ## One test -/

/-- A test resolves alike. -/
theorem resolve_relevant {test : TestCase} (h : s.AgreeOn test.relevant t) :
    RuntimeResolver.resolveRequest engine.resolver s test.request =
        RuntimeResolver.resolveRequest engine.resolver t test.request ∧
      RuntimeResolver.resolveExpectation engine.resolver s test.expectation =
        RuntimeResolver.resolveExpectation engine.resolver t test.expectation := by
  have htexts : SameTexts test.texts s t := h.mono Set.subset_union_left
  rw [TestCase.texts, sameTexts_append] at htexts
  exact ⟨RuntimeResolver.resolveRequest_sameTexts _ htexts.1,
    RuntimeResolver.resolveExpectation_sameTexts _ htexts.2⟩

/-- What is staged is what the expectation declares. -/
theorem staged_declared {test : TestCase} {store : VariableStore}
    {expectation : ResolvedResponseExpectation} {response : HttpResponse}
    {report : AssertionReport} {pending : PendingCaptures}
    (hexpectation : RuntimeResolver.resolveExpectation engine.resolver store test.expectation =
      .ok expectation)
    (h : CaptureEngine.evaluate engine.assertions expectation response =
      .ok ⟨report, some pending⟩) : pending.names = test.expectation.captures := by
  have hevaluated := CaptureEngine.evaluate_evaluated engine.assertions expectation response
  rw [h, RuntimeResolver.resolveExpectation_captures engine.resolver store hexpectation]
    at hevaluated
  cases hevaluated with
  | success _ staged hstaged => exact hstaged

/-- **One test.** -/
theorem executeTest_agree {test : TestCase} (hrelevant : test.relevant ⊆ names)
    (h : s.AgreeOn names t) (hw : w.Alike w') :
    (executeTest engine client clock test s w).1 = (executeTest engine client clock test t w').1 ∧
      (executeTest engine client clock test s w).2.1.AgreeOn names
        (executeTest engine client clock test t w').2.1 ∧
      (executeTest engine client clock test s w).2.2.Alike
        (executeTest engine client clock test t w').2.2 := by
  obtain ⟨sent, readings, attempts⟩ := w
  obtain ⟨sent', readings', attempts'⟩ := w'
  obtain ⟨rfl, rfl⟩ : sent = sent' ∧ readings = readings' := ⟨hw.sent, hw.readings⟩
  obtain ⟨hrequest, hexpectation⟩ := resolve_relevant engine (h.mono hrelevant)
  unfold executeTest
  dsimp only [World.reach, World.now, World.elapsedMs, World.send]
  rw [hrequest, hexpectation]
  cases RuntimeResolver.resolveRequest engine.resolver t test.request with
  | error e => exact ⟨rfl, h, rfl, rfl⟩
  | ok request =>
    cases hresolved : RuntimeResolver.resolveExpectation engine.resolver t test.expectation with
    | error e => exact ⟨rfl, h, rfl, rfl⟩
    | ok expectation =>
      dsimp only
      cases client sent request with
      | error e => exact ⟨rfl, h, rfl, rfl⟩
      | ok response =>
        dsimp only
        cases hevaluate : CaptureEngine.evaluate engine.assertions expectation response with
        | error e => exact ⟨rfl, h, rfl, rfl⟩
        | ok evaluation =>
          obtain ⟨report, pending⟩ := evaluation
          dsimp only
          cases report.isSuccess with
          | false => exact ⟨rfl, h, rfl, rfl⟩
          | true =>
            cases pending with
            | none => exact ⟨rfl, h, rfl, rfl⟩
            | some pending =>
              dsimp only [Bool.not_true, Bool.false_eq_true, if_false]
              have hcommit := h.commit pending fun name hname =>
                hrelevant (.inr (staged_declared engine hresolved hevaluate ▸ hname))
              generalize s.commit pending = after at hcommit
              generalize t.commit pending = after' at hcommit
              cases hcommit with
              | error he =>
                subst he
                exact ⟨rfl, h, rfl, rfl⟩
              | ok hafter => exact ⟨rfl, hafter, rfl, rfl⟩

/-! ## Blocks -/

/-- The tests of a block. -/
theorem executeTests_agree (failedStatus : ExecutionStatus → ExecutionStatus) (reason : String)
    {tests : List TestCase} (hrelevant : ∀ test ∈ tests, test.relevant ⊆ names)
    (h : s.AgreeOn names t) (hw : w.Alike w') :
    let run := executeTests engine client clock failedStatus reason tests s w
    let run' := executeTests engine client clock failedStatus reason tests t w'
    run.1 = run'.1 ∧ run.2.status = run'.2.status ∧ run.2.store.AgreeOn names run'.2.store ∧
      run.2.world.Alike run'.2.world := by
  obtain ⟨hresults, hstate⟩ := FailFast.run_rel_of_mem
    (blockStep engine client clock failedStatus) (fun r => r.status == .passed)
    (fun t => TestResult.skipped t.name reason) (blockStep engine client clock failedStatus)
    (fun r => r.status == .passed) (fun t => TestResult.skipped t.name reason)
    (fun b b' => b.status = b'.status ∧ b.store.AgreeOn names b'.store ∧ b.world.Alike b'.world)
    Eq tests
    (fun test htest b b' hb => by
      obtain ⟨hstatus, hstore, hworld⟩ := hb
      obtain ⟨hresult, hrest⟩ :=
        executeTest_agree engine client clock (hrelevant test htest) hstore hworld
      refine ⟨hresult, ?_, hrest⟩
      rw [blockStep, blockStep]
      dsimp only
      rw [hresult, hstatus])
    (fun _ => rfl) (fun _ _ hr => by rw [hr]) ⟨.passed, s, w⟩ ⟨.passed, t, w'⟩ ⟨rfl, h, hw⟩
  exact ⟨List.forall₂_eq_eq_eq ▸ hresults, hstate⟩

omit [Platform] in
theorem World.Alike.now (hw : w.Alike w') :
    (w.now clock).1 = (w'.now clock).1 ∧ (w.now clock).2.Alike (w'.now clock).2 :=
  ⟨congrArg clock hw.readings, hw.sent, congrArg (· + 1) hw.readings⟩

omit [Platform] in
theorem World.Alike.elapsedMs (hw : w.Alike w') (started : Nat) :
    (w.elapsedMs clock started).1 = (w'.elapsedMs clock started).1 ∧
      (w.elapsedMs clock started).2.Alike (w'.elapsedMs clock started).2 := by
  obtain ⟨hreading, hworld⟩ := hw.now clock
  exact ⟨congrArg (fun now => min ((now - started) / 1000000) u64Max) hreading, hworld⟩

/-- The core, with the variables that it leaves to the other blocks. -/
theorem executeCore_agree (tests : List TestCase)
    (hrelevant : ∀ test ∈ tests, test.relevant ⊆ names) (h : s.AgreeOn names t)
    (hw : w.Alike w') :
    let run := executeCore engine client clock tests s w
    let run' := executeCore engine client clock tests t w'
    run.1 = run'.1 ∧ run.2.1 = run'.2.1 ∧ run.2.2.1.AgreeOn names run'.2.2.1 ∧
      run.2.2.2.Alike run'.2.2.2 := by
  obtain ⟨hstarted, hnow⟩ := hw.now clock
  obtain ⟨hresults, hstatus, hstore, hworld⟩ :=
    executeTests_agree engine client clock coreStatus coreFailedReason hrelevant h hnow
  obtain ⟨hms, hend⟩ := hworld.elapsedMs clock (w.now clock).1
  unfold executeCore
  dsimp only
  rw [hresults, hstatus, ← hstarted, hms]
  exact ⟨rfl, rfl, hstore, hend⟩

/-- A block that starts from agreeing variables. -/
theorem executeBlock_agree {block : SuiteBlock}
    (hrelevant : ∀ test ∈ block.tests, test.relevant ⊆ names) (h : s.AgreeOn names t)
    (hw : w.Alike w') :
    (executeBlock engine client clock s block w).1 =
        (executeBlock engine client clock t block w').1 ∧
      (executeBlock engine client clock s block w).2.Alike
        (executeBlock engine client clock t block w').2 := by
  cases block with
  | core tests =>
    obtain ⟨hresult, -, -, hworld⟩ := executeCore_agree engine client clock _ hrelevant h hw
    exact ⟨hresult, hworld⟩
  | pipeline name tests =>
    change ∀ test ∈ tests, _ at hrelevant
    obtain ⟨hstarted, hnow⟩ := hw.now clock
    obtain ⟨hresults, hstatus, -, hworld⟩ := executeTests_agree engine client clock
      (fun _ => .failed) pipelineFailedReason hrelevant h hnow
    obtain ⟨hms, hend⟩ := hworld.elapsedMs clock (w.now clock).1
    rw [executeBlock, executeBlock]
    dsimp only [executePipeline]
    rw [hresults, hstatus, ← hstarted, hms]
    exact ⟨rfl, hend⟩
  | test test =>
    obtain ⟨hresult, -, hworld⟩ := executeTest_agree engine client clock
      (hrelevant test (List.mem_singleton_self _)) h hw
    exact ⟨congrArg BlockResult.test hresult, hworld⟩

/-- Blocks one after the other. -/
theorem executeAll_agree {blocks : List SuiteBlock}
    (hrelevant : ∀ block ∈ blocks, ∀ test ∈ block.tests, test.relevant ⊆ names)
    (h : s.AgreeOn names t) (hw : w.Alike w') :
    (executeAll engine client clock s blocks w).1 =
        (executeAll engine client clock t blocks w').1 ∧
      (executeAll engine client clock s blocks w).2.Alike
        (executeAll engine client clock t blocks w').2 := by
  induction blocks generalizing w w' with
  | nil => exact ⟨rfl, hw⟩
  | cons block blocks ih =>
    rw [List.forall_mem_cons] at hrelevant
    obtain ⟨hresult, hworld⟩ := executeBlock_agree engine client clock hrelevant.1 h hw
    obtain ⟨hresults, hend⟩ := ih hrelevant.2 hworld
    rw [executeAll, executeAll]
    dsimp only
    rw [hresult, hresults]
    exact ⟨rfl, hend⟩

/-! ## Suites -/

/-- **A run depends on the relevant variables alone.** From two stores that agree on what the
texts of a suite mention and on what its tests capture, the executor comes to the same result,
sends the same requests and reads the clock as often. -/
theorem execute_agree {suite : TestSuite} (h : s.AgreeOn suite.relevant t) (hw : w.Alike w') :
    ∃ result after after', execute engine client clock suite s w = some (result, after) ∧
      execute engine client clock suite t w' = some (result, after') ∧ after.Alike after' := by
  have hrelevant : ∀ block ∈ suite.blocks, ∀ test ∈ block.tests, test.relevant ⊆ suite.relevant :=
    fun block hblock test htest _ hname => ⟨block, hblock, test, htest, hname⟩
  obtain ⟨hstarted, hnow⟩ := hw.now clock
  cases hpre : preflight suite with
  | error reason =>
    obtain ⟨hms, hend⟩ := hnow.elapsedMs clock (w.now clock).1
    unfold execute
    dsimp only
    rw [hpre, ← hstarted]
    dsimp only
    rw [hms]
    exact ⟨_, _, _, rfl, rfl, hend⟩
  | ok _ =>
    obtain ⟨-, hcores, -⟩ := preflight_ok_iff.mp hpre
    rcases core_split hcores with hnone | ⟨before, tests, after, hsplit, hbefore, hafter⟩
    · -- every block runs from the initial variables
      have hrun := execute_of_no_core engine client clock hpre hnone s w
      have hrun' := execute_of_no_core engine client clock hpre hnone t w'
      obtain ⟨hblocks, hworld⟩ := executeAll_agree engine client clock hrelevant h hnow
      obtain ⟨hms, hend⟩ := hworld.elapsedMs clock (w.now clock).1
      dsimp only at hrun hrun'
      rw [← hstarted, ← hblocks, ← hms] at hrun'
      exact ⟨_, _, _, hrun, hrun', hend⟩
    · have hmem {block : SuiteBlock}
          (hblock : block ∈ before ∨ block = .core tests ∨ block ∈ after) :
          ∀ test ∈ block.tests, test.relevant ⊆ suite.relevant := by
        refine hrelevant block ?_
        rw [hsplit, List.mem_append, List.mem_cons]
        exact hblock
      have hcore := executeCore_agree engine client clock tests
        (hmem (.inr (.inl rfl))) h hnow
      have hpass := execute_of_core_passed engine client clock hpre hsplit hbefore hafter s w
      have hpass' := execute_of_core_passed engine client clock hpre hsplit hbefore hafter t w'
      have hfail := execute_of_core_unpassed engine client clock hpre hsplit hbefore s w
      have hfail' := execute_of_core_unpassed engine client clock hpre hsplit hbefore t w'
      dsimp only at hcore hpass hpass' hfail hfail'
      rw [← hstarted] at hpass' hfail'
      generalize executeCore engine client clock tests s (w.now clock).2 = run at *
      generalize executeCore engine client clock tests t (w'.now clock).2 = run' at *
      obtain ⟨result, status, post, world⟩ := run
      obtain ⟨result', status', post', world'⟩ := run'
      obtain ⟨rfl, rfl, hpost, hworld⟩ := hcore
      dsimp only at *
      by_cases hpassed : status = .passed
      · -- the other blocks start from what the core leaves behind
        obtain ⟨hfirst, hworld⟩ := executeAll_agree engine client clock
          (fun block hblock => hmem (.inl hblock)) hpost hworld
        obtain ⟨hlast, hworld⟩ := executeAll_agree engine client clock
          (fun block hblock => hmem (.inr (.inr hblock))) hpost hworld
        obtain ⟨hms, hend⟩ := hworld.elapsedMs clock (w.now clock).1
        have hrun' := hpass' hpassed
        rw [← hfirst, ← hlast, ← hms] at hrun'
        exact ⟨_, _, _, hpass hpassed, hrun', hend⟩
      · -- the other blocks are skipped
        obtain ⟨hms, hend⟩ := hworld.elapsedMs clock (w.now clock).1
        have hrun' := hfail' hpassed
        rw [← hms] at hrun'
        exact ⟨_, _, _, hfail hpassed, hrun', hend⟩

end Engine

/-! ## Checked suites -/

/-- A checked suite captures nothing that was there before. -/
theorem SuiteRules.captures_new {context : ValidationContext} {ast : SuiteAst}
    (h : SuiteRules context ast) {block : SuiteBlock} (hblock : block ∈ ast.toSuite.blocks)
    {test : TestCase} (htest : test ∈ block.tests) {name : VariableName}
    (hname : name ∈ test.expectation.captures) : name ∉ context.predefinedVariables := by
  obtain ⟨block, hmem, rfl⟩ := List.mem_map.mp hblock
  rw [BlockAst.tests_toBlock] at htest
  obtain ⟨test, hmem', rfl⟩ := List.mem_map.mp htest
  obtain ⟨i, hi, rfl⟩ := List.getElem_of_mem hmem'
  have hnew := (h.tests block hmem i hi).captures_new hname
  rw [visible, Finset.mem_union, Finset.mem_union, not_or, not_or] at hnew
  exact hnew.1.1

/-- **What a source does not mention has no influence.** Let a source be accepted under the names of
two stores that read the same at every variable that the suite mentions. Then it stands for the same
suite under both, and every run sends the same requests and comes to the same result from either. -/
theorem unmentioned_variables_unused {source : SourceText} {context context' : ValidationContext}
    {suite suite' : TestSuite} (h : checkSource source context = some ⟨some suite, []⟩)
    (h' : checkSource source context' = some ⟨some suite', []⟩) {s t : VariableStore}
    (hs : ∀ name, name ∈ s.names ↔ name ∈ context.predefinedVariables)
    (ht : ∀ name, name ∈ t.names ↔ name ∈ context'.predefinedVariables)
    (hagree : s.AgreeOn suite.mentions t) (engine : ExecutionEngine) (client : HttpClient)
    (clock : Clock) :
    suite' = suite ∧ ∃ result w w',
      execute engine client clock suite s World.initial = some (result, w) ∧
      execute engine client clock suite t World.initial = some (result, w') ∧
      w.sent = w'.sent := by
  obtain ⟨-, -, hrules, rfl⟩ := checkSource_accepts_iff.mp h
  obtain ⟨-, -, hrules', rfl⟩ := checkSource_accepts_iff.mp h'
  have hrelevant : s.AgreeOn source.ast.toSuite.relevant t := by
    rintro name ⟨block, hblock, test, htest, hname | hname⟩
    · exact hagree name ⟨block, hblock, test, htest, hname⟩
    · -- a capture is new to both stores
      have hnew := hrules.captures_new hblock htest hname
      have hnew' := hrules'.captures_new hblock htest hname
      rw [← hs] at hnew
      rw [← ht] at hnew'
      rw [VariableStore.read, VariableStore.read, VariableStore.get_eq_none_iff.mpr hnew,
        VariableStore.get_eq_none_iff.mpr hnew']
  obtain ⟨result, w, w', hrun, hrun', hworld⟩ := execute_agree engine client clock hrelevant
    (World.Alike.refl World.initial)
  exact ⟨rfl, result, w, w', hrun, hrun', hworld.sent⟩

/-- A test that mentions one variable. -/
def hostSource : SourceText where
  name := "host.rttp"
  content := "test \"health\" \x7b request GET \"/$\x7bHOST\x7d\"
    expect \x7b status = 200 \x7d \x7d"

/-- A store with that variable. -/
def hostStore : VariableStore := VariableStore.new.insertPredefined ⟨"HOST"⟩ (.text "a")

/-- The same variable, and one that is not mentioned. -/
def secretStore : VariableStore := hostStore.insertPredefined ⟨"SECRET"⟩ (.text "s")

omit [Platform] in
/-- From both stores the same is sent. -/
theorem unmentioned_variables_unused_secret :
    letI := asciiPlatform
    ∃ suite, checkSource hostSource (validationContext hostStore) = some ⟨some suite, []⟩ ∧
      ∃ result w w',
        execute .default (fun _ _ => .error (.timeout "")) (fun n => n) suite hostStore
          World.initial = some (result, w) ∧
        execute .default (fun _ _ => .error (.timeout "")) (fun n => n) suite secretStore
          World.initial = some (result, w') ∧
        w.sent = w'.sent := by
  let := asciiPlatform
  have haccepted (store : VariableStore)
      (h : (checkSource hostSource (validationContext store)).map
        (fun report => (report.suite.isSome, report.diagnostics)) = some (true, [])) :
      ∃ suite, checkSource hostSource (validationContext store) = some ⟨some suite, []⟩ := by
    obtain ⟨⟨suite?, diagnostics⟩, hcheck, hreport⟩ := Option.map_eq_some_iff.mp h
    obtain ⟨hsuite, rfl⟩ := Prod.mk.inj hreport
    obtain ⟨suite, rfl⟩ := Option.isSome_iff_exists.mp hsuite
    exact ⟨suite, hcheck⟩
  obtain ⟨suite, h⟩ := haccepted hostStore (by decide +kernel)
  obtain ⟨suite', h'⟩ := haccepted secretStore (by decide +kernel)
  have hagree : hostStore.AgreeOn suite.mentions secretStore := by
    obtain rfl := (checkSource_accepts_iff.mp h).2.2.2
    have hunmentioned : (hostSource.ast.toSuite.blocks.flatMap (·.tests)).all (fun test =>
        test.texts.all fun text =>
          !containsStr text.raw.toList "$\x7bSECRET\x7d".toList) = true := by decide +kernel
    rintro name ⟨block, hblock, test, htest, text, htext, hname⟩
    have hne : (⟨"SECRET"⟩ : VariableName) ≠ name := by
      rintro rfl
      have hfree := List.all_eq_true.mp (List.all_eq_true.mp hunmentioned test
        (List.mem_flatMap.mpr ⟨block, hblock, htest⟩)) text htext
      rw [Bool.not_eq_true', ← Bool.not_eq_true, containsStr_iff] at hfree
      exact hfree hname
    rw [secretStore, VariableStore.read, VariableStore.read, VariableStore.get, VariableStore.get,
      VariableStore.insertPredefined, IndexMap.get_insert, if_neg hne]
  exact ⟨suite, h, (unmentioned_variables_unused h h' (fun _ => mem_validationContext)
    (fun _ => mem_validationContext) hagree _ _ _).2⟩

end Rettp
