import Rettp.CheckedCaptures
import Rettp.CheckedResolution
import Rettp.Schedule

/-!
# Checking is sound for execution

In a run of a checked suite the variables are what the checker takes them for: a test is reached
with exactly the variables that are visible at its place (`Reached`). From this follows that no
resolution fails by a name or by a text, that no capture fails, and that no test is aborted
(`checkSource_sound`).

A test that passes adds its captures to the scope and a test that does not ends its block, so a
block in scope stays in scope (`run_sound`); the core leaves its captures to the other blocks.
-/

namespace Rettp

/-- The variables of the store are those in scope. -/
def VariableStore.InScope (store : VariableStore) (scope : Finset VariableName) : Prop :=
  ∀ name, name ∈ store.names ↔ name ∈ scope

variable [Platform]

/-- A test that is reached can only fail by a value, by the client or by an expectation that is not
met: captures are always staged and committed. -/
structure Attempt.Sound (engine : ExecutionEngine) (attempt : Attempt) : Prop where
  request : Except.Fails RuntimeError.OfValue
    (RuntimeResolver.resolveRequest engine.resolver attempt.store attempt.test.request)
  expectation : Except.Fails RuntimeError.OfValue
    (RuntimeResolver.resolveExpectation engine.resolver attempt.store attempt.test.expectation)
  captures : ∀ expectation, RuntimeResolver.resolveExpectation engine.resolver attempt.store
    attempt.test.expectation = .ok expectation → ∀ response, ∃ evaluation,
      CaptureEngine.evaluate engine.assertions expectation response = .ok evaluation ∧
      ∀ pending ∈ evaluation.pending, ∃ after, attempt.store.commit pending = .ok after

/-! ## One test -/

section Test

variable {engine : ExecutionEngine} {scope : Finset VariableName} {limit : Nat} {test : TestAst}
  {store : VariableStore}

/-- The captures of a test as a set. -/
theorem TestRules.mem_capturedBy (h : TestRules scope limit test) (name : VariableName) :
    name ∈ capturedBy [test] ↔ name ∈ test.toCase.expectation.captures := by
  rw [h.captures_perm.mem_iff, capturedBy, List.flatMap_singleton, List.mem_toFinset]

/-- A capture of a checked test can be committed to a store in scope. -/
theorem TestRules.commit_isOk (h : TestRules scope limit test) (hscope : store.InScope scope)
    {pending : PendingCaptures} (hpending : pending.names = test.toCase.expectation.captures) :
    ∃ after, store.commit pending = .ok after := by
  rw [VariableStore.commit_isOk_iff]
  intro name hname hdefined
  rw [hpending] at hname
  exact h.captures_new hname ((hscope name).mp hdefined)

/-- Evaluating a checked test never ends in an error. -/
theorem TestRules.evaluate_isOk (h : TestRules scope limit test)
    {expectation : ResolvedResponseExpectation}
    (hexpectation : RuntimeResolver.resolveExpectation engine.resolver store
      test.toCase.expectation = .ok expectation) (response : HttpResponse) :
    ∃ evaluation,
      CaptureEngine.evaluate engine.assertions expectation response = .ok evaluation := by
  -- the checker guarantees the shape of the assertion and that its captures are distinct
  refine CaptureEngine.evaluate_isOk _ (fun object hobject => ?_) ?_ response
  · obtain ⟨source, hsource, hrules⟩ := h.toCase_expectation
    rw [hsource] at hexpectation
    exact RuntimeResolver.resolveExpectation_regular hrules hexpectation hobject
  · rw [RuntimeResolver.resolveExpectation_captures _ _ hexpectation]
    exact h.captures_nodup

/-- **A checked test is sound** where the variables are those in scope. -/
theorem TestRules.sound (h : TestRules scope limit test) (hfinite : test.erase.Finite)
    (hscope : store.InScope scope) : Attempt.Sound engine ⟨test.toCase, store⟩ := by
  have hchecked := h.toCase_checked hfinite
  have hvisible : ∀ name ∈ scope, name ∈ store.names := fun name => (hscope name).mpr
  refine ⟨RuntimeResolver.resolveRequest_fails hvisible hchecked.request,
    RuntimeResolver.resolveExpectation_fails hvisible hchecked.expectation, ?_⟩
  intro expectation hexpectation response
  obtain ⟨evaluation, hevaluation⟩ := h.evaluate_isOk hexpectation response
  refine ⟨evaluation, hevaluation, fun pending hpending => h.commit_isOk hscope ?_⟩
  have hnames := CaptureEngine.evaluate_evaluated engine.assertions expectation response
  rw [hevaluation] at hnames
  cases hnames with
  | failure hfailed => cases hpending
  | success hsuccess staged hstaged =>
    obtain rfl := Option.some.inj hpending
    rw [hstaged]
    exact RuntimeResolver.resolveExpectation_captures _ _ hexpectation

variable (engine) (client : HttpClient) (clock : Clock)

/-- A sound test is not aborted. -/
theorem Attempt.Sound.not_aborted {test : TestCase} (h : Attempt.Sound engine ⟨test, store⟩)
    (w : World) : (executeTest engine client clock test store w).1.status ≠ .aborted := by
  have htransaction := @testOutcome_transaction _ engine (client w.sent) test store
  rw [← TestResult.untimed_status, (executeTest_spec engine client clock test store w).1, Ne,
    htransaction.aborted_iff]
  rintro ⟨expectation, response, ⟨request, -, hexpectation, -⟩, haborts⟩
  obtain ⟨evaluation, hevaluation, hcommits⟩ := h.captures expectation hexpectation response
  rcases haborts with ⟨e, he⟩ | ⟨report, pending, e, he, hcommit⟩
  · cases hevaluation.symm.trans he
  · obtain rfl := Except.ok.inj (hevaluation.symm.trans he)
    obtain ⟨after, hafter⟩ := hcommits pending rfl
    cases hafter.symm.trans hcommit

/-- A test that passes brings its captures into scope. -/
theorem TestRules.inScope_of_passed (h : TestRules scope limit test) (hscope : store.InScope scope)
    {w : World} (hpassed : (executeTest engine client clock test.toCase store w).1.status = .passed) :
    (executeTest engine client clock test.toCase store w).2.1.InScope
      (scope ∪ capturedBy [test]) := by
  obtain ⟨hresult, hafter, -⟩ := executeTest_spec engine client clock test.toCase store w
  have htransaction := @testOutcome_transaction _ engine (client w.sent) test.toCase store
  rw [← TestResult.untimed_status, hresult] at hpassed
  rw [hafter]
  obtain ⟨captured, hvalues, hkeys, -⟩ := htransaction.committed hpassed
  intro name
  rw [VariableStore.names, hvalues, IndexMap.keys_append, List.mem_append, hkeys, Finset.mem_union,
    h.mem_capturedBy, ← hscope name]
  exact Iff.rfl

end Test

/-! ## The tests of a block -/

/-- The attempts at tests of a block: one test after the other, up to where the block stops, each
with the variables that are visible after the tests before it. -/
inductive Reached (context : ValidationContext) (ast : SuiteAst) (block : BlockAst) :
    List TestAst → List TestAst → List Attempt → Prop
  | stop {before tests : List TestAst} : Reached context ast block before tests []
  | next {before tests : List TestAst} {test : TestAst} {store : VariableStore}
      {attempts : List Attempt} (hscope : store.InScope (visible context ast block before))
      (h : Reached context ast block (before ++ [test]) tests attempts) :
      Reached context ast block before (test :: tests) (⟨test.toCase, store⟩ :: attempts)

/-- What the checker has found about a tree. -/
structure SuiteAst.Checked (context : ValidationContext) (ast : SuiteAst) : Prop where
  rules : SuiteRules context ast
  finite : ∀ block ∈ ast.blocks, ∀ test ∈ block.tests, test.erase.Finite

section Blocks

variable {context : ValidationContext} {ast : SuiteAst} (hchecked : ast.Checked context)

/-- What the checker has found about the next test of a block. -/
theorem SuiteAst.Checked.rulesAt (h : ast.Checked context) {block : BlockAst}
    (hblock : block ∈ ast.blocks) {before tests : List TestAst} {test : TestAst}
    (hsplit : block.tests = before ++ test :: tests) :
    TestRules (visible context ast block before) context.maxDepth test ∧ test.erase.Finite := by
  have hlt : before.length < block.tests.length := by
    rw [hsplit, List.length_append, List.length_cons]
    omega
  have hrules := h.rules.tests block hblock before.length hlt
  have hfinite := h.finite block hblock test
  simp only [hsplit, List.take_left, List.getElem_append_right (Nat.le_refl _), Nat.sub_self,
    List.getElem_cons_zero] at hrules
  exact ⟨hrules, hfinite (by rw [hsplit]; simp)⟩

omit [Platform] in
theorem visible_snoc (block : BlockAst) (before : List TestAst) (test : TestAst) :
    visible context ast block (before ++ [test]) =
      visible context ast block before ∪ capturedBy [test] := by
  rw [visible, visible, Validator.capturedBy_append, Finset.union_assoc _ (capturedBy before)]

include hchecked

theorem Reached.sound (engine : ExecutionEngine) {block : BlockAst} (hblock : block ∈ ast.blocks)
    {before tests : List TestAst} {attempts : List Attempt}
    (h : Reached context ast block before tests attempts) (hsplit : block.tests = before ++ tests) :
    ∀ attempt ∈ attempts, attempt.Sound engine := by
  induction h with
  | stop => exact List.forall_mem_nil _
  | @next before tests test store attempts hscope _ ih =>
    obtain ⟨hrules, hfinite⟩ := hchecked.rulesAt hblock hsplit
    exact List.forall_mem_cons.mpr ⟨hrules.sound hfinite hscope, ih (by rw [hsplit, List.append_cons])⟩

variable (engine : ExecutionEngine) (client : HttpClient) (clock : Clock)

/-- **The tests of a block**, from a test that is reached in scope on. -/
theorem run_sound (failedStatus : ExecutionStatus → ExecutionStatus) (reason : String)
    {block : BlockAst} (hblock : block ∈ ast.blocks) (tests : List TestAst)
    {before : List TestAst} (hsplit : block.tests = before ++ tests) {s : BlockState}
    (hscope : s.store.InScope (visible context ast block before)) :
    let run := FailFast.run (blockStep engine client clock failedStatus)
      (fun r => r.status == .passed) (fun t => TestResult.skipped t.name reason)
      (tests.map TestAst.toCase) s
    (∃ attempts, Reached context ast block before tests attempts ∧
      run.2.world.attempts = s.world.attempts ++ attempts) ∧
    (∀ r ∈ run.1, r.status ≠ .aborted) ∧
    ((∀ r ∈ run.1, r.status = .passed) →
      run.2.store.InScope (visible context ast block block.tests)) := by
  induction tests generalizing before s with
  | nil =>
    rw [List.append_nil] at hsplit
    refine ⟨⟨[], .stop, (List.append_nil _).symm⟩, List.forall_mem_nil _, fun _ => ?_⟩
    rw [hsplit]
    exact hscope
  | cons test tests ih =>
    obtain ⟨hrules, hfinite⟩ := hchecked.rulesAt hblock hsplit
    have hsound : Attempt.Sound engine ⟨test.toCase, s.store⟩ := hrules.sound hfinite hscope
    have haborted := hsound.not_aborted engine client clock s.world
    obtain ⟨-, -, -, hattempts⟩ := executeTest_spec engine client clock test.toCase s.store s.world
    cases hstatus : (blockStep engine client clock failedStatus test.toCase s).1.status == .passed with
    | true =>
      -- the next test finds the captures of this one
      have hnext := hrules.inScope_of_passed engine client clock hscope (beq_iff_eq.mp hstatus)
      rw [← visible_snoc] at hnext
      obtain ⟨⟨attempts, hreached, hlog⟩, hrest, hend⟩ :=
        ih (by rw [hsplit, List.append_cons])
          (s := (blockStep engine client clock failedStatus test.toCase s).2) hnext
      rw [List.map_cons, FailFast.run_cons_ok hstatus]
      refine ⟨⟨_, .next hscope hreached, ?_⟩, List.forall_mem_cons.mpr ⟨haborted, hrest⟩,
        fun hall => hend (List.forall_mem_cons.mp hall).2⟩
      rw [hlog, ← List.singleton_append, ← List.append_assoc]
      exact congrArg (· ++ attempts) hattempts
    | false =>
      -- the block stops here, and its other tests are skipped
      rw [List.map_cons, FailFast.run_cons_fail hstatus]
      refine ⟨⟨_, .next hscope .stop, hattempts⟩, List.forall_mem_cons.mpr ⟨haborted, ?_⟩, ?_⟩
      · intro r hr
        obtain ⟨t, -, rfl⟩ := List.mem_map.mp hr
        exact fun h => by cases h
      · intro hall
        have hpassed := (List.forall_mem_cons.mp hall).1
        rw [beq_eq_false_iff_ne] at hstatus
        exact absurd hpassed hstatus

/-! ## Blocks -/

/-- A block that was run: its tests were reached in scope, and none of them was aborted. -/
structure BlockSound (context : ValidationContext) (ast : SuiteAst) (block : BlockAst)
    (result : BlockResult) (w w' : World) : Prop where
  reached : ∃ attempts, Reached context ast block [] block.tests attempts ∧
    w'.attempts = w.attempts ++ attempts
  not_aborted : ∀ t ∈ result.tests, t.status ≠ .aborted

variable {store : VariableStore}

/-- **One block** that starts in scope. -/
theorem executeBlock_sound {block : BlockAst} (hblock : block ∈ ast.blocks)
    (hscope : store.InScope (visible context ast block [])) (w : World) :
    BlockSound context ast block (executeBlock engine client clock store block.toBlock w).1 w
      (executeBlock engine client clock store block.toBlock w).2 := by
  cases block with
  | core block =>
    obtain ⟨hreached, haborted, -⟩ := run_sound hchecked engine client clock coreStatus
      coreFailedReason hblock block.tests rfl (s := ⟨.passed, store, (w.now clock).2⟩) hscope
    exact ⟨hreached, haborted⟩
  | pipeline block =>
    obtain ⟨hreached, haborted, -⟩ := run_sound hchecked engine client clock (fun _ => .failed)
      pipelineFailedReason hblock block.tests rfl (s := ⟨.passed, store, (w.now clock).2⟩) hscope
    exact ⟨hreached, haborted⟩
  | test t =>
    have hsplit : (BlockAst.test t).tests = [] ++ t :: [] := rfl
    obtain ⟨hrules, hfinite⟩ := hchecked.rulesAt hblock hsplit
    obtain ⟨-, -, -, hattempts⟩ := executeTest_spec engine client clock t.toCase store w
    refine ⟨⟨_, .next hscope .stop, hattempts⟩, List.forall_mem_singleton.mpr ?_⟩
    exact (hrules.sound hfinite hscope).not_aborted engine client clock w

/-- The core, and the variables it leaves behind. -/
theorem executeCore_sound {core : CoreBlockAst} (hblock : .core core ∈ ast.blocks)
    (hscope : store.InScope (visible context ast (.core core) [])) (w : World) :
    let run := executeCore engine client clock (core.tests.map TestAst.toCase) store w
    BlockSound context ast (.core core) run.1 w run.2.2.2 ∧
      (run.1.status = .passed → run.2.2.1.InScope (visible context ast (.core core) core.tests)) := by
  refine ⟨executeBlock_sound hchecked engine client clock hblock hscope w, fun hpassed => ?_⟩
  obtain ⟨-, -, hend⟩ := run_sound hchecked engine client clock coreStatus coreFailedReason hblock
    core.tests rfl (s := ⟨.passed, store, (w.now clock).2⟩) hscope
  exact hend ((executeCore_ran engine client clock store _ w).passed_iff.mp hpassed)

/-- Blocks one after the other from the same variables. -/
theorem executeAll_sound (blocks : List BlockAst) (hblocks : ∀ b ∈ blocks, b ∈ ast.blocks)
    (hscope : ∀ b ∈ blocks, store.InScope (visible context ast b [])) (w : World) :
    let run := executeAll engine client clock store (blocks.map BlockAst.toBlock) w
    (∃ stretches, List.Forall₂ (fun b => Reached context ast b [] b.tests) blocks stretches ∧
      run.2.attempts = w.attempts ++ stretches.flatten) ∧
    ∀ result ∈ run.1, ∀ t ∈ result.tests, t.status ≠ .aborted := by
  induction blocks generalizing w with
  | nil => exact ⟨⟨[], .nil, (List.append_nil _).symm⟩, List.forall_mem_nil _⟩
  | cons block blocks ih =>
    obtain ⟨hblock, hblocks⟩ := List.forall_mem_cons.mp hblocks
    obtain ⟨hfirst, hscope⟩ := List.forall_mem_cons.mp hscope
    obtain ⟨⟨attempts, hreached, hlog⟩, haborted⟩ :=
      executeBlock_sound hchecked engine client clock hblock hfirst w
    obtain ⟨⟨stretches, hstretches, hlogs⟩, hrest⟩ := ih hblocks hscope
      (executeBlock engine client clock store block.toBlock w).2
    refine ⟨⟨attempts :: stretches, .cons hreached hstretches, ?_⟩,
      List.forall_mem_cons.mpr ⟨haborted, hrest⟩⟩
    rw [List.flatten_cons, ← List.append_assoc, ← hlog]
    exact hlogs

end Blocks

/-! ## Suites -/

/-- The blocks in the order of their execution. -/
def SuiteAst.coreFirst (ast : SuiteAst) : List BlockAst :=
  ast.blocks.filter BlockAst.isCore ++ ast.blocks.filter fun block => !block.isCore

section Suite

omit [Platform]

variable {ast : SuiteAst} {before after : List BlockAst} {core : CoreBlockAst}

theorem BlockAst.isCore_toBlock (block : BlockAst) : block.toBlock.isCore = block.isCore := by
  cases block <;> rfl

theorem isCore_map_toBlock {blocks : List BlockAst} (h : ∀ b ∈ blocks, b.isCore = false) :
    ∀ b ∈ blocks.map BlockAst.toBlock, b.isCore = false := by
  intro b hb
  obtain ⟨block, hblock, rfl⟩ := List.mem_map.mp hb
  rw [block.isCore_toBlock, h block hblock]

/-- A tree with at most one core has none, or splits at it. -/
theorem SuiteAst.core_split (h : (ast.blocks.filter BlockAst.isCore).length ≤ 1) :
    (∀ b ∈ ast.blocks, b.isCore = false) ∨
      ∃ before core after, ast.blocks = before ++ .core core :: after ∧
        (∀ b ∈ before, b.isCore = false) ∧ ∀ b ∈ after, b.isCore = false := by
  have hblocks (blocks : List BlockAst)
      (h : ∀ b ∈ blocks.map BlockAst.toBlock, b.isCore = false) : ∀ b ∈ blocks, b.isCore = false :=
    fun b hb => b.isCore_toBlock.symm.trans (h _ (List.mem_map_of_mem hb))
  have hcount : ((ast.blocks.map BlockAst.toBlock).filter SuiteBlock.isCore).length ≤ 1 := by
    rw [List.filter_map, List.length_map]
    simpa [Function.comp_def, BlockAst.isCore_toBlock] using h
  rcases Rettp.core_split hcount with hnone | ⟨before, tests, after, hsplit, hbefore, hafter⟩
  · exact .inl (hblocks _ hnone)
  · obtain ⟨first, rest, hblocks', rfl, hrest⟩ := List.map_eq_append_iff.mp hsplit
    obtain ⟨block, last, rfl, hblock, rfl⟩ := List.map_eq_cons_iff.mp hrest
    cases block with
    | core core => exact .inr ⟨first, core, last, hblocks', hblocks _ hbefore, hblocks _ hafter⟩
    | _ => cases hblock

theorem filter_isCore_of_none {blocks : List BlockAst} (h : ∀ b ∈ blocks, b.isCore = false) :
    blocks.filter BlockAst.isCore = [] ∧ blocks.filter (fun block => !block.isCore) = blocks := by
  refine ⟨List.filter_eq_nil_iff.mpr fun b hb => ?_, List.filter_eq_self.mpr fun b hb => ?_⟩
  · rw [h b hb]
    exact Bool.false_ne_true
  · rw [h b hb]
    rfl

theorem SuiteAst.coreFirst_of_none (h : ∀ b ∈ ast.blocks, b.isCore = false) :
    ast.coreFirst = ast.blocks ∧ ast.coreTests = [] := by
  obtain ⟨hcore, hother⟩ := filter_isCore_of_none h
  rw [coreFirst, coreTests, hcore, hother]
  exact ⟨rfl, rfl⟩

theorem SuiteAst.coreFirst_of_split (hsplit : ast.blocks = before ++ .core core :: after)
    (hbefore : ∀ b ∈ before, b.isCore = false) (hafter : ∀ b ∈ after, b.isCore = false) :
    ast.coreFirst = .core core :: (before ++ after) ∧ ast.coreTests = core.tests := by
  obtain ⟨hcore, hother⟩ := filter_isCore_of_none hbefore
  obtain ⟨hcore', hother'⟩ := filter_isCore_of_none hafter
  have hfilter : ast.blocks.filter BlockAst.isCore = [.core core] := by
    rw [hsplit, List.filter_append, List.filter_cons_of_pos rfl, hcore, hcore']
    rfl
  refine ⟨?_, ?_⟩
  · rw [coreFirst, hfilter, hsplit, List.filter_append, List.filter_cons_of_neg Bool.false_ne_true,
      hother, hother']
    rfl
  · rw [coreTests, hfilter, List.flatMap_singleton]
    rfl

end Suite

omit [Platform] in
theorem skippedBlocks_not_aborted (blocks : List SuiteBlock) (reason : String) :
    ∀ block ∈ blocks.map (skippedBlock · reason), ∀ test ∈ block.tests, test.status ≠ .aborted := by
  intro block hblock test htest
  obtain ⟨b, -, rfl⟩ := List.mem_map.mp hblock
  rw [skippedBlock_tests htest]
  exact fun h => by cases h

section Visible

omit [Platform]

variable {context : ValidationContext} {ast : SuiteAst} {block : BlockAst}

/-- Without captures of a core, every block starts with the predefined variables. -/
theorem visible_start (h : block.isCore = true ∨ ast.coreTests = []) :
    visible context ast block [] = context.predefinedVariables := by
  have hnil : capturedBy [] = ∅ := rfl
  unfold visible
  split
  · rw [hnil, Finset.union_empty, Finset.union_empty]
  · next hcore =>
    rw [h.resolve_left hcore, hnil, Finset.union_empty, Finset.union_empty]

/-- What is visible after the core is visible where the other blocks start. -/
theorem visible_after_core (core : BlockAst) (hcore : core.isCore = true)
    (h : block.isCore = false) :
    visible context ast block [] = visible context ast core ast.coreTests := by
  have hnil : capturedBy [] = ∅ := rfl
  rw [visible, visible, h, hcore, if_neg Bool.false_ne_true, if_pos rfl, hnil, Finset.union_empty,
    Finset.union_empty]

end Visible

section Execute

variable {context : ValidationContext} {ast : SuiteAst} (hchecked : ast.Checked context)
  (engine : ExecutionEngine) (client : HttpClient) (clock : Clock) {store : VariableStore}

include hchecked

/-- A checked tree that is not empty passes the checks of the executor. -/
theorem SuiteAst.Checked.preflight_ok (hne : ast.blocks ≠ []) : preflight ast.toSuite = .ok () := by
  rw [preflight_ok_iff]
  refine ⟨by simpa [SuiteAst.toSuite] using hne, ?_, ?_⟩
  · rw [SuiteAst.toSuite, List.filter_map, List.length_map]
    simpa [Function.comp_def, BlockAst.isCore_toBlock] using hchecked.rules.core
  · intro name tests hmem
    obtain ⟨block, hblock, heq⟩ := List.mem_map.mp hmem
    cases block with
    | pipeline pipeline =>
      obtain ⟨-, rfl⟩ := SuiteBlock.pipeline.inj heq
      simpa using (hchecked.rules.pipelines pipeline hblock).2
    | _ => cases heq

/-- What a run of a checked suite comes to. -/
structure RunSound (context : ValidationContext) (ast : SuiteAst) (result : SuiteResult)
    (w : World) : Prop where
  reached : ∃ stretches, List.Forall₂ (fun block => Reached context ast block [] block.tests)
    ast.coreFirst stretches ∧ w.attempts = stretches.flatten
  not_aborted : ∀ block ∈ result.blocks, ∀ test ∈ block.tests, test.status ≠ .aborted

/-- A suite without a core. -/
theorem execute_sound_without_core (hpre : preflight ast.toSuite = .ok ())
    (hscope : store.InScope context.predefinedVariables)
    (hnone : ∀ b ∈ ast.blocks, b.isCore = false) :
    ∃ result w, execute engine client clock ast.toSuite store World.initial = some (result, w) ∧
      RunSound context ast result w := by
  obtain ⟨horder, htests⟩ := SuiteAst.coreFirst_of_none hnone
  refine ⟨_, _, execute_of_no_core engine client clock hpre (isCore_map_toBlock hnone) store
    World.initial, ?_⟩
  obtain ⟨⟨stretches, hstretches, hlog⟩, haborted⟩ := executeAll_sound hchecked engine client clock
    ast.blocks (fun _ h => h) (fun b _ => by rw [visible_start (.inr htests)]; exact hscope)
    (World.initial.now clock).2
  refine ⟨⟨stretches, ?_, hlog⟩, haborted⟩
  rw [horder]
  exact hstretches

/-- A suite with a core: either every block ran, or the core alone. -/
theorem execute_sound_with_core (hpre : preflight ast.toSuite = .ok ())
    (hscope : store.InScope context.predefinedVariables) {before after : List BlockAst}
    {core : CoreBlockAst} (hsplit : ast.blocks = before ++ .core core :: after)
    (hbefore : ∀ b ∈ before, b.isCore = false) (hafter : ∀ b ∈ after, b.isCore = false) :
    ∃ result w, execute engine client clock ast.toSuite store World.initial = some (result, w) ∧
      RunSound context ast result w := by
  obtain ⟨horder, htests⟩ := SuiteAst.coreFirst_of_split hsplit hbefore hafter
  have hsplit' : ast.toSuite.blocks = before.map BlockAst.toBlock ++
      .core (core.tests.map TestAst.toCase) :: after.map BlockAst.toBlock := by
    rw [SuiteAst.toSuite, hsplit, List.map_append, List.map_cons]
    rfl
  have hmem {block : BlockAst} (h : block ∈ before ∨ block = .core core ∨ block ∈ after) :
      block ∈ ast.blocks := by
    rw [hsplit, List.mem_append, List.mem_cons]
    exact h
  have hcore := executeCore_sound hchecked engine client clock (hmem (.inr (.inl rfl)))
    (by rw [visible_start (.inl rfl)]; exact hscope) (World.initial.now clock).2
  have hstatus := executeCore_status engine client clock store (core.tests.map TestAst.toCase)
    (World.initial.now clock).2
  have hpass := execute_of_core_passed engine client clock hpre hsplit'
    (isCore_map_toBlock hbefore) (isCore_map_toBlock hafter) store World.initial
  have hfail := execute_of_core_unpassed engine client clock hpre hsplit'
    (isCore_map_toBlock hbefore) store World.initial
  generalize executeCore engine client clock (core.tests.map TestAst.toCase) store
    (World.initial.now clock).2 = run at *
  obtain ⟨⟨⟨attempts, hreached, hlog⟩, haborted⟩, hpost⟩ := hcore
  by_cases hpassed : run.1.status = .passed
  · -- the other blocks start from what the core leaves behind
    refine ⟨_, _, hpass (hstatus.trans hpassed), ?_⟩
    have hscope' (b : BlockAst) (hb : b.isCore = false) :
        run.2.2.1.InScope (visible context ast b []) := by
      rw [visible_after_core (.core core) rfl hb, htests]
      exact hpost hpassed
    obtain ⟨⟨first, hfirst, hlogFirst⟩, habortedFirst⟩ := executeAll_sound hchecked engine client
      clock before (fun b hb => hmem (.inl hb)) (fun b hb => hscope' b (hbefore b hb)) run.2.2.2
    obtain ⟨⟨last, hlast, hlogLast⟩, habortedLast⟩ := executeAll_sound hchecked engine client clock
      after (fun b hb => hmem (.inr (.inr hb))) (fun b hb => hscope' b (hafter b hb))
      (executeAll engine client clock run.2.2.1 (before.map BlockAst.toBlock) run.2.2.2).2
    refine ⟨⟨attempts :: (first ++ last), ?_, ?_⟩, ?_⟩
    · rw [horder]
      exact .cons hreached (List.rel_append hfirst hlast)
    · refine hlogLast.trans ?_
      rw [hlogFirst, hlog, List.flatten_cons, List.flatten_append, List.append_assoc,
        List.append_assoc]
      rfl
    · exact List.forall_mem_append.mpr
        ⟨habortedFirst, List.forall_mem_cons.mpr ⟨haborted, habortedLast⟩⟩
  · -- the other blocks are skipped
    refine ⟨_, _, hfail fun h => hpassed (hstatus.symm.trans h), ?_⟩
    refine ⟨⟨attempts :: (before ++ after).map fun _ => [], ?_, ?_⟩, ?_⟩
    · rw [horder]
      refine .cons hreached (List.forall₂_map_right_iff.mpr (List.forall₂_same.mpr ?_))
      exact fun _ _ => .stop
    · refine hlog.trans ?_
      simp [World.initial, World.now]
    · exact List.forall_mem_append.mpr ⟨skippedBlocks_not_aborted _ _,
        List.forall_mem_cons.mpr ⟨haborted, skippedBlocks_not_aborted _ _⟩⟩

/-- **A checked suite runs as checked.** -/
theorem execute_sound (hpre : preflight ast.toSuite = .ok ())
    (hscope : store.InScope context.predefinedVariables) :
    ∃ result w, execute engine client clock ast.toSuite store World.initial = some (result, w) ∧
      RunSound context ast result w := by
  rcases SuiteAst.core_split hchecked.rules.core with
    hnone | ⟨before, core, after, hsplit, hbefore, hafter⟩
  · exact execute_sound_without_core hchecked engine client clock hpre hscope hnone
  · exact execute_sound_with_core hchecked engine client clock hpre hscope hsplit hbefore hafter

/-- Every test that is reached is sound. -/
theorem RunSound.attempts_sound {result : SuiteResult} {w : World}
    (h : RunSound context ast result w) : ∀ attempt ∈ w.attempts, attempt.Sound engine := by
  obtain ⟨stretches, hstretches, hattempts⟩ := h.reached
  intro attempt hattempt
  rw [hattempts] at hattempt
  obtain ⟨stretch, hstretch, hattempt⟩ := List.mem_flatten.mp hattempt
  obtain ⟨block, hblock, hreached⟩ : ∃ block ∈ ast.coreFirst,
      Reached context ast block [] block.tests stretch := exists_of_mem_right hstretches hstretch
  have hblock' : block ∈ ast.blocks := by
    rcases List.mem_append.mp hblock with hblock | hblock
    · exact List.mem_of_mem_filter hblock
    · exact List.mem_of_mem_filter hblock
  exact hreached.sound hchecked engine hblock' rfl attempt hattempt

end Execute

/-- **Checking is sound for execution.** Let a source be accepted under the names of the initial
variables. Then every run of its suite, whatever the client replies and whatever the limits of the
engine are, passes the checks of the executor and ends with a result; every test is reached with
exactly the variables that the checker had in scope for it, so that it can only fail to resolve by
the size, the nesting or the type of a value, and its captures are evaluated and committed without
an error; and no test is aborted. -/
theorem checkSource_sound {source : SourceText} {context : ValidationContext} {suite : TestSuite}
    (h : checkSource source context = some ⟨some suite, []⟩) {store : VariableStore}
    (hnames : ∀ name, name ∈ store.names ↔ name ∈ context.predefinedVariables)
    (engine : ExecutionEngine) (client : HttpClient) (clock : Clock) :
    preflight suite = .ok () ∧ ∃ result w,
      execute engine client clock suite store World.initial = some (result, w) ∧
      (∃ stretches, List.Forall₂ (fun block => Reached context source.ast block [] block.tests)
        source.ast.coreFirst stretches ∧ w.attempts = stretches.flatten) ∧
      (∀ attempt ∈ w.attempts, attempt.Sound engine) ∧
      ∀ block ∈ result.blocks, ∀ test ∈ block.tests, test.status ≠ .aborted := by
  obtain ⟨-, hparse, hrules, rfl⟩ := checkSource_accepts_iff.mp h
  have hchecked : source.ast.Checked context :=
    ⟨hrules, fun _ hblock _ htest => source.test_finite hparse hblock htest⟩
  have hne : source.ast.blocks ≠ [] := by
    obtain ⟨nesting, hblocks, -⟩ := source.ast_grammar hparse
    obtain ⟨-, hne⟩ := Phrase.many1_iff.mp hblocks
    exact fun hnil => hne (congrArg (List.map BlockAst.erase) hnil)
  have hpre := hchecked.preflight_ok hne
  obtain ⟨result, w, hrun, hsound⟩ := execute_sound hchecked engine client clock hpre hnames
  exact ⟨hpre, result, w, hrun, hsound.reached, hsound.attempts_sound hchecked engine,
    hsound.not_aborted⟩

/-- A core that captures a token, and a pipeline that uses it. -/
def tokenSource : SourceText where
  name := "token.rttp"
  content := "core \x7b test \"login\" \x7b request POST \"/login\" expect \x7b
      body \x7b token: string -> TOKEN \x7d \x7d \x7d \x7d
    pipeline \"orders\" \x7b test \"list\" \x7b request GET \"/orders/$\x7bTOKEN\x7d\"
      expect \x7b status = 200 \x7d \x7d \x7d"

/-- A response with a token. -/
def tokenBody : Json where
  value := .object [("token", .string "a1")]
  sorted := by simp [JsonValue.Sorted, JsonValue.SortedEntries, SortedMap.Sorted]

omit [Platform] in
/-- Against a server that hands out a token. -/
theorem checkSource_sound_token :
    letI := asciiPlatform
    ∃ suite, checkSource tokenSource .new = some ⟨some suite, []⟩ ∧
      preflight suite = .ok () ∧ ∃ result w,
        execute .default
          (fun _ _ => .ok ⟨200, ResponseHeaders.new, .json ByteArray.empty tokenBody⟩) (fun n => n)
          suite VariableStore.new World.initial = some (result, w) ∧
        (∃ stretches, List.Forall₂ (fun block => Reached .new tokenSource.ast block [] block.tests)
          tokenSource.ast.coreFirst stretches ∧ w.attempts = stretches.flatten) ∧
        (∀ attempt ∈ w.attempts, attempt.Sound .default) ∧
        ∀ block ∈ result.blocks, ∀ test ∈ block.tests, test.status ≠ .aborted := by
  let := asciiPlatform
  have hreport : (checkSource tokenSource .new).map
      (fun report => (report.suite.isSome, report.diagnostics)) = some (true, []) := by
    decide +kernel
  obtain ⟨⟨suite?, diagnostics⟩, hcheck, hreport⟩ := Option.map_eq_some_iff.mp hreport
  obtain ⟨hsuite, rfl⟩ := Prod.mk.inj hreport
  obtain ⟨suite, rfl⟩ := Option.isSome_iff_exists.mp hsuite
  exact ⟨suite, hcheck, checkSource_sound hcheck
    (fun name => iff_of_false List.not_mem_nil (Finset.notMem_empty name)) .default _ _⟩

end Rettp
