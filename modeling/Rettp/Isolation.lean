import Rettp.Schedule
import Mathlib.Data.List.OfFn
import Mathlib.Data.List.FinRange

/-!
# Isolation of blocks

With a client whose reply depends on the request alone, a block is a function of its tests and
of the variables it starts from (`blockOutcome`), and every block other than the core starts
from the variables that the core left behind (`postCore`). So the result of a block depends on
the block, the core and the initial variables only (`execute_untimed`): blocks may change places
(`execute_isolated`), and other blocks may come and go.

Durations are the one thing that differs between two runs; `untimed` results have none.
-/

namespace Rettp

/-- A result without its durations. -/
def BlockResult.untimed : BlockResult → BlockResult
  | .core status _ tests => .core status 0 (tests.map TestResult.untimed)
  | .pipeline name status _ tests => .pipeline name status 0 (tests.map TestResult.untimed)
  | .test r => .test r.untimed

/-- The result without any duration. -/
def SuiteResult.untimed (r : SuiteResult) : SuiteResult :=
  { r with durationMs := 0, blocks := r.blocks.map BlockResult.untimed }

theorem BlockResult.untimed_status (r : BlockResult) : r.untimed.status = r.status := by
  cases r <;> rfl

theorem suiteStatus_untimed (results : List BlockResult) :
    suiteStatus (results.map BlockResult.untimed) = suiteStatus results := by
  unfold suiteStatus
  rw [List.any_map]
  simp only [Function.comp_def, BlockResult.untimed_status]

theorem skippedBlock_untimed (block : SuiteBlock) (reason : String) :
    (skippedBlock block reason).untimed = skippedBlock block reason := by
  cases block with
  | test t => rfl
  | _ => simp [skippedBlock, BlockResult.untimed, Function.comp_def, TestResult.untimed,
      TestResult.skipped]

variable [Platform]

section Outcome

variable (engine : ExecutionEngine) (reply : ResolvedHttpRequest → Except HttpError HttpResponse)

/-! ## Blocks as functions -/

/-- One round of the loop over the tests of a block. -/
def blockStepOutcome (failedStatus : ExecutionStatus → ExecutionStatus) (test : TestCase)
    (s : ExecutionStatus × VariableStore) : TestResult × (ExecutionStatus × VariableStore) :=
  let (result, store) := testOutcome engine reply test s.2
  (result, if result.status ≠ .passed then failedStatus result.status else s.1, store)

/-- The tests of a block: their results, the status of the block and the variables after it. -/
def testsOutcome (failedStatus : ExecutionStatus → ExecutionStatus) (reason : String)
    (tests : List TestCase) (store : VariableStore) :
    List TestResult × (ExecutionStatus × VariableStore) :=
  FailFast.run (blockStepOutcome engine reply failedStatus) (fun r => r.status == .passed)
    (fun t => TestResult.skipped t.name reason) tests (.passed, store)

/-- The result of the core without durations, and the variables after it. -/
def coreOutcome (store : VariableStore) (tests : List TestCase) : BlockResult × VariableStore :=
  let out := testsOutcome engine reply coreStatus coreFailedReason tests store
  (.core out.2.1 0 out.1, out.2.2)

/-- What a block comes to when it starts from the given variables. -/
def blockOutcome (store : VariableStore) : SuiteBlock → BlockResult
  | .core tests => (coreOutcome engine reply store tests).1
  | .pipeline name tests =>
    let out := testsOutcome engine reply (fun _ => .failed) pipelineFailedReason tests store
    .pipeline name out.2.1 0 out.1
  | .test t => .test (testOutcome engine reply t store).1

/-- The variables in which the blocks other than the core start: none if the core does not
pass. -/
def postCore (store : VariableStore) (blocks : List SuiteBlock) : Option VariableStore :=
  match blocks.find? SuiteBlock.isCore with
  | some (.core tests) =>
    let (result, store) := coreOutcome engine reply store tests
    if result.status = .passed then some store else none
  | _ => some store

/-- The result of a block in a suite whose core leaves `post` behind. -/
def resultIn (store : VariableStore) (post : Option VariableStore) (block : SuiteBlock) :
    BlockResult :=
  match block with
  | .core tests => (coreOutcome engine reply store tests).1
  | block =>
    match post with
    | some post => blockOutcome engine reply post block
    | none => skippedBlock block coreFailedReason

/-- The result of a suite, block by block. -/
def suiteOutcome (suite : TestSuite) (store : VariableStore) : SuiteResult :=
  let post := postCore engine reply store suite.blocks
  let blocks := suite.blocks.map (resultIn engine reply store post)
  ⟨suite.name, if post.isSome then suiteStatus blocks else .aborted, 0, blocks,
    if post.isSome then none else some ⟨.dependencyFailed, coreFailedReason⟩⟩

/-! ## The executor computes these functions -/

variable (clock : Clock)

theorem blockStep_untimed (failedStatus : ExecutionStatus → ExecutionStatus) (test : TestCase)
    (s : BlockState) (s' : ExecutionStatus × VariableStore)
    (h : s.status = s'.1 ∧ s.store = s'.2) :
    (blockStep engine (fun _ => reply) clock failedStatus test s).1.untimed =
        (blockStepOutcome engine reply failedStatus test s').1 ∧
      (blockStep engine (fun _ => reply) clock failedStatus test s).2.status =
        (blockStepOutcome engine reply failedStatus test s').2.1 ∧
      (blockStep engine (fun _ => reply) clock failedStatus test s).2.store =
        (blockStepOutcome engine reply failedStatus test s').2.2 := by
  obtain ⟨hresult, hstore, -⟩ :=
    executeTest_spec engine (fun _ => reply) clock test s.store s.world
  obtain ⟨status, store⟩ := s'
  obtain ⟨rfl, rfl⟩ := h
  refine ⟨hresult, ?_, hstore⟩
  unfold blockStep blockStepOutcome
  dsimp only
  rw [← hresult, TestResult.untimed_status]

theorem executeTests_untimed (failedStatus : ExecutionStatus → ExecutionStatus) (reason : String)
    (tests : List TestCase) (store : VariableStore) (w : World) :
    (executeTests engine (fun _ => reply) clock failedStatus reason tests store w).1.map
        TestResult.untimed = (testsOutcome engine reply failedStatus reason tests store).1 ∧
      (executeTests engine (fun _ => reply) clock failedStatus reason tests store w).2.status =
        (testsOutcome engine reply failedStatus reason tests store).2.1 ∧
      (executeTests engine (fun _ => reply) clock failedStatus reason tests store w).2.store =
        (testsOutcome engine reply failedStatus reason tests store).2.2 := by
  obtain ⟨hresults, hstatus, hstore⟩ := FailFast.run_rel
    (blockStep engine (fun _ => reply) clock failedStatus) (fun r => r.status == .passed)
    (fun t => TestResult.skipped t.name reason)
    (blockStepOutcome engine reply failedStatus) (fun r => r.status == .passed)
    (fun t => TestResult.skipped t.name reason)
    (fun s s' => s.status = s'.1 ∧ s.store = s'.2) (fun r r' => r.untimed = r')
    (blockStep_untimed engine reply clock failedStatus) (fun _ => rfl)
    (fun r r' h => by rw [← h, TestResult.untimed_status]) tests
    ⟨.passed, store, w⟩ (.passed, store) ⟨rfl, rfl⟩
  refine ⟨?_, hstatus, hstore⟩
  rw [← List.forall₂_eq_eq_eq, List.forall₂_map_left_iff]
  exact hresults

/-- **Blocks.** The result of a block is its function of the starting variables. -/
theorem executeBlock_untimed (store : VariableStore) (block : SuiteBlock) (w : World) :
    (executeBlock engine (fun _ => reply) clock store block w).1.untimed =
      blockOutcome engine reply store block := by
  cases block with
  | core tests =>
    obtain ⟨hresults, hstatus, -⟩ := executeTests_untimed engine reply clock coreStatus
      coreFailedReason tests store (w.now clock).2
    rw [blockOutcome, coreOutcome]
    dsimp only
    rw [← hresults, ← hstatus]
    rfl
  | pipeline name tests =>
    obtain ⟨hresults, hstatus, -⟩ := executeTests_untimed engine reply clock (fun _ => .failed)
      pipelineFailedReason tests store (w.now clock).2
    rw [blockOutcome, ← hresults, ← hstatus]
    rfl
  | test t =>
    rw [blockOutcome, ← (executeTest_spec engine (fun _ => reply) clock t store w).1]
    rfl

theorem executeAll_untimed (store : VariableStore) (blocks : List SuiteBlock) (w : World) :
    (executeAll engine (fun _ => reply) clock store blocks w).1.map BlockResult.untimed =
      blocks.map (blockOutcome engine reply store) := by
  induction blocks generalizing w with
  | nil => rfl
  | cons block blocks ih =>
    rw [executeAll, List.map_cons, List.map_cons, executeBlock_untimed, ih]

/-- The core, and the variables it leaves behind. -/
theorem executeCore_untimed (tests : List TestCase) (store : VariableStore) (w : World) :
    (executeCore engine (fun _ => reply) clock tests store w).1.untimed =
        (coreOutcome engine reply store tests).1 ∧
      (executeCore engine (fun _ => reply) clock tests store w).2.2.1 =
        (coreOutcome engine reply store tests).2 := by
  obtain ⟨-, -, hstore⟩ := executeTests_untimed engine reply clock coreStatus coreFailedReason
    tests store (w.now clock).2
  exact ⟨executeBlock_untimed engine reply clock store (.core tests) w, hstore⟩

/-! ## A suite, block by block -/

variable {engine reply}

theorem resultIn_of_not_isCore {store : VariableStore} {block : SuiteBlock}
    (h : block.isCore = false) (post : VariableStore) :
    resultIn engine reply store (some post) block = blockOutcome engine reply post block := by
  cases block with
  | core tests => cases h
  | _ => rfl

theorem resultIn_none_of_not_isCore {store : VariableStore} {block : SuiteBlock}
    (h : block.isCore = false) :
    resultIn engine reply store none block = skippedBlock block coreFailedReason := by
  cases block with
  | core tests => cases h
  | _ => rfl

theorem postCore_of_no_core {store : VariableStore} {blocks : List SuiteBlock}
    (h : ∀ b ∈ blocks, b.isCore = false) : postCore engine reply store blocks = some store := by
  have hfind : blocks.find? SuiteBlock.isCore = none := by
    rw [List.find?_eq_none]
    intro b hb
    simp [h b hb]
  rw [postCore, hfind]

theorem postCore_split {store : VariableStore} {before after : List SuiteBlock}
    {tests : List TestCase} (hbefore : ∀ b ∈ before, b.isCore = false) :
    postCore engine reply store (before ++ .core tests :: after) =
      if (coreOutcome engine reply store tests).1.status = .passed then
        some (coreOutcome engine reply store tests).2 else none := by
  have hfind : (before ++ .core tests :: after).find? SuiteBlock.isCore =
      some (.core tests) := by
    have hnone : before.find? SuiteBlock.isCore = none := by
      rw [List.find?_eq_none]
      intro b hb
      simp [hbefore b hb]
    rw [List.find?_append, hnone]
    rfl
  rw [postCore, hfind]

variable (engine reply) in
/-- **Blocks are isolated.** Apart from durations, each block of a run has the result that the
block, the core and the initial variables determine. -/
theorem execute_untimed {suite : TestSuite} (hpre : preflight suite = .ok ())
    (store : VariableStore) (w : World) :
    ∃ r w', execute engine (fun _ => reply) clock suite store w = some (r, w') ∧
      r.untimed = suiteOutcome engine reply suite store := by
  rcases core_split (preflight_ok_iff.mp hpre).2.1 with
    hnone | ⟨before, tests, after, hsplit, hbefore, hafter⟩
  · -- no core
    refine ⟨_, _, execute_of_no_core engine _ clock hpre hnone store w, ?_⟩
    have hall := executeAll_untimed engine reply clock store suite.blocks (w.now clock).2
    have hblocks : suite.blocks.map (resultIn engine reply store (some store)) =
        suite.blocks.map (blockOutcome engine reply store) :=
      List.map_congr_left fun b hb => resultIn_of_not_isCore (hnone b hb) store
    rw [suiteOutcome, postCore_of_no_core hnone, hblocks, ← hall, suiteStatus_untimed]
    rfl
  · have hpass := execute_of_core_passed engine (fun _ => reply) clock hpre hsplit hbefore hafter
      store w
    have hfail := execute_of_core_unpassed engine (fun _ => reply) clock hpre hsplit hbefore store w
    have hstatus := executeCore_status engine (fun _ => reply) clock store tests (w.now clock).2
    obtain ⟨hresult, hstore⟩ := executeCore_untimed engine reply clock tests store (w.now clock).2
    generalize executeCore engine (fun _ => reply) clock tests store (w.now clock).2 = core at *
    have hmap : ∀ post, suite.blocks.map (resultIn engine reply store post) =
        before.map (resultIn engine reply store post) ++ core.1.untimed ::
          after.map (resultIn engine reply store post) := by
      intro post
      rw [hsplit, List.map_append, List.map_cons, hresult]
      rfl
    rw [suiteOutcome, hsplit, postCore_split hbefore, ← hresult, BlockResult.untimed_status,
      ← hsplit]
    by_cases hcore : core.1.status = .passed
    · -- the core passes
      refine ⟨_, _, hpass (hstatus.trans hcore), ?_⟩
      rw [if_pos hcore, ← hstore, hmap]
      have hrest : ∀ blocks : List SuiteBlock, (∀ b ∈ blocks, b.isCore = false) → ∀ w,
          blocks.map (resultIn engine reply store (some core.2.2.1)) =
            (executeAll engine (fun _ => reply) clock core.2.2.1 blocks w).1.map
              BlockResult.untimed := by
        intro blocks hall w
        rw [executeAll_untimed]
        exact List.map_congr_left fun b hb => resultIn_of_not_isCore (hall b hb) _
      rw [hrest before hbefore core.2.2.2, hrest after hafter
        (executeAll engine (fun _ => reply) clock core.2.2.1 before core.2.2.2).2]
      rw [← List.map_cons, ← List.map_append, suiteStatus_untimed, suiteStatus_insert hcore]
      rfl
    · -- the core does not pass
      refine ⟨_, _, hfail (fun h => hcore (hstatus.symm.trans h)), ?_⟩
      rw [if_neg hcore, hmap]
      have hrest : ∀ blocks : List SuiteBlock, (∀ b ∈ blocks, b.isCore = false) →
          blocks.map (resultIn engine reply store none) =
            (blocks.map (skippedBlock · coreFailedReason)).map BlockResult.untimed := by
        intro blocks hall
        rw [List.map_map]
        refine List.map_congr_left fun b hb => ?_
        rw [resultIn_none_of_not_isCore (hall b hb)]
        exact (skippedBlock_untimed b _).symm
      rw [hrest before hbefore, hrest after hafter, ← List.map_cons, ← List.map_append]
      rfl

end Outcome

/-! ## Moving, removing and inserting blocks -/

section Rearrange

variable {engine : ExecutionEngine}
  {reply : ResolvedHttpRequest → Except HttpError HttpResponse} {suite : TestSuite}

/-- The suite with its blocks in another order. -/
def permuted (suite : TestSuite) (σ : Equiv.Perm (Fin suite.blocks.length)) : TestSuite :=
  { suite with blocks := List.ofFn fun i => suite.blocks.get (σ i) }

omit [Platform] in
theorem permuted_perm (suite : TestSuite) (σ : Equiv.Perm (Fin suite.blocks.length)) :
    (permuted suite σ).blocks.Perm suite.blocks := by
  have h := σ.ofFn_comp_perm suite.blocks.get
  rwa [List.ofFn_get] at h

omit [Platform] in
theorem preflight_permuted (hpre : preflight suite = .ok ())
    (σ : Equiv.Perm (Fin suite.blocks.length)) : preflight (permuted suite σ) = .ok () := by
  rw [preflight_ok_iff] at hpre ⊢
  obtain ⟨hne, hcore, hpipelines⟩ := hpre
  have hperm := permuted_perm suite σ
  refine ⟨fun hnil => hne ?_, ?_, ?_⟩
  · rw [hnil] at hperm
    exact hperm.nil_eq.symm
  · rw [(hperm.filter _).length_eq]
    exact hcore
  · intro name tests hmem
    exact hpipelines name tests (hperm.mem_iff.mp hmem)

omit [Platform] in
/-- The unique core is the first core of every arrangement. -/
theorem find?_core_perm {blocks blocks' : List SuiteBlock} (hperm : blocks'.Perm blocks)
    (hcore : (blocks.filter SuiteBlock.isCore).length ≤ 1) :
    blocks'.find? SuiteBlock.isCore = blocks.find? SuiteBlock.isCore := by
  rw [← List.head?_filter, ← List.head?_filter]
  have h := hperm.filter SuiteBlock.isCore
  cases hf : blocks.filter SuiteBlock.isCore with
  | nil => rw [hf] at h; rw [h.eq_nil]
  | cons b bs =>
    rw [hf, List.length_cons] at hcore
    have hbs : bs = [] := List.length_eq_zero_iff.mp (by omega)
    rw [hf, hbs] at h
    rw [List.perm_singleton.mp h]
    rfl

variable (engine reply) in
/-- What the other blocks start from depends on the core block only. -/
theorem postCore_congr {blocks blocks' : List SuiteBlock}
    (h : blocks'.find? SuiteBlock.isCore = blocks.find? SuiteBlock.isCore)
    (store : VariableStore) :
    postCore engine reply store blocks' = postCore engine reply store blocks := by
  rw [postCore, postCore, h]

omit [Platform] in
theorem suiteStatus_perm {results results' : List BlockResult} (h : results'.Perm results) :
    suiteStatus results' = suiteStatus results := by
  have hany : results'.any (·.status ≠ .passed) = results.any (·.status ≠ .passed) := by
    rw [Bool.eq_iff_iff, List.any_eq_true, List.any_eq_true]
    simp only [h.mem_iff]
  rw [suiteStatus, suiteStatus, hany]

theorem suiteOutcome_permuted (hpre : preflight suite = .ok ()) (store : VariableStore)
    (σ : Equiv.Perm (Fin suite.blocks.length)) :
    suiteOutcome engine reply (permuted suite σ) store =
      { suiteOutcome engine reply suite store with
        blocks := List.ofFn fun i => resultIn engine reply store
          (postCore engine reply store suite.blocks) (suite.blocks.get (σ i)) } := by
  have hperm := permuted_perm suite σ
  have hpost := postCore_congr engine reply
    (find?_core_perm hperm (preflight_ok_iff.mp hpre).2.1) store
  have hstatus := suiteStatus_perm
    (hperm.map (resultIn engine reply store (postCore engine reply store suite.blocks)))
  unfold suiteOutcome
  dsimp only
  rw [hpost, hstatus]
  congr 1
  rw [permuted, List.map_ofFn]
  rfl

omit [Platform] in
theorem find?_core_erase {before after : List SuiteBlock} {block : SuiteBlock}
    (h : block.isCore = false) :
    (before ++ after).find? SuiteBlock.isCore =
      (before ++ block :: after).find? SuiteBlock.isCore := by
  rw [List.find?_append, List.find?_append, List.find?_cons, h]

end Rearrange

/-- **Blocks are isolated from each other.** Let replies depend on the request alone. Then a run
gives every block the result that the block, the core and the initial variables determine; the
blocks of a suite, the core included, may be put in any order, and their results and the status
of the suite stay the same; and a suite with a further block that is not the core has the same
results for all the others. The clocks of the runs may differ. -/
theorem execute_isolated (engine : ExecutionEngine)
    (reply : ResolvedHttpRequest → Except HttpError HttpResponse) (clock clock' : Clock)
    (suite : TestSuite) (store : VariableStore) (hpre : preflight suite = .ok ()) :
    ∃ r w, execute engine (fun _ => reply) clock suite store World.initial = some (r, w) ∧
      r.untimed.blocks = suite.blocks.map
        (resultIn engine reply store (postCore engine reply store suite.blocks)) ∧
      (∀ σ : Equiv.Perm (Fin suite.blocks.length), ∃ r' w',
        execute engine (fun _ => reply) clock' (permuted suite σ) store World.initial =
          some (r', w') ∧
        r'.status = r.status ∧ r'.error = r.error ∧
        r'.untimed.blocks.map some = List.ofFn fun i => r.untimed.blocks[(σ i).val]?) ∧
      ∀ before block after, suite.blocks = before ++ block :: after → block.isCore = false →
        preflight { suite with blocks := before ++ after } = .ok () → ∃ r' w' first result last,
          execute engine (fun _ => reply) clock' { suite with blocks := before ++ after } store
            World.initial = some (r', w') ∧
          first.length = before.length ∧
          r.untimed.blocks = first ++ result :: last ∧ r'.untimed.blocks = first ++ last := by
  obtain ⟨r, w, hexec, hr⟩ := execute_untimed engine reply clock hpre store
    World.initial
  have hblocks : r.untimed.blocks = suite.blocks.map
      (resultIn engine reply store (postCore engine reply store suite.blocks)) := by
    rw [hr]
    rfl
  refine ⟨r, w, hexec, hblocks, ?_, ?_⟩
  · intro σ
    obtain ⟨r', w', hexec', hr'⟩ := execute_untimed engine reply clock'
      (preflight_permuted hpre σ) store World.initial
    rw [suiteOutcome_permuted hpre] at hr'
    have hstatus : r'.untimed.status = r.untimed.status := by rw [hr', hr]
    have herror : r'.untimed.error = r.untimed.error := by rw [hr', hr]
    refine ⟨r', w', hexec', hstatus, herror, ?_⟩
    rw [hr', hblocks, List.map_ofFn]
    congr 1
    funext i
    simp
  · intro before block after hsplit hcore hpre'
    obtain ⟨r', w', hexec', hr'⟩ := execute_untimed engine reply clock' hpre'
      store World.initial
    have hpost : postCore engine reply store (before ++ after) =
        postCore engine reply store suite.blocks := by
      rw [hsplit]
      exact postCore_congr engine reply (find?_core_erase hcore) store
    let resultOf := resultIn engine reply store (postCore engine reply store suite.blocks)
    refine ⟨r', w', before.map resultOf, resultOf block, after.map resultOf, hexec',
      List.length_map _, ?_, ?_⟩
    · have hmap : suite.blocks.map resultOf =
          before.map resultOf ++ resultOf block :: after.map resultOf := by
        rw [hsplit, List.map_append, List.map_cons]
      exact hblocks.trans hmap
    · rw [hr', suiteOutcome]
      dsimp only
      rw [hpost, List.map_append]

omit [Platform] in
/-- A standalone test and a core that fails against a server that answers 404 to everything:
the test is skipped, whatever stands before or after the core. -/
theorem execute_isolated_failed_core :
    letI := asciiPlatform
    ∃ r w, execute ExecutionEngine.default
        (fun _ _ => .ok ⟨404, ResponseHeaders.new, .empty⟩) (fun n => n)
        ⟨none, [.test ⟨"after", .new .get ⟨"/b"⟩, ⟨none, [], none⟩⟩,
          .core [⟨"login", .new .post ⟨"/a"⟩, ⟨some 200, [], none⟩⟩]]⟩
        VariableStore.new World.initial = some (r, w) ∧
      r.untimed.blocks[0]? = some (.test (TestResult.skipped "after" coreFailedReason)) := by
  let _ := asciiPlatform
  obtain ⟨r, w, hexec, hblocks, -⟩ := execute_isolated ExecutionEngine.default
    (fun _ => .ok ⟨404, ResponseHeaders.new, .empty⟩) (fun n => n) (fun n => n)
    ⟨none, [.test ⟨"after", .new .get ⟨"/b"⟩, ⟨none, [], none⟩⟩,
      .core [⟨"login", .new .post ⟨"/a"⟩, ⟨some 200, [], none⟩⟩]]⟩
    VariableStore.new (by rfl)
  refine ⟨r, w, hexec, ?_⟩
  rw [hblocks]
  rfl

end Rettp
