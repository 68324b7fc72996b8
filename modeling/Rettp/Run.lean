import Rettp.Outcome

/-!
# A run in closed form

The executor fills result slots out of order: the core first, wherever it stands, then the other
blocks. This file takes a run apart.

* `executeBlock_ran`: what running one block guarantees (`BlockRan`), from the fail-fast loop
  over its tests;
* `executeBlocks_eq`: the loop over the other blocks fills one slot after the other;
* `execute_of_no_core`, `execute_of_core_passed`, `execute_of_core_unpassed`: a run as the
  blocks before the core, the core and the blocks after it; no slot stays empty.
-/

namespace Rettp

variable [Platform]

/-! ## What a stretch of a run leaves behind -/

/-- Between the two moments exactly these attempts were recorded, and exactly their requests
were sent. -/
structure Logs (engine : ExecutionEngine) (w w' : World) (attempts : List Attempt) : Prop where
  attempts_eq : w'.attempts = w.attempts ++ attempts
  sent_eq : w'.sent = w.sent ++ attempts.filterMap (requestOf engine)

namespace Logs

variable {engine : ExecutionEngine} {w w' w'' : World}

/-- Reading the clock leaves no trace. -/
theorem of_eq (h : w'.attempts = w.attempts) (h' : w'.sent = w.sent) : Logs engine w w' [] :=
  ⟨by rw [h, List.append_nil], by rw [h', List.filterMap_nil, List.append_nil]⟩

theorem trans {as bs : List Attempt} (h : Logs engine w w' as) (h' : Logs engine w' w'' bs) :
    Logs engine w w'' (as ++ bs) :=
  ⟨by rw [h'.attempts_eq, h.attempts_eq, List.append_assoc],
    by rw [h'.sent_eq, h.sent_eq, List.filterMap_append, List.append_assoc]⟩

theorem now (clock : Clock) (w : World) : Logs engine w (w.now clock).2 [] := of_eq rfl rfl

theorem elapsedMs (clock : Clock) (started : Nat) (w : World) :
    Logs engine w (w.elapsedMs clock started).2 [] := of_eq rfl rfl

/-- A stretch between two readings of the clock. -/
theorem timed {clock : Clock} {as : List Attempt} (started : Nat)
    (h : Logs engine (w.now clock).2 w' as) :
    Logs engine w (w'.elapsedMs clock started).2 as := by
  simpa using ((now clock w).trans h).trans (elapsedMs clock started w')

end Logs

/-- The tests of a block that were attempted, by their results. -/
def attemptedTests (tests : List TestCase) (results : List TestResult) : List TestCase :=
  ((tests.zip results).filter fun e => e.2.status != .skipped).map Prod.fst

/-- In a list of results the skips are those after a result that is not a pass. -/
def SkipsAfterFailure (results : List TestResult) : Prop :=
  ∀ (i : Nat) (r : TestResult), results[i]? = some r →
    (r.status = .skipped ↔ ∃ j < i, ∃ r', results[j]? = some r' ∧ r'.status ≠ .passed)

/-- The result of a block has its kind, its name and the names of its tests. -/
inductive SameShape : SuiteBlock → BlockResult → Prop
  | core {tests : List TestCase} {status : ExecutionStatus} {ms : Nat}
      {results : List TestResult} (h : results.map (·.name) = tests.map (·.name)) :
      SameShape (.core tests) (.core status ms results)
  | pipeline {name : String} {tests : List TestCase} {status : ExecutionStatus} {ms : Nat}
      {results : List TestResult} (h : results.map (·.name) = tests.map (·.name)) :
      SameShape (.pipeline name tests) (.pipeline name status ms results)
  | test {t : TestCase} {r : TestResult} (h : r.name = t.name) : SameShape (.test t) (.test r)

/-- The status of a block: its own, or that of its only test. -/
def BlockResult.status : BlockResult → ExecutionStatus
  | .core status _ _ => status
  | .pipeline _ status _ _ => status
  | .test r => r.status

/-- What running one block guarantees. -/
structure BlockRan (engine : ExecutionEngine) (block : SuiteBlock) (result : BlockResult)
    (w w' : World) : Prop where
  shape : SameShape block result
  skips : SkipsAfterFailure result.tests
  logs : ∃ attempts, Logs engine w w' attempts ∧
    attempts.map (·.test) = attemptedTests block.tests result.tests
  passed_iff : result.status = .passed ↔ ∀ r ∈ result.tests, r.status = .passed
  not_skipped : result.status ≠ .skipped

section Engine

variable (engine : ExecutionEngine) (client : HttpClient) (clock : Clock)

/-! ## The tests of a block -/

section Tests

variable (failedStatus : ExecutionStatus → ExecutionStatus) (reason : String)

theorem executeTests_names (tests : List TestCase) (store : VariableStore) (w : World) :
    (executeTests engine client clock failedStatus reason tests store w).1.map (·.name) =
      tests.map (·.name) := by
  have h := FailFast.forall₂_run (blockStep engine client clock failedStatus)
    (fun r => r.status == .passed) (fun t => TestResult.skipped t.name reason)
    (fun t r => r.name = t.name)
    (fun t s => executeTest_name engine client clock t s.store s.world) (fun _ => rfl) tests
    ⟨.passed, store, w⟩
  rw [← List.forall₂_eq_eq_eq, List.forall₂_map_left_iff, List.forall₂_map_right_iff]
  exact h.flip

theorem blockStep_not_skipped (t : TestCase) (s : BlockState) :
    ((blockStep engine client clock failedStatus t s).1.status == .skipped) = false := by
  rw [beq_eq_false_iff_ne]
  exact executeTest_status_ne_skipped engine client clock t s.store s.world

theorem executeTests_skips (tests : List TestCase) (store : VariableStore) (w : World) :
    SkipsAfterFailure (executeTests engine client clock failedStatus reason tests store w).1 := by
  intro i r hr
  have h := FailFast.run_skipped_iff (blockStep engine client clock failedStatus)
    (fun r => r.status == .passed) (fun t => TestResult.skipped t.name reason)
    (fun r => r.status == .skipped) (fun _ => rfl)
    (blockStep_not_skipped engine client clock failedStatus) tests ⟨.passed, store, w⟩ hr
  simpa [executeTests] using h

theorem executeTests_logs (tests : List TestCase) (store : VariableStore) (w : World) :
    ∃ attempts,
      Logs engine w (executeTests engine client clock failedStatus reason tests store w).2.world
        attempts ∧
      attempts.map (·.test) = attemptedTests tests
        (executeTests engine client clock failedStatus reason tests store w).1 := by
  have hlog := FailFast.run_log (blockStep engine client clock failedStatus)
    (fun r => r.status == .passed) (fun t => TestResult.skipped t.name reason)
    (fun s => s.world.attempts) (fun t s => [⟨t, s.store⟩])
    (fun t s => (executeTest_spec engine client clock t s.store s.world).2.2.2) tests
    ⟨.passed, store, w⟩
  have hsent := FailFast.run_log (blockStep engine client clock failedStatus)
    (fun r => r.status == .passed) (fun t => TestResult.skipped t.name reason)
    (fun s => s.world.sent) (fun t s => (requestOf engine ⟨t, s.store⟩).toList)
    (fun t s => (executeTest_spec engine client clock t s.store s.world).2.2.1) tests
    ⟨.passed, store, w⟩
  have htests := FailFast.map_fst_attempted (blockStep engine client clock failedStatus)
    (fun r => r.status == .passed) (fun t => TestResult.skipped t.name reason)
    (fun r => r.status == .skipped) (fun _ => rfl)
    (blockStep_not_skipped engine client clock failedStatus) tests ⟨.passed, store, w⟩
  rw [← List.map_eq_flatMap] at hlog
  refine ⟨_, ⟨hlog, ?_⟩, ?_⟩
  · rw [List.filterMap_map, List.filterMap_eq_flatMap_toList]
    exact hsent
  · rw [List.map_map]
    exact htests

/-- A round leaves the status of the block alone exactly when its test passes. -/
theorem blockStep_status (t : TestCase) (s : BlockState) :
    (blockStep engine client clock failedStatus t s).2.status =
      if (blockStep engine client clock failedStatus t s).1.status = .passed then s.status
      else failedStatus (blockStep engine client clock failedStatus t s).1.status := by
  unfold blockStep
  dsimp only
  rw [ite_not]

theorem run_passed_iff (hf : ∀ status, failedStatus status ≠ .passed) (tests : List TestCase)
    (s : BlockState) :
    (FailFast.run (blockStep engine client clock failedStatus) (fun r => r.status == .passed)
        (fun t => TestResult.skipped t.name reason) tests s).2.status = .passed ↔
      s.status = .passed ∧ ∀ r ∈ (FailFast.run (blockStep engine client clock failedStatus)
        (fun r => r.status == .passed) (fun t => TestResult.skipped t.name reason) tests s).1,
        r.status = .passed := by
  induction tests generalizing s with
  | nil => simp
  | cons t tests ih =>
    have hstatus := blockStep_status engine client clock failedStatus t s
    by_cases h : (blockStep engine client clock failedStatus t s).1.status = .passed
    · rw [FailFast.run_cons_ok (by simpa using h), ih, hstatus, if_pos h]
      simp [h]
    · rw [FailFast.run_cons_fail (by simpa using h), hstatus, if_neg h]
      simp [h, hf]

/-- The status of a block is `passed` exactly when all of its tests are. -/
theorem executeTests_passed_iff (hf : ∀ status, failedStatus status ≠ .passed)
    (tests : List TestCase) (store : VariableStore) (w : World) :
    (executeTests engine client clock failedStatus reason tests store w).2.status = .passed ↔
      ∀ r ∈ (executeTests engine client clock failedStatus reason tests store w).1,
        r.status = .passed := by
  rw [executeTests, run_passed_iff engine client clock failedStatus reason hf]
  simp

/-- The status of a block is one it starts with or one that a failed test gives it. -/
theorem run_status (tests : List TestCase) (s : BlockState) :
    (FailFast.run (blockStep engine client clock failedStatus) (fun r => r.status == .passed)
        (fun t => TestResult.skipped t.name reason) tests s).2.status = s.status ∨
      ∃ status, (FailFast.run (blockStep engine client clock failedStatus)
        (fun r => r.status == .passed) (fun t => TestResult.skipped t.name reason) tests
        s).2.status = failedStatus status := by
  induction tests generalizing s with
  | nil => exact .inl rfl
  | cons t tests ih =>
    have hstatus := blockStep_status engine client clock failedStatus t s
    by_cases h : (blockStep engine client clock failedStatus t s).1.status = .passed
    · rw [FailFast.run_cons_ok (by simpa using h)]
      rw [if_pos h] at hstatus
      simpa [hstatus] using ih (blockStep engine client clock failedStatus t s).2
    · rw [FailFast.run_cons_fail (by simpa using h), hstatus, if_neg h]
      exact .inr ⟨_, rfl⟩

theorem executeTests_status_ne_skipped (hf : ∀ status, failedStatus status ≠ .skipped)
    (tests : List TestCase) (store : VariableStore) (w : World) :
    (executeTests engine client clock failedStatus reason tests store w).2.status ≠ .skipped := by
  rcases run_status engine client clock failedStatus reason tests ⟨.passed, store, w⟩ with
    h | ⟨status, h⟩
  · rw [executeTests, h]
    exact fun h => by cases h
  · rw [executeTests, h]
    exact hf status

end Tests

/-! ## One block -/

/-- Run a block of any kind from given variables. -/
def executeBlock (store : VariableStore) (block : SuiteBlock) (w : World) :
    BlockResult × World :=
  match block with
  | .core tests =>
    let (result, _, _, w) := executeCore engine client clock tests store w
    (result, w)
  | .pipeline name tests =>
    let (result, _, w) := executePipeline engine client clock name tests store w
    (result, w)
  | .test t =>
    let (result, _, w) := executeTest engine client clock t store w
    (.test result, w)

omit [Platform] in
theorem coreStatus_ne_passed (status : ExecutionStatus) : coreStatus status ≠ .passed := by
  unfold coreStatus
  split <;> exact fun h => by cases h

omit [Platform] in
theorem coreStatus_ne_skipped (status : ExecutionStatus) : coreStatus status ≠ .skipped := by
  unfold coreStatus
  split <;> exact fun h => by cases h

omit [Platform] in
theorem attemptedTests_singleton {t : TestCase} {r : TestResult} (h : r.status ≠ .skipped) :
    attemptedTests [t] [r] = [t] := by
  simp [attemptedTests, h]

/-- **One block.** -/
theorem executeBlock_ran (store : VariableStore) (block : SuiteBlock) (w : World) :
    BlockRan engine block (executeBlock engine client clock store block w).1 w
      (executeBlock engine client clock store block w).2 := by
  cases block with
  | core tests =>
    obtain ⟨attempts, hlogs, htests⟩ :=
      executeTests_logs engine client clock coreStatus coreFailedReason tests store
        (w.now clock).2
    exact ⟨.core (executeTests_names ..), executeTests_skips _ _ _ _ _ _ _ _,
      ⟨attempts, hlogs.timed (w.now clock).1, htests⟩,
      executeTests_passed_iff _ _ _ _ _ coreStatus_ne_passed _ _ _,
      executeTests_status_ne_skipped _ _ _ _ _ coreStatus_ne_skipped _ _ _⟩
  | pipeline name tests =>
    obtain ⟨attempts, hlogs, htests⟩ :=
      executeTests_logs engine client clock (fun _ => .failed) pipelineFailedReason tests store
        (w.now clock).2
    exact ⟨.pipeline (executeTests_names ..), executeTests_skips _ _ _ _ _ _ _ _,
      ⟨attempts, hlogs.timed (w.now clock).1, htests⟩,
      executeTests_passed_iff _ _ _ _ _ (fun _ h => by cases h) _ _ _,
      executeTests_status_ne_skipped _ _ _ _ _ (fun _ h => by cases h) _ _ _⟩
  | test t =>
    have hne := executeTest_status_ne_skipped engine client clock t store w
    obtain ⟨-, -, hsent, hatt⟩ := executeTest_spec engine client clock t store w
    refine ⟨.test (executeTest_name ..), ?_, ⟨[⟨t, store⟩], ⟨hatt, ?_⟩, ?_⟩, ?_, hne⟩
    · intro i r hr
      cases i with
      | zero =>
        obtain rfl : (executeTest engine client clock t store w).1 = r := Option.some.inj hr
        simp [hne]
      | succ i => cases hr
    · rw [List.filterMap_eq_flatMap_toList, List.flatMap_singleton]
      exact hsent
    · exact (attemptedTests_singleton hne).symm
    · simp [executeBlock, BlockResult.status, BlockResult.tests]

theorem executeCore_ran (store : VariableStore) (tests : List TestCase) (w : World) :
    BlockRan engine (.core tests) (executeCore engine client clock tests store w).1 w
      (executeCore engine client clock tests store w).2.2.2 :=
  executeBlock_ran engine client clock store (.core tests) w

theorem executeCore_status (store : VariableStore) (tests : List TestCase) (w : World) :
    (executeCore engine client clock tests store w).2.1 =
      (executeCore engine client clock tests store w).1.status := rfl

/-! ## The blocks after the core -/

/-- Run blocks one after the other, each from the same variables. -/
def executeAll (store : VariableStore) : List SuiteBlock → World → List BlockResult × World
  | [], w => ([], w)
  | block :: blocks, w =>
    let (result, w) := executeBlock engine client clock store block w
    let (results, w) := executeAll store blocks w
    (result :: results, w)

theorem executeAll_length (store : VariableStore) (blocks : List SuiteBlock) (w : World) :
    (executeAll engine client clock store blocks w).1.length = blocks.length := by
  induction blocks generalizing w with
  | nil => rfl
  | cons block blocks ih =>
    rw [executeAll, List.length_cons]
    exact congrArg (· + 1) (ih _)

omit [Platform] in
/-- Whether a block failed, told block by block or once at the end. -/
theorem anyFailed_cons (result : BlockResult) (results : List BlockResult) (failed : Bool) :
    ((result :: results).any (·.status ≠ .passed) || failed) =
      (results.any (·.status ≠ .passed) ||
        if result.status ≠ .passed then true else failed) := by
  rw [List.any_cons]
  by_cases h : result.status = .passed <;> simp [h]

/-- **Filling the slots.** Over blocks that are not the core, the loop fills one empty slot after
the other with what the blocks come to. -/
theorem executeBlocks_eq (coreIndex : Option Nat) (postCore : VariableStore)
    (blocks : List SuiteBlock) (hcore : ∀ b ∈ blocks, b.isCore = false)
    (rest : List (SuiteBlock × Nat)) (done tail : List (Option BlockResult))
    (hindex : ∀ i, done.length ≤ i → i < done.length + blocks.length → some i ≠ coreIndex)
    (failed : Bool) (w : World) :
    executeBlocks engine client clock coreIndex postCore (blocks.zipIdx done.length ++ rest)
        (done ++ (List.replicate blocks.length none ++ tail)) failed w =
      executeBlocks engine client clock coreIndex postCore rest
        (done ++ ((executeAll engine client clock postCore blocks w).1.map some ++ tail))
        ((executeAll engine client clock postCore blocks w).1.any (·.status ≠ .passed) || failed)
        (executeAll engine client clock postCore blocks w).2 := by
  induction blocks generalizing done failed w with
  | nil => simp [executeAll]
  | cons block blocks ih =>
    have hne : some done.length ≠ coreIndex :=
      hindex _ (Nat.le_refl _) (by rw [List.length_cons]; omega)
    have hset : ∀ result : Option BlockResult,
        (done ++ (List.replicate (blocks.length + 1) none ++ tail)).set done.length result =
          (done ++ [result]) ++ (List.replicate blocks.length none ++ tail) := by
      intro result
      simp [List.replicate_succ]
    have hlen : ∀ result : Option BlockResult, (done ++ [result]).length = done.length + 1 := by
      simp
    have hstep : ∀ (result : Option BlockResult) (failed : Bool) (w : World),
        executeBlocks engine client clock coreIndex postCore
            (blocks.zipIdx (done.length + 1) ++ rest)
            ((done ++ [result]) ++ (List.replicate blocks.length none ++ tail)) failed w =
          executeBlocks engine client clock coreIndex postCore rest
            ((done ++ [result]) ++
              ((executeAll engine client clock postCore blocks w).1.map some ++ tail))
            ((executeAll engine client clock postCore blocks w).1.any (·.status ≠ .passed) ||
              failed)
            (executeAll engine client clock postCore blocks w).2 := by
      intro result failed w
      rw [← hlen result]
      refine ih (fun b hb => hcore b (List.mem_cons_of_mem _ hb)) _ ?_ failed w
      intro i hi hi'
      rw [hlen] at hi hi'
      exact hindex i (by omega) (by rw [List.length_cons]; omega)
    rw [List.zipIdx_cons, List.cons_append, List.length_cons]
    cases block with
    | core tests => cases hcore _ List.mem_cons_self
    | pipeline name tests =>
      rw [executeBlocks, if_neg hne]
      dsimp only
      rw [hset, hstep, executeAll, anyFailed_cons, List.append_assoc]
      rfl
    | test t =>
      rw [executeBlocks, if_neg hne]
      dsimp only
      rw [hset, hstep, executeAll, anyFailed_cons, List.append_assoc]
      rfl

/-! ## A run in closed form -/

omit [Platform] in
theorem collectResults_map_some (results : List BlockResult) :
    collectResults (results.map some) = some results := by
  induction results with
  | nil => rfl
  | cons r results ih => rw [List.map_cons, collectResults, ih]; rfl

/-- A pipeline without tests, which the check before a run refuses. -/
def SuiteBlock.isEmptyPipeline : SuiteBlock → Bool
  | .pipeline _ tests => tests.isEmpty
  | _ => false

omit [Platform] in
/-- What `preflight` accepts. -/
theorem preflight_ok_iff {suite : TestSuite} :
    preflight suite = .ok () ↔ suite.blocks ≠ [] ∧
      (suite.blocks.filter SuiteBlock.isCore).length ≤ 1 ∧
      ∀ name tests, SuiteBlock.pipeline name tests ∈ suite.blocks → tests ≠ [] := by
  have hany : suite.blocks.any SuiteBlock.isEmptyPipeline = true ↔
      ∃ name tests, SuiteBlock.pipeline name tests ∈ suite.blocks ∧ tests = [] := by
    rw [List.any_eq_true]
    refine ⟨?_, ?_⟩
    · rintro ⟨b, hb, h⟩
      cases b with
      | pipeline name tests => exact ⟨name, tests, hb, List.isEmpty_iff.mp h⟩
      | _ => cases h
    · rintro ⟨name, tests, hb, rfl⟩
      exact ⟨_, hb, rfl⟩
  unfold preflight
  split
  · next h => simp [List.isEmpty_iff.mp h]
  · next hne =>
    split
    · next h => simp only [reduceCtorEq, false_iff]; omega
    · next hle =>
      split
      · next h =>
        obtain ⟨name, tests, hb, rfl⟩ := hany.mp h
        simp only [reduceCtorEq, false_iff, not_and, not_forall]
        exact fun _ _ => ⟨name, [], hb, fun h => h rfl⟩
      · next h =>
        simp only [true_iff]
        refine ⟨fun hnil => hne (by simp [hnil]), by omega, ?_⟩
        intro name tests hb hnil
        exact h (hany.mpr ⟨name, tests, hb, hnil⟩)

omit [Platform] in
/-- A list of blocks with at most one core has none, or splits at it. -/
theorem core_split {blocks : List SuiteBlock}
    (h : (blocks.filter SuiteBlock.isCore).length ≤ 1) :
    (∀ b ∈ blocks, b.isCore = false) ∨
      ∃ before tests after, blocks = before ++ .core tests :: after ∧
        (∀ b ∈ before, b.isCore = false) ∧ ∀ b ∈ after, b.isCore = false := by
  induction blocks with
  | nil => exact .inl (by simp)
  | cons block blocks ih =>
    cases hb : block.isCore with
    | true =>
      cases block with
      | core tests =>
        refine .inr ⟨[], tests, blocks, rfl, by simp, ?_⟩
        rw [List.filter_cons_of_pos hb, List.length_cons] at h
        have hnil : blocks.filter SuiteBlock.isCore = [] :=
          List.length_eq_zero_iff.mp (by omega)
        intro b hmem
        simpa using List.filter_eq_nil_iff.mp hnil b hmem
      | _ => cases hb
    | false =>
      rw [List.filter_cons_of_neg (by simp [hb])] at h
      rcases ih h with hall | ⟨before, tests, after, rfl, hbefore, hafter⟩
      · refine .inl ?_
        intro b hmem
        rcases List.mem_cons.mp hmem with rfl | hmem
        · exact hb
        · exact hall b hmem
      · refine .inr ⟨block :: before, tests, after, rfl, ?_, hafter⟩
        intro b hmem
        rcases List.mem_cons.mp hmem with rfl | hmem
        · exact hb
        · exact hbefore b hmem

/-- The status of a suite whose core passed, by the blocks after it. -/
def suiteStatus (results : List BlockResult) : ExecutionStatus :=
  if results.any (·.status ≠ .passed) then .failed else .passed

/-- **No core.** Every block runs from the initial variables. -/
theorem execute_of_no_core {suite : TestSuite} (hpre : preflight suite = .ok ())
    (hcore : ∀ b ∈ suite.blocks, b.isCore = false) (store : VariableStore) (w : World) :
    let all := executeAll engine client clock store suite.blocks (w.now clock).2
    let time := all.2.elapsedMs clock (w.now clock).1
    execute engine client clock suite store w =
      some (⟨suite.name, suiteStatus all.1, time.1, all.1, none⟩, time.2) := by
  intro all time
  have hfind : suite.blocks.findIdx? SuiteBlock.isCore = none := by
    rw [List.findIdx?_eq_none_iff]
    exact hcore
  have hblocks := executeBlocks_eq engine client clock none store suite.blocks hcore [] [] []
    (by simp) false (w.now clock).2
  simp only [List.length_nil, List.append_nil, List.nil_append, Bool.or_false] at hblocks
  unfold execute
  dsimp only
  rw [hpre]
  dsimp only
  rw [hfind]
  dsimp only [executeRest]
  rw [hblocks]
  simp only [executeBlocks, Option.bind_eq_bind, Option.bind_some, collectResults_map_some]
  rfl

section Core

variable {suite : TestSuite} {before after : List SuiteBlock} {tests : List TestCase}

omit [Platform] in
/-- The core is found where it stands. -/
theorem findIdx?_core (hbefore : ∀ b ∈ before, b.isCore = false) :
    (before ++ .core tests :: after).findIdx? SuiteBlock.isCore = some before.length := by
  have hnone : before.findIdx? SuiteBlock.isCore = none := List.findIdx?_eq_none_iff.mpr hbefore
  rw [List.findIdx?_append, hnone, List.findIdx?_cons]
  simp [SuiteBlock.isCore]

omit [Platform] in
theorem getElem?_core :
    (before ++ .core tests :: after)[before.length]? = some (SuiteBlock.core tests) := by
  simp

omit [Platform] in
/-- The slots after the core has been run. -/
theorem set_core (result : Option BlockResult) :
    (List.replicate (before ++ .core tests :: after).length none).set before.length result =
      List.replicate before.length none ++ result :: List.replicate after.length none := by
  rw [List.length_append, List.length_cons, List.replicate_add, List.replicate_succ,
    List.set_append_right _ _ (by simp)]
  simp

omit [Platform] in
theorem skipRemaining_core (result : BlockResult) :
    skipRemaining (before ++ .core tests :: after)
        (List.replicate before.length none ++ some result :: List.replicate after.length none) =
      (before.map (skippedBlock · coreFailedReason) ++
        result :: after.map (skippedBlock · coreFailedReason)).map some := by
  have hskip : ∀ blocks : List SuiteBlock,
      skipRemaining blocks (List.replicate blocks.length none) =
        (blocks.map (skippedBlock · coreFailedReason)).map some := by
    intro blocks
    induction blocks with
    | nil => rfl
    | cons block blocks ih =>
      rw [List.length_cons, List.replicate_succ, skipRemaining, List.zipWith_cons_cons]
      exact congrArg (_ :: ·) ih
  have h := hskip before
  have h' := hskip after
  unfold skipRemaining at h h' ⊢
  rw [List.zipWith_append (by simp), List.zipWith_cons_cons, h, h']
  simp

/-- **The core passes.** Every other block runs from the variables it leaves behind. -/
theorem execute_of_core_passed (hpre : preflight suite = .ok ())
    (hsplit : suite.blocks = before ++ .core tests :: after)
    (hbefore : ∀ b ∈ before, b.isCore = false) (hafter : ∀ b ∈ after, b.isCore = false)
    (store : VariableStore) (w : World) :
    let core := executeCore engine client clock tests store (w.now clock).2
    let first := executeAll engine client clock core.2.2.1 before core.2.2.2
    let last := executeAll engine client clock core.2.2.1 after first.2
    let time := last.2.elapsedMs clock (w.now clock).1
    core.2.1 = .passed →
    execute engine client clock suite store w =
      some (⟨suite.name, suiteStatus (first.1 ++ last.1), time.1, first.1 ++ core.1 :: last.1,
        none⟩, time.2) := by
  intro core first last time hpassed
  have hfirst := executeBlocks_eq engine client clock (some before.length) core.2.2.1 before
    hbefore ((.core tests, before.length) :: after.zipIdx (before.length + 1)) []
    (some core.1 :: List.replicate after.length none)
    (fun i _ hi => by
      rw [List.length_nil, Nat.zero_add] at hi
      exact fun h => absurd (Option.some.inj h) (by omega)) false core.2.2.2
  have hlen : (first.1.map some ++ [some core.1]).length = before.length + 1 := by
    rw [List.length_append, List.length_map, List.length_singleton]
    exact congrArg (· + 1) (executeAll_length engine client clock _ _ _)
  have hlast := executeBlocks_eq engine client clock (some before.length) core.2.2.1 after
    hafter [] (first.1.map some ++ [some core.1]) []
    (fun i hi _ => by
      rw [hlen] at hi
      exact fun h => absurd (Option.some.inj h) (by omega))
    (first.1.any (·.status ≠ .passed) || false) first.2
  rw [hlen] at hlast
  simp only [List.length_nil, List.nil_append, List.append_nil, List.append_assoc,
    List.singleton_append] at hfirst hlast
  unfold execute
  dsimp only
  rw [hpre, hsplit]
  dsimp only
  rw [findIdx?_core hbefore]
  dsimp only
  rw [getElem?_core]
  dsimp only
  rw [if_pos hpassed, set_core, executeRest, hsplit, List.zipIdx_append, List.zipIdx_cons,
    Nat.zero_add, hfirst, executeBlocks, if_pos rfl, hlast, executeBlocks]
  have hresults : first.1.map some ++ some core.1 :: last.1.map some =
      (first.1 ++ core.1 :: last.1).map some := by simp
  have hstatus : suiteStatus (first.1 ++ last.1) =
      if last.1.any (·.status ≠ .passed) || (first.1.any (·.status ≠ .passed) || false) then
        .failed else .passed := by
    rw [suiteStatus, List.any_append, Bool.or_false, Bool.or_comm]
  change (do let blocks ← collectResults (first.1.map some ++ some core.1 :: last.1.map some); _) =
    _
  rw [hresults, collectResults_map_some, hstatus]
  rfl

/-- **The core does not pass.** Every other block is skipped. -/
theorem execute_of_core_unpassed (hpre : preflight suite = .ok ())
    (hsplit : suite.blocks = before ++ .core tests :: after)
    (hbefore : ∀ b ∈ before, b.isCore = false) (store : VariableStore) (w : World) :
    let core := executeCore engine client clock tests store (w.now clock).2
    let time := core.2.2.2.elapsedMs clock (w.now clock).1
    core.2.1 ≠ .passed →
    execute engine client clock suite store w =
      some (⟨suite.name, .aborted, time.1,
        before.map (skippedBlock · coreFailedReason) ++
          core.1 :: after.map (skippedBlock · coreFailedReason),
        some ⟨.dependencyFailed, coreFailedReason⟩⟩, time.2) := by
  intro core time hpassed
  unfold execute
  dsimp only
  rw [hpre, hsplit]
  dsimp only
  rw [findIdx?_core hbefore]
  dsimp only
  rw [getElem?_core]
  dsimp only
  rw [if_neg hpassed, set_core, skipRemaining_core, collectResults_map_some]
  rfl

end Core

end Engine

end Rettp
