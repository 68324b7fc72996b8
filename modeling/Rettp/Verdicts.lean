import Rettp.Schedule
import Rettp.JunitReading

/-!
# The verdicts of a run

A run is judged four times over: by the status of the suite, by the exit code of the command
line, by the summary of the report and by the counts of the JUnit document. They agree
(`verdicts_agree`).

The counts agree test by test (`CountsAgree`). Those of the document are the numbers that a reader
of XML finds in its attributes (`States`). The exit code is read off the schedule, where a suite
that did not pass has a test that was attempted and did not pass.
-/

namespace Rettp

/-! ## Exit codes -/

/-- `ExitCode::SUCCESS` -/
def successCode : Nat := 0

/-- `TEST_FAILED` -/
def testFailedCode : Nat := 1

/-- `CORE_ABORTED` -/
def coreAbortedCode : Nat := 2

/-- `INTERNAL_ERROR` -/
def internalErrorCode : Nat := 5

/-- The core failed or was aborted. -/
def coreFailed (result : SuiteResult) : Bool :=
  result.blocks.any fun block => match block with
    | .core status _ _ => status = .failed ∨ status = .aborted
    | _ => false

/-- The exit code of a result. -/
def executionExitCode (result : SuiteResult) : Nat :=
  match result.status with
  | .passed => successCode
  | .failed => testFailedCode
  | .aborted => if coreFailed result then coreAbortedCode else internalErrorCode
  | .skipped => internalErrorCode

/-! ## Counts -/

namespace Junit

/-- The counts of tests and their summary say the same. -/
structure CountsAgree (c : Counts) (s : ReportSummary) : Prop where
  tests : c.tests = s.total
  skipped : c.skipped = s.skipped
  unpassed : c.failures + c.errors = s.failed + s.aborted
  total : s.total = s.passed + s.failed + s.skipped + s.aborted

/-- **One more test.** -/
theorem CountsAgree.step {c : Counts} {s : ReportSummary} (h : CountsAgree c s) (t : ReportTest) :
    CountsAgree (c.addTest t) (s.add t) := by
  obtain ⟨htests, hskipped, hunpassed, htotal⟩ := h
  unfold Counts.addTest ReportSummary.add
  cases t.status with
  | passed => constructor <;> dsimp only <;> omega
  | skipped => constructor <;> dsimp only <;> omega
  | aborted => constructor <;> dsimp only <;> omega
  | failed =>
    -- with a failed assertion it is a failure, else an error
    dsimp only
    split <;> constructor <;> dsimp only <;> omega

theorem CountsAgree.foldl {c : Counts} {s : ReportSummary} (h : CountsAgree c s)
    (tests : List ReportTest) : CountsAgree (tests.foldl .addTest c) (tests.foldl .add s) := by
  induction tests generalizing c s with
  | nil => exact h
  | cons t tests ih => exact ih (h.step t)

theorem Counts.addTest_add (c d : Counts) (t : ReportTest) :
    (c.add d).addTest t = c.add (d.addTest t) := by
  unfold Counts.addTest Counts.add
  cases t.status with
  | passed => rfl
  | skipped => rfl
  | aborted => rfl
  | failed => dsimp only; split <;> rfl

theorem Counts.foldl_addTest_add (c d : Counts) (tests : List ReportTest) :
    tests.foldl .addTest (c.add d) = c.add (tests.foldl .addTest d) := by
  induction tests generalizing d with
  | nil => rfl
  | cons t tests ih => rw [List.foldl_cons, List.foldl_cons, Counts.addTest_add, ih]

/-- Counting block by block is counting all tests. -/
theorem foldl_blockCounts (blocks : List ReportBlock) (c : Counts) :
    (blocks.map blockCounts).foldl .add c =
      (blocks.flatMap (·.tests)).foldl .addTest c := by
  induction blocks generalizing c with
  | nil => rfl
  | cons block blocks ih =>
    rw [List.map_cons, List.foldl_cons, List.flatMap_cons, List.foldl_append, ih, blockCounts,
      ← Counts.foldl_addTest_add, Counts.add_zero]

theorem reportCounts_agree (source : String) (r : SuiteResult) :
    CountsAgree (reportCounts (.fromSuiteResult source r))
      (RunReport.fromSuiteResult source r).summary := by
  rw [reportCounts, foldl_blockCounts]
  exact CountsAgree.foldl ⟨rfl, rfl, rfl, rfl⟩ _

/-! ## The document -/

/-- The element states these counts in its attributes. -/
structure States (node : Xml.Node) (c : Counts) : Prop where
  tests : node.number "tests" = some c.tests
  failures : node.number "failures" = some c.failures
  errors : node.number "errors" = some c.errors
  skipped : node.number "skipped" = some c.skipped

theorem natural_toString (n : Nat) : Xml.natural (toString n) = some n := by
  have hdigits : (toString n).toList = Nat.toDigits 10 n := Nat.toList_repr
  have hne : Nat.toDigits 10 n ≠ [] := List.ne_nil_of_length_pos Nat.length_toDigits_pos
  have hall : (Nat.toDigits 10 n).all Char.isDigit = true :=
    List.all_eq_true.mpr fun c hc => Nat.isDigit_of_mem_toDigits (by decide) (by decide) hc
  rw [Xml.natural, hdigits, if_pos ⟨hne, hall⟩, Nat.ofDigitChars_toDigits (by decide) (by decide)]

theorem states_countingNode (element name : String) (durationMs : Nat)
    (tests children : List Xml.Node) :
    States (countingNode element name durationMs tests children) (nodeCounts tests) := by
  constructor <;> exact natural_toString _

/-- The counts of the elements of a document are those of the tests inside them. -/
theorem states_children (r : Reading) (report : RunReport) :
    List.Forall₂ States (reportNode r report).children
      ((reportNode r report).children.map fun node => nodeCounts node.children) := by
  rw [List.forall₂_map_right_iff]
  refine List.forall₂_same.mpr fun node hnode => ?_
  rcases List.mem_append.mp hnode with hnode | hnode
  · obtain ⟨block, -, rfl⟩ := List.mem_map.mp hnode
    exact states_countingNode _ _ _ _ _
  · rw [Option.mem_toList] at hnode
    obtain ⟨error, -, rfl⟩ := Option.map_eq_some_iff.mp hnode
    exact states_countingNode _ _ _ _ _

/-- Counting element by element is counting all tests. -/
theorem foldl_nodeCounts (nodes : List Xml.Node) (c : Counts) :
    (nodes.map fun node => nodeCounts node.children).foldl .add c =
      c.add (nodeCounts (nodes.flatMap Xml.Node.children)) := by
  induction nodes generalizing c with
  | nil => rfl
  | cons node nodes ih =>
    rw [List.map_cons, List.foldl_cons, ih, List.flatMap_cons, nodeCounts_append, Counts.add_assoc]

/-- What the counts of a document say of its report: they are read from its attributes, those of
the root are the sums over its elements, and they agree with the summary. -/
structure DocumentAgrees (report : RunReport) (root : Xml.Node) (total : Counts)
    (counts : List Counts) : Prop where
  read : Xml.read (render report).toList = some root
  document : root.named "testsuites" = true ∧ States root total
  suites : ∀ suite ∈ root.children, Xml.Node.named "testsuite" suite = true
  elements : List.Forall₂ States root.children counts
  sums : total = counts.foldl .add .zero
  tests : total.tests = report.summary.total + if report.error.isSome then 1 else 0
  skipped : total.skipped = report.summary.skipped
  unpassed : total.failures + total.errors =
    report.summary.failed + report.summary.aborted + if report.error.isSome then 1 else 0

theorem document_agrees (source : String) (r : SuiteResult) :
    ∃ root total counts, DocumentAgrees (.fromSuiteResult source r) root total counts := by
  let report := RunReport.fromSuiteResult source r
  have hagree := reportCounts_agree source r
  have hroot := rootCounts_eq .normalized report
  refine ⟨reportNode .normalized report, rootCounts report,
    (reportNode .normalized report).children.map fun node => nodeCounts node.children,
    ⟨read_document report, ⟨rfl, ?_⟩, ?_, states_children .normalized report, ?_, ?_,
      hagree.skipped, ?_⟩⟩
  · rw [hroot]
    exact states_countingNode _ _ _ _ _
  · intro node hnode
    rcases List.mem_append.mp hnode with hnode | hnode
    · obtain ⟨block, -, rfl⟩ := List.mem_map.mp hnode
      rfl
    · rw [Option.mem_toList] at hnode
      obtain ⟨error, -, rfl⟩ := Option.map_eq_some_iff.mp hnode
      rfl
  · rw [foldl_nodeCounts, Counts.zero_add, hroot]
  · rw [← hagree.tests]
    rfl
  · rw [← hagree.unpassed]
    show _ + (_ + synthetic report) = _ + synthetic report
    rw [Nat.add_assoc]
    rfl

end Junit

/-! ## Tests of a report -/

theorem ReportSummary.foldl_total (tests : List ReportTest) (s : ReportSummary) :
    (tests.foldl .add s).total = s.total + tests.length := by
  induction tests generalizing s with
  | nil => rfl
  | cons t tests ih =>
    have h : (s.add t).total = s.total + 1 := by
      unfold ReportSummary.add
      cases t.status <;> rfl
    rw [List.foldl_cons, ih, h, List.length_cons]
    omega

/-- No test is counted as failed or aborted exactly when none is. -/
theorem ReportSummary.foldl_unpassed (tests : List ReportTest) (s : ReportSummary) :
    (tests.foldl .add s).failed + (tests.foldl .add s).aborted = 0 ↔
      s.failed + s.aborted = 0 ∧ ∀ t ∈ tests, t.status ≠ .failed ∧ t.status ≠ .aborted := by
  induction tests generalizing s with
  | nil => simp
  | cons t tests ih =>
    rw [List.foldl_cons, ih]
    cases h : t.status <;> simp [ReportSummary.add, h]

theorem ReportBlock.ofResult_tests (result : BlockResult) :
    (ReportBlock.ofResult result).tests = result.tests.map .ofResult := by
  cases result <;> rfl

/-- The tests of a result, block by block. -/
def SuiteResult.tests (r : SuiteResult) : List TestResult := r.blocks.flatMap (·.tests)

theorem RunReport.tests_eq (source : String) (r : SuiteResult) :
    (RunReport.fromSuiteResult source r).blocks.flatMap (·.tests) = r.tests.map .ofResult := by
  unfold RunReport.fromSuiteResult SuiteResult.tests
  dsimp only
  rw [List.flatMap_map, List.map_flatMap]
  exact congrArg (r.blocks.flatMap ·) (funext ReportBlock.ofResult_tests)

theorem RunReport.summary_total (source : String) (r : SuiteResult) :
    (RunReport.fromSuiteResult source r).summary.total = r.tests.length := by
  change (ReportSummary.ofBlocks (RunReport.fromSuiteResult source r).blocks).total = _
  rw [ReportSummary.ofBlocks, RunReport.tests_eq, ReportSummary.foldl_total, List.length_map,
    Nat.zero_add]

theorem RunReport.summary_unpassed (source : String) (r : SuiteResult) :
    (RunReport.fromSuiteResult source r).summary.failed +
        (RunReport.fromSuiteResult source r).summary.aborted = 0 ↔
      ∀ t ∈ r.tests, t.status ≠ .failed ∧ t.status ≠ .aborted := by
  have hstatus : ∀ t : TestResult, ((ReportTest.ofResult t).status = .failed ↔ t.status = .failed) ∧
      ((ReportTest.ofResult t).status = .aborted ↔ t.status = .aborted) := by
    intro t
    unfold ReportTest.ofResult
    cases t.status <;> simp [ReportStatus.ofExecution]
  change (ReportSummary.ofBlocks (RunReport.fromSuiteResult source r).blocks).failed +
    (ReportSummary.ofBlocks (RunReport.fromSuiteResult source r).blocks).aborted = 0 ↔ _
  rw [ReportSummary.ofBlocks, RunReport.tests_eq, ReportSummary.foldl_unpassed]
  simp [hstatus]

theorem SameShape.length_eq {block : SuiteBlock} {result : BlockResult}
    (h : SameShape block result) : result.tests.length = block.tests.length := by
  cases h with
  | core h => simpa [BlockResult.tests, SuiteBlock.tests] using congrArg List.length h
  | pipeline h => simpa [BlockResult.tests, SuiteBlock.tests] using congrArg List.length h
  | test h => rfl

/-- A result has as many tests as its suite. -/
theorem SuiteResult.tests_length {suite : TestSuite} {r : SuiteResult}
    (h : List.Forall₂ SameShape suite.blocks r.blocks) :
    r.tests.length = (suite.blocks.flatMap (·.tests)).length := by
  unfold SuiteResult.tests
  generalize suite.blocks = blocks at h
  generalize r.blocks = results at h
  induction h with
  | nil => rfl
  | cons hr _ ih =>
    rw [List.flatMap_cons, List.flatMap_cons, List.length_append, List.length_append, ih,
      hr.length_eq]

/-! ## Exit codes of scheduled runs -/

variable [Platform]

/-- Some test outside the core failed or was aborted. -/
def OtherUnpassed (r : SuiteResult) : Prop :=
  ∃ result ∈ r.blocks, result.isCore = false ∧
    ∃ t ∈ result.tests, t.status = .failed ∨ t.status = .aborted

/-- Some core test failed or was aborted. -/
def CoreFailedOrAborted (r : SuiteResult) : Prop :=
  ∃ result ∈ r.blocks, result.isCore = true ∧
    ∃ t ∈ result.tests, t.status = .failed ∨ t.status = .aborted

namespace Scheduled

variable {engine : ExecutionEngine} {suite : TestSuite} {r : SuiteResult}
  {attempts : List Attempt} {sent : List ResolvedHttpRequest}

omit [Platform] in
theorem failed_or_aborted {status : ExecutionStatus} (hs : status ≠ .skipped)
    (hp : status ≠ .passed) : status = .failed ∨ status = .aborted := by
  cases status with
  | passed => exact absurd rfl hp
  | skipped => exact absurd rfl hs
  | failed => exact .inl rfl
  | aborted => exact .inr rfl

/-- In the core, and everywhere once the core passes, skips follow failures of the same block. -/
theorem skipsAfterFailure (h : Scheduled engine suite r attempts sent) {result : BlockResult}
    (hmem : result ∈ r.blocks) (hc : result.isCore = true ∨ ¬ CoreUnpassed r) :
    SkipsAfterFailure result.tests := by
  intro i t ht
  rw [h.skipped result hmem i t ht, or_iff_right]
  rintro ⟨hno, hunpassed⟩
  rcases hc with hc | hc
  · rw [hno] at hc
    cases hc
  · exact hc hunpassed

theorem coreUnpassed_iff (h : Scheduled engine suite r attempts sent) :
    CoreUnpassed r ↔ CoreFailedOrAborted r := by
  refine ⟨?_, ?_⟩
  · rintro ⟨result, hmem, hcore, t, ht, hne⟩
    obtain ⟨t', ht', hs, hp⟩ := (h.skipsAfterFailure hmem (.inl hcore)).exists_attempted ht hne
    exact ⟨result, hmem, hcore, t', ht', failed_or_aborted hs hp⟩
  · rintro ⟨result, hmem, hcore, t, ht, hst⟩
    exact ⟨result, hmem, hcore, t, ht, by rcases hst with hst | hst <;> simp [hst]⟩

theorem coreFailed_iff (h : Scheduled engine suite r attempts sent) :
    coreFailed r = true ↔ CoreUnpassed r := by
  rw [coreFailed, List.any_eq_true]
  refine ⟨?_, ?_⟩
  · rintro ⟨result, hmem, hst⟩
    cases result with
    | core status ms tests =>
      have hp := (h.core _ hmem rfl).2
      refine ⟨_, hmem, rfl, ?_⟩
      by_contra hall
      push Not at hall
      have hpassed : status = .passed := hp.mpr hall
      simp [hpassed] at hst
    | pipeline => cases hst
    | test => cases hst
  · rintro ⟨result, hmem, hcore, t, ht, hne⟩
    cases result with
    | core status ms tests =>
      obtain ⟨hs, hp⟩ := h.core _ hmem rfl
      refine ⟨_, hmem, ?_⟩
      simpa [BlockResult.status] using failed_or_aborted hs fun hpassed => hne (hp.mp hpassed t ht)
    | pipeline => cases hcore
    | test => cases hcore

/-- A core that passed leaves a suite with passes only, or with a test that was attempted and
did not pass. -/
theorem all_passed_or (h : Scheduled engine suite r attempts sent) (hcore : ¬ CoreUnpassed r) :
    (∀ result ∈ r.blocks, ∀ t ∈ result.tests, t.status = .passed) ∨
      ∃ result ∈ r.blocks, ∃ t ∈ result.tests, t.status ≠ .skipped ∧ t.status ≠ .passed := by
  by_cases hall : ∀ result ∈ r.blocks, ∀ t ∈ result.tests, t.status = .passed
  · exact .inl hall
  · push Not at hall
    obtain ⟨result, hmem, t, ht, hne⟩ := hall
    exact .inr ⟨result, hmem, (h.skipsAfterFailure hmem (.inr hcore)).exists_attempted ht hne⟩

theorem status_ne_skipped (h : Scheduled engine suite r attempts sent) : r.status ≠ .skipped := by
  intro hs
  have hcore : ¬ CoreUnpassed r := fun hc => by simpa [hs] using h.aborted.mpr hc
  rcases h.all_passed_or hcore with hall | hex
  · simpa [hs] using h.passed.mpr hall
  · simpa [hs] using h.failed.mpr ⟨hcore, hex⟩

/-- The exit code tells the statuses of a run apart. -/
theorem exitCode_eq (h : Scheduled engine suite r attempts sent) :
    (executionExitCode r = successCode ↔ r.status = .passed) ∧
      (executionExitCode r = testFailedCode ↔ r.status = .failed) ∧
      (executionExitCode r = coreAbortedCode ↔ r.status = .aborted) ∧
      executionExitCode r ≠ internalErrorCode := by
  have hcore : r.status = .aborted → coreFailed r = true :=
    fun hs => h.coreFailed_iff.mpr (h.aborted.mp hs)
  have hne := h.status_ne_skipped
  unfold executionExitCode
  cases hs : r.status with
  | passed => dsimp only; decide
  | failed => dsimp only; decide
  | aborted => dsimp only; rw [hcore hs]; decide
  | skipped => exact absurd hs hne

theorem passed_iff (h : Scheduled engine suite r attempts sent) :
    r.status = .passed ↔ (∀ t ∈ r.tests, t.status = .passed) ∧ r.error = none := by
  have htests : (∀ result ∈ r.blocks, ∀ t ∈ result.tests, t.status = .passed) ↔
      ∀ t ∈ r.tests, t.status = .passed := by
    simp only [SuiteResult.tests, List.mem_flatMap, forall_exists_index, and_imp]
    exact ⟨fun h t result hmem ht => h result hmem t ht, fun h result hmem t ht => h t result hmem ht⟩
  rw [h.passed, htests, h.error, iff_self_and]
  rintro hall ⟨result, hmem, -, t, ht, hne⟩
  exact hne (hall t (List.mem_flatMap.mpr ⟨result, hmem, ht⟩))

theorem failed_iff (h : Scheduled engine suite r attempts sent) :
    r.status = .failed ↔ ¬ CoreUnpassed r ∧ OtherUnpassed r := by
  rw [h.failed]
  refine and_congr_right fun hcore => ⟨?_, ?_⟩
  · rintro ⟨result, hmem, t, ht, hs, hp⟩
    refine ⟨result, hmem, ?_, t, ht, failed_or_aborted hs hp⟩
    rw [Bool.eq_false_iff]
    exact fun hc => hcore ⟨result, hmem, hc, t, ht, hp⟩
  · rintro ⟨result, hmem, -, t, ht, hst⟩
    exact ⟨result, hmem, t, ht, by rcases hst with hst | hst <;> simp [hst]⟩

/-- Without a failed or aborted test and without an error, every test passed. -/
theorem passed_of_none_unpassed (h : Scheduled engine suite r attempts sent)
    (herror : r.error = none) (hnone : ∀ t ∈ r.tests, t.status ≠ .failed ∧ t.status ≠ .aborted) :
    r.status = .passed := by
  rcases h.all_passed_or (h.error.mp herror) with hall | ⟨result, hmem, t, ht, hs, hp⟩
  · exact h.passed.mpr hall
  · obtain ⟨hf, ha⟩ := hnone t (List.mem_flatMap.mpr ⟨result, hmem, ht⟩)
    exact absurd (failed_or_aborted hs hp) (by simp [hf, ha])

end Scheduled

/-! ## Agreement -/

/-- The verdicts on a result of a suite agree. -/
structure VerdictsAgree (source : String) (suite : TestSuite) (r : SuiteResult) : Prop where
  success : executionExitCode r = successCode ↔
    (∀ t ∈ r.tests, t.status = .passed) ∧ r.error = none
  testFailed : executionExitCode r = testFailedCode ↔ ¬ CoreUnpassed r ∧ OtherUnpassed r
  coreAborted : executionExitCode r = coreAbortedCode ↔ CoreFailedOrAborted r
  internalError : executionExitCode r = internalErrorCode ↔
    ∃ reason, preflight suite = .error reason
  total : (RunReport.fromSuiteResult source r).summary.total =
    (suite.blocks.flatMap (·.tests)).length
  statuses : (RunReport.fromSuiteResult source r).summary.total =
    (RunReport.fromSuiteResult source r).summary.passed +
      (RunReport.fromSuiteResult source r).summary.failed +
      (RunReport.fromSuiteResult source r).summary.skipped +
      (RunReport.fromSuiteResult source r).summary.aborted
  document : ∃ root total counts,
    Junit.DocumentAgrees (.fromSuiteResult source r) root total counts ∧
      (total.failures + total.errors = 0 ↔ executionExitCode r = successCode)

omit [Platform] in
/-- The counts agree on any result of the shape of its suite; what is left are the exit codes. -/
theorem VerdictsAgree.of_exitCode (source : String) {suite : TestSuite} {r : SuiteResult}
    (hshape : List.Forall₂ SameShape suite.blocks r.blocks)
    (hsuccess : executionExitCode r = successCode ↔
      (∀ t ∈ r.tests, t.status = .passed) ∧ r.error = none)
    (htestFailed : executionExitCode r = testFailedCode ↔ ¬ CoreUnpassed r ∧ OtherUnpassed r)
    (hcoreAborted : executionExitCode r = coreAbortedCode ↔ CoreFailedOrAborted r)
    (hinternalError : executionExitCode r = internalErrorCode ↔
      ∃ reason, preflight suite = .error reason)
    (hunpassed : executionExitCode r = successCode ↔
      (∀ t ∈ r.tests, t.status ≠ .failed ∧ t.status ≠ .aborted) ∧ r.error = none) :
    VerdictsAgree source suite r := by
  have hagree := Junit.reportCounts_agree source r
  obtain ⟨root, total, counts, hdocument⟩ := Junit.document_agrees source r
  refine ⟨hsuccess, htestFailed, hcoreAborted, hinternalError, ?_, hagree.total, root, total,
    counts, hdocument, ?_⟩
  · rw [RunReport.summary_total, SuiteResult.tests_length hshape]
  · have herror : (RunReport.fromSuiteResult source r).error.isSome = r.error.isSome :=
      Option.isSome_map
    rw [hdocument.unpassed, hunpassed, Nat.add_eq_zero_iff, RunReport.summary_unpassed, herror]
    cases r.error <;> simp

omit [Platform] in
/-- A suite rejected by preflight has nothing but skips, and an error. -/
theorem invalidSuiteResult_verdicts (source : String) {suite : TestSuite} {reason : String}
    (hpre : preflight suite = .error reason) (ms : Nat) :
    VerdictsAgree source suite (invalidSuiteResult suite ms reason) := by
  have hskipped : ∀ result ∈ (invalidSuiteResult suite ms reason).blocks,
      ∀ t ∈ result.tests, t.status = .skipped := by
    intro result hmem t ht
    obtain ⟨block, -, rfl⟩ := List.mem_map.mp hmem
    exact skippedBlock_tests ht
  have hcode : executionExitCode (invalidSuiteResult suite ms reason) = internalErrorCode := by
    have hcore : coreFailed (invalidSuiteResult suite ms reason) = false := by
      rw [coreFailed, List.any_eq_false]
      intro result hmem
      obtain ⟨block, -, rfl⟩ := List.mem_map.mp hmem
      cases block <;> simp [skippedBlock]
    simp [executionExitCode, invalidSuiteResult, show coreFailed ⟨suite.name, .aborted, ms, _, _⟩ =
      false from hcore]
  refine VerdictsAgree.of_exitCode source ?_ ?_ ?_ ?_ ?_ ?_
  · rw [invalidSuiteResult, List.forall₂_map_right_iff]
    exact List.forall₂_same.mpr fun block _ => skippedBlock_shape block reason
  · rw [hcode]
    simp [invalidSuiteResult, successCode, internalErrorCode]
  · rw [hcode, iff_false_left (by decide)]
    rintro ⟨-, result, hmem, -, t, ht, hst⟩
    rw [hskipped result hmem t ht] at hst
    simp at hst
  · rw [hcode, iff_false_left (by decide)]
    rintro ⟨result, hmem, -, t, ht, hst⟩
    rw [hskipped result hmem t ht] at hst
    simp at hst
  · rw [hcode]
    exact ⟨fun _ => ⟨reason, hpre⟩, fun _ => rfl⟩
  · rw [hcode]
    simp [invalidSuiteResult, successCode, internalErrorCode]

/-- A run that follows its schedule is judged alike. -/
theorem Scheduled.verdicts (source : String) {engine : ExecutionEngine} {suite : TestSuite}
    {r : SuiteResult} {attempts : List Attempt} {sent : List ResolvedHttpRequest}
    (hpre : preflight suite = .ok ()) (h : Scheduled engine suite r attempts sent) :
    VerdictsAgree source suite r := by
  obtain ⟨hsuccess, hfailed, haborted, hinternal⟩ := h.exitCode_eq
  refine VerdictsAgree.of_exitCode source h.shape (hsuccess.trans h.passed_iff)
    (hfailed.trans h.failed_iff) (haborted.trans (h.aborted.trans h.coreUnpassed_iff)) ?_ ?_
  · simp [hinternal, hpre]
  · rw [hsuccess]
    refine ⟨?_, ?_⟩
    · intro hp
      obtain ⟨hall, herror⟩ := h.passed_iff.mp hp
      exact ⟨fun t ht => by simp [hall t ht], herror⟩
    · rintro ⟨hnone, herror⟩
      exact h.passed_of_none_unpassed herror hnone

/-- **Every verdict of a run agrees.** -/
theorem verdicts_agree (engine : ExecutionEngine) (client : HttpClient) (clock : Clock)
    (suite : TestSuite) (store : VariableStore) (source : String) :
    ∃ r w, execute engine client clock suite store World.initial = some (r, w) ∧
      VerdictsAgree source suite r := by
  cases hpre : preflight suite with
  | error reason =>
    have hrun : execute engine client clock suite store World.initial =
        some (invalidSuiteResult suite
          ((World.initial.now clock).2.elapsedMs clock (World.initial.now clock).1).1 reason,
          ((World.initial.now clock).2.elapsedMs clock (World.initial.now clock).1).2) := by
      unfold execute
      simp only [hpre]
    exact ⟨_, _, hrun, invalidSuiteResult_verdicts source hpre _⟩
  | ok =>
    rcases core_split (preflight_ok_iff.mp hpre).2.1 with
      hnone | ⟨before, tests, after, hsplit, hbefore, hafter⟩
    · obtain ⟨r, w, hrun, hscheduled⟩ := execute_without_core engine client clock store hpre hnone
      exact ⟨r, w, hrun, hscheduled.verdicts source hpre⟩
    · obtain ⟨r, w, hrun, hscheduled⟩ :=
        execute_with_core engine client clock store hpre hsplit hbefore hafter
      exact ⟨r, w, hrun, hscheduled.verdicts source hpre⟩

end Rettp
