import Rettp.Run

/-!
# Scheduling

What a run of a suite guarantees is the structure `Scheduled`:

* one result for each block, in source order and of the same shape;
* core tests are attempted first, then the other blocks in source order, and within a block
  the tests up to the first one that does not pass;
* the requests sent are those of the attempted tests that resolve, each once, in that order;
* the status and the error of the suite follow from the statuses of the tests.

`execute_scheduled` derives it from the closed form of a run: either every block ran, or the
core did not pass and every other block is skipped.
-/

namespace Rettp

/-- Every element on the right is related to one on the left. -/
theorem exists_of_mem_right {α β : Type} {R : α → β → Prop} {as : List α} {bs : List β}
    (h : List.Forall₂ R as bs) {b : β} (hmem : b ∈ bs) : ∃ a ∈ as, R a b := by
  induction h with
  | nil => cases hmem
  | cons hr _ ih =>
    rcases List.mem_cons.mp hmem with rfl | hmem
    · exact ⟨_, List.mem_cons_self, hr⟩
    · obtain ⟨a, ha, hr⟩ := ih hmem
      exact ⟨a, List.mem_cons_of_mem _ ha, hr⟩

variable [Platform]

/-! ## What the blocks guarantee together -/

/-- A result of a block that was run. -/
structure ResultOf (block : SuiteBlock) (result : BlockResult) : Prop where
  shape : SameShape block result
  skips : SkipsAfterFailure result.tests
  passed_iff : result.status = .passed ↔ ∀ r ∈ result.tests, r.status = .passed
  not_skipped : result.status ≠ .skipped

/-- The attempted tests of blocks, block after block. -/
def attemptedOf (blocks : List (SuiteBlock × BlockResult)) : List TestCase :=
  blocks.flatMap fun e => attemptedTests e.1.tests e.2.tests

theorem executeAll_ran (engine : ExecutionEngine) (client : HttpClient) (clock : Clock)
    (store : VariableStore) (blocks : List SuiteBlock) (w : World) :
    List.Forall₂ ResultOf blocks (executeAll engine client clock store blocks w).1 ∧
      ∃ attempts, Logs engine w (executeAll engine client clock store blocks w).2 attempts ∧
        attempts.map (·.test) =
          attemptedOf (blocks.zip (executeAll engine client clock store blocks w).1) := by
  induction blocks generalizing w with
  | nil => exact ⟨.nil, [], .of_eq rfl rfl, rfl⟩
  | cons block blocks ih =>
    have hblock := executeBlock_ran engine client clock store block w
    obtain ⟨as, hlogs, htests⟩ := hblock.logs
    obtain ⟨hall, bs, hlogs', htests'⟩ := ih (executeBlock engine client clock store block w).2
    rw [executeAll]
    refine ⟨.cons ⟨hblock.shape, hblock.skips, hblock.passed_iff, hblock.not_skipped⟩ hall, as ++ bs,
      hlogs.trans hlogs', ?_⟩
    rw [List.map_append, htests, htests']
    rfl

omit [Platform] in
theorem SameShape.isCore_eq {block : SuiteBlock} {result : BlockResult}
    (h : SameShape block result) : result.isCore = block.isCore := by
  cases h <;> rfl

omit [Platform] in
theorem skippedBlock_shape (block : SuiteBlock) (reason : String) :
    SameShape block (skippedBlock block reason) := by
  cases block with
  | core tests => exact .core (by simp [TestResult.skipped])
  | pipeline name tests => exact .pipeline (by simp [TestResult.skipped])
  | test t => exact .test rfl

omit [Platform] in
theorem skippedBlock_tests {block : SuiteBlock} {reason : String} {r : TestResult}
    (hr : r ∈ (skippedBlock block reason).tests) : r.status = .skipped := by
  cases block with
  | core tests =>
    obtain ⟨t, -, rfl⟩ := List.mem_map.mp hr
    rfl
  | pipeline name tests =>
    obtain ⟨t, -, rfl⟩ := List.mem_map.mp hr
    rfl
  | test t =>
    obtain rfl := List.mem_singleton.mp hr
    rfl

omit [Platform] in
/-- Nothing is attempted in skipped blocks. -/
theorem attemptedOf_skipped (blocks : List SuiteBlock) (reason : String) :
    attemptedOf (blocks.zip (blocks.map (skippedBlock · reason))) = [] := by
  rw [attemptedOf, List.flatMap_eq_nil_iff]
  intro e he
  obtain ⟨b, -, hb⟩ := List.mem_map.mp (List.of_mem_zip he).2
  rw [attemptedTests, List.map_eq_nil_iff, List.filter_eq_nil_iff]
  intro f hf
  have hskip : f.2.status = .skipped := skippedBlock_tests (hb ▸ (List.of_mem_zip hf).2)
  simp [hskip]

/-! ## The scheduling specification -/

/-- Some core test did not pass. -/
def CoreUnpassed (r : SuiteResult) : Prop :=
  ∃ result ∈ r.blocks, result.isCore = true ∧ ∃ t ∈ result.tests, t.status ≠ .passed

/-- The blocks of a suite with their results, the core first. -/
def coreFirst (suite : TestSuite) (r : SuiteResult) : List (SuiteBlock × BlockResult) :=
  (suite.blocks.zip r.blocks).filter (fun e => e.1.isCore) ++
    (suite.blocks.zip r.blocks).filter (fun e => !e.1.isCore)

/-- What a run of a suite guarantees. -/
structure Scheduled (engine : ExecutionEngine) (suite : TestSuite) (r : SuiteResult)
    (attempts : List Attempt) (sent : List ResolvedHttpRequest) : Prop where
  name : r.name = suite.name
  shape : List.Forall₂ SameShape suite.blocks r.blocks
  order : attempts.map (·.test) = attemptedOf (coreFirst suite r)
  skipped : ∀ result ∈ r.blocks, ∀ (i : Nat) (t : TestResult), result.tests[i]? = some t →
    (t.status = .skipped ↔ (result.isCore = false ∧ CoreUnpassed r) ∨
      ∃ j < i, ∃ t', result.tests[j]? = some t' ∧ t'.status ≠ .passed)
  requests : sent = attempts.filterMap (requestOf engine)
  aborted : r.status = .aborted ↔ CoreUnpassed r
  failed : r.status = .failed ↔ ¬ CoreUnpassed r ∧
    ∃ result ∈ r.blocks, ∃ t ∈ result.tests, t.status ≠ .skipped ∧ t.status ≠ .passed
  passed : r.status = .passed ↔ ∀ result ∈ r.blocks, ∀ t ∈ result.tests, t.status = .passed
  core : ∀ result ∈ r.blocks, result.isCore = true →
    result.status ≠ .skipped ∧
      (result.status = .passed ↔ ∀ t ∈ result.tests, t.status = .passed)
  error : r.error = none ↔ ¬ CoreUnpassed r

section Scheduled

variable {engine : ExecutionEngine} {suite : TestSuite} {r : SuiteResult}
  {attempts : List Attempt} {sent : List ResolvedHttpRequest}

omit [Platform] in
theorem ResultOf.not_isCore {blocks : List SuiteBlock} {results : List BlockResult}
    (h : List.Forall₂ ResultOf blocks results) (hcore : ∀ b ∈ blocks, b.isCore = false)
    {result : BlockResult} (hmem : result ∈ results) : ¬ result.isCore = true := by
  obtain ⟨block, hb, hr⟩ := exists_of_mem_right h hmem
  rw [hr.shape.isCore_eq, hcore block hb]
  exact Bool.false_ne_true

omit [Platform] in
/-- The first result that is not a pass is not a skip. -/
theorem SkipsAfterFailure.exists_attempted {results : List TestResult}
    (h : SkipsAfterFailure results) {t : TestResult} (ht : t ∈ results)
    (hne : t.status ≠ .passed) : ∃ t ∈ results, t.status ≠ .skipped ∧ t.status ≠ .passed := by
  obtain ⟨i, hi⟩ := List.mem_iff_getElem?.mp ht
  induction i using Nat.strong_induction_on generalizing t with
  | _ i ih =>
    by_cases hskip : t.status = .skipped
    · obtain ⟨j, hj, t', ht', hne'⟩ := (h i t hi).mp hskip
      exact ih j hj (List.mem_of_getElem? ht') hne' ht'
    · exact ⟨t, ht, hskip, hne⟩

omit [Platform] in
theorem suiteStatus_eq_passed_iff {blocks : List SuiteBlock} {results : List BlockResult}
    (h : List.Forall₂ ResultOf blocks results) :
    suiteStatus results = .passed ↔ ∀ result ∈ results, ∀ t ∈ result.tests, t.status = .passed := by
  have hpassed : ∀ result ∈ results, (result.status = .passed ↔
      ∀ t ∈ result.tests, t.status = .passed) := by
    intro result hmem
    obtain ⟨_, -, hr⟩ := exists_of_mem_right h hmem
    exact hr.passed_iff
  unfold suiteStatus
  split
  · next hany =>
    obtain ⟨result, hmem, hne⟩ := List.any_eq_true.mp hany
    simp only [reduceCtorEq, false_iff]
    intro hall
    exact absurd ((hpassed result hmem).mpr (hall result hmem)) (by simpa using hne)
  · next hany =>
    simp only [true_iff]
    intro result hmem
    rw [← hpassed result hmem]
    by_contra hne
    exact hany (List.any_eq_true.mpr ⟨result, hmem, by simpa using hne⟩)

omit [Platform] in
theorem suiteStatus_cases (results : List BlockResult) :
    suiteStatus results = .passed ∨ suiteStatus results = .failed := by
  unfold suiteStatus
  split
  · exact .inr rfl
  · exact .inl rfl

omit [Platform] in
/-- A passed core leaves the status of the suite to the other blocks. -/
theorem suiteStatus_insert {core : BlockResult} (h : core.status = .passed)
    {first last : List BlockResult} :
    suiteStatus (first ++ core :: last) = suiteStatus (first ++ last) := by
  simp [suiteStatus, h]

/-- **All blocks ran.** -/
theorem Scheduled.of_ran (hname : r.name = suite.name)
    (hall : List.Forall₂ ResultOf suite.blocks r.blocks) (hcore : ¬ CoreUnpassed r)
    (hstatus : r.status = suiteStatus r.blocks) (herror : r.error = none)
    (horder : attempts.map (·.test) = attemptedOf (coreFirst suite r))
    (hsent : sent = attempts.filterMap (requestOf engine)) :
    Scheduled engine suite r attempts sent where
  name := hname
  shape := hall.imp fun _ _ h => h.shape
  order := horder
  skipped := by
    intro result hmem i t ht
    obtain ⟨_, -, hr⟩ := exists_of_mem_right hall hmem
    simpa [hcore] using hr.skips i t ht
  requests := hsent
  aborted := by
    rcases suiteStatus_cases r.blocks with h | h <;> simp [hstatus, h, hcore]
  failed := by
    have hiff := suiteStatus_eq_passed_iff hall
    refine ⟨?_, ?_⟩
    · intro h
      refine ⟨hcore, ?_⟩
      by_contra hnone
      rw [hstatus] at h
      have hp : suiteStatus r.blocks = .passed := by
        rw [hiff]
        intro result hmem t ht
        by_contra hne
        obtain ⟨_, -, hr⟩ := exists_of_mem_right hall hmem
        obtain ⟨t', ht', hs, hne'⟩ := hr.skips.exists_attempted ht hne
        exact hnone ⟨result, hmem, t', ht', hs, hne'⟩
      rw [hp] at h
      cases h
    · rintro ⟨-, result, hmem, t, ht, -, hne⟩
      rw [hstatus]
      rcases suiteStatus_cases r.blocks with h | h
      · exact absurd (hiff.mp h result hmem t ht) hne
      · exact h
  passed := by rw [hstatus, suiteStatus_eq_passed_iff hall]
  core := by
    intro result hmem _
    obtain ⟨_, -, hr⟩ := exists_of_mem_right hall hmem
    exact ⟨hr.not_skipped, hr.passed_iff⟩
  error := by simp [herror, hcore]

omit [Platform] in
theorem filter_isCore_zip {blocks : List SuiteBlock} (h : ∀ b ∈ blocks, b.isCore = false)
    (results : List BlockResult) :
    (blocks.zip results).filter (fun e => e.1.isCore) = [] ∧
      (blocks.zip results).filter (fun e => !e.1.isCore) = blocks.zip results := by
  refine ⟨List.filter_eq_nil_iff.mpr ?_, List.filter_eq_self.mpr ?_⟩
  · intro e he
    simp [h e.1 (List.of_mem_zip he).1]
  · intro e he
    simp [h e.1 (List.of_mem_zip he).1]

omit [Platform] in
/-- The execution order of blocks around a core. -/
theorem coreFirst_split {before after : List SuiteBlock} {tests : List TestCase}
    (hsplit : suite.blocks = before ++ .core tests :: after)
    (hbefore : ∀ b ∈ before, b.isCore = false) (hafter : ∀ b ∈ after, b.isCore = false)
    {first last : List BlockResult} {core : BlockResult} (hlen : before.length = first.length)
    (hblocks : r.blocks = first ++ core :: last) :
    coreFirst suite r = (.core tests, core) :: (before.zip first ++ after.zip last) := by
  rw [coreFirst, hsplit, hblocks, List.zip_append hlen, List.zip_cons_cons]
  simp only [List.filter_append, List.filter_cons, (filter_isCore_zip hbefore first).1,
    (filter_isCore_zip hbefore first).2, (filter_isCore_zip hafter last).1,
    (filter_isCore_zip hafter last).2]
  simp [SuiteBlock.isCore]

/-- **Only the core ran.** -/
theorem Scheduled.of_core_unpassed {before after : List SuiteBlock} {tests : List TestCase}
    {core : BlockResult} (hsplit : suite.blocks = before ++ .core tests :: after)
    (hbefore : ∀ b ∈ before, b.isCore = false) (hafter : ∀ b ∈ after, b.isCore = false)
    (hcore : ResultOf (.core tests) core) (hne : core.status ≠ .passed)
    (hname : r.name = suite.name) (hstatus : r.status = .aborted) (herror : r.error ≠ none)
    (hblocks : r.blocks = before.map (skippedBlock · coreFailedReason) ++
      core :: after.map (skippedBlock · coreFailedReason))
    (horder : attempts.map (·.test) = attemptedTests tests core.tests)
    (hsent : sent = attempts.filterMap (requestOf engine)) :
    Scheduled engine suite r attempts sent := by
  have hisCore : core.isCore = true := hcore.shape.isCore_eq
  have hunpassed : CoreUnpassed r := by
    rw [Ne, hcore.passed_iff] at hne
    push Not at hne
    exact ⟨core, by simp [hblocks], hisCore, hne⟩
  -- a block is the core or skipped as a whole
  have hcases : ∀ result ∈ r.blocks, result = core ∨
      result.isCore = false ∧ ∀ t ∈ result.tests, t.status = .skipped := by
    intro result hmem
    have hskip : ∀ blocks : List SuiteBlock, (∀ b ∈ blocks, b.isCore = false) →
        result ∈ blocks.map (skippedBlock · coreFailedReason) →
        result.isCore = false ∧ ∀ t ∈ result.tests, t.status = .skipped := by
      intro blocks hall hmem
      obtain ⟨b, hb, rfl⟩ := List.mem_map.mp hmem
      exact ⟨(skippedBlock_shape b _).isCore_eq.trans (hall b hb), fun t => skippedBlock_tests⟩
    rw [hblocks, List.mem_append, List.mem_cons] at hmem
    rcases hmem with hmem | rfl | hmem
    · exact .inr (hskip before hbefore hmem)
    · exact .inl rfl
    · exact .inr (hskip after hafter hmem)
  refine ⟨hname, ?_, ?_, ?_, hsent, ?_, ?_, ?_, ?_, ?_⟩
  · have hshape : ∀ blocks : List SuiteBlock,
        List.Forall₂ SameShape blocks (blocks.map (skippedBlock · coreFailedReason)) := by
      intro blocks
      rw [List.forall₂_map_right_iff]
      exact List.forall₂_same.mpr fun b _ => skippedBlock_shape b _
    rw [hsplit, hblocks]
    exact List.rel_append (hshape before) (.cons hcore.shape (hshape after))
  · rw [horder, coreFirst_split hsplit hbefore hafter (by simp) hblocks]
    have hskip := attemptedOf_skipped before coreFailedReason
    have hskip' := attemptedOf_skipped after coreFailedReason
    rw [attemptedOf] at hskip hskip'
    rw [attemptedOf, List.flatMap_cons, List.flatMap_append, hskip, hskip']
    simp [SuiteBlock.tests]
  · intro result hmem i t ht
    rcases hcases result hmem with rfl | ⟨hno, hall⟩
    · simpa [hisCore] using hcore.skips i t ht
    · simp [hall t (List.mem_of_getElem? ht), hno, hunpassed]
  · simp [hstatus, hunpassed]
  · simp [hstatus, hunpassed]
  · simp only [hstatus, reduceCtorEq, false_iff]
    intro hall
    obtain ⟨result, hmem, -, t, ht, hne⟩ := hunpassed
    exact hne (hall result hmem t ht)
  · intro result hmem hcore'
    rcases hcases result hmem with rfl | ⟨hno, -⟩
    · exact ⟨hcore.not_skipped, hcore.passed_iff⟩
    · rw [hno] at hcore'
      cases hcore'
  · simp [herror, hunpassed]

end Scheduled

section Execute

variable (engine : ExecutionEngine) (client : HttpClient) (clock : Clock) {suite : TestSuite}
  (store : VariableStore)

/-- Everything that a run has recorded. -/
theorem Logs.of_initial {w : World} {attempts : List Attempt}
    (h : Logs engine World.initial w attempts) :
    w.attempts = attempts ∧ w.sent = attempts.filterMap (requestOf engine) :=
  ⟨h.attempts_eq, h.sent_eq⟩

/-- A suite without a core. -/
theorem execute_without_core (hpre : preflight suite = .ok ())
    (hnone : ∀ b ∈ suite.blocks, b.isCore = false) :
    ∃ r w, execute engine client clock suite store World.initial = some (r, w) ∧
      Scheduled engine suite r w.attempts w.sent := by
  refine ⟨_, _, execute_of_no_core engine client clock hpre hnone store World.initial, ?_⟩
  obtain ⟨hall, attempts, hlogs, htests⟩ := executeAll_ran engine client clock store suite.blocks
    (World.initial.now clock).2
  obtain ⟨hatt, hsent⟩ := (hlogs.timed (World.initial.now clock).1).of_initial
  refine Scheduled.of_ran rfl hall ?_ rfl rfl ?_ ?_
  · rintro ⟨result, hmem, hisCore, -⟩
    exact ResultOf.not_isCore hall hnone hmem hisCore
  · rw [hatt, htests, coreFirst, (filter_isCore_zip hnone _).1, (filter_isCore_zip hnone _).2]
    rfl
  · rw [hatt]
    exact hsent

/-- A suite with a core: either every block ran, or the core alone. -/
theorem execute_with_core (hpre : preflight suite = .ok ()) {before after : List SuiteBlock}
    {tests : List TestCase} (hsplit : suite.blocks = before ++ .core tests :: after)
    (hbefore : ∀ b ∈ before, b.isCore = false) (hafter : ∀ b ∈ after, b.isCore = false) :
    ∃ r w, execute engine client clock suite store World.initial = some (r, w) ∧
      Scheduled engine suite r w.attempts w.sent := by
  have hstatus := executeCore_status engine client clock store tests (World.initial.now clock).2
  have hpass := execute_of_core_passed engine client clock hpre hsplit hbefore hafter store
    World.initial
  have hfail := execute_of_core_unpassed engine client clock hpre hsplit hbefore store World.initial
  obtain ⟨hshape, hskips, ⟨cs, hlogs, htests⟩, hpassed, hnotSkipped⟩ :=
    executeCore_ran engine client clock store tests (World.initial.now clock).2
  generalize executeCore engine client clock tests store (World.initial.now clock).2 = core at *
  by_cases hcore : core.1.status = .passed
  · refine ⟨_, _, hpass (hstatus.trans hcore), ?_⟩
    obtain ⟨hfirst, as, hlogs1, htests1⟩ :=
      executeAll_ran engine client clock core.2.2.1 before core.2.2.2
    obtain ⟨hlast, bs, hlogs2, htests2⟩ := executeAll_ran engine client clock core.2.2.1 after
      (executeAll engine client clock core.2.2.1 before core.2.2.2).2
    obtain ⟨hatt, hsent⟩ :=
      (((hlogs.trans hlogs1).trans hlogs2).timed (World.initial.now clock).1).of_initial
    refine Scheduled.of_ran rfl ?_ ?_ ?_ rfl ?_ (by rw [hatt]; exact hsent)
    · rw [hsplit]
      exact List.rel_append hfirst (.cons ⟨hshape, hskips, hpassed, hnotSkipped⟩ hlast)
    · rintro ⟨result, hmem, hisCore, t, ht, hne⟩
      rcases List.mem_append.mp hmem with hmem | hmem
      · exact absurd hisCore (ResultOf.not_isCore hfirst hbefore hmem)
      · rcases List.mem_cons.mp hmem with rfl | hmem
        · exact hne (hpassed.mp hcore t ht)
        · exact absurd hisCore (ResultOf.not_isCore hlast hafter hmem)
    · exact (suiteStatus_insert hcore).symm
    · rw [hatt, coreFirst_split hsplit hbefore hafter
        (executeAll_length engine client clock _ _ _).symm rfl, attemptedOf, List.flatMap_cons,
        List.flatMap_append, List.map_append, List.map_append, htests, htests1, htests2,
        List.append_assoc]
      rfl
  · refine ⟨_, _, hfail (fun h => hcore (hstatus.symm.trans h)), ?_⟩
    obtain ⟨hatt, hsent⟩ := (hlogs.timed (World.initial.now clock).1).of_initial
    refine Scheduled.of_core_unpassed hsplit hbefore hafter
      ⟨hshape, hskips, hpassed, hnotSkipped⟩ hcore rfl rfl (fun h => by cases h) rfl ?_ ?_
    · rw [hatt]
      exact htests
    · rw [hatt]
      exact hsent

end Execute

/-- **The executor refines its schedule.** A suite that passes preflight is run to the end,
without an empty slot, and the run is as scheduled. -/
theorem execute_scheduled (engine : ExecutionEngine) (client : HttpClient) (clock : Clock)
    (suite : TestSuite) (store : VariableStore) (hpre : preflight suite = .ok ()) :
    ∃ r w, execute engine client clock suite store World.initial = some (r, w) ∧
      Scheduled engine suite r w.attempts w.sent := by
  rcases core_split (preflight_ok_iff.mp hpre).2.1 with
    hnone | ⟨before, tests, after, hsplit, hbefore, hafter⟩
  · exact execute_without_core engine client clock store hpre hnone
  · exact execute_with_core engine client clock store hpre hsplit hbefore hafter

omit [Platform] in
/-- A pipeline declared before the core, with a client that never answers. -/
theorem execute_scheduled_unreachable :
    letI := asciiPlatform
    ∃ r w, execute ExecutionEngine.default (fun _ _ => .error (.timeout "no answer"))
        (fun n => n)
        ⟨none, [.pipeline "orders" [⟨"list", .new .get ⟨"/b"⟩, ⟨none, [], none⟩⟩],
          .core [⟨"login", .new .post ⟨"/a"⟩, ⟨some 200, [], none⟩⟩]]⟩
        VariableStore.new World.initial = some (r, w) ∧
      Scheduled ExecutionEngine.default
        ⟨none, [.pipeline "orders" [⟨"list", .new .get ⟨"/b"⟩, ⟨none, [], none⟩⟩],
          .core [⟨"login", .new .post ⟨"/a"⟩, ⟨some 200, [], none⟩⟩]]⟩ r w.attempts w.sent :=
  letI := asciiPlatform
  execute_scheduled ExecutionEngine.default (fun _ _ => .error (.timeout "no answer"))
    (fun n => n) _ VariableStore.new (by rfl)

end Rettp
