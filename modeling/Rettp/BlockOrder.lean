import Mathlib.Data.List.Perm.Basic
import Rettp.ValidatorSpec

/-!
# The order of blocks

The validator goes over the blocks of a suite twice, and sets of names are handed on between the
tests. With one core at most, a block gets names from the core only, so what is reported for it
can be told from the block and the core (`blockVerdict`), and blocks can be written in any order
(`block_order_irrelevant`).
-/

namespace Rettp

open Checked

/-- The only core is the first one. -/
theorem findIdx?_onlyCore {blocks : List BlockAst} (h : (blocks.filter BlockAst.isCore).length ≤ 1)
    {core : CoreBlockAst} {index : Nat} (hindex : blocks[index]? = some (.core core)) :
    blocks.findIdx? BlockAst.isCore = some index := by
  induction blocks generalizing index with
  | nil => cases hindex
  | cons block blocks ih =>
    rw [List.findIdx?_cons]
    cases hcore : block.isCore with
    | true =>
      cases index with
      | zero => rfl
      | succ index =>
        -- a second core would stand at `index`
        rw [List.filter_cons_of_pos hcore, List.length_cons] at h
        have hmem : BlockAst.core core ∈ blocks.filter BlockAst.isCore :=
          List.mem_filter.mpr ⟨List.mem_of_getElem? hindex, rfl⟩
        have := List.length_pos_of_mem hmem
        omega
    | false =>
      rw [List.filter_cons_of_neg (by rw [hcore]; exact Bool.false_ne_true)] at h
      cases index with
      | zero =>
        obtain rfl := Option.some.inj hindex
        cases hcore
      | succ index =>
        rw [ih h hindex]
        rfl

variable [Platform]

/-! ## What is reported for a block -/

namespace Validator

/-- What is reported for a block that is not the core, with the names that are visible to its
first test. -/
def blockErrors (maxDepth : Nat) (scope : Finset VariableName) (block : BlockAst) :
    List ValidationError :=
  if block.isCore then [] else (validateBlock maxDepth ∅ scope none (block, 0)).errors

theorem validateBlock_errors {blocks : List BlockAst}
    (h : (blocks.filter BlockAst.isCore).length ≤ 1) (maxDepth : Nat)
    (global scope : Finset VariableName) {block : BlockAst × Nat} (hblock : block ∈ blocks.zipIdx) :
    (validateBlock maxDepth global scope (blocks.findIdx? BlockAst.isCore) block).errors =
      blockErrors maxDepth scope block.1 := by
  obtain ⟨block, index⟩ := block
  cases block with
  | core core =>
    rw [findIdx?_onlyCore h (List.mk_mem_zipIdx_iff_getElem?.mp hblock), validateBlock,
      if_neg (not_not_intro rfl)]
    rfl
  | pipeline pipeline => rfl
  | test t => rfl

omit [Platform] in
theorem flatMap_zipIdx {α β : Type} (f : α → List β) (as : List α) :
    as.zipIdx.flatMap (fun a => f a.1) = as.flatMap f := by
  conv_rhs => rw [← List.zipIdx_map_fst 0 as, List.flatMap_map]

/-- **The findings of a suite**: those of its core, and then those of each other block. -/
theorem validate_errors (context : ValidationContext) (ast : SuiteAst)
    (h : (ast.blocks.filter BlockAst.isCore).length ≤ 1) :
    validate ast context =
      (validateTests context.maxDepth context.predefinedVariables ast.coreTests).errors ++
        ast.blocks.flatMap (blockErrors context.maxDepth
          (validateTests context.maxDepth context.predefinedVariables ast.coreTests).value) := by
  have hfind := findCore_meets ast.blocks
  have hclean : (findCore ast.blocks.zipIdx).errors = [] := hfind.clean.mpr h
  have hvalue := hfind.value h
  rw [validate, validateSuite, errors_bind, hclean, List.nil_append, hvalue]
  dsimp only
  rw [coreTests_eq h, errors_bind, errors_forEach, SuiteAst.coreTests,
    ← flatMap_zipIdx (blockErrors context.maxDepth _) ast.blocks]
  exact congrArg _ (List.flatMap_congr fun block hblock => validateBlock_errors h _ _ _ hblock)

end Validator

open Validator

/-- What the validator reports for a block in a suite of the core and this block only. -/
def blockVerdict (context : ValidationContext) (core : List BlockAst) (block : BlockAst) :
    List ValidationError :=
  (validate ⟨core ++ [block], ⟨0, 0⟩⟩ context).drop (validate ⟨core, ⟨0, 0⟩⟩ context).length

section Suite

variable (context : ValidationContext) {ast : SuiteAst}

omit [Platform] in
theorem filter_filter_core :
    (ast.blocks.filter BlockAst.isCore).filter BlockAst.isCore = ast.blocks.filter BlockAst.isCore := by
  rw [List.filter_filter]
  simp

theorem blockErrors_core (maxDepth : Nat) (scope : Finset VariableName) :
    (ast.blocks.filter BlockAst.isCore).flatMap (blockErrors maxDepth scope) = [] := by
  refine List.flatMap_eq_nil_iff.mpr fun block hblock => ?_
  rw [blockErrors, if_pos (List.mem_filter.mp hblock).2]

/-- Of the core alone, what is reported is what is reported of its tests. -/
theorem validate_core (h : (ast.blocks.filter BlockAst.isCore).length ≤ 1) (span : SourceSpan) :
    validate ⟨ast.blocks.filter BlockAst.isCore, span⟩ context =
      (validateTests context.maxDepth context.predefinedVariables ast.coreTests).errors := by
  have hcore : (SuiteAst.mk (ast.blocks.filter BlockAst.isCore) span).coreTests = ast.coreTests := by
    rw [SuiteAst.coreTests, filter_filter_core]
    rfl
  rw [validate_errors context ⟨_, span⟩ (by rw [filter_filter_core]; exact h), hcore, blockErrors_core,
    List.append_nil]

/-- Of the core and a block, what is reported of the block comes last. -/
theorem validate_core_block (h : (ast.blocks.filter BlockAst.isCore).length ≤ 1)
    {block : BlockAst} (hblock : block.isCore = false) (span : SourceSpan) :
    validate ⟨ast.blocks.filter BlockAst.isCore ++ [block], span⟩ context =
      (validateTests context.maxDepth context.predefinedVariables ast.coreTests).errors ++
        blockErrors context.maxDepth (validateTests context.maxDepth context.predefinedVariables
          ast.coreTests).value block := by
  have hfilter : (ast.blocks.filter BlockAst.isCore ++ [block]).filter BlockAst.isCore =
      ast.blocks.filter BlockAst.isCore := by
    rw [List.filter_append, filter_filter_core, List.filter_cons_of_neg (by simp [hblock]),
      List.filter_nil, List.append_nil]
  have hcore : (SuiteAst.mk (ast.blocks.filter BlockAst.isCore ++ [block]) span).coreTests =
      ast.coreTests := by
    rw [SuiteAst.coreTests, hfilter]
    rfl
  rw [validate_errors context ⟨_, span⟩ (by rw [hfilter]; exact h), hcore, List.flatMap_append,
    blockErrors_core, List.nil_append, List.flatMap_singleton]

/-- The core adds nothing to the second pass. -/
theorem flatMap_blockErrors (maxDepth : Nat) (scope : Finset VariableName) (blocks : List BlockAst) :
    blocks.flatMap (blockErrors maxDepth scope) =
      (blocks.filter fun block => !block.isCore).flatMap (blockErrors maxDepth scope) := by
  induction blocks with
  | nil => rfl
  | cons block blocks ih =>
    cases hblock : block.isCore with
    | true =>
      rw [List.flatMap_cons, blockErrors, if_pos hblock, List.filter_cons_of_neg (by simp [hblock]), ih]
      rfl
    | false =>
      rw [List.flatMap_cons, List.filter_cons_of_pos (by simp [hblock]), List.flatMap_cons, ih]

theorem blockVerdict_eq (h : (ast.blocks.filter BlockAst.isCore).length ≤ 1) {block : BlockAst}
    (hblock : block.isCore = false) :
    blockVerdict context (ast.blocks.filter BlockAst.isCore) block =
      blockErrors context.maxDepth (validateTests context.maxDepth context.predefinedVariables
        ast.coreTests).value block := by
  rw [blockVerdict, validate_core_block context h hblock, validate_core context h, List.drop_left]

omit [Platform] in
/-- The core does not change when blocks change places. -/
theorem filter_core_perm (h : (ast.blocks.filter BlockAst.isCore).length ≤ 1) {blocks : List BlockAst}
    (hperm : blocks.Perm ast.blocks) :
    blocks.filter BlockAst.isCore = ast.blocks.filter BlockAst.isCore := by
  have hcores := hperm.filter BlockAst.isCore
  rcases onlyCore h with hnone | ⟨core, hone, -⟩
  · rw [hnone] at hcores ⊢
    exact hcores.eq_nil
  · rw [hone] at hcores ⊢
    exact List.perm_singleton.mp hcores

/-- **The order of blocks does not matter to the checker.** -/
theorem block_order_irrelevant (h : (ast.blocks.filter BlockAst.isCore).length ≤ 1) :
    (∀ ast' : SuiteAst, ast'.blocks.Perm ast.blocks →
      (validate ast' context).Perm (validate ast context) ∧
        (validate ast' context = [] ↔ validate ast context = [])) ∧
    (∀ block ∈ ast.blocks, block.isCore = false →
      validate ⟨ast.blocks.filter BlockAst.isCore ++ [block], ast.span⟩ context =
        validate ⟨ast.blocks.filter BlockAst.isCore, ast.span⟩ context ++
          blockVerdict context (ast.blocks.filter BlockAst.isCore) block) ∧
    validate ast context = validate ⟨ast.blocks.filter BlockAst.isCore, ast.span⟩ context ++
      (ast.blocks.filter fun block => !block.isCore).flatMap
        (blockVerdict context (ast.blocks.filter BlockAst.isCore)) := by
  refine ⟨fun ast' hperm => ?_, fun block _ hblock => ?_, ?_⟩
  · have hcores := filter_core_perm h hperm
    have hcoreTests : ast'.coreTests = ast.coreTests := by
      rw [SuiteAst.coreTests, hcores]
      rfl
    have herrors : (validate ast' context).Perm (validate ast context) := by
      rw [validate_errors context ast' (by rw [hcores]; exact h), validate_errors context ast h,
        hcoreTests]
      exact (hperm.flatMap_right _).append_left _
    exact ⟨herrors, fun he => (he ▸ herrors).symm.eq_nil, fun he => (he ▸ herrors).eq_nil⟩
  · rw [validate_core_block context h hblock, validate_core context h, blockVerdict_eq context h hblock]
  · rw [validate_errors context ast h, validate_core context h]
    congr 1
    rw [flatMap_blockErrors]
    refine List.flatMap_congr fun block hblock => ?_
    have hcore : block.isCore = false := by simpa using (List.mem_filter.mp hblock).2
    exact (blockVerdict_eq context h hcore).symm

end Suite

/-- A test that puts a variable into its path, and captures a token when it says so. -/
def variableTest (path : String) (capture : Option String) (span : SourceSpan) : TestAst :=
  let field : FieldAssertionAst :=
    ⟨⟨"token", span⟩, some ⟨.string, span⟩, none, none, capture.map (⟨·, span⟩), span⟩
  let expectation : ExpectationAst := ⟨[.body (.object ⟨.partially, [field], span⟩)], span⟩
  ⟨⟨"use", span⟩, [⟨⟨.get, span⟩, ⟨path, span⟩, [], span⟩], [expectation], span⟩

/-- A pipeline that uses what the core captures, the core, and a test that uses an unknown
variable. -/
def pipelineFirst : SuiteAst :=
  ⟨[.pipeline ⟨⟨"orders", ⟨9, 17⟩⟩, [variableTest "/$\x7bTOKEN\x7d" none ⟨18, 30⟩], ⟨0, 32⟩⟩,
    .core ⟨[variableTest "/login" (some "TOKEN") ⟨40, 60⟩], ⟨33, 62⟩⟩,
    .test (variableTest "/$\x7bUSER\x7d" none ⟨63, 80⟩)], ⟨0, 80⟩⟩

omit [Platform] in
/-- In either order the pipeline is accepted, and the unknown variable is reported. -/
theorem block_order_irrelevant_pipeline : letI := asciiPlatform
    (validate pipelineFirst .new).length = 1 ∧
      (validate ⟨pipelineFirst.blocks.reverse, pipelineFirst.span⟩ .new).Perm
        (validate pipelineFirst .new) := by
  let := asciiPlatform
  refine ⟨by decide +kernel, ?_⟩
  exact ((block_order_irrelevant .new (by decide)).1 ⟨_, _⟩ (List.reverse_perm _)).1

end Rettp
