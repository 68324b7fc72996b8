import Rettp.Acceptance
import Rettp.Lossless
import Rettp.LexerRounds

/-!
# Checking a source

The phases of a check, of which the first one with errors ends it: the lexer, the parser,
validation with conversion. A source is accepted exactly when every phase is clean, and then its
suite is what its syntax tree stands for (`checkSource_accepts_iff`).
-/

namespace Rettp

/-! ## What the parts of a tree stand for -/

theorem BlockAst.tests_toBlock (block : BlockAst) :
    block.toBlock.tests = block.tests.map TestAst.toCase := by
  cases block <;> rfl

/-- The object assertion of an expectation stands in one of its sections. -/
theorem ExpectationAst.assertion_of_body {expectation : ExpectationAst}
    {assertion : ObjectAssertion}
    (h : expectation.toExpectation.body = some (.json assertion)) :
    ∃ source ∈ expectation.assertions, source.toAssertion = assertion := by
  change ((expectation.sections.flatMap (·.toBodies)).getLast?.or none) = _ at h
  rw [Option.or_none] at h
  obtain ⟨section_, hsection, hbody⟩ := List.mem_flatMap.mp (List.mem_of_getLast? h)
  cases section_ with
  | status status => cases hbody
  | headers headers => cases hbody
  | body body =>
    have hbody := List.mem_singleton.mp hbody
    cases body with
    | object source =>
      refine ⟨source, List.mem_flatMap.mpr ⟨_, hsection, List.mem_singleton_self _⟩, ?_⟩
      exact (BodyAssertion.json.inj hbody).symm
    | _ => cases hbody

variable [Platform]

/-- A phase that can emit diagnostics. -/
inductive CheckPhase where
  | lexical | syntactic | semantic
  deriving DecidableEq

/-- The name of a phase in a diagnostic. -/
def CheckPhase.asStr : CheckPhase → String
  | .lexical => "lexical"
  | .syntactic => "syntax"
  | .semantic => "semantic"

/-- The rule that is violated, of any of the three phases. -/
inductive CheckDiagnosticKind where
  | lexical (kind : LexerErrorKind)
  | syntactic (kind : ParserErrorKind)
  | semantic (kind : ValidationErrorKind)
  deriving DecidableEq

/-- The phase that found a violation. -/
def CheckDiagnosticKind.phase : CheckDiagnosticKind → CheckPhase
  | .lexical _ => .lexical
  | .syntactic _ => .syntactic
  | .semantic _ => .semantic

/-- A violation and its place. -/
structure CheckDiagnostic where
  kind : CheckDiagnosticKind
  span : SourceSpan
  deriving DecidableEq

/-- A suite, or the diagnostics of the first phase that failed. -/
structure CheckReport where
  suite : Option TestSuite
  diagnostics : List CheckDiagnostic

/-- Lex, parse, validate and convert a source; `none` when the conversion panics. -/
def checkSource (source : SourceText) (context : ValidationContext) : Option CheckReport :=
  let lexed := lex source
  if lexed.errors ≠ [] then
    some ⟨none, lexed.errors.map fun error => ⟨.lexical error.kind, error.span⟩⟩
  else
    let parsed := parse lexed.tokens
    if parsed.errors ≠ [] then
      some ⟨none, parsed.errors.map fun error => ⟨.syntactic error.kind, error.span⟩⟩
    else do
      let validated ← validateAndConvert parsed.ast context
      return ⟨validated.suite,
        validated.errors.map fun error => ⟨.semantic error.kind, error.span⟩⟩

/-- The tree of a source. -/
def SourceText.ast (source : SourceText) : SuiteAst := (parse (lex source).tokens).ast

/-- The tree of a source without syntax errors derives from the grammar. -/
theorem SourceText.ast_grammar {source : SourceText}
    (h : (parse (lex source).tokens).errors = []) :
    ∃ nesting, Grammar.suite nesting (Parser.upToEof (lex source).tokens) source.ast.erase := by
  obtain ⟨suite, hsuite⟩ := (parse_errors_recognized (Parser.new (lex source).tokens) rfl).mp h
  have htree : source.ast.erase = suite := parse_ast_recognized _ hsuite
  rw [htree]
  exact ⟨_, (Parser.recognized_iff _ _).mp hsuite⟩

/-- Validation decides, and conversion never panics. -/
theorem validateAndConvert_eq (ast : SuiteAst) (context : ValidationContext) :
    validateAndConvert ast context =
      some ⟨if validate ast context = [] then some ast.toSuite else none, validate ast context⟩ := by
  unfold validateAndConvert
  dsimp only
  by_cases h : validate ast context = []
  · have hconvert : convert ast = some ast.toSuite :=
      Converter.convertSuite_eq .overwriting ((Validator.validateSuite_meets context ast).clean.mp h)
    rw [if_neg (not_not.mpr h), hconvert, if_pos h]
    rfl
  · rw [if_pos h, if_neg h]

/-- **A source is accepted** exactly when every phase is clean. -/
theorem checkSource_accepts_iff {source : SourceText} {context : ValidationContext}
    {suite : TestSuite} :
    checkSource source context = some ⟨some suite, []⟩ ↔
      (lex source).errors = [] ∧ (parse (lex source).tokens).errors = [] ∧
        SuiteRules context source.ast ∧ suite = source.ast.toSuite := by
  unfold checkSource
  dsimp only
  by_cases hlex : (lex source).errors = []
  · rw [if_neg (not_not.mpr hlex)]
    by_cases hparse : (parse (lex source).tokens).errors = []
    · rw [if_neg (not_not.mpr hparse), validateAndConvert_eq]
      rw [← (Validator.validateSuite_meets context source.ast).clean]
      change some (CheckReport.mk (if validate source.ast context = [] then some source.ast.toSuite
        else none) _) = _ ↔ _
      rw [Option.some.injEq, CheckReport.mk.injEq, List.map_eq_nil_iff]
      by_cases hvalid : validate source.ast context = []
      · rw [if_pos hvalid, Option.some.injEq]
        exact ⟨fun h => ⟨hlex, hparse, hvalid, h.1.symm⟩, fun h => ⟨h.2.2.2.symm, hvalid⟩⟩
      · exact iff_of_false (fun h => hvalid h.2) fun h => hvalid h.2.2.1
    · rw [if_pos hparse]
      simp [hparse]
  · rw [if_pos hlex]
    simp [hlex]

/-! ## The tests of an accepted source -/

/-- Every test of the suite stands for one of the tree, which satisfies the rules of its place. -/
theorem SuiteRules.test_rules {context : ValidationContext} {ast : SuiteAst}
    (h : SuiteRules context ast) {block : SuiteBlock} (hblock : block ∈ ast.toSuite.blocks)
    {test : TestCase} (htest : test ∈ block.tests) :
    ∃ source ∈ ast.blocks, ∃ i, ∃ hi : i < source.tests.length, source.tests[i].toCase = test ∧
      TestRules (visible context ast source (source.tests.take i)) context.maxDepth
        source.tests[i] := by
  obtain ⟨source, hsource, rfl⟩ := List.mem_map.mp hblock
  rw [BlockAst.tests_toBlock] at htest
  obtain ⟨testAst, htestAst, rfl⟩ := List.mem_map.mp htest
  obtain ⟨i, hi, rfl⟩ := List.getElem_of_mem htestAst
  exact ⟨source, hsource, i, hi, rfl, h.tests source hsource i hi⟩

theorem TestRules.toCase_expectation {visible : Finset VariableName} {limit : Nat} {test : TestAst}
    (h : TestRules visible limit test) :
    ∃ expectation, test.toCase.expectation = expectation.toExpectation ∧
      ExpectationRules visible limit expectation := by
  obtain ⟨-, ⟨request, hrequest, -⟩, expectation, hexpectation, hrules⟩ := h
  refine ⟨expectation, ?_, hrules⟩
  rw [TestAst.toCase, hrequest, hexpectation]

end Rettp
