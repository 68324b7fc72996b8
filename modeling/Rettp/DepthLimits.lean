import Rettp.ParserTermination
import Rettp.ResolutionDepth
import Rettp.Restore
import Rettp.ValidatorDepth

/-!
# The depth limits fit together

Four parts of the program count how deep containers are nested, each from its own root and with
its own comparison: the parser, the validator, the resolver and the assertion engine. With one limit
for all of them, a suite that passes an earlier part never meets the limit of a later one
(`depth_limits_fit`).

What connects them is the height of the tree: an accepted tree is not higher than the limit, and
neither is anything that it is turned into.
-/

namespace Rettp

/-! ## The engine -/

/-- A failure of the depth limit. -/
def AssertionFailure.IsDepthLimit (failure : AssertionFailure) : Prop :=
  ∃ path maxJsonDepth depth, failure = depthFailure path maxJsonDepth depth

/-- No failure of the depth limit. -/
def WithoutDepthLimit (failures : List AssertionFailure) : Prop :=
  ∀ failure ∈ failures, ¬ failure.IsDepthLimit

namespace WithoutDepthLimit

variable {failures failures' : List AssertionFailure} {failure : AssertionFailure}

theorem nil : WithoutDepthLimit [] := List.forall_mem_nil _

theorem append (h : WithoutDepthLimit failures) (h' : WithoutDepthLimit failures') :
    WithoutDepthLimit (failures ++ failures') :=
  List.forall_mem_append.mpr ⟨h, h'⟩

/-- A depth failure is of the kind of an invalid body. -/
theorem singleton (hkind : failure.kind ≠ .invalidBody) : WithoutDepthLimit [failure] := by
  refine List.forall_mem_singleton.mpr ?_
  rintro ⟨path, maxJsonDepth, depth, rfl⟩
  exact hkind rfl

theorem ite {c : Prop} [Decidable c] (h : WithoutDepthLimit failures)
    (h' : WithoutDepthLimit failures') : WithoutDepthLimit (if c then failures else failures') := by
  split
  · exact h
  · exact h'

theorem within {maxJsonDepth depth : Nat} (hdepth : depth ≤ maxJsonDepth) {path : String}
    (h : WithoutDepthLimit failures) :
    WithoutDepthLimit (withinDepth maxJsonDepth path depth failures) := by
  rwa [withinDepth_of_le hdepth]

end WithoutDepthLimit

section
variable [Platform] {maxJsonDepth : Nat}

theorem numberFailures_within (m n : JsonNumber) (path : String) (flexible : Bool) :
    WithoutDepthLimit (numberFailures m n path flexible) := by
  unfold numberFailures
  exact .ite (.singleton nofun) (.ite (.singleton nofun) .nil)

mutual

/-- **Values** within the limit never meet it, one case for each constructor. -/
theorem compareFailures_within (expected : JsonValue) (actual : JsonValue) (path : String)
    {depth : Nat} (flexible : Bool) (h : depth + expected.levels ≤ maxJsonDepth + 1) :
    WithoutDepthLimit (compareFailures maxJsonDepth expected actual path depth flexible) := by
  match expected with
  | .null =>
    rw [compareFailures]
    exact .ite (.singleton nofun) .nil
  | .bool b =>
    rw [compareFailures]
    cases actual.asBool with
    | none => exact .singleton nofun
    | some actual => exact .ite .nil (.singleton nofun)
  | .string s =>
    rw [compareFailures]
    cases actual.asStr with
    | none => exact .singleton nofun
    | some actual => exact .ite .nil (.singleton nofun)
  | .number m =>
    rw [compareFailures]
    cases actual.asNumber with
    | none => exact .singleton nofun
    | some actual => exact numberFailures_within m actual path flexible
  | .array items =>
    rw [JsonValue.levels] at h
    rw [compareFailures]
    cases actual.asArray with
    | none => exact .singleton nofun
    | some actual =>
      exact .within (by omega) (.append (.ite (.singleton nofun) .nil)
        (itemsFailures_within items actual path 0 (by omega)))
  | .object entries =>
    rw [JsonValue.levels] at h
    rw [compareFailures]
    cases actual.asObject with
    | none => exact .singleton nofun
    | some actual => exact .within (by omega) (entriesFailures_within entries actual path (by omega))

theorem itemsFailures_within (expected actual : List JsonValue) (path : String) (index : Nat)
    {depth : Nat} (h : depth + 1 + JsonValue.levelsItems expected ≤ maxJsonDepth + 1) :
    WithoutDepthLimit (itemsFailures maxJsonDepth expected actual path index depth) := by
  match expected, actual with
  | [], [] => exact .nil
  | [], _ :: _ => exact .nil
  | _ :: _, [] => exact .nil
  | item :: expected, actualItem :: actual =>
    rw [JsonValue.levelsItems] at h
    rw [itemsFailures]
    exact .append (compareFailures_within item actualItem _ _ (by omega))
      (itemsFailures_within expected actual path (index + 1) (by omega))

theorem entriesFailures_within (expected : List (String × JsonValue))
    (actual : SortedMap String JsonValue) (path : String) {depth : Nat}
    (h : depth + 1 + JsonValue.levelsEntries expected ≤ maxJsonDepth + 1) :
    WithoutDepthLimit (entriesFailures maxJsonDepth expected actual path depth) := by
  match expected with
  | [] => exact .nil
  | (key, v) :: expected =>
    rw [JsonValue.levelsEntries] at h
    rw [entriesFailures]
    refine .append ?_ (entriesFailures_within expected actual path (by omega))
    cases IndexMap.get actual key with
    | none => exact .singleton nofun
    | some actualValue => exact compareFailures_within v actualValue _ _ (by omega)

end

theorem declaredFailures_within (fields : List (String × ResolvedFieldAssertion))
    (actual : SortedMap String JsonValue) (path : String) :
    WithoutDepthLimit (declaredFailures fields actual path) := by
  induction actual with
  | nil => exact .nil
  | cons entry actual ih =>
    obtain ⟨name, v⟩ := entry
    rw [declaredFailures]
    exact .append (.ite .nil (.singleton (by rintro ⟨⟩))) ih

mutual

/-- **Objects** within the limit never meet it. -/
theorem objectFailures_within (assertion : ResolvedObjectAssertion)
    (actual : SortedMap String JsonValue) (path : String) {depth : Nat}
    (h : depth + assertion.levels ≤ maxJsonDepth + 1) :
    WithoutDepthLimit (objectFailures maxJsonDepth assertion actual path depth) := by
  match assertion with
  | ⟨mode, fields⟩ =>
    rw [ResolvedObjectAssertion.levels] at h
    rw [objectFailures.eq_def]
    refine .within (by omega) (.append (fieldsFailures_within fields actual path (by omega)) ?_)
    cases mode with
    | exact => exact declaredFailures_within fields actual path
    | partially => exact .nil

theorem fieldsFailures_within (fields : List (String × ResolvedFieldAssertion))
    (actual : SortedMap String JsonValue) (path : String) {depth : Nat}
    (h : depth + 1 + ResolvedFieldAssertion.levelsAll fields ≤ maxJsonDepth + 1) :
    WithoutDepthLimit (fieldsFailures maxJsonDepth fields actual path depth) := by
  match fields with
  | [] => exact .nil
  | (name, field) :: fields =>
    rw [ResolvedFieldAssertion.levelsAll] at h
    rw [fieldsFailures]
    refine .append ?_ (fieldsFailures_within fields actual path (by omega))
    cases IndexMap.get actual name with
    | none => exact .singleton nofun
    | some actualValue => exact fieldFailures_within field actualValue _ (by omega)

theorem fieldFailures_within (field : ResolvedFieldAssertion) (actual : JsonValue) (path : String)
    {depth : Nat} (h : depth + 1 + field.levels ≤ maxJsonDepth + 1) :
    WithoutDepthLimit (fieldFailures maxJsonDepth field actual path depth) := by
  match field with
  | ⟨_, expectedType, expectedValue, nested, _⟩ =>
    rw [ResolvedFieldAssertion.levels.eq_def] at h
    rw [fieldFailures.eq_def]
    dsimp only at h ⊢
    refine .ite (.singleton nofun) (.append ?_ ?_)
    · match expectedValue with
      | none => exact .nil
      | some expected =>
        dsimp only at h
        exact compareFailures_within expected actual path _ (by omega)
    · match nested with
      | none => exact .nil
      | some assertion =>
        dsimp only at h
        cases actual.asObject with
        | none => exact .nil
        | some object => exact objectFailures_within assertion object path (by omega)

end

theorem headersFailures_within (expected : IndexMap String ResolvedHeaderAssertion)
    (actual : ResponseHeaders) : WithoutDepthLimit (headersFailures expected actual) := by
  induction expected with
  | nil => exact .nil
  | cons entry expected ih =>
    obtain ⟨name, assertion⟩ := entry
    rw [headersFailures]
    exact .append (.ite .nil (.singleton (by rintro ⟨⟩))) ih

omit [Platform] in
/-- The other failures of an invalid body say so in their own words. -/
theorem invalidBodyFailure_within (expected actual : String) :
    WithoutDepthLimit [invalidBodyFailure expected actual] := by
  refine List.forall_mem_singleton.mpr ?_
  rintro ⟨path, maxJsonDepth, depth, heq⟩
  have hmessage := congrArg (fun f => f.message.toList.head?) heq
  simp only [invalidBodyFailure, depthFailure, String.toList_append, List.head?_append] at hmessage
  cases hmessage

omit [Platform] in
theorem utf8Failure_within : WithoutDepthLimit [utf8Failure] := by
  refine List.forall_mem_singleton.mpr ?_
  rintro ⟨path, maxJsonDepth, depth, heq⟩
  have hmessage : "text response body is not valid UTF-8" =
      "JSON assertion comparison depth limit exceeded" := congrArg AssertionFailure.message heq
  exact absurd hmessage (by decide)

theorem bodyFailures_within {expected : Option ResolvedBodyAssertion} (actual : HttpResponse)
    (h : ∀ object, expected = some (.json object) → object.levels ≤ maxJsonDepth + 1) :
    WithoutDepthLimit (bodyFailures maxJsonDepth expected actual) := by
  rcases expected with _ | expected
  · exact .nil
  cases expected with
  | empty => exact .ite (.singleton (by rintro ⟨⟩)) .nil
  | text assertion =>
    rw [bodyFailures]
    cases actual.body with
    | text bytes =>
      dsimp only
      cases String.fromUTF8? bytes with
      | none => exact utf8Failure_within
      | some text =>
        cases assertion with
        | exact expected => exact .ite .nil (.singleton (by rintro ⟨⟩))
        | contains expected => exact .ite .nil (.singleton (by rintro ⟨⟩))
    | empty => exact invalidBodyFailure_within _ _
    | json raw value => exact invalidBodyFailure_within _ _
    | binary bytes => exact invalidBodyFailure_within _ _
  | json assertion =>
    rw [bodyFailures]
    cases actual.body with
    | json raw value =>
      dsimp only
      cases value.value.asObject with
      | none => exact .singleton (by rintro ⟨⟩)
      | some object =>
        have hlevels := h assertion rfl
        exact objectFailures_within assertion object "$" (by omega)
    | empty => exact invalidBodyFailure_within _ _
    | text bytes => exact invalidBodyFailure_within _ _
    | binary bytes => exact invalidBodyFailure_within _ _

/-- **An expectation within the limit** never meets it, whatever the response is. -/
theorem evaluate_within (config : AssertionConfig) {expected : ResolvedResponseExpectation}
    (h : expected.CoveredBy config.maxJsonDepth) (actual : HttpResponse) :
    WithoutDepthLimit (evaluate config expected actual).failures := by
  intro failure hfailure
  rw [(evaluate_eq config expected actual).1] at hfailure
  have hstatus : WithoutDepthLimit (statusFailures expected.status actual.status) := by
    unfold statusFailures
    split
    · exact .nil
    · exact .ite (.singleton nofun) .nil
  exact (hstatus.append (headersFailures_within _ _)).append (bodyFailures_within actual h) failure
    (List.mem_of_mem_take hfailure)

end

/-! ## Accepted trees -/

section
variable [Platform]

/-- The trees that the validator accepts are not higher than its limit. -/
theorem SuiteRules.heightTo {context : ValidationContext} {ast : SuiteAst}
    (h : SuiteRules context ast) : ∀ block ∈ ast.blocks, block.HeightTo context.maxDepth := by
  intro block hblock test htest
  obtain ⟨i, hi, rfl⟩ := List.getElem_of_mem htest
  obtain ⟨-, ⟨request, hrequest, hrequestRules⟩, expectation, hexpectation, hexpectationRules⟩ :=
    h.tests block hblock i hi
  refine ⟨?_, ?_⟩
  · rw [hrequest]
    exact List.forall_mem_singleton.mpr fun value hvalue =>
      (hrequestRules.values value hvalue).nesting
  · rw [hexpectation]
    exact List.forall_mem_singleton.mpr fun assertion hassertion =>
      (hexpectationRules.assertions assertion hassertion).nesting

omit [Platform] in
/-- A test is not higher than its tree. -/
theorem TestAst.toCase_height {k : Nat} {test : TestAst} (h : test.HeightTo k) :
    test.toCase.HeightTo k := by
  unfold TestAst.toCase
  split
  · next request requests expectation expectations hrequests hexpectations =>
    refine ⟨RequestAst.toSpec_height (h.requests request ?_),
      ExpectationAst.toExpectation_height (h.expectations expectation ?_)⟩
    · rw [hrequests]
      exact List.mem_cons_self
    · rw [hexpectations]
      exact List.mem_cons_self
  · exact ⟨⟨Nat.zero_le _, Nat.zero_le _, nofun⟩, nofun⟩

omit [Platform] in
/-- A suite has the tests of its tree. -/
theorem toSuite_height {k : Nat} {ast : SuiteAst} (h : ∀ block ∈ ast.blocks, block.HeightTo k) :
    ∀ block ∈ ast.toSuite.blocks, ∀ test ∈ block.tests, test.HeightTo k := by
  intro block hblock test htest
  obtain ⟨source, hsource, rfl⟩ := List.mem_map.mp hblock
  have htests : source.toBlock.tests = source.tests.map TestAst.toCase := by
    cases source <;> rfl
  rw [htests] at htest
  obtain ⟨testAst, hmem, rfl⟩ := List.mem_map.mp htest
  exact TestAst.toCase_height (h source hsource testAst hmem)

/-- **The depth limits fit together.** With the same limit everywhere: resolving and evaluating a
test of an accepted suite never meets it as long as the variables are scalar, and a suite that is
parsed without an error is not refused for its nesting. -/
theorem depth_limits_fit (limit : Nat) :
    (∀ (context : ValidationContext) (ast : SuiteAst), context.maxDepth = limit →
      validate ast context = [] →
      ∃ suite, convert ast = some suite ∧
        ∀ block ∈ suite.blocks, ∀ test ∈ block.tests,
        ∀ store : VariableStore, (∀ entry ∈ store.values, entry.2.isStructured = false) →
        ∀ config : RuntimeConfig, config.maxResolutionDepth = limit →
          (∀ k, RuntimeResolver.resolveRequest config store test.request ≠
            .error (.nestingLimitExceeded k)) ∧
          (∀ k, RuntimeResolver.resolveExpectation config store test.expectation ≠
            .error (.nestingLimitExceeded k)) ∧
          ∀ resolved, RuntimeResolver.resolveExpectation config store test.expectation =
            .ok resolved →
          ∀ assertions : AssertionConfig, assertions.maxJsonDepth = limit →
          ∀ response, WithoutDepthLimit (evaluate assertions resolved response).failures) ∧
    ∀ tokens : List Token,
      ((Parser.new tokens).withMaxNestingDepth limit).parse.errors = [] →
      ∀ context : ValidationContext, context.maxDepth = limit →
      ∀ e ∈ validate ((Parser.new tokens).withMaxNestingDepth limit).parse.ast context,
        ∀ k, e.kind ≠ .nestingLimitExceeded k := by
  refine ⟨?_, ?_⟩
  · rintro context ast rfl haccepted
    have hrules := (validate_eq_nil_iff context ast).mp haccepted
    refine ⟨ast.toSuite, Converter.convertSuite_eq .overwriting hrules, ?_⟩
    intro block hblock test htest store hscalar config hlimit
    have hheight := toSuite_height hrules.heightTo block hblock test htest
    rw [← hlimit] at hheight
    have hrequest := RuntimeResolver.resolveRequest_within hscalar hheight.request
    have hexpectation := RuntimeResolver.resolveExpectation_within hscalar hheight.expectation
    refine ⟨fun k hk => ?_, fun k hk => ?_, fun resolved hresolved assertions hlimit' response => ?_⟩
    · have hnot := hrequest _ hk
      cases hnot
    · have hnot := hexpectation _ hk
      cases hnot
    · refine evaluate_within assertions (fun object hobject => ?_) response
      have hlevels := RuntimeResolver.resolveExpectation_levels hscalar hheight.expectation hresolved
        hobject
      omega
  · intro tokens herrors context hlimit e he k hk
    obtain rfl := hlimit
    have hleft : ((Parser.new tokens).withMaxNestingDepth context.maxDepth).nestingLeft =
        context.maxDepth :=
      (withMaxNestingDepth_limit (Parser.new tokens) _).trans (Nat.min_eq_left context.maxDepth_le)
    have hheight := @Parser.parse_height _
      ((Parser.new tokens).withMaxNestingDepth context.maxDepth) 0 fun h => absurd herrors h
    rw [hleft] at hheight
    have hkind := validate_within context hheight e he
    rw [hk] at hkind
    cases hkind

end

/-- A request and an expectation of one level, where the limit is one level. -/
theorem depth_limits_fit_login :
    letI := asciiPlatform
    validate loginSuite (ValidationContext.new.withMaxDepth 1) = [] ∧
      ∃ suite, convert loginSuite = some suite ∧ ∀ block ∈ suite.blocks, ∀ test ∈ block.tests,
        ∀ config : RuntimeConfig, config.maxResolutionDepth = 1 →
        ∀ k, RuntimeResolver.resolveRequest config .new test.request ≠
          .error (.nestingLimitExceeded k) :=
  letI := asciiPlatform
  have haccepted : validate loginSuite (ValidationContext.new.withMaxDepth 1) = [] := by
    decide +kernel
  ⟨haccepted, by
    obtain ⟨suite, hsuite, hfit⟩ := (depth_limits_fit 1).1 _ loginSuite rfl haccepted
    refine ⟨suite, hsuite, fun block hblock test htest config hconfig => ?_⟩
    exact (hfit block hblock test htest .new (List.forall_mem_nil _) config hconfig).1⟩

end Rettp
