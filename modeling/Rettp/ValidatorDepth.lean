import Rettp.ParserHeight
import Rettp.ValidatorSpec

/-!
# The depth limit of the validator

A tree whose containers are not nested too deep is never refused for its nesting, whatever else is
wrong with it (`validate_within`).

The lemmas go through the validator function by function. At every place the depth and the height
of what is below it stay within the limit together; only `enterDepth` looks at the limit.
-/

namespace Rettp

open Checked

/-- The error is about nesting. -/
def ValidationErrorKind.isNesting : ValidationErrorKind → Bool
  | .nestingLimitExceeded _ => true
  | _ => false

namespace Validator

variable {maxDepth : Nat}

/-- No error about nesting is reported. -/
abbrev Within {α : Type} (x : Validation α) : Prop := Reports (fun e => e.kind.isNesting = false) x

/-- Something nested, where there is room for it. -/
theorem nested_within {depth : Nat} (hdepth : depth < maxDepth) {span : SourceSpan} {α : Type}
    {x y : Validation α} (hx : Within x) :
    Within (enterDepth maxDepth depth span >>= fun entered => if entered = true then x else y) := by
  have hentered : enterDepth maxDepth depth span = pure true := by
    unfold enterDepth
    rw [decide_eq_false (Nat.not_le.mpr hdepth), decide_eq_true hdepth]
    rfl
  rw [hentered]
  exact fun e he => hx e he

section
variable [Platform] (scope : Finset VariableName)

omit [Platform] in
theorem validateNameBy_within (fold : String → String) (kind : DuplicateKind)
    (names : Finset String) (name : Spanned String) :
    Within (validateNameBy fold kind names name) :=
  .bind (.reportIf fun _ => rfl) fun _ => .bind (.reportIf fun _ => rfl) fun _ => .pure _

theorem validateVariable_within (span : SourceSpan) (name : String) :
    Within (validateVariable scope span name) := by
  unfold validateVariable
  split
  · exact .reportIf fun _ => rfl
  · exact .report rfl

theorem validateInterpolation_within (value : Spanned String) :
    Within (validateInterpolation scope value) := by
  unfold validateInterpolation
  split
  · exact .report rfl
  · exact .report rfl
  · exact .forEach fun name _ => validateVariable_within scope value.span name

/-! ## Values -/

mutual

/-- **A literal within the limit** is not reported for its nesting. -/
theorem validateValue_within (value : ValueAst) {depth : Nat} (h : depth + value.height ≤ maxDepth) :
    Within (validateValue maxDepth scope value depth) := by
  match value with
  | .string value =>
    rw [validateValue]
    exact validateInterpolation_within scope value
  | .array ⟨items, span⟩ =>
    rw [ValueAst.height] at h
    rw [validateValue]
    exact nested_within (by omega) (validateItems_within items (by omega))
  | .object object =>
    rw [ValueAst.height] at h
    rw [validateValue]
    exact validateObject_within object h
  | .integer _ | .number _ | .boolean _ | .null _ =>
    rw [validateValue]
    exact .pure ()

/-- Nor are the items of an array. -/
theorem validateItems_within (items : List ValueAst) {depth : Nat}
    (h : depth + heightOfItems items ≤ maxDepth) :
    Within (validateItems maxDepth scope items depth) := by
  match items with
  | [] =>
    rw [validateItems]
    exact .pure ()
  | item :: items =>
    rw [heightOfItems] at h
    rw [validateItems]
    exact .bind (validateValue_within item (by omega)) fun _ =>
      validateItems_within items (by omega)

/-- Nor is an object. -/
theorem validateObject_within (object : ObjectValueAst) {depth : Nat}
    (h : depth + object.height ≤ maxDepth) :
    Within (validateObject maxDepth scope object depth) := by
  match object with
  | ⟨entries, span⟩ =>
    rw [ObjectValueAst.height] at h
    rw [validateObject]
    exact nested_within (by omega)
      (.bind (validateObjectEntries_within .objectKey entries ∅ (by omega)) fun _ => .pure ())

/-- Nor are the entries of an object. -/
theorem validateObjectEntries_within (kind : DuplicateKind) (entries : List ObjectValueEntryAst)
    (names : Finset String) {depth : Nat} (h : depth + heightOfEntries entries ≤ maxDepth) :
    Within (validateObjectEntries maxDepth scope kind entries depth names) := by
  match entries with
  | [] =>
    rw [validateObjectEntries]
    exact .pure names
  | ⟨key, value, span⟩ :: entries =>
    rw [heightOfEntries] at h
    rw [validateObjectEntries]
    exact .bind (validateNameBy_within id kind names key) fun names =>
      .bind (validateValue_within value (by omega)) fun _ =>
        validateObjectEntries_within kind entries names (by omega)

end

/-! ## Requests -/

theorem validateHeaderEntry_within (names : Finset String) {entry : HeaderValueEntryAst}
    (h : entry.value.height ≤ maxDepth) :
    Within (validateHeaderEntry maxDepth scope names entry) :=
  .bind (validateNameBy_within toAsciiLowercase _ names entry.name) fun _ =>
    .bind (validateValue_within scope entry.value (by rwa [Nat.zero_add])) fun _ => .pure _

/-- A section of a request within the limit is not reported for its nesting. -/
theorem validateRequestSection_within (method : HttpMethodAst) (seen : SeenInRequest)
    {section_ : RequestSectionAst} (h : section_.HeightTo maxDepth) :
    Within (validateRequestSection maxDepth scope method seen section_) := by
  cases section_ with
  | headers headers =>
    refine .bind (.reportIf fun _ => rfl) fun _ => .bind (.foldM (fun names entry hentry => ?_) _)
      fun _ => .pure _
    exact validateHeaderEntry_within scope names (h _ (List.mem_map_of_mem hentry))
  | query query =>
    refine .bind (.reportIf fun _ => rfl) fun _ =>
      .bind (validateObjectEntries_within scope _ query.entries _ ?_) fun _ => .pure _
    rw [Nat.zero_add]
    exact heightOfEntries_le.mpr fun entry hentry => h _ (List.mem_map_of_mem hentry)
  | body body =>
    refine .bind (.reportIf fun _ => rfl) fun _ => .bind (.reportIf fun _ => rfl) fun _ =>
      .bind (validateObject_within scope body.value ?_) fun _ => .pure _
    rw [Nat.zero_add]
    exact h _ (List.mem_singleton_self _)

/-- A request within the limit is not reported for its nesting. -/
theorem validateRequest_within {request : RequestAst} (h : request.HeightTo maxDepth) :
    Within (validateRequest maxDepth scope request) := by
  refine .bind (.reportIf fun _ => rfl) fun _ =>
    .bind (validateInterpolation_within scope request.path) fun _ =>
    .bind (.foldM (fun seen section_ hsection => ?_) _) fun _ => .pure ()
  exact validateRequestSection_within scope request.method.value seen fun value hvalue =>
    h value (List.mem_flatMap.mpr ⟨section_, hsection, hvalue⟩)

/-! ## Assertions -/

theorem validateCapture_within (captures : Finset VariableName) (typed : Bool)
    (capture : Spanned String) : Within (validateCapture scope captures typed capture) := by
  refine .bind (.reportIf fun _ => rfl) fun _ => ?_
  split
  · split
    · exact .bind (.report rfl) fun _ => .pure _
    · exact .bind (.reportIf fun _ => rfl) fun _ => .pure _
  · exact .bind (.report rfl) fun _ => .pure _

omit [Platform] in
theorem validateComparison_within (field : String)
    (expectedType : Option (Spanned AssertionTypeAst)) (expectedValue : Option ValueAst) :
    Within (validateComparison field expectedType expectedValue) := by
  unfold validateComparison
  split
  · exact .reportIf fun _ => rfl
  · exact .pure ()

theorem validateExpectedValue_within {expectedValue : Option ValueAst} {depth : Nat}
    (h : depth + expectedValue.elim 0 ValueAst.height ≤ maxDepth) :
    Within (validateExpectedValue maxDepth scope expectedValue depth) := by
  cases expectedValue with
  | none => exact .pure ()
  | some value => exact validateValue_within scope value h

mutual

/-- **An object assertion within the limit** is not reported for its nesting. -/
theorem validateAssertion_within (assertion : ObjectAssertionAst) (captures : Finset VariableName)
    {depth : Nat} (h : depth + assertion.height ≤ maxDepth) :
    Within (validateAssertion maxDepth scope assertion captures depth) := by
  match assertion with
  | ⟨mode, fields, span⟩ =>
    rw [ObjectAssertionAst.height] at h
    rw [validateAssertion]
    exact nested_within (by omega) (validateFields_within fields captures ∅ (by omega))

/-- Nor are its fields. -/
theorem validateFields_within (fields : List FieldAssertionAst) (captures : Finset VariableName)
    (names : Finset String) {depth : Nat} (h : depth + heightOfFields fields ≤ maxDepth) :
    Within (validateFields maxDepth scope fields captures depth names) := by
  match fields with
  | [] =>
    rw [validateFields]
    exact .pure captures
  | field :: fields =>
    rw [heightOfFields] at h
    rw [validateFields]
    exact .bind (validateNameBy_within id _ names field.name) fun names =>
      .bind (validateField_within field captures (by omega)) fun captures =>
        validateFields_within fields captures names (by omega)

/-- Nor is a field. -/
theorem validateField_within (field : FieldAssertionAst) (captures : Finset VariableName)
    {depth : Nat} (h : depth + field.height ≤ maxDepth) :
    Within (validateField maxDepth scope field captures depth) := by
  match field with
  | ⟨name, expectedType, expectedValue, nested, capture, span⟩ =>
    rw [FieldAssertionAst.height] at h
    rw [validateField]
    refine .bind (.reportIf fun _ => rfl) fun _ =>
      .bind (validateComparison_within _ _ _) fun _ =>
      .bind (validateExpectedValue_within scope (by omega)) fun _ =>
      .bind (validateNested_within name.value _ nested captures (by omega)) fun captures => ?_
    cases capture with
    | none => exact .pure captures
    | some capture => exact validateCapture_within scope captures _ capture

/-- Nor are nested fields. -/
theorem validateNested_within (field : String) (expectedType : Option AssertionTypeAst)
    (nested : Option ObjectAssertionAst) (captures : Finset VariableName) {depth : Nat}
    (h : depth + heightOfNested nested ≤ maxDepth) :
    Within (validateNested maxDepth scope field expectedType nested captures depth) := by
  match nested with
  | none =>
    rw [validateNested]
    exact .pure captures
  | some nested =>
    rw [heightOfNested] at h
    rw [validateNested]
    exact .bind (.reportIf fun _ => rfl) fun _ => .bind (.reportIf fun _ => rfl) fun _ =>
      validateAssertion_within nested captures h

end

/-! ## Expectations -/

theorem validateResponseHeader_within (names : Finset String)
    (assertion : ResponseHeaderAssertionAst) :
    Within (validateResponseHeader scope names assertion) := by
  cases assertion with
  | exists_ name typeSpan span => exact validateNameBy_within toAsciiLowercase _ names name
  | exact name expected span | contains name expected span =>
    exact .bind (validateNameBy_within toAsciiLowercase _ names name) fun names =>
      .bind (validateInterpolation_within scope expected) fun _ => .pure names

theorem validateBody_within (captures : Finset VariableName) {body : BodyAssertionAst}
    (h : ∀ assertion ∈ body.assertions, assertion.height ≤ maxDepth) :
    Within (validateBody maxDepth scope captures body) := by
  cases body with
  | empty span => exact .pure captures
  | textExact expected span | textContains expected span =>
    exact .bind (validateInterpolation_within scope expected) fun _ => .pure captures
  | object assertion =>
    refine validateAssertion_within scope assertion captures ?_
    rw [Nat.zero_add]
    exact h assertion (List.mem_singleton_self _)

theorem validateExpectationSection_within (seen : SeenInExpectation)
    {section_ : ExpectationSectionAst} (h : section_.HeightTo maxDepth) :
    Within (validateExpectationSection maxDepth scope seen section_) := by
  cases section_ with
  | status status =>
    exact .bind (.reportIf fun _ => rfl) fun _ => .bind (.reportIf fun _ => rfl) fun _ => .pure _
  | headers headers =>
    exact .bind (.reportIf fun _ => rfl) fun _ =>
      .bind (.foldM (fun names entry _ => validateResponseHeader_within scope names entry) _)
        fun _ => .pure _
  | body body =>
    exact .bind (.reportIf fun _ => rfl) fun _ =>
      .bind (validateBody_within scope seen.captures h) fun _ => .pure _

/-- An expectation within the limit is not reported for its nesting. -/
theorem validateExpectation_within (captures : Finset VariableName)
    {expectation : ExpectationAst} (h : expectation.HeightTo maxDepth) :
    Within (validateExpectation maxDepth scope captures expectation) := by
  refine .bind (.foldM (fun seen section_ hsection => ?_) _) fun seen => .pure _
  exact validateExpectationSection_within scope seen fun assertion hassertion =>
    h assertion (List.mem_flatMap.mpr ⟨section_, hsection, hassertion⟩)

/-! ## Suites -/

/-- A test within the limit is not reported for its nesting. -/
theorem validateTest_within {test : TestAst} (h : test.HeightTo maxDepth) :
    Within (validateTest maxDepth scope test) :=
  .bind (.reportIf fun _ => rfl) fun _ => .bind (.reportIf fun _ => rfl) fun _ =>
    .bind (.forEach fun _ _ => .report rfl) fun _ => .bind (.reportIf fun _ => rfl) fun _ =>
    .bind (.forEach fun _ _ => .report rfl) fun _ =>
    .bind (.forEach fun request hrequest =>
      validateRequest_within scope (h.requests request hrequest)) fun _ =>
    .bind (.foldM (fun captures expectation hexpectation =>
      validateExpectation_within scope captures (h.expectations expectation hexpectation)) _)
        fun _ => .pure _

theorem validateTests_within {tests : List TestAst} (h : ∀ test ∈ tests, test.HeightTo maxDepth) :
    Within (validateTests maxDepth scope tests) :=
  .foldM (fun scope test htest => validateTest_within scope (h test htest)) scope

omit [Platform] in
theorem findCore_within (blocks : List (BlockAst × Nat)) : Within (findCore blocks) := by
  refine .foldM (fun first entry _ => ?_) none
  obtain ⟨block, index⟩ := entry
  cases block with
  | core core => exact .bind (.reportIf fun _ => rfl) fun _ => .pure _
  | pipeline pipeline => exact .pure first
  | test t => exact .pure first

/-- A block within the limit is not reported for its nesting. -/
theorem validateBlock_within (globalWithCore : Finset VariableName) (firstCore : Option Nat)
    {entry : BlockAst × Nat} (h : entry.1.HeightTo maxDepth) :
    Within (validateBlock maxDepth scope globalWithCore firstCore entry) := by
  obtain ⟨block, index⟩ := entry
  cases block with
  | core core =>
    rw [validateBlock]
    split
    · exact .bind (validateTests_within scope h) fun _ => .pure ()
    · exact .pure ()
  | pipeline pipeline =>
    exact .bind (.reportIf fun _ => rfl) fun _ => .bind (.reportIf fun _ => rfl) fun _ =>
      .bind (validateTests_within globalWithCore h) fun _ => .pure ()
  | test t =>
    exact .bind (validateTest_within globalWithCore (h t (List.mem_singleton_self _))) fun _ =>
      .pure ()

end

/-- The tests of the core are tests of a block. -/
theorem coreTests_within {blocks : List BlockAst} (h : ∀ block ∈ blocks, block.HeightTo maxDepth)
    (firstCore : Option Nat) : ∀ test ∈ coreTests blocks firstCore, test.HeightTo maxDepth := by
  unfold coreTests
  split
  · next core hcore =>
    obtain ⟨index, -, hindex⟩ := Option.bind_eq_some_iff.mp hcore
    exact h _ (List.mem_of_getElem? hindex)
  · exact List.forall_mem_nil _

end Validator

/-- **Nesting.** A suite whose containers are not nested too deep has no error about nesting. -/
theorem validate_within [Platform] (context : ValidationContext) {ast : SuiteAst}
    (h : ∀ block ∈ ast.blocks, block.HeightTo context.maxDepth) :
    ∀ e ∈ validate ast context, e.kind.isNesting = false := by
  refine Reports.bind (Validator.findCore_within _) fun firstCore =>
    .bind (Validator.validateTests_within _ (Validator.coreTests_within h firstCore)) fun _ =>
      .forEach fun entry hentry => Validator.validateBlock_within _ _ _ ?_
  exact h _ (List.fst_mem_of_mem_zipIdx hentry)

end Rettp
