import Rettp.Assertion

/-!
# The failures of an expectation

Stopping early and the limit on collected failures are bookkeeping around one list: the
failures that an evaluation without a limit would find, in order. This file defines that list
check by check (`compareFailures`, `objectFailures`, …, `expectationFailures`) and shows that
every check of the engine pushes exactly its list (`Evaluation.compareJson_eq`, …), so that a
report holds a prefix of it and says whether anything was cut off (`evaluate_eq`).
-/

namespace Rettp

/-! ## Pushing a list of failures -/

namespace Evaluation

/-- Record failures one after the other. -/
def pushAll (ev : Evaluation) (failures : List AssertionFailure) : Evaluation :=
  failures.foldl push ev

@[simp] theorem pushAll_nil (ev : Evaluation) : ev.pushAll [] = ev := rfl

@[simp] theorem pushAll_singleton (ev : Evaluation) (f : AssertionFailure) :
    ev.pushAll [f] = ev.push f := rfl

theorem pushAll_append (ev : Evaluation) (fs gs : List AssertionFailure) :
    ev.pushAll (fs ++ gs) = (ev.pushAll fs).pushAll gs := List.foldl_append

@[simp] theorem push_config (ev : Evaluation) (f : AssertionFailure) :
    (ev.push f).config = ev.config := by
  unfold push
  split <;> rfl

@[simp] theorem pushAll_config (ev : Evaluation) (fs : List AssertionFailure) :
    (ev.pushAll fs).config = ev.config := by
  induction fs generalizing ev with
  | nil => rfl
  | cons f fs ih => exact (ih (ev.push f)).trans (push_config ev f)

/-- After truncation nothing changes any more. -/
theorem push_of_truncated {ev : Evaluation} (h : ev.truncated = true) (f : AssertionFailure) :
    ev.push f = ev := by
  unfold push
  rw [dif_pos (ev.full h)]
  obtain ⟨config, failures, truncated, hle, hfull⟩ := ev
  obtain rfl : truncated = true := h
  rfl

theorem pushAll_of_truncated {ev : Evaluation} (h : ev.truncated = true)
    (fs : List AssertionFailure) : ev.pushAll fs = ev := by
  induction fs with
  | nil => rfl
  | cons f fs ih =>
    rw [pushAll, List.foldl_cons, push_of_truncated h]
    exact ih

/-- **Stopping early is harmless.** What would be pushed after truncation has no effect. -/
theorem stop_or_pushAll (ev : Evaluation) (fs : List AssertionFailure) :
    (if ev.shouldStop then ev else ev.pushAll fs) = ev.pushAll fs := by
  split
  · next h => exact (pushAll_of_truncated h fs).symm
  · rfl

/-- The list that is kept, and whether something was cut off. -/
theorem pushAll_spec (ev : Evaluation) (fs : List AssertionFailure) :
    (ev.pushAll fs).failures = (ev.failures ++ fs).take ev.config.maxFailures ∧
      (ev.pushAll fs).truncated =
        (ev.truncated || decide (ev.config.maxFailures < ev.failures.length + fs.length)) := by
  induction fs generalizing ev with
  | nil =>
    have := ev.length_le
    refine ⟨?_, ?_⟩
    · rw [List.append_nil, List.take_of_length_le this]
      rfl
    · have h : ¬ ev.config.maxFailures < ev.failures.length := by omega
      simp [h]
  | cons f fs ih =>
    -- the first failure is kept or cut off; the induction covers the others
    obtain ⟨hf, ht⟩ := ih (ev.push f)
    rw [pushAll, List.foldl_cons]
    rw [pushAll, push_config] at hf ht
    rw [hf, ht]
    unfold push
    split
    · next h =>
      refine ⟨?_, ?_⟩
      · rw [List.take_append, List.take_append, ← h]
        simp
      · simp only [Bool.true_or, List.length_cons]
        have : ev.config.maxFailures < ev.failures.length + (fs.length + 1) := by omega
        simp [this]
    · refine ⟨?_, ?_⟩
      · simp
      · simp only [List.length_append, List.length_nil, List.length_cons]
        congr 2
        exact propext (by omega)

end Evaluation

variable [Platform]

/-! ## The lists -/

/-- The failures of the status. -/
def statusFailures (expected : Option Nat) (actual : Nat) : List AssertionFailure :=
  match expected with
  | none => []
  | some expected => if expected ≠ actual then [statusFailure expected actual] else []

/-- The failures of the headers, in the order of the expectation. -/
def headersFailures (expected : IndexMap String ResolvedHeaderAssertion)
    (actual : ResponseHeaders) : List AssertionFailure :=
  match expected with
  | [] => []
  | (name, assertion) :: expected =>
    let values := actual.get name
    (if Evaluation.headerMatches assertion values then []
      else [headerFailure name assertion values]) ++ headersFailures expected actual

/-- The failures of a text body. -/
def textFailures (assertion : ResolvedTextAssertion) (actual : String) : List AssertionFailure :=
  match assertion with
  | .exact expected =>
    if actual == expected then [] else [textFailure expected actual "equal exactly"]
  | .contains expected =>
    if containsStr actual.toList expected.toList then []
    else [textFailure expected actual "contain"]

/-- The failures of a container at a depth, or the failure of the depth itself. -/
def withinDepth (maxJsonDepth : Nat) (path : String) (depth : Nat)
    (failures : List AssertionFailure) : List AssertionFailure :=
  if depth ≤ maxJsonDepth then failures else [depthFailure path maxJsonDepth depth]

/-- The failures of a number: its type or its value, never both. -/
def numberFailures (expected actual : JsonNumber) (path : String) (flexibleNumber : Bool) :
    List AssertionFailure :=
  if !(flexibleNumber || !numberIsInteger expected || numberIsInteger actual) then
    [typeFailure path "integer" "number"]
  else if !numbersEqual expected actual then
    [valueFailure path expected.display actual.display]
  else []

mutual

/-- The failures of a value against an expected one. -/
def compareFailures (maxJsonDepth : Nat) (expected actual : JsonValue) (path : String)
    (depth : Nat) (flexibleNumber : Bool) : List AssertionFailure :=
  match expected with
  | .object expected =>
    match actual.asObject with
    | none => [typeFailure path "object" (jsonTypeName actual)]
    | some actual => withinDepth maxJsonDepth path depth
        (entriesFailures maxJsonDepth expected actual path depth)
  | .array expected =>
    match actual.asArray with
    | none => [typeFailure path "array" (jsonTypeName actual)]
    | some actual => withinDepth maxJsonDepth path depth
        ((if expected.length ≠ actual.length then
            [arrayLengthFailure path expected.length actual.length] else []) ++
          itemsFailures maxJsonDepth expected actual path 0 depth)
  | .number expected =>
    match actual.asNumber with
    | none => [typeFailure path (numberTypeName expected) (jsonTypeName actual)]
    | some actual => numberFailures expected actual path flexibleNumber
  | .string expected =>
    match actual.asStr with
    | some actual =>
      if actual == expected then []
      else [valueFailure path (previewString expected) (previewString actual)]
    | none => [typeFailure path "string" (jsonTypeName actual)]
  | .bool expected =>
    match actual.asBool with
    | some actual =>
      if actual == expected then [] else [valueFailure path (toString expected) (toString actual)]
    | none => [typeFailure path "boolean" (jsonTypeName actual)]
  | .null => if !actual.isNull then [typeFailure path "null" (jsonTypeName actual)] else []

/-- The failures of an object against the entries of an expected one. -/
def entriesFailures (maxJsonDepth : Nat) (expected : List (String × JsonValue))
    (actual : SortedMap String JsonValue) (path : String) (depth : Nat) : List AssertionFailure :=
  match expected with
  | [] => []
  | (key, expectedValue) :: expected =>
    (match IndexMap.get actual key with
      | none => [missingComparedFailure (childPath path key) key expectedValue]
      | some actualValue => compareFailures maxJsonDepth expectedValue actualValue
          (childPath path key) (depth + 1) (expectedNumberIsFlexible expectedValue)) ++
      entriesFailures maxJsonDepth expected actual path depth

/-- The failures of an array against the items of an expected one. -/
def itemsFailures (maxJsonDepth : Nat) (expected actual : List JsonValue) (path : String)
    (index depth : Nat) : List AssertionFailure :=
  match expected, actual with
  | expectedValue :: expected, actualValue :: actual =>
    compareFailures maxJsonDepth expectedValue actualValue (elementPath path index) (depth + 1)
        (expectedNumberIsFlexible expectedValue) ++
      itemsFailures maxJsonDepth expected actual path (index + 1) depth
  | _, _ => []

end

/-- The fields that an exact assertion does not declare. -/
def declaredFailures (fields : List (String × ResolvedFieldAssertion))
    (actual : SortedMap String JsonValue) (path : String) : List AssertionFailure :=
  match actual with
  | [] => []
  | (name, value) :: actual =>
    (if name ∈ IndexMap.keys fields then []
      else [unexpectedFieldFailure (childPath path name) name value]) ++
      declaredFailures fields actual path

mutual

/-- The failures of an object, those of the exact mode first. -/
def objectFailures (maxJsonDepth : Nat) (assertion : ResolvedObjectAssertion)
    (actual : SortedMap String JsonValue) (path : String) (depth : Nat) : List AssertionFailure :=
  match assertion with
  | ⟨mode, fields⟩ => withinDepth maxJsonDepth path depth
      (fieldsFailures maxJsonDepth fields actual path depth ++
        match mode with
        | .exact => declaredFailures fields actual path
        | .partially => [])

/-- The failures of the fields, in the order of their declaration. -/
def fieldsFailures (maxJsonDepth : Nat) (fields : List (String × ResolvedFieldAssertion))
    (actual : SortedMap String JsonValue) (path : String) (depth : Nat) : List AssertionFailure :=
  match fields with
  | [] => []
  | (declaredName, field) :: fields =>
    (match IndexMap.get actual declaredName with
      | none => [missingFieldFailure (childPath path declaredName) declaredName
          field.expectedType]
      | some actualValue => fieldFailures maxJsonDepth field actualValue
          (childPath path declaredName) depth) ++
      fieldsFailures maxJsonDepth fields actual path depth

/-- The failures of one field: its type before its value before its nested fields. -/
def fieldFailures (maxJsonDepth : Nat) (assertion : ResolvedFieldAssertion)
    (actual : JsonValue) (path : String) (depth : Nat) : List AssertionFailure :=
  match assertion with
  | ⟨_, expectedType, expectedValue, nested, _⟩ =>
    if !matchesExpectedType actual expectedType then
      [typeFailure path expectedType.asStr (jsonTypeName actual)]
    else
      (match expectedValue with
        | some expected => compareFailures maxJsonDepth expected actual path (depth + 1)
            (expectedType == .number)
        | none => []) ++
      match nested with
      | none => []
      | some nested =>
        match actual.asObject with
        | none => []
        | some actual => objectFailures maxJsonDepth nested actual path (depth + 1)

end

/-- The failures of the body. -/
def bodyFailures (maxJsonDepth : Nat) (expected : Option ResolvedBodyAssertion)
    (actual : HttpResponse) : List AssertionFailure :=
  match expected with
  | none => []
  | some .empty =>
    if actual.rawBody.size ≠ 0 then [emptyBodyFailure actual.rawBody.size] else []
  | some (.text assertion) =>
    match actual.body with
    | .text bytes =>
      match String.fromUTF8? bytes with
      | none => [utf8Failure]
      | some text => textFailures assertion text
    | body => [invalidBodyFailure "text" (responseBodyKind body)]
  | some (.json assertion) =>
    match actual.body with
    | .json _ value =>
      match value.value.asObject with
      | none => [typeFailure "$" "object" (jsonTypeName value.value)]
      | some object => objectFailures maxJsonDepth assertion object "$" 0
    | body => [invalidBodyFailure "JSON" (responseBodyKind body)]

/-- All failures of a response, in the order in which they are found. -/
def expectationFailures (maxJsonDepth : Nat) (expected : ResolvedResponseExpectation)
    (actual : HttpResponse) : List AssertionFailure :=
  statusFailures expected.status actual.status ++
    headersFailures expected.headers actual.headers ++
    bodyFailures maxJsonDepth expected.body actual

/-! ## The engine pushes the lists -/

namespace Evaluation

omit [Platform] in
/-- A check that stops after an early failure and one that goes on push the same. -/
theorem pushAll_stop (ev : Evaluation) (fs gs : List AssertionFailure) :
    (if (ev.pushAll fs).shouldStop then ev.pushAll fs else (ev.pushAll fs).pushAll gs) =
      ev.pushAll (fs ++ gs) := by
  rw [stop_or_pushAll, pushAll_append]

omit [Platform] in
theorem assertStatus_eq (ev : Evaluation) (expected : Option Nat) (actual : Nat) :
    ev.assertStatus expected actual = ev.pushAll (statusFailures expected actual) := by
  cases expected with
  | none => rfl
  | some expected =>
    rw [assertStatus, statusFailures]
    split <;> rfl

theorem assertHeaders_eq (ev : Evaluation) (expected : IndexMap String ResolvedHeaderAssertion)
    (actual : ResponseHeaders) :
    ev.assertHeaders expected actual = ev.pushAll (headersFailures expected actual) := by
  induction expected generalizing ev with
  | nil => rfl
  | cons e expected ih =>
    obtain ⟨name, assertion⟩ := e
    rw [assertHeaders, headersFailures]
    dsimp only
    split
    · rw [ih, List.nil_append]
    · rw [ih, ← pushAll_singleton, pushAll_stop]

theorem assertText_eq (ev : Evaluation) (assertion : ResolvedTextAssertion) (actual : String) :
    ev.assertText assertion actual = ev.pushAll (textFailures assertion actual) := by
  cases assertion with
  | exact expected =>
    rw [assertText, textFailures]
    split <;> rfl
  | contains expected =>
    rw [assertText, textFailures]
    split <;> rfl

omit [Platform] in
/-- A container check: too deep, or the failures of the contents. -/
theorem enterDepth_eq {ev : Evaluation} {fs : List AssertionFailure}
    {k : Evaluation → Evaluation} (h : k ev = ev.pushAll fs) (path : String)
    (depth : Nat) :
    (match ev.enterDepth path depth with
      | (ev, false) => ev
      | (ev, true) => k ev) =
      ev.pushAll (withinDepth ev.config.maxJsonDepth path depth fs) := by
  unfold enterDepth withinDepth
  by_cases hd : depth ≤ ev.config.maxJsonDepth
  · rw [if_pos hd, if_pos hd]
    exact h
  · rw [if_neg hd, if_neg hd]
    rfl

theorem compareNumbers_eq (ev : Evaluation) (expected actual : JsonNumber) (path : String)
    (flexibleNumber : Bool) :
    ev.compareNumbers expected actual path flexibleNumber =
      ev.pushAll (numberFailures expected actual path flexibleNumber) := by
  unfold compareNumbers numberFailures
  dsimp only
  split
  · rfl
  · split <;> rfl

mutual

/-- **Value comparison pushes its failures.** -/
theorem compareJson_eq (ev : Evaluation) (expected actual : JsonValue) (path : String)
    (depth : Nat) (flexibleNumber : Bool) :
    ev.compareJson expected actual path depth flexibleNumber =
      ev.pushAll (compareFailures ev.config.maxJsonDepth expected actual path depth
        flexibleNumber) := by
  -- a full report stops the comparison, and then pushing changes nothing either
  by_cases h : ev.shouldStop = true
  · rw [pushAll_of_truncated h, compareJson.eq_def, if_pos h]
  · match expected with
    | .object expected =>
      rw [compareJson, if_neg h, compareFailures]
      cases actual.asObject with
      | none => rfl
      | some actual =>
        exact enterDepth_eq (compareEntries_eq ev expected actual path depth) path depth
    | .array expected =>
      rw [compareJson, if_neg h, compareFailures]
      cases actual.asArray with
      | none => rfl
      | some actual =>
        -- a difference in length is reported before the items are compared
        refine enterDepth_eq (k := fun ev => _) ?_ path depth
        dsimp only
        split
        · rw [compareItems_eq, push_config]
          exact pushAll_stop ev [_] _
        · rw [compareItems_eq, List.nil_append]
    | .number expected =>
      rw [compareJson, if_neg h, compareFailures]
      cases actual.asNumber with
      | none => rfl
      | some actual => exact compareNumbers_eq ev expected actual path flexibleNumber
    | .string expected =>
      rw [compareJson, if_neg h, compareFailures]
      cases actual.asStr with
      | none => rfl
      | some actual =>
        dsimp only
        split <;> rfl
    | .bool expected =>
      rw [compareJson, if_neg h, compareFailures]
      cases actual.asBool with
      | none => rfl
      | some actual =>
        dsimp only
        split <;> rfl
    | .null =>
      rw [compareJson, if_neg h, compareFailures]
      split <;> rfl

theorem compareEntries_eq (ev : Evaluation) (expected : List (String × JsonValue))
    (actual : SortedMap String JsonValue) (path : String) (depth : Nat) :
    ev.compareEntries expected actual path depth =
      ev.pushAll (entriesFailures ev.config.maxJsonDepth expected actual path depth) := by
  match expected with
  | [] => rfl
  | (key, expectedValue) :: expected =>
    rw [compareEntries, entriesFailures]
    cases IndexMap.get actual key with
    | none =>
      simp only [compareEntries_eq, push_config]
      exact pushAll_stop ev [_] _
    | some actualValue =>
      simp only [compareJson_eq, compareEntries_eq, pushAll_config]
      exact pushAll_stop _ _ _

theorem compareItems_eq (ev : Evaluation) (expected actual : List JsonValue) (path : String)
    (index depth : Nat) :
    ev.compareItems expected actual path index depth =
      ev.pushAll (itemsFailures ev.config.maxJsonDepth expected actual path index depth) := by
  match expected, actual with
  | [], [] => rfl
  | [], _ :: _ => rfl
  | _ :: _, [] => rfl
  | expectedValue :: expected, actualValue :: actual =>
    rw [compareItems, itemsFailures]
    simp only [compareJson_eq, compareItems_eq, pushAll_config]
    exact pushAll_stop _ _ _

end

theorem assertDeclared_eq (ev : Evaluation) (fields : List (String × ResolvedFieldAssertion))
    (actual : SortedMap String JsonValue) (path : String) :
    ev.assertDeclared fields actual path = ev.pushAll (declaredFailures fields actual path) := by
  induction actual generalizing ev with
  | nil => rfl
  | cons e actual ih =>
    obtain ⟨name, value⟩ := e
    rw [assertDeclared, declaredFailures]
    split
    · rw [ih, List.nil_append]
    · dsimp only
      rw [ih, ← pushAll_singleton, pushAll_stop]

mutual

/-- **Object assertions push their failures.** -/
theorem assertObject_eq (ev : Evaluation) (assertion : ResolvedObjectAssertion)
    (actual : SortedMap String JsonValue) (path : String) (depth : Nat) :
    ev.assertObject assertion actual path depth =
      ev.pushAll (objectFailures ev.config.maxJsonDepth assertion actual path depth) := by
  match assertion with
  | ⟨mode, fields⟩ =>
    rw [assertObject, objectFailures.eq_def]
    refine enterDepth_eq (k := fun ev => _) ?_ path depth
    simp only [assertFields_eq, assertDeclared_eq]
    cases mode with
    | exact => exact pushAll_stop _ _ _
    | partially => rw [List.append_nil, ite_self]

theorem assertFields_eq (ev : Evaluation) (fields : List (String × ResolvedFieldAssertion))
    (actual : SortedMap String JsonValue) (path : String) (depth : Nat) :
    ev.assertFields fields actual path depth =
      ev.pushAll (fieldsFailures ev.config.maxJsonDepth fields actual path depth) := by
  match fields with
  | [] => rfl
  | (declaredName, field) :: fields =>
    rw [assertFields, fieldsFailures]
    cases IndexMap.get actual declaredName with
    | none =>
      simp only [assertFields_eq, push_config]
      exact pushAll_stop ev [_] _
    | some actualValue =>
      simp only [assertField_eq, assertFields_eq, pushAll_config]
      exact pushAll_stop _ _ _

theorem assertField_eq (ev : Evaluation) (assertion : ResolvedFieldAssertion)
    (actual : JsonValue) (path : String) (depth : Nat) :
    ev.assertField assertion actual path depth =
      ev.pushAll (fieldFailures ev.config.maxJsonDepth assertion actual path depth) := by
  match assertion with
  | ⟨_, expectedType, expectedValue, nested, _⟩ =>
    rw [assertField.eq_def, fieldFailures.eq_def]
    dsimp only
    split
    · rfl
    -- the nested assertion runs after the value check, on the report it left
    · have hnested : ∀ ev' : Evaluation, ev'.config = ev.config →
          (match nested with
            | none => ev'
            | some nested =>
              match actual.asObject with
              | none => ev'
              | some actual => ev'.assertObject nested actual path (depth + 1)) =
          ev'.pushAll (match nested with
            | none => []
            | some nested =>
              match actual.asObject with
              | none => []
              | some actual =>
                objectFailures ev.config.maxJsonDepth nested actual path (depth + 1)) := by
        intro ev' hconfig
        match nested with
        | none => rfl
        | some nested =>
          cases actual.asObject with
          | none => rfl
          | some actual =>
            dsimp only
            rw [assertObject_eq, hconfig]
      match expectedValue with
      | none => exact hnested ev rfl
      | some expected =>
        simp only [compareJson_eq, Option.isSome_some, Bool.true_and]
        refine Eq.trans ?_ (pushAll_stop _ _ _)
        exact if_congr Iff.rfl rfl (hnested _ (pushAll_config ev _))

end

theorem assertBody_eq (ev : Evaluation) (expected : Option ResolvedBodyAssertion)
    (actual : HttpResponse) :
    ev.assertBody expected actual =
      ev.pushAll (bodyFailures ev.config.maxJsonDepth expected actual) := by
  unfold assertBody bodyFailures
  split
  · rfl
  · split <;> rfl
  · cases actual.body with
    | text bytes =>
      dsimp only
      cases String.fromUTF8? bytes with
      | none => rfl
      | some text => exact assertText_eq ev _ text
    | _ => rfl
  · cases actual.body with
    | json raw value =>
      dsimp only
      cases value.value.asObject with
      | none => rfl
      | some object => exact assertObject_eq ev _ object "$" 0
    | _ => rfl

end Evaluation

/-- **A report is a prefix of the failures.** It keeps as many as the limit allows, and is
marked as truncated exactly when there are more. -/
theorem evaluate_eq (config : AssertionConfig) (expected : ResolvedResponseExpectation)
    (actual : HttpResponse) :
    (evaluate config expected actual).failures =
        (expectationFailures config.maxJsonDepth expected actual).take config.maxFailures ∧
      (evaluate config expected actual).truncated = decide (config.maxFailures <
        (expectationFailures config.maxJsonDepth expected actual).length) := by
  have h := Evaluation.pushAll_spec (Evaluation.new config)
    (expectationFailures config.maxJsonDepth expected actual)
  have hev : (Evaluation.new config).pushAll
      (expectationFailures config.maxJsonDepth expected actual) =
      (let ev := (Evaluation.new config).assertStatus expected.status actual.status
       let ev := if ev.shouldStop then ev else ev.assertHeaders expected.headers actual.headers
       if ev.shouldStop then ev else ev.assertBody expected.body actual) := by
    dsimp only
    rw [Evaluation.assertStatus_eq, Evaluation.assertHeaders_eq, Evaluation.pushAll_stop,
      Evaluation.assertBody_eq, Evaluation.pushAll_config, Evaluation.pushAll_stop]
    rfl
  rw [hev] at h
  refine ⟨h.1.trans ?_, h.2.trans ?_⟩
  · rfl
  · simp [Evaluation.new]

/-- A report is a success exactly when there is no failure at all. -/
theorem evaluate_isSuccess_iff (config : AssertionConfig)
    (expected : ResolvedResponseExpectation) (actual : HttpResponse) :
    (evaluate config expected actual).isSuccess = true ↔
      expectationFailures config.maxJsonDepth expected actual = [] := by
  have hpos := config.failures_pos
  rw [AssertionReport.isSuccess, List.isEmpty_iff, (evaluate_eq config expected actual).1,
    List.take_eq_nil_iff]
  refine ⟨?_, ?_⟩
  · rintro (h | h)
    · omega
    · exact h
  · exact Or.inr

/-- **The failure cap only truncates.** -/
theorem evaluate_cap (maxJsonDepth : Nat) (expected : ResolvedResponseExpectation)
    (actual : HttpResponse) :
    ∃ failures : List AssertionFailure,
      ∀ config : AssertionConfig, config.maxJsonDepth = maxJsonDepth →
        (failures.length < config.maxFailures →
          evaluate config expected actual = ⟨failures, false⟩) ∧
        (evaluate config expected actual).failures = failures.take config.maxFailures ∧
        ((evaluate config expected actual).truncated = true ↔
          config.maxFailures < failures.length) ∧
        ((evaluate config expected actual).isSuccess = true ↔ failures = []) := by
  refine ⟨expectationFailures maxJsonDepth expected actual, ?_⟩
  rintro config rfl
  obtain ⟨hfailures, htruncated⟩ := evaluate_eq config expected actual
  refine ⟨fun hcap => ?_, hfailures, by rw [htruncated, decide_eq_true_eq],
    evaluate_isSuccess_iff config expected actual⟩
  rw [List.take_of_length_le (Nat.le_of_lt hcap)] at hfailures
  rw [decide_eq_false (Nat.lt_asymm hcap)] at htruncated
  cases hreport : evaluate config expected actual with
  | mk report truncated =>
    rw [hreport] at hfailures htruncated
    obtain rfl : report = _ := hfailures
    obtain rfl : truncated = _ := htruncated
    rfl

end Rettp
