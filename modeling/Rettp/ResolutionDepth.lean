import Rettp.Check
import Rettp.ComparisonTypes
import Rettp.ParserHeight

/-!
# The depth limit of the resolver

How deep the containers of a test are nested (`TestCase.HeightTo`), which conversion keeps. Where
the depth and the height of what is below it stay within the limit together, and no variable is an
array or an object, the resolver never meets its limit (`resolveRequest_within`,
`resolveExpectation_within`), and what it resolves is not nested deeper than what was declared
(`resolveExpectation_levels`).
-/

namespace Rettp

set_option linter.unusedSectionVars false

/-! ## Heights of a test -/

mutual

/-- How deep the containers of a value are nested. -/
def Value.height : Value → Nat
  | .array items => Value.heightItems items + 1
  | .object entries => Value.heightEntries entries + 1
  | .string _ | .integer _ | .number _ | .boolean _ | .null => 0

/-- The nesting of the items of an array. -/
def Value.heightItems : List Value → Nat
  | [] => 0
  | item :: items => max item.height (Value.heightItems items)

/-- The nesting of the entries of an object. -/
def Value.heightEntries : List (String × Value) → Nat
  | [] => 0
  | (_, v) :: entries => max v.height (Value.heightEntries entries)

end

mutual

/-- How deep the containers of an assertion are nested, with those of its values. -/
def ObjectAssertion.height : ObjectAssertion → Nat
  | ⟨_, fields⟩ => FieldAssertion.heightAll fields + 1

/-- The nesting of several fields. -/
def FieldAssertion.heightAll : List (String × FieldAssertion) → Nat
  | [] => 0
  | (_, field) :: fields => max field.height (FieldAssertion.heightAll fields)

/-- The nesting of a field: that of its value or of its nested fields. -/
def FieldAssertion.height : FieldAssertion → Nat
  | ⟨_, _, expectedValue, nested, _⟩ =>
    max (expectedValue.elim 0 Value.height) (match nested with
      | some assertion => assertion.height
      | none => 0)

end

/-- Nothing in a body is nested deeper. -/
def RequestBody.HeightTo (k : Nat) : RequestBody → Prop
  | .json value => value.height ≤ k
  | .formData fields => Value.heightEntries fields ≤ k
  | .text _ | .binary _ => True

/-- Nothing in a request is nested deeper. -/
structure HttpRequestSpec.HeightTo (k : Nat) (request : HttpRequestSpec) : Prop where
  headers : Value.heightEntries request.headers ≤ k
  query : Value.heightEntries request.query ≤ k
  body : ∀ body ∈ request.body, body.HeightTo k

/-- Nothing in an expectation is nested deeper. -/
def ResponseExpectation.HeightTo (k : Nat) (expectation : ResponseExpectation) : Prop :=
  ∀ assertion, expectation.body = some (.json assertion) → assertion.height ≤ k

/-- Nothing in a test is nested deeper. -/
structure TestCase.HeightTo (k : Nat) (test : TestCase) : Prop where
  request : test.request.HeightTo k
  expectation : test.expectation.HeightTo k

/-- The entries of an object, one by one. -/
theorem Value.heightEntries_le {entries : List (String × Value)} {k : Nat} :
    Value.heightEntries entries ≤ k ↔ ∀ entry ∈ entries, entry.2.height ≤ k := by
  induction entries with
  | nil => simp [Value.heightEntries]
  | cons entry entries ih =>
    obtain ⟨name, v⟩ := entry
    rw [Value.heightEntries, Nat.max_le, List.forall_mem_cons, ih]

/-! ## Conversion keeps heights -/

mutual

/-- Conversion keeps the nesting of a literal. -/
theorem ValueAst.toValue_height (value : ValueAst) : value.toValue.height = value.height := by
  match value with
  | .array ⟨items, span⟩ =>
    rw [ValueAst.toValue, Value.height, ValueAst.height, itemsToValues_height items]
  | .object ⟨entries, span⟩ =>
    rw [ValueAst.toValue, Value.height, ValueAst.height, ObjectValueAst.height,
      ObjectValueAst.toEntries, entriesToValues_height entries]
  | .string _ | .integer _ | .number _ | .boolean _ | .null _ =>
    rw [ValueAst.toValue, Value.height, ValueAst.height]

/-- Conversion keeps the nesting of items. -/
theorem itemsToValues_height (items : List ValueAst) :
    Value.heightItems (itemsToValues items) = heightOfItems items := by
  match items with
  | [] => rfl
  | item :: items =>
    rw [itemsToValues, Value.heightItems, heightOfItems, item.toValue_height,
      itemsToValues_height items]

/-- Conversion keeps the nesting of entries. -/
theorem entriesToValues_height (entries : List ObjectValueEntryAst) :
    Value.heightEntries (entriesToValues entries) = heightOfEntries entries := by
  match entries with
  | [] => rfl
  | ⟨key, value, span⟩ :: entries =>
    rw [entriesToValues, Value.heightEntries, heightOfEntries, value.toValue_height,
      entriesToValues_height entries]

end

mutual

/-- Conversion keeps the nesting of an object assertion. -/
theorem ObjectAssertionAst.toAssertion_height (assertion : ObjectAssertionAst) :
    assertion.toAssertion.height = assertion.height := by
  match assertion with
  | ⟨mode, fields, span⟩ =>
    rw [ObjectAssertionAst.toAssertion, ObjectAssertion.height, ObjectAssertionAst.height,
      fieldsToEntries_height fields]

/-- Conversion keeps the nesting of fields. -/
theorem fieldsToEntries_height (fields : List FieldAssertionAst) :
    FieldAssertion.heightAll (fieldsToEntries fields) = heightOfFields fields := by
  match fields with
  | [] => rfl
  | field :: fields =>
    rw [fieldsToEntries, FieldAssertion.heightAll, heightOfFields, field.toField_height,
      fieldsToEntries_height fields]

/-- Conversion keeps the nesting of a field. -/
theorem FieldAssertionAst.toField_height (field : FieldAssertionAst) :
    field.toField.height = field.height := by
  match field with
  | ⟨name, expectedType, expectedValue, nested, capture, span⟩ =>
    have hvalue : (expectedValue.map ValueAst.toValue).elim 0 Value.height =
        expectedValue.elim 0 ValueAst.height := by
      cases expectedValue with
      | none => rfl
      | some value => exact value.toValue_height
    rw [FieldAssertionAst.toField, FieldAssertion.height.eq_def, FieldAssertionAst.height]
    dsimp only
    rw [hvalue]
    match nested with
    | none => rfl
    | some nested =>
      rw [nestedToAssertion, heightOfNested]
      dsimp only
      rw [nested.toAssertion_height]

end

/-- The parts of a section are not higher than its values. -/
theorem RequestSectionAst.HeightTo.parts_height {k : Nat} {section_ : RequestSectionAst}
    (h : section_.HeightTo k) :
    (∀ entry ∈ section_.toHeaders, entry.2.height ≤ k) ∧
      (∀ entry ∈ section_.toQuery, entry.2.height ≤ k) ∧
      ∀ body ∈ section_.toBodies, body.HeightTo k := by
  cases section_ with
  | headers headers =>
    refine ⟨fun entry hentry => ?_, List.forall_mem_nil _, List.forall_mem_nil _⟩
    obtain ⟨source, hsource, rfl⟩ := List.mem_map.mp hentry
    exact source.value.toValue_height.trans_le (h _ (List.mem_map_of_mem hsource))
  | query query =>
    refine ⟨List.forall_mem_nil _, Value.heightEntries_le.mp ?_, List.forall_mem_nil _⟩
    rw [RequestSectionAst.toQuery, entriesToValues_height]
    exact heightOfEntries_le.mpr fun entry hentry => h _ (List.mem_map_of_mem hentry)
  | body body =>
    refine ⟨List.forall_mem_nil _, List.forall_mem_nil _, fun b hb => ?_⟩
    obtain ⟨⟨entries, span⟩, span'⟩ := body
    rw [List.mem_singleton.mp hb]
    exact (ValueAst.object ⟨entries, span⟩).toValue_height.trans_le
      (h _ (List.mem_singleton_self _))

/-- A request is nested no deeper than its sections. -/
theorem RequestAst.toSpec_height {k : Nat} {request : RequestAst} (h : request.HeightTo k) :
    request.toSpec.HeightTo k := by
  have hsections : ∀ section_ ∈ request.sections, section_.HeightTo k :=
    fun section_ hsection value hvalue =>
      h value (List.mem_flatMap.mpr ⟨section_, hsection, hvalue⟩)
  refine ⟨?_, ?_, ?_⟩
  · refine Value.heightEntries_le.mpr fun entry hentry => ?_
    obtain ⟨section_, hsection, hentry⟩ := List.mem_flatMap.mp hentry
    exact (hsections section_ hsection).parts_height.1 entry hentry
  · refine Value.heightEntries_le.mpr fun entry hentry => ?_
    obtain ⟨section_, hsection, hentry⟩ := List.mem_flatMap.mp hentry
    exact (hsections section_ hsection).parts_height.2.1 entry hentry
  · intro body hbody
    change ((request.sections.flatMap (·.toBodies)).getLast?.or none) = _ at hbody
    rw [Option.or_none] at hbody
    obtain ⟨section_, hsection, hbody⟩ := List.mem_flatMap.mp (List.mem_of_getLast? hbody)
    exact (hsections section_ hsection).parts_height.2.2 body hbody

/-- An expectation is nested no deeper than its sections. -/
theorem ExpectationAst.toExpectation_height {k : Nat} {expectation : ExpectationAst}
    (h : expectation.HeightTo k) : expectation.toExpectation.HeightTo k := by
  intro assertion hbody
  obtain ⟨source, hsource, rfl⟩ := ExpectationAst.assertion_of_body hbody
  exact source.toAssertion_height.trans_le (h source hsource)

/-! ## Texts and captured values -/

/-- The error is about nesting. -/
def RuntimeError.isNesting : RuntimeError → Bool
  | .nestingLimitExceeded _ => true
  | _ => false

variable [Platform] {config : RuntimeConfig} {store : VariableStore}

/-- The resolution does not fail by its nesting. -/
abbrev Shallow {α : Type} (x : Except RuntimeError α) : Prop :=
  Except.Fails (fun e => e.isNesting = false) x

namespace Interpolator

omit [Platform] in
/-- Within the limit a container is entered. -/
theorem enterDepth_within {depth : Nat} (h : depth ≤ config.maxResolutionDepth) :
    enterDepth config depth = .ok () := if_neg (Nat.not_lt.mpr h)

omit [Platform] in
/-- Adding to a text is never refused for its nesting. -/
theorem pushBounded_shallow (output fragment : List Char) (location : ResolutionLocation) :
    Shallow (pushBounded config output fragment location) := by
  unfold pushBounded
  split
  · exact .error rfl
  · exact .ok _

/-- Nor is looking up a variable. -/
theorem lookup_shallow (name : List Char) (location : ResolutionLocation) :
    Shallow (lookup config name store location) := by
  unfold lookup
  split
  · exact .error rfl
  · split
    · exact .error rfl
    · split
      · exact .error rfl
      · split
        · exact .error rfl
        · exact .ok _

/-- Nor is the loop over the placeholders of a text. -/
theorem interpolateLoop_shallow (location : ResolutionLocation) (fuel : Nat)
    (rest output : List Char) :
    Shallow (interpolateLoop config store location fuel rest output) := by
  induction fuel generalizing rest output with
  | zero => exact pushBounded_shallow _ _ _
  | succ fuel ih =>
    rw [interpolateLoop]
    split
    · exact pushBounded_shallow _ _ _
    · refine (pushBounded_shallow _ _ _).bind fun output _ => ?_
      split
      · exact .error rfl
      · refine (lookup_shallow _ _).bind fun found _ => ?_
        dsimp only
        split
        · exact .error rfl
        · exact (pushBounded_shallow _ _ _).bind fun output _ => ih _ output

/-- Nor is replacing the variables of a text. -/
theorem interpolate_shallow (input : InterpolatedString) (location : ResolutionLocation) :
    Shallow (interpolate config input store location) :=
  (interpolateLoop_shallow location _ _ _).map

/-- A placeholder alone is not refused for its nesting. -/
theorem structuredPlaceholder_shallow (input : InterpolatedString)
    (location : ResolutionLocation) :
    Shallow (structuredPlaceholder config input store location) := by
  have hexact : Shallow (exactPlaceholder config input store location) := by
    unfold exactPlaceholder
    dsimp only
    split
    · exact .ok none
    · exact (lookup_shallow _ _).map
  refine hexact.bind fun found _ => ?_
  cases found with
  | none => exact .ok _
  | some found => exact .ok _

variable (hscalar : ∀ entry ∈ store.values, entry.2.isStructured = false)

include hscalar

/-- Where every variable is scalar, no text stands for an array or an object. -/
theorem structuredPlaceholder_scalar {input : InterpolatedString} {location : ResolutionLocation}
    {stored : Option Json} (h : structuredPlaceholder config input store location = .ok stored) :
    stored = none := by
  cases stored with
  | none => rfl
  | some captured =>
    obtain ⟨name, hname⟩ := captured_of_structured h
    obtain ⟨value, hget, hstructured, -⟩ := hname.stored
    rw [hscalar _ (IndexMap.mem_of_get_eq_some hget)] at hstructured
    cases hstructured

/-! ## Values -/

variable (location : ResolutionLocation)

mutual

/-- **A value within the limit** is not refused for its nesting. -/
theorem resolveValue_within (allow : Bool) (value : Value) {depth : Nat}
    (h : depth + value.height ≤ config.maxResolutionDepth) :
    Shallow (resolveValue config store location allow value depth) := by
  rw [resolveValue.eq_def, enterDepth_within (Nat.le_of_add_right_le h), Except.ok_bind]
  match value with
  | .string input =>
    have htext : Shallow (do
        return ResolvedValue.string (← interpolate config input store location)) :=
      (interpolate_shallow input location).bind fun _ _ => .ok _
    cases allow with
    | true =>
      refine (structuredPlaceholder_shallow input location).bind fun stored hstored => ?_
      obtain rfl := structuredPlaceholder_scalar hscalar hstored
      exact htext
    | false => exact htext
  | .number x =>
    dsimp only
    split
    · exact .ok _
    · exact .error rfl
  | .integer _ | .boolean _ | .null => exact .ok _
  | .array items =>
    rw [Value.height] at h
    exact (resolveItems_within allow items (by omega)).bind fun _ _ => .ok _
  | .object entries =>
    rw [Value.height] at h
    exact (resolveEntries_within allow entries (by omega)).bind fun _ _ => .ok _

/-- Items within the limit are not refused for their nesting. -/
theorem resolveItems_within (allow : Bool) (items : List Value) {depth : Nat}
    (h : depth + Value.heightItems items ≤ config.maxResolutionDepth) :
    Shallow (resolveItems config store location allow items depth) := by
  match items with
  | [] => exact .ok _
  | item :: items =>
    rw [Value.heightItems] at h
    rw [resolveItems]
    exact (resolveValue_within allow item (by omega)).bind fun _ _ =>
      (resolveItems_within allow items (by omega)).bind fun _ _ => .ok _

/-- Entries within the limit are not refused for their nesting. -/
theorem resolveEntries_within (allow : Bool) (entries : List (String × Value)) {depth : Nat}
    (h : depth + Value.heightEntries entries ≤ config.maxResolutionDepth) :
    Shallow (resolveEntries config store location allow entries depth) := by
  match entries with
  | [] => exact .ok _
  | (name, v) :: entries =>
    rw [Value.heightEntries] at h
    rw [resolveEntries]
    exact (resolveValue_within allow v (by omega)).bind fun _ _ =>
      (resolveEntries_within allow entries (by omega)).bind fun _ _ => .ok _

end

mutual

/-- A value within the limit is not refused as JSON either. -/
theorem resolveJsonValue_within (value : Value) {depth : Nat}
    (h : depth + value.height ≤ config.maxResolutionDepth) :
    Shallow (resolveJsonValue config store location value depth) := by
  rw [resolveJsonValue.eq_def, enterDepth_within (Nat.le_of_add_right_le h), Except.ok_bind]
  match value with
  | .string input =>
    refine (structuredPlaceholder_shallow input location).bind fun stored hstored => ?_
    obtain rfl := structuredPlaceholder_scalar hscalar hstored
    exact (interpolate_shallow input location).bind fun _ _ => .ok _
  | .number x =>
    dsimp only
    split
    · exact .ok _
    · exact .error rfl
  | .integer _ | .boolean _ | .null => exact .ok _
  | .array items =>
    rw [Value.height] at h
    exact (resolveJsonItems_within items (by omega)).bind fun _ _ => .ok _
  | .object entries =>
    rw [Value.height] at h
    exact (resolveJsonEntries_within entries (by omega)).bind fun _ _ => .ok _

/-- Nor are items. -/
theorem resolveJsonItems_within (items : List Value) {depth : Nat}
    (h : depth + Value.heightItems items ≤ config.maxResolutionDepth) :
    Shallow (resolveJsonItems config store location items depth) := by
  match items with
  | [] => exact .ok _
  | item :: items =>
    rw [Value.heightItems] at h
    rw [resolveJsonItems]
    exact (resolveJsonValue_within item (by omega)).bind fun _ _ =>
      (resolveJsonItems_within items (by omega)).bind fun _ _ => .ok _

/-- Nor are entries. -/
theorem resolveJsonEntries_within (entries : List (String × Value)) {depth : Nat}
    (h : depth + Value.heightEntries entries ≤ config.maxResolutionDepth) :
    Shallow (resolveJsonEntries config store location entries depth) := by
  match entries with
  | [] => exact .ok _
  | (name, v) :: entries =>
    rw [Value.heightEntries] at h
    rw [resolveJsonEntries]
    exact (resolveJsonValue_within v (by omega)).bind fun _ _ =>
      (resolveJsonEntries_within entries (by omega)).bind fun _ _ => .ok _

end

/-! ## Resolved values -/

omit [Platform] hscalar in
/-- The entries of an object, one by one. -/
theorem levelsEntries_le {entries : List (String × JsonValue)} {k : Nat} :
    JsonValue.levelsEntries entries ≤ k ↔ ∀ entry ∈ entries, entry.2.levels ≤ k := by
  induction entries with
  | nil => simp [JsonValue.levelsEntries]
  | cons entry entries ih =>
    obtain ⟨name, v⟩ := entry
    rw [JsonValue.levelsEntries, Nat.max_le, List.forall_mem_cons, ih]

mutual

/-- A resolved value has the containers of the declared one. -/
theorem resolveJsonValue_levels (value : Value) {depth : Nat} {resolved : JsonValue}
    (h : resolveJsonValue config store location value depth = .ok resolved) :
    resolved.levels ≤ value.height := by
  rw [resolveJsonValue.eq_def] at h
  obtain ⟨-, -, h⟩ := Except.bind_eq_ok.mp h
  match value with
  | .string input =>
    obtain ⟨stored, hstored, h⟩ := Except.bind_eq_ok.mp h
    obtain rfl := structuredPlaceholder_scalar hscalar hstored
    obtain ⟨text, -, h⟩ := Except.bind_eq_ok.mp h
    obtain rfl := Except.ok.inj h
    exact Nat.zero_le _
  | .number x =>
    dsimp only at h
    split at h
    · obtain rfl := Except.ok.inj h
      exact Nat.zero_le _
    · cases h
  | .integer _ | .boolean _ | .null =>
    obtain rfl := Except.ok.inj h
    exact Nat.zero_le _
  | .array items =>
    obtain ⟨resolved, hitems, h⟩ := Except.bind_eq_ok.mp h
    obtain rfl := Except.ok.inj h
    rw [JsonValue.levels, Value.height, Nat.add_comm]
    exact Nat.succ_le_succ (resolveJsonItems_levels items hitems)
  | .object entries =>
    obtain ⟨resolved, hentries, h⟩ := Except.bind_eq_ok.mp h
    obtain rfl := Except.ok.inj h
    rw [JsonValue.levels, Value.height, Nat.add_comm]
    refine Nat.succ_le_succ (levelsEntries_le.mpr fun entry hentry => ?_)
    exact levelsEntries_le.mp (resolveJsonEntries_levels entries hentries) entry
      (SortedMap.mem_of_mem_ofEntries hentry)

/-- Resolved items are nested no deeper than they were. -/
theorem resolveJsonItems_levels (items : List Value) {depth : Nat} {resolved : List JsonValue}
    (h : resolveJsonItems config store location items depth = .ok resolved) :
    JsonValue.levelsItems resolved ≤ Value.heightItems items := by
  match items with
  | [] =>
    obtain rfl := Except.ok.inj h
    exact Nat.le_refl 0
  | item :: items =>
    rw [resolveJsonItems] at h
    obtain ⟨first, hfirst, h⟩ := Except.bind_eq_ok.mp h
    obtain ⟨rest, hrest, h⟩ := Except.bind_eq_ok.mp h
    obtain rfl := Except.ok.inj h
    exact max_le_max (resolveJsonValue_levels item hfirst) (resolveJsonItems_levels items hrest)

/-- Resolved entries are nested no deeper than they were. -/
theorem resolveJsonEntries_levels (entries : List (String × Value)) {depth : Nat}
    {resolved : List (String × JsonValue)}
    (h : resolveJsonEntries config store location entries depth = .ok resolved) :
    JsonValue.levelsEntries resolved ≤ Value.heightEntries entries := by
  match entries with
  | [] =>
    obtain rfl := Except.ok.inj h
    exact Nat.le_refl 0
  | (name, v) :: entries =>
    rw [resolveJsonEntries] at h
    obtain ⟨first, hfirst, h⟩ := Except.bind_eq_ok.mp h
    obtain ⟨rest, hrest, h⟩ := Except.bind_eq_ok.mp h
    obtain rfl := Except.ok.inj h
    exact max_le_max (resolveJsonValue_levels v hfirst) (resolveJsonEntries_levels entries hrest)

end

end Interpolator

/-! ## Requests -/

namespace RuntimeResolver

open Interpolator

variable (hscalar : ∀ entry ∈ store.values, entry.2.isStructured = false)

include hscalar

/-- Headers and query parameters within the limit are not refused for their nesting. -/
theorem resolveMap_within {entries : IndexMap String Value}
    (h : Value.heightEntries entries ≤ config.maxResolutionDepth) (location : ResolutionLocation) :
    Shallow (resolveMap config store location entries) :=
  (resolveEntries_within hscalar location false entries (by rwa [Nat.zero_add])).bind
    fun _ _ => .ok _

/-- A body within the limit is not refused for its nesting. -/
theorem resolveRequestBody_within {body : RequestBody}
    (h : body.HeightTo config.maxResolutionDepth) :
    Shallow (resolveRequestBody config store body) := by
  cases body with
  | json value =>
    exact (resolveValue_within hscalar _ true value (by rwa [Nat.zero_add])).bind fun _ _ => .ok _
  | text value => exact (interpolate_shallow _ _).bind fun _ _ => .ok _
  | formData fields => exact (resolveMap_within hscalar h _).bind fun _ _ => .ok _
  | binary bytes => exact .ok _

/-- **A request within the limit** never meets it. -/
theorem resolveRequest_within {request : HttpRequestSpec}
    (h : request.HeightTo config.maxResolutionDepth) :
    Shallow (resolveRequest config store request) := by
  unfold resolveRequest
  refine (interpolate_shallow _ _).bind fun _ _ => ?_
  refine (resolveMap_within hscalar h.headers _).bind fun _ _ => ?_
  refine (resolveMap_within hscalar h.query _).bind fun _ _ => ?_
  cases hbody : request.body with
  | none => exact .ok _
  | some body => exact (resolveRequestBody_within hscalar (h.body body hbody)).map.bind fun _ _ => .ok _

/-! ## Expectations -/

omit hscalar in
/-- Header assertions are not refused for their nesting. -/
theorem resolveHeaderAssertions_shallow (assertions : List (String × HeaderAssertion)) :
    Shallow (resolveHeaderAssertions config store assertions) := by
  induction assertions with
  | nil => exact .ok _
  | cons entry assertions ih =>
    obtain ⟨name, assertion⟩ := entry
    have hfirst : Shallow (resolveHeaderAssertion config store assertion) := by
      cases assertion with
      | exists_ => exact .ok _
      | exact expected | contains expected =>
        exact (interpolate_shallow _ _).bind fun _ _ => .ok _
    rw [resolveHeaderAssertions]
    exact hfirst.bind fun _ _ => ih.bind fun _ _ => .ok _

mutual

/-- **An object assertion within the limit** is not refused for its nesting. -/
theorem resolveObjectAssertion_within (assertion : ObjectAssertion) {depth : Nat}
    (h : depth + assertion.height ≤ config.maxResolutionDepth) :
    Shallow (resolveObjectAssertion config store assertion depth) := by
  match assertion with
  | ⟨mode, fields⟩ =>
    rw [ObjectAssertion.height] at h
    rw [resolveObjectAssertion, enterDepth_within (by omega), Except.ok_bind]
    exact (resolveFieldAssertions_within fields (by omega)).bind fun _ _ => .ok _

/-- Fields within the limit are not refused for their nesting. -/
theorem resolveFieldAssertions_within (fields : List (String × FieldAssertion)) {depth : Nat}
    (h : depth + FieldAssertion.heightAll fields ≤ config.maxResolutionDepth) :
    Shallow (resolveFieldAssertions config store fields depth) := by
  match fields with
  | [] => exact .ok _
  | (name, field) :: fields =>
    rw [FieldAssertion.heightAll] at h
    rw [resolveFieldAssertions]
    exact (resolveFieldAssertion_within field (by omega)).bind fun _ _ =>
      (resolveFieldAssertions_within fields (by omega)).bind fun _ _ => .ok _

/-- A field within the limit is not refused for its nesting. -/
theorem resolveFieldAssertion_within (field : FieldAssertion) {depth : Nat}
    (h : depth + field.height ≤ config.maxResolutionDepth) :
    Shallow (resolveFieldAssertion config store field depth) := by
  match field with
  | ⟨fieldName, expectedType, expectedValue, nested, capture⟩ =>
    rw [FieldAssertion.height.eq_def] at h
    rw [resolveFieldAssertion.eq_def]
    dsimp only at h ⊢
    rw [enterDepth_within (Nat.le_of_add_right_le h), Except.ok_bind]
    have hbelow (value : Option JsonValue) : Shallow (do
        let nested ← match nested with
          | some assertion => some <$> resolveObjectAssertion config store assertion depth
          | none => pure none
        return (⟨fieldName, expectedType, value, nested, capture⟩ : ResolvedFieldAssertion)) := by
      match nested with
      | none => exact .ok _
      | some assertion =>
        dsimp only at h
        exact (resolveObjectAssertion_within assertion (by omega)).map.bind fun _ _ => .ok _
    match expectedValue with
    | none => exact hbelow none
    | some value =>
      rw [Option.elim_some] at h
      have hvalue : Shallow (resolveJsonValue config store .expectedJson value depth) :=
        resolveJsonValue_within hscalar _ value (by omega)
      exact hvalue.map.bind fun value _ => hbelow value

end

/-- **An expectation within the limit** never meets it. -/
theorem resolveExpectation_within {expectation : ResponseExpectation}
    (h : expectation.HeightTo config.maxResolutionDepth) :
    Shallow (resolveExpectation config store expectation) := by
  unfold resolveExpectation
  refine (resolveHeaderAssertions_shallow _).bind fun _ _ => ?_
  have hbody : ∀ body, expectation.body = some body →
      Shallow (resolveBodyAssertion config store body) := by
    intro body hbody
    match body with
    | .empty => exact .ok _
    | .text (.exact value) => exact (interpolate_shallow _ _).bind fun _ _ => .ok _
    | .text (.contains value) => exact (interpolate_shallow _ _).bind fun _ _ => .ok _
    | .json assertion =>
      have hassertion := h assertion hbody
      exact (resolveObjectAssertion_within hscalar assertion (by rwa [Nat.zero_add])).bind
        fun _ _ => .ok _
  match hgiven : expectation.body with
  | none => exact .ok _
  | some body => exact (hbody body hgiven).map.bind fun _ _ => .ok _

/-! ## Resolved assertions -/

omit [Platform] hscalar in
/-- Fields, one by one. -/
theorem levelsAll_le {fields : List (String × ResolvedFieldAssertion)} {k : Nat} :
    ResolvedFieldAssertion.levelsAll fields ≤ k ↔ ∀ entry ∈ fields, entry.2.levels ≤ k := by
  induction fields with
  | nil => simp [ResolvedFieldAssertion.levelsAll]
  | cons entry fields ih =>
    obtain ⟨name, field⟩ := entry
    rw [ResolvedFieldAssertion.levelsAll, Nat.max_le, List.forall_mem_cons, ih]

mutual

/-- A resolved object assertion is nested no deeper than it was. -/
theorem resolveObjectAssertion_levels (assertion : ObjectAssertion) {depth : Nat}
    {resolved : ResolvedObjectAssertion}
    (h : resolveObjectAssertion config store assertion depth = .ok resolved) :
    resolved.levels ≤ assertion.height := by
  match assertion with
  | ⟨mode, fields⟩ =>
    obtain ⟨entries, hentries, rfl⟩ := resolveObjectAssertion_ok h
    rw [ResolvedObjectAssertion.levels, ObjectAssertion.height, Nat.add_comm]
    refine Nat.succ_le_succ (levelsAll_le.mpr fun entry hentry => ?_)
    exact levelsAll_le.mp (resolveFieldAssertions_levels fields hentries) entry
      (IndexMap.mem_of_mem_ofEntries hentry)

/-- Resolved fields are nested no deeper than they were. -/
theorem resolveFieldAssertions_levels (fields : List (String × FieldAssertion)) {depth : Nat}
    {resolved : List (String × ResolvedFieldAssertion)}
    (h : resolveFieldAssertions config store fields depth = .ok resolved) :
    ResolvedFieldAssertion.levelsAll resolved ≤ FieldAssertion.heightAll fields := by
  match fields with
  | [] =>
    obtain rfl := Except.ok.inj h
    exact Nat.le_refl 0
  | (name, field) :: fields =>
    rw [resolveFieldAssertions] at h
    obtain ⟨first, hfirst, h⟩ := Except.bind_eq_ok.mp h
    obtain ⟨rest, hrest, h⟩ := Except.bind_eq_ok.mp h
    obtain rfl := Except.ok.inj h
    exact max_le_max (resolveFieldAssertion_levels field hfirst)
      (resolveFieldAssertions_levels fields hrest)

/-- A resolved field is nested no deeper than it was. -/
theorem resolveFieldAssertion_levels (field : FieldAssertion) {depth : Nat}
    {resolved : ResolvedFieldAssertion}
    (h : resolveFieldAssertion config store field depth = .ok resolved) :
    resolved.levels ≤ field.height := by
  match field with
  | ⟨fieldName, expectedType, expectedValue, nested, capture⟩ =>
    obtain ⟨value', nested', hvalue, hnested, rfl⟩ := resolveFieldAssertion_ok h
    rw [ResolvedFieldAssertion.levels.eq_def, FieldAssertion.height.eq_def]
    refine max_le_max ?_ ?_
    · cases hvalue with
      | none => exact Nat.le_refl 0
      | some hvalue => exact resolveJsonValue_levels hscalar _ _ hvalue
    · match nested, nested', hnested with
      | none, none, _ => exact Nat.le_refl 0
      | some nested, some nested', .some hobject => exact resolveObjectAssertion_levels nested hobject

end

/-- **A resolved expectation** has the containers of the declared one. -/
theorem resolveExpectation_levels {expectation : ResponseExpectation} {k : Nat}
    (hheight : expectation.HeightTo k) {resolved : ResolvedResponseExpectation}
    (h : resolveExpectation config store expectation = .ok resolved)
    {object : ResolvedObjectAssertion} (hobject : resolved.body = some (.json object)) :
    object.levels ≤ k := by
  obtain ⟨assertion, hbody, hresolve⟩ := resolveExpectation_of_json h hobject
  exact (resolveObjectAssertion_levels hscalar assertion hresolve).trans (hheight assertion hbody)

end RuntimeResolver

end Rettp
