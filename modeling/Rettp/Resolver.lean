import Rettp.Interpolation
import Rettp.Assertion
import Rettp.ExceptRel

/-!
# The resolver

Turns the request and the expectation of a test into their resolved forms, under one variable
store. Every step works in declaration order and stops at the first error.
-/

namespace Rettp

variable [Platform]

namespace RuntimeResolver

open Interpolator

/-! ## Requests -/

/-- The entries of a map of values that stand on their own: headers, query, form fields. -/
def resolveMap (config : RuntimeConfig) (store : VariableStore) (location : ResolutionLocation)
    (entries : IndexMap String Value) : Except RuntimeError (IndexMap String ResolvedValue) := do
  return IndexMap.ofEntries (← resolveEntries config store location false entries 0)

/-- Replace the variables of a body. -/
def resolveRequestBody (config : RuntimeConfig) (store : VariableStore) :
    RequestBody → Except RuntimeError ResolvedRequestBody
  | .json value => do
    return .json (← resolveValue config store .jsonRequestBody true value 0)
  | .text value => do return .text (← interpolate config value store .textRequestBody)
  | .formData fields => do return .formData (← resolveMap config store .formField fields)
  | .binary bytes => return .binary bytes

/-- Replace the variables of a request: path, headers, query, body, in this order. -/
def resolveRequest (config : RuntimeConfig) (store : VariableStore) (request : HttpRequestSpec) :
    Except RuntimeError ResolvedHttpRequest := do
  let path ← interpolate config request.path store .requestPath
  let headers ← resolveMap config store .requestHeader request.headers
  let query ← resolveMap config store .queryParameter request.query
  let body ← match request.body with
    | some body => some <$> resolveRequestBody config store body
    | none => pure none
  return ⟨request.method, path, headers, query, body, request.timeoutMs⟩

/-! ## Expectations -/

/-- Replace the variables of a header assertion. -/
def resolveHeaderAssertion (config : RuntimeConfig) (store : VariableStore) :
    HeaderAssertion → Except RuntimeError ResolvedHeaderAssertion
  | .exists_ => return .exists_
  | .exact value => do return .exact (← interpolate config value store .expectedHeader)
  | .contains value => do return .contains (← interpolate config value store .expectedHeader)

/-- The loop over the header assertions. -/
def resolveHeaderAssertions (config : RuntimeConfig) (store : VariableStore) :
    List (String × HeaderAssertion) → Except RuntimeError (List (String × ResolvedHeaderAssertion))
  | [] => .ok []
  | (name, assertion) :: assertions => do
    let r ← resolveHeaderAssertion config store assertion
    return (name, r) :: (← resolveHeaderAssertions config store assertions)

mutual

/-- Replace the variables of an object assertion. -/
def resolveObjectAssertion (config : RuntimeConfig) (store : VariableStore) :
    ObjectAssertion → Nat → Except RuntimeError ResolvedObjectAssertion
  | ⟨mode, fields⟩, depth => do
    enterDepth config depth
    return ⟨mode, IndexMap.ofEntries (← resolveFieldAssertions config store fields (depth + 1))⟩

/-- The loop over the fields of an object assertion. -/
def resolveFieldAssertions (config : RuntimeConfig) (store : VariableStore) :
    List (String × FieldAssertion) → Nat →
    Except RuntimeError (List (String × ResolvedFieldAssertion))
  | [], _ => .ok []
  | (name, field) :: fields, depth => do
    let r ← resolveFieldAssertion config store field depth
    return (name, r) :: (← resolveFieldAssertions config store fields depth)

/-- Replace the variables of a field, in its value and in its nested fields. -/
def resolveFieldAssertion (config : RuntimeConfig) (store : VariableStore) :
    FieldAssertion → Nat → Except RuntimeError ResolvedFieldAssertion
  | ⟨fieldName, expectedType, expectedValue, nested, capture⟩, depth => do
    enterDepth config depth
    let expectedValue ← match expectedValue with
      | some value => some <$> resolveJsonValue config store .expectedJson value depth
      | none => pure none
    let nested ← match nested with
      | some assertion => some <$> resolveObjectAssertion config store assertion depth
      | none => pure none
    return ⟨fieldName, expectedType, expectedValue, nested, capture⟩

end

/-- Replace the variables of a body assertion. -/
def resolveBodyAssertion (config : RuntimeConfig) (store : VariableStore) :
    BodyAssertion → Except RuntimeError ResolvedBodyAssertion
  | .empty => return .empty
  | .text (.exact value) => do
    return .text (.exact (← interpolate config value store .expectedText))
  | .text (.contains value) => do
    return .text (.contains (← interpolate config value store .expectedText))
  | .json assertion => do return .json (← resolveObjectAssertion config store assertion 0)

/-- Replace the variables of an expectation. -/
def resolveExpectation (config : RuntimeConfig) (store : VariableStore)
    (expectation : ResponseExpectation) : Except RuntimeError ResolvedResponseExpectation := do
  let headers := IndexMap.ofEntries
    (← resolveHeaderAssertions config store expectation.headers)
  let body ← match expectation.body with
    | some body => some <$> resolveBodyAssertion config store body
    | none => pure none
  return ⟨expectation.status, headers, body⟩

/-! ## Resolved assertions -/

/-- An object assertion is resolved field by field. -/
theorem resolveObjectAssertion_ok {config : RuntimeConfig} {store : VariableStore}
    {mode : ObjectMatchMode} {fields : List (String × FieldAssertion)} {depth : Nat}
    {resolved : ResolvedObjectAssertion}
    (h : resolveObjectAssertion config store ⟨mode, fields⟩ depth = .ok resolved) :
    ∃ fields', resolveFieldAssertions config store fields (depth + 1) = .ok fields' ∧
      resolved = ⟨mode, IndexMap.ofEntries fields'⟩ := by
  rw [resolveObjectAssertion] at h
  obtain ⟨-, -, h⟩ := Except.bind_eq_ok.mp h
  obtain ⟨fields', hfields, h⟩ := Except.bind_eq_ok.mp h
  exact ⟨fields', hfields, (Except.ok.inj h).symm⟩

/-- A resolved field keeps its name, its type and its capture. -/
theorem resolveFieldAssertion_ok {config : RuntimeConfig} {store : VariableStore}
    {fieldName : String} {expectedType : ExpectedType} {expectedValue : Option Value}
    {nested : Option ObjectAssertion} {capture : Option Capture} {depth : Nat}
    {resolved : ResolvedFieldAssertion}
    (h : resolveFieldAssertion config store
      ⟨fieldName, expectedType, expectedValue, nested, capture⟩ depth = .ok resolved) :
    ∃ value' nested',
      Option.Rel (fun v j => resolveJsonValue config store .expectedJson v depth = .ok j)
        expectedValue value' ∧
      Option.Rel (fun a r => resolveObjectAssertion config store a depth = .ok r) nested nested' ∧
      resolved = ⟨fieldName, expectedType, value', nested', capture⟩ := by
  have hmap {α β : Type} {x : Except RuntimeError α} {f : α → β} {b : β} (h : (f <$> x) = .ok b) :
      ∃ a, x = .ok a ∧ f a = b := Except.map_eq_ok.mp h
  rw [resolveFieldAssertion.eq_def] at h
  obtain ⟨-, -, h⟩ := Except.bind_eq_ok.mp h
  cases expectedValue <;> cases nested <;>
    obtain ⟨value', hvalue, h⟩ := Except.bind_eq_ok.mp h <;>
    obtain ⟨nested', hnested, h⟩ := Except.bind_eq_ok.mp h <;>
    refine ⟨value', nested', ?_, ?_, (Except.ok.inj h).symm⟩
  all_goals first
    | (obtain ⟨a, ha, rfl⟩ := hmap hvalue; exact .some ha)
    | (obtain rfl := Except.ok.inj hvalue; exact .none)
    | (obtain ⟨a, ha, rfl⟩ := hmap hnested; exact .some ha)
    | (obtain rfl := Except.ok.inj hnested; exact .none)

/-- The fields of an assertion are resolved one by one. -/
theorem resolveFieldAssertions_rel {config : RuntimeConfig} {store : VariableStore}
    {fields : List (String × FieldAssertion)} {depth : Nat}
    {resolved : List (String × ResolvedFieldAssertion)}
    (h : resolveFieldAssertions config store fields depth = .ok resolved) :
    IndexMap.EntriesRel (fun field r => resolveFieldAssertion config store field depth = .ok r)
      fields resolved := by
  induction fields generalizing resolved with
  | nil =>
    obtain rfl := Except.ok.inj h
    exact .nil
  | cons entry fields ih =>
    obtain ⟨name, field⟩ := entry
    rw [resolveFieldAssertions] at h
    obtain ⟨r, hr, h⟩ := Except.bind_eq_ok.mp h
    obtain ⟨rs, hrs, h⟩ := Except.bind_eq_ok.mp h
    obtain rfl := Except.ok.inj h
    exact .cons ⟨rfl, hr⟩ (ih hrs)

/-- The body assertion of a resolved expectation. -/
theorem resolveExpectation_json {config : RuntimeConfig} {store : VariableStore}
    {expectation : ResponseExpectation} {assertion : ObjectAssertion}
    {resolved : ResolvedResponseExpectation}
    (h : resolveExpectation config store expectation = .ok resolved)
    (hbody : expectation.body = some (.json assertion)) :
    ∃ object, resolveObjectAssertion config store assertion 0 = .ok object ∧
      resolved.body = some (.json object) := by
  rw [resolveExpectation, hbody] at h
  obtain ⟨headers, -, h⟩ := Except.bind_eq_ok.mp h
  obtain ⟨body, hresolved, h⟩ := Except.bind_eq_ok.mp h
  obtain rfl := Except.ok.inj h
  obtain ⟨_, hjson, rfl⟩ := Except.map_eq_ok.mp hresolved
  obtain ⟨object, hobject, h⟩ := Except.bind_eq_ok.mp hjson
  obtain rfl := Except.ok.inj h
  exact ⟨object, hobject, rfl⟩

/-- A resolved body assertion stands for one of the expectation. -/
theorem resolveExpectation_of_json {config : RuntimeConfig} {store : VariableStore}
    {expectation : ResponseExpectation} {resolved : ResolvedResponseExpectation}
    (h : resolveExpectation config store expectation = .ok resolved)
    {object : ResolvedObjectAssertion} (hobject : resolved.body = some (.json object)) :
    ∃ assertion, expectation.body = some (.json assertion) ∧
      resolveObjectAssertion config store assertion 0 = .ok object := by
  rw [resolveExpectation] at h
  obtain ⟨headers, -, h⟩ := Except.bind_eq_ok.mp h
  cases hbody : expectation.body with
  | none =>
    rw [hbody] at h
    obtain ⟨body, hnone, h⟩ := Except.bind_eq_ok.mp h
    obtain rfl := Except.ok.inj h
    obtain rfl := Except.ok.inj hnone
    cases hobject
  | some given =>
    rw [hbody] at h
    obtain ⟨body, hresolved, h⟩ := Except.bind_eq_ok.mp h
    obtain rfl := Except.ok.inj h
    obtain ⟨json, hgiven, rfl⟩ := Except.map_eq_ok.mp hresolved
    obtain rfl := Option.some.inj hobject
    match given with
    | .empty => cases hgiven
    | .text (.exact value) | .text (.contains value) =>
      obtain ⟨_, -, h⟩ := Except.bind_eq_ok.mp hgiven
      cases h
    | .json assertion =>
      obtain ⟨_, hobject, h⟩ := Except.bind_eq_ok.mp hgiven
      obtain ⟨rfl⟩ := Except.ok.inj h
      exact ⟨assertion, rfl, hobject⟩

end RuntimeResolver

end Rettp
