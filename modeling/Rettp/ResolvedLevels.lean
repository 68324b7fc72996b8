import Rettp.ResolutionDepth
import Rettp.ResolveAgree

/-!
# The levels of what is resolved

Whatever the variables hold, a captured array or object included: what resolution does not refuse
has no more container levels than its limit allows (`resolveExpectation_coveredBy`).
-/

namespace Rettp

namespace Interpolator

section Clone

variable {config : RuntimeConfig}

/-- A value at a depth that is entered, of containers that stand one level deeper. -/
theorem levels_below {depth levels : Nat} (hdepth : enterDepth config depth = .ok ())
    (h : levels ≤ config.maxResolutionDepth + 1 - (depth + 1)) :
    1 + levels ≤ config.maxResolutionDepth + 1 - depth := by
  rw [enterDepth_eq_ok_iff] at hdepth
  omega

mutual

/-- A captured value that is copied into an expectation. -/
theorem cloneJsonBounded_levels (value : JsonValue) {depth : Nat} {copy : JsonValue}
    (h : cloneJsonBounded config value depth = .ok copy) :
    copy.levels ≤ config.maxResolutionDepth + 1 - depth := by
  rw [cloneJsonBounded.eq_def] at h
  obtain ⟨⟨⟩, hdepth, h⟩ := Except.bind_eq_ok.mp h
  match value with
  | .null | .bool _ | .number _ | .string _ =>
    obtain rfl := Except.ok.inj h
    exact Nat.zero_le _
  | .array items =>
    obtain ⟨copies, hitems, h⟩ := Except.bind_eq_ok.mp h
    obtain rfl := Except.ok.inj h
    exact levels_below hdepth (cloneJsonBoundedItems_levels items hitems)
  | .object entries =>
    obtain ⟨copies, hentries, h⟩ := Except.bind_eq_ok.mp h
    obtain rfl := Except.ok.inj h
    exact levels_below hdepth (levelsEntries_le.mpr fun entry hentry =>
      levelsEntries_le.mp (cloneJsonBoundedEntries_levels entries hentries) entry
        (SortedMap.mem_of_mem_ofEntries hentry))

theorem cloneJsonBoundedItems_levels (items : List JsonValue) {depth : Nat}
    {copies : List JsonValue} (h : cloneJsonBoundedItems config items depth = .ok copies) :
    JsonValue.levelsItems copies ≤ config.maxResolutionDepth + 1 - depth := by
  match items with
  | [] =>
    obtain rfl := Except.ok.inj h
    exact Nat.zero_le _
  | item :: items =>
    rw [cloneJsonBoundedItems] at h
    obtain ⟨first, hfirst, h⟩ := Except.bind_eq_ok.mp h
    obtain ⟨rest, hrest, h⟩ := Except.bind_eq_ok.mp h
    obtain rfl := Except.ok.inj h
    exact max_le (cloneJsonBounded_levels item hfirst) (cloneJsonBoundedItems_levels items hrest)

theorem cloneJsonBoundedEntries_levels (entries : List (String × JsonValue)) {depth : Nat}
    {copies : List (String × JsonValue)}
    (h : cloneJsonBoundedEntries config entries depth = .ok copies) :
    JsonValue.levelsEntries copies ≤ config.maxResolutionDepth + 1 - depth := by
  match entries with
  | [] =>
    obtain rfl := Except.ok.inj h
    exact Nat.zero_le _
  | (name, v) :: entries =>
    rw [cloneJsonBoundedEntries] at h
    obtain ⟨first, hfirst, h⟩ := Except.bind_eq_ok.mp h
    obtain ⟨rest, hrest, h⟩ := Except.bind_eq_ok.mp h
    obtain rfl := Except.ok.inj h
    exact max_le (cloneJsonBounded_levels v hfirst) (cloneJsonBoundedEntries_levels entries hrest)

end

end Clone

variable [Platform] {config : RuntimeConfig} {store : VariableStore}

mutual

/-- **Expected values.** -/
theorem resolveJsonValue_levels_le (location : ResolutionLocation) (value : Value) {depth : Nat}
    {resolved : JsonValue} (h : resolveJsonValue config store location value depth = .ok resolved) :
    resolved.levels ≤ config.maxResolutionDepth + 1 - depth := by
  rw [resolveJsonValue.eq_def] at h
  obtain ⟨⟨⟩, hdepth, h⟩ := Except.bind_eq_ok.mp h
  match value with
  | .string input =>
    obtain ⟨stored, -, h⟩ := Except.bind_eq_ok.mp h
    cases stored with
    | some json => exact cloneJsonBounded_levels json.value h
    | none =>
      obtain ⟨text, -, h⟩ := Except.bind_eq_ok.mp h
      obtain rfl := Except.ok.inj h
      exact Nat.zero_le _
  | .number x =>
    dsimp only at h
    split at h
    · obtain rfl := Except.ok.inj h
      exact Nat.zero_le _
    · cases h
  | .integer _ | .boolean _ | .null =>
    obtain rfl := Except.ok.inj h
    exact Nat.zero_le _
  | .array items =>
    obtain ⟨resolved, hitems, h⟩ := Except.bind_eq_ok.mp h
    obtain rfl := Except.ok.inj h
    exact levels_below hdepth (resolveJsonItems_levels_le location items hitems)
  | .object entries =>
    obtain ⟨resolved, hentries, h⟩ := Except.bind_eq_ok.mp h
    obtain rfl := Except.ok.inj h
    exact levels_below hdepth (levelsEntries_le.mpr fun entry hentry =>
      levelsEntries_le.mp (resolveJsonEntries_levels_le location entries hentries)
        entry (SortedMap.mem_of_mem_ofEntries hentry))

theorem resolveJsonItems_levels_le (location : ResolutionLocation) (items : List Value)
    {depth : Nat} {resolved : List JsonValue}
    (h : resolveJsonItems config store location items depth = .ok resolved) :
    JsonValue.levelsItems resolved ≤ config.maxResolutionDepth + 1 - depth := by
  match items with
  | [] =>
    obtain rfl := Except.ok.inj h
    exact Nat.zero_le _
  | item :: items =>
    rw [resolveJsonItems] at h
    obtain ⟨first, hfirst, h⟩ := Except.bind_eq_ok.mp h
    obtain ⟨rest, hrest, h⟩ := Except.bind_eq_ok.mp h
    obtain rfl := Except.ok.inj h
    exact max_le (resolveJsonValue_levels_le location item hfirst)
      (resolveJsonItems_levels_le location items hrest)

theorem resolveJsonEntries_levels_le (location : ResolutionLocation)
    (entries : List (String × Value)) {depth : Nat} {resolved : List (String × JsonValue)}
    (h : resolveJsonEntries config store location entries depth = .ok resolved) :
    JsonValue.levelsEntries resolved ≤ config.maxResolutionDepth + 1 - depth := by
  match entries with
  | [] =>
    obtain rfl := Except.ok.inj h
    exact Nat.zero_le _
  | (name, v) :: entries =>
    rw [resolveJsonEntries] at h
    obtain ⟨first, hfirst, h⟩ := Except.bind_eq_ok.mp h
    obtain ⟨rest, hrest, h⟩ := Except.bind_eq_ok.mp h
    obtain rfl := Except.ok.inj h
    exact max_le (resolveJsonValue_levels_le location v hfirst)
      (resolveJsonEntries_levels_le location entries hrest)

end

end Interpolator

namespace RuntimeResolver

open Interpolator

variable [Platform] {config : RuntimeConfig} {store : VariableStore}

mutual

theorem resolveObjectAssertion_levels_le (assertion : ObjectAssertion) {depth : Nat}
    {resolved : ResolvedObjectAssertion}
    (h : resolveObjectAssertion config store assertion depth = .ok resolved) :
    resolved.levels ≤ config.maxResolutionDepth + 1 - depth := by
  match assertion with
  | ⟨mode, fields⟩ =>
    rw [resolveObjectAssertion] at h
    obtain ⟨⟨⟩, hdepth, h⟩ := Except.bind_eq_ok.mp h
    obtain ⟨entries, hentries, h⟩ := Except.bind_eq_ok.mp h
    obtain rfl := Except.ok.inj h
    exact levels_below hdepth (levelsAll_le.mpr fun entry hentry =>
      levelsAll_le.mp (resolveFieldAssertions_levels_le fields hentries) entry
        (IndexMap.mem_of_mem_ofEntries hentry))

theorem resolveFieldAssertions_levels_le (fields : List (String × FieldAssertion)) {depth : Nat}
    {resolved : List (String × ResolvedFieldAssertion)}
    (h : resolveFieldAssertions config store fields depth = .ok resolved) :
    ResolvedFieldAssertion.levelsAll resolved ≤ config.maxResolutionDepth + 1 - depth := by
  match fields with
  | [] =>
    obtain rfl := Except.ok.inj h
    exact Nat.zero_le _
  | (name, field) :: fields =>
    rw [resolveFieldAssertions] at h
    obtain ⟨first, hfirst, h⟩ := Except.bind_eq_ok.mp h
    obtain ⟨rest, hrest, h⟩ := Except.bind_eq_ok.mp h
    obtain rfl := Except.ok.inj h
    exact max_le (resolveFieldAssertion_levels_le field hfirst)
      (resolveFieldAssertions_levels_le fields hrest)

theorem resolveFieldAssertion_levels_le (field : FieldAssertion) {depth : Nat}
    {resolved : ResolvedFieldAssertion}
    (h : resolveFieldAssertion config store field depth = .ok resolved) :
    resolved.levels ≤ config.maxResolutionDepth + 1 - depth := by
  match field with
  | ⟨fieldName, expectedType, expectedValue, nested, capture⟩ =>
    obtain ⟨value', nested', hvalue, hnested, rfl⟩ := resolveFieldAssertion_ok h
    rw [ResolvedFieldAssertion.levels.eq_def]
    refine max_le ?_ ?_
    · cases hvalue with
      | none => exact Nat.zero_le _
      | some hvalue => exact resolveJsonValue_levels_le _ _ hvalue
    · match nested, nested', hnested with
      | none, none, _ => exact Nat.zero_le _
      | some nested, some nested', .some hobject =>
        exact resolveObjectAssertion_levels_le nested hobject

end

/-- **A resolved expectation** is covered by the limit it was resolved under. -/
theorem resolveExpectation_coveredBy {expectation : ResponseExpectation}
    {resolved : ResolvedResponseExpectation}
    (h : resolveExpectation config store expectation = .ok resolved) {limit : Nat}
    (hlimit : config.maxResolutionDepth ≤ limit) : resolved.CoveredBy limit := by
  intro object hobject
  obtain ⟨assertion, -, hresolve⟩ := resolveExpectation_of_json h hobject
  have hlevels := resolveObjectAssertion_levels_le assertion hresolve
  omega

end RuntimeResolver

end Rettp
