import Rettp.CheckedTests
import Rettp.Expansion
import Rettp.Placeholder
import Rettp.Resolver

/-!
# Resolution of checked tests

Resolving a checked test under variables that include its scope can only fail by the size, the
nesting or the type of a value (`resolveRequest_fails`, `resolveExpectation_fails`). What the
checker has ruled out does not come back: no placeholder is empty or open, no name is invalid or
undefined, no number is infinite.
-/

namespace Rettp

set_option linter.unusedSectionVars false

namespace RuntimeError

/-- An error about the size, the nesting or the type of a value. -/
def OfValue : RuntimeError → Prop
  | .unsupportedInterpolationType _ _ _ | .interpolatedValueTooLarge _ _
  | .nestingLimitExceeded _ => True
  | .emptyPlaceholder _ | .unterminatedPlaceholder _ | .invalidVariableName _ _
  | .undefinedVariable _ _ | .nonFiniteNumber | .invalidCaptureBody | .missingCaptureField _
  | .invalidNestedCaptureField _ _ | .duplicateVariable _ => False

end RuntimeError

/-- The placeholder of a text that is nothing else. -/
theorem Template.whole {name : List Char} {names : List (List Char)} (hclosed : '}' ∉ name)
    (h : Template ('$' :: '{' :: (name ++ ['}'])) names) : name ≠ [] ∧ name ∈ names := by
  generalize hs : '$' :: '{' :: (name ++ ['}']) = s at h
  have hfirst : splitAtStr ['$', '{'] s = some ([], '$' :: '{' :: (name ++ ['}'])) := by
    rw [← hs]
    rfl
  cases h with
  | text h =>
    rw [splitAtStr_eq_none_iff.mpr h] at hfirst
    cases hfirst
  | @placeholder before name' rest names hbefore hname hclosed' _ =>
    rw [splitAtStr_first hbefore] at hfirst
    obtain ⟨rfl, hinner⟩ := Prod.mk.inj (Option.some.inj hfirst)
    have hclose := congrArg (splitAtChar '}') (List.cons.inj (List.cons.inj hinner).2).2
    rw [splitAtChar_first hclosed', splitAtChar_first hclosed] at hclose
    obtain ⟨rfl, -⟩ := Prod.mk.inj (Option.some.inj hclose)
    exact ⟨hname, List.mem_cons_self⟩

namespace Interpolator

open Except (Fails)

section Captured

variable {config : RuntimeConfig}

/-! ## Captured values -/

theorem enterDepth_fails (depth : Nat) : Fails RuntimeError.OfValue (enterDepth config depth) := by
  unfold enterDepth
  split
  · exact .error trivial
  · exact .ok _

theorem pushBounded_fails (output fragment : List Char) (location : ResolutionLocation) :
    Fails RuntimeError.OfValue (pushBounded config output fragment location) := by
  unfold pushBounded
  split
  · exact .error trivial
  · exact .ok _

mutual

/-- Copying a captured value fails by its nesting alone. -/
theorem jsonToResolved_fails (value : JsonValue) (depth : Nat) :
    Fails RuntimeError.OfValue (jsonToResolved config value depth) := by
  rw [jsonToResolved.eq_def]
  refine (enterDepth_fails depth).bind fun _ _ => ?_
  match value with
  | .null | .bool _ | .string _ => exact .ok _
  | .number n =>
    dsimp only
    split
    · exact .ok _
    · split <;> exact .ok _
  | .array items => exact (jsonToResolvedItems_fails items (depth + 1)).bind fun _ _ => .ok _
  | .object entries => exact (jsonToResolvedEntries_fails entries (depth + 1)).bind fun _ _ => .ok _

theorem jsonToResolvedItems_fails (items : List JsonValue) (depth : Nat) :
    Fails RuntimeError.OfValue (jsonToResolvedItems config items depth) := by
  match items with
  | [] => exact .ok _
  | v :: vs =>
    rw [jsonToResolvedItems]
    exact (jsonToResolved_fails v depth).bind fun _ _ =>
      (jsonToResolvedItems_fails vs depth).bind fun _ _ => .ok _

theorem jsonToResolvedEntries_fails (entries : List (String × JsonValue)) (depth : Nat) :
    Fails RuntimeError.OfValue (jsonToResolvedEntries config entries depth) := by
  match entries with
  | [] => exact .ok _
  | (name, v) :: es =>
    rw [jsonToResolvedEntries]
    exact (jsonToResolved_fails v depth).bind fun _ _ =>
      (jsonToResolvedEntries_fails es depth).bind fun _ _ => .ok _

end

theorem cloneJsonBounded_fails (value : Json) (depth : Nat) :
    Fails RuntimeError.OfValue (cloneJsonBounded config value.value depth) := by
  rw [cloneJsonBounded_eq config value.value value.sorted]
  split
  · exact .ok _
  · exact .error trivial

end Captured

variable [Platform] {config : RuntimeConfig} {store : VariableStore} {scope : Finset VariableName}
  (hscope : ∀ name ∈ scope, name ∈ store.names)

include hscope

/-! ## Texts -/

/-- A visible variable is found. -/
theorem lookup_fails {name : List Char} (hname : name ≠ [])
    (hvisible : NameRule scope (String.ofList name)) (location : ResolutionLocation) :
    Fails RuntimeError.OfValue (lookup config name store location) := by
  obtain ⟨variable_, hvariable, hnew⟩ := hvisible
  unfold lookup
  rw [if_neg (by simpa using hname)]
  split
  · exact .error trivial
  · rw [hnew]
    dsimp only
    cases hget : store.get variable_ with
    | none => exact absurd (hscope variable_ hvariable) (VariableStore.get_eq_none_iff.mp hget)
    | some value => exact .ok _

/-- **A well-formed text that names visible variables.** -/
theorem interpolateLoop_fails {text : List Char} {names : List (List Char)}
    (htemplate : Template text names) (hvisible : ∀ name ∈ names, NameRule scope (String.ofList name))
    {fuel : Nat} (hfuel : text.length ≤ fuel) (output : List Char) (location : ResolutionLocation) :
    Fails RuntimeError.OfValue (interpolateLoop config store location fuel text output) := by
  induction htemplate generalizing fuel output with
  | @text s h =>
    cases fuel with
    | zero => exact pushBounded_fails _ _ _
    | succ fuel =>
      rw [interpolateLoop, splitAtStr_eq_none_iff.mpr h]
      exact pushBounded_fails _ _ _
  | @placeholder before name rest names hbefore hname hclosed _ ih =>
    obtain ⟨hfirst, hrest⟩ := List.forall_mem_cons.mp hvisible
    obtain ⟨fuel, rfl⟩ : ∃ n, fuel = n + 1 := Nat.exists_eq_add_one_of_ne_zero (by
      rintro rfl
      simp at hfuel)
    rw [interpolateLoop, splitAtStr_first hbefore]
    dsimp only
    rw [List.drop_succ_cons, List.drop_succ_cons, List.drop_zero, splitAtChar_first hclosed]
    refine (pushBounded_fails _ _ _).bind fun output _ => ?_
    refine (lookup_fails hscope hname hfirst location).bind fun found _ => ?_
    obtain ⟨variable_, value⟩ := found
    dsimp only
    cases value.scalarText with
    | none => exact .error trivial
    | some scalar =>
      refine (pushBounded_fails _ _ _).bind fun output _ => ih hrest ?_ output
      simp only [List.length_append, List.length_cons] at hfuel
      omega

theorem interpolate_fails {input : InterpolatedString} (h : TextRule scope input.raw)
    (location : ResolutionLocation) :
    Fails RuntimeError.OfValue (interpolate config input store location) := by
  obtain ⟨names, htemplate, hvisible⟩ := h
  exact (interpolateLoop_fails hscope htemplate hvisible (Nat.le_refl _) [] location).map

theorem structuredPlaceholder_fails {input : InterpolatedString} (h : TextRule scope input.raw)
    (location : ResolutionLocation) :
    Fails RuntimeError.OfValue (structuredPlaceholder config input store location) := by
  have hexact : Fails RuntimeError.OfValue (exactPlaceholder config input store location) := by
    by_cases hwhole : IsPlaceholder input.raw.toList
    · obtain ⟨name, hclosed, hraw⟩ := hwhole
      obtain ⟨names, htemplate, hvisible⟩ := h
      rw [hraw] at htemplate
      obtain ⟨hname, hmem⟩ := htemplate.whole hclosed
      rw [exactPlaceholder_eq hclosed hraw]
      exact (lookup_fails hscope hname (hvisible name hmem) location).map
    · rw [exactPlaceholder_eq_none_iff.mpr hwhole]
      exact .ok _
  refine hexact.bind fun found _ => ?_
  cases found with
  | none => exact .ok _
  | some found => exact .ok _

/-! ## Values -/

variable (location : ResolutionLocation)

mutual

theorem resolveValue_fails (allow : Bool) (value : Value) (hvalue : value.Checked scope)
    (depth : Nat) :
    Fails RuntimeError.OfValue (resolveValue config store location allow value depth) := by
  rw [resolveValue.eq_def]
  refine (enterDepth_fails depth).bind fun _ _ => ?_
  match value with
  | .string input =>
    rw [Value.Checked] at hvalue
    have hcontinue (stored : Option Json) : Fails RuntimeError.OfValue (match stored with
        | some json => jsonToResolved config json.value depth
        | none => do return .string (← interpolate config input store location)) := by
      cases stored with
      | none => exact (interpolate_fails hscope hvalue location).bind fun _ _ => .ok _
      | some json => exact jsonToResolved_fails json.value depth
    cases allow with
    | true =>
      exact (structuredPlaceholder_fails hscope hvalue location).bind fun stored _ =>
        hcontinue stored
    | false => exact hcontinue none
  | .number x =>
    rw [Value.Checked] at hvalue
    dsimp only
    rw [if_pos hvalue]
    exact .ok _
  | .integer _ | .boolean _ | .null => exact .ok _
  | .array items =>
    rw [Value.Checked] at hvalue
    exact (resolveItems_fails allow items hvalue (depth + 1)).bind fun _ _ => .ok _
  | .object entries =>
    rw [Value.Checked] at hvalue
    exact (resolveEntries_fails allow entries hvalue (depth + 1)).bind fun _ _ => .ok _

theorem resolveItems_fails (allow : Bool) (items : List Value)
    (hitems : Value.CheckedItems scope items) (depth : Nat) :
    Fails RuntimeError.OfValue (resolveItems config store location allow items depth) := by
  match items with
  | [] => exact .ok _
  | v :: vs =>
    rw [resolveItems]
    exact (resolveValue_fails allow v hitems.1 depth).bind fun _ _ =>
      (resolveItems_fails allow vs hitems.2 depth).bind fun _ _ => .ok _

theorem resolveEntries_fails (allow : Bool) (entries : List (String × Value))
    (hentries : Value.CheckedEntries scope entries) (depth : Nat) :
    Fails RuntimeError.OfValue (resolveEntries config store location allow entries depth) := by
  match entries with
  | [] => exact .ok _
  | (name, v) :: es =>
    rw [resolveEntries]
    exact (resolveValue_fails allow v hentries.1 depth).bind fun _ _ =>
      (resolveEntries_fails allow es hentries.2 depth).bind fun _ _ => .ok _

end

mutual

theorem resolveJsonValue_fails (value : Value) (hvalue : value.Checked scope) (depth : Nat) :
    Fails RuntimeError.OfValue (resolveJsonValue config store location value depth) := by
  rw [resolveJsonValue.eq_def]
  refine (enterDepth_fails depth).bind fun _ _ => ?_
  match value with
  | .string input =>
    rw [Value.Checked] at hvalue
    refine (structuredPlaceholder_fails hscope hvalue location).bind fun stored _ => ?_
    cases stored with
    | none => exact (interpolate_fails hscope hvalue location).bind fun _ _ => .ok _
    | some json => exact cloneJsonBounded_fails json depth
  | .number x =>
    rw [Value.Checked] at hvalue
    dsimp only
    rw [JsonNumber.fromF64, dif_pos hvalue]
    exact .ok _
  | .integer _ | .boolean _ | .null => exact .ok _
  | .array items =>
    rw [Value.Checked] at hvalue
    exact (resolveJsonItems_fails items hvalue (depth + 1)).bind fun _ _ => .ok _
  | .object entries =>
    rw [Value.Checked] at hvalue
    exact (resolveJsonEntries_fails entries hvalue (depth + 1)).bind fun _ _ => .ok _

theorem resolveJsonItems_fails (items : List Value) (hitems : Value.CheckedItems scope items)
    (depth : Nat) :
    Fails RuntimeError.OfValue (resolveJsonItems config store location items depth) := by
  match items with
  | [] => exact .ok _
  | v :: vs =>
    rw [resolveJsonItems]
    exact (resolveJsonValue_fails v hitems.1 depth).bind fun _ _ =>
      (resolveJsonItems_fails vs hitems.2 depth).bind fun _ _ => .ok _

theorem resolveJsonEntries_fails (entries : List (String × Value))
    (hentries : Value.CheckedEntries scope entries) (depth : Nat) :
    Fails RuntimeError.OfValue (resolveJsonEntries config store location entries depth) := by
  match entries with
  | [] => exact .ok _
  | (name, v) :: es =>
    rw [resolveJsonEntries]
    exact (resolveJsonValue_fails v hentries.1 depth).bind fun _ _ =>
      (resolveJsonEntries_fails es hentries.2 depth).bind fun _ _ => .ok _

end

end Interpolator

namespace RuntimeResolver

open Except (Fails)
open Interpolator

variable [Platform] {config : RuntimeConfig} {store : VariableStore} {scope : Finset VariableName}
  (hscope : ∀ name ∈ scope, name ∈ store.names)

include hscope

/-! ## Requests -/

theorem resolveMap_fails {entries : IndexMap String Value}
    (hentries : Value.CheckedEntries scope entries) (location : ResolutionLocation) :
    Fails RuntimeError.OfValue (resolveMap config store location entries) :=
  (resolveEntries_fails hscope location false entries hentries 0).bind fun _ _ => .ok _

theorem resolveRequestBody_fails {body : RequestBody} (hbody : body.Checked scope) :
    Fails RuntimeError.OfValue (resolveRequestBody config store body) := by
  cases body with
  | json value => exact (resolveValue_fails hscope _ true value hbody 0).bind fun _ _ => .ok _
  | text value => exact (interpolate_fails hscope hbody _).bind fun _ _ => .ok _
  | formData fields => exact (resolveMap_fails hscope hbody _).bind fun _ _ => .ok _
  | binary bytes => exact .ok _

/-- **A checked request** fails to resolve by a value alone. -/
theorem resolveRequest_fails {request : HttpRequestSpec} (h : request.Checked scope) :
    Fails RuntimeError.OfValue (resolveRequest config store request) := by
  unfold resolveRequest
  refine (interpolate_fails hscope h.path _).bind fun _ _ => ?_
  refine (resolveMap_fails hscope h.headers _).bind fun _ _ => ?_
  refine (resolveMap_fails hscope h.query _).bind fun _ _ => ?_
  cases hbody : request.body with
  | none => exact .ok _
  | some body =>
    exact (resolveRequestBody_fails hscope (h.body body hbody)).map.bind fun _ _ => .ok _

/-! ## Expectations -/

theorem resolveHeaderAssertion_fails {assertion : HeaderAssertion} (h : assertion.Checked scope) :
    Fails RuntimeError.OfValue (resolveHeaderAssertion config store assertion) := by
  cases assertion with
  | exists_ => exact .ok _
  | exact expected => exact (interpolate_fails hscope h _).bind fun _ _ => .ok _
  | contains expected => exact (interpolate_fails hscope h _).bind fun _ _ => .ok _

theorem resolveHeaderAssertions_fails {assertions : List (String × HeaderAssertion)}
    (h : ∀ entry ∈ assertions, entry.2.Checked scope) :
    Fails RuntimeError.OfValue (resolveHeaderAssertions config store assertions) := by
  induction assertions with
  | nil => exact .ok _
  | cons entry assertions ih =>
    obtain ⟨hfirst, hrest⟩ := List.forall_mem_cons.mp h
    rw [resolveHeaderAssertions]
    exact (resolveHeaderAssertion_fails hscope hfirst).bind fun _ _ =>
      (ih hrest).bind fun _ _ => .ok _

mutual

theorem resolveObjectAssertion_fails (assertion : ObjectAssertion)
    (h : assertion.Checked scope) (depth : Nat) :
    Fails RuntimeError.OfValue (resolveObjectAssertion config store assertion depth) := by
  match assertion with
  | ⟨mode, fields⟩ =>
    rw [resolveObjectAssertion]
    exact (enterDepth_fails depth).bind fun _ _ =>
      (resolveFieldAssertions_fails fields h (depth + 1)).bind fun _ _ => .ok _

theorem resolveFieldAssertions_fails (fields : List (String × FieldAssertion))
    (h : FieldAssertion.CheckedAll scope fields) (depth : Nat) :
    Fails RuntimeError.OfValue (resolveFieldAssertions config store fields depth) := by
  match fields with
  | [] => exact .ok _
  | (name, field) :: fields =>
    rw [resolveFieldAssertions]
    exact (resolveFieldAssertion_fails field h.1 depth).bind fun _ _ =>
      (resolveFieldAssertions_fails fields h.2 depth).bind fun _ _ => .ok _

theorem resolveFieldAssertion_fails (field : FieldAssertion) (h : field.Checked scope)
    (depth : Nat) :
    Fails RuntimeError.OfValue (resolveFieldAssertion config store field depth) := by
  match field with
  | ⟨fieldName, expectedType, expectedValue, nested, capture⟩ =>
    rw [FieldAssertion.Checked.eq_def] at h
    obtain ⟨hvalue, hnested⟩ := h
    rw [resolveFieldAssertion.eq_def]
    refine (enterDepth_fails depth).bind fun _ _ => ?_
    have hbelow (value : Option JsonValue) : Fails RuntimeError.OfValue (do
        let nested ← match nested with
          | some assertion => some <$> resolveObjectAssertion config store assertion depth
          | none => pure none
        return (⟨fieldName, expectedType, value, nested, capture⟩ : ResolvedFieldAssertion)) := by
      match nested with
      | none => exact .ok _
      | some assertion =>
        exact (resolveObjectAssertion_fails assertion hnested depth).map.bind fun _ _ => .ok _
    match expectedValue with
    | none => exact hbelow none
    | some value =>
      have hresolved : Fails RuntimeError.OfValue
          (resolveJsonValue config store .expectedJson value depth) :=
        resolveJsonValue_fails hscope _ value (hvalue value rfl) depth
      exact hresolved.map.bind fun value _ => hbelow value

end

theorem resolveBodyAssertion_fails {body : BodyAssertion} (h : body.Checked scope) :
    Fails RuntimeError.OfValue (resolveBodyAssertion config store body) := by
  match body with
  | .empty => exact .ok _
  | .text (.exact value) => exact (interpolate_fails hscope h _).bind fun _ _ => .ok _
  | .text (.contains value) => exact (interpolate_fails hscope h _).bind fun _ _ => .ok _
  | .json assertion =>
    exact (resolveObjectAssertion_fails hscope assertion h 0).bind fun _ _ => .ok _

/-- **A checked expectation** fails to resolve by a value alone. -/
theorem resolveExpectation_fails {expectation : ResponseExpectation}
    (h : expectation.Checked scope) :
    Fails RuntimeError.OfValue (resolveExpectation config store expectation) := by
  unfold resolveExpectation
  refine (resolveHeaderAssertions_fails hscope h.headers).bind fun _ _ => ?_
  cases hbody : expectation.body with
  | none => exact .ok _
  | some body =>
    exact (resolveBodyAssertion_fails hscope (h.body body hbody)).map.bind fun _ _ => .ok _

end RuntimeResolver

end Rettp
