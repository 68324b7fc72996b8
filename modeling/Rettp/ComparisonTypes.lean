import Rettp.AssertionSpec
import Rettp.CheckedExpectations
import Rettp.Expansion
import Rettp.NumberEquality
import Rettp.Placeholder
import Rettp.Resolver

/-!
# The type of a comparison

The type of a field is declared, or inferred from the value that is written down, before any
variable is known. A value that has been checked fits its type (`field_fits`), and what it
resolves to has that type too, unless the value is one placeholder for a captured array or object
(`hasType_resolved_iff`). In that case alone the field rejects the very value it is compared with
(`comparison_accepts_iff`).
-/

namespace Rettp

open scoped List

/-! ## Values match themselves -/

theorem sameNumber_self (n : JsonNumber) : SameNumber n n :=
  numbersEqual_iff.mp (numbersEqual_iff_exact.mpr ⟨rfl, .inl rfl⟩)

theorem isInteger_ofI64 (n : Int) : IsInteger (.ofI64 n) := by
  rw [← numberIsInteger_iff]
  unfold JsonNumber.ofI64
  split <;> simp [numberIsInteger, JsonNumber.isI64, JsonNumber.isU64]

mutual

/-- **A value matches itself.** -/
theorem matches_self (v : JsonValue) (hv : v.Sorted) (flexible : Bool) : Matches flexible v v := by
  match v with
  | .null | .bool _ | .string _ =>
    rw [Matches]
  | .number n =>
    rw [Matches]
    exact ⟨n, rfl, sameNumber_self n, fun _ h => h⟩
  | .array items =>
    rw [Matches]
    exact ⟨items, rfl, matchesItems_self items hv⟩
  | .object entries =>
    rw [Matches]
    obtain ⟨hkeys, hvalues⟩ := hv
    exact ⟨entries, rfl, matchesEntries_self entries hvalues fun e he =>
      IndexMap.get_eq_some_of_mem (SortedMap.nodup_of_sorted hkeys) he⟩

theorem matchesItems_self (items : List JsonValue) (hitems : JsonValue.SortedItems items) :
    MatchesItems items items := by
  match items with
  | [] => rw [MatchesItems]
  | v :: vs =>
    rw [MatchesItems]
    exact ⟨v, vs, rfl, matches_self v hitems.1 false, matchesItems_self vs hitems.2⟩

theorem matchesEntries_self (entries : List (String × JsonValue))
    (hentries : JsonValue.SortedEntries entries) {actual : SortedMap String JsonValue}
    (hactual : ∀ e ∈ entries, IndexMap.get actual e.1 = some e.2) :
    MatchesEntries entries actual := by
  match entries with
  | [] => trivial
  | (key, v) :: es =>
    rw [MatchesEntries]
    obtain ⟨hget, hrest⟩ := List.forall_mem_cons.mp hactual
    exact ⟨⟨v, hget, matches_self v hentries.1 false⟩, matchesEntries_self es hentries.2 hrest⟩

end

/-! ## Types fit values -/

/-- A written value of a type. -/
inductive Fits : ExpectedType → Value → Prop
  | string (input : InterpolatedString) : Fits .string (.string input)
  | integer (n : Int) : Fits .integer (.integer n)
  | wholeNumber (n : Int) : Fits .number (.integer n)
  | number (x : Float) : Fits .number (.number x)
  | boolean (b : Bool) : Fits .boolean (.boolean b)
  | null : Fits .null .null
  | array (items : List Value) : Fits .array (.array items)
  | object (entries : List (String × Value)) : Fits .object (.object entries)

theorem fits_infer (value : ValueAst) : Fits (Converter.inferExpectedType value) value.toValue := by
  cases value with
  | array value =>
    obtain ⟨items, span⟩ := value
    rw [ValueAst.toValue]
    exact .array _
  | _ =>
    rw [ValueAst.toValue]
    constructor

/-- A declared type that accepts a value fits it. -/
theorem fits_of_accepts {type : AssertionTypeAst} {value : ValueAst}
    (h : value.AgreesWith type) :
    Fits (Converter.convertAssertionType type) value.toValue := by
  rcases h with rfl | ⟨rfl, hinteger⟩
  · have hinfer := fits_infer value
    cases value <;> exact hinfer
  · cases value with
    | integer value =>
      rw [ValueAst.toValue]
      exact .wholeNumber _
    | _ => cases hinteger

/-! ## Fields by their place -/

namespace ObjectAssertion

/-- The field with this name. -/
def field (assertion : ObjectAssertion) (name : String) : Option FieldAssertion :=
  IndexMap.get (IndexMap.ofEntries assertion.fields) name

/-- The assertion that is nested below a path of fields. -/
def objectAt : List String → ObjectAssertion → Option ObjectAssertion
  | [], assertion => some assertion
  | name :: path, assertion =>
    (assertion.field name).bind fun field => field.nested.bind (objectAt path)

/-- The field with this name below a path of nested fields. -/
def fieldAt (path : List String) (name : String) (assertion : ObjectAssertion) :
    Option FieldAssertion := (assertion.objectAt path).bind (·.field name)

end ObjectAssertion

namespace ResolvedObjectAssertion

/-- The field with this name. -/
def field (assertion : ResolvedObjectAssertion) (name : String) : Option ResolvedFieldAssertion :=
  IndexMap.get assertion.fields name

/-- The nested assertion that a path of names leads to. -/
def objectAt : List String → ResolvedObjectAssertion → Option ResolvedObjectAssertion
  | [], assertion => some assertion
  | name :: path, assertion =>
    (assertion.field name).bind fun field => field.nested.bind (objectAt path)

/-- The field with this name below a path of nested fields. -/
def fieldAt (path : List String) (name : String) (assertion : ResolvedObjectAssertion) :
    Option ResolvedFieldAssertion := (assertion.objectAt path).bind (·.field name)

end ResolvedObjectAssertion

/-- A field of a JSON body. -/
def ResponseExpectation.fieldAt (path : List String) (name : String)
    (expectation : ResponseExpectation) : Option FieldAssertion :=
  match expectation.body with
  | some (.json assertion) => assertion.fieldAt path name
  | _ => none

/-- A field of the expected body. -/
def ResolvedResponseExpectation.fieldAt (path : List String) (name : String)
    (expectation : ResolvedResponseExpectation) : Option ResolvedFieldAssertion :=
  match expectation.body with
  | some (.json assertion) => assertion.fieldAt path name
  | _ => none

theorem ResponseExpectation.fieldAt_eq_some_iff {path : List String} {name : String}
    {expectation : ResponseExpectation} {field : FieldAssertion} :
    expectation.fieldAt path name = some field ↔ ∃ assertion,
      expectation.body = some (.json assertion) ∧ assertion.fieldAt path name = some field := by
  unfold ResponseExpectation.fieldAt
  split
  · next assertion h => simp [h]
  · next h => exact iff_of_false nofun fun ⟨assertion, hassertion, _⟩ => h assertion hassertion

theorem mem_allFieldsOf {fields : List FieldAssertionAst} {field part : FieldAssertionAst}
    (hfield : field ∈ fields) (hpart : part ∈ field.allFields) : part ∈ allFieldsOf fields := by
  induction fields with
  | nil => cases hfield
  | cons first fields ih =>
    rw [allFieldsOf, List.mem_append]
    rcases List.mem_cons.mp hfield with rfl | hfield
    · exact .inl hpart
    · exact .inr (ih hfield)

theorem mem_fieldsToEntries {fields : List FieldAssertionAst} {name : String}
    {field : FieldAssertion} (h : (name, field) ∈ fieldsToEntries fields) :
    ∃ source ∈ fields, source.toField = field := by
  induction fields with
  | nil => cases h
  | cons first fields ih =>
    rw [fieldsToEntries] at h
    rcases List.mem_cons.mp h with heq | h
    · exact ⟨first, List.mem_cons_self, (Prod.mk.inj heq).2.symm⟩
    · obtain ⟨source, hsource, heq⟩ := ih h
      exact ⟨source, List.mem_cons_of_mem _ hsource, heq⟩

/-- A field of a tree's assertion stands in the tree. -/
theorem ObjectAssertionAst.field_toAssertion {assertion : ObjectAssertionAst} {name : String}
    {field : FieldAssertion} (h : assertion.toAssertion.field name = some field) :
    ∃ source ∈ assertion.fields, source.toField = field := by
  obtain ⟨mode, fields, span⟩ := assertion
  rw [ObjectAssertionAst.toAssertion, ObjectAssertion.field, IndexMap.get_ofEntries] at h
  exact mem_fieldsToEntries (List.mem_reverse.mp (IndexMap.mem_of_get_eq_some h))

theorem ObjectAssertionAst.objectAt_toAssertion {path : List String}
    {assertion : ObjectAssertionAst} {object : ObjectAssertion}
    (h : assertion.toAssertion.objectAt path = some object) :
    ∃ source : ObjectAssertionAst, source.toAssertion = object ∧
      ∀ field ∈ source.allFields, field ∈ assertion.allFields := by
  induction path generalizing assertion with
  | nil => exact ⟨assertion, Option.some.inj h, fun _ hfield => hfield⟩
  | cons name path ih =>
    rw [ObjectAssertion.objectAt] at h
    obtain ⟨field, hfield, h⟩ := Option.bind_eq_some_iff.mp h
    obtain ⟨nested, hnested, h⟩ := Option.bind_eq_some_iff.mp h
    obtain ⟨source, hsource, rfl⟩ := ObjectAssertionAst.field_toAssertion hfield
    obtain ⟨fieldName, expectedType, expectedValue, below, capture, span⟩ := source
    rw [FieldAssertionAst.toField] at hnested
    cases below with
    | none => cases hnested
    | some below =>
      obtain rfl : below.toAssertion = nested := Option.some.inj hnested
      obtain ⟨object, hobject, hfields⟩ := ih h
      refine ⟨object, hobject, fun part hpart => ?_⟩
      obtain ⟨mode, fields, span'⟩ := assertion
      refine mem_allFieldsOf hsource ?_
      rw [FieldAssertionAst.allFields, nestedFields]
      exact List.mem_append_left _ (hfields part hpart)

/-- A field at a place is one of all fields. -/
theorem ObjectAssertionAst.fieldAt_toAssertion {path : List String} {name : String}
    {assertion : ObjectAssertionAst} {field : FieldAssertion}
    (h : assertion.toAssertion.fieldAt path name = some field) :
    ∃ source ∈ assertion.allFields, source.toField = field := by
  obtain ⟨object, hobject, hfield⟩ := Option.bind_eq_some_iff.mp h
  obtain ⟨below, rfl, hbelow⟩ := ObjectAssertionAst.objectAt_toAssertion hobject
  obtain ⟨source, hsource, rfl⟩ := ObjectAssertionAst.field_toAssertion hfield
  refine ⟨source, hbelow source ?_, rfl⟩
  obtain ⟨mode, fields, span⟩ := below
  refine mem_allFieldsOf hsource ?_
  obtain ⟨fieldName, expectedType, expectedValue, nested, capture, span'⟩ := source
  rw [FieldAssertionAst.allFields]
  exact List.mem_append_right _ (List.mem_singleton_self _)

variable [Platform]

/-- **The type of a checked field fits its value**, declared or inferred. -/
theorem field_fits {scope : Finset VariableName} {field : FieldAssertionAst}
    (h : FieldRules scope field) {value : ValueAst} (hvalue : field.expectedValue = some value) :
    Fits field.toField.expectedType value.toValue := by
  obtain ⟨name, expectedType, expectedValue, nested, capture, span⟩ := field
  obtain rfl : expectedValue = some value := hvalue
  rw [FieldAssertionAst.toField]
  cases expectedType with
  | none => exact fits_infer value
  | some type => exact fits_of_accepts (h.accepts type rfl value rfl)

namespace Interpolator

variable {config : RuntimeConfig} {store : VariableStore} {location : ResolutionLocation}

/-- A string that stands for a captured array or object is exactly a placeholder for it. -/
theorem captured_of_structured {input : InterpolatedString} {captured : Json}
    (h : structuredPlaceholder config input store location = .ok (some captured)) :
    ∃ name, IsCapturedPlaceholder store input name captured := by
  unfold structuredPlaceholder at h
  obtain ⟨found, hexact, h⟩ := Except.bind_eq_ok.mp h
  cases found with
  | none => cases h
  | some found =>
    obtain ⟨name, value⟩ := found
    have hplaceholder : IsPlaceholder input.raw.toList := by
      by_contra hnot
      rw [exactPlaceholder_eq_none_iff.mpr hnot] at hexact
      cases hexact
    obtain ⟨rawName, hclosed, hraw⟩ := hplaceholder
    rw [exactPlaceholder_eq hclosed hraw] at hexact
    obtain ⟨found, hlookup, hfound⟩ := Except.map_eq_ok.mp hexact
    obtain rfl := Option.some.inj hfound
    -- what the lookup found is stored under a valid name
    obtain ⟨-, hnew, hget⟩ := lookupWithin_eq_ok_iff.mp
      (show lookupWithin config.maxInterpolatedBytes rawName store location = _ from hlookup)
    have hname : name.raw = String.ofList rawName := VariableName.new_ok hnew
    have htext : name.raw.toList = rawName := by rw [hname, String.toList_ofList]
    have hstructured : value.isStructured = true ∧ value.asJson = some captured := by
      replace h := Except.ok.inj h
      split at h
      · next hs => exact ⟨hs, h⟩
      · cases h
    exact ⟨name, by rw [htext]; exact hraw, by rw [hname]; exact hnew, by rwa [htext],
      value, hget, hstructured⟩

/-- A captured array or object is no text. -/
theorem IsCapturedPlaceholder.not_string {input : InterpolatedString} {name : VariableName}
    {captured : Json} (h : IsCapturedPlaceholder store input name captured) :
    ¬ HasType .string captured.value := by
  obtain ⟨value, -, hstructured, hjson⟩ := h.stored
  unfold VariableValue.isStructured at hstructured
  rw [hjson] at hstructured
  obtain ⟨captured, hsorted⟩ := captured
  intro htype
  cases htype
  cases hstructured

/-- A text resolves to a text, unless it stands for a captured array or object. -/
theorem hasType_string_iff {input : InterpolatedString} {depth : Nat} {v : JsonValue}
    (h : resolveJsonValue config store location (.string input) depth = .ok v) :
    HasType .string v ↔ ¬ ∃ name captured, IsCapturedPlaceholder store input name captured := by
  rw [resolveJsonValue] at h
  obtain ⟨-, -, h⟩ := Except.bind_eq_ok.mp h
  obtain ⟨stored, hstored, h⟩ := Except.bind_eq_ok.mp h
  cases stored with
  | none =>
    obtain ⟨text, -, h⟩ := Except.bind_eq_ok.mp h
    obtain rfl := Except.ok.inj h
    refine iff_of_true (.string text) ?_
    rintro ⟨name, captured, hcaptured⟩
    rw [structuredPlaceholder_eq hcaptured] at hstored
    split at hstored <;> cases hstored
  | some captured =>
    obtain ⟨name, hcaptured⟩ := captured_of_structured hstored
    have hv : v = captured.value := by
      dsimp only at h
      rw [cloneJsonBounded_eq config captured.value captured.sorted] at h
      split at h
      · exact (Except.ok.inj h).symm
      · cases h
    rw [hv]
    exact iff_of_false hcaptured.not_string (not_not.mpr ⟨name, captured, hcaptured⟩)

/-- **What a value resolves to has its type**, unless it is a placeholder for a captured array or
object. -/
theorem hasType_resolved_iff {type : ExpectedType} {value : Value} (hfits : Fits type value)
    {depth : Nat} {v : JsonValue}
    (h : resolveJsonValue config store location value depth = .ok v) :
    HasType type v ↔ ¬ ∃ input name captured, value = .string input ∧
      IsCapturedPlaceholder store input name captured := by
  have hother (hvalue : ∀ input, value ≠ .string input) (htype : HasType type v) :
      HasType type v ↔ ¬ ∃ input name captured, value = .string input ∧
        IsCapturedPlaceholder store input name captured := by
    refine iff_of_true htype ?_
    rintro ⟨input, _, _, heq, _⟩
    exact hvalue input heq
  cases hfits with
  | string input =>
    rw [hasType_string_iff h]
    refine ⟨?_, ?_⟩
    · rintro hnot ⟨_, name, captured, heq, hcaptured⟩
      obtain rfl := Value.string.inj heq
      exact hnot ⟨name, captured, hcaptured⟩
    · rintro hnot ⟨name, captured, hcaptured⟩
      exact hnot ⟨input, name, captured, rfl, hcaptured⟩
  | integer n =>
    rw [resolveJsonValue] at h
    obtain ⟨-, -, h⟩ := Except.bind_eq_ok.mp h
    obtain rfl := Except.ok.inj h
    exact hother (by rintro _ ⟨⟩) (.integer (isInteger_ofI64 n))
  | wholeNumber n =>
    rw [resolveJsonValue] at h
    obtain ⟨-, -, h⟩ := Except.bind_eq_ok.mp h
    obtain rfl := Except.ok.inj h
    exact hother (by rintro _ ⟨⟩) (.number _)
  | number x =>
    rw [resolveJsonValue] at h
    obtain ⟨-, -, h⟩ := Except.bind_eq_ok.mp h
    split at h
    · obtain rfl := Except.ok.inj h
      exact hother (by rintro _ ⟨⟩) (.number _)
    · cases h
  | boolean b =>
    rw [resolveJsonValue] at h
    obtain ⟨-, -, h⟩ := Except.bind_eq_ok.mp h
    obtain rfl := Except.ok.inj h
    exact hother (by rintro _ ⟨⟩) (.boolean b)
  | null =>
    rw [resolveJsonValue] at h
    obtain ⟨-, -, h⟩ := Except.bind_eq_ok.mp h
    obtain rfl := Except.ok.inj h
    exact hother (by rintro _ ⟨⟩) .null
  | array items =>
    rw [resolveJsonValue] at h
    obtain ⟨-, -, h⟩ := Except.bind_eq_ok.mp h
    obtain ⟨js, -, h⟩ := Except.bind_eq_ok.mp h
    obtain rfl := Except.ok.inj h
    exact hother (by rintro _ ⟨⟩) (.array js)
  | object entries =>
    rw [resolveJsonValue] at h
    obtain ⟨-, -, h⟩ := Except.bind_eq_ok.mp h
    obtain ⟨js, -, h⟩ := Except.bind_eq_ok.mp h
    obtain rfl := Except.ok.inj h
    exact hother (by rintro _ ⟨⟩) (.object _)

end Interpolator

namespace RuntimeResolver

variable {config : RuntimeConfig} {store : VariableStore}

/-- A field is resolved in its place. -/
theorem resolveObjectAssertion_field {assertion : ObjectAssertion} {depth : Nat}
    {resolved : ResolvedObjectAssertion}
    (h : resolveObjectAssertion config store assertion depth = .ok resolved) {name : String}
    {field : FieldAssertion} (hfield : assertion.field name = some field) :
    ∃ found, resolved.field name = some found ∧
      resolveFieldAssertion config store field (depth + 1) = .ok found := by
  obtain ⟨mode, fields⟩ := assertion
  obtain ⟨entries, hentries, rfl⟩ := resolveObjectAssertion_ok h
  exact IndexMap.EntriesRel.get
    (IndexMap.forall₂_ofEntries (resolveFieldAssertions_rel hentries)) hfield

theorem resolveObjectAssertion_objectAt {path : List String} {assertion object : ObjectAssertion}
    {depth : Nat} {resolved : ResolvedObjectAssertion}
    (h : resolveObjectAssertion config store assertion depth = .ok resolved)
    (hobject : assertion.objectAt path = some object) :
    ∃ found, resolved.objectAt path = some found ∧
      resolveObjectAssertion config store object (depth + path.length) = .ok found := by
  induction path generalizing assertion depth resolved with
  | nil =>
    obtain rfl := Option.some.inj hobject
    exact ⟨resolved, rfl, h⟩
  | cons name path ih =>
    rw [ObjectAssertion.objectAt] at hobject
    obtain ⟨field, hfield, hobject⟩ := Option.bind_eq_some_iff.mp hobject
    obtain ⟨nested, hnested, hobject⟩ := Option.bind_eq_some_iff.mp hobject
    obtain ⟨found, hfound, hresolved⟩ := resolveObjectAssertion_field h hfield
    obtain ⟨fieldName, expectedType, expectedValue, below, capture⟩ := field
    obtain rfl : below = some nested := hnested
    obtain ⟨value', nested', -, hbelow, rfl⟩ := resolveFieldAssertion_ok hresolved
    obtain ⟨hbelow⟩ := hbelow
    obtain ⟨last, hlast, hobject⟩ := ih hbelow hobject
    refine ⟨last, ?_, ?_⟩
    · rw [ResolvedObjectAssertion.objectAt, hfound]
      exact hlast
    · rwa [List.length_cons, Nat.add_comm path.length, ← Nat.add_assoc]

/-- **A comparison is resolved in its place.** -/
theorem resolveExpectation_fieldAt {expectation : ResponseExpectation}
    {resolved : ResolvedResponseExpectation}
    (h : resolveExpectation config store expectation = .ok resolved) {assertion : ObjectAssertion}
    (hbody : expectation.body = some (.json assertion)) {path : List String} {name : String}
    {field : FieldAssertion} (hfield : assertion.fieldAt path name = some field) {value : Value}
    (hvalue : field.expectedValue = some value) :
    ∃ object found v, resolved.body = some (.json object) ∧
      object.fieldAt path name = some found ∧ found.expectedType = field.expectedType ∧
      found.expectedValue = some v ∧
      Interpolator.resolveJsonValue config store .expectedJson value (path.length + 1) = .ok v := by
  obtain ⟨object, hobject, hresolved⟩ := resolveExpectation_json h hbody
  obtain ⟨below, hbelow, hfield⟩ := Option.bind_eq_some_iff.mp hfield
  obtain ⟨below', hbelow', hobject⟩ := resolveObjectAssertion_objectAt hobject hbelow
  obtain ⟨found, hfound, hresolve⟩ := resolveObjectAssertion_field hobject hfield
  obtain ⟨fieldName, expectedType, expectedValue, nested, capture⟩ := field
  obtain rfl : expectedValue = some value := hvalue
  obtain ⟨_, nested', hv, -, rfl⟩ := resolveFieldAssertion_ok hresolve
  cases hv with
  | @some _ v hv =>
    rw [Nat.zero_add] at hv
    refine ⟨object, ⟨fieldName, expectedType, some v, nested', capture⟩, v, hresolved, ?_, rfl, rfl,
      hv⟩
    rw [ResolvedObjectAssertion.fieldAt, hbelow']
    exact hfound

end RuntimeResolver

/-! ## The contract -/

/-- The failures that the engine reports for the type and the value of a field: its check without
what is asserted about the fields below. -/
def ResolvedFieldAssertion.ownFailures (limits : AssertionConfig) (field : ResolvedFieldAssertion)
    (actual : JsonValue) (path : String) (depth : Nat) : List AssertionFailure :=
  ((Evaluation.new limits).assertField
    ⟨field.fieldName, field.expectedType, field.expectedValue, none, field.capture⟩ actual path
    depth).failures

/-- **A field compared with its own value** depends on the type alone. -/
theorem ownFailures_eq_nil_iff {limits : AssertionConfig} {field : ResolvedFieldAssertion}
    {v : JsonValue} (hvalue : field.expectedValue = some v) (hsorted : v.Sorted) {path : String}
    {depth : Nat} (hdepth : depth + 1 + v.levels ≤ limits.maxJsonDepth + 1) :
    field.ownFailures limits v path depth = [] ↔ HasType field.expectedType v := by
  have hpos := limits.failures_pos
  unfold ResolvedFieldAssertion.ownFailures
  rw [Evaluation.assertField_eq, (Evaluation.pushAll_spec _ _).1]
  change List.take limits.maxFailures ([] ++ _) = [] ↔ _
  rw [List.nil_append, List.take_eq_nil_iff, or_iff_right (by omega), hvalue, fieldFailures.eq_def,
    ← matchesExpectedType_iff]
  dsimp only
  split
  · next h => exact iff_of_false (List.cons_ne_nil _ _) (by simpa using h)
  · next h =>
    refine iff_of_true ?_ (by simpa using h)
    rw [List.append_nil]
    exact (compareFailures_eq_nil_iff v hdepth).mpr (matches_self v hsorted _)

/-- The text of the place of a field. -/
def placeOf (path : List String) (name : String) : String :=
  childPath (path.foldl childPath "$") name

omit [Platform] in
theorem withinDepth_sublist {limit depth : Nat} {path : String}
    {failures : List AssertionFailure} (h : depth ≤ limit) :
    failures <+ withinDepth limit path depth failures := by
  rw [withinDepth_of_le h]

theorem fieldsFailures_sublist {limit : Nat} {fields : List (String × ResolvedFieldAssertion)}
    {name : String} {field : ResolvedFieldAssertion} (hfield : IndexMap.get fields name = some field)
    {actual : SortedMap String JsonValue} {v : JsonValue} (hv : IndexMap.get actual name = some v)
    {text : String} {depth : Nat} :
    fieldFailures limit field v (childPath text name) depth <+
      fieldsFailures limit fields actual text depth := by
  induction fields with
  | nil => cases hfield
  | cons entry fields ih =>
    obtain ⟨declaredName, first⟩ := entry
    rw [IndexMap.get_cons] at hfield
    rw [fieldsFailures]
    split at hfield
    · next heq =>
      obtain rfl := Option.some.inj hfield
      obtain rfl : declaredName = name := heq
      rw [hv]
      exact List.sublist_append_left _ _
    · exact (ih hfield).trans (List.sublist_append_right _ _)

omit [Platform] in
theorem ResolvedObjectAssertion.NestedOnObjects.nested {mode : ObjectMatchMode}
    {fields : IndexMap String ResolvedFieldAssertion} {name : String}
    {field : ResolvedFieldAssertion} {nested : ResolvedObjectAssertion}
    (h : ResolvedObjectAssertion.NestedOnObjects ⟨mode, fields⟩)
    (hfield : IndexMap.get fields name = some field) (hnested : field.nested = some nested) :
    field.expectedType = .object ∧ nested.NestedOnObjects := by
  rw [ResolvedObjectAssertion.NestedOnObjects] at h
  induction fields with
  | nil => cases hfield
  | cons entry fields ih =>
    rw [ResolvedFieldAssertion.NestedOnObjectsAll] at h
    rw [IndexMap.get_cons] at hfield
    split at hfield
    · obtain ⟨fieldName, expectedType, expectedValue, below, capture⟩ := field
      obtain rfl : below = some nested := hnested
      have hfirst := h.1
      rw [Option.some.inj hfield, ResolvedFieldAssertion.NestedOnObjects.eq_def] at hfirst
      exact hfirst
    · exact ih h.2 hfield

/-- **The failures of a field are reported**, wherever it stands. -/
theorem objectFailures_sublist {limit : Nat} {path : List String} {name : String}
    {assertion : ResolvedObjectAssertion} (hnested : assertion.NestedOnObjects)
    {field : ResolvedFieldAssertion} (hfield : assertion.fieldAt path name = some field)
    {json actual : Json} (hfollow : json.follow (path ++ [name]) = some actual) {text : String}
    {depth : Nat} (hdepth : depth + path.length ≤ limit) :
    ∃ entries, json.value.asObject = some entries ∧
      fieldFailures limit field actual.value (childPath (path.foldl childPath text) name)
        (depth + path.length) <+ objectFailures limit assertion entries text depth := by
  induction path generalizing assertion json text depth with
  | nil =>
    obtain ⟨child, hchild, hfollow⟩ := Option.bind_eq_some_iff.mp hfollow
    obtain rfl := Option.some.inj hfollow
    obtain ⟨object, hobject, hget⟩ := Option.bind_eq_some_iff.mp hchild
    refine ⟨object.entries, asObject_eq_some.mpr (Json.asObject_eq_some_iff.mp hobject), ?_⟩
    obtain ⟨mode, fields⟩ := assertion
    rw [objectFailures.eq_def]
    exact (fieldsFailures_sublist hfield (JsonObject.get_eq_some_iff.mp hget)).trans
      ((List.sublist_append_left _ _).trans (withinDepth_sublist hdepth))
  | cons key path ih =>
    obtain ⟨below, hobjectAt, hlast⟩ := Option.bind_eq_some_iff.mp hfield
    obtain ⟨first, hfirst, hobjectAt⟩ := Option.bind_eq_some_iff.mp hobjectAt
    obtain ⟨nested, hnestedOf, hbelow⟩ := Option.bind_eq_some_iff.mp hobjectAt
    obtain ⟨child, hchild, hfollow⟩ := Option.bind_eq_some_iff.mp hfollow
    obtain ⟨object, hobject, hget⟩ := Option.bind_eq_some_iff.mp hchild
    refine ⟨object.entries, asObject_eq_some.mpr (Json.asObject_eq_some_iff.mp hobject), ?_⟩
    -- the first key of the path has a nested assertion, and so the type object
    obtain ⟨mode, fields⟩ := assertion
    obtain ⟨htype, hnestedBelow⟩ := hnested.nested hfirst hnestedOf
    rw [List.length_cons, Nat.add_comm path.length, ← Nat.add_assoc] at hdepth ⊢
    obtain ⟨entries, hentries, hsublist⟩ : ∃ entries, child.value.asObject = some entries ∧
        fieldFailures limit field actual.value
          (childPath ((key :: path).foldl childPath text) name) (depth + 1 + path.length) <+
          objectFailures limit nested entries (childPath text key) (depth + 1) :=
      ih hnestedBelow (Option.bind_eq_some_iff.mpr ⟨below, hbelow, hlast⟩) hfollow hdepth
    -- the failures of the nested assertion are among those of its field
    have hfirstFailures : objectFailures limit nested entries (childPath text key) (depth + 1) <+
        fieldFailures limit first child.value (childPath text key) depth := by
      obtain ⟨fieldName, expectedType, expectedValue, below, capture⟩ := first
      obtain rfl : expectedType = .object := htype
      obtain rfl : below = some nested := hnestedOf
      obtain hchild := asObject_eq_some.mp hentries
      rw [hchild, fieldFailures.eq_def]
      exact List.sublist_append_right _ _
    rw [objectFailures.eq_def]
    exact hsublist.trans (hfirstFailures.trans
      ((fieldsFailures_sublist hfirst (JsonObject.get_eq_some_iff.mp hget)).trans
        ((List.sublist_append_left _ _).trans (withinDepth_sublist (by omega)))))

/-- The failures of a field of the body are failures of the response. -/
theorem expectationFailures_sublist {limit : Nat} {path : List String} {name : String}
    {expected : ResolvedResponseExpectation} {assertion : ResolvedObjectAssertion}
    (hnested : assertion.NestedOnObjects) (hbody : expected.body = some (.json assertion))
    {field : ResolvedFieldAssertion} (hfield : assertion.fieldAt path name = some field)
    {response : HttpResponse} {raw : ByteArray} {body actual : Json}
    (hresponse : response.body = .json raw body)
    (hfollow : body.follow (path ++ [name]) = some actual) (hdepth : path.length ≤ limit) :
    fieldFailures limit field actual.value (placeOf path name) path.length <+
      expectationFailures limit expected response := by
  obtain ⟨entries, hentries, hsublist⟩ : ∃ entries, body.value.asObject = some entries ∧
      fieldFailures limit field actual.value (placeOf path name) (0 + path.length) <+
        objectFailures limit assertion entries "$" 0 :=
    objectFailures_sublist hnested hfield hfollow (by omega)
  rw [Nat.zero_add] at hsublist
  refine hsublist.trans ?_
  rw [expectationFailures, hbody, bodyFailures, hresponse]
  dsimp only
  rw [hentries]
  exact List.sublist_append_right _ _

theorem ownFailures_sublist {limits : AssertionConfig} {field : ResolvedFieldAssertion}
    {v : JsonValue} {text : String} {depth : Nat} :
    field.ownFailures limits v text depth <+
      fieldFailures limits.maxJsonDepth field v text depth := by
  unfold ResolvedFieldAssertion.ownFailures
  rw [Evaluation.assertField_eq, (Evaluation.pushAll_spec _ _).1]
  refine (List.take_sublist _ _).trans ?_
  obtain ⟨fieldName, expectedType, expectedValue, nested, capture⟩ := field
  change [] ++ _ <+ _
  rw [List.nil_append, fieldFailures.eq_def, fieldFailures.eq_def]
  dsimp only
  split
  · exact List.Sublist.refl _
  · rw [List.append_nil]
    exact List.sublist_append_left _ _

/-- **An accepted comparison is satisfied by its own value** exactly when the value is not a
placeholder for a captured array or object. -/
theorem comparison_accepts_iff {source : SourceText} {context : ValidationContext}
    {suite : TestSuite} (haccepted : checkSource source context = some ⟨some suite, []⟩)
    {block : SuiteBlock} (hblock : block ∈ suite.blocks) {test : TestCase}
    (htest : test ∈ block.tests) {path : List String} {name : String} {field : FieldAssertion}
    (hfield : test.expectation.fieldAt path name = some field) {value : Value}
    (hvalue : field.expectedValue = some value) {config : RuntimeConfig} {store : VariableStore}
    {resolved : ResolvedResponseExpectation}
    (hresolved : RuntimeResolver.resolveExpectation config store test.expectation = .ok resolved) :
    ∃ found v, resolved.fieldAt path name = some found ∧ found.expectedValue = some v ∧
      ∀ (limits : AssertionConfig) (response : HttpResponse) (raw : ByteArray)
        (body actual : Json), response.body = .json raw body →
        body.follow (path ++ [name]) = some actual → actual.value = v →
        path.length + 1 + v.levels ≤ limits.maxJsonDepth + 1 →
        found.ownFailures limits v (placeOf path name) path.length <+
            expectationFailures limits.maxJsonDepth resolved response ∧
          (found.ownFailures limits v (placeOf path name) path.length = [] ↔
            ¬ ∃ input variable_ captured, value = .string input ∧
              Interpolator.IsCapturedPlaceholder store input variable_ captured) := by
  obtain ⟨assertion, hbody, hfield⟩ := ResponseExpectation.fieldAt_eq_some_iff.mp hfield
  obtain ⟨object, found, v, hobject, hfound, htype, hv, hresolve⟩ :=
    RuntimeResolver.resolveExpectation_fieldAt hresolved hbody hfield hvalue
  refine ⟨found, v, by rw [ResolvedResponseExpectation.fieldAt, hobject]; exact hfound, hv, ?_⟩
  rintro limits response raw body actual hresponse hfollow rfl hdepth
  obtain ⟨-, -, hrules, rfl⟩ := checkSource_accepts_iff.mp haccepted
  -- the rules of the checker hold of the tree that the test comes from
  obtain ⟨blockAst, -, i, hi, rfl, htestRules⟩ := hrules.test_rules hblock htest
  obtain ⟨expectation, hexpectation, her⟩ := htestRules.toCase_expectation
  rw [hexpectation] at hbody hresolved
  refine ⟨?_, ?_⟩
  · have hregular := RuntimeResolver.resolveExpectation_regular her hresolved hobject
    exact ownFailures_sublist.trans
      (expectationFailures_sublist hregular.nestedOnObjects hobject hfound hresponse hfollow
        (by omega))
  · rw [ownFailures_eq_nil_iff hv actual.sorted hdepth, htype]
    refine Interpolator.hasType_resolved_iff ?_ hresolve
    obtain ⟨assertionAst, hassertion, rfl⟩ := ExpectationAst.assertion_of_body hbody
    obtain ⟨source, hsource, rfl⟩ := ObjectAssertionAst.fieldAt_toAssertion hfield
    -- the comparison value was written in the source, so its type was inferred from it
    obtain ⟨given, hgiven, rfl⟩ : ∃ given, source.expectedValue = some given ∧
        given.toValue = value := by
      obtain ⟨_, _, expectedValue, _, _, _⟩ := source
      rw [FieldAssertionAst.toField] at hvalue
      exact Option.map_eq_some_iff.mp hvalue
    exact field_fits ((her.assertions assertionAst hassertion).fields source hsource) hgiven

/-! A profile that is captured and compared with itself. -/

/-- A core that captures a profile, and a test that expects it in a field. -/
def profileSource : SourceText where
  name := "profile.rttp"
  content := "core \x7b test \"login\" \x7b request GET \"/me\" expect \x7b
      body \x7b profile: object -> PROFILE \x7d \x7d \x7d \x7d
    test \"again\" \x7b request GET \"/me\" expect \x7b
      body \x7b profile = \"$\x7bPROFILE\x7d\" \x7d \x7d \x7d"

/-- A store with the profile as a captured object. -/
def profileStore : VariableStore :=
  VariableStore.new.insertPredefined ⟨"PROFILE"⟩ (.json ⟨.object [], .nil, trivial⟩)

/-- The response whose profile is the captured one. -/
def profileBody : Json where
  value := .object [("profile", .object [])]
  sorted := by simp [JsonValue.Sorted, JsonValue.SortedEntries, SortedMap.Sorted]

/-- A string literal. -/
def isText : Value → Bool
  | .string _ => true
  | _ => false

/-- An object without fields. -/
def isEmptyObject : JsonValue → Bool
  | .object [] => true
  | _ => false

omit [Platform] in
/-- The source is accepted, and its comparison resolves to the captured profile. -/
theorem profile_comparison :
    letI := asciiPlatform
    ∃ suite, checkSource profileSource .new = some ⟨some suite, []⟩ ∧
      ∃ block ∈ suite.blocks, ∃ test ∈ block.tests, ∃ field input resolved found,
        test.expectation.fieldAt [] "profile" = some field ∧
        field.expectedValue = some (.string input) ∧
        RuntimeResolver.resolveExpectation .default profileStore test.expectation = .ok resolved ∧
        resolved.fieldAt [] "profile" = some found ∧ found.expectedValue = some (.object []) ∧
        found.ownFailures .default (.object []) (placeOf [] "profile") 0 =
          [typeFailure "$.profile" "string" "object"] := by
  let := asciiPlatform
  have h : (do
      let report ← checkSource profileSource .new
      let suite ← report.suite
      let block ← suite.blocks[1]?
      let test ← block.tests[0]?
      let field ← test.expectation.fieldAt [] "profile"
      let resolved ← (RuntimeResolver.resolveExpectation .default profileStore
        test.expectation).toOption
      let found ← resolved.fieldAt [] "profile"
      return (report.diagnostics,
        field.expectedValue.any isText, found.expectedValue.any isEmptyObject,
        found.ownFailures .default (.object []) (placeOf [] "profile") 0)) =
      some ([], true, true, [typeFailure "$.profile" "string" "object"]) := by
    decide +kernel
  obtain ⟨⟨suite', diagnostics⟩, hreport, h⟩ := Option.bind_eq_some_iff.mp h
  obtain ⟨suite, hsuite, h⟩ := Option.bind_eq_some_iff.mp h
  obtain ⟨block, hblock, h⟩ := Option.bind_eq_some_iff.mp h
  obtain ⟨test, htest, h⟩ := Option.bind_eq_some_iff.mp h
  obtain ⟨field, hfield, h⟩ := Option.bind_eq_some_iff.mp h
  obtain ⟨resolved, hresolved, h⟩ := Option.bind_eq_some_iff.mp h
  obtain ⟨found, hfound, h⟩ := Option.bind_eq_some_iff.mp h
  simp only [Option.pure_def, Option.some.injEq, Prod.mk.injEq] at h
  obtain ⟨rfl, hvalue, hv, hfailures⟩ := h
  obtain ⟨input, hinput⟩ : ∃ input, field.expectedValue = some (.string input) := by
    rcases hgiven : field.expectedValue with _ | value <;> rw [hgiven] at hvalue
    · cases hvalue
    · cases value with
      | string input => exact ⟨input, rfl⟩
      | _ => cases hvalue
  have hempty : found.expectedValue = some (.object []) := by
    rcases hgiven : found.expectedValue with _ | v <;> rw [hgiven] at hv
    · cases hv
    · cases v with
      | object entries =>
        cases entries with
        | nil => rfl
        | cons entry entries => cases hv
      | _ => cases hv
  have hok : RuntimeResolver.resolveExpectation .default profileStore test.expectation =
      .ok resolved := by
    generalize RuntimeResolver.resolveExpectation .default profileStore test.expectation = r
      at hresolved ⊢
    cases r with
    | error e => cases hresolved
    | ok r => exact congrArg Except.ok (Option.some.inj hresolved)
  exact ⟨suite, by rw [hreport, ← hsuite], block, List.mem_of_getElem? hblock, test,
    List.mem_of_getElem? htest, field, input, resolved, found, hfield, hinput, hok, hfound, hempty,
    hfailures⟩

omit [Platform] in
/-- A captured profile is rejected by the comparison with itself. -/
theorem comparison_rejects_captured :
    letI := asciiPlatform
    ∃ suite, checkSource profileSource .new = some ⟨some suite, []⟩ ∧
      ∃ block ∈ suite.blocks, ∃ test ∈ block.tests, ∃ field resolved found v,
        test.expectation.fieldAt [] "profile" = some field ∧ field.expectedValue.isSome ∧
        RuntimeResolver.resolveExpectation .default profileStore test.expectation = .ok resolved ∧
        resolved.fieldAt [] "profile" = some found ∧ found.expectedValue = some v ∧
        (profileBody.follow ["profile"]).map (·.value) = some v ∧
        found.ownFailures .default v (placeOf [] "profile") 0 ≠ [] := by
  obtain ⟨suite, hsuite, block, hblock, test, htest, field, input, resolved, found, hfield, hvalue,
    hresolved, hfound, hv, hfailures⟩ := profile_comparison
  refine ⟨suite, hsuite, block, hblock, test, htest, field, resolved, found, .object [], hfield,
    by rw [hvalue]; rfl, hresolved, hfound, hv, rfl, ?_⟩
  rw [hfailures]
  exact List.cons_ne_nil _ _

omit [Platform] in
/-- The same comparison is accepted unless its value is a placeholder for something captured. -/
theorem comparison_accepts_profile :
    letI := asciiPlatform
    ∃ (input : InterpolatedString) (resolved : ResolvedResponseExpectation)
      (found : ResolvedFieldAssertion) (v : JsonValue),
      resolved.fieldAt [] "profile" = some found ∧ found.expectedValue = some v ∧
      ∀ (limits : AssertionConfig) (response : HttpResponse) (raw : ByteArray)
        (body actual : Json), response.body = .json raw body →
        body.follow ["profile"] = some actual → actual.value = v →
        0 + 1 + v.levels ≤ limits.maxJsonDepth + 1 →
        found.ownFailures limits v (placeOf [] "profile") 0 <+
            expectationFailures limits.maxJsonDepth resolved response ∧
          (found.ownFailures limits v (placeOf [] "profile") 0 = [] ↔
            ¬ ∃ text name captured, Value.string input = .string text ∧
              Interpolator.IsCapturedPlaceholder profileStore text name captured) := by
  let := asciiPlatform
  obtain ⟨suite, hsuite, block, hblock, test, htest, field, input, resolved, found, hfield, hvalue,
    hresolved, -⟩ := profile_comparison
  obtain ⟨found, v, hfound, hv, h⟩ :=
    comparison_accepts_iff hsuite hblock htest hfield hvalue hresolved
  exact ⟨input, resolved, found, v, hfound, hv, h⟩

end Rettp
