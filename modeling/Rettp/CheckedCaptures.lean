import Rettp.CheckedExpectations
import Rettp.Restore
import Rettp.Transaction

/-!
# The captures of a checked test

The captures of a suite and those of its syntax tree are the same up to their order
(`ExpectationRules.captures_perm`), so that the checker's rules about them hold of what is
executed. For a regular expectation with distinct captures an evaluation never ends in an error
(`evaluate_isOk`): a response that satisfies the expectation has every captured field, and an
object wherever an assertion is nested.
-/

namespace Rettp

/-! ## Declared captures -/

theorem keys_capturesAll (fields : List FieldAssertionAst) :
    IndexMap.keys (FieldAssertion.capturesAll (fieldsToEntries fields)) =
      fields.map (·.name.value) := by
  induction fields with
  | nil => rfl
  | cons field fields ih =>
    rw [fieldsToEntries, FieldAssertion.capturesAll, IndexMap.keys_cons, ih, List.map_cons]

mutual

/-- An object lists the captures of a field before those below it, its tree after them. -/
theorem ObjectAssertionAst.captures_perm (assertion : ObjectAssertionAst)
    (hnames : ∀ names ∈ assertion.nameLists, names.Nodup) :
    assertion.toAssertion.captures.Perm (assertion.captures.map VariableName.mk) := by
  match assertion with
  | ⟨mode, fields, span⟩ =>
    rw [ObjectAssertionAst.nameLists, List.forall_mem_cons] at hnames
    have hkeys : IndexMap.keys (FieldAssertion.capturesAll (fieldsToEntries fields)) =
        fields.map (·.name.value) := keys_capturesAll fields
    rw [ObjectAssertionAst.toAssertion, ObjectAssertion.captures,
      IndexMap.ofEntries_of_nodup (by rw [hkeys]; exact hnames.1)]
    exact capturesOfFields_perm fields hnames.2

theorem capturesOfFields_perm (fields : List FieldAssertionAst)
    (hnames : ∀ names ∈ nameListsOfFields fields, names.Nodup) :
    ((FieldAssertion.capturesAll (fieldsToEntries fields)).flatMap Prod.snd).Perm
      ((capturesOfFields (allFieldsOf fields)).map VariableName.mk) := by
  match fields with
  | [] => exact .refl _
  | field :: fields =>
    rw [nameListsOfFields, List.forall_mem_append] at hnames
    rw [fieldsToEntries, FieldAssertion.capturesAll, List.flatMap_cons, allFieldsOf,
      capturesOfFields, List.flatMap_append, List.map_append]
    exact (field.captures_perm hnames.1).append (capturesOfFields_perm fields hnames.2)

theorem FieldAssertionAst.captures_perm (field : FieldAssertionAst)
    (hnames : ∀ names ∈ field.nameLists, names.Nodup) :
    field.toField.captures.Perm ((capturesOfFields field.allFields).map VariableName.mk) := by
  match field with
  | ⟨name, expectedType, expectedValue, nested, capture, span⟩ =>
    rw [FieldAssertionAst.nameLists] at hnames
    rw [FieldAssertionAst.toField, FieldAssertion.captures.eq_def, FieldAssertionAst.allFields,
      capturesOfFields, List.flatMap_append, List.map_append]
    refine List.perm_append_comm.trans (.append ?_ ?_)
    · match nested with
      | none => exact .refl _
      | some nested => exact nested.captures_perm hnames
    · cases capture <;> exact .refl _

end

/-- The captures of a body. -/
def BodyAssertion.captures : BodyAssertion → List VariableName
  | .json assertion => assertion.captures
  | .empty | .text _ => []

theorem ResponseExpectation.captures_eq (expectation : ResponseExpectation) :
    expectation.captures = expectation.body.toList.flatMap BodyAssertion.captures := by
  obtain ⟨status, headers, body⟩ := expectation
  match body with
  | none => rfl
  | some .empty => rfl
  | some (.text _) => rfl
  | some (.json assertion) => exact (List.append_nil _).symm

/-- The captures of a section. -/
theorem ExpectationSectionAst.captures_perm (section_ : ExpectationSectionAst)
    (hnames : ∀ assertion ∈ section_.assertions, ∀ names ∈ assertion.nameLists, names.Nodup) :
    (section_.toBodies.flatMap BodyAssertion.captures).Perm
      (section_.captures.map VariableName.mk) := by
  match section_ with
  | .status _ => exact .refl _
  | .headers _ => exact .refl _
  | .body (.empty _) => exact .refl _
  | .body (.textExact _ _) => exact .refl _
  | .body (.textContains _ _) => exact .refl _
  | .body (.object assertion) =>
    have hcaptures := assertion.captures_perm (hnames assertion (List.mem_singleton_self _))
    simpa [ExpectationSectionAst.toBodies, BodyAssertionAst.toAssertion, BodyAssertion.captures,
      ExpectationSectionAst.captures, ExpectationSectionAst.assertions,
      BodyAssertionAst.assertions] using hcaptures

/-- **The captures of an expectation** are those of its tree. -/
theorem ExpectationRules.captures_perm [Platform] {scope : Finset VariableName} {limit : Nat}
    {expectation : ExpectationAst} (h : ExpectationRules scope limit expectation) :
    expectation.toExpectation.captures.Perm (expectation.captures.map VariableName.mk) := by
  rw [ResponseExpectation.captures_eq, Restore.body_toExpectation h.sections, List.flatMap_assoc,
    ExpectationAst.captures, List.map_flatMap]
  refine List.Perm.flatMap_left _ fun section_ hsection => section_.captures_perm ?_
  intro assertion hassertion names hnames
  have hrules := h.assertions assertion (List.mem_flatMap.mpr ⟨section_, hsection, hassertion⟩)
  exact Converter.DistinctNamesBy.nodup (hrules.names names hnames)

/-- The captures of a test are those that its tree declares. -/
theorem TestRules.captures_perm [Platform] {scope : Finset VariableName} {limit : Nat}
    {test : TestAst} (h : TestRules scope limit test) :
    test.toCase.expectation.captures.Perm (test.captures.map VariableName.mk) := by
  obtain ⟨-, ⟨request, hrequest, -⟩, expectation, hexpectation, hrules⟩ := h
  rw [TestAst.toCase, hrequest, hexpectation, TestAst.captures, hexpectation, List.flatMap_singleton]
  exact hrules.captures_perm

theorem TestRules.captures_nodup [Platform] {scope : Finset VariableName} {limit : Nat}
    {test : TestAst} (h : TestRules scope limit test) :
    test.toCase.expectation.captures.Nodup := by
  rw [h.captures_perm.nodup_iff]
  obtain ⟨-, -, expectation, hexpectation, hrules⟩ := h
  rw [TestAst.captures, hexpectation, List.flatMap_singleton]
  exact hrules.distinctCaptures.map fun a b hab => congrArg VariableName.raw hab

/-- A test captures nothing that is visible to it. -/
theorem TestRules.captures_new [Platform] {scope : Finset VariableName} {limit : Nat}
    {test : TestAst} (h : TestRules scope limit test) {name : VariableName}
    (hname : name ∈ test.toCase.expectation.captures) : name ∉ scope := by
  rw [h.captures_perm.mem_iff] at hname
  obtain ⟨text, htext, rfl⟩ := List.mem_map.mp hname
  obtain ⟨-, -, expectation, hexpectation, hrules⟩ := h
  rw [TestAst.captures, hexpectation, List.flatMap_singleton] at htext
  obtain ⟨variable_, hnew, hfresh⟩ := hrules.captures text htext
  obtain rfl := VariableName.new_ok hnew
  exact hfresh

/-! ## Evaluation -/

/-- Wherever one of the paths leads, there is an object. -/
def ObjectsAt (response : Json) (paths : List (List String)) : Prop :=
  ∀ path ∈ paths, ∀ value, response.follow path = some value → value.asObject ≠ none

theorem ObjectsAt.append {response : Json} {paths paths' : List (List String)}
    (h : ObjectsAt response paths) (h' : ObjectsAt response paths') :
    ObjectsAt response (paths ++ paths') := by
  intro path hpath
  rcases List.mem_append.mp hpath with hpath | hpath
  · exact h path hpath
  · exact h' path hpath

theorem ObjectsAt.cons {response value : Json} {path : List String} {object : JsonObject}
    {paths : List (List String)} (hvalue : response.follow path = some value)
    (hobject : value.asObject = some object) (h : ObjectsAt response paths) :
    ObjectsAt response (path :: paths) := by
  refine List.forall_mem_cons.mpr ⟨?_, h⟩
  intro value' hvalue'
  obtain rfl := Option.some.inj (hvalue.symm.trans hvalue')
  rw [hobject]
  exact Option.some_ne_none object

/-- A value of the type `object`. -/
theorem exists_asObject {value : Json} (h : matchesExpectedType value.value .object = true) :
    ∃ object, value.asObject = some object := by
  obtain ⟨entries, hentries⟩ := Option.isSome_iff_exists.mp h
  have hvalue := asObject_eq_some.mp hentries
  exact ⟨⟨entries, hvalue ▸ value.sorted⟩, Json.asObject_eq_some_iff.mpr hvalue⟩

variable [Platform]

namespace CaptureEngine

mutual

/-- An assertion that succeeds finds an object at every nested assertion. -/
theorem objects_of_object (limit : Nat) (assertion : ResolvedObjectAssertion)
    (hkeyed : assertion.Keyed) (htyped : assertion.NestedOnObjects) {response : Json}
    {actual : JsonObject} {path : List String}
    (hobject : (response.follow path).bind Json.asObject = some actual) {text : String}
    {depth : Nat} (h : objectFailures limit assertion actual.entries text depth = []) :
    ObjectsAt response (assertion.nestedPaths path) := by
  match assertion with
  | ⟨mode, fields⟩ =>
    rw [objectFailures.eq_def] at h
    obtain ⟨hfields, -⟩ := List.append_eq_nil_iff.mp (withinDepth_eq_nil h)
    exact objects_of_fields limit fields hkeyed htyped hobject hfields

theorem objects_of_fields (limit : Nat) (fields : List (String × ResolvedFieldAssertion))
    (hkeyed : ResolvedFieldAssertion.KeyedAll fields)
    (htyped : ResolvedFieldAssertion.NestedOnObjectsAll fields) {response : Json}
    {actual : JsonObject} {path : List String}
    (hobject : (response.follow path).bind Json.asObject = some actual) {text : String}
    {depth : Nat} (h : fieldsFailures limit fields actual.entries text depth = []) :
    ObjectsAt response (ResolvedFieldAssertion.nestedPathsAll path fields) := by
  match fields with
  | [] => exact nofun
  | (name, field) :: fields =>
    rw [fieldsFailures] at h
    rw [ResolvedFieldAssertion.KeyedAll] at hkeyed
    rw [ResolvedFieldAssertion.NestedOnObjectsAll] at htyped
    rw [ResolvedFieldAssertion.nestedPathsAll]
    obtain ⟨hfield, hfields⟩ := List.append_eq_nil_iff.mp h
    refine .append ?_ (objects_of_fields limit fields hkeyed.2 htyped.2 hobject hfields)
    cases hget : IndexMap.get actual.entries name with
    | none =>
      rw [hget] at hfield
      cases hfield
    | some v =>
      rw [hget] at hfield
      obtain ⟨value, hvalue, rfl⟩ : ∃ value : Json, actual.get name = some value ∧ value.value = v :=
        ⟨⟨v, actual.sorted.2.get hget⟩, JsonObject.get_eq_some_iff.mpr hget, rfl⟩
      exact objects_of_field limit field hkeyed.1 htyped.1 hobject hvalue hfield

theorem objects_of_field (limit : Nat) (field : ResolvedFieldAssertion) {name : String}
    (hkeyed : field.Keyed name) (htyped : field.NestedOnObjects) {response value : Json}
    {actual : JsonObject} {path : List String}
    (hobject : (response.follow path).bind Json.asObject = some actual)
    (hget : actual.get name = some value) {text : String} {depth : Nat}
    (h : fieldFailures limit field value.value text depth = []) :
    ObjectsAt response (field.nestedPaths path) := by
  match field with
  | ⟨fieldName, expectedType, expectedValue, nested, capture⟩ =>
    rw [ResolvedFieldAssertion.Keyed.eq_def] at hkeyed
    rw [ResolvedFieldAssertion.NestedOnObjects.eq_def] at htyped
    rw [ResolvedFieldAssertion.nestedPaths.eq_def]
    obtain ⟨rfl, hkeyed⟩ := hkeyed
    match nested with
    | none => exact nofun
    | some nested =>
      obtain ⟨rfl, htyped⟩ := htyped
      rw [fieldFailures.eq_def] at h
      dsimp only at h
      split at h
      · cases h
      · next htype =>
        -- the checker allows a nested assertion on the type object only
        obtain ⟨object, hvalue⟩ := exists_asObject (by simpa using htype)
        have hfollow := follow_field hobject hget
        obtain ⟨-, hbelow⟩ := List.append_eq_nil_iff.mp h
        rw [Json.asObject_eq_some_iff.mp hvalue] at hbelow
        refine .cons hfollow hvalue ?_
        exact objects_of_object limit nested hkeyed htyped
          (by rw [hfollow, Option.bind_some, hvalue]) hbelow

end

/-- **Extraction from a response that satisfies the assertion.** -/
theorem extractObject_isOk {limit : Nat} {assertion : ResolvedObjectAssertion}
    (hregular : assertion.Regular) (hdistinct : ((assertion.captures []).map Prod.fst).Nodup)
    {response : Json} {object : JsonObject} (hobject : response.asObject = some object)
    (hfailures : objectFailures limit assertion object.entries "$" 0 = []) :
    ∃ pending, extractObject assertion object none [] "$" PendingCaptures.new = .ok pending := by
  have hextracts := extractObject_root assertion hobject
  cases hresult : extractObject assertion object none [] "$" PendingCaptures.new with
  | ok pending => exact ⟨pending, rfl⟩
  | error e =>
    rw [hresult] at hextracts
    exfalso
    cases e with
    | duplicateVariable name =>
      obtain ⟨before, after, hnames, hmem⟩ := hextracts
      rw [hnames, List.nodup_append] at hdistinct
      exact hdistinct.2.2 name hmem name List.mem_cons_self rfl
    | invalidNestedCaptureField path type =>
      obtain ⟨p, hp, value, hvalue, hnone⟩ := hextracts
      have hroot : (response.follow []).bind Json.asObject = some object := by
        rw [Json.follow, Option.bind_some, hobject]
      exact objects_of_object limit assertion hregular.keyed hregular.nestedOnObjects hroot
        hfailures p hp value hvalue hnone
    | missingCaptureField path =>
      exact hextracts (present_of_object limit assertion hregular.keyed hfailures)
    | _ => exact hextracts

/-- A response that satisfies an object assertion has a JSON body. -/
theorem json_of_success {config : AssertionConfig} {expected : ResolvedResponseExpectation}
    {assertion : ResolvedObjectAssertion} {actual : HttpResponse}
    (hbody : expected.body = some (.json assertion))
    (hsuccess : (Rettp.evaluate config expected actual).isSuccess = true) :
    ∃ raw response, actual.body = .json raw response := by
  rw [evaluate_isSuccess_iff] at hsuccess
  obtain ⟨-, hfailures⟩ := List.append_eq_nil_iff.mp hsuccess
  simp only [bodyFailures, hbody] at hfailures
  cases hactual : actual.body with
  | json raw response => exact ⟨raw, response, rfl⟩
  | _ =>
    rw [hactual] at hfailures
    cases hfailures

/-- **Evaluation of a checked expectation.** -/
theorem evaluate_isOk (config : AssertionConfig) {expected : ResolvedResponseExpectation}
    (hregular : ∀ object, expected.body = some (.json object) → object.Regular)
    (hdistinct : (expected.captures.map Prod.fst).Nodup) (actual : HttpResponse) :
    ∃ evaluation, evaluate config expected actual = .ok evaluation := by
  unfold evaluate
  dsimp only
  cases hsuccess : (Rettp.evaluate config expected actual).isSuccess with
  | false =>
    rw [Bool.not_false, if_pos rfl]
    exact ⟨_, rfl⟩
  | true =>
    rw [Bool.not_true, if_neg Bool.false_ne_true]
    rw [ResolvedResponseExpectation.captures] at hdistinct
    match hbody : expected.body with
    | none => exact ⟨_, rfl⟩
    | some .empty => exact ⟨_, rfl⟩
    | some (.text text) => exact ⟨_, rfl⟩
    | some (.json assertion) =>
      -- success rules out every body that is not a JSON object
      obtain ⟨raw, response, hactual⟩ := json_of_success hbody hsuccess
      obtain ⟨object, hobject, hfailures⟩ := object_of_success hbody hactual hsuccess
      rw [hbody] at hdistinct
      obtain ⟨pending, hpending⟩ := extractObject_isOk (hregular assertion hbody) hdistinct hobject
        hfailures
      dsimp only
      rw [hactual]
      dsimp only
      rw [hobject]
      dsimp only
      rw [hpending]
      split
      · exact ⟨_, rfl⟩
      · exact ⟨_, rfl⟩

end CaptureEngine

end Rettp
