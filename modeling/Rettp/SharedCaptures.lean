import Rettp.AssertionSpec
import Rettp.Capture

/-!
# Shared captures

A capture below another one is stored as a path from the ancestor's document. Reading it gives
what a lookup in the whole response gives (`Reads`), whichever captures stand around it. What
extraction does is said once (`extractObject_spec`): the staged values are those of the declared
captures in order, and it can only fail on a repeated name, on a nested assertion whose value is
no object, and on a missing field, which an assertion that succeeded rules out.
-/

namespace Rettp

/-! ## Declared captures -/

mutual

/-- The captures of an object below a path, with their full paths: a parent, then its fields. -/
def ResolvedObjectAssertion.captures (path : List String) :
    ResolvedObjectAssertion → List (VariableName × List String)
  | ⟨_, fields⟩ => ResolvedFieldAssertion.capturesAll path fields

/-- The captures of several fields, with the paths to them. -/
def ResolvedFieldAssertion.capturesAll (path : List String) :
    List (String × ResolvedFieldAssertion) → List (VariableName × List String)
  | [] => []
  | (_, field) :: fields => field.captures path ++ ResolvedFieldAssertion.capturesAll path fields

/-- The captures of a field, its own before those of its nested fields. -/
def ResolvedFieldAssertion.captures (path : List String) :
    ResolvedFieldAssertion → List (VariableName × List String)
  | ⟨fieldName, _, _, nested, capture⟩ =>
    (capture.map fun capture => (capture.variableName, path ++ [fieldName])).toList ++
      match nested with
      | some assertion => assertion.captures (path ++ [fieldName])
      | none => []

end

mutual

/-- The paths of the fields that have assertions about their own fields. -/
def ResolvedObjectAssertion.nestedPaths (path : List String) :
    ResolvedObjectAssertion → List (List String)
  | ⟨_, fields⟩ => ResolvedFieldAssertion.nestedPathsAll path fields

/-- The paths to the nested objects of several fields. -/
def ResolvedFieldAssertion.nestedPathsAll (path : List String) :
    List (String × ResolvedFieldAssertion) → List (List String)
  | [] => []
  | (_, field) :: fields =>
    field.nestedPaths path ++ ResolvedFieldAssertion.nestedPathsAll path fields

/-- The paths to the nested objects of a field. -/
def ResolvedFieldAssertion.nestedPaths (path : List String) :
    ResolvedFieldAssertion → List (List String)
  | ⟨fieldName, _, _, nested, _⟩ =>
    match nested with
    | some assertion => (path ++ [fieldName]) :: assertion.nestedPaths (path ++ [fieldName])
    | none => []

end

mutual

/-- Every field is declared under its own name. -/
def ResolvedObjectAssertion.Keyed : ResolvedObjectAssertion → Prop
  | ⟨_, fields⟩ => ResolvedFieldAssertion.KeyedAll fields

/-- All fields are stored under their names. -/
def ResolvedFieldAssertion.KeyedAll : List (String × ResolvedFieldAssertion) → Prop
  | [] => True
  | (name, field) :: fields => field.Keyed name ∧ ResolvedFieldAssertion.KeyedAll fields

/-- A field is stored under its name, and so are its nested fields. -/
def ResolvedFieldAssertion.Keyed (name : String) : ResolvedFieldAssertion → Prop
  | ⟨fieldName, _, _, nested, _⟩ => fieldName = name ∧
      match nested with
      | some assertion => assertion.Keyed
      | none => True

end

mutual

/-- Every declared field is there. -/
def ResolvedObjectAssertion.Present : ResolvedObjectAssertion → JsonObject → Prop
  | ⟨_, fields⟩, actual => ResolvedFieldAssertion.PresentAll fields actual

/-- An object has all of the fields. -/
def ResolvedFieldAssertion.PresentAll : List (String × ResolvedFieldAssertion) → JsonObject → Prop
  | [], _ => True
  | (_, field) :: fields, actual =>
    field.Present actual ∧ ResolvedFieldAssertion.PresentAll fields actual

/-- An object has a field, and there what is nested in it. -/
def ResolvedFieldAssertion.Present : ResolvedFieldAssertion → JsonObject → Prop
  | ⟨fieldName, _, _, nested, _⟩, actual =>
    ∃ value, actual.get fieldName = some value ∧
      match nested with
      | some assertion => ∀ object, value.asObject = some object → assertion.Present object
      | none => True

end

/-! ## Staged captures -/

/-- A staged value reads as the value that the path of its capture leads to. -/
def Reads (response : Json) (entry : VariableName × VariableValue)
    (capture : VariableName × List String) : Prop :=
  entry.1 = capture.1 ∧ entry.2.Valid ∧ ∃ value, entry.2.asJson = some value ∧
    response.follow capture.2 = some value

theorem reads_shared {response root value : Json} {path below : List String} (name : VariableName)
    (hroot : response.follow path = some root)
    (hvalue : response.follow (path ++ below) = some value) :
    Reads response (name, .sharedJson ⟨root, below⟩) (name, path ++ below) := by
  have hbelow : root.follow below = some value := by
    rwa [Json.follow_append, hroot, Option.bind_some] at hvalue
  refine ⟨rfl, ?_, value, ?_, hvalue⟩
  · show (root.follow below).isSome
    rw [hbelow, Option.isSome_some]
  · show some ((root.follow below).getD _) = some value
    rw [hbelow, Option.getD_some]

/-- The document that captures below a path share lies on the path. -/
def OnPath (response : Json) (path : List String) (ancestor : Option (Json × Nat)) : Prop :=
  ∀ root depth, ancestor = some (root, depth) →
    depth ≤ path.length ∧ response.follow (path.take depth) = some root

theorem OnPath.below {response : Json} {path : List String} {ancestor : Option (Json × Nat)}
    (h : OnPath response path ancestor) (name : String) :
    OnPath response (path ++ [name]) ancestor := by
  intro root depth hancestor
  obtain ⟨hdepth, hroot⟩ := h root depth hancestor
  rw [List.length_append, List.take_append_of_le_length hdepth]
  exact ⟨by omega, hroot⟩

/-- What extraction comes to: the captures in order, or a reason why not. -/
def Extracts (response : Json) (captures : List (VariableName × List String))
    (nested : List (List String)) (present : Prop) (pending : PendingCaptures) :
    Except RuntimeError PendingCaptures → Prop
  | .ok pending' => ∃ staged, pending'.values = pending.values ++ staged ∧
      List.Forall₂ (Reads response) staged captures
  | .error (.duplicateVariable name) => ∃ before after,
      captures.map Prod.fst = before ++ name :: after ∧ name ∈ pending.names ++ before
  | .error (.invalidNestedCaptureField _ _) =>
      ∃ path ∈ nested, ∃ value, response.follow path = some value ∧ value.asObject = none
  | .error (.missingCaptureField _) => ¬ present
  | .error _ => False

namespace Extracts

variable {response : Json} {captures captures' : List (VariableName × List String)}
  {nested nested' : List (List String)} {present present' : Prop} {pending : PendingCaptures}

theorem names_eq {staged : List (VariableName × VariableValue)}
    (h : List.Forall₂ (Reads response) staged captures) :
    IndexMap.keys staged = captures.map Prod.fst := by
  induction h with
  | nil => rfl
  | cons hread _ ih => rw [IndexMap.keys_cons, List.map_cons, hread.1, ih]

theorem pure : Extracts response [] [] True pending (.ok pending) :=
  ⟨[], (List.append_nil _).symm, .nil⟩

theorem of_present {result : Except RuntimeError PendingCaptures}
    (h : Extracts response captures nested present pending result)
    (hpresent : present' → present) : Extracts response captures nested present' pending result := by
  unfold Extracts at h ⊢
  split at h
  · exact h
  · exact h
  · exact h
  · exact mt hpresent h
  · exact h

theorem of_nested {result : Except RuntimeError PendingCaptures}
    (h : Extracts response captures nested present pending result)
    (hnested : ∀ path ∈ nested, path ∈ nested') :
    Extracts response captures nested' present pending result := by
  unfold Extracts at h ⊢
  split at h
  · exact h
  · exact h
  · obtain ⟨path, hpath, hvalue⟩ := h
    exact ⟨path, hnested path hpath, hvalue⟩
  · exact h
  · exact h

/-- **Extraction step by step.** -/
theorem bind {result : Except RuntimeError PendingCaptures}
    {next : PendingCaptures → Except RuntimeError PendingCaptures}
    (h : Extracts response captures nested present pending result)
    (hnext : ∀ pending', result = .ok pending' →
      Extracts response captures' nested' present' pending' (next pending')) :
    Extracts response (captures ++ captures') (nested ++ nested') (present ∧ present') pending
      (result >>= next) := by
  cases result with
  | error e =>
    show Extracts _ _ _ _ _ (.error e)
    unfold Extracts at h ⊢
    cases e with
    | duplicateVariable name =>
      obtain ⟨before, after, heq, hmem⟩ := h
      refine ⟨before, after ++ captures'.map Prod.fst, ?_, hmem⟩
      rw [List.map_append, heq, List.append_assoc, List.cons_append]
    | invalidNestedCaptureField path actualType =>
      obtain ⟨p, hp, hvalue⟩ := h
      exact ⟨p, List.mem_append_left _ hp, hvalue⟩
    | missingCaptureField path => exact fun hpresent => h hpresent.1
    | _ => exact h
  | ok pending' =>
    obtain ⟨staged, hvalues, hreads⟩ := h
    specialize hnext pending' rfl
    show Extracts _ _ _ _ _ (next pending')
    unfold Extracts at hnext ⊢
    split at hnext
    · obtain ⟨staged', hvalues', hreads'⟩ := hnext
      refine ⟨staged ++ staged', ?_, List.rel_append hreads hreads'⟩
      rw [hvalues', hvalues, List.append_assoc]
    · next name _ =>
      obtain ⟨before, after, heq, hmem⟩ := hnext
      refine ⟨captures.map Prod.fst ++ before, after, ?_, ?_⟩
      · rw [List.map_append, heq, List.append_assoc]
      · have hnames : pending'.names = pending.names ++ captures.map Prod.fst := by
          rw [PendingCaptures.names, hvalues, IndexMap.keys_append, names_eq hreads]
          rfl
        rwa [hnames, List.append_assoc] at hmem
    · obtain ⟨p, hp, hvalue⟩ := hnext
      exact ⟨p, List.mem_append_right _ hp, hvalue⟩
    · exact fun hpresent => hnext hpresent.2
    · exact hnext

/-- The same, where a step also hands something on. -/
theorem bind_fst {α : Type} {result : Except RuntimeError (PendingCaptures × α)}
    {next : PendingCaptures × α → Except RuntimeError PendingCaptures}
    (h : Extracts response captures nested present pending (result.map Prod.fst))
    (hnext : ∀ p, result = .ok p →
      Extracts response captures' nested' present' p.1 (next p)) :
    Extracts response (captures ++ captures') (nested ++ nested') (present ∧ present') pending
      (result >>= next) := by
  cases result with
  | error e =>
    have hbind : Extracts response (captures ++ captures') (nested ++ nested')
        (present ∧ present') pending ((.error e : Except RuntimeError PendingCaptures) >>= .ok) :=
      h.bind fun pending' hok => nomatch hok
    exact hbind
  | ok p =>
    have hbind : Extracts response (captures ++ captures') (nested ++ nested')
        (present ∧ present') pending ((.ok p.1 : Except RuntimeError PendingCaptures) >>=
          fun _ => next p) := by
      refine h.bind fun pending' hok => ?_
      obtain rfl := Except.ok.inj hok
      exact hnext p rfl
    exact hbind

end Extracts

namespace CaptureEngine

/-- Where the documents of a field lead. -/
theorem follow_field {response value : Json} {actual : JsonObject} {path : List String}
    {fieldName : String} (hobject : (response.follow path).bind Json.asObject = some actual)
    (hget : actual.get fieldName = some value) :
    response.follow (path ++ [fieldName]) = some value := by
  obtain ⟨document, hdocument, hactual⟩ := Option.bind_eq_some_iff.mp hobject
  rw [Json.follow_append, hdocument, Option.bind_some, Json.follow, Json.get, hactual,
    Option.bind_some, hget, Option.bind_some, Json.follow]

theorem insert_spec {response : Json} {name : VariableName} {value : VariableValue}
    {path : List String} (hreads : Reads response (name, value) (name, path))
    (pending : PendingCaptures) :
    Extracts response [(name, path)] [] True pending (pending.insert name value) := by
  cases h : pending.insert name value with
  | ok pending' => exact ⟨[(name, value)], (PendingCaptures.insert_ok h).2, .cons hreads .nil⟩
  | error e =>
    unfold PendingCaptures.insert at h
    split at h
    · next hmem =>
      obtain rfl := Except.error.inj h
      exact ⟨[], [], rfl, List.mem_append_left _ hmem⟩
    · cases h

theorem stageCapture_spec {response value : Json} {path : List String} {fieldName : String}
    {ancestor : Option (Json × Nat)} (capture : Option Capture)
    (hvalue : response.follow (path ++ [fieldName]) = some value)
    (hpath : OnPath response path ancestor) (pending : PendingCaptures) :
    Extracts response
        (capture.map fun capture => (capture.variableName, path ++ [fieldName])).toList [] True
        pending ((stageCapture capture value ancestor (path ++ [fieldName]) pending).map Prod.fst) ∧
      ∀ pending' ancestor', stageCapture capture value ancestor (path ++ [fieldName]) pending =
        .ok (pending', ancestor') → OnPath response (path ++ [fieldName]) ancestor' := by
  have hmap (result : Except RuntimeError PendingCaptures) (ancestor' : Option (Json × Nat)) :
      (result >>= fun pending => pure (pending, ancestor')).map Prod.fst = result := by
    cases result <;> rfl
  have hok {result : Except RuntimeError PendingCaptures} {ancestor' b : Option (Json × Nat)}
      {pending' : PendingCaptures} (h : (result >>= fun pending => pure (pending, ancestor')) =
        .ok (pending', b)) : b = ancestor' := by
    cases result with
    | error e => cases h
    | ok p => exact ((Prod.mk.inj (Except.ok.inj h)).2).symm
  match capture, ancestor with
  | none, ancestor =>
    refine ⟨.pure, fun pending' ancestor' h => ?_⟩
    obtain ⟨-, rfl⟩ := Prod.mk.inj (Except.ok.inj h)
    exact hpath.below fieldName
  -- below a captured ancestor the path is cut at the ancestor
  | some capture, some (root, depth) =>
    obtain ⟨hdepth, hroot⟩ := (hpath.below fieldName) root depth rfl
    have hfollow : response.follow
        ((path ++ [fieldName]).take depth ++ (path ++ [fieldName]).drop depth) = some value := by
      rwa [List.take_append_drop]
    have hreads := reads_shared capture.variableName hroot hfollow
    rw [List.take_append_drop] at hreads
    unfold stageCapture
    refine ⟨?_, fun pending' ancestor' h => ?_⟩
    · rw [hmap]
      exact insert_spec hreads pending
    · rw [hok h]
      exact hpath.below fieldName
  -- the topmost capture becomes the ancestor of those below it
  | some capture, none =>
    have hfollow : response.follow (path ++ [fieldName] ++ []) = some value := by
      rwa [List.append_nil]
    have hreads := reads_shared capture.variableName hvalue hfollow
    rw [List.append_nil] at hreads
    unfold stageCapture
    refine ⟨?_, fun pending' ancestor' h => ?_⟩
    · rw [hmap]
      exact insert_spec hreads pending
    · rw [hok h]
      rintro root depth ⟨⟩
      rw [List.take_length]
      exact ⟨Nat.le_refl _, hvalue⟩

mutual

theorem captures_eq_nil (assertion : ResolvedObjectAssertion)
    (h : containsCapture assertion = false) (path : List String) : assertion.captures path = [] := by
  match assertion with
  | ⟨mode, fields⟩ => exact capturesAll_eq_nil fields h path

theorem capturesAll_eq_nil (fields : List (String × ResolvedFieldAssertion))
    (h : anyCapture fields = false) (path : List String) :
    ResolvedFieldAssertion.capturesAll path fields = [] := by
  match fields with
  | [] => rfl
  | (name, field) :: fields =>
    rw [anyCapture, Bool.or_eq_false_iff] at h
    rw [ResolvedFieldAssertion.capturesAll, fieldCaptures_eq_nil field h.1,
      capturesAll_eq_nil fields h.2]
    rfl

theorem fieldCaptures_eq_nil (field : ResolvedFieldAssertion) (h : fieldCapture field = false)
    (path : List String) : field.captures path = [] := by
  match field with
  | ⟨fieldName, expectedType, expectedValue, nested, capture⟩ =>
    rw [fieldCapture.eq_def, Bool.or_eq_false_iff] at h
    obtain rfl : capture = none := by simpa using h.1
    rw [ResolvedFieldAssertion.captures.eq_def]
    match nested with
    | none => rfl
    | some nested => exact captures_eq_nil nested h.2 (path ++ [fieldName])

end

variable [Platform]

mutual

/-- **Extraction.** -/
theorem extractObject_spec {response : Json} (assertion : ResolvedObjectAssertion)
    {actual : JsonObject} {path : List String} {ancestor : Option (Json × Nat)}
    (hobject : (response.follow path).bind Json.asObject = some actual)
    (hpath : OnPath response path ancestor) (text : String) (pending : PendingCaptures) :
    Extracts response (assertion.captures path) (assertion.nestedPaths path)
      (assertion.Present actual) pending
      (extractObject assertion actual ancestor path text pending) := by
  match assertion with
  | ⟨mode, fields⟩ => exact extractFields_spec fields hobject hpath text pending

theorem extractFields_spec {response : Json} (fields : List (String × ResolvedFieldAssertion))
    {actual : JsonObject} {path : List String} {ancestor : Option (Json × Nat)}
    (hobject : (response.follow path).bind Json.asObject = some actual)
    (hpath : OnPath response path ancestor) (text : String) (pending : PendingCaptures) :
    Extracts response (ResolvedFieldAssertion.capturesAll path fields)
      (ResolvedFieldAssertion.nestedPathsAll path fields)
      (ResolvedFieldAssertion.PresentAll fields actual) pending
      (extractFields fields actual ancestor path text pending) := by
  match fields with
  | [] => exact .pure
  | (name, field) :: fields =>
    exact (extractField_spec field hobject hpath text pending).bind fun pending' _ =>
      extractFields_spec fields hobject hpath text pending'

theorem extractField_spec {response : Json} (field : ResolvedFieldAssertion)
    {actual : JsonObject} {path : List String} {ancestor : Option (Json × Nat)}
    (hobject : (response.follow path).bind Json.asObject = some actual)
    (hpath : OnPath response path ancestor) (text : String) (pending : PendingCaptures) :
    Extracts response (field.captures path) (field.nestedPaths path) (field.Present actual) pending
      (extractField field actual ancestor path text pending) := by
  match field with
  | ⟨fieldName, expectedType, expectedValue, nested, capture⟩ =>
    rw [extractField, ResolvedFieldAssertion.Present, ResolvedFieldAssertion.captures.eq_def,
      ResolvedFieldAssertion.nestedPaths.eq_def]
    cases hget : actual.get fieldName with
    | none => exact fun ⟨value, hvalue, _⟩ => absurd hvalue (by simp)
    | some value =>
      have hvalue := follow_field hobject hget
      obtain ⟨hstage, hbelow⟩ := stageCapture_spec capture hvalue hpath pending
      cases nested with
      | none =>
        have hfield := hstage.bind_fst fun p _ => @Extracts.pure response p.1
        exact hfield.of_present fun _ => ⟨trivial, trivial⟩
      | some nested =>
        cases hnested : value.asObject with
        | none =>
          -- the value is looked at after the capture of the field has been staged
          simp only [hnested]
          have herror (p : PendingCaptures × Option (Json × Nat)) : Extracts response
              (nested.captures (path ++ [fieldName]))
              ((path ++ [fieldName]) :: nested.nestedPaths (path ++ [fieldName])) True p.1
              (.error (.invalidNestedCaptureField (childPath text fieldName)
                (jsonTypeName value.value))) :=
            ⟨_, List.mem_cons_self, value, hvalue, hnested⟩
          exact (hstage.bind_fst fun p _ => herror p).of_present fun _ => ⟨trivial, trivial⟩
        | some object =>
          simp only [hnested]
          have hobject' : (response.follow (path ++ [fieldName])).bind Json.asObject = some object := by
            rw [hvalue, Option.bind_some, hnested]
          have hfield (p : PendingCaptures × Option (Json × Nat))
              (hp : stageCapture capture value ancestor (path ++ [fieldName]) pending = .ok p) :
              Extracts response (nested.captures (path ++ [fieldName]))
                ((path ++ [fieldName]) :: nested.nestedPaths (path ++ [fieldName]))
                (nested.Present object) p.1
                (extractObject nested object p.2 (path ++ [fieldName]) (childPath text fieldName)
                  p.1) :=
            (extractObject_spec nested hobject' (hbelow p.1 p.2 hp) _ p.1).of_nested
              fun path hpath => List.mem_cons_of_mem _ hpath
          refine (hstage.bind_fst hfield).of_present fun hpresent => ⟨trivial, ?_⟩
          obtain ⟨value', hvalue', hobjects⟩ := hpresent
          obtain rfl := Option.some.inj hvalue'
          exact hobjects object hnested

end

/-- Extraction from a whole response. -/
theorem extractObject_root {response : Json} (assertion : ResolvedObjectAssertion)
    {object : JsonObject} (hobject : response.asObject = some object) :
    Extracts response (assertion.captures []) (assertion.nestedPaths []) (assertion.Present object)
      PendingCaptures.new (extractObject assertion object none [] "$" PendingCaptures.new) := by
  have hroot : (response.follow []).bind Json.asObject = some object := by
    rw [Json.follow, Option.bind_some, hobject]
  have hpath : OnPath response [] none := by rintro root depth ⟨⟩
  exact extractObject_spec assertion hroot hpath "$" PendingCaptures.new

/-! ## Fields of a response that satisfies an assertion -/

omit [Platform] in
theorem withinDepth_eq_nil {limit depth : Nat} {text : String} {failures : List AssertionFailure}
    (h : withinDepth limit text depth failures = []) : failures = [] := by
  unfold withinDepth at h
  split at h
  · exact h
  · cases h

mutual

/-- An assertion that succeeds finds every declared field. -/
theorem present_of_object (limit : Nat) (assertion : ResolvedObjectAssertion)
    (hkeyed : assertion.Keyed) {actual : JsonObject} {text : String} {depth : Nat}
    (h : objectFailures limit assertion actual.entries text depth = []) :
    assertion.Present actual := by
  match assertion with
  | ⟨mode, fields⟩ =>
    rw [objectFailures.eq_def] at h
    obtain ⟨hfields, -⟩ := List.append_eq_nil_iff.mp (withinDepth_eq_nil h)
    exact present_of_fields limit fields hkeyed hfields

theorem present_of_fields (limit : Nat) (fields : List (String × ResolvedFieldAssertion))
    (hkeyed : ResolvedFieldAssertion.KeyedAll fields) {actual : JsonObject} {text : String}
    {depth : Nat} (h : fieldsFailures limit fields actual.entries text depth = []) :
    ResolvedFieldAssertion.PresentAll fields actual := by
  match fields with
  | [] => trivial
  | (name, field) :: fields =>
    rw [fieldsFailures] at h
    rw [ResolvedFieldAssertion.KeyedAll] at hkeyed
    rw [ResolvedFieldAssertion.PresentAll]
    obtain ⟨hfield, hfields⟩ := List.append_eq_nil_iff.mp h
    refine ⟨?_, present_of_fields limit fields hkeyed.2 hfields⟩
    cases hget : IndexMap.get actual.entries name with
    | none =>
      rw [hget] at hfield
      cases hfield
    | some v =>
      rw [hget] at hfield
      obtain ⟨value, hvalue, rfl⟩ : ∃ value : Json, actual.get name = some value ∧ value.value = v :=
        ⟨⟨v, actual.sorted.2.get hget⟩, JsonObject.get_eq_some_iff.mpr hget, rfl⟩
      exact present_of_field limit field hkeyed.1 hvalue hfield

theorem present_of_field (limit : Nat) (field : ResolvedFieldAssertion) {name : String}
    (hkeyed : field.Keyed name) {actual : JsonObject} {value : Json}
    (hget : actual.get name = some value) {text : String} {depth : Nat}
    (h : fieldFailures limit field value.value text depth = []) : field.Present actual := by
  match field with
  | ⟨fieldName, expectedType, expectedValue, nested, capture⟩ =>
    rw [ResolvedFieldAssertion.Keyed.eq_def] at hkeyed
    obtain ⟨rfl, hnested⟩ := hkeyed
    rw [ResolvedFieldAssertion.Present]
    refine ⟨value, hget, ?_⟩
    match nested with
    | none => trivial
    | some nested =>
      intro object hobject
      rw [fieldFailures.eq_def] at h
      dsimp only at h
      split at h
      · cases h
      · obtain ⟨-, hobjects⟩ := List.append_eq_nil_iff.mp h
        rw [Json.asObject_eq_some_iff.mp hobject] at hobjects
        exact present_of_object limit nested hnested hobjects

end

/-- A response that satisfies an object assertion is an object. -/
theorem object_of_success {config : AssertionConfig} {expected : ResolvedResponseExpectation}
    {assertion : ResolvedObjectAssertion} {actual : HttpResponse} {raw : ByteArray} {response : Json}
    (hbody : expected.body = some (.json assertion)) (hactual : actual.body = .json raw response)
    (hsuccess : (Rettp.evaluate config expected actual).isSuccess = true) :
    ∃ object, response.asObject = some object ∧
      objectFailures config.maxJsonDepth assertion object.entries "$" 0 = [] := by
  rw [evaluate_isSuccess_iff] at hsuccess
  obtain ⟨-, hfailures⟩ := List.append_eq_nil_iff.mp hsuccess
  simp only [bodyFailures, hbody, hactual] at hfailures
  split at hfailures
  · cases hfailures
  · next entries hentries =>
    have hvalue := asObject_eq_some.mp hentries
    obtain ⟨object, hobject⟩ : ∃ object, response.asObject = some object :=
      ⟨⟨entries, hvalue ▸ response.sorted⟩, Json.asObject_eq_some_iff.mpr hvalue⟩
    have heq := Json.asObject_eq_some_iff.mp hobject
    rw [hvalue] at heq
    obtain rfl : entries = object.entries := JsonValue.object.inj heq
    exact ⟨object, hobject, hfailures⟩

/-- **Shared captures read the same as direct lookup.** -/
theorem evaluate_captures (config : AssertionConfig) {expected : ResolvedResponseExpectation}
    {assertion : ResolvedObjectAssertion} {actual : HttpResponse} {raw : ByteArray} {response : Json}
    (hbody : expected.body = some (.json assertion)) (hkeyed : assertion.Keyed)
    (hactual : actual.body = .json raw response)
    (hsuccess : (Rettp.evaluate config expected actual).isSuccess = true) :
    match evaluate config expected actual with
    | .ok ⟨_, pending⟩ => ∃ staged, pending = some staged ∧
        List.Forall₂ (Reads response) staged.values (assertion.captures [])
    | .error e =>
      (∃ name before after, e = .duplicateVariable name ∧
        (assertion.captures []).map Prod.fst = before ++ name :: after ∧ name ∈ before) ∨
      ∃ path type, e = .invalidNestedCaptureField path type ∧
        ∃ p ∈ assertion.nestedPaths [], ∃ value, response.follow p = some value ∧
          value.asObject = none := by
  obtain ⟨object, hobject, hfailures⟩ := object_of_success hbody hactual hsuccess
  unfold evaluate
  simp only [hsuccess, hbody, hactual, hobject, Bool.not_true, Bool.false_eq_true, if_false]
  by_cases hcontains : containsCapture assertion = true
  · simp only [hcontains, Bool.not_true, Bool.false_eq_true, if_false]
    have hextracts := extractObject_root assertion hobject
    have hpresent := present_of_object config.maxJsonDepth assertion hkeyed hfailures
    cases hresult : extractObject assertion object none [] "$" PendingCaptures.new with
    | ok pending =>
      rw [hresult] at hextracts
      obtain ⟨staged, hvalues, hreads⟩ := hextracts
      exact ⟨pending, rfl, by rwa [hvalues]⟩
    | error e =>
      rw [hresult] at hextracts
      cases e with
      | duplicateVariable name =>
        obtain ⟨before, after, hnames, hmem⟩ := hextracts
        exact .inl ⟨name, before, after, rfl, hnames, hmem⟩
      | invalidNestedCaptureField path type => exact .inr ⟨path, type, rfl, hextracts⟩
      | missingCaptureField path => exact absurd hpresent hextracts
      | _ => exact hextracts.elim
  · rw [Bool.not_eq_true] at hcontains
    simp only [hcontains, Bool.not_false, if_true]
    exact ⟨PendingCaptures.new, rfl, by rw [captures_eq_nil assertion hcontains]; exact .nil⟩

/-- A capture below another one. -/
def userAssertion : ResolvedObjectAssertion :=
  ⟨.partially, [("user", ⟨"user", .object, none,
    some ⟨.partially, [("name", ⟨"name", .string, none, none, some ⟨⟨"name"⟩⟩⟩)]⟩,
    some ⟨⟨"user"⟩⟩⟩)]⟩

/-- A user with a name. -/
def userResponse : Json where
  value := .object [("user", .object [("id", .null), ("name", .string "Ada")])]
  sorted := by
    simp [JsonValue.Sorted, JsonValue.SortedEntries, SortedMap.Sorted, -String.lt_iff_ltb]

omit [Platform] in
/-- The user is captured as it stands in the response. -/
theorem evaluate_captures_user :
    letI := asciiPlatform
    match evaluate AssertionConfig.default ⟨none, [], some (.json userAssertion)⟩
      ⟨200, ResponseHeaders.new, .json ByteArray.empty userResponse⟩ with
    | .ok ⟨_, pending⟩ => ∃ staged, pending = some staged ∧
        List.Forall₂ (Reads userResponse) staged.values (userAssertion.captures [])
    | .error e =>
      (∃ name before after, e = .duplicateVariable name ∧
        (userAssertion.captures []).map Prod.fst = before ++ name :: after ∧ name ∈ before) ∨
      ∃ path type, e = .invalidNestedCaptureField path type ∧
        ∃ p ∈ userAssertion.nestedPaths [], ∃ value, userResponse.follow p = some value ∧
          value.asObject = none := by
  let := asciiPlatform
  have hkeyed : userAssertion.Keyed := by
    simp [userAssertion, ResolvedObjectAssertion.Keyed, ResolvedFieldAssertion.KeyedAll,
      ResolvedFieldAssertion.Keyed]
  let expected : ResolvedResponseExpectation := ⟨none, [], some (.json userAssertion)⟩
  let actual : HttpResponse := ⟨200, ResponseHeaders.new, .json ByteArray.empty userResponse⟩
  have hbody : expected.body = some (.json userAssertion) := rfl
  have hactual : actual.body = .json ByteArray.empty userResponse := rfl
  have hsuccess : (Rettp.evaluate AssertionConfig.default expected actual).isSuccess = true := by
    decide +kernel
  exact evaluate_captures AssertionConfig.default hbody hkeyed hactual hsuccess

end CaptureEngine

end Rettp
