import Rettp.AssertionSpec
import Rettp.FailurePath

/-!
# What failures report

The other side of `ExpectationHolds`: where a response deviates from an expectation, and how. A
deviation has a place and a kind, and no order, no path text and no limits (`Deviates`).

A report lists deviations only, and unless it is truncated it lists all of them
(`evaluate_reports`).
-/

namespace Rettp

/-! ## Deviations -/

/-- The actual value has the JSON type of the expected one. With `flexible`, any number has the type
of an integer. -/
def SameType (flexible : Bool) : JsonValue → JsonValue → Prop
  | .null, actual => actual = .null
  | .bool _, actual => ∃ b, actual = .bool b
  | .string _, actual => ∃ s, actual = .string s
  | .number m, actual => ∃ n, actual = .number n ∧ (flexible = false → IsInteger m → IsInteger n)
  | .array _, actual => ∃ ws, actual = .array ws
  | .object _, actual => ∃ es, actual = .object es

/-- A value deviates from an expected one. -/
inductive ValueDeviates : Bool → JsonValue → JsonValue → List PathStep → AssertionFailureKind → Prop
  | type {flexible : Bool} {expected actual : JsonValue}
      (h : ¬ SameType flexible expected actual) :
      ValueDeviates flexible expected actual [] .typeMismatch
  | bool {flexible b b' : Bool} (h : b ≠ b') :
      ValueDeviates flexible (.bool b) (.bool b') [] .valueMismatch
  | string {flexible : Bool} {s s' : String} (h : s ≠ s') :
      ValueDeviates flexible (.string s) (.string s') [] .valueMismatch
  | number {flexible : Bool} {m n : JsonNumber}
      (htype : SameType flexible (.number m) (.number n)) (h : ¬ SameNumber m n) :
      ValueDeviates flexible (.number m) (.number n) [] .valueMismatch
  | length {flexible : Bool} {vs ws : List JsonValue} (h : vs.length ≠ ws.length) :
      ValueDeviates flexible (.array vs) (.array ws) [] .valueMismatch
  | item {flexible : Bool} {vs ws : List JsonValue} {i : Nat} {v w : JsonValue}
      {steps : List PathStep} {kind : AssertionFailureKind} (hv : vs[i]? = some v)
      (hw : ws[i]? = some w) (h : ValueDeviates false v w steps kind) :
      ValueDeviates flexible (.array vs) (.array ws) (.index i :: steps) kind
  | missing {flexible : Bool} {es es' : List (String × JsonValue)} {key : String} {v : JsonValue}
      (hv : (key, v) ∈ es) (h : IndexMap.get es' key = none) :
      ValueDeviates flexible (.object es) (.object es') [.key key] .missingField
  | entry {flexible : Bool} {es es' : List (String × JsonValue)} {key : String} {v w : JsonValue}
      {steps : List PathStep} {kind : AssertionFailureKind} (hv : (key, v) ∈ es)
      (hw : IndexMap.get es' key = some w) (h : ValueDeviates false v w steps kind) :
      ValueDeviates flexible (.object es) (.object es') (.key key :: steps) kind

mutual

/-- An object deviates from an assertion. -/
inductive ObjectDeviates : ResolvedObjectAssertion → SortedMap String JsonValue →
    List PathStep → AssertionFailureKind → Prop
  | missing {mode : ObjectMatchMode} {fields : List (String × ResolvedFieldAssertion)}
      {actual : SortedMap String JsonValue} {name : String} {field : ResolvedFieldAssertion}
      (hfield : (name, field) ∈ fields) (h : IndexMap.get actual name = none) :
      ObjectDeviates ⟨mode, fields⟩ actual [.key name] .missingField
  | field {mode : ObjectMatchMode} {fields : List (String × ResolvedFieldAssertion)}
      {actual : SortedMap String JsonValue} {name : String} {field : ResolvedFieldAssertion}
      {v : JsonValue} {steps : List PathStep} {kind : AssertionFailureKind}
      (hfield : (name, field) ∈ fields) (hv : IndexMap.get actual name = some v)
      (h : FieldDeviates field v steps kind) :
      ObjectDeviates ⟨mode, fields⟩ actual (.key name :: steps) kind
  | unexpected {fields : List (String × ResolvedFieldAssertion)}
      {actual : SortedMap String JsonValue} {name : String} (hname : name ∈ IndexMap.keys actual)
      (h : name ∉ IndexMap.keys fields) :
      ObjectDeviates ⟨.exact, fields⟩ actual [.key name] .unexpectedField

/-- The value of a field deviates: in its type, or else from the expected value or the nested
assertion. -/
inductive FieldDeviates : ResolvedFieldAssertion → JsonValue → List PathStep →
    AssertionFailureKind → Prop
  | type {fieldName : String} {expectedType : ExpectedType} {expectedValue : Option JsonValue}
      {nested : Option ResolvedObjectAssertion} {capture : Option Capture} {actual : JsonValue}
      (h : ¬ HasType expectedType actual) :
      FieldDeviates ⟨fieldName, expectedType, expectedValue, nested, capture⟩ actual []
        .typeMismatch
  | value {fieldName : String} {expectedType : ExpectedType} {expected : JsonValue}
      {nested : Option ResolvedObjectAssertion} {capture : Option Capture} {actual : JsonValue}
      {steps : List PathStep} {kind : AssertionFailureKind} (htype : HasType expectedType actual)
      (h : ValueDeviates (expectedType == .number) expected actual steps kind) :
      FieldDeviates ⟨fieldName, expectedType, some expected, nested, capture⟩ actual steps kind
  | nested {fieldName : String} {expectedType : ExpectedType} {expectedValue : Option JsonValue}
      {assertion : ResolvedObjectAssertion} {capture : Option Capture}
      {actual : SortedMap String JsonValue} {steps : List PathStep} {kind : AssertionFailureKind}
      (htype : HasType expectedType (.object actual))
      (h : ObjectDeviates assertion actual steps kind) :
      FieldDeviates ⟨fieldName, expectedType, expectedValue, some assertion, capture⟩
        (.object actual) steps kind

end

/-- A response deviates from a body assertion. -/
inductive BodyDeviates (response : HttpResponse) : ResolvedBodyAssertion → List PathStep →
    AssertionFailureKind → Prop
  | notEmpty (h : response.rawBody.size ≠ 0) : BodyDeviates response .empty [] .valueMismatch
  | notText {assertion : ResolvedTextAssertion}
      (h : ∀ bytes, response.body = .text bytes → String.fromUTF8? bytes = none) :
      BodyDeviates response (.text assertion) [] .invalidBody
  | text {assertion : ResolvedTextAssertion} {bytes : ByteArray} {text : String}
      (hbytes : response.body = .text bytes) (htext : String.fromUTF8? bytes = some text)
      (h : ¬ TextHolds assertion text) : BodyDeviates response (.text assertion) [] .valueMismatch
  | notJson {assertion : ResolvedObjectAssertion}
      (h : ∀ raw value, response.body ≠ .json raw value) :
      BodyDeviates response (.json assertion) [] .invalidBody
  | notObject {assertion : ResolvedObjectAssertion} {raw : ByteArray} {value : Json}
      (hjson : response.body = .json raw value) (h : ∀ object, value.value ≠ .object object) :
      BodyDeviates response (.json assertion) [] .typeMismatch
  | object {assertion : ResolvedObjectAssertion} {raw : ByteArray} {value : Json}
      {object : SortedMap String JsonValue} {steps : List PathStep} {kind : AssertionFailureKind}
      (hjson : response.body = .json raw value) (hobject : value.value = .object object)
      (h : ObjectDeviates assertion object steps kind) :
      BodyDeviates response (.json assertion) steps kind

/-- Where a response can deviate. -/
inductive Place where
  | status
  | header (name : String)
  | body (steps : List PathStep)

/-- **A response deviates from an expectation** at a place. -/
inductive Deviates (expected : ResolvedResponseExpectation) (response : HttpResponse) :
    Place → AssertionFailureKind → Prop
  | status {status : Nat} (hstatus : expected.status = some status) (h : status ≠ response.status) :
      Deviates expected response .status .statusMismatch
  | header {name : String} {assertion : ResolvedHeaderAssertion}
      (hmem : (name, assertion) ∈ expected.headers)
      (h : ¬ HeaderHolds response.headers name assertion) :
      Deviates expected response (.header name) .headerMismatch
  | body {body : ResolvedBodyAssertion} {steps : List PathStep} {kind : AssertionFailureKind}
      (hbody : expected.body = some body) (h : BodyDeviates response body steps kind) :
      Deviates expected response (.body steps) kind

variable [Platform]

/-- The path that a failure has for a place. -/
def Place.path : Place → String
  | .status => "status"
  | .header name => s!"headers[{Platform.debugStr name}]"
  | .body steps => failurePath steps

/-! ## What a list of failures names -/

/-- Some failure of the list has the path and the kind. -/
def Names (failures : List AssertionFailure) (path : String) (kind : AssertionFailureKind) : Prop :=
  ∃ failure ∈ failures, failure.path = path ∧ failure.kind = kind

section

omit [Platform]

variable {failures failures' : List AssertionFailure} {path : String} {kind : AssertionFailureKind}

theorem names_nil : Names [] path kind ↔ False := by simp [Names]

/-- One failure names one place. -/
theorem names_singleton {failure : AssertionFailure} :
    Names [failure] path kind ↔ failure.path = path ∧ failure.kind = kind := by simp [Names]

/-- Failures name what either part names. -/
theorem names_append :
    Names (failures ++ failures') path kind ↔
      Names failures path kind ∨ Names failures' path kind := by
  simp only [Names, List.mem_append, or_and_right, exists_or]

end

/-- The steps start with one, and the others have a property. -/
def StartWith (step : PathStep) (p : List PathStep → Prop) (steps : List PathStep) : Prop :=
  ∃ rest, steps = step :: rest ∧ p rest

/-- The path leads below another one, to a place with a property. -/
def Below (parent path : String) (p : List PathStep → Prop) : Prop :=
  ∃ steps, path = steps.foldl PathStep.extend parent ∧ p steps

theorem below_or {parent path : String} {p q : List PathStep → Prop} :
    Below parent path (fun steps => p steps ∨ q steps) ↔
      Below parent path p ∨ Below parent path q := by
  simp only [Below, and_or_left, exists_or]

/-- Nothing below the place itself. -/
theorem below_nil {parent path : String} {p : Prop} :
    Below parent path (fun steps => steps = [] ∧ p) ↔ parent = path ∧ p := by
  refine ⟨?_, ?_⟩
  · rintro ⟨steps, rfl, rfl, hp⟩
    exact ⟨rfl, hp⟩
  · rintro ⟨rfl, hp⟩
    exact ⟨[], rfl, rfl, hp⟩

theorem below_exists {α : Type} {parent path : String} {p : α → List PathStep → Prop} :
    Below parent path (fun steps => ∃ a, p a steps) ↔ ∃ a, Below parent path (p a) := by
  refine ⟨?_, ?_⟩
  · rintro ⟨steps, hpath, a, hp⟩
    exact ⟨a, steps, hpath, hp⟩
  · rintro ⟨a, steps, hpath, hp⟩
    exact ⟨steps, hpath, a, hp⟩

theorem below_and {parent path : String} {p : Prop} {q : List PathStep → Prop} :
    Below parent path (fun steps => p ∧ q steps) ↔ p ∧ Below parent path q := by
  refine ⟨?_, ?_⟩
  · rintro ⟨steps, hpath, hp, hq⟩
    exact ⟨hp, steps, hpath, hq⟩
  · rintro ⟨hp, steps, hpath, hq⟩
    exact ⟨steps, hpath, hp, hq⟩

/-- A deviation below a step is one below the place of the step. -/
theorem below_startWith {parent path : String} {step : PathStep} {p : List PathStep → Prop} :
    Below parent path (StartWith step p) ↔ Below (step.extend parent) path p := by
  refine ⟨?_, ?_⟩
  · rintro ⟨_, rfl, rest, rfl, hp⟩
    exact ⟨rest, rfl, hp⟩
  · rintro ⟨rest, rfl, hp⟩
    exact ⟨step :: rest, rfl, rest, rfl, hp⟩

/-! ## Values -/

section Inversion

omit [Platform]

variable {flexible : Bool} {steps : List PathStep} {kind : AssertionFailureKind}

/-- A value of another type deviates in its type, and nowhere below. -/
theorem deviates_iff_of_not_sameType {expected actual : JsonValue}
    (h : ¬ SameType flexible expected actual) :
    ValueDeviates flexible expected actual steps kind ↔ steps = [] ∧ kind = .typeMismatch := by
  refine ⟨?_, ?_⟩
  · intro hdeviates
    cases hdeviates with
    | type => exact ⟨rfl, rfl⟩
    | number htype => exact absurd htype h
    | bool => exact absurd ⟨_, rfl⟩ h
    | string => exact absurd ⟨_, rfl⟩ h
    | length => exact absurd ⟨_, rfl⟩ h
    | item => exact absurd ⟨_, rfl⟩ h
    | missing => exact absurd ⟨_, rfl⟩ h
    | entry => exact absurd ⟨_, rfl⟩ h
  · rintro ⟨rfl, rfl⟩
    exact .type h

/-- Truth values deviate at once. -/
theorem deviates_bool_iff {b b' : Bool} :
    ValueDeviates flexible (.bool b) (.bool b') steps kind ↔
      steps = [] ∧ kind = .valueMismatch ∧ b ≠ b' := by
  refine ⟨?_, ?_⟩
  · rintro (h | h)
    · exact absurd ⟨_, rfl⟩ h
    · exact ⟨rfl, rfl, h⟩
  · rintro ⟨rfl, rfl, h⟩
    exact .bool h

/-- Strings deviate at once. -/
theorem deviates_string_iff {s s' : String} :
    ValueDeviates flexible (.string s) (.string s') steps kind ↔
      steps = [] ∧ kind = .valueMismatch ∧ s ≠ s' := by
  refine ⟨?_, ?_⟩
  · intro h
    cases h with
    | type h => exact absurd ⟨_, rfl⟩ h
    | string h => exact ⟨rfl, rfl, h⟩
  · rintro ⟨rfl, rfl, h⟩
    exact .string h

/-- Numbers of one type deviate at once. -/
theorem deviates_number_iff {m n : JsonNumber} (h : SameType flexible (.number m) (.number n)) :
    ValueDeviates flexible (.number m) (.number n) steps kind ↔
      steps = [] ∧ kind = .valueMismatch ∧ ¬ SameNumber m n := by
  refine ⟨?_, ?_⟩
  · intro hdeviates
    cases hdeviates with
    | type htype => exact absurd h htype
    | number _ h => exact ⟨rfl, rfl, h⟩
  · rintro ⟨rfl, rfl, hnumber⟩
    exact .number h hnumber

/-- Arrays deviate in their lengths or in an item. -/
theorem deviates_array_iff {vs ws : List JsonValue} :
    ValueDeviates flexible (.array vs) (.array ws) steps kind ↔
      (steps = [] ∧ kind = .valueMismatch ∧ vs.length ≠ ws.length) ∨
      ∃ i v w, vs[i]? = some v ∧ ws[i]? = some w ∧
        StartWith (.index i) (fun rest => ValueDeviates false v w rest kind) steps := by
  refine ⟨?_, ?_⟩
  · intro h
    cases h with
    | type h => exact absurd ⟨_, rfl⟩ h
    | length h => exact .inl ⟨rfl, rfl, h⟩
    | item hv hw h => exact .inr ⟨_, _, _, hv, hw, _, rfl, h⟩
  · rintro (⟨rfl, rfl, h⟩ | ⟨i, v, w, hv, hw, rest, rfl, h⟩)
    · exact .length h
    · exact .item hv hw h

/-- Objects deviate in an entry of the expected one. -/
theorem deviates_object_iff {es es' : List (String × JsonValue)} :
    ValueDeviates flexible (.object es) (.object es') steps kind ↔
      ∃ key v, (key, v) ∈ es ∧
        ((IndexMap.get es' key = none ∧
            StartWith (.key key) (fun rest => rest = [] ∧ kind = .missingField) steps) ∨
          ∃ w, IndexMap.get es' key = some w ∧
            StartWith (.key key) (fun rest => ValueDeviates false v w rest kind) steps) := by
  refine ⟨?_, ?_⟩
  · intro h
    cases h with
    | type h => exact absurd ⟨_, rfl⟩ h
    | missing hv h => exact ⟨_, _, hv, .inl ⟨h, _, rfl, rfl, rfl⟩⟩
    | entry hv hw h => exact ⟨_, _, hv, .inr ⟨_, hw, _, rfl, h⟩⟩
  · rintro ⟨key, v, hv, ⟨h, _, rfl, rfl, rfl⟩ | ⟨w, hw, rest, rfl, h⟩⟩
    · exact .missing hv h
    · exact .entry hv hw h

/-- The flag that the engine computes below the top is of no consequence. -/
theorem deviates_expectedNumberIsFlexible {v actual : JsonValue} :
    ValueDeviates (expectedNumberIsFlexible v) v actual steps kind ↔
      ValueDeviates false v actual steps kind := by
  cases hflexible : expectedNumberIsFlexible v with
  | false => exact Iff.rfl
  | true =>
    obtain ⟨m, rfl, hm⟩ : ∃ m, v = .number m ∧ ¬ IsInteger m := by
      cases v with
      | number m =>
        refine ⟨m, rfl, ?_⟩
        rw [← numberIsInteger_iff, Bool.not_eq_true]
        simpa [expectedNumberIsFlexible, JsonValue.asNumber] using hflexible
      | _ => cases hflexible
    have htype (flexible : Bool) :
        SameType flexible (.number m) actual ↔ ∃ n, actual = .number n := by
      simp [SameType, hm]
    by_cases hactual : ∃ n, actual = .number n
    · obtain ⟨n, rfl⟩ := hactual
      rw [deviates_number_iff ((htype true).mpr ⟨n, rfl⟩),
        deviates_number_iff ((htype false).mpr ⟨n, rfl⟩)]
    · rw [deviates_iff_of_not_sameType (mt (htype true).mp hactual),
        deviates_iff_of_not_sameType (mt (htype false).mp hactual)]

end Inversion

section Lists

variable {maxJsonDepth : Nat} {place : String} {kind : AssertionFailureKind}

/-- A failure about types names a deviation of types. -/
theorem names_type {flexible : Bool} {expected actual : JsonValue} {path type type' : String}
    (h : ¬ SameType flexible expected actual) :
    Names [typeFailure path type type'] place kind ↔
      Below path place fun steps => ValueDeviates flexible expected actual steps kind := by
  simp only [deviates_iff_of_not_sameType h, below_nil, names_singleton, typeFailure, eq_comm]

/-- A failure about the value itself. -/
theorem names_value {p : Prop} [Decidable p] (path : String) {failure : AssertionFailure}
    (hpath : failure.path = path) (hkind : failure.kind = .valueMismatch) :
    Names (if p then [] else [failure]) place kind ↔
      Below path place fun steps => steps = [] ∧ kind = .valueMismatch ∧ ¬ p := by
  rw [below_nil]
  split
  · next h => simp [names_nil, h]
  · next h => rw [names_singleton, hpath, hkind, eq_comm (a := kind), and_iff_left h]

omit [Platform] in
/-- Which numbers have one type. -/
theorem sameType_number_iff {flexible : Bool} {m n : JsonNumber} :
    SameType flexible (.number m) (.number n) ↔
      (flexible || !numberIsInteger m || numberIsInteger n) = true := by
  rw [Bool.or_eq_true, Bool.or_eq_true, Bool.not_eq_true', numberIsInteger_iff,
    ← Bool.not_eq_true, numberIsInteger_iff]
  simp only [SameType, JsonValue.number.injEq, exists_eq_left']
  cases flexible <;> simp [imp_iff_not_or]

mutual

/-- **Values.** -/
theorem names_compareFailures (expected : JsonValue) {actual : JsonValue} {path : String}
    {depth : Nat} {flexible : Bool} (hd : depth + expected.levels ≤ maxJsonDepth + 1) :
    Names (compareFailures maxJsonDepth expected actual path depth flexible) place kind ↔
      Below path place fun steps => ValueDeviates flexible expected actual steps kind := by
  match expected with
  | .null =>
    rw [compareFailures]
    cases actual with
    | null =>
      refine iff_of_false names_nil.mp ?_
      rintro ⟨steps, -, h⟩
      cases h with
      | type h => exact h rfl
    | _ => exact names_type nofun
  | .bool b =>
    rw [compareFailures]
    cases actual with
    | bool b' =>
      simp only [deviates_bool_iff, JsonValue.asBool, beq_iff_eq]
      rw [names_value path rfl rfl]
      simp only [ne_eq, eq_comm]
    | _ => exact names_type nofun
  | .string s =>
    rw [compareFailures]
    cases actual with
    | string s' =>
      simp only [deviates_string_iff, JsonValue.asStr, beq_iff_eq]
      rw [names_value path rfl rfl]
      simp only [ne_eq, eq_comm]
    | _ => exact names_type nofun
  | .number m =>
    rw [compareFailures]
    cases actual with
    | number n =>
      rw [JsonValue.asNumber]
      dsimp only
      rw [numberFailures]
      split
      · next h =>
        rw [Bool.not_eq_true', ← Bool.not_eq_true, ← sameType_number_iff] at h
        exact names_type h
      · next h =>
        rw [Bool.not_eq_true', Bool.not_eq_false, ← sameType_number_iff] at h
        simp only [deviates_number_iff h, ← numbersEqual_iff, Bool.not_eq_true', ← Bool.not_eq_true,
          ite_not]
        exact names_value path rfl rfl
    | _ => exact names_type (by rintro ⟨_, ⟨⟩, -⟩)
  | .array vs =>
    rw [JsonValue.levels] at hd
    rw [compareFailures]
    cases actual with
    | array ws =>
      rw [JsonValue.asArray]
      dsimp only
      rw [withinDepth_of_le (by omega), names_append, ite_not, names_value path rfl rfl,
        names_itemsFailures vs (by omega)]
      simp only [deviates_array_iff, below_or, below_exists, below_and, below_startWith,
        PathStep.extend, Nat.zero_add]
    | _ => exact names_type nofun
  | .object es =>
    rw [JsonValue.levels] at hd
    rw [compareFailures]
    cases actual with
    | object es' =>
      rw [JsonValue.asObject]
      dsimp only
      rw [withinDepth_of_le (by omega), names_entriesFailures es (by omega)]
      simp only [deviates_object_iff, below_or, below_exists, below_and, below_startWith,
        PathStep.extend]
    | _ => exact names_type nofun

/-- The failures of items name the deviations of items. -/
theorem names_itemsFailures (expected : List JsonValue) {actual : List JsonValue}
    {path : String} {index depth : Nat}
    (hd : depth + 1 + JsonValue.levelsItems expected ≤ maxJsonDepth + 1) :
    Names (itemsFailures maxJsonDepth expected actual path index depth) place kind ↔
      ∃ i v w, expected[i]? = some v ∧ actual[i]? = some w ∧
        Below (elementPath path (index + i)) place fun steps =>
          ValueDeviates false v w steps kind := by
  match expected, actual with
  | [], _ => simp [itemsFailures, names_nil]
  | _ :: _, [] => simp [itemsFailures, names_nil]
  | v :: vs, w :: ws =>
    rw [JsonValue.levelsItems] at hd
    rw [itemsFailures, names_append, names_compareFailures v (by omega),
      names_itemsFailures vs (by omega)]
    simp only [deviates_expectedNumberIsFlexible]
    refine ⟨?_, ?_⟩
    · rintro (h | ⟨i, v', w', hv, hw, h⟩)
      · exact ⟨0, v, w, rfl, rfl, h⟩
      · refine ⟨i + 1, v', w', hv, hw, ?_⟩
        rwa [Nat.add_assoc, Nat.add_comm 1] at h
    · rintro ⟨i, v', w', hv, hw, h⟩
      cases i with
      | zero =>
        obtain rfl := Option.some.inj hv
        obtain rfl := Option.some.inj hw
        exact .inl h
      | succ i =>
        refine .inr ⟨i, v', w', hv, hw, ?_⟩
        rwa [Nat.add_assoc, Nat.add_comm 1]

/-- The failures of entries name the deviations of entries. -/
theorem names_entriesFailures (expected : List (String × JsonValue))
    {actual : SortedMap String JsonValue} {path : String} {depth : Nat}
    (hd : depth + 1 + JsonValue.levelsEntries expected ≤ maxJsonDepth + 1) :
    Names (entriesFailures maxJsonDepth expected actual path depth) place kind ↔
      ∃ key v, (key, v) ∈ expected ∧
        ((IndexMap.get actual key = none ∧
            Below (childPath path key) place fun steps => steps = [] ∧ kind = .missingField) ∨
          ∃ w, IndexMap.get actual key = some w ∧
            Below (childPath path key) place fun steps => ValueDeviates false v w steps kind) := by
  match expected with
  | [] => simp [entriesFailures, names_nil]
  | (key, v) :: es =>
    rw [JsonValue.levelsEntries] at hd
    rw [entriesFailures, names_append, names_entriesFailures es (by omega)]
    simp only [List.mem_cons, Prod.mk.injEq, or_and_right, exists_or, and_assoc, exists_and_left,
      exists_eq_left]
    refine or_congr ?_ Iff.rfl
    cases IndexMap.get actual key with
    | none => simp [names_singleton, below_nil, missingComparedFailure, eq_comm]
    | some w =>
      simp only [reduceCtorEq, false_and, false_or, Option.some.injEq, exists_eq_left',
        ← deviates_expectedNumberIsFlexible]
      exact names_compareFailures v (by omega)

end

/-! ## Objects -/

omit [Platform] in
/-- An object deviates in a field, or has one too many. -/
theorem objectDeviates_iff {mode : ObjectMatchMode} {steps : List PathStep}
    {fields : List (String × ResolvedFieldAssertion)} {actual : SortedMap String JsonValue} :
    ObjectDeviates ⟨mode, fields⟩ actual steps kind ↔
      (∃ name field, (name, field) ∈ fields ∧
        ((IndexMap.get actual name = none ∧
            StartWith (.key name) (fun rest => rest = [] ∧ kind = .missingField) steps) ∨
          ∃ v, IndexMap.get actual name = some v ∧
            StartWith (.key name) (fun rest => FieldDeviates field v rest kind) steps)) ∨
      mode = .exact ∧ ∃ name, name ∈ IndexMap.keys actual ∧ name ∉ IndexMap.keys fields ∧
        StartWith (.key name) (fun rest => rest = [] ∧ kind = .unexpectedField) steps := by
  refine ⟨?_, ?_⟩
  · intro h
    cases h with
    | missing hfield h => exact .inl ⟨_, _, hfield, .inl ⟨h, _, rfl, rfl, rfl⟩⟩
    | field hfield hv h => exact .inl ⟨_, _, hfield, .inr ⟨_, hv, _, rfl, h⟩⟩
    | unexpected hname h => exact .inr ⟨rfl, _, hname, h, _, rfl, rfl, rfl⟩
  · rintro (⟨name, field, hfield, ⟨h, _, rfl, rfl, rfl⟩ | ⟨v, hv, rest, rfl, h⟩⟩ |
      ⟨rfl, name, hname, h, _, rfl, rfl, rfl⟩)
    · exact .missing hfield h
    · exact .field hfield hv h
    · exact .unexpected hname h

omit [Platform] in
/-- A value of another type deviates in its type alone. -/
theorem fieldDeviates_iff_of_not_hasType {field : ResolvedFieldAssertion} {actual : JsonValue}
    {steps : List PathStep} (h : ¬ HasType field.expectedType actual) :
    FieldDeviates field actual steps kind ↔ steps = [] ∧ kind = .typeMismatch := by
  obtain ⟨fieldName, expectedType, expectedValue, nested, capture⟩ := field
  refine ⟨?_, ?_⟩
  · intro hdeviates
    cases hdeviates with
    | type => exact ⟨rfl, rfl⟩
    | value htype => exact absurd htype h
    | nested htype => exact absurd htype h
  · rintro ⟨rfl, rfl⟩
    exact .type h

omit [Platform] in
/-- A field deviates in its type, in its value, or in its nested fields. -/
theorem fieldDeviates_iff {fieldName : String} {expectedType : ExpectedType}
    {expectedValue : Option JsonValue} {nested : Option ResolvedObjectAssertion}
    {capture : Option Capture} {actual : JsonValue} {steps : List PathStep}
    (h : HasType expectedType actual) :
    FieldDeviates ⟨fieldName, expectedType, expectedValue, nested, capture⟩ actual steps kind ↔
      (∃ expected, expectedValue = some expected ∧
        ValueDeviates (expectedType == .number) expected actual steps kind) ∨
      ∃ assertion object, nested = some assertion ∧ actual = .object object ∧
        ObjectDeviates assertion object steps kind := by
  refine ⟨?_, ?_⟩
  · intro hdeviates
    cases hdeviates with
    | type htype => exact absurd h htype
    | value _ hvalue => exact .inl ⟨_, rfl, hvalue⟩
    | nested _ hnested => exact .inr ⟨_, _, rfl, rfl, hnested⟩
  · rintro (⟨expected, rfl, hvalue⟩ | ⟨assertion, object, rfl, rfl, hnested⟩)
    · exact .value h hvalue
    · exact .nested h hnested

/-- The failures of the exact mode name the fields that are not declared. -/
theorem names_declaredFailures {fields : List (String × ResolvedFieldAssertion)}
    {actual : SortedMap String JsonValue} {path : String} :
    Names (declaredFailures fields actual path) place kind ↔
      ∃ name, name ∈ IndexMap.keys actual ∧ name ∉ IndexMap.keys fields ∧
        Below (childPath path name) place fun steps => steps = [] ∧ kind = .unexpectedField := by
  induction actual with
  | nil => simp [declaredFailures, names_nil]
  | cons entry actual ih =>
    obtain ⟨name, v⟩ := entry
    rw [declaredFailures, names_append, ih, IndexMap.keys_cons]
    simp only [List.mem_cons, or_and_right, exists_or, exists_eq_left]
    refine or_congr ?_ Iff.rfl
    rw [below_nil]
    split
    · next h => simp [names_nil, h]
    · next h => simp [names_singleton, unexpectedFieldFailure, h, eq_comm]

mutual

/-- **Objects.** -/
theorem names_objectFailures (assertion : ResolvedObjectAssertion)
    {actual : SortedMap String JsonValue} {path : String} {depth : Nat}
    (hd : depth + assertion.levels ≤ maxJsonDepth + 1) :
    Names (objectFailures maxJsonDepth assertion actual path depth) place kind ↔
      Below path place fun steps => ObjectDeviates assertion actual steps kind := by
  match assertion with
  | ⟨mode, fields⟩ =>
    rw [ResolvedObjectAssertion.levels] at hd
    rw [objectFailures.eq_def]
    dsimp only
    rw [withinDepth_of_le (by omega), names_append, names_fieldsFailures fields (by omega)]
    simp only [objectDeviates_iff, below_or, below_exists, below_and, below_startWith,
      PathStep.extend]
    refine or_congr Iff.rfl ?_
    cases mode with
    | exact =>
      rw [names_declaredFailures]
      exact (and_iff_right rfl).symm
    | partially => exact iff_of_false names_nil.mp nofun

/-- The failures of fields name the deviations of fields. -/
theorem names_fieldsFailures (fields : List (String × ResolvedFieldAssertion))
    {actual : SortedMap String JsonValue} {path : String} {depth : Nat}
    (hd : depth + 1 + ResolvedFieldAssertion.levelsAll fields ≤ maxJsonDepth + 1) :
    Names (fieldsFailures maxJsonDepth fields actual path depth) place kind ↔
      ∃ name field, (name, field) ∈ fields ∧
        ((IndexMap.get actual name = none ∧
            Below (childPath path name) place fun steps => steps = [] ∧ kind = .missingField) ∨
          ∃ v, IndexMap.get actual name = some v ∧
            Below (childPath path name) place fun steps => FieldDeviates field v steps kind) := by
  match fields with
  | [] => simp [fieldsFailures, names_nil]
  | (name, field) :: fields =>
    rw [ResolvedFieldAssertion.levelsAll] at hd
    rw [fieldsFailures, names_append, names_fieldsFailures fields (by omega)]
    simp only [List.mem_cons, Prod.mk.injEq, or_and_right, exists_or, and_assoc, exists_and_left,
      exists_eq_left]
    refine or_congr ?_ Iff.rfl
    cases IndexMap.get actual name with
    | none => simp [names_singleton, below_nil, missingFieldFailure, eq_comm]
    | some v =>
      simp only [reduceCtorEq, false_and, false_or, Option.some.injEq, exists_eq_left']
      exact names_fieldFailures field (by omega)

/-- The failures of a field name its deviations. -/
theorem names_fieldFailures (field : ResolvedFieldAssertion) {actual : JsonValue}
    {path : String} {depth : Nat} (hd : depth + 1 + field.levels ≤ maxJsonDepth + 1) :
    Names (fieldFailures maxJsonDepth field actual path depth) place kind ↔
      Below path place fun steps => FieldDeviates field actual steps kind := by
  match field with
  | ⟨fieldName, expectedType, expectedValue, nested, capture⟩ =>
    rw [ResolvedFieldAssertion.levels.eq_def] at hd
    rw [fieldFailures.eq_def]
    dsimp only at hd ⊢
    cases htype : matchesExpectedType actual expectedType with
    | false =>
      rw [← Bool.not_eq_true, matchesExpectedType_iff] at htype
      have hdeviates (steps : List PathStep) := @fieldDeviates_iff_of_not_hasType kind
        ⟨fieldName, expectedType, expectedValue, nested, capture⟩ actual steps htype
      simp only [hdeviates, below_nil, Bool.not_false, if_true, names_singleton, typeFailure,
        eq_comm]
    | true =>
      have hhas := matchesExpectedType_iff.mp htype
      simp only [Bool.not_true, Bool.false_eq_true, if_false, fieldDeviates_iff hhas, below_or,
        below_exists, below_and, names_append]
      refine or_congr ?_ ?_
      · match expectedValue with
        | none => simp [names_nil]
        | some expected =>
          dsimp only at hd
          simp only [Option.some.injEq, exists_eq_left']
          exact names_compareFailures expected (by omega)
      · match nested with
        | none => simp [names_nil]
        | some assertion =>
          dsimp only at hd
          simp only [Option.some.injEq, exists_and_left, exists_eq_left']
          cases actual with
          | object object =>
            simp only [JsonValue.asObject, JsonValue.object.injEq, exists_eq_left']
            exact names_objectFailures assertion (by omega)
          | _ => simp [JsonValue.asObject, names_nil]

end

end Lists

/-! ## Responses -/

section Evaluate

variable {expected : ResolvedResponseExpectation} {actual : HttpResponse} {path : String}
  {kind : AssertionFailureKind}

/-- The failure of the status names its deviation. -/
theorem names_statusFailures {status : Option Nat} {actualStatus : Nat} :
    Names (statusFailures status actualStatus) path kind ↔
      path = Place.status.path ∧ kind = .statusMismatch ∧
        ∃ expected, status = some expected ∧ expected ≠ actualStatus := by
  cases status with
  | none => simp [statusFailures, names_nil]
  | some status =>
    rw [statusFailures]
    split
    · next h => simp [names_singleton, statusFailure, Place.path, h.symm, eq_comm]
    · next h => simp [names_nil, not_not.mp h]

/-- The failures of the headers name their deviations. -/
theorem names_headersFailures {headers : IndexMap String ResolvedHeaderAssertion} :
    Names (headersFailures headers actual.headers) path kind ↔
      ∃ name assertion, (name, assertion) ∈ headers ∧ path = (Place.header name).path ∧
        kind = .headerMismatch ∧ ¬ HeaderHolds actual.headers name assertion := by
  induction headers with
  | nil => simp [headersFailures, names_nil]
  | cons entry headers ih =>
    obtain ⟨name, assertion⟩ := entry
    rw [headersFailures, names_append, ih]
    simp only [List.mem_cons, Prod.mk.injEq, or_and_right, exists_or, and_assoc, exists_and_left,
      exists_eq_left]
    refine or_congr ?_ Iff.rfl
    rw [← headerMatches_iff]
    split
    · next h => simp [names_nil, h]
    · next h => simp [names_singleton, headerFailure, Place.path, h, eq_comm]

/-- The failure of a text names its deviation. -/
theorem names_textFailures {assertion : ResolvedTextAssertion} {text : String} :
    Names (textFailures assertion text) path kind ↔
      "$" = path ∧ kind = .valueMismatch ∧ ¬ TextHolds assertion text := by
  cases assertion with
  | exact expected =>
    rw [textFailures, names_value "$" rfl rfl, below_nil, beq_iff_eq]
    exact Iff.rfl
  | contains expected =>
    rw [textFailures, names_value "$" rfl rfl, below_nil, containsStr_iff]
    exact Iff.rfl

/-- Failures at the root of the body, where all of it deviates at once. -/
theorem names_root {failures : List AssertionFailure} {p : Prop} {deviates : List PathStep → Prop}
    (hfailures : Names failures path kind ↔ "$" = path ∧ p)
    (hdeviates : ∀ steps, deviates steps ↔ steps = [] ∧ p) :
    Names failures path kind ↔ Below "$" path deviates := by
  rw [show deviates = fun steps => steps = [] ∧ p from funext fun _ => propext (hdeviates _),
    below_nil, hfailures]

/-- The failures of a text body name its deviations. -/
theorem names_textBody {assertion : ResolvedTextAssertion} {maxJsonDepth : Nat} :
    Names (bodyFailures maxJsonDepth (some (.text assertion)) actual) path kind ↔
      Below "$" path fun steps => BodyDeviates actual (.text assertion) steps kind := by
  have hnot (h : ∀ bytes, actual.body = .text bytes → String.fromUTF8? bytes = none)
      (steps : List PathStep) : BodyDeviates actual (.text assertion) steps kind ↔
        steps = [] ∧ kind = .invalidBody := by
    refine ⟨?_, ?_⟩
    · intro hdeviates
      cases hdeviates with
      | notText => exact ⟨rfl, rfl⟩
      | text hbytes htext => cases (h _ hbytes).symm.trans htext
    · rintro ⟨rfl, rfl⟩
      exact .notText h
  rw [bodyFailures]
  cases hactual : actual.body with
  | text bytes =>
    dsimp only
    cases htext : String.fromUTF8? bytes with
    | none =>
      refine names_root ?_ (hnot fun _ h => by rwa [← ResponseBody.text.inj (hactual.symm.trans h)])
      simp [names_singleton, utf8Failure, eq_comm]
    | some text =>
      refine names_root names_textFailures fun steps => ?_
      refine ⟨?_, ?_⟩
      · intro hdeviates
        cases hdeviates with
        | notText h => cases (h _ hactual).symm.trans htext
        | text hbytes htext' h =>
          obtain rfl := ResponseBody.text.inj (hactual.symm.trans hbytes)
          obtain rfl := Option.some.inj (htext.symm.trans htext')
          exact ⟨rfl, rfl, h⟩
      · rintro ⟨rfl, rfl, h⟩
        exact .text hactual htext h
  | _ =>
    refine names_root ?_ (hnot fun _ h => by cases hactual.symm.trans h)
    simp [names_singleton, invalidBodyFailure, eq_comm]

/-- The failures of a JSON body name its deviations. -/
theorem names_jsonBody {assertion : ResolvedObjectAssertion} {maxJsonDepth : Nat}
    (hd : assertion.levels ≤ maxJsonDepth + 1) :
    Names (bodyFailures maxJsonDepth (some (.json assertion)) actual) path kind ↔
      Below "$" path fun steps => BodyDeviates actual (.json assertion) steps kind := by
  rw [bodyFailures]
  cases hactual : actual.body with
  | json raw value =>
    dsimp only
    cases hobject : value.value.asObject with
    | none =>
      rw [asObject_eq_none] at hobject
      refine names_root (p := kind = .typeMismatch)
        (by simp [names_singleton, typeFailure, eq_comm]) fun steps => ?_
      refine ⟨?_, ?_⟩
      · intro hdeviates
        cases hdeviates with
        | notJson h => exact absurd hactual (h raw value)
        | notObject => exact ⟨rfl, rfl⟩
        | object hjson hobject' =>
          obtain ⟨rfl, rfl⟩ := ResponseBody.json.inj (hactual.symm.trans hjson)
          exact absurd hobject' (hobject _)
      · rintro ⟨rfl, rfl⟩
        exact .notObject hactual hobject
    | some object =>
      rw [asObject_eq_some] at hobject
      have hdeviates (steps : List PathStep) : BodyDeviates actual (.json assertion) steps kind ↔
          ObjectDeviates assertion object steps kind := by
        refine ⟨?_, ?_⟩
        · intro hdeviates
          cases hdeviates with
          | notJson h => exact absurd hactual (h raw value)
          | notObject hjson h =>
            obtain ⟨rfl, rfl⟩ := ResponseBody.json.inj (hactual.symm.trans hjson)
            exact absurd hobject (h object)
          | object hjson hobject' h =>
            obtain ⟨rfl, rfl⟩ := ResponseBody.json.inj (hactual.symm.trans hjson)
            obtain rfl := JsonValue.object.inj (hobject.symm.trans hobject')
            exact h
        · exact .object hactual hobject
      simp only [hdeviates]
      exact names_objectFailures assertion (by omega)
  | _ =>
    refine names_root (p := kind = .invalidBody)
      (by simp [names_singleton, invalidBodyFailure, eq_comm]) fun steps => ?_
    refine ⟨?_, ?_⟩
    · intro hdeviates
      cases hdeviates with
      | notJson => exact ⟨rfl, rfl⟩
      | notObject hjson => cases hactual.symm.trans hjson
      | object hjson => cases hactual.symm.trans hjson
    · rintro ⟨rfl, rfl⟩
      exact .notJson fun _ _ h => by cases hactual.symm.trans h

/-- **The failures of the body** name its deviations. -/
theorem names_bodyFailures {body : ResolvedBodyAssertion} {maxJsonDepth : Nat}
    (hd : ∀ assertion, body = .json assertion → assertion.levels ≤ maxJsonDepth + 1) :
    Names (bodyFailures maxJsonDepth (some body) actual) path kind ↔
      Below "$" path fun steps => BodyDeviates actual body steps kind := by
  cases body with
  | empty =>
    rw [bodyFailures, ite_not]
    refine names_root (by rw [names_value "$" rfl rfl, below_nil]) fun steps => ?_
    refine ⟨?_, ?_⟩
    · rintro ⟨h⟩
      exact ⟨rfl, rfl, h⟩
    · rintro ⟨rfl, rfl, h⟩
      exact .notEmpty h
  | text assertion => exact names_textBody
  | json assertion => exact names_jsonBody (hd assertion rfl)

/-- The list of all failures names exactly the deviations. -/
theorem names_expectationFailures {maxJsonDepth : Nat} (hd : expected.CoveredBy maxJsonDepth) :
    Names (expectationFailures maxJsonDepth expected actual) path kind ↔
      ∃ place, path = place.path ∧ Deviates expected actual place kind := by
  rw [expectationFailures, names_append, names_append, names_statusFailures,
    names_headersFailures]
  have hnames : Names (bodyFailures maxJsonDepth expected.body actual) path kind ↔
      ∃ body, expected.body = some body ∧
        Below "$" path fun steps => BodyDeviates actual body steps kind := by
    cases hbody : expected.body with
    | none => simp [bodyFailures, names_nil]
    | some body =>
      simp only [Option.some.injEq, exists_eq_left']
      exact names_bodyFailures fun assertion h => hd assertion (h ▸ hbody)
  rw [hnames]
  refine ⟨?_, ?_⟩
  · rintro ((⟨rfl, rfl, status, hstatus, h⟩ | ⟨name, assertion, hmem, rfl, rfl, h⟩) |
      ⟨body, hbody, steps, rfl, h⟩)
    · exact ⟨.status, rfl, .status hstatus h⟩
    · exact ⟨.header name, rfl, .header hmem h⟩
    · exact ⟨.body steps, rfl, .body hbody h⟩
  · rintro ⟨place, rfl, h⟩
    cases h with
    | status hstatus h => exact .inl (.inl ⟨rfl, rfl, _, hstatus, h⟩)
    | header hmem h => exact .inl (.inr ⟨_, _, hmem, rfl, rfl, h⟩)
    | body hbody h => exact .inr ⟨_, hbody, _, rfl, h⟩

/-- **A report lists what deviates.** With a depth limit that covers the expectation, every failure
of a report stands for a deviation, at its path and of its kind; and a report that is not truncated
has a failure for every deviation. -/
theorem evaluate_reports (config : AssertionConfig) (expected : ResolvedResponseExpectation)
    (actual : HttpResponse) (hd : expected.CoveredBy config.maxJsonDepth) :
    let report := evaluate config expected actual
    (∀ failure ∈ report.failures, ∃ place, failure.path = place.path ∧
      Deviates expected actual place failure.kind) ∧
    (report.truncated = false → ∀ place kind, Deviates expected actual place kind →
      ∃ failure ∈ report.failures, failure.path = place.path ∧ failure.kind = kind) := by
  obtain ⟨hfailures, htruncated⟩ := evaluate_eq config expected actual
  dsimp only
  rw [hfailures, htruncated]
  refine ⟨?_, ?_⟩
  · intro failure hmem
    exact (names_expectationFailures hd).mp ⟨failure, List.mem_of_mem_take hmem, rfl, rfl⟩
  · intro hall place kind h
    rw [decide_eq_false_iff_not, Nat.not_lt] at hall
    rw [List.take_of_length_le hall]
    exact (names_expectationFailures hd).mpr ⟨place, rfl, h⟩

omit [Platform] in
/-- A wrong status and, two objects down, a number where a string was expected. -/
theorem evaluate_reports_order :
    letI := asciiPlatform
    ∃ failure ∈ (evaluate AssertionConfig.default
      ⟨some 200, [], some (.json ⟨.exact, [("user", ⟨"user", .object, none,
        some ⟨.partially, [("name", ⟨"name", .string, none, none, none⟩)]⟩, none⟩)]⟩)⟩
      ⟨500, ResponseHeaders.new, .json ByteArray.empty
        ⟨.object [("user", .object [("name", .number (.posInt 3))])],
          by
            simp [JsonValue.Sorted, JsonValue.SortedEntries, SortedMap.Sorted]⟩⟩).failures,
      failure.path = "$.user.name" ∧ failure.kind = .typeMismatch :=
  letI := asciiPlatform
  (evaluate_reports AssertionConfig.default _ _ (by rintro _ ⟨⟩; decide)).2 (by decide)
    (.body [.key "user", .key "name"]) .typeMismatch
    (.body rfl (.object rfl rfl (.field (List.mem_singleton.mpr rfl) rfl
      (.nested (.object _) (.field (List.mem_singleton.mpr rfl) rfl
        (.type (by rintro ⟨⟩)))))))

end Evaluate

end Rettp
