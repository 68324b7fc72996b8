import Rettp.AssertionFailures

/-!
# What an expectation means

The declarative side of the assertion engine: a relation between an expectation and a response
with no order of evaluation, no paths, no limits and no early returns. `ExpectationHolds` says
what is required of the status, of each header and of the body.

* Values are compared by `Matches`: objects are compared on the declared keys only, at every
  depth; arrays element by element at equal length; an expected integer asks for an integer,
  unless it is the direct value of a field of type `number`.
* Objects are asserted by `ObjectHolds`, each level with its own mode.

`evaluate_decides_expectation` is the agreement of the engine with this relation.
-/

namespace Rettp

/-! ## Numbers and types -/

/-- The two numbers are equal as the engine understands it. Two integers are equal as
integers, however they are stored, and two doubles as doubles. An integer equals a double only
inside the range where every integer is a double, so that rounding never makes them equal. -/
inductive SameNumber : JsonNumber → JsonNumber → Prop
  | integers {m n : JsonNumber} {i : Int} (hm : integerValue m = some i)
      (hn : integerValue n = some i) : SameNumber m n
  | integerFloat {m n : JsonNumber} {i : Int} (hm : integerValue m = some i)
      (hn : integerValue n = none) (hle : -maxExactFloatInteger ≤ i ∧ i ≤ maxExactFloatInteger)
      (heq : (Float.ofInt i == n.asF64) = true) : SameNumber m n
  | floatInteger {m n : JsonNumber} {i : Int} (hm : integerValue m = none)
      (hn : integerValue n = some i) (hle : -maxExactFloatInteger ≤ i ∧ i ≤ maxExactFloatInteger)
      (heq : (m.asF64 == Float.ofInt i) = true) : SameNumber m n
  | floats {m n : JsonNumber} (hm : integerValue m = none) (hn : integerValue n = none)
      (heq : (m.asF64 == n.asF64) = true) : SameNumber m n

/-- The number is stored as an integer. -/
def IsInteger (n : JsonNumber) : Prop := ∃ i, integerValue n = some i

/-- The JSON value has the declared type. -/
inductive HasType : ExpectedType → JsonValue → Prop
  | string (s : String) : HasType .string (.string s)
  | boolean (b : Bool) : HasType .boolean (.bool b)
  | integer {n : JsonNumber} (h : IsInteger n) : HasType .integer (.number n)
  | number (n : JsonNumber) : HasType .number (.number n)
  | object (entries : List (String × JsonValue)) : HasType .object (.object entries)
  | array (items : List JsonValue) : HasType .array (.array items)
  | null : HasType .null .null

/-! ## Values -/

mutual

/-- The actual value is what the expected one describes. With `flexible`, an expected integer
is satisfied by any equal number. -/
def Matches (flexible : Bool) : JsonValue → JsonValue → Prop
  | .null, actual => actual = .null
  | .bool b, actual => actual = .bool b
  | .string s, actual => actual = .string s
  | .number m, actual => ∃ n, actual = .number n ∧ SameNumber m n ∧
      (flexible = false → IsInteger m → IsInteger n)
  | .array vs, actual => ∃ ws, actual = .array ws ∧ MatchesItems vs ws
  | .object es, actual => ∃ es', actual = .object es' ∧ MatchesEntries es es'

/-- Arrays of equal length that match element by element. -/
def MatchesItems : List JsonValue → List JsonValue → Prop
  | [], ws => ws = []
  | v :: vs, ws => ∃ w ws', ws = w :: ws' ∧ Matches false v w ∧ MatchesItems vs ws'

/-- Every expected key is present with a matching value; other keys are ignored. -/
def MatchesEntries : List (String × JsonValue) → SortedMap String JsonValue → Prop
  | [], _ => True
  | (key, v) :: es, es' =>
    (∃ w, IndexMap.get es' key = some w ∧ Matches false v w) ∧ MatchesEntries es es'

end

/-! ## Fields and objects -/

mutual

/-- Every declared field holds and, in exact mode, every field of this object is declared. -/
def ObjectHolds : ResolvedObjectAssertion → SortedMap String JsonValue → Prop
  | ⟨mode, fields⟩, actual => FieldsHold fields actual ∧
      (mode = .exact → ∀ name ∈ IndexMap.keys actual, name ∈ IndexMap.keys fields)

/-- Every declared field is present and holds. -/
def FieldsHold : List (String × ResolvedFieldAssertion) → SortedMap String JsonValue → Prop
  | [], _ => True
  | (name, field) :: fields, actual =>
    (∃ v, IndexMap.get actual name = some v ∧ FieldHolds field v) ∧ FieldsHold fields actual

/-- The value has the declared type, matches the expected value and satisfies the nested
assertion. -/
def FieldHolds : ResolvedFieldAssertion → JsonValue → Prop
  | ⟨_, expectedType, expectedValue, nested, _⟩, actual => HasType expectedType actual ∧
      (match expectedValue with
        | none => True
        | some expected => Matches (expectedType == .number) expected actual) ∧
      match nested with
      | none => True
      | some assertion => ∃ object, actual = .object object ∧ ObjectHolds assertion object

end

/-! ## Responses -/

namespace ResponseHeaders

/-- The values of a header: all that came under its name, whatever the case of either. -/
def values (headers : ResponseHeaders) (name : String) : List ByteArray :=
  headers.entries.flatMap fun entry =>
    if toAsciiLowercase entry.1 = toAsciiLowercase name then entry.2 else []

/-- The lookup finds all of them, since names are stored in lower case and once. -/
theorem values_eq (headers : ResponseHeaders) (name : String) :
    headers.values name = (headers.get name).getD [] := by
  rw [get, ← IndexMap.flatMap_get headers.nodup, values]
  refine List.flatMap_congr fun entry hentry => ?_
  rw [headers.lower entry.1 (List.mem_map_of_mem hentry)]

/-- A value that is received is added to those of its own header. -/
theorem values_append (headers : ResponseHeaders) (name : String) (value : ByteArray) (l : String) :
    (headers.append name value).values l =
      headers.values l ++ if toAsciiLowercase name = toAsciiLowercase l then [value] else [] := by
  rw [values_eq, values_eq, get_append]
  split
  · rfl
  · exact (List.append_nil _).symm

end ResponseHeaders

/-- The bytes are UTF-8 text with a property. -/
def IsText (bytes : ByteArray) (p : String → Prop) : Prop :=
  ∃ text, String.fromUTF8? bytes = some text ∧ p text

/-- A header is there, it has the expected value and no other, or one of its values contains the
expected text. -/
def HeaderHolds (headers : ResponseHeaders) (name : String) : ResolvedHeaderAssertion → Prop
  | .exists_ => headers.values name ≠ []
  | .exact expected => headers.values name = [expected.toUTF8]
  | .contains expected => ∃ value ∈ headers.values name,
      IsText value fun text => expected.toList <:+: text.toList

/-- A text is the expected one, or contains it. -/
def TextHolds : ResolvedTextAssertion → String → Prop
  | .exact expected, actual => actual = expected
  | .contains expected, actual => expected.toList <:+: actual.toList

/-- A body is as expected. -/
def BodyHolds (response : HttpResponse) : ResolvedBodyAssertion → Prop
  | .empty => response.rawBody.size = 0
  | .text assertion => ∃ bytes, response.body = .text bytes ∧ IsText bytes (TextHolds assertion)
  | .json assertion => ∃ raw value object, response.body = .json raw value ∧
      value.value = .object object ∧ ObjectHolds assertion object

/-- Everything that the expectation mentions holds of the response. -/
structure ExpectationHolds (expected : ResolvedResponseExpectation) (response : HttpResponse) :
    Prop where
  status : ∀ status, expected.status = some status → status = response.status
  headers : ∀ name assertion, (name, assertion) ∈ expected.headers →
    HeaderHolds response.headers name assertion
  body : ∀ body, expected.body = some body → BodyHolds response body

/-! ## The two side conditions -/

mutual

/-- The number of container levels of a value. -/
def JsonValue.levels : JsonValue → Nat
  | .array items => 1 + JsonValue.levelsItems items
  | .object entries => 1 + JsonValue.levelsEntries entries
  | .null | .bool _ | .number _ | .string _ => 0

/-- The nesting of the items of an array. -/
def JsonValue.levelsItems : List JsonValue → Nat
  | [] => 0
  | v :: vs => max v.levels (JsonValue.levelsItems vs)

/-- The nesting of the entries of an object. -/
def JsonValue.levelsEntries : List (String × JsonValue) → Nat
  | [] => 0
  | (_, v) :: es => max v.levels (JsonValue.levelsEntries es)

end

mutual

/-- The number of container levels of an assertion, its expected values included. -/
def ResolvedObjectAssertion.levels : ResolvedObjectAssertion → Nat
  | ⟨_, fields⟩ => 1 + ResolvedFieldAssertion.levelsAll fields

/-- The nesting of several fields. -/
def ResolvedFieldAssertion.levelsAll : List (String × ResolvedFieldAssertion) → Nat
  | [] => 0
  | (_, field) :: fields => max field.levels (ResolvedFieldAssertion.levelsAll fields)

/-- The nesting of a field: that of its value or of its nested fields. -/
def ResolvedFieldAssertion.levels : ResolvedFieldAssertion → Nat
  | ⟨_, _, expectedValue, nested, _⟩ =>
    max (match expectedValue with
      | none => 0
      | some expected => expected.levels)
    (match nested with
      | none => 0
      | some assertion => assertion.levels)

end

mutual

/-- Nested assertions stand only on fields of type `object`. -/
def ResolvedObjectAssertion.NestedOnObjects : ResolvedObjectAssertion → Prop
  | ⟨_, fields⟩ => ResolvedFieldAssertion.NestedOnObjectsAll fields

/-- All fields have nested fields on objects only. -/
def ResolvedFieldAssertion.NestedOnObjectsAll : List (String × ResolvedFieldAssertion) → Prop
  | [] => True
  | (_, field) :: fields =>
    field.NestedOnObjects ∧ ResolvedFieldAssertion.NestedOnObjectsAll fields

/-- Nested fields belong to a field of type `object`. -/
def ResolvedFieldAssertion.NestedOnObjects : ResolvedFieldAssertion → Prop
  | ⟨_, expectedType, _, nested, _⟩ =>
    match nested with
    | none => True
    | some assertion => expectedType = .object ∧ assertion.NestedOnObjects

end

namespace ResolvedResponseExpectation

/-- What the checker guarantees: nested assertions stand only on fields of type `object`. -/
def NestedOnObjects (expected : ResolvedResponseExpectation) : Prop :=
  ∀ assertion, expected.body = some (.json assertion) → assertion.NestedOnObjects

/-- The depth limit covers the nesting of the expectation; its outermost object stands at
depth 0. -/
def CoveredBy (expected : ResolvedResponseExpectation) (maxJsonDepth : Nat) : Prop :=
  ∀ assertion, expected.body = some (.json assertion) → assertion.levels ≤ maxJsonDepth + 1

end ResolvedResponseExpectation

/-! ## The engine decides the relation -/

theorem numberIsInteger_iff {n : JsonNumber} : numberIsInteger n = true ↔ IsInteger n := by
  unfold numberIsInteger IsInteger integerValue
  cases n with
  | posInt u =>
    by_cases hu : u ≤ i64Max
    · simp [JsonNumber.isU64, JsonNumber.asI64, hu]
    · simp [JsonNumber.isU64, JsonNumber.asI64, JsonNumber.asU64, hu]
  | negInt i hi => simp [JsonNumber.isI64, JsonNumber.asI64]
  | float v hv => simp [JsonNumber.isI64, JsonNumber.isU64, JsonNumber.asI64, JsonNumber.asU64]

theorem safeIntegerAsF64_any {i : Int} {p : Float → Bool} :
    (safeIntegerAsF64 i).any p = true ↔
      (-maxExactFloatInteger ≤ i ∧ i ≤ maxExactFloatInteger) ∧ p (Float.ofInt i) = true := by
  unfold safeIntegerAsF64
  split
  · next h => simp [h]
  · next h => simp [h]

theorem numbersEqual_iff {m n : JsonNumber} : numbersEqual m n = true ↔ SameNumber m n := by
  unfold numbersEqual
  -- the engine compares two integers, an integer and a float, or two floats
  cases hm : integerValue m with
  | some i =>
    cases hn : integerValue n with
    | some j =>
      simp only [beq_iff_eq]
      refine ⟨?_, ?_⟩
      · rintro rfl
        exact .integers hm hn
      · intro h
        cases h <;> simp_all
    | none =>
      dsimp only
      rw [safeIntegerAsF64_any]
      refine ⟨?_, ?_⟩
      · rintro ⟨hle, heq⟩
        exact .integerFloat hm hn hle heq
      · intro h
        cases h <;> simp_all
  | none =>
    cases hn : integerValue n with
    | some j =>
      dsimp only
      rw [safeIntegerAsF64_any]
      refine ⟨?_, ?_⟩
      · rintro ⟨hle, heq⟩
        exact .floatInteger hm hn hle heq
      · intro h
        cases h <;> simp_all
    | none =>
      refine ⟨?_, ?_⟩
      · intro heq
        exact .floats hm hn heq
      · intro h
        cases h <;> simp_all

theorem matchesExpectedType_iff {v : JsonValue} {t : ExpectedType} :
    matchesExpectedType v t = true ↔ HasType t v := by
  refine ⟨?_, ?_⟩
  · intro h
    cases t <;> cases v <;>
      first
        | exact absurd h Bool.false_ne_true
        | exact .integer (numberIsInteger_iff.mp h)
        | constructor
  · intro h
    cases h with
    | integer h => exact numberIsInteger_iff.mpr h
    | _ => rfl

/-- A number that is not an integer is compared the same way with and without the flag. -/
theorem matches_expectedNumberIsFlexible {v actual : JsonValue} :
    Matches (expectedNumberIsFlexible v) v actual ↔ Matches false v actual := by
  cases v with
  | number m =>
    cases hm : numberIsInteger m with
    | true => simp [expectedNumberIsFlexible, JsonValue.asNumber, hm]
    | false =>
      have hm' : ¬ IsInteger m := by rw [← numberIsInteger_iff, hm]; exact Bool.false_ne_true
      simp [Matches, hm']
  | _ => simp only [Matches]

theorem asObject_eq_some {v : JsonValue} {es : List (String × JsonValue)} :
    v.asObject = some es ↔ v = .object es := by
  cases v <;> simp [JsonValue.asObject]

theorem asObject_eq_none {v : JsonValue} : v.asObject = none ↔ ∀ es, v ≠ .object es := by
  cases v <;> simp [JsonValue.asObject]

theorem MatchesItems.length_eq {vs ws : List JsonValue} (h : MatchesItems vs ws) :
    vs.length = ws.length := by
  induction vs generalizing ws with
  | nil =>
    rw [MatchesItems] at h
    rw [h]
  | cons v vs ih =>
    rw [MatchesItems] at h
    obtain ⟨w, ws', rfl, -, h⟩ := h
    rw [List.length_cons, List.length_cons, ih h]

section Failures

variable [Platform] {maxJsonDepth : Nat}

theorem numberFailures_eq_nil_iff {m n : JsonNumber} {path : String} {flexible : Bool} :
    numberFailures m n path flexible = [] ↔
      SameNumber m n ∧ (flexible = false → IsInteger m → IsInteger n) := by
  rw [← numbersEqual_iff, ← numberIsInteger_iff, ← numberIsInteger_iff]
  unfold numberFailures
  cases flexible <;> cases numberIsInteger m <;> cases numberIsInteger n <;>
    cases numbersEqual m n <;> simp

omit [Platform] in
theorem withinDepth_of_le {path : String} {depth : Nat} (h : depth ≤ maxJsonDepth)
    (fs : List AssertionFailure) : withinDepth maxJsonDepth path depth fs = fs := if_pos h

mutual

/-- **Values.** Comparing finds nothing exactly when the value matches. -/
theorem compareFailures_eq_nil_iff (expected : JsonValue) {actual : JsonValue} {path : String}
    {depth : Nat} {flexible : Bool} (hd : depth + expected.levels ≤ maxJsonDepth + 1) :
    compareFailures maxJsonDepth expected actual path depth flexible = [] ↔
      Matches flexible expected actual := by
  match expected with
  | .null =>
    rw [compareFailures, Matches]
    cases actual <;> simp [JsonValue.isNull]
  | .bool b =>
    rw [compareFailures, Matches]
    cases actual <;> simp [JsonValue.asBool]
  | .string s =>
    rw [compareFailures, Matches]
    cases actual <;> simp [JsonValue.asStr]
  | .number m =>
    rw [compareFailures, Matches]
    cases actual <;> simp [JsonValue.asNumber, numberFailures_eq_nil_iff]
  | .array vs =>
    rw [JsonValue.levels] at hd
    rw [compareFailures, Matches]
    cases actual with
    | array ws =>
      simp only [JsonValue.asArray, JsonValue.array.injEq, exists_eq_left']
      rw [withinDepth_of_le (by omega), List.append_eq_nil_iff]
      -- a wrong length is a failure of its own, whatever the items are
      by_cases hlen : vs.length = ws.length
      · rw [itemsFailures_eq_nil_iff vs (by omega) hlen]
        simp [hlen]
      · simp only [ne_eq, hlen, not_false_eq_true, if_true, List.cons_ne_nil, false_and, false_iff]
        exact fun h => hlen h.length_eq
    | _ => simp [JsonValue.asArray]
  | .object es =>
    rw [JsonValue.levels] at hd
    rw [compareFailures, Matches]
    cases actual with
    | object es' =>
      simp only [JsonValue.asObject, JsonValue.object.injEq, exists_eq_left']
      rw [withinDepth_of_le (by omega), entriesFailures_eq_nil_iff es (by omega)]
    | _ => simp [JsonValue.asObject]

theorem itemsFailures_eq_nil_iff (expected : List JsonValue) {actual : List JsonValue}
    {path : String} {index depth : Nat}
    (hd : depth + 1 + JsonValue.levelsItems expected ≤ maxJsonDepth + 1)
    (hlen : expected.length = actual.length) :
    itemsFailures maxJsonDepth expected actual path index depth = [] ↔
      MatchesItems expected actual := by
  match expected, actual with
  | [], [] => simp [itemsFailures, MatchesItems]
  | v :: vs, w :: ws =>
    rw [JsonValue.levelsItems] at hd
    rw [itemsFailures, MatchesItems, List.append_eq_nil_iff,
      compareFailures_eq_nil_iff v (by omega), matches_expectedNumberIsFlexible,
      itemsFailures_eq_nil_iff vs (by omega) (Nat.succ.inj hlen)]
    refine ⟨?_, ?_⟩
    · rintro ⟨h, hs⟩
      exact ⟨w, ws, rfl, h, hs⟩
    · rintro ⟨_, _, heq, h, hs⟩
      obtain ⟨rfl, rfl⟩ := List.cons.inj heq
      exact ⟨h, hs⟩

theorem entriesFailures_eq_nil_iff (expected : List (String × JsonValue))
    {actual : SortedMap String JsonValue} {path : String} {depth : Nat}
    (hd : depth + 1 + JsonValue.levelsEntries expected ≤ maxJsonDepth + 1) :
    entriesFailures maxJsonDepth expected actual path depth = [] ↔
      MatchesEntries expected actual := by
  match expected with
  | [] => simp [entriesFailures, MatchesEntries]
  | (key, v) :: es =>
    rw [JsonValue.levelsEntries] at hd
    rw [entriesFailures, MatchesEntries, List.append_eq_nil_iff,
      entriesFailures_eq_nil_iff es (by omega)]
    refine and_congr_left fun _ => ?_
    cases IndexMap.get actual key with
    | none => simp
    | some w =>
      simp only [Option.some.injEq, exists_eq_left']
      rw [compareFailures_eq_nil_iff v (by omega), matches_expectedNumberIsFlexible]

end

theorem declaredFailures_eq_nil_iff {fields : List (String × ResolvedFieldAssertion)}
    {actual : SortedMap String JsonValue} {path : String} :
    declaredFailures fields actual path = [] ↔
      ∀ name ∈ IndexMap.keys actual, name ∈ IndexMap.keys fields := by
  induction actual with
  | nil => simp [declaredFailures]
  | cons e actual ih =>
    obtain ⟨name, v⟩ := e
    rw [declaredFailures, List.append_eq_nil_iff, ih, IndexMap.keys_cons]
    simp

mutual

/-- **Objects.** Asserting finds nothing exactly when the object holds. -/
theorem objectFailures_eq_nil_iff (assertion : ResolvedObjectAssertion)
    {actual : SortedMap String JsonValue} {path : String} {depth : Nat}
    (hn : assertion.NestedOnObjects) (hd : depth + assertion.levels ≤ maxJsonDepth + 1) :
    objectFailures maxJsonDepth assertion actual path depth = [] ↔
      ObjectHolds assertion actual := by
  match assertion with
  | ⟨mode, fields⟩ =>
    rw [ResolvedObjectAssertion.levels] at hd
    rw [ResolvedObjectAssertion.NestedOnObjects] at hn
    rw [objectFailures.eq_def, ObjectHolds]
    dsimp only
    rw [withinDepth_of_le (by omega), List.append_eq_nil_iff,
      fieldsFailures_eq_nil_iff fields hn (by omega)]
    refine and_congr_right fun _ => ?_
    cases mode with
    | exact => simpa using declaredFailures_eq_nil_iff
    | partially => simp

theorem fieldsFailures_eq_nil_iff (fields : List (String × ResolvedFieldAssertion))
    {actual : SortedMap String JsonValue} {path : String} {depth : Nat}
    (hn : ResolvedFieldAssertion.NestedOnObjectsAll fields)
    (hd : depth + 1 + ResolvedFieldAssertion.levelsAll fields ≤ maxJsonDepth + 1) :
    fieldsFailures maxJsonDepth fields actual path depth = [] ↔ FieldsHold fields actual := by
  match fields with
  | [] => simp [fieldsFailures, FieldsHold]
  | (name, field) :: fields =>
    rw [ResolvedFieldAssertion.levelsAll] at hd
    rw [ResolvedFieldAssertion.NestedOnObjectsAll] at hn
    rw [fieldsFailures, FieldsHold, List.append_eq_nil_iff,
      fieldsFailures_eq_nil_iff fields hn.2 (by omega)]
    refine and_congr_left fun _ => ?_
    cases IndexMap.get actual name with
    | none => simp
    | some v =>
      simp only [Option.some.injEq, exists_eq_left']
      exact fieldFailures_eq_nil_iff field hn.1 (by omega)

theorem fieldFailures_eq_nil_iff (field : ResolvedFieldAssertion) {actual : JsonValue}
    {path : String} {depth : Nat} (hn : field.NestedOnObjects)
    (hd : depth + 1 + field.levels ≤ maxJsonDepth + 1) :
    fieldFailures maxJsonDepth field actual path depth = [] ↔ FieldHolds field actual := by
  match field with
  | ⟨_, expectedType, expectedValue, nested, _⟩ =>
    rw [ResolvedFieldAssertion.levels.eq_def] at hd
    rw [fieldFailures.eq_def, FieldHolds.eq_def]
    dsimp only at hd ⊢
    rw [← matchesExpectedType_iff]
    cases ht : matchesExpectedType actual expectedType with
    | false => simp
    | true =>
      simp only [Bool.not_true, Bool.false_eq_true, if_false, List.append_eq_nil_iff, true_and]
      refine and_congr ?_ ?_
      · match expectedValue with
        | none => simp
        | some expected =>
          dsimp only at hd
          exact compareFailures_eq_nil_iff expected (by omega)
      · match nested with
        | none => simp
        | some assertion =>
          rw [ResolvedFieldAssertion.NestedOnObjects] at hn
          obtain ⟨rfl, hn⟩ := hn
          dsimp only at hd
          -- the type check has already made sure that the value is an object
          obtain ⟨object⟩ := matchesExpectedType_iff.mp ht
          simp only [JsonValue.asObject, JsonValue.object.injEq, exists_eq_left']
          exact objectFailures_eq_nil_iff assertion hn (by omega)

end

omit [Platform] in
theorem statusFailures_eq_nil_iff {expected : Option Nat} {actual : Nat} :
    statusFailures expected actual = [] ↔ ∀ status, expected = some status → status = actual := by
  cases expected with
  | none => simp [statusFailures]
  | some status => simp [statusFailures]

omit [Platform] in
theorem headerMatches_iff {headers : ResponseHeaders} {name : String}
    {assertion : ResolvedHeaderAssertion} :
    Evaluation.headerMatches assertion (headers.get name) = true ↔
      HeaderHolds headers name assertion := by
  unfold Evaluation.headerMatches HeaderHolds
  cases assertion with
  | exists_ =>
    rw [headers.values_eq]
    cases headers.get name <;> simp
  | exact expected =>
    rw [headers.values_eq]
    cases headers.get name <;> simp
  | contains expected =>
    rw [headers.values_eq]
    cases headers.get name with
    | none => simp
    | some values =>
      simp only [Option.any_some, List.any_eq_true, Option.getD_some, Option.any_eq_true,
        containsStr_iff]
      rfl

theorem headersFailures_eq_nil_iff {expected : IndexMap String ResolvedHeaderAssertion}
    {actual : ResponseHeaders} :
    headersFailures expected actual = [] ↔
      ∀ name assertion, (name, assertion) ∈ expected → HeaderHolds actual name assertion := by
  induction expected with
  | nil => simp [headersFailures]
  | cons e expected ih =>
    obtain ⟨name, assertion⟩ := e
    rw [headersFailures, List.append_eq_nil_iff, ih, ite_eq_left_iff]
    simp only [headerMatches_iff, List.cons_ne_nil, imp_false, not_not, List.mem_cons,
      Prod.mk.injEq]
    refine ⟨?_, ?_⟩
    · rintro ⟨h, hs⟩ name' assertion' (⟨rfl, rfl⟩ | hmem)
      · exact h
      · exact hs _ _ hmem
    · intro h
      exact ⟨h _ _ (Or.inl ⟨rfl, rfl⟩), fun _ _ hmem => h _ _ (Or.inr hmem)⟩

theorem textFailures_eq_nil_iff {assertion : ResolvedTextAssertion} {actual : String} :
    textFailures assertion actual = [] ↔ TextHolds assertion actual := by
  cases assertion with
  | exact expected => simp [textFailures, TextHolds]
  | contains expected => simp [textFailures, TextHolds, ← containsStr_iff]

theorem bodyFailures_eq_nil_iff {body : ResolvedBodyAssertion} {actual : HttpResponse}
    (hn : ∀ assertion, body = .json assertion → assertion.NestedOnObjects)
    (hd : ∀ assertion, body = .json assertion → assertion.levels ≤ maxJsonDepth + 1) :
    bodyFailures maxJsonDepth (some body) actual = [] ↔ BodyHolds actual body := by
  cases body with
  | empty => simp [bodyFailures, BodyHolds]
  | text assertion =>
    rw [bodyFailures, BodyHolds]
    cases actual.body with
    | text bytes =>
      simp only [ResponseBody.text.injEq, exists_eq_left']
      cases htext : String.fromUTF8? bytes with
      | none => simp [IsText, htext]
      | some text => simp [IsText, htext, textFailures_eq_nil_iff]
    | _ => simp
  | json assertion =>
    rw [bodyFailures, BodyHolds]
    cases actual.body with
    | json raw value =>
      simp only [ResponseBody.json.injEq]
      cases hobject : value.value.asObject with
      | none =>
        simp only [List.cons_ne_nil, false_iff]
        rintro ⟨_, _, object, ⟨rfl, rfl⟩, h, -⟩
        exact asObject_eq_none.mp hobject object h
      | some object =>
        dsimp only
        rw [objectFailures_eq_nil_iff assertion (hn _ rfl) (by have := hd _ rfl; omega)]
        rw [asObject_eq_some] at hobject
        simp [hobject]
    | _ => simp

end Failures

/-- **The engine decides its matching relation.** When nested assertions stand on object fields
only and the depth limit covers the expectation, evaluation succeeds exactly when everything
that the expectation says holds of the response. -/
theorem evaluate_decides_expectation [Platform] (config : AssertionConfig)
    (expected : ResolvedResponseExpectation) (actual : HttpResponse)
    (hn : expected.NestedOnObjects) (hd : expected.CoveredBy config.maxJsonDepth) :
    (evaluate config expected actual).isSuccess = true ↔ ExpectationHolds expected actual := by
  rw [evaluate_isSuccess_iff, expectationFailures, List.append_eq_nil_iff,
    List.append_eq_nil_iff, statusFailures_eq_nil_iff, headersFailures_eq_nil_iff]
  have hbody : bodyFailures config.maxJsonDepth expected.body actual = [] ↔
      ∀ body, expected.body = some body → BodyHolds actual body := by
    cases hb : expected.body with
    | none => simp [bodyFailures]
    | some body =>
      rw [bodyFailures_eq_nil_iff (fun a ha => hn a (hb.trans (congrArg some ha)))
        (fun a ha => hd a (hb.trans (congrArg some ha)))]
      simp
  rw [hbody]
  refine ⟨?_, ?_⟩
  · rintro ⟨⟨hs, hh⟩, hb⟩
    exact ⟨hs, hh, hb⟩
  · intro h
    exact ⟨⟨h.status, h.headers⟩, h.body⟩

/-- An exact assertion with a nested one, met by a response whose number is written as a
double. -/
theorem expectationHolds_order :
    ExpectationHolds
      ⟨some 200, [("Content-Type", .exists_)],
        some (.json ⟨.exact,
          [("total", ⟨"total", .number, some (.number (.posInt 3)), none, none⟩),
           ("user", ⟨"user", .object, none,
              some ⟨.partially, [("name", ⟨"name", .string, none, none, none⟩)]⟩, none⟩)]⟩)⟩
      ⟨200, ResponseHeaders.new.append "content-type" "application/json".toUTF8,
        .json ByteArray.empty
          ⟨.object
            [("total", .number (.float (Float.ofInt 3) (by rfl))),
             ("user", .object [("id", .null), ("name", .string "Ada")])],
            by
              simp [JsonValue.Sorted, JsonValue.SortedEntries, SortedMap.Sorted,
                -String.lt_iff_ltb]⟩⟩ :=
  letI := asciiPlatform
  (evaluate_decides_expectation AssertionConfig.default _ _
    (by rintro _ ⟨⟩; simp [ResolvedObjectAssertion.NestedOnObjects,
      ResolvedFieldAssertion.NestedOnObjectsAll, ResolvedFieldAssertion.NestedOnObjects])
    (by rintro _ ⟨⟩; decide)).mp (by decide)

end Rettp
