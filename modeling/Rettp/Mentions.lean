import Rettp.Resolver

/-!
# The variables that are looked up

Resolution reads a store only at the variables that a text mentions: two stores that agree there
(`VariableStore.AgreeOn`) resolve a request, or an expectation, to the same result or to the same
error. A capture counts only by the value that it stands for, not by the document that it shares.
-/

namespace Rettp

/-! ## Texts -/

/-- The variables that have a placeholder in the text. -/
def InterpolatedString.mentions (text : InterpolatedString) : Set VariableName :=
  {name | ['$', '{'] ++ name.raw.toList ++ ['}'] <:+: text.raw.toList}

/-- The variables that some of the texts mention. -/
def mentioned (texts : List InterpolatedString) : Set VariableName :=
  {name | ∃ text ∈ texts, name ∈ text.mentions}

mutual

/-- The texts of a value. -/
def Value.texts : Value → List InterpolatedString
  | .string input => [input]
  | .array items => Value.textsOfItems items
  | .object entries => Value.textsOfEntries entries
  | .integer _ | .number _ | .boolean _ | .null => []

/-- The texts of the items of an array. -/
def Value.textsOfItems : List Value → List InterpolatedString
  | [] => []
  | v :: vs => v.texts ++ Value.textsOfItems vs

/-- The texts in the entries of an object. -/
def Value.textsOfEntries : List (String × Value) → List InterpolatedString
  | [] => []
  | (_, v) :: es => v.texts ++ Value.textsOfEntries es

end

/-- The texts of a body. -/
def RequestBody.texts : RequestBody → List InterpolatedString
  | .json value => value.texts
  | .text value => [value]
  | .formData fields => Value.textsOfEntries fields
  | .binary _ => []

/-- The texts of a request: its path, headers, query and body. -/
def HttpRequestSpec.texts (request : HttpRequestSpec) : List InterpolatedString :=
  request.path :: (Value.textsOfEntries request.headers ++ Value.textsOfEntries request.query ++
    request.body.toList.flatMap RequestBody.texts)

/-- The texts of a header assertion. -/
def HeaderAssertion.texts : HeaderAssertion → List InterpolatedString
  | .exists_ => []
  | .exact expected | .contains expected => [expected]

mutual

/-- The texts of an object assertion. -/
def ObjectAssertion.texts : ObjectAssertion → List InterpolatedString
  | ⟨_, fields⟩ => FieldAssertion.textsOfAll fields

/-- The texts of several fields. -/
def FieldAssertion.textsOfAll : List (String × FieldAssertion) → List InterpolatedString
  | [] => []
  | (_, field) :: fields => field.texts ++ FieldAssertion.textsOfAll fields

/-- The texts of a field: in its value and in its nested fields. -/
def FieldAssertion.texts : FieldAssertion → List InterpolatedString
  | ⟨_, _, expectedValue, nested, _⟩ => expectedValue.toList.flatMap Value.texts ++
      match nested with
      | some assertion => assertion.texts
      | none => []

end

/-- The texts of a body assertion. -/
def BodyAssertion.texts : BodyAssertion → List InterpolatedString
  | .json assertion => assertion.texts
  | .text (.exact expected) | .text (.contains expected) => [expected]
  | .empty => []

/-- The texts of an expectation. -/
def ResponseExpectation.texts (expectation : ResponseExpectation) : List InterpolatedString :=
  expectation.headers.flatMap (·.2.texts) ++ expectation.body.toList.flatMap BodyAssertion.texts

/-- The texts of a test, in which alone variables are looked up. -/
def TestCase.texts (test : TestCase) : List InterpolatedString :=
  test.request.texts ++ test.expectation.texts

/-! ## Agreement -/

/-- The value as it is read: a shared capture is read as the JSON value that it stands for. -/
def VariableValue.read : VariableValue → VariableValue
  | .text value => .text value
  | .json value => .json value
  | .sharedJson value => .json value.asJson

/-- What a variable reads as, if there is one of this name. -/
def VariableStore.read (s : VariableStore) (name : VariableName) : Option VariableValue :=
  (s.get name).map VariableValue.read

/-- The two stores read the same value, or both none, under each of the names. -/
def VariableStore.AgreeOn (names : Set VariableName) (s t : VariableStore) : Prop :=
  ∀ name ∈ names, s.read name = t.read name

/-- Stores that agree on more names agree on fewer. -/
theorem VariableStore.AgreeOn.mono {names names' : Set VariableName} {s t : VariableStore}
    (h : AgreeOn names s t) (hsub : names' ⊆ names) : AgreeOn names' s t :=
  fun name hname => h name (hsub hname)

/-- Agreement on what texts mention. -/
abbrev SameTexts (texts : List InterpolatedString) (s t : VariableStore) : Prop :=
  VariableStore.AgreeOn (mentioned texts) s t

section

variable {s t : VariableStore} {texts texts' : List InterpolatedString}

/-- Texts after other texts. -/
theorem sameTexts_append :
    SameTexts (texts ++ texts') s t ↔ SameTexts texts s t ∧ SameTexts texts' s t := by
  refine ⟨?_, ?_⟩
  · intro h
    exact ⟨h.mono fun _ ⟨text, hmem, hname⟩ => ⟨text, List.mem_append_left _ hmem, hname⟩,
      h.mono fun _ ⟨text, hmem, hname⟩ => ⟨text, List.mem_append_right _ hmem, hname⟩⟩
  · rintro ⟨h, h'⟩ name ⟨text, hmem, hname⟩
    rcases List.mem_append.mp hmem with hmem | hmem
    · exact h name ⟨text, hmem, hname⟩
    · exact h' name ⟨text, hmem, hname⟩

/-- One text before others. -/
theorem sameTexts_cons {text : InterpolatedString} :
    SameTexts (text :: texts) s t ↔ s.AgreeOn text.mentions t ∧ SameTexts texts s t := by
  rw [← List.singleton_append, sameTexts_append, and_congr_left_iff]
  intro _
  exact ⟨fun h => h.mono fun _ hname => ⟨text, List.mem_singleton_self _, hname⟩,
    fun h name ⟨_, hmem, hname⟩ => h name (List.mem_singleton.mp hmem ▸ hname)⟩

theorem SameTexts.head {text : InterpolatedString} (h : SameTexts [text] s t) :
    s.AgreeOn text.mentions t := (sameTexts_cons.mp h).1

/-- What agrees on all texts agrees on those of a part. -/
theorem SameTexts.of_mem {α : Type} {f : α → List InterpolatedString} {items : List α} {a : α}
    (h : SameTexts (items.flatMap f) s t) (ha : a ∈ items) : SameTexts (f a) s t :=
  h.mono fun _ ⟨text, hmem, hname⟩ => ⟨text, List.mem_flatMap.mpr ⟨a, ha, hmem⟩, hname⟩

end

variable [Platform]

namespace Interpolator

variable {s t : VariableStore} (config : RuntimeConfig) (location : ResolutionLocation)

/-! ## Placeholders -/

/-- Two results of a lookup that read the same. -/
abbrev SameFound (found found' : VariableName × VariableValue) : Prop :=
  found.1 = found'.1 ∧ found.2.read = found'.2.read

/-- Only the variable that is named is looked up. -/
theorem lookup_sameTexts (rawName : List Char)
    (h : ∀ name : VariableName, name.raw.toList = rawName → s.read name = t.read name) :
    Except.Rel Eq SameFound (lookup config rawName s location)
      (lookup config rawName t location) := by
  unfold lookup
  split
  · exact .error rfl
  · split
    · exact .error rfl
    · cases hnew : VariableName.new (String.ofList rawName) with
      | error e => exact .error rfl
      | ok name =>
        have hread := h name (by rw [VariableName.new_ok hnew, String.toList_ofList])
        dsimp only
        rw [VariableStore.read, VariableStore.read] at hread
        cases hs : s.get name with
        | none =>
          rw [hs, Option.map_none, eq_comm, Option.map_eq_none_iff] at hread
          rw [hread]
          exact .error rfl
        | some value =>
          rw [hs, Option.map_some, eq_comm, Option.map_eq_some_iff] at hread
          obtain ⟨value', ht, hvalue⟩ := hread
          rw [ht]
          exact .ok ⟨rfl, hvalue.symm⟩

omit [Platform] in
/-- A variable that is read has the same JSON value. -/
theorem asJson_read (value : VariableValue) : value.read.asJson = value.asJson := by
  cases value <;> rfl

omit [Platform] in
/-- It has the same type. -/
theorem typeName_read (value : VariableValue) : value.read.typeName = value.typeName := by
  cases value <;> rfl

/-- It has the same text. -/
theorem scalarText_read (value : VariableValue) : value.read.scalarText = value.scalarText := by
  cases value <;> rfl

/-- **The loop.** The text after the cursor is all that is looked at. -/
theorem interpolateLoop_sameTexts (fuel : Nat) (rest output : List Char)
    (h : ∀ name : VariableName, ['$', '{'] ++ name.raw.toList ++ ['}'] <:+: rest →
      s.read name = t.read name) :
    interpolateLoop config s location fuel rest output =
      interpolateLoop config t location fuel rest output := by
  induction fuel generalizing rest output with
  | zero => rfl
  | succ fuel ih =>
    rw [interpolateLoop, interpolateLoop]
    cases hmark : splitAtStr ['$', '{'] rest with
    | none => rfl
    | some split =>
      obtain ⟨before, marked⟩ := split
      obtain ⟨rfl, inside, rfl⟩ := splitAtStr_eq_some hmark
      dsimp only
      refine bind_congr fun output => ?_
      cases hclose : splitAtChar '}' ((['$', '{'] ++ inside).drop 2) with
      | none => rfl
      | some split' =>
        obtain ⟨rawName, rest'⟩ := split'
        obtain ⟨hinside, -⟩ := splitAtChar_eq_some hclose
        obtain rfl : inside = rawName ++ '}' :: rest' := hinside
        dsimp only
        have hfound := lookup_sameTexts config location rawName
          fun name hname => h name ⟨before, rest', by simp [hname]⟩
        generalize lookup config rawName s location = found at hfound
        generalize lookup config rawName t location = found' at hfound
        cases hfound with
        | error he => exact he ▸ rfl
        | @ok found found' hread =>
          obtain ⟨name, value⟩ := found
          obtain ⟨name', value'⟩ := found'
          obtain ⟨rfl, hread⟩ : name = name' ∧ value.read = value'.read := hread
          dsimp only [Except.ok_bind]
          rw [← scalarText_read value, ← typeName_read value, hread, scalarText_read, typeName_read]
          cases value'.scalarText with
          | none => rfl
          | some text =>
            refine bind_congr fun output => ih rest' output fun name hname => h name ?_
            exact hname.trans ⟨before ++ (['$', '{'] ++ rawName ++ ['}']), [], by simp⟩

/-- **A text comes out the same** if the stores agree on what it mentions. -/
theorem interpolate_sameTexts {input : InterpolatedString} (h : s.AgreeOn input.mentions t) :
    interpolate config input s location = interpolate config input t location := by
  rw [interpolate, interpolate, interpolateLoop_sameTexts config location _ _ _ h]

/-- A placeholder alone finds the same. -/
theorem exactPlaceholder_sameTexts {input : InterpolatedString} (h : s.AgreeOn input.mentions t) :
    Except.Rel Eq (Option.Rel SameFound) (exactPlaceholder config input s location)
      (exactPlaceholder config input t location) := by
  unfold exactPlaceholder
  dsimp only
  split
  · exact .ok .none
  · next hplaceholder =>
    simp only [Bool.or_eq_true, Bool.not_eq_true', not_or, Bool.not_eq_false, bne_iff_ne, ne_eq,
      not_not] at hplaceholder
    obtain ⟨⟨hfirst, hlast⟩, -⟩ := hplaceholder
    obtain ⟨inside, hinside⟩ := List.isPrefixOf_iff_prefix.mp hfirst
    refine (lookup_sameTexts config location _ fun name hname => h name ?_).map fun _ _ => .some
    change ['$', '{'] ++ name.raw.toList ++ ['}'] <:+: input.raw.toList
    rw [hname, ← hinside]
    -- the last character is not one of the first two
    cases inside using List.reverseRecOn with
    | nil =>
      rw [← hinside] at hlast
      cases hlast
    | append_singleton inside c =>
      rw [← hinside, ← List.append_assoc, List.getLast?_concat] at hlast
      obtain rfl := Option.some.inj hlast
      simp

/-- A placeholder alone resolves to the same. -/
theorem structuredPlaceholder_sameTexts {input : InterpolatedString}
    (h : s.AgreeOn input.mentions t) :
    structuredPlaceholder config input s location =
      structuredPlaceholder config input t location := by
  have hfound := exactPlaceholder_sameTexts config location h
  rw [structuredPlaceholder, structuredPlaceholder]
  generalize exactPlaceholder config input s location = found at hfound
  generalize exactPlaceholder config input t location = found' at hfound
  cases hfound with
  | error he => exact he ▸ rfl
  | ok hread =>
    cases hread with
    | none => rfl
    | @some found found' hread =>
      dsimp only [Except.ok_bind]
      rw [VariableValue.isStructured, VariableValue.isStructured, ← asJson_read found.2, hread.2,
        asJson_read]

/-! ## Values -/

section Request

variable (allow : Bool)

mutual

/-- **A value resolves to the same** if the stores agree on what it mentions. -/
theorem resolveValue_sameTexts (value : Value) (depth : Nat) (h : SameTexts value.texts s t) :
    resolveValue config s location allow value depth =
      resolveValue config t location allow value depth := by
  match value with
  | .string input =>
    rw [Value.texts] at h
    rw [resolveValue, resolveValue, interpolate_sameTexts config location h.head,
      structuredPlaceholder_sameTexts config location h.head]
  | .array items =>
    rw [Value.texts] at h
    rw [resolveValue, resolveValue, resolveItems_sameTexts items (depth + 1) h]
  | .object entries =>
    rw [Value.texts] at h
    rw [resolveValue, resolveValue, resolveEntries_sameTexts entries (depth + 1) h]
  | .integer _ | .number _ | .boolean _ | .null => rw [resolveValue, resolveValue]

/-- So do the items of an array. -/
theorem resolveItems_sameTexts (items : List Value) (depth : Nat)
    (h : SameTexts (Value.textsOfItems items) s t) :
    resolveItems config s location allow items depth =
      resolveItems config t location allow items depth := by
  match items with
  | [] => rfl
  | v :: vs =>
    rw [Value.textsOfItems, sameTexts_append] at h
    rw [resolveItems, resolveItems, resolveValue_sameTexts v depth h.1,
      resolveItems_sameTexts vs depth h.2]

/-- So do the entries of an object. -/
theorem resolveEntries_sameTexts (entries : List (String × Value)) (depth : Nat)
    (h : SameTexts (Value.textsOfEntries entries) s t) :
    resolveEntries config s location allow entries depth =
      resolveEntries config t location allow entries depth := by
  match entries with
  | [] => rfl
  | (name, v) :: es =>
    rw [Value.textsOfEntries, sameTexts_append] at h
    rw [resolveEntries, resolveEntries, resolveValue_sameTexts v depth h.1,
      resolveEntries_sameTexts es depth h.2]

end

end Request

mutual

/-- A value resolves to the same JSON. -/
theorem resolveJsonValue_sameTexts (value : Value) (depth : Nat) (h : SameTexts value.texts s t) :
    resolveJsonValue config s location value depth =
      resolveJsonValue config t location value depth := by
  match value with
  | .string input =>
    rw [Value.texts] at h
    rw [resolveJsonValue, resolveJsonValue, interpolate_sameTexts config location h.head,
      structuredPlaceholder_sameTexts config location h.head]
  | .array items =>
    rw [Value.texts] at h
    rw [resolveJsonValue, resolveJsonValue, resolveJsonItems_sameTexts items (depth + 1) h]
  | .object entries =>
    rw [Value.texts] at h
    rw [resolveJsonValue, resolveJsonValue, resolveJsonEntries_sameTexts entries (depth + 1) h]
  | .integer _ | .number _ | .boolean _ | .null => rw [resolveJsonValue, resolveJsonValue]

/-- So do the items of an array. -/
theorem resolveJsonItems_sameTexts (items : List Value) (depth : Nat)
    (h : SameTexts (Value.textsOfItems items) s t) :
    resolveJsonItems config s location items depth =
      resolveJsonItems config t location items depth := by
  match items with
  | [] => rfl
  | v :: vs =>
    rw [Value.textsOfItems, sameTexts_append] at h
    rw [resolveJsonItems, resolveJsonItems, resolveJsonValue_sameTexts v depth h.1,
      resolveJsonItems_sameTexts vs depth h.2]

/-- So do the entries of an object. -/
theorem resolveJsonEntries_sameTexts (entries : List (String × Value)) (depth : Nat)
    (h : SameTexts (Value.textsOfEntries entries) s t) :
    resolveJsonEntries config s location entries depth =
      resolveJsonEntries config t location entries depth := by
  match entries with
  | [] => rfl
  | (name, v) :: es =>
    rw [Value.textsOfEntries, sameTexts_append] at h
    rw [resolveJsonEntries, resolveJsonEntries, resolveJsonValue_sameTexts v depth h.1,
      resolveJsonEntries_sameTexts es depth h.2]

end

end Interpolator

/-! ## Requests and expectations -/

namespace RuntimeResolver

open Interpolator

variable {s t : VariableStore} (config : RuntimeConfig)

/-- Headers and query parameters resolve to the same. -/
theorem resolveMap_sameTexts (location : ResolutionLocation) {entries : IndexMap String Value}
    (h : SameTexts (Value.textsOfEntries entries) s t) :
    resolveMap config s location entries = resolveMap config t location entries := by
  rw [resolveMap, resolveMap, resolveEntries_sameTexts config location false entries 0 h]

/-- A body resolves to the same. -/
theorem resolveRequestBody_sameTexts {body : RequestBody} (h : SameTexts body.texts s t) :
    resolveRequestBody config s body = resolveRequestBody config t body := by
  cases body with
  | json value =>
    rw [resolveRequestBody, resolveRequestBody, resolveValue_sameTexts config _ true value 0 h]
  | text value => rw [resolveRequestBody, resolveRequestBody, interpolate_sameTexts config _ h.head]
  | formData fields => rw [resolveRequestBody, resolveRequestBody, resolveMap_sameTexts config _ h]
  | binary bytes => rfl

/-- **Requests.** -/
theorem resolveRequest_sameTexts {request : HttpRequestSpec} (h : SameTexts request.texts s t) :
    resolveRequest config s request = resolveRequest config t request := by
  rw [HttpRequestSpec.texts, sameTexts_cons, sameTexts_append, sameTexts_append] at h
  obtain ⟨hpath, ⟨hheaders, hquery⟩, hbody⟩ := h
  rw [resolveRequest, resolveRequest, interpolate_sameTexts config _ hpath,
    resolveMap_sameTexts config _ hheaders, resolveMap_sameTexts config _ hquery]
  cases hgiven : request.body with
  | none => rfl
  | some body =>
    rw [hgiven] at hbody
    dsimp only
    rw [resolveRequestBody_sameTexts config (hbody.of_mem (List.mem_singleton_self body))]

/-- A header assertion resolves to the same. -/
theorem resolveHeaderAssertion_sameTexts {assertion : HeaderAssertion}
    (h : SameTexts assertion.texts s t) :
    resolveHeaderAssertion config s assertion = resolveHeaderAssertion config t assertion := by
  cases assertion with
  | exists_ => rfl
  | exact expected =>
    rw [resolveHeaderAssertion, resolveHeaderAssertion, interpolate_sameTexts config _ h.head]
  | contains expected =>
    rw [resolveHeaderAssertion, resolveHeaderAssertion, interpolate_sameTexts config _ h.head]

/-- So do several of them. -/
theorem resolveHeaderAssertions_sameTexts {assertions : List (String × HeaderAssertion)}
    (h : SameTexts (assertions.flatMap (·.2.texts)) s t) :
    resolveHeaderAssertions config s assertions = resolveHeaderAssertions config t assertions := by
  induction assertions with
  | nil => rfl
  | cons entry assertions ih =>
    obtain ⟨name, assertion⟩ := entry
    rw [List.flatMap_cons, sameTexts_append] at h
    rw [resolveHeaderAssertions, resolveHeaderAssertions,
      resolveHeaderAssertion_sameTexts config h.1, ih h.2]

mutual

/-- An object assertion resolves to the same. -/
theorem resolveObjectAssertion_sameTexts (assertion : ObjectAssertion) (depth : Nat)
    (h : SameTexts assertion.texts s t) :
    resolveObjectAssertion config s assertion depth =
      resolveObjectAssertion config t assertion depth := by
  match assertion with
  | ⟨mode, fields⟩ =>
    rw [ObjectAssertion.texts] at h
    rw [resolveObjectAssertion, resolveObjectAssertion,
      resolveFieldAssertions_sameTexts fields (depth + 1) h]

/-- So do its fields. -/
theorem resolveFieldAssertions_sameTexts (fields : List (String × FieldAssertion)) (depth : Nat)
    (h : SameTexts (FieldAssertion.textsOfAll fields) s t) :
    resolveFieldAssertions config s fields depth =
      resolveFieldAssertions config t fields depth := by
  match fields with
  | [] => rfl
  | (name, field) :: fields =>
    rw [FieldAssertion.textsOfAll, sameTexts_append] at h
    rw [resolveFieldAssertions, resolveFieldAssertions,
      resolveFieldAssertion_sameTexts field depth h.1,
      resolveFieldAssertions_sameTexts fields depth h.2]

/-- So does a field. -/
theorem resolveFieldAssertion_sameTexts (field : FieldAssertion) (depth : Nat)
    (h : SameTexts field.texts s t) :
    resolveFieldAssertion config s field depth = resolveFieldAssertion config t field depth := by
  match field with
  | ⟨fieldName, expectedType, expectedValue, nested, capture⟩ =>
    rw [FieldAssertion.texts.eq_def, sameTexts_append] at h
    obtain ⟨hvalue, hnested⟩ := h
    rw [resolveFieldAssertion.eq_def, resolveFieldAssertion.eq_def]
    refine bind_congr fun _ => ?_
    have hvalues : ∀ value ∈ expectedValue, resolveJsonValue config s .expectedJson value depth =
        resolveJsonValue config t .expectedJson value depth := fun value hmem =>
      resolveJsonValue_sameTexts config _ value depth (hvalue.of_mem (Option.mem_toList.mpr hmem))
    have hnesteds : ∀ assertion ∈ nested, resolveObjectAssertion config s assertion depth =
        resolveObjectAssertion config t assertion depth := by
      intro assertion hmem
      obtain rfl := Option.mem_def.mp hmem
      exact resolveObjectAssertion_sameTexts assertion depth hnested
    cases expectedValue <;> cases nested <;>
      simp only [Option.mem_def, Option.some.injEq, forall_eq', reduceCtorEq, false_implies,
        implies_true] at hvalues hnesteds <;>
      simp only [hvalues, hnesteds]

end

/-- A body assertion resolves to the same. -/
theorem resolveBodyAssertion_sameTexts {body : BodyAssertion} (h : SameTexts body.texts s t) :
    resolveBodyAssertion config s body = resolveBodyAssertion config t body := by
  match body with
  | .empty => rfl
  | .text (.exact expected) | .text (.contains expected) =>
    rw [resolveBodyAssertion, resolveBodyAssertion, interpolate_sameTexts config _ h.head]
  | .json assertion =>
    rw [resolveBodyAssertion, resolveBodyAssertion,
      resolveObjectAssertion_sameTexts config assertion 0 h]

/-- **Expectations.** -/
theorem resolveExpectation_sameTexts {expectation : ResponseExpectation}
    (h : SameTexts expectation.texts s t) :
    resolveExpectation config s expectation = resolveExpectation config t expectation := by
  rw [ResponseExpectation.texts, sameTexts_append] at h
  obtain ⟨hheaders, hbody⟩ := h
  rw [resolveExpectation, resolveExpectation, resolveHeaderAssertions_sameTexts config hheaders]
  cases hgiven : expectation.body with
  | none => rfl
  | some body =>
    rw [hgiven] at hbody
    dsimp only
    rw [resolveBodyAssertion_sameTexts config (hbody.of_mem (List.mem_singleton_self body))]

end RuntimeResolver

end Rettp
