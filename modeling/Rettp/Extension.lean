import Rettp.ExecutionMeaning

/-!
# Servers that say more

Expectations are partial: fields that they do not declare are ignored, at every depth. So a suite
that passes also passes against a server whose answers have more fields and more headers, and it
sends the same requests (`execute_extended`).

What is needed is that the suite is tolerant: it does not ask for exact objects, and it captures
scalars only, since a captured object would hold the new fields too.
-/

namespace Rettp

/-! ## Values with more fields -/

mutual

/-- The second value is the first one with more fields, at any depth. -/
def JsonValue.ExtendedBy : JsonValue → JsonValue → Prop
  | .null, w => w = .null
  | .bool b, w => w = .bool b
  | .number n, w => w = .number n
  | .string s, w => w = .string s
  | .array items, w => ∃ items', w = .array items' ∧ JsonValue.ExtendedByItems items items'
  | .object entries, w =>
    ∃ entries', w = .object entries' ∧ JsonValue.ExtendedByEntries entries entries'

/-- Arrays of one length, extended item by item. -/
def JsonValue.ExtendedByItems : List JsonValue → List JsonValue → Prop
  | [], ws => ws = []
  | v :: vs, ws => ∃ w ws', ws = w :: ws' ∧ v.ExtendedBy w ∧ JsonValue.ExtendedByItems vs ws'

/-- Every entry is there, extended. -/
def JsonValue.ExtendedByEntries :
    List (String × JsonValue) → SortedMap String JsonValue → Prop
  | [], _ => True
  | (key, v) :: entries, entries' =>
    (∃ w, IndexMap.get entries' key = some w ∧ v.ExtendedBy w) ∧
      JsonValue.ExtendedByEntries entries entries'

end

/-- A field is still there. -/
theorem JsonValue.ExtendedByEntries.get {entries : List (String × JsonValue)}
    {entries' : SortedMap String JsonValue} (h : JsonValue.ExtendedByEntries entries entries')
    {key : String} {v : JsonValue} (hv : IndexMap.get entries key = some v) :
    ∃ w, IndexMap.get entries' key = some w ∧ v.ExtendedBy w := by
  induction entries with
  | nil => cases hv
  | cons entry entries ih =>
    obtain ⟨key', v'⟩ := entry
    rw [JsonValue.ExtendedByEntries] at h
    rw [IndexMap.get_cons] at hv
    split at hv
    · next heq =>
      subst heq
      rw [← Option.some.inj hv]
      exact h.1
    · exact ih h.2 hv

theorem HasType.extended {type : ExpectedType} {v w : JsonValue} (h : HasType type v)
    (hw : v.ExtendedBy w) : HasType type w := by
  cases h with
  | object entries =>
    obtain ⟨entries', rfl, -⟩ := hw
    exact .object entries'
  | array items =>
    obtain ⟨items', rfl, -⟩ := hw
    exact .array items'
  | string s => exact hw ▸ .string s
  | boolean b => exact hw ▸ .boolean b
  | integer hn => exact hw ▸ .integer hn
  | number n => exact hw ▸ .number n
  | null => exact hw ▸ .null

mutual

/-- Comparison ignores the new fields. -/
theorem Matches.extended (expected : JsonValue) {flexible : Bool} {v w : JsonValue}
    (h : Matches flexible expected v) (hw : v.ExtendedBy w) : Matches flexible expected w := by
  match expected with
  | .null | .bool _ | .string _ =>
    cases h
    exact hw
  | .number m =>
    obtain ⟨n, rfl, h⟩ := h
    exact ⟨n, hw, h⟩
  | .array items =>
    obtain ⟨vs, rfl, h⟩ := h
    obtain ⟨ws, rfl, hws⟩ := hw
    exact ⟨ws, rfl, MatchesItems.extended items h hws⟩
  | .object entries =>
    obtain ⟨vs, rfl, h⟩ := h
    obtain ⟨ws, rfl, hws⟩ := hw
    exact ⟨ws, rfl, MatchesEntries.extended entries h hws⟩

theorem MatchesItems.extended (expected : List JsonValue) {vs ws : List JsonValue}
    (h : MatchesItems expected vs) (hws : JsonValue.ExtendedByItems vs ws) :
    MatchesItems expected ws := by
  match expected with
  | [] =>
    cases h
    exact hws
  | item :: items =>
    obtain ⟨v, vs, rfl, hitem, h⟩ := h
    obtain ⟨w, ws, rfl, hw, hws⟩ := hws
    exact ⟨w, ws, rfl, Matches.extended item hitem hw, MatchesItems.extended items h hws⟩

theorem MatchesEntries.extended (expected : List (String × JsonValue))
    {vs ws : SortedMap String JsonValue} (h : MatchesEntries expected vs)
    (hws : JsonValue.ExtendedByEntries vs ws) : MatchesEntries expected ws := by
  match expected with
  | [] => trivial
  | (key, value) :: entries =>
    obtain ⟨⟨v, hv, hvalue⟩, h⟩ := h
    obtain ⟨w, hw, hextended⟩ := hws.get hv
    exact ⟨⟨w, hw, Matches.extended value hvalue hextended⟩, MatchesEntries.extended entries h hws⟩

end

/-! ## Tolerant expectations -/

/-- A value of the type has no fields. -/
def ExpectedType.IsScalar (type : ExpectedType) : Prop := type ≠ .object ∧ type ≠ .array

mutual

/-- Objects are partial at every depth, and captured values are scalars. -/
def ObjectAssertion.Tolerant : ObjectAssertion → Prop
  | ⟨mode, fields⟩ => mode = .partially ∧ FieldAssertion.TolerantAll fields

/-- All fields are tolerant. -/
def FieldAssertion.TolerantAll : List (String × FieldAssertion) → Prop
  | [] => True
  | (_, field) :: fields => field.Tolerant ∧ FieldAssertion.TolerantAll fields

/-- The captures of a field are scalars, and its nested fields are tolerant. -/
def FieldAssertion.Tolerant : FieldAssertion → Prop
  | ⟨_, expectedType, _, nested, capture⟩ => (capture.isSome = true → expectedType.IsScalar) ∧
      match nested with
      | some assertion => assertion.Tolerant
      | none => True

end

mutual

/-- Objects are matched partially at every depth, and only scalars are captured. -/
def ResolvedObjectAssertion.Tolerant : ResolvedObjectAssertion → Prop
  | ⟨mode, fields⟩ => mode = .partially ∧ ResolvedFieldAssertion.TolerantAll fields

/-- All resolved fields are tolerant. -/
def ResolvedFieldAssertion.TolerantAll : List (String × ResolvedFieldAssertion) → Prop
  | [] => True
  | (_, field) :: fields => field.Tolerant ∧ ResolvedFieldAssertion.TolerantAll fields

/-- The captures of a resolved field are scalars, and its nested fields are tolerant. -/
def ResolvedFieldAssertion.Tolerant : ResolvedFieldAssertion → Prop
  | ⟨_, expectedType, _, nested, capture⟩ => (capture.isSome = true → expectedType.IsScalar) ∧
      match nested with
      | some assertion => assertion.Tolerant
      | none => True

end

mutual

/-- Being tolerant is decided on the tree. -/
def ObjectAssertion.decideTolerant : (assertion : ObjectAssertion) → Decidable assertion.Tolerant
  | ⟨mode, fields⟩ =>
    have := FieldAssertion.decideTolerantAll fields
    inferInstanceAs (Decidable (mode = .partially ∧ FieldAssertion.TolerantAll fields))

/-- Field by field. -/
def FieldAssertion.decideTolerantAll : (fields : List (String × FieldAssertion)) →
    Decidable (FieldAssertion.TolerantAll fields)
  | [] => .isTrue trivial
  | (_, field) :: fields =>
    have := FieldAssertion.decideTolerant field
    have := FieldAssertion.decideTolerantAll fields
    inferInstanceAs (Decidable (field.Tolerant ∧ FieldAssertion.TolerantAll fields))

/-- A field and its nested fields. -/
def FieldAssertion.decideTolerant : (field : FieldAssertion) → Decidable field.Tolerant
  | ⟨_, expectedType, _, none, capture⟩ => inferInstanceAs
      (Decidable ((capture.isSome = true → expectedType ≠ .object ∧ expectedType ≠ .array) ∧ True))
  | ⟨_, expectedType, _, some assertion, capture⟩ =>
    have := assertion.decideTolerant
    inferInstanceAs (Decidable ((capture.isSome = true → expectedType ≠ .object ∧
      expectedType ≠ .array) ∧ assertion.Tolerant))

end

theorem ResolvedFieldAssertion.tolerantAll_iff {fields : List (String × ResolvedFieldAssertion)} :
    ResolvedFieldAssertion.TolerantAll fields ↔ ∀ entry ∈ fields, entry.2.Tolerant := by
  induction fields with
  | nil => exact iff_of_true trivial (List.forall_mem_nil _)
  | cons entry fields ih =>
    obtain ⟨name, field⟩ := entry
    rw [ResolvedFieldAssertion.TolerantAll, ih, List.forall_mem_cons]

namespace RuntimeResolver

variable [Platform] {config : RuntimeConfig} {store : VariableStore}

mutual

/-- Resolution keeps the modes, the types and the captures. -/
theorem resolveObjectAssertion_tolerant (assertion : ObjectAssertion)
    (htolerant : assertion.Tolerant) {depth : Nat} {resolved : ResolvedObjectAssertion}
    (h : resolveObjectAssertion config store assertion depth = .ok resolved) :
    resolved.Tolerant := by
  match assertion with
  | ⟨mode, fields⟩ =>
    obtain ⟨hmode, hfields⟩ := htolerant
    obtain ⟨entries, hentries, rfl⟩ := resolveObjectAssertion_ok h
    refine ⟨hmode, ResolvedFieldAssertion.tolerantAll_iff.mpr fun entry hentry => ?_⟩
    exact resolveFieldAssertions_tolerant fields hfields hentries entry
      (IndexMap.mem_of_mem_ofEntries hentry)

theorem resolveFieldAssertions_tolerant (fields : List (String × FieldAssertion))
    (htolerant : FieldAssertion.TolerantAll fields) {depth : Nat}
    {resolved : List (String × ResolvedFieldAssertion)}
    (h : resolveFieldAssertions config store fields depth = .ok resolved) :
    ∀ entry ∈ resolved, entry.2.Tolerant := by
  match fields with
  | [] =>
    obtain rfl := Except.ok.inj h
    exact List.forall_mem_nil _
  | (name, field) :: fields =>
    obtain ⟨hfield, hfields⟩ := htolerant
    rw [resolveFieldAssertions] at h
    obtain ⟨r, hr, h⟩ := Except.bind_eq_ok.mp h
    obtain ⟨rs, hrs, h⟩ := Except.bind_eq_ok.mp h
    obtain rfl := Except.ok.inj h
    exact List.forall_mem_cons.mpr ⟨resolveFieldAssertion_tolerant field hfield hr,
      resolveFieldAssertions_tolerant fields hfields hrs⟩

theorem resolveFieldAssertion_tolerant (field : FieldAssertion) (htolerant : field.Tolerant)
    {depth : Nat} {resolved : ResolvedFieldAssertion}
    (h : resolveFieldAssertion config store field depth = .ok resolved) : resolved.Tolerant := by
  match field with
  | ⟨fieldName, expectedType, expectedValue, nested, capture⟩ =>
    obtain ⟨value', nested', -, hnested, rfl⟩ := resolveFieldAssertion_ok h
    rw [FieldAssertion.Tolerant.eq_def] at htolerant
    rw [ResolvedFieldAssertion.Tolerant.eq_def]
    match nested with
    | none =>
      cases hnested
      exact htolerant
    | some assertion =>
      obtain ⟨hobject⟩ := hnested
      exact ⟨htolerant.1, resolveObjectAssertion_tolerant assertion htolerant.2 hobject⟩

end

end RuntimeResolver

/-! ## What still holds -/

mutual

/-- **Objects with more fields.** -/
theorem ObjectHolds.extended (assertion : ResolvedObjectAssertion) (htolerant : assertion.Tolerant)
    {actual actual' : SortedMap String JsonValue} (h : ObjectHolds assertion actual)
    (hextended : JsonValue.ExtendedByEntries actual actual') : ObjectHolds assertion actual' := by
  match assertion with
  | ⟨mode, fields⟩ =>
    obtain ⟨rfl, hfields⟩ := htolerant
    exact ⟨FieldsHold.extended fields hfields h.1 hextended, nofun⟩

theorem FieldsHold.extended (fields : List (String × ResolvedFieldAssertion))
    (htolerant : ResolvedFieldAssertion.TolerantAll fields)
    {actual actual' : SortedMap String JsonValue} (h : FieldsHold fields actual)
    (hextended : JsonValue.ExtendedByEntries actual actual') : FieldsHold fields actual' := by
  match fields with
  | [] => trivial
  | (name, field) :: fields =>
    obtain ⟨hfield, hfields⟩ := htolerant
    obtain ⟨⟨v, hv, hholds⟩, h⟩ := h
    obtain ⟨w, hw, hvalue⟩ := hextended.get hv
    exact ⟨⟨w, hw, FieldHolds.extended field hfield hholds hvalue⟩,
      FieldsHold.extended fields hfields h hextended⟩

theorem FieldHolds.extended (field : ResolvedFieldAssertion) (htolerant : field.Tolerant)
    {v w : JsonValue} (h : FieldHolds field v) (hw : v.ExtendedBy w) : FieldHolds field w := by
  match field with
  | ⟨fieldName, expectedType, expectedValue, nested, capture⟩ =>
    rw [ResolvedFieldAssertion.Tolerant.eq_def] at htolerant
    rw [FieldHolds.eq_def] at h ⊢
    obtain ⟨htype, hvalue, hnested⟩ := h
    refine ⟨htype.extended hw, ?_, ?_⟩
    · cases expectedValue with
      | none => trivial
      | some expected => exact Matches.extended expected hvalue hw
    · match nested with
      | none => trivial
      | some assertion =>
        obtain ⟨object, rfl, hobject⟩ := hnested
        obtain ⟨object', rfl, hextended⟩ := hw
        exact ⟨object', rfl, ObjectHolds.extended assertion htolerant.2 hobject hextended⟩

end

/-! ## What is still captured -/

/-- A value that has no room for more fields. -/
def JsonValue.Rigid (v : JsonValue) : Prop := ∀ w, v.ExtendedBy w → w = v

theorem HasType.rigid {type : ExpectedType} {v : JsonValue} (h : HasType type v)
    (hscalar : type.IsScalar) : v.Rigid := by
  cases h with
  | object entries => exact absurd rfl hscalar.1
  | array items => exact absurd rfl hscalar.2
  | _ => exact fun w hw => hw

/-- A field of an object. -/
theorem Json.get_object {v x : Json} {entries : List (String × JsonValue)}
    (hv : v.value = .object entries) {key : String} :
    v.get key = some x ↔ IndexMap.get entries key = some x.value := by
  have hobject : v.asObject = some ⟨entries, hv ▸ v.sorted⟩ := Json.asObject_eq_some_iff.mpr hv
  rw [Json.get, hobject, Option.bind_some, JsonObject.get_eq_some_iff]

/-- A path leads to the same place. -/
theorem Json.follow_extended {v w x : Json} {path : List String} (hw : v.value.ExtendedBy w.value)
    (hx : v.follow path = some x) : ∃ y, w.follow path = some y ∧ x.value.ExtendedBy y.value := by
  induction path generalizing v w with
  | nil =>
    obtain rfl := Option.some.inj hx
    exact ⟨w, rfl, hw⟩
  | cons key path ih =>
    obtain ⟨first, hfirst, hx⟩ := Option.bind_eq_some_iff.mp hx
    obtain ⟨object, hobject, -⟩ := Option.bind_eq_some_iff.mp hfirst
    rw [Json.asObject_eq_some_iff] at hobject
    rw [Json.get_object hobject] at hfirst
    rw [hobject] at hw
    obtain ⟨entries, hentries, hextended⟩ := hw
    obtain ⟨value, hvalue, hfield⟩ := hextended.get hfirst
    have hsorted : (JsonValue.object entries).Sorted := hentries ▸ w.sorted
    obtain ⟨y, hy, hend⟩ := ih (w := ⟨value, hsorted.2.get hvalue⟩) hfield hx
    refine ⟨y, Option.bind_eq_some_iff.mpr ⟨_, (Json.get_object hentries).mpr hvalue, hy⟩, hend⟩

mutual

/-- The captures of an assertion that holds lead to rigid values. -/
theorem captures_rigid (assertion : ResolvedObjectAssertion) (htolerant : assertion.Tolerant)
    (hkeyed : assertion.Keyed) {actual : SortedMap String JsonValue}
    (h : ObjectHolds assertion actual) (path : List String) :
    ∀ capture ∈ assertion.captures path, ∃ below, capture.2 = path ++ below ∧
      ∀ v x : Json, v.value = .object actual → v.follow below = some x → x.value.Rigid := by
  match assertion with
  | ⟨mode, fields⟩ => exact capturesAll_rigid fields htolerant.2 hkeyed h.1 path

theorem capturesAll_rigid (fields : List (String × ResolvedFieldAssertion))
    (htolerant : ResolvedFieldAssertion.TolerantAll fields)
    (hkeyed : ResolvedFieldAssertion.KeyedAll fields) {actual : SortedMap String JsonValue}
    (h : FieldsHold fields actual) (path : List String) :
    ∀ capture ∈ ResolvedFieldAssertion.capturesAll path fields, ∃ below,
      capture.2 = path ++ below ∧
      ∀ v x : Json, v.value = .object actual → v.follow below = some x → x.value.Rigid := by
  match fields with
  | [] => exact List.forall_mem_nil _
  | (name, field) :: fields =>
    obtain ⟨hfield, hfields⟩ := htolerant
    obtain ⟨hname, hnames⟩ := hkeyed
    obtain ⟨⟨value, hvalue, hholds⟩, h⟩ := h
    rw [ResolvedFieldAssertion.capturesAll, List.forall_mem_append]
    refine ⟨fun capture hcapture => ?_, capturesAll_rigid fields hfields hnames h path⟩
    obtain ⟨below, hbelow, hrigid⟩ :=
      fieldCaptures_rigid field hfield hname hholds path capture hcapture
    refine ⟨name :: below, hbelow, fun v x hv hx => ?_⟩
    obtain ⟨first, hfirst, hx⟩ := Option.bind_eq_some_iff.mp hx
    rw [Json.get_object hv, hvalue] at hfirst
    exact hrigid first x (Option.some.inj hfirst).symm hx

theorem fieldCaptures_rigid (field : ResolvedFieldAssertion) (htolerant : field.Tolerant)
    {name : String} (hkeyed : field.Keyed name) {value : JsonValue} (h : FieldHolds field value)
    (path : List String) :
    ∀ capture ∈ field.captures path, ∃ below, capture.2 = path ++ name :: below ∧
      ∀ v x : Json, v.value = value → v.follow below = some x → x.value.Rigid := by
  match field with
  | ⟨fieldName, expectedType, expectedValue, nested, capture⟩ =>
    rw [ResolvedFieldAssertion.Tolerant.eq_def] at htolerant
    rw [ResolvedFieldAssertion.Keyed.eq_def] at hkeyed
    rw [FieldHolds.eq_def] at h
    rw [ResolvedFieldAssertion.captures.eq_def]
    obtain ⟨htype, -, hnested⟩ := h
    obtain ⟨rfl, hkeyed⟩ := hkeyed
    rw [List.forall_mem_append]
    refine ⟨?_, ?_⟩
    · cases capture with
      | none => exact List.forall_mem_nil _
      | some capture =>
        refine List.forall_mem_singleton.mpr ⟨[], rfl, fun v x hv hx => ?_⟩
        obtain rfl := Option.some.inj hx
        exact hv ▸ htype.rigid (htolerant.1 rfl)
    · match nested with
      | none => exact List.forall_mem_nil _
      | some assertion =>
        obtain ⟨object, rfl, hobject⟩ := hnested
        intro capture hcapture
        obtain ⟨below, hbelow, hrigid⟩ := captures_rigid assertion htolerant.2 hkeyed hobject
          (path ++ [fieldName]) capture hcapture
        exact ⟨below, by rw [hbelow, List.append_assoc, List.singleton_append], hrigid⟩

end

/-! ## Answers -/

/-- A JSON body with more fields; other bodies are the same. -/
def ResponseBody.ExtendedBy : ResponseBody → ResponseBody → Prop
  | .json raw v, body => ∃ raw' w, body = .json raw' w ∧ (raw'.size = 0 ↔ raw.size = 0) ∧
      v.value.ExtendedBy w.value
  | body, body' => body' = body

/-- The same status, the same values of the headers that are there, and a body that says more. -/
structure HttpResponse.ExtendedBy (response response' : HttpResponse) : Prop where
  status : response'.status = response.status
  headers : ∀ name, response.headers.values name ≠ [] →
    response'.headers.values name = response.headers.values name
  body : response.body.ExtendedBy response'.body

/-- An expectation whose body assertion, if it has one, is tolerant. -/
def ResponseExpectation.Tolerant (expectation : ResponseExpectation) : Prop :=
  ∀ assertion, expectation.body = some (.json assertion) → assertion.Tolerant

instance : DecidablePred ResponseExpectation.Tolerant
  | ⟨_, _, some (.json assertion)⟩ =>
    have := assertion.decideTolerant
    decidable_of_iff assertion.Tolerant ⟨fun h _ heq => by cases heq; exact h, fun h => h _ rfl⟩
  | ⟨_, _, none⟩ | ⟨_, _, some (.text _)⟩ | ⟨_, _, some .empty⟩ => .isTrue nofun

/-- A resolved expectation whose body assertion, if it has one, is tolerant. -/
def ResolvedResponseExpectation.Tolerant (expected : ResolvedResponseExpectation) : Prop :=
  ∀ assertion, expected.body = some (.json assertion) → assertion.Tolerant

section Response

variable {expected : ResolvedResponseExpectation} {response response' : HttpResponse}

theorem BodyHolds.extended {body : ResolvedBodyAssertion}
    (htolerant : ∀ assertion, body = .json assertion → assertion.Tolerant)
    (h : BodyHolds response body) (hbody : response.body.ExtendedBy response'.body) :
    BodyHolds response' body := by
  cases body with
  | empty =>
    rw [BodyHolds, HttpResponse.rawBody] at h ⊢
    cases hactual : response.body with
    | json raw v =>
      rw [hactual] at h hbody
      obtain ⟨raw', w, heq, hsize, -⟩ := hbody
      rw [heq]
      exact hsize.mpr h
    | _ =>
      rw [hactual] at h hbody
      have heq : response'.body = _ := hbody
      rwa [heq]
  | text assertion =>
    obtain ⟨bytes, hactual, htext⟩ := h
    rw [hactual] at hbody
    exact ⟨bytes, hbody, htext⟩
  | json assertion =>
    obtain ⟨raw, v, object, hactual, hv, hobject⟩ := h
    rw [hactual] at hbody
    obtain ⟨raw', w, heq, -, hw⟩ := hbody
    rw [hv] at hw
    obtain ⟨object', hw', hextended⟩ := hw
    exact ⟨raw', w, object', heq, hw',
      hobject.extended assertion (htolerant assertion rfl) hextended⟩

/-- **An answer that says more** is still as expected. -/
theorem ExpectationHolds.extended (htolerant : expected.Tolerant)
    (h : ExpectationHolds expected response) (hresponse : response.ExtendedBy response') :
    ExpectationHolds expected response' where
  status status hstatus := (h.status status hstatus).trans hresponse.status.symm
  headers name assertion hmem := by
    have hholds := h.headers name assertion hmem
    have hne : response.headers.values name ≠ [] := by
      cases assertion with
      | exists_ => exact hholds
      | exact value =>
        have hvalues : response.headers.values name = _ := hholds
        rw [hvalues]
        exact List.cons_ne_nil _ _
      | contains value =>
        obtain ⟨found, hfound, -⟩ := hholds
        exact List.ne_nil_of_mem hfound
    have hsame := hresponse.headers name hne
    cases assertion <;> rw [HeaderHolds, hsame] <;> exact hholds
  body body hbody := (h.body body hbody).extended
    (fun assertion heq => htolerant assertion (hbody.trans (congrArg some heq))) hresponse.body

/-- The same values are captured. -/
theorem Captured.extended (htolerant : expected.Tolerant)
    (hkeyed : ∀ assertion, expected.body = some (.json assertion) → assertion.Keyed)
    (h : ExpectationHolds expected response) (hresponse : response.ExtendedBy response')
    {captured : List (VariableName × Json)} (hcaptured : Captured expected response captured) :
    Captured expected response' captured := by
  unfold Captured at hcaptured ⊢
  have hmem {capture : VariableName × List String} (hcapture : capture ∈ expected.captures)
      {x : Json} {raw : ByteArray} {value : Json} (hbody : response.body = .json raw value)
      (hx : value.follow capture.2 = some x) :
      ∃ raw' value', response'.body = .json raw' value' ∧
        value'.follow capture.2 = some x := by
    rw [ResolvedResponseExpectation.captures] at hcapture
    split at hcapture
    · next assertion hassertion =>
      obtain ⟨raw₀, value₀, object, hactual, hvalue, hobject⟩ := h.body _ hassertion
      obtain ⟨rfl, rfl⟩ := ResponseBody.json.inj (hbody.symm.trans hactual)
      obtain ⟨below, hbelow, hrigid⟩ := captures_rigid assertion (htolerant _ hassertion)
        (hkeyed _ hassertion) hobject [] capture hcapture
      have hextended := hresponse.body
      rw [hbody] at hextended
      obtain ⟨raw', value', hbody', -, hw⟩ := hextended
      obtain ⟨y, hy, hxy⟩ := Json.follow_extended hw hx
      rw [hbelow, List.nil_append] at hx
      rw [Json.ext (hrigid _ _ hvalue hx _ hxy)] at hy
      exact ⟨raw', value', hbody', hy⟩
    · exact absurd hcapture List.not_mem_nil
  generalize expected.captures = captures at hcaptured hmem
  induction hcaptured with
  | nil => exact .nil
  | cons hentry _ ih =>
    obtain ⟨hname, raw, value, hbody, hx⟩ := hentry
    exact .cons ⟨hname, hmem List.mem_cons_self hbody hx⟩
      (ih fun hcapture => hmem (List.mem_cons_of_mem _ hcapture))

end Response

/-! ## Runs -/

/-- The second client answers what the first one answers, and perhaps says more. -/
def HttpClient.ExtendedBy (client client' : HttpClient) : Prop :=
  ∀ sent request response, client sent request = .ok response →
    ∃ response', client' sent request = .ok response' ∧ response.ExtendedBy response'

section Runs

variable [Platform] {engine : ExecutionEngine} {client client' : HttpClient}
  (hclient : client.ExtendedBy client')

include hclient

/-- A test that passes. -/
theorem TestRuns.extended {test : TestCase} {scene next : Scene}
    (htolerant : test.expectation.Tolerant) (hregular : Attempt.Regular engine ⟨test, scene.store⟩)
    (h : TestRuns engine client test scene .passed next) :
    TestRuns engine client' test scene .passed next := by
  cases h with
  | @answered request expectation _ after hrequest hexpectation hreply =>
    refine .answered hrequest hexpectation ?_
    have hresolved : expectation.Tolerant := by
      intro object hobject
      obtain ⟨assertion, hassertion, hresolve⟩ :=
        RuntimeResolver.resolveExpectation_of_json hexpectation hobject
      exact RuntimeResolver.resolveObjectAssertion_tolerant assertion
        (htolerant assertion hassertion) hresolve
    generalize hanswer : client scene.sent request = reply at hreply
    cases hreply with
    | @passes response captured _ hholds hcaptured hafter =>
      obtain ⟨response', hanswer', hextended⟩ := hclient _ _ _ hanswer
      rw [hanswer']
      exact .passes (hholds.extended hresolved hextended)
        (hcaptured.extended hresolved
          (fun object hobject => (hregular expectation hexpectation object hobject).keyed)
          hholds hextended) hafter

/-- Tests that all pass. -/
theorem TestsRun.extended {tests : List TestCase} {scene last : Scene}
    {verdicts : List ExecutionStatus}
    (htolerant : ∀ test ∈ tests, test.expectation.Tolerant)
    (hregular : ∀ test ∈ tests, ∀ store, Attempt.Regular engine ⟨test, store⟩)
    (h : TestsRun engine client tests scene verdicts last)
    (hpassed : ∀ verdict ∈ verdicts, verdict = .passed) :
    TestsRun engine client' tests scene verdicts last := by
  induction h with
  | nil => exact .nil
  | next htest _ ih =>
    obtain ⟨hfirst, htolerant⟩ := List.forall_mem_cons.mp htolerant
    obtain ⟨hfirst', hregular⟩ := List.forall_mem_cons.mp hregular
    exact .next (htest.extended hclient hfirst (hfirst' _))
      (ih htolerant hregular (List.forall_mem_cons.mp hpassed).2)
  -- no test stops the block
  | stop _ hverdict => exact absurd (hpassed _ List.mem_cons_self) hverdict

/-- Blocks that all pass. -/
theorem BlocksRun.extended {store : VariableStore} {blocks : List SuiteBlock}
    {sent sent' : List ResolvedHttpRequest} {verdicts : List (List ExecutionStatus)}
    (htolerant : ∀ test ∈ blocks.flatMap (·.tests), test.expectation.Tolerant)
    (hregular : ∀ test ∈ blocks.flatMap (·.tests), ∀ store,
      Attempt.Regular engine ⟨test, store⟩)
    (h : BlocksRun engine client store blocks sent verdicts sent')
    (hpassed : ∀ block ∈ verdicts, ∀ verdict ∈ block, verdict = .passed) :
    BlocksRun engine client' store blocks sent verdicts sent' := by
  induction h with
  | nil => exact .nil
  | cons hblock _ ih =>
    rw [List.flatMap_cons, List.forall_mem_append] at htolerant hregular
    obtain ⟨hfirst, hpassed⟩ := List.forall_mem_cons.mp hpassed
    exact .cons (hblock.extended hclient htolerant.1 hregular.1 hfirst)
      (ih htolerant.2 hregular.2 hpassed)

/-- A suite that passes. -/
theorem SuiteRuns.extended {suite : TestSuite} {store : VariableStore}
    {verdicts : List (List ExecutionStatus)} {sent : List ResolvedHttpRequest}
    (htolerant : ∀ test ∈ suite.blocks.flatMap (·.tests), test.expectation.Tolerant)
    (hregular : ∀ test ∈ suite.blocks.flatMap (·.tests), ∀ store,
      Attempt.Regular engine ⟨test, store⟩)
    (h : SuiteRuns engine client suite store verdicts sent)
    (hpassed : ∀ block ∈ verdicts, ∀ verdict ∈ block, verdict = .passed) :
    SuiteRuns engine client' suite store verdicts sent := by
  cases h with
  | withoutCore hnone h => exact .withoutCore hnone (h.extended hclient htolerant hregular hpassed)
  | corePasses hsplit hbefore hcore hcorePassed hfirst hlast =>
    rw [hsplit, List.flatMap_append, List.flatMap_cons, List.forall_mem_append,
      List.forall_mem_append] at htolerant hregular
    obtain ⟨hpassedFirst, hpassed⟩ := List.forall_mem_append.mp hpassed
    obtain ⟨-, hpassedLast⟩ := List.forall_mem_cons.mp hpassed
    exact .corePasses hsplit hbefore
      (hcore.extended hclient htolerant.2.1 hregular.2.1 hcorePassed) hcorePassed
      (hfirst.extended hclient htolerant.1 hregular.1 hpassedFirst)
      (hlast.extended hclient htolerant.2.2 hregular.2.2 hpassedLast)
  | coreFails hsplit hbefore hcore hfails =>
    obtain ⟨verdict, hverdict, hne⟩ := hfails
    exact absurd (hpassed _ (List.mem_append_right _ List.mem_cons_self) verdict hverdict) hne

end Runs

variable [Platform]

/-- **A server that says more.** Let an accepted suite be tolerant, and let it pass against a
server. Then it passes, with the same requests, against every server whose answers have the same
status and say at least as much in their headers and JSON bodies. -/
theorem execute_extended {source : SourceText} {context : ValidationContext} {suite : TestSuite}
    (h : checkSource source context = some ⟨some suite, []⟩) {store : VariableStore}
    (hnames : ∀ name, name ∈ store.names ↔ name ∈ context.predefinedVariables)
    {engine : ExecutionEngine}
    (hlimit : engine.resolver.maxResolutionDepth ≤ engine.assertions.maxJsonDepth)
    (htolerant : ∀ test ∈ suite.blocks.flatMap (·.tests), test.expectation.Tolerant)
    {client client' : HttpClient} (hclient : client.ExtendedBy client') {clock : Clock}
    {result : SuiteResult} {w : World}
    (hrun : execute engine client clock suite store World.initial = some (result, w))
    (hpassed : result.status = .passed) (clock' : Clock) :
    ∃ result' w', execute engine client' clock' suite store World.initial = some (result', w') ∧
      result'.status = .passed ∧ w'.sent = w.sent := by
  have hpre := checkSource_preflight h
  obtain ⟨_, _, hrun', hmeans⟩ := execute_suiteRuns h hnames hlimit client clock
  obtain ⟨rfl, rfl⟩ := Prod.mk.inj (Option.some.inj (hrun'.symm.trans hrun))
  obtain ⟨result', w', hrun', hmeans'⟩ := execute_suiteRuns h hnames hlimit client' clock'
  have hverdicts := (scheduled_of_execute hpre hrun).passed_iff_verdicts.mp hpassed
  obtain ⟨-, -, hrules, rfl⟩ := checkSource_accepts_iff.mp h
  have hregular : ∀ test ∈ source.ast.toSuite.blocks.flatMap (·.tests), ∀ store,
      Attempt.Regular engine ⟨test, store⟩ := by
    intro test htest store
    obtain ⟨scope, given, hgiven, rfl⟩ := hrules.toSuite_tests htest
    exact hgiven.regular store
  -- the meaning against the second server is unique, so its run is the one carried over
  obtain ⟨hsame, hsent⟩ :=
    (hmeans.extended hclient htolerant hregular hverdicts).unique hmeans'
  refine ⟨result', w', hrun', ?_, hsent.symm⟩
  rw [(scheduled_of_execute hpre hrun').passed_iff_verdicts, ← hsame]
  exact hverdicts

/-- The token with a field that nobody asked for. -/
def userTokenBody : Json where
  value := .object [("token", .string "a1"), ("user", .null)]
  sorted := by
    simp [JsonValue.Sorted, JsonValue.SortedEntries, SortedMap.Sorted, -String.lt_iff_ltb]

/-- A server that answers every request with a JSON body. -/
def jsonClient (body : Json) : HttpClient := fun _ _ =>
  .ok ⟨200, ResponseHeaders.new, .json ByteArray.empty body⟩

omit [Platform] in
theorem jsonClient_extended : (jsonClient tokenBody).ExtendedBy (jsonClient userTokenBody) := by
  rintro sent request response hanswer
  obtain rfl := Except.ok.inj hanswer
  refine ⟨_, rfl, rfl, fun _ _ => rfl, _, _, rfl, Iff.rfl, ?_⟩
  exact ⟨_, rfl, ⟨_, rfl, rfl⟩, trivial⟩

omit [Platform] in
/-- The token is found beside the new field. -/
theorem execute_extended_token :
    letI := asciiPlatform
    ∃ suite result w, checkSource tokenSource .new = some ⟨some suite, []⟩ ∧
      execute .default (jsonClient tokenBody) (fun n => n) suite VariableStore.new World.initial =
        some (result, w) ∧
      ∃ result' w', execute .default (jsonClient userTokenBody) (fun n => n) suite
        VariableStore.new World.initial = some (result', w') ∧
        result'.status = .passed ∧ w'.sent = w.sent := by
  let := asciiPlatform
  have hreport : (checkSource tokenSource .new).map (fun report => (report.suite.any fun suite =>
      decide (∀ test ∈ suite.blocks.flatMap (·.tests), test.expectation.Tolerant) &&
      (execute .default (jsonClient tokenBody) (fun n => n) suite VariableStore.new
        World.initial).any (·.1.status == .passed), report.diagnostics)) = some (true, []) := by
    decide +kernel
  obtain ⟨⟨suite?, diagnostics⟩, hcheck, hreport⟩ := Option.map_eq_some_iff.mp hreport
  obtain ⟨hsuite, rfl⟩ := Prod.mk.inj hreport
  obtain ⟨suite, rfl, hsuite⟩ := (Option.any_eq_true _ _).mp hsuite
  obtain ⟨htolerant, hpassed⟩ := Bool.and_eq_true_iff.mp hsuite
  obtain ⟨⟨result, w⟩, hrun, hpassed⟩ := (Option.any_eq_true _ _).mp hpassed
  exact ⟨suite, result, w, hcheck, hrun, execute_extended hcheck
    (fun name => iff_of_false List.not_mem_nil (Finset.notMem_empty name)) (by decide)
    (of_decide_eq_true htolerant) jsonClient_extended hrun (beq_iff_eq.mp hpassed) _⟩

end Rettp
