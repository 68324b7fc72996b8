import Rettp.Http

/-!
# Runtime variables

Values supplied as text or captured as JSON, the ordered store that holds them, the staged
captures of one test, and the errors of resolution and capture.

A shared capture stores a root document and a path into it (`SharedJsonValue`); reading it
follows the path.
-/

namespace Rettp

/-! ## Limits -/

/-- `DEFAULT_MAX_INTERPOLATED_BYTES`: one MiB. -/
def defaultMaxInterpolatedBytes : Nat := 1024 * 1024

/-- `HARD_MAX_INTERPOLATED_BYTES`: sixteen MiB. -/
def hardMaxInterpolatedBytes : Nat := 16 * 1024 * 1024

/-- `DEFAULT_MAX_RESOLUTION_DEPTH` -/
def defaultMaxResolutionDepth : Nat := 128

/-- `HARD_MAX_RESOLUTION_DEPTH`: no configuration goes beyond it. -/
def hardMaxResolutionDepth : Nat := 256

/-- Validated limits of resolution. -/
structure RuntimeConfig where
  maxInterpolatedBytes : Nat
  maxResolutionDepth : Nat
  bytes_pos : 0 < maxInterpolatedBytes
  bytes_le : maxInterpolatedBytes ≤ hardMaxInterpolatedBytes
  depth_pos : 0 < maxResolutionDepth
  depth_le : maxResolutionDepth ≤ hardMaxResolutionDepth

/-- Why limits are refused. -/
inductive RuntimeConfigError where
  | zeroInterpolatedBytes
  | interpolatedBytesTooLarge (requested maximum : Nat)
  | zeroResolutionDepth
  | resolutionDepthTooLarge (requested maximum : Nat)
  deriving DecidableEq

/-- Limits of resolution, both positive and within the hard ones. -/
def RuntimeConfig.new (maxInterpolatedBytes maxResolutionDepth : Nat) :
    Except RuntimeConfigError RuntimeConfig :=
  if h1 : maxInterpolatedBytes = 0 then .error .zeroInterpolatedBytes
  else if h2 : maxInterpolatedBytes > hardMaxInterpolatedBytes then
    .error (.interpolatedBytesTooLarge maxInterpolatedBytes hardMaxInterpolatedBytes)
  else if h3 : maxResolutionDepth = 0 then .error .zeroResolutionDepth
  else if h4 : maxResolutionDepth > hardMaxResolutionDepth then
    .error (.resolutionDepthTooLarge maxResolutionDepth hardMaxResolutionDepth)
  else .ok ⟨maxInterpolatedBytes, maxResolutionDepth, Nat.pos_of_ne_zero h1, by omega,
    Nat.pos_of_ne_zero h3, by omega⟩

/-- The limits of an engine that nobody configured. -/
def RuntimeConfig.default : RuntimeConfig :=
  ⟨defaultMaxInterpolatedBytes, defaultMaxResolutionDepth, by decide, by decide, by decide,
    by decide⟩

/-! ## Errors -/

/-- Where an interpolated string stands. -/
inductive ResolutionLocation where
  | requestPath | requestHeader | queryParameter | jsonRequestBody | textRequestBody | formField
  | expectedHeader | expectedText | expectedJson
  deriving DecidableEq

/-- A place in words. -/
def ResolutionLocation.display : ResolutionLocation → String
  | .requestPath => "request path"
  | .requestHeader => "request header"
  | .queryParameter => "query parameter"
  | .jsonRequestBody => "JSON request body"
  | .textRequestBody => "text request body"
  | .formField => "form field"
  | .expectedHeader => "expected response header"
  | .expectedText => "expected text response body"
  | .expectedJson => "expected JSON value"

/-- A failure of resolving variables or of staging and committing captures. -/
inductive RuntimeError where
  | emptyPlaceholder (location : ResolutionLocation)
  | unterminatedPlaceholder (location : ResolutionLocation)
  | invalidVariableName (name : String) (location : ResolutionLocation)
  | undefinedVariable (name : VariableName) (location : ResolutionLocation)
  | unsupportedInterpolationType (name : VariableName) (valueType : String)
      (location : ResolutionLocation)
  | interpolatedValueTooLarge (location : ResolutionLocation) (limitBytes : Nat)
  | nestingLimitExceeded (limit : Nat)
  | nonFiniteNumber
  | invalidCaptureBody
  | missingCaptureField (path : String)
  | invalidNestedCaptureField (path : String) (actualType : String)
  | duplicateVariable (name : VariableName)
  deriving DecidableEq

namespace RuntimeError

/-- The text of an error; it shows names and no values. -/
def display : RuntimeError → String
  | .emptyPlaceholder location => s!"empty interpolation placeholder in {location.display}"
  | .unterminatedPlaceholder location =>
    s!"unterminated interpolation placeholder in {location.display}"
  | .invalidVariableName name location => s!"invalid variable name `{name}` in {location.display}"
  | .undefinedVariable name location => s!"undefined variable `{name.raw}` in {location.display}"
  | .unsupportedInterpolationType name valueType location =>
    s!"variable `{name.raw}` of type {valueType} cannot be used in {location.display}"
  | .interpolatedValueTooLarge location limitBytes =>
    s!"resolved string in {location.display} exceeds the {limitBytes}-byte limit"
  | .nestingLimitExceeded limit => s!"resolution nesting exceeds the {limit}-level limit"
  | .nonFiniteNumber => "a resolved number must be finite"
  | .invalidCaptureBody => "successful capture evaluation requires a JSON object response body"
  | .missingCaptureField path =>
    s!"successful capture evaluation could not find field at `{path}`"
  | .invalidNestedCaptureField path actualType =>
    s!"successful capture evaluation found {actualType} instead of object at `{path}`"
  | .duplicateVariable name => s!"variable `{name.raw}` is already defined in this scope"

/-- The error with its location, if it has one, replaced. -/
def relocate (location : ResolutionLocation) : RuntimeError → RuntimeError
  | .emptyPlaceholder _ => .emptyPlaceholder location
  | .unterminatedPlaceholder _ => .unterminatedPlaceholder location
  | .invalidVariableName name _ => .invalidVariableName name location
  | .undefinedVariable name _ => .undefinedVariable name location
  | .unsupportedInterpolationType name valueType _ =>
    .unsupportedInterpolationType name valueType location
  | .interpolatedValueTooLarge _ limitBytes => .interpolatedValueTooLarge location limitBytes
  | e => e

end RuntimeError

/-! ## Variable values -/

/-- `Value::get` with a string key: a field of an object. -/
def Json.get (v : Json) (key : String) : Option Json := v.asObject.bind (·.get key)

/-- The value that a path of object keys leads to. -/
def Json.follow : Json → List String → Option Json
  | v, [] => some v
  | v, key :: path => (v.get key).bind (·.follow path)

theorem Json.follow_append (v : Json) (p q : List String) :
    v.follow (p ++ q) = (v.follow p).bind (·.follow q) := by
  induction p generalizing v with
  | nil => rfl
  | cons key p ih =>
    rw [List.cons_append, Json.follow, Json.follow]
    cases v.get key with
    | none => rfl
    | some w => exact ih w

/-- A captured value below a shared root document. -/
structure SharedJsonValue where
  root : Json
  path : List String

/-- The path leads to a value; reading such a capture does not panic. -/
def SharedJsonValue.Valid (s : SharedJsonValue) : Prop := (s.root.follow s.path).isSome

/-- Read a shared capture. A path that leads nowhere panics in the source; `Valid` excludes
it, and the value taken here is then irrelevant. -/
def SharedJsonValue.asJson (s : SharedJsonValue) : Json :=
  (s.root.follow s.path).getD ⟨.null, trivial⟩

/-- A runtime value. -/
inductive VariableValue where
  | text (value : String)
  | json (value : Json)
  | sharedJson (value : SharedJsonValue)

namespace VariableValue

/-- The captured JSON value. -/
def asJson : VariableValue → Option Json
  | .text _ => none
  | .json value => some value
  | .sharedJson value => some value.asJson

/-- The type of a variable in a message. -/
def typeName : VariableValue → String
  | .text _ => "string"
  | .json value => jsonTypeName value.value
  | .sharedJson value => jsonTypeName value.asJson.value

/-- The text of a scalar JSON value. -/
def scalarJsonText [Platform] : JsonValue → Option String
  | .string value => some value
  | .null => some "null"
  | .bool value => some (toString value)
  | .number value => some value.display
  | .array _ => none
  | .object _ => none

/-- The text of a variable inside a longer text, if it is a scalar. -/
def scalarText [Platform] : VariableValue → Option String
  | .text value => some value
  | .json value => scalarJsonText value.value
  | .sharedJson value => scalarJsonText value.asJson.value

/-- The value is a captured array or object. -/
def isStructured (v : VariableValue) : Bool :=
  match v.asJson with
  | some ⟨.array _, _⟩ => true
  | some ⟨.object _, _⟩ => true
  | _ => false

/-- Reading the value does not panic. -/
def Valid : VariableValue → Prop
  | .sharedJson value => value.Valid
  | _ => True

end VariableValue

/-! ## Stores -/

/-- The staged captures of one successful test. -/
structure PendingCaptures where
  values : IndexMap VariableName VariableValue
  nodup : (IndexMap.keys values).Nodup

namespace PendingCaptures

/-- Nothing is staged. -/
def new : PendingCaptures := ⟨[], by simp⟩

/-- The names that are staged. -/
def names (p : PendingCaptures) : List VariableName := IndexMap.keys p.values

/-- Stage a capture under a new name. -/
def insert (p : PendingCaptures) (name : VariableName) (value : VariableValue) :
    Except RuntimeError PendingCaptures :=
  if name ∈ p.names then .error (.duplicateVariable name)
  else .ok ⟨IndexMap.insert p.values name value, IndexMap.nodup_insert p.nodup _ _⟩

/-- A staged value is appended under a new name. -/
theorem insert_ok {p q : PendingCaptures} {name : VariableName} {value : VariableValue}
    (h : p.insert name value = .ok q) :
    name ∉ p.names ∧ q.values = p.values ++ [(name, value)] := by
  unfold insert at h
  split at h
  · cases h
  · next hmem =>
    cases h
    exact ⟨hmem, IndexMap.insert_of_not_mem hmem value⟩

end PendingCaptures

/-- A variable scope with deterministic insertion order. -/
structure VariableStore where
  values : IndexMap VariableName VariableValue
  nodup : (IndexMap.keys values).Nodup

namespace VariableStore

/-- No variables. -/
def new : VariableStore := ⟨[], by simp⟩

/-- Add or replace a value supplied before the suite runs. -/
def insertPredefined (s : VariableStore) (name : VariableName) (value : VariableValue) :
    VariableStore :=
  ⟨IndexMap.insert s.values name value, IndexMap.nodup_insert s.nodup _ _⟩

/-- The value of a variable. -/
def get (s : VariableStore) (name : VariableName) : Option VariableValue :=
  IndexMap.get s.values name

/-- The names in the order of their definition. -/
def names (s : VariableStore) : List VariableName := IndexMap.keys s.values

/-- A variable of this name is there. -/
def contains (s : VariableStore) (name : VariableName) : Bool := name ∈ s.names

/-- Commit the captures of one successful test, or refuse them all. -/
def commit (s : VariableStore) (pending : PendingCaptures) : Except RuntimeError VariableStore :=
  match pending.names.find? s.contains with
  | some name => .error (.duplicateVariable name)
  | none => .ok ⟨IndexMap.extend s.values pending.values, IndexMap.nodup_extend s.nodup _⟩

theorem get_eq_none_iff {s : VariableStore} {name : VariableName} :
    s.get name = none ↔ name ∉ s.names := IndexMap.get_eq_none_iff

/-- The captures are committed exactly when none of their names is defined. -/
theorem commit_isOk_iff {s : VariableStore} {pending : PendingCaptures} :
    (∃ s', s.commit pending = .ok s') ↔ ∀ name ∈ pending.names, name ∉ s.names := by
  unfold commit
  split
  · next name hname =>
    obtain ⟨hc, hmem⟩ := And.intro (List.find?_some hname) (List.mem_of_find?_eq_some hname)
    simp only [reduceCtorEq, exists_false, false_iff, not_forall, not_not]
    exact ⟨name, hmem, by simpa [contains] using hc⟩
  · next hnone =>
    simp only [Except.ok.injEq, exists_eq', true_iff]
    intro name hmem
    simpa [contains] using List.find?_eq_none.mp hnone name hmem

/-- A commit keeps the old entries in place and appends the new ones. -/
theorem commit_ok {s s' : VariableStore} {pending : PendingCaptures}
    (h : s.commit pending = .ok s') : s'.values = s.values ++ pending.values := by
  have hnew := commit_isOk_iff.mp ⟨s', h⟩
  unfold commit at h
  split at h
  · cases h
  · cases h
    refine IndexMap.extend_of_nodup (List.nodup_append.mpr ⟨s.nodup, pending.nodup, ?_⟩)
    rintro a ha b hb rfl
    exact hnew a hb ha

end VariableStore

end Rettp
