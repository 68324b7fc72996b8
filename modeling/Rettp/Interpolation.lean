import Rettp.Variables

/-!
# Interpolation

`${variable}` placeholders are replaced by the text of scalar variables, within a byte limit;
a string that is exactly one placeholder for a captured array or object stands for that JSON
value. Two recursive resolvers do this for domain values: `resolveValue` for requests and
`resolveJsonValue` for expected JSON.

The loop over a string is a recursion on the text after the cursor; its fuel is the length of
that text, which every round shortens.
-/

namespace Rettp

variable [Platform]

namespace Interpolator

/-- Values nested deeper than the limit are not resolved. -/
def enterDepth (config : RuntimeConfig) (depth : Nat) : Except RuntimeError Unit :=
  if depth > config.maxResolutionDepth then
    .error (.nestingLimitExceeded config.maxResolutionDepth)
  else .ok ()

/-- Append a fragment unless the output would exceed the byte limit. -/
def pushBounded (config : RuntimeConfig) (output fragment : List Char)
    (location : ResolutionLocation) : Except RuntimeError (List Char) :=
  if utf8Len output + utf8Len fragment > config.maxInterpolatedBytes then
    .error (.interpolatedValueTooLarge location config.maxInterpolatedBytes)
  else .ok (output ++ fragment)

/-- Find the variable that a placeholder names. -/
def lookup (config : RuntimeConfig) (rawName : List Char) (store : VariableStore)
    (location : ResolutionLocation) : Except RuntimeError (VariableName × VariableValue) :=
  if rawName.isEmpty then .error (.emptyPlaceholder location)
  else if utf8Len rawName > config.maxInterpolatedBytes then
    .error (.interpolatedValueTooLarge location config.maxInterpolatedBytes)
  else
    match VariableName.new (String.ofList rawName) with
    | .error _ => .error (.invalidVariableName (String.ofList rawName) location)
    | .ok name =>
      match store.get name with
      | none => .error (.undefinedVariable name location)
      | some value => .ok (name, value)

/-- The rounds of `interpolate` on the text after the cursor. -/
def interpolateLoop (config : RuntimeConfig) (store : VariableStore)
    (location : ResolutionLocation) : Nat → List Char → List Char →
    Except RuntimeError (List Char)
  | 0, rest, output => pushBounded config output rest location
  | fuel + 1, rest, output =>
    match splitAtStr ['$', '{'] rest with
    | none => pushBounded config output rest location
    | some (before, marked) => do
      let output ← pushBounded config output before location
      match splitAtChar '}' (marked.drop 2) with
      | none => .error (.unterminatedPlaceholder location)
      | some (rawName, rest) =>
        let (name, value) ← lookup config rawName store location
        match value.scalarText with
        | none => .error (.unsupportedInterpolationType name value.typeName location)
        | some text =>
          let output ← pushBounded config output text.toList location
          interpolateLoop config store location fuel rest output

/-- Resolve a string using scalar variables only. -/
def interpolate (config : RuntimeConfig) (input : InterpolatedString) (store : VariableStore)
    (location : ResolutionLocation) : Except RuntimeError String :=
  (interpolateLoop config store location input.raw.toList.length input.raw.toList []).map
    String.ofList

/-- The variable of a string that is one placeholder and nothing else. -/
def exactPlaceholder (config : RuntimeConfig) (input : InterpolatedString)
    (store : VariableStore) (location : ResolutionLocation) :
    Except RuntimeError (Option (VariableName × VariableValue)) :=
  let raw := input.raw.toList
  let name := (raw.drop 2).dropLast
  if !(['$', '{'].isPrefixOf raw) || raw.getLast? != some '}' || name.contains '}' then .ok none
  else (lookup config name store location).map some

mutual

/-- Copy a captured JSON value into a request. -/
def jsonToResolved (config : RuntimeConfig) (value : JsonValue) (depth : Nat) :
    Except RuntimeError ResolvedValue := do
  enterDepth config depth
  match value with
  | .null => return .null
  | .bool value => return .boolean value
  | .number value =>
    match value.asI64 with
    | some n => return .integer n
    | none =>
      match value.asU64 with
      | some n => return .unsignedInteger n
      | none => return .number value.asF64
  | .string value => return .string value
  | .array items => return .array (← jsonToResolvedItems config items (depth + 1))
  | .object entries =>
    return .object (IndexMap.ofEntries (← jsonToResolvedEntries config entries (depth + 1)))

/-- The items of a captured array. -/
def jsonToResolvedItems (config : RuntimeConfig) (items : List JsonValue) (depth : Nat) :
    Except RuntimeError (List ResolvedValue) :=
  match items with
  | [] => .ok []
  | v :: vs => do
    let r ← jsonToResolved config v depth
    return r :: (← jsonToResolvedItems config vs depth)

/-- The entries of a captured object. -/
def jsonToResolvedEntries (config : RuntimeConfig) (entries : List (String × JsonValue))
    (depth : Nat) : Except RuntimeError (List (String × ResolvedValue)) :=
  match entries with
  | [] => .ok []
  | (name, v) :: es => do
    let r ← jsonToResolved config v depth
    return (name, r) :: (← jsonToResolvedEntries config es depth)

end

mutual

/-- Copy a captured JSON value into an expectation. -/
def cloneJsonBounded (config : RuntimeConfig) (value : JsonValue) (depth : Nat) :
    Except RuntimeError JsonValue := do
  enterDepth config depth
  match value with
  | .null => return .null
  | .bool value => return .bool value
  | .number value => return .number value
  | .string value => return .string value
  | .array items => return .array (← cloneJsonBoundedItems config items (depth + 1))
  | .object entries =>
    return .object (SortedMap.ofEntries (← cloneJsonBoundedEntries config entries (depth + 1)))

/-- The items of a captured array, within the limit. -/
def cloneJsonBoundedItems (config : RuntimeConfig) (items : List JsonValue) (depth : Nat) :
    Except RuntimeError (List JsonValue) :=
  match items with
  | [] => .ok []
  | v :: vs => do
    let r ← cloneJsonBounded config v depth
    return r :: (← cloneJsonBoundedItems config vs depth)

/-- The entries of a captured object, within the limit. -/
def cloneJsonBoundedEntries (config : RuntimeConfig) (entries : List (String × JsonValue))
    (depth : Nat) : Except RuntimeError (List (String × JsonValue)) :=
  match entries with
  | [] => .ok []
  | (name, v) :: es => do
    let r ← cloneJsonBounded config v depth
    return (name, r) :: (← cloneJsonBoundedEntries config es depth)

end

/-- The captured array or object that a string stands for, if it is exactly a placeholder for
one. -/
def structuredPlaceholder (config : RuntimeConfig) (input : InterpolatedString)
    (store : VariableStore) (location : ResolutionLocation) :
    Except RuntimeError (Option Json) := do
  match ← exactPlaceholder config input store location with
  | some (_, stored) => return if stored.isStructured then stored.asJson else none
  | none => return none

mutual

/-- Resolve a domain value of a request. -/
def resolveValue (config : RuntimeConfig) (store : VariableStore)
    (location : ResolutionLocation) (allowStructuredPlaceholder : Bool) (value : Value)
    (depth : Nat) : Except RuntimeError ResolvedValue := do
  enterDepth config depth
  match value with
  | .string input =>
    let stored ← if allowStructuredPlaceholder then
        structuredPlaceholder config input store location
      else pure none
    match stored with
    | some json => jsonToResolved config json.value depth
    | none => return .string (← interpolate config input store location)
  | .integer value => return .integer value
  | .number value => if value.isFinite then return .number value else .error .nonFiniteNumber
  | .boolean value => return .boolean value
  | .null => return .null
  | .array items =>
    return .array (← resolveItems config store location allowStructuredPlaceholder items
      (depth + 1))
  | .object entries =>
    return .object (IndexMap.ofEntries (← resolveEntries config store location
      allowStructuredPlaceholder entries (depth + 1)))

/-- The items of an array literal. -/
def resolveItems (config : RuntimeConfig) (store : VariableStore)
    (location : ResolutionLocation) (allowStructuredPlaceholder : Bool) (items : List Value)
    (depth : Nat) : Except RuntimeError (List ResolvedValue) :=
  match items with
  | [] => .ok []
  | v :: vs => do
    let r ← resolveValue config store location allowStructuredPlaceholder v depth
    return r :: (← resolveItems config store location allowStructuredPlaceholder vs depth)

/-- The entries of an object literal. -/
def resolveEntries (config : RuntimeConfig) (store : VariableStore)
    (location : ResolutionLocation) (allowStructuredPlaceholder : Bool)
    (entries : List (String × Value)) (depth : Nat) :
    Except RuntimeError (List (String × ResolvedValue)) :=
  match entries with
  | [] => .ok []
  | (name, v) :: es => do
    let r ← resolveValue config store location allowStructuredPlaceholder v depth
    return (name, r) ::
      (← resolveEntries config store location allowStructuredPlaceholder es depth)

end

mutual

/-- Resolve a domain value of an expectation. -/
def resolveJsonValue (config : RuntimeConfig) (store : VariableStore)
    (location : ResolutionLocation) (value : Value) (depth : Nat) :
    Except RuntimeError JsonValue := do
  enterDepth config depth
  match value with
  | .string input =>
    match ← structuredPlaceholder config input store location with
    | some json => cloneJsonBounded config json.value depth
    | none => return .string (← interpolate config input store location)
  | .integer value => return .number (.ofI64 value)
  | .number value =>
    match JsonNumber.fromF64 value with
    | some n => return .number n
    | none => .error .nonFiniteNumber
  | .boolean value => return .bool value
  | .null => return .null
  | .array items => return .array (← resolveJsonItems config store location items (depth + 1))
  | .object entries =>
    return .object (SortedMap.ofEntries
      (← resolveJsonEntries config store location entries (depth + 1)))

/-- The items of an array literal as JSON. -/
def resolveJsonItems (config : RuntimeConfig) (store : VariableStore)
    (location : ResolutionLocation) (items : List Value) (depth : Nat) :
    Except RuntimeError (List JsonValue) :=
  match items with
  | [] => .ok []
  | v :: vs => do
    let r ← resolveJsonValue config store location v depth
    return r :: (← resolveJsonItems config store location vs depth)

/-- The entries of an object literal as JSON. -/
def resolveJsonEntries (config : RuntimeConfig) (store : VariableStore)
    (location : ResolutionLocation) (entries : List (String × Value)) (depth : Nat) :
    Except RuntimeError (List (String × JsonValue)) :=
  match entries with
  | [] => .ok []
  | (name, v) :: es => do
    let r ← resolveJsonValue config store location v depth
    return (name, r) :: (← resolveJsonEntries config store location es depth)

end

end Interpolator

end Rettp
