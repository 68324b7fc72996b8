import Rettp.ResolveAgree

/-!
# Captured values in their places

What a string node `${name}` becomes when `name` is a captured array or object: the captured
JSON itself, wherever in a value the node stands. Together with the agreement of the two
resolvers this gives the contract between sending and expecting a value
(`sending_and_expecting_agree`).
-/

namespace Rettp

/-! ## Copying a captured value -/

namespace JsonValue

mutual

/-- The number of container levels below the value. -/
def height : JsonValue → Nat
  | .array items => heightItems items
  | .object entries => heightEntries entries
  | .null | .bool _ | .number _ | .string _ => 0

/-- The nesting of the items of an array. -/
def heightItems : List JsonValue → Nat
  | [] => 0
  | v :: vs => max (v.height + 1) (heightItems vs)

/-- The nesting of the entries of an object. -/
def heightEntries : List (String × JsonValue) → Nat
  | [] => 0
  | (_, v) :: es => max (v.height + 1) (heightEntries es)

end

end JsonValue

namespace Interpolator

theorem enterDepth_eq (config : RuntimeConfig) (depth : Nat) :
    enterDepth config depth = if depth ≤ config.maxResolutionDepth then .ok ()
      else .error (.nestingLimitExceeded config.maxResolutionDepth) := by
  unfold enterDepth
  by_cases h : depth ≤ config.maxResolutionDepth
  · rw [if_neg (by omega), if_pos h]
  · rw [if_pos (by omega), if_neg h]

mutual

/-- **A bounded copy is a copy.** A captured value is unchanged when its deepest element is
within the limit, and refused otherwise. -/
theorem cloneJsonBounded_eq (config : RuntimeConfig) (v : JsonValue) (hv : v.Sorted)
    (depth : Nat) :
    cloneJsonBounded config v depth =
      if depth + v.height ≤ config.maxResolutionDepth then .ok v
      else .error (.nestingLimitExceeded config.maxResolutionDepth) := by
  match v with
  | .null | .bool _ | .number _ | .string _ =>
    rw [cloneJsonBounded, enterDepth_eq, JsonValue.height, Nat.add_zero]
    split <;> rfl
  | .array items =>
    rw [cloneJsonBounded, enterDepth_eq, JsonValue.height]
    by_cases hd : depth ≤ config.maxResolutionDepth
    · rw [if_pos hd, Except.ok_bind, cloneJsonBoundedItems_eq config items hv hd]
      split <;> rfl
    · rw [if_neg hd, if_neg (by omega)]
      rfl
  | .object entries =>
    rw [cloneJsonBounded, enterDepth_eq, JsonValue.height]
    by_cases hd : depth ≤ config.maxResolutionDepth
    · rw [if_pos hd, Except.ok_bind, cloneJsonBoundedEntries_eq config entries hv.2 hd]
      split
      · rw [Except.ok_bind, SortedMap.ofEntries_of_sorted hv.1]
        rfl
      · rfl
    · rw [if_neg hd, if_neg (by omega)]
      rfl

theorem cloneJsonBoundedItems_eq (config : RuntimeConfig) (vs : List JsonValue)
    (hv : JsonValue.SortedItems vs) {depth : Nat} (hd : depth ≤ config.maxResolutionDepth) :
    cloneJsonBoundedItems config vs (depth + 1) =
      if depth + JsonValue.heightItems vs ≤ config.maxResolutionDepth then .ok vs
      else .error (.nestingLimitExceeded config.maxResolutionDepth) := by
  match vs with
  | [] => rw [cloneJsonBoundedItems, JsonValue.heightItems, if_pos (by simpa using hd)]
  | v :: vs =>
    rw [cloneJsonBoundedItems, cloneJsonBounded_eq config v hv.1, JsonValue.heightItems]
    by_cases h1 : depth + 1 + v.height ≤ config.maxResolutionDepth
    · rw [if_pos h1, Except.ok_bind, cloneJsonBoundedItems_eq config vs hv.2 hd]
      by_cases h2 : depth + JsonValue.heightItems vs ≤ config.maxResolutionDepth
      · rw [if_pos h2, if_pos (by omega)]
        rfl
      · rw [if_neg h2, if_neg (by omega)]
        rfl
    · rw [if_neg h1, if_neg (by omega)]
      rfl

theorem cloneJsonBoundedEntries_eq (config : RuntimeConfig) (es : List (String × JsonValue))
    (hv : JsonValue.SortedEntries es) {depth : Nat} (hd : depth ≤ config.maxResolutionDepth) :
    cloneJsonBoundedEntries config es (depth + 1) =
      if depth + JsonValue.heightEntries es ≤ config.maxResolutionDepth then .ok es
      else .error (.nestingLimitExceeded config.maxResolutionDepth) := by
  match es with
  | [] => rw [cloneJsonBoundedEntries, JsonValue.heightEntries, if_pos (by simpa using hd)]
  | (name, v) :: es =>
    rw [cloneJsonBoundedEntries, cloneJsonBounded_eq config v hv.1, JsonValue.heightEntries]
    by_cases h1 : depth + 1 + v.height ≤ config.maxResolutionDepth
    · rw [if_pos h1, Except.ok_bind, cloneJsonBoundedEntries_eq config es hv.2 hd]
      by_cases h2 : depth + JsonValue.heightEntries es ≤ config.maxResolutionDepth
      · rw [if_pos h2, if_pos (by omega)]
        rfl
      · rw [if_neg h2, if_neg (by omega)]
        rfl
    · rw [if_neg h1, if_neg (by omega)]
      rfl

end

/-! ## A placeholder for a captured array or object -/

variable [Platform]

/-- The string is exactly one placeholder, and the variable it names holds the captured array
or object. -/
structure IsCapturedPlaceholder (store : VariableStore) (input : InterpolatedString)
    (name : VariableName) (captured : Json) : Prop where
  raw : input.raw.toList = '$' :: '{' :: name.raw.toList ++ ['}']
  valid : VariableName.new name.raw = .ok name
  closed : '}' ∉ name.raw.toList
  stored : ∃ value, store.get name = some value ∧ value.isStructured = true ∧
    value.asJson = some captured

/-- A valid variable name is not empty. -/
theorem ne_nil_of_new_ok {value : String} {name : VariableName}
    (h : VariableName.new value = .ok name) : value.toList ≠ [] := by
  intro hnil
  rw [VariableName.new, hnil] at h
  cases h

/-- Such a string is recognised, unless its name alone exceeds the byte limit. -/
theorem structuredPlaceholder_eq {config : RuntimeConfig} {store : VariableStore}
    {input : InterpolatedString} {name : VariableName} {captured : Json}
    (h : IsCapturedPlaceholder store input name captured) (l : ResolutionLocation) :
    structuredPlaceholder config input store l =
      if utf8Len name.raw.toList ≤ config.maxInterpolatedBytes then .ok (some captured)
      else .error (.interpolatedValueTooLarge l config.maxInterpolatedBytes) := by
  obtain ⟨value, hget, hstructured, hjson⟩ := h.stored
  have hraw : input.raw.toList = '$' :: '{' :: (name.raw.toList ++ ['}']) := h.raw
  have hname : (input.raw.toList.drop 2).dropLast = name.raw.toList := by
    rw [hraw, List.drop_succ_cons, List.drop_succ_cons, List.drop_zero, List.dropLast_concat]
  have hlast : input.raw.toList.getLast? = some '}' := by
    rw [hraw, ← List.cons_append, ← List.cons_append, List.getLast?_concat]
  have hprefix : ['$', '{'].isPrefixOf input.raw.toList = true := by
    rw [hraw]
    rfl
  have hclosed : name.raw.toList.contains '}' = false := by
    simpa using h.closed
  have hempty : name.raw.toList.isEmpty = false := by
    simpa using ne_nil_of_new_ok h.valid
  unfold structuredPlaceholder exactPlaceholder lookup
  simp only [hname, hlast, hprefix, hclosed, hempty]
  by_cases hlen : utf8Len name.raw.toList ≤ config.maxInterpolatedBytes
  · simp [hlen, Nat.not_lt.mpr hlen, h.valid, hget, hstructured, hjson, Except.map]
  · have hlen' : utf8Len name.raw.toList > config.maxInterpolatedBytes := by omega
    simp [hlen, hlen', Except.map]

/-- **A placeholder becomes the captured value.** Within the two limits the expectation is the
captured JSON unchanged; beyond them resolution fails. -/
theorem resolveJsonValue_placeholder {config : RuntimeConfig} {store : VariableStore}
    {input : InterpolatedString} {name : VariableName} {captured : Json}
    (h : IsCapturedPlaceholder store input name captured) (l : ResolutionLocation)
    {depth : Nat} (hd : depth ≤ config.maxResolutionDepth) :
    resolveJsonValue config store l (.string input) depth =
      if utf8Len name.raw.toList ≤ config.maxInterpolatedBytes then
        if depth + captured.value.height ≤ config.maxResolutionDepth then .ok captured.value
        else .error (.nestingLimitExceeded config.maxResolutionDepth)
      else .error (.interpolatedValueTooLarge l config.maxInterpolatedBytes) := by
  rw [resolveJsonValue, enterDepth_eq, if_pos hd, Except.ok_bind, structuredPlaceholder_eq h]
  split
  · exact cloneJsonBounded_eq config captured.value captured.sorted depth
  · rfl

theorem resolveJsonValue_eq_captured {config : RuntimeConfig} {store : VariableStore}
    {input : InterpolatedString} {name : VariableName} {captured : Json}
    (h : IsCapturedPlaceholder store input name captured) {l : ResolutionLocation} {depth : Nat}
    {j : JsonValue} (hj : resolveJsonValue config store l (.string input) depth = .ok j) :
    j = captured.value := by
  have hd : depth ≤ config.maxResolutionDepth := by
    rw [resolveJsonValue, Except.bind_eq_ok] at hj
    obtain ⟨_, hd, _⟩ := hj
    exact enterDepth_eq_ok_iff.mp hd
  rw [resolveJsonValue_placeholder h l hd] at hj
  split at hj
  · split at hj
    · exact (Except.ok.inj hj).symm
    · cases hj
  · cases hj

/-! ## Nodes of a value -/

/-- A step from a value to one of its parts. -/
inductive Step where
  | index (i : Nat)
  | key (name : String)

/-- The part of a domain value at a path. An entry list is read as the map it collects to. -/
def valueNode : List Step → Value → Option Value
  | [], v => some v
  | .index i :: path, .array items => items[i]?.bind (valueNode path)
  | .key name :: path, .object entries =>
    (IndexMap.get (IndexMap.ofEntries entries) name).bind (valueNode path)
  | _, _ => none

/-- The part of a JSON value at a path. -/
def jsonNode : List Step → JsonValue → Option JsonValue
  | [], v => some v
  | .index i :: path, .array items => items[i]?.bind (jsonNode path)
  | .key name :: path, .object entries => (IndexMap.get entries name).bind (jsonNode path)
  | _, _ => none

section Nodes

variable {config : RuntimeConfig} {store : VariableStore} {l : ResolutionLocation}

theorem resolveJsonItems_getElem? {vs : List Value} {depth : Nat} {js : List JsonValue}
    (h : resolveJsonItems config store l vs depth = .ok js) {i : Nat} {v : Value}
    (hv : vs[i]? = some v) :
    ∃ j, js[i]? = some j ∧ resolveJsonValue config store l v depth = .ok j := by
  induction vs generalizing js i with
  | nil => cases hv
  | cons w vs ih =>
    simp only [resolveJsonItems, Except.bind_eq_ok, Except.pure_eq_ok, Except.ok.injEq] at h
    obtain ⟨j, hj, js', hjs, rfl⟩ := h
    cases i with
    | zero =>
      obtain rfl : w = v := by simpa using hv
      exact ⟨j, rfl, hj⟩
    | succ i => exact ih hjs (by simpa using hv)

theorem resolveJsonEntries_rel {es : List (String × Value)} {depth : Nat}
    {es' : List (String × JsonValue)} (h : resolveJsonEntries config store l es depth = .ok es') :
    IndexMap.EntriesRel (fun v j => resolveJsonValue config store l v depth = .ok j) es es' := by
  induction es generalizing es' with
  | nil =>
    cases h
    exact .nil
  | cons e es ih =>
    obtain ⟨name, v⟩ := e
    simp only [resolveJsonEntries, Except.bind_eq_ok, Except.pure_eq_ok, Except.ok.injEq] at h
    obtain ⟨j, hj, js, hjs, rfl⟩ := h
    exact .cons ⟨rfl, hj⟩ (ih hjs)

/-- **Resolution is compositional.** A part of a resolved value is what that part resolves to
at its own depth. -/
theorem resolveJsonValue_node {path : List Step} {v w : Value} {depth : Nat} {j : JsonValue}
    (h : resolveJsonValue config store l v depth = .ok j) (hw : valueNode path v = some w) :
    ∃ k, jsonNode path j = some k ∧
      resolveJsonValue config store l w (depth + path.length) = .ok k := by
  induction path generalizing v depth j with
  | nil =>
    obtain rfl : v = w := by simpa [valueNode] using hw
    exact ⟨j, rfl, h⟩
  | cons step path ih =>
    cases step with
    | index i =>
      cases v with
      | array items =>
        simp only [resolveJsonValue, Except.bind_eq_ok, Except.pure_eq_ok, Except.ok.injEq] at h
        obtain ⟨_, _, js, hjs, rfl⟩ := h
        obtain ⟨u, hu, hw⟩ := Option.bind_eq_some_iff.mp hw
        obtain ⟨j, hj, hr⟩ := resolveJsonItems_getElem? hjs hu
        obtain ⟨k, hk, hr⟩ := ih hr hw
        refine ⟨k, by rw [jsonNode, hj]; exact hk, ?_⟩
        rwa [List.length_cons, Nat.add_comm path.length, ← Nat.add_assoc]
      | _ => cases hw
    | key name =>
      cases v with
      | object entries =>
        simp only [resolveJsonValue, Except.bind_eq_ok, Except.pure_eq_ok, Except.ok.injEq] at h
        obtain ⟨_, _, es, hes, rfl⟩ := h
        obtain ⟨u, hu, hw⟩ := Option.bind_eq_some_iff.mp hw
        -- the sorted map finds what the insertion-ordered one does
        have hrel := IndexMap.forall₂_ofEntries (resolveJsonEntries_rel hes)
        obtain ⟨j, hj, hr⟩ := IndexMap.EntriesRel.get hrel hu
        obtain ⟨k, hk, hr⟩ := ih hr hw
        refine ⟨k, ?_, ?_⟩
        · rw [jsonNode, SortedMap.get_ofEntries, ← IndexMap.get_ofEntries, hj]
          exact hk
        · rwa [List.length_cons, Nat.add_comm path.length, ← Nat.add_assoc]
      | _ => cases hw

end Nodes

/-! ## The contract -/

/-- The request body and the expectation that come from one value: both resolve and the encoded
body is the expected JSON, or both fail with the same error up to its location. -/
def SameOutcome : Except RuntimeError ResolvedValue → Except RuntimeError JsonValue → Prop
  | .ok sent, .ok expected => toJson sent 0 = .ok expected
  | .error e, .error e' => ∀ l, e.relocate l = e'.relocate l
  | _, _ => False

omit [Platform] in
theorem sameOutcome_of_agree {config : RuntimeConfig} {depth : Nat}
    {x : Except RuntimeError ResolvedValue} {y : Except RuntimeError JsonValue}
    (h : Agree (Encodes config depth 0) x y) : SameOutcome x y := by
  cases h with
  | ok h => exact h.encoded
  | error h => exact h

/-- **Sending and expecting a value mean the same JSON.** At every depth and for any two
locations the outcomes agree, so that encoding a resolved body never fails; and every node that
is exactly one placeholder for a captured array or object is, in either result, the captured
JSON. Such a node resolves whenever the two limits of the configuration allow it. -/
theorem sending_and_expecting_agree (config : RuntimeConfig) (store : VariableStore)
    (value : Value) (depth : Nat) (l l' : ResolutionLocation) :
    SameOutcome (resolveValue config store l true value depth)
        (resolveJsonValue config store l' value depth) ∧
      (∀ sent, resolveValue config store l true value depth = .ok sent →
        ∃ json, toJson sent 0 = .ok json ∧
          ∀ path input name captured, valueNode path value = some (.string input) →
            IsCapturedPlaceholder store input name captured →
            jsonNode path json = some captured.value) ∧
      (∀ json, resolveJsonValue config store l' value depth = .ok json →
        ∀ path input name captured, valueNode path value = some (.string input) →
          IsCapturedPlaceholder store input name captured →
          jsonNode path json = some captured.value) ∧
      ∀ input name captured, value = .string input →
        IsCapturedPlaceholder store input name captured →
        utf8Len name.raw.toList ≤ config.maxInterpolatedBytes →
        depth + captured.value.height ≤ config.maxResolutionDepth →
        resolveJsonValue config store l' value depth = .ok captured.value := by
  have hagree := resolveValue_agree config store l l' value (Nat.zero_le depth)
  have hplace : ∀ json, resolveJsonValue config store l' value depth = .ok json →
      ∀ path input name captured, valueNode path value = some (.string input) →
        IsCapturedPlaceholder store input name captured →
        jsonNode path json = some captured.value := by
    intro json hjson path input name captured hnode hcap
    obtain ⟨k, hk, hr⟩ := resolveJsonValue_node hjson hnode
    rw [hk, resolveJsonValue_eq_captured hcap hr]
  refine ⟨sameOutcome_of_agree hagree, ?_, hplace, ?_⟩
  · intro sent hsent
    -- what is sent encodes to what is expected, so its places are those of the expectation
    obtain ⟨json, hjson, h⟩ := hagree.of_ok_left hsent
    exact ⟨json, h.encoded, hplace json hjson⟩
  · rintro input name captured rfl hcap hbytes hheight
    rw [resolveJsonValue_placeholder hcap l' (by omega), if_pos hbytes, if_pos hheight]

end Interpolator

end Rettp
