import Mathlib.Algebra.Order.BigOperators.Group.List
import Rettp.Interpolation
import Rettp.ValidatorSpec

/-!
# What interpolation means

The expansion of a text (`Expands`): every placeholder is replaced once by the text of its
variable, and replaced text is not looked at again. Interpolation succeeds exactly when the text
has an expansion that fits the byte limit (`interpolateWithin_eq_ok_iff`), and semantic
validation accepts exactly the texts that have one. So a checked text can only fail at run time
by its size (`interpolation_agrees`).

A configuration admits limits up to a hard maximum. `interpolateWithin` is the same loop at any
limit, so that a limit can always be large enough.
-/

namespace Rettp

/-! ## Expansions -/

/-- A text, the names in its placeholders and what the text becomes: nothing opens a placeholder
before the first one, a name ends at the next closing brace, and the text behind it is expanded
on its own. -/
inductive Expands (textOf : List Char → Option (List Char)) :
    List Char → List (List Char) → List Char → Prop
  | text {s : List Char} (h : ¬ ['$', '{'] <:+: s) : Expands textOf s [] s
  | placeholder {before name text rest output : List Char} {names : List (List Char)}
      (hbefore : ¬ ['$', '{'] <:+: before) (hclosed : '}' ∉ name)
      (htext : textOf name = some text) (h : Expands textOf rest names output) :
      Expands textOf (before ++ '$' :: '{' :: (name ++ '}' :: rest)) (name :: names)
        (before ++ (text ++ output))

/-- **A text has an expansion** exactly when its placeholders are well formed and their names have
texts. -/
theorem expands_iff {textOf : List Char → Option (List Char)} (hempty : textOf [] = none)
    {s : List Char} {names : List (List Char)} :
    (∃ output, Expands textOf s names output) ↔
      Template s names ∧ ∀ name ∈ names, ∃ text, textOf name = some text := by
  refine ⟨?_, ?_⟩
  · rintro ⟨output, h⟩
    induction h with
    | text h => exact ⟨.text h, nofun⟩
    | @placeholder before name text rest output names hbefore hclosed htext _ ih =>
      obtain ⟨htemplate, htexts⟩ := ih
      have hname : name ≠ [] := by
        rintro rfl
        rw [hempty] at htext
        cases htext
      exact ⟨.placeholder hbefore hname hclosed htemplate,
        List.forall_mem_cons.mpr ⟨⟨text, htext⟩, htexts⟩⟩
  · rintro ⟨htemplate, htexts⟩
    induction htemplate with
    | text h => exact ⟨_, .text h⟩
    | placeholder hbefore _ hclosed _ ih =>
      obtain ⟨⟨text, htext⟩, htexts⟩ := List.forall_mem_cons.mp htexts
      obtain ⟨output, houtput⟩ := ih htexts
      exact ⟨_, .placeholder hbefore hclosed htext houtput⟩

theorem opens (before rest : List Char) : ['$', '{'] <:+: before ++ '$' :: '{' :: rest :=
  ⟨before, rest, by simp⟩

/-- **An expansion is unique.** -/
theorem Expands.unique {textOf : List Char → Option (List Char)} {s output output' : List Char}
    {names names' : List (List Char)} (h : Expands textOf s names output)
    (h' : Expands textOf s names' output') : names = names' ∧ output = output' := by
  induction h generalizing names' output' with
  | @text s h =>
    cases h' with
    | text => exact ⟨rfl, rfl⟩
    | @placeholder before => exact absurd (opens before _) h
  | @placeholder before name text rest output names hbefore hclosed htext _ ih =>
    generalize hs : before ++ '$' :: '{' :: (name ++ '}' :: rest) = s at h'
    cases h' with
    | text h => exact absurd (hs ▸ opens before _) h
    | @placeholder before' name' text' rest' output' names' hbefore' hclosed' htext' h' =>
      have hopen := congrArg (splitAtStr ['$', '{']) hs
      rw [splitAtStr_first hbefore, splitAtStr_first hbefore'] at hopen
      obtain ⟨rfl, hinner⟩ := Prod.mk.inj (Option.some.inj hopen)
      have hclose := congrArg (splitAtChar '}') (List.cons.inj (List.cons.inj hinner).2).2
      rw [splitAtChar_first hclosed, splitAtChar_first hclosed'] at hclose
      obtain ⟨rfl, rfl⟩ := Prod.mk.inj (Option.some.inj hclose)
      obtain rfl := Option.some.inj (htext.symm.trans htext')
      obtain ⟨rfl, rfl⟩ := ih h'
      exact ⟨rfl, rfl⟩

/-- One placeholder and no other text. -/
def IsPlaceholder (s : List Char) : Prop :=
  ∃ name, '}' ∉ name ∧ s = '$' :: '{' :: (name ++ ['}'])

variable [Platform]

namespace Interpolator

/-! ## Any limit -/

/-- `pushBounded` at any limit. -/
def pushWithin (limit : Nat) (output fragment : List Char) (location : ResolutionLocation) :
    Except RuntimeError (List Char) :=
  if utf8Len output + utf8Len fragment > limit then
    .error (.interpolatedValueTooLarge location limit)
  else .ok (output ++ fragment)

/-- `lookup` at any limit. -/
def lookupWithin (limit : Nat) (rawName : List Char) (store : VariableStore)
    (location : ResolutionLocation) : Except RuntimeError (VariableName × VariableValue) :=
  if rawName.isEmpty then .error (.emptyPlaceholder location)
  else if utf8Len rawName > limit then .error (.interpolatedValueTooLarge location limit)
  else
    match VariableName.new (String.ofList rawName) with
    | .error _ => .error (.invalidVariableName (String.ofList rawName) location)
    | .ok name =>
      match store.get name with
      | none => .error (.undefinedVariable name location)
      | some value => .ok (name, value)

/-- `interpolateLoop` at any limit. -/
def loopWithin (limit : Nat) (store : VariableStore) (location : ResolutionLocation) :
    Nat → List Char → List Char → Except RuntimeError (List Char)
  | 0, rest, output => pushWithin limit output rest location
  | fuel + 1, rest, output =>
    match splitAtStr ['$', '{'] rest with
    | none => pushWithin limit output rest location
    | some (before, marked) => do
      let output ← pushWithin limit output before location
      match splitAtChar '}' (marked.drop 2) with
      | none => .error (.unterminatedPlaceholder location)
      | some (rawName, rest) =>
        let (name, value) ← lookupWithin limit rawName store location
        match value.scalarText with
        | none => .error (.unsupportedInterpolationType name value.typeName location)
        | some text =>
          let output ← pushWithin limit output text.toList location
          loopWithin limit store location fuel rest output

/-- `interpolate` at any limit. -/
def interpolateWithin (limit : Nat) (input : InterpolatedString) (store : VariableStore)
    (location : ResolutionLocation) : Except RuntimeError String :=
  (loopWithin limit store location input.raw.toList.length input.raw.toList []).map String.ofList

theorem interpolateLoop_eq_within (config : RuntimeConfig) (store : VariableStore)
    (location : ResolutionLocation) (fuel : Nat) (rest output : List Char) :
    interpolateLoop config store location fuel rest output =
      loopWithin config.maxInterpolatedBytes store location fuel rest output := by
  induction fuel generalizing rest output with
  | zero => rfl
  | succ fuel ih =>
    rw [interpolateLoop, loopWithin]
    simp only [ih]
    rfl

/-- The limit is all that interpolation takes from the configuration. -/
theorem interpolate_eq_within (config : RuntimeConfig) (input : InterpolatedString)
    (store : VariableStore) (location : ResolutionLocation) :
    interpolate config input store location =
      interpolateWithin config.maxInterpolatedBytes input store location := by
  rw [interpolate, interpolateLoop_eq_within]
  rfl

/-! ## Success -/

section Success

variable {limit : Nat} {store : VariableStore} {location : ResolutionLocation}

/-- The text of the variable that a placeholder names. -/
def textOf (store : VariableStore) (rawName : List Char) : Option (List Char) :=
  match VariableName.new (String.ofList rawName) with
  | .error _ => none
  | .ok name => ((store.get name).bind (·.scalarText)).map (·.toList)

theorem textOf_nil : textOf store [] = none := rfl

theorem textOf_eq_some_iff {rawName text : List Char} :
    textOf store rawName = some text ↔
      ∃ name value, VariableName.new (String.ofList rawName) = .ok name ∧
        store.get name = some value ∧ value.scalarText = some (String.ofList text) := by
  unfold textOf
  cases VariableName.new (String.ofList rawName) with
  | error e => simp
  | ok name =>
    simp only [Option.map_eq_some_iff, Option.bind_eq_some_iff, Except.ok.injEq]
    refine ⟨?_, ?_⟩
    · rintro ⟨text, ⟨value, hvalue, htext⟩, rfl⟩
      exact ⟨name, value, rfl, hvalue, by rw [htext, String.ofList_toList]⟩
    · rintro ⟨name, value, rfl, hvalue, htext⟩
      exact ⟨_, ⟨value, hvalue, htext⟩, String.toList_ofList⟩

omit [Platform] in
theorem pushWithin_eq_ok_iff {output fragment result : List Char} :
    pushWithin limit output fragment location = .ok result ↔
      utf8Len (output ++ fragment) ≤ limit ∧ output ++ fragment = result := by
  rw [pushWithin, Except.ite_error_eq_ok, Except.ok.injEq, Nat.not_lt, ← utf8Len_append]

theorem lookupWithin_eq_ok_iff {rawName : List Char} {name : VariableName} {value : VariableValue} :
    lookupWithin limit rawName store location = .ok (name, value) ↔
      utf8Len rawName ≤ limit ∧ VariableName.new (String.ofList rawName) = .ok name ∧
        store.get name = some value := by
  unfold lookupWithin
  rw [Except.ite_error_eq_ok, Except.ite_error_eq_ok, Nat.not_lt]
  refine ⟨?_, ?_⟩
  · rintro ⟨-, hlen, h⟩
    split at h
    · cases h
    · next name' hname =>
      split at h
      · cases h
      · next value' hvalue =>
        obtain ⟨rfl, rfl⟩ := Prod.mk.inj (Except.ok.inj h)
        exact ⟨hlen, hname, hvalue⟩
  · rintro ⟨hlen, hname, hvalue⟩
    refine ⟨?_, hlen, ?_⟩
    · rintro hempty
      rw [List.isEmpty_iff.mp hempty] at hname
      cases hname
    · rw [hname]
      dsimp only
      rw [hvalue]

/-- **A round of interpolation** at a placeholder. -/
theorem loopWithin_placeholder {before name : List Char} (fuel : Nat)
    (hbefore : ¬ ['$', '{'] <:+: before) (hclosed : '}' ∉ name) (rest output result : List Char) :
    loopWithin limit store location (fuel + 1) (before ++ '$' :: '{' :: (name ++ '}' :: rest))
        output = .ok result ↔
      utf8Len (output ++ before) ≤ limit ∧ utf8Len name ≤ limit ∧
        ∃ text, textOf store name = some text ∧ utf8Len (output ++ before ++ text) ≤ limit ∧
          loopWithin limit store location fuel rest (output ++ before ++ text) = .ok result := by
  rw [loopWithin, splitAtStr_first hbefore]
  dsimp only
  rw [List.drop_succ_cons, List.drop_succ_cons, List.drop_zero, splitAtChar_first hclosed]
  simp only [Except.bind_eq_ok, pushWithin_eq_ok_iff, textOf_eq_some_iff]
  refine ⟨?_, ?_⟩
  · rintro ⟨_, ⟨hlen, rfl⟩, ⟨variable_, value⟩, hlookup, h⟩
    obtain ⟨hname, hnew, hget⟩ := lookupWithin_eq_ok_iff.mp hlookup
    dsimp only at h
    -- a captured array or object has no text
    cases htext : value.scalarText with
    | none =>
      rw [htext] at h
      cases h
    | some text =>
      rw [htext] at h
      obtain ⟨_, hpush, h⟩ := Except.bind_eq_ok.mp h
      obtain ⟨hlen', rfl⟩ := pushWithin_eq_ok_iff.mp hpush
      have hvalue : value.scalarText = some (String.ofList text.toList) := by
        rw [htext, String.ofList_toList]
      exact ⟨hlen, hname, text.toList, ⟨variable_, value, hnew, hget, hvalue⟩, hlen', h⟩
  · rintro ⟨hlen, hname, text, ⟨variable_, value, hnew, hget, htext⟩, hlen', h⟩
    refine ⟨_, ⟨hlen, rfl⟩, ⟨variable_, value⟩, lookupWithin_eq_ok_iff.mpr ⟨hname, hnew, hget⟩, ?_⟩
    dsimp only
    rw [htext]
    refine Except.bind_eq_ok.mpr ⟨output ++ before ++ text, pushWithin_eq_ok_iff.mpr ?_, h⟩
    rw [String.toList_ofList]
    exact ⟨hlen', rfl⟩

theorem loopWithin_unterminated {before inner : List Char} (fuel : Nat)
    (hbefore : ¬ ['$', '{'] <:+: before) (hopen : splitAtChar '}' inner = none)
    (output result : List Char) :
    loopWithin limit store location (fuel + 1) (before ++ '$' :: '{' :: inner) output ≠
      .ok result := by
  intro h
  rw [loopWithin, splitAtStr_first hbefore] at h
  dsimp only at h
  rw [List.drop_succ_cons, List.drop_succ_cons, List.drop_zero, hopen] at h
  obtain ⟨_, -, h⟩ := Except.bind_eq_ok.mp h
  cases h

/-- **The rounds of interpolation** append an expansion that fits the limit. -/
theorem loopWithin_eq_ok_iff {fuel : Nat} {rest : List Char} (hfuel : rest.length ≤ fuel)
    {output result : List Char} :
    loopWithin limit store location fuel rest output = .ok result ↔
      ∃ names expansion, Expands (textOf store) rest names expansion ∧
        (∀ name ∈ names, utf8Len name ≤ limit) ∧ utf8Len (output ++ expansion) ≤ limit ∧
        output ++ expansion = result := by
  refine ⟨?_, ?_⟩
  · intro h
    induction fuel generalizing rest output with
    | zero =>
      obtain rfl := List.length_eq_zero_iff.mp (Nat.le_zero.mp hfuel)
      exact ⟨[], [], .text (by simp), nofun, pushWithin_eq_ok_iff.mp h⟩
    | succ fuel ih =>
      cases hopen : splitAtStr ['$', '{'] rest with
      | none =>
        rw [loopWithin, hopen] at h
        exact ⟨[], rest, .text (splitAtStr_eq_none_iff.mp hopen), nofun, pushWithin_eq_ok_iff.mp h⟩
      | some parts =>
        obtain ⟨before, marked⟩ := parts
        have hbefore := splitAtStr_before (List.cons_ne_nil _ _) hopen
        obtain ⟨rfl, inner, rfl⟩ := splitAtStr_eq_some hopen
        cases hclose : splitAtChar '}' inner with
        | none => exact absurd h (loopWithin_unterminated fuel hbefore hclose output result)
        | some parts =>
          obtain ⟨name, rest⟩ := parts
          obtain ⟨rfl, hclosed⟩ := splitAtChar_eq_some hclose
          obtain ⟨-, hname, text, htext, -, h⟩ :=
            (loopWithin_placeholder fuel hbefore hclosed rest output result).mp h
          -- a round takes at least the four characters of a placeholder off the text
          have hlength : rest.length ≤ fuel := by
            simp only [List.length_append, List.length_cons] at hfuel
            omega
          obtain ⟨names, expansion, hexpands, hnames, hlen, hresult⟩ := ih hlength h
          refine ⟨name :: names, before ++ (text ++ expansion),
            .placeholder hbefore hclosed htext hexpands, List.forall_mem_cons.mpr ⟨hname, hnames⟩, ?_⟩
          simp only [List.append_assoc] at hlen hresult
          exact ⟨hlen, hresult⟩
  · rintro ⟨names, expansion, hexpands, hnames, hlen, hresult⟩
    induction hexpands generalizing fuel output with
    | @text s h =>
      have hpush : pushWithin limit output s location = .ok result :=
        pushWithin_eq_ok_iff.mpr ⟨hlen, hresult⟩
      cases fuel with
      | zero => exact hpush
      | succ fuel => 
        rw [loopWithin, splitAtStr_eq_none_iff.mpr h]
        exact hpush
    | @placeholder before name text rest expansion names hbefore hclosed htext _ ih =>
      obtain ⟨hname, hnames⟩ := List.forall_mem_cons.mp hnames
      simp only [List.length_append, List.length_cons] at hfuel
      obtain ⟨fuel, rfl⟩ := Nat.exists_eq_add_one_of_ne_zero (show fuel ≠ 0 by omega)
      have hlen' : utf8Len (output ++ before ++ text ++ expansion) ≤ limit := by
        rw [List.append_assoc, List.append_assoc]
        exact hlen
      -- what is written along the way is part of the whole, so it fits as well
      have hpushed := hlen'
      rw [utf8Len_append, utf8Len_append] at hpushed
      rw [loopWithin_placeholder fuel hbefore hclosed rest output result]
      refine ⟨by omega, hname, text, htext, by rw [utf8Len_append]; omega, ?_⟩
      refine ih (by omega) hnames hlen' ?_
      rw [← hresult, List.append_assoc, List.append_assoc]

/-- **Interpolation succeeds** exactly when the text has an expansion that fits the limit. -/
theorem interpolateWithin_eq_ok_iff {input : InterpolatedString} {output : String} :
    interpolateWithin limit input store location = .ok output ↔
      ∃ names, Expands (textOf store) input.raw.toList names output.toList ∧
        (∀ name ∈ names, utf8Len name ≤ limit) ∧ utf8Len output.toList ≤ limit := by
  rw [interpolateWithin, Except.map_eq_ok]
  simp only [loopWithin_eq_ok_iff (Nat.le_refl _), List.nil_append]
  refine ⟨?_, ?_⟩
  · rintro ⟨_, ⟨names, expansion, hexpands, hnames, hlen, rfl⟩, rfl⟩
    rw [String.toList_ofList]
    exact ⟨names, hexpands, hnames, hlen⟩
  · rintro ⟨names, hexpands, hnames, hlen⟩
    exact ⟨_, ⟨names, _, hexpands, hnames, hlen, rfl⟩, String.ofList_toList⟩

end Success

/-! ## Agreement -/

/-- The text of a variable that is neither an array nor an object. -/
theorem scalarText_isSome_iff {value : VariableValue} :
    (∃ text, value.scalarText = some text) ↔ value.isStructured = false := by
  unfold VariableValue.scalarText VariableValue.isStructured VariableValue.asJson
  cases value with
  | text value => simp
  | json value =>
    obtain ⟨value, _⟩ := value
    cases value <;> simp [VariableValue.scalarJsonText]
  | sharedJson value =>
    dsimp only
    generalize value.asJson = value
    obtain ⟨value, _⟩ := value
    cases value <;> simp [VariableValue.scalarJsonText]

/-- With the names and scalar values of a store, a text is accepted exactly when it has an
expansion. -/
theorem textRule_iff_expands {store : VariableStore} {scope : Finset VariableName}
    (hscope : ∀ name, name ∈ scope ↔ name ∈ store.names)
    (hscalar : ∀ entry ∈ store.values, entry.2.isStructured = false) {text : String} :
    TextRule scope text ↔ ∃ names output, Expands (textOf store) text.toList names output := by
  have hname (name : List Char) :
      NameRule scope (String.ofList name) ↔ ∃ text, textOf store name = some text := by
    refine ⟨?_, ?_⟩
    · rintro ⟨variable_, hmem, hnew⟩
      rw [hscope] at hmem
      obtain ⟨value, hget⟩ : ∃ value, store.get variable_ = some value := by
        rw [← Option.isSome_iff_exists, ← Option.ne_none_iff_isSome]
        exact fun hnone => VariableStore.get_eq_none_iff.mp hnone hmem
      have hstructured := hscalar _ (IndexMap.mem_of_get_eq_some hget)
      obtain ⟨text, htext⟩ := scalarText_isSome_iff.mpr hstructured
      refine ⟨text.toList, textOf_eq_some_iff.mpr ⟨variable_, value, hnew, hget, ?_⟩⟩
      rw [htext, String.ofList_toList]
    · rintro ⟨text, htext⟩
      obtain ⟨variable_, value, hnew, hget, -⟩ := textOf_eq_some_iff.mp htext
      refine ⟨variable_, (hscope variable_).mpr ?_, hnew⟩
      by_contra hmem
      rw [VariableStore.get_eq_none_iff.mpr hmem] at hget
      cases hget
  unfold TextRule
  refine exists_congr fun names => ?_
  rw [expands_iff textOf_nil]
  exact and_congr_right fun _ => forall₂_congr fun name _ => hname name

/-- A whole-string placeholder is looked up. -/
theorem exactPlaceholder_eq {config : RuntimeConfig} {input : InterpolatedString}
    {store : VariableStore} {location : ResolutionLocation} {name : List Char}
    (hclosed : '}' ∉ name)
    (hraw : input.raw.toList = '$' :: '{' :: (name ++ ['}'])) :
    exactPlaceholder config input store location =
      (lookup config name store location).map some := by
  have hname : (input.raw.toList.drop 2).dropLast = name := by
    rw [hraw, List.drop_succ_cons, List.drop_succ_cons, List.drop_zero, List.dropLast_concat]
  have hlast : input.raw.toList.getLast? = some '}' := by
    rw [hraw, ← List.cons_append, ← List.cons_append, List.getLast?_concat]
  have hprefix : ['$', '{'].isPrefixOf input.raw.toList = true := by
    rw [hraw]
    rfl
  unfold exactPlaceholder
  simp [hname, hlast, hprefix, hclosed]

/-- **A whole-string placeholder** is recognised, and nothing else is. -/
theorem exactPlaceholder_eq_none_iff {config : RuntimeConfig} {input : InterpolatedString}
    {store : VariableStore} {location : ResolutionLocation} :
    exactPlaceholder config input store location = .ok none ↔ ¬ IsPlaceholder input.raw.toList := by
  refine ⟨?_, ?_⟩
  · rintro hnone ⟨name, hclosed, hraw⟩
    rw [exactPlaceholder_eq hclosed hraw] at hnone
    obtain ⟨found, -, hfound⟩ := Except.map_eq_ok.mp hnone
    cases hfound
  · intro hnot
    unfold exactPlaceholder
    refine if_pos ?_
    by_contra h
    simp only [Bool.or_eq_true, Bool.not_eq_true', bne_iff_ne, ne_eq, not_or, not_not,
      Bool.not_eq_false, List.isPrefixOf_iff_prefix] at h
    obtain ⟨⟨⟨inner, hraw⟩, hlast⟩, hclosed⟩ := h
    rw [← hraw] at hlast hclosed hnot
    have hinner : inner ≠ [] := by
      rintro rfl
      cases hlast
    have hconcat := List.dropLast_concat_getLast hinner
    have hbrace : inner.getLast hinner = '}' := by
      rw [List.getLast?_append_of_ne_nil _ hinner, List.getLast?_eq_some_getLast hinner] at hlast
      exact Option.some.inj hlast
    rw [hbrace] at hconcat
    refine hnot ⟨inner.dropLast, by simpa using hclosed, ?_⟩
    rw [hconcat]
    rfl

/-- **Checker and runtime agree on interpolation.** -/
theorem interpolation_agrees (s : Spanned String) (scope : Finset VariableName)
    (store : VariableStore) (location : ResolutionLocation)
    (hscope : ∀ name, name ∈ scope ↔ name ∈ store.names)
    (hscalar : ∀ entry ∈ store.values, entry.2.isStructured = false) :
    ((Validator.validateInterpolation scope s).errors = [] ↔
      ∃ limit output, interpolateWithin limit ⟨s.value⟩ store location = .ok output) ∧
    (∀ limit output, interpolateWithin limit ⟨s.value⟩ store location = .ok output →
      ∃ names, Expands (textOf store) s.value.toList names output.toList) ∧
    (∀ limit, (∃ output, interpolateWithin limit ⟨s.value⟩ store location = .ok output) ↔
      (Validator.validateInterpolation scope s).errors = [] ∧
        ∀ names output, Expands (textOf store) s.value.toList names output →
          (∀ name ∈ names, utf8Len name ≤ limit) ∧ utf8Len output ≤ limit) ∧
    (∀ config, interpolate config ⟨s.value⟩ store location =
      interpolateWithin config.maxInterpolatedBytes ⟨s.value⟩ store location) ∧
    ∀ config, exactPlaceholder config ⟨s.value⟩ store location ≠ .ok none ↔
      IsPlaceholder s.value.toList := by
  have hclean : (Validator.validateInterpolation scope s).errors = [] ↔
      ∃ names output, Expands (textOf store) s.value.toList names output :=
    (Validator.validateInterpolation_meets scope s).clean.trans
      (textRule_iff_expands hscope hscalar)
  have hok (limit : Nat) (output : String) :=
    @interpolateWithin_eq_ok_iff _ limit store location ⟨s.value⟩ output
  refine ⟨hclean.trans ?_, ?_, ?_, ?_, ?_⟩
  · refine ⟨?_, ?_⟩
    · rintro ⟨names, output, hexpands⟩
      -- a limit that is large enough for the names and the output together
      refine ⟨(names.map utf8Len).sum + utf8Len output, String.ofList output, (hok _ _).mpr ?_⟩
      rw [String.toList_ofList]
      refine ⟨names, hexpands, fun name hname => ?_, Nat.le_add_left _ _⟩
      have := List.single_le_sum (fun _ _ => Nat.zero_le _) _ (List.mem_map_of_mem (f := utf8Len) hname)
      omega
    · rintro ⟨limit, output, h⟩
      obtain ⟨names, hexpands, -⟩ := (hok limit output).mp h
      exact ⟨names, output.toList, hexpands⟩
  · intro limit output h
    obtain ⟨names, hexpands, -⟩ := (hok limit output).mp h
    exact ⟨names, hexpands⟩
  · intro limit
    rw [hclean]
    refine ⟨?_, ?_⟩
    · rintro ⟨output, h⟩
      obtain ⟨names, hexpands, hfits⟩ := (hok limit output).mp h
      refine ⟨⟨names, output.toList, hexpands⟩, fun names' output' hexpands' => ?_⟩
      obtain ⟨rfl, rfl⟩ := hexpands.unique hexpands'
      exact hfits
    · rintro ⟨⟨names, output, hexpands⟩, hfits⟩
      refine ⟨String.ofList output, (hok limit _).mpr ?_⟩
      rw [String.toList_ofList]
      exact ⟨names, hexpands, hfits names output hexpands⟩
  · intro config
    exact interpolate_eq_within config ⟨s.value⟩ store location
  · intro config
    rw [ne_eq, exactPlaceholder_eq_none_iff, not_not]

/-- A store with one text, which looks like a placeholder itself. -/
def greetingStore : VariableStore := VariableStore.new.insertPredefined ⟨"name"⟩ (.text "${x}")

/-- A text with a placeholder. -/
def greeting : Spanned String := ⟨"hi ${name}", ⟨0, 12⟩⟩

omit [Platform] in
/-- The text of the variable is put in, and not looked at again. -/
theorem interpolation_agrees_greeting :
    letI := asciiPlatform
    ((Validator.validateInterpolation {⟨"name"⟩} greeting).errors = [] ↔ ∃ limit output,
      interpolateWithin limit ⟨greeting.value⟩ greetingStore .requestPath = .ok output) ∧
    (∀ limit output,
      interpolateWithin limit ⟨greeting.value⟩ greetingStore .requestPath = .ok output →
      ∃ names, Expands (textOf greetingStore) greeting.value.toList names output.toList) ∧
    (∀ limit, (∃ output,
        interpolateWithin limit ⟨greeting.value⟩ greetingStore .requestPath = .ok output) ↔
      (Validator.validateInterpolation {⟨"name"⟩} greeting).errors = [] ∧
        ∀ names output, Expands (textOf greetingStore) greeting.value.toList names output →
          (∀ name ∈ names, utf8Len name ≤ limit) ∧ utf8Len output ≤ limit) ∧
    (∀ config, interpolate config ⟨greeting.value⟩ greetingStore .requestPath =
      interpolateWithin config.maxInterpolatedBytes ⟨greeting.value⟩ greetingStore .requestPath) ∧
    ∀ config, exactPlaceholder config ⟨greeting.value⟩ greetingStore .requestPath ≠ .ok none ↔
      IsPlaceholder greeting.value.toList := by
  let := asciiPlatform
  have hscope (name : VariableName) :
      name ∈ ({⟨"name"⟩} : Finset VariableName) ↔ name ∈ greetingStore.names := by
    rw [Finset.mem_singleton]
    exact List.mem_singleton.symm
  have hscalar : ∀ entry ∈ greetingStore.values, entry.2.isStructured = false := by
    intro entry hentry
    obtain rfl := List.mem_singleton.mp hentry
    rfl
  exact interpolation_agrees greeting {⟨"name"⟩} greetingStore .requestPath hscope hscalar

end Interpolator

end Rettp
