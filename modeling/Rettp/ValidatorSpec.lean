import Rettp.ValidationRules

/-!
# The validator decides the rules

What each function of the validator checks, as a `Checked.Meets` lemma, from the names and texts
up to the suite: **nothing is reported exactly for the suites that satisfy `SuiteRules`**
(`validate_eq_nil_iff`).

Where a function passes along the names that are taken, its lemma says which names are new
(`Checked.Fresh`), and that it adds exactly those.
-/

namespace Rettp

open Checked

/-! ## Names and texts -/

/-- Names that are not empty and, up to `fold`, each there once and not taken. -/
def NewNamesBy (fold : String → String) (taken : Finset String) (names : List String) : Prop :=
  (∀ name ∈ names, name ≠ "") ∧ Fresh taken (names.map fold)

/-- Distinct names, none of which was taken before. -/
theorem distinctNamesBy_iff {fold : String → String} {names : List String} :
    DistinctNamesBy fold names ↔ NewNamesBy fold ∅ names := by
  rw [NewNamesBy, Fresh.empty_iff]
  exact ⟨fun h => ⟨h.named, h.distinct⟩, fun h => ⟨h.1, h.2⟩⟩

namespace NewNamesBy

variable {fold : String → String} {taken : Finset String} {names more : List String}

@[simp] theorem nil : NewNamesBy fold taken [] := ⟨by simp, .nil⟩

/-- A name after the ones that are taken. -/
theorem cons_iff {name : String} :
    NewNamesBy fold taken (name :: names) ↔
      (name ≠ "" ∧ fold name ∉ taken) ∧ NewNamesBy fold (insert (fold name) taken) names := by
  rw [NewNamesBy, NewNamesBy, List.forall_mem_cons, List.map_cons, Fresh.cons_iff, and_and_and_comm]

/-- Names after other names. -/
theorem append_iff :
    NewNamesBy fold taken (names ++ more) ↔
      NewNamesBy fold taken names ∧ NewNamesBy fold (taken ∪ (names.map fold).toFinset) more := by
  rw [NewNamesBy, NewNamesBy, NewNamesBy, List.forall_mem_append, List.map_append,
    Fresh.append_iff, and_and_and_comm]

end NewNamesBy

namespace Validator

/-- The check of the depth says whether it is within the limit. -/
theorem enterDepth_meets (maxDepth depth : Nat) (span : SourceSpan) :
    Meets (enterDepth maxDepth depth span) (depth < maxDepth) true where
  clean := by simp [enterDepth]
  value := by simp [enterDepth]

/-- Checking something nested. -/
theorem nested_meets {maxDepth depth : Nat} {span : SourceSpan} {α : Type} {x y : Validation α}
    {P : Prop} {v : α} (h : Meets x P v) :
    Meets (enterDepth maxDepth depth span >>= fun entered => if entered = true then x else y)
      (depth < maxDepth ∧ P) v :=
  (enterDepth_meets maxDepth depth span).bind fun _ => by rwa [if_pos rfl]

/-- A name is reported if it is empty or was there before. -/
theorem validateNameBy_meets (fold : String → String) (kind : DuplicateKind)
    (names : Finset String) (name : Spanned String) :
    Meets (validateNameBy fold kind names name)
      (name.value ≠ "" ∧ fold name.value ∉ names) (insert (fold name.value) names) := by
  refine ((Meets.reportIf _ _).bind fun _ => (Meets.reportIf _ _).map).congr ?_
  simp

/-- Loops over named declarations. -/
theorem names_meets {α : Type} {f : Finset String → α → Validation (Finset String)}
    {fold : String → String} {name : α → String} {Q : α → Prop}
    (hf : ∀ taken a, Meets (f taken a) ((name a ≠ "" ∧ fold (name a) ∉ taken) ∧ Q a)
      (insert (fold (name a)) taken))
    (taken : Finset String) (as : List α) :
    Meets (Checked.foldM f taken as) (NewNamesBy fold taken (as.map name) ∧ ∀ a ∈ as, Q a)
      (taken ∪ ((as.map name).map fold).toFinset) := by
  induction as generalizing taken with
  | nil =>
    rw [List.map_nil, List.map_nil, List.toFinset_nil, Finset.union_empty]
    exact (Meets.pure taken).congr (iff_of_true trivial ⟨.nil, by simp⟩)
  | cons a as ih =>
    rw [List.map_cons, List.map_cons, List.toFinset_cons, Finset.union_insert,
      ← Finset.insert_union]
    refine ((hf taken a).bind fun _ => ih (insert (fold (name a)) taken)).congr ?_
    rw [NewNamesBy.cons_iff, List.forall_mem_cons, and_and_and_comm]

/-! ## Sections that have been seen -/

/-- The sections that have been seen. -/
def SeenInRequest.kinds (seen : SeenInRequest) : Finset DuplicateKind :=
  (if seen.sawHeaders then {.requestHeaders} else ∅) ∪
    (if seen.sawQuery then {.requestQuery} else ∅) ∪ (if seen.sawBody then {.requestBody} else ∅)

/-- What has been seen after a section. -/
def SeenInRequest.after (seen : SeenInRequest) (section_ : RequestSectionAst) : SeenInRequest where
  sawHeaders := seen.sawHeaders || section_.kind == .requestHeaders
  sawQuery := seen.sawQuery || section_.kind == .requestQuery
  sawBody := seen.sawBody || section_.kind == .requestBody
  headerNames := seen.headerNames ∪ (section_.headerNames.map toAsciiLowercase).toFinset
  queryNames := seen.queryNames ∪ section_.queryNames.toFinset

theorem SeenInRequest.mem_kinds {seen : SeenInRequest} {kind : DuplicateKind} :
    kind ∈ seen.kinds ↔ seen.sawHeaders = true ∧ kind = .requestHeaders ∨
      seen.sawQuery = true ∧ kind = .requestQuery ∨ seen.sawBody = true ∧ kind = .requestBody := by
  obtain ⟨_ | _, _ | _, _ | _, headerNames, queryNames⟩ := seen <;> simp [kinds]

/-- What has been seen after one more section of a request. -/
theorem SeenInRequest.kinds_after (seen : SeenInRequest) (section_ : RequestSectionAst) :
    (seen.after section_).kinds = insert section_.kind seen.kinds := by
  ext kind
  rw [Finset.mem_insert, mem_kinds, mem_kinds]
  cases section_ <;> simp [after, RequestSectionAst.kind] <;> tauto

/-- The sections that have been seen. -/
def SeenInExpectation.kinds (seen : SeenInExpectation) : Finset DuplicateKind :=
  (if seen.sawStatus then {.responseStatus} else ∅) ∪
    (if seen.sawHeaders then {.responseHeaders} else ∅) ∪ (if seen.sawBody then {.responseBody} else ∅)

/-- What has been seen after a section. -/
def SeenInExpectation.after (seen : SeenInExpectation) (section_ : ExpectationSectionAst) :
    SeenInExpectation where
  sawStatus := seen.sawStatus || section_.kind == .responseStatus
  sawHeaders := seen.sawHeaders || section_.kind == .responseHeaders
  sawBody := seen.sawBody || section_.kind == .responseBody
  headerNames := seen.headerNames ∪ (section_.headerNames.map toAsciiLowercase).toFinset
  captures := seen.captures ∪ (section_.captures.map VariableName.mk).toFinset

theorem SeenInExpectation.mem_kinds {seen : SeenInExpectation} {kind : DuplicateKind} :
    kind ∈ seen.kinds ↔ seen.sawStatus = true ∧ kind = .responseStatus ∨
      seen.sawHeaders = true ∧ kind = .responseHeaders ∨
      seen.sawBody = true ∧ kind = .responseBody := by
  obtain ⟨_ | _, _ | _, _ | _, headerNames, captures⟩ := seen <;> simp [kinds]

/-- What has been seen after one more section of an expectation. -/
theorem SeenInExpectation.kinds_after (seen : SeenInExpectation)
    (section_ : ExpectationSectionAst) :
    (seen.after section_).kinds = insert section_.kind seen.kinds := by
  ext kind
  rw [Finset.mem_insert, mem_kinds, mem_kinds]
  cases section_ <;> simp [after, ExpectationSectionAst.kind] <;> tauto

/-- The captures after some sections. -/
theorem captures_after (seen : SeenInExpectation) (sections : List ExpectationSectionAst) :
    (sections.foldl SeenInExpectation.after seen).captures =
      seen.captures ∪ ((sections.flatMap (·.captures)).map VariableName.mk).toFinset := by
  induction sections generalizing seen with
  | nil => simp
  | cons section_ sections ih =>
    rw [List.foldl_cons, ih, List.flatMap_cons, List.map_append, List.toFinset_append,
      ← Finset.union_assoc]
    rfl

/-- The methods with a body. -/
theorem methodAllowsBody_iff {method : HttpMethodAst} :
    methodAllowsBody method = true ↔ method ∈ [.post, .put, .patch] := by
  cases method <;> decide

/-! ## Fields -/

/-- What has been captured after some fields. -/
def capturedAfter (captures : Finset VariableName) (fields : List FieldAssertionAst) :
    Finset VariableName :=
  captures ∪ ((capturesOfFields fields).map VariableName.mk).toFinset

theorem capturedAfter_nil (captures : Finset VariableName) : capturedAfter captures [] = captures := by
  simp [capturedAfter, capturesOfFields]

/-- The captures of fields after those of other fields. -/
theorem capturedAfter_append (captures : Finset VariableName)
    (fields fields' : List FieldAssertionAst) :
    capturedAfter captures (fields ++ fields') = capturedAfter (capturedAfter captures fields) fields' := by
  simp [capturedAfter, capturesOfFields]

/-- The capture of one field. -/
theorem capturedAfter_field (captures : Finset VariableName) (field : FieldAssertionAst) :
    capturedAfter captures [field] =
      captures ∪ ((field.capture.map (·.value)).toList.map VariableName.mk).toFinset := by
  simp [capturedAfter, capturesOfFields]

/-- A field declares something. -/
theorem given_iff {α β γ : Type} {a : Option α} {b : Option β} {c : Option γ} :
    (a.isNone && b.isNone && c.isNone) = false ↔ a.isSome ∨ b.isSome ∨ c.isSome := by
  cases a <;> cases b <;> cases c <;> simp

/-- The table of the validator, by the type that a literal is written in. -/
theorem typeAcceptsValue_iff {type : AssertionTypeAst} {value : ValueAst} :
    typeAcceptsValue type value = true ↔ value.AgreesWith type := by
  cases type <;> cases value <;> simp [typeAcceptsValue, ValueAst.AgreesWith, ValueAst.writtenType]

/-- A value is reported if it does not agree with its type. -/
theorem validateComparison_meets (field : String) (expectedType : Option (Spanned AssertionTypeAst))
    (expectedValue : Option ValueAst) :
    Meets (validateComparison field expectedType expectedValue)
      (∀ type ∈ expectedType, ∀ value ∈ expectedValue, value.AgreesWith type.value) () := by
  unfold validateComparison
  cases expectedType with
  | none => exact (Meets.pure ()).congr (by simp)
  | some type =>
    cases expectedValue with
    | none => exact (Meets.pure ()).congr (by simp)
    | some value => exact (Meets.reportIf _ _).congr (by simp [typeAcceptsValue_iff])

/-! ## Tests, one after the other -/

/-- Everything after the first one is reported. -/
theorem noSecond_meets {α : Type} (report : α → ValidationError) (as : List α) :
    Meets (Checked.forEach (fun a => .report (report a)) (as.drop 1)) (as.length ≤ 1) () := by
  refine (Meets.forEach (fun a => Meets.report (report a)) _).congr ?_
  rw [← List.eq_nil_iff_forall_not_mem, List.drop_eq_nil_iff]

/-- The captures of tests after those of other tests. -/
theorem capturedBy_append (tests tests' : List TestAst) :
    capturedBy (tests ++ tests') = capturedBy tests ∪ capturedBy tests' := by
  rw [capturedBy, List.flatMap_append, List.map_append, List.toFinset_append]
  rfl

/-- The scope after some tests. -/
theorem scope_after (scope : Finset VariableName) (tests : List TestAst) :
    tests.foldl (fun scope test => scope ∪ capturedBy [test]) scope = scope ∪ capturedBy tests := by
  induction tests generalizing scope with
  | nil => simp [capturedBy]
  | cons test tests ih =>
    rw [List.foldl_cons, ih, Finset.union_assoc, ← capturedBy_append, List.singleton_append]

/-- Every core after the first one is reported. -/
theorem findCoreSteps_meets (blocks : List BlockAst) (index : Nat) (first : Option Nat) :
    Meets (Checked.foldM findCoreStep first (blocks.zipIdx index))
      (first.toList.length + (blocks.filter BlockAst.isCore).length ≤ 1)
      (first.or ((blocks.findIdx? BlockAst.isCore).map (· + index))) := by
  induction blocks generalizing index first with
  | nil =>
    rw [List.findIdx?_nil, Option.map_none, Option.or_none]
    exact (Meets.pure first).congr (iff_of_true trivial (by cases first <;> simp))
  | cons block blocks ih =>
    rw [List.zipIdx_cons, foldM_cons]
    have hrest (first : Option Nat) := ih (index + 1) first
    have hindex : ((· + index) ∘ fun i => i + 1) = (· + (index + 1)) := by
      funext i
      exact Nat.add_right_comm i 1 index
    cases block with
    -- a core is the first one or is reported; the other blocks change nothing
    | core core =>
      have hstep : Meets (findCoreStep first (.core core, index)) (first.isSome = false)
          (first.or (some index)) := (Meets.reportIf _ _).map
      have hvalue : first.or (((BlockAst.core core :: blocks).findIdx? BlockAst.isCore).map
          (· + index)) = (first.or (some index)).or
            ((blocks.findIdx? BlockAst.isCore).map (· + (index + 1))) := by
        simp [List.findIdx?_cons, BlockAst.isCore]
      rw [hvalue]
      refine (hstep.bind fun _ => hrest _).congr ?_
      have hcons : (BlockAst.core core :: blocks).filter BlockAst.isCore =
          .core core :: blocks.filter BlockAst.isCore := rfl
      rw [hcons, List.length_cons]
      cases first with
      | none => simp [Nat.add_comm]
      | some first => simp
    | pipeline pipeline =>
      refine ((Meets.pure first).bind fun _ => ?_).congr (iff_of_eq (true_and _))
      simpa [List.findIdx?_cons, BlockAst.isCore, hindex] using hrest first
    | test t =>
      refine ((Meets.pure first).bind fun _ => ?_).congr (iff_of_eq (true_and _))
      simpa [List.findIdx?_cons, BlockAst.isCore, hindex] using hrest first

/-- The first core, if it is the only one. -/
theorem findCore_meets (blocks : List BlockAst) :
    Meets (findCore blocks.zipIdx) ((blocks.filter BlockAst.isCore).length ≤ 1)
      (blocks.findIdx? BlockAst.isCore) := by
  have hsteps := findCoreSteps_meets blocks 0 none
  simpa [findCore] using hsteps

/-- There is no core, or a single one. -/
theorem onlyCore {blocks : List BlockAst} (h : (blocks.filter BlockAst.isCore).length ≤ 1) :
    blocks.filter BlockAst.isCore = [] ∨
      ∃ core, blocks.filter BlockAst.isCore = [.core core] ∧ .core core ∈ blocks := by
  match hcores : blocks.filter BlockAst.isCore with
  | [] => exact .inl rfl
  | [block] =>
    obtain ⟨hblock, hcore⟩ : block ∈ blocks ∧ block.isCore = true :=
      List.mem_filter.mp (by simp [hcores])
    cases block with
    | core core => exact .inr ⟨core, rfl, hblock⟩
    | pipeline pipeline => cases hcore
    | test t => cases hcore
  | _ :: _ :: _ =>
    rw [hcores] at h
    simp at h

/-- The tests of the core. -/
theorem coreTests_eq {blocks : List BlockAst} (h : (blocks.filter BlockAst.isCore).length ≤ 1) :
    coreTests blocks (blocks.findIdx? BlockAst.isCore) =
      (blocks.filter BlockAst.isCore).flatMap BlockAst.tests := by
  unfold coreTests
  rw [← List.find?_eq_bind_findIdx?_getElem?, ← List.head?_filter]
  rcases onlyCore h with hnone | ⟨core, hone, -⟩
  · rw [hnone]
    rfl
  · rw [hone]
    exact (List.append_nil _).symm

end Validator

variable [Platform]

namespace Validator

/-- A name that is not in scope is reported. -/
theorem validateVariable_meets (scope : Finset VariableName) (span : SourceSpan) (name : String) :
    Meets (validateVariable scope span name) (NameRule scope name) () := by
  unfold validateVariable NameRule
  cases h : VariableName.new name with
  | ok variable_ => exact (Meets.reportIf _ _).congr (by simp)
  | error e => exact (Meets.report _).congr (by simp)

/-- The rule of a text, from the names in it. -/
theorem textRule_iff {scope : Finset VariableName} {text : String} :
    TextRule scope text ↔
      ∃ found, variableNames text = .ok found ∧ ∀ name ∈ found, NameRule scope name := by
  refine ⟨?_, ?_⟩
  · rintro ⟨names, hnames, h⟩
    refine ⟨_, variableNames_eq_ok_iff.mpr ⟨names, hnames, rfl⟩, ?_⟩
    simpa using h
  · rintro ⟨found, hfound, h⟩
    obtain ⟨names, hnames, rfl⟩ := variableNames_eq_ok_iff.mp hfound
    exact ⟨names, hnames, by simpa using h⟩

/-- **Texts.** -/
theorem validateInterpolation_meets (scope : Finset VariableName) (value : Spanned String) :
    Meets (validateInterpolation scope value) (TextRule scope value.value) () := by
  unfold validateInterpolation
  cases h : variableNames value.value with
  | ok found =>
    refine (Meets.forEach (validateVariable_meets scope value.span) found).congr ?_
    rw [textRule_iff, h]
    simp
  | error e =>
    have hnot : ¬ TextRule scope value.value := by
      rw [textRule_iff, h]
      simp
    cases e <;> exact (Meets.report _).congr (iff_of_false id hnot)

end Validator

/-! ## Contents -/

namespace ContentRules

variable {visible : Finset VariableName} {limit height height' : Nat} {texts texts' : List String}
  {keyLists keyLists' : List (List String)}

theorem nil : ContentRules visible limit [] [] 0 := ⟨by simp, by simp, Nat.zero_le _⟩

/-- The rules of contents after other contents. -/
theorem append_iff :
    ContentRules visible limit (texts ++ texts') (keyLists ++ keyLists') (max height height') ↔
      ContentRules visible limit texts keyLists height ∧
        ContentRules visible limit texts' keyLists' height' := by
  refine ⟨?_, ?_⟩
  · rintro ⟨htexts, hkeys, hheight⟩
    rw [List.forall_mem_append] at htexts hkeys
    rw [max_le_iff] at hheight
    exact ⟨⟨htexts.1, hkeys.1, hheight.1⟩, ⟨htexts.2, hkeys.2, hheight.2⟩⟩
  · rintro ⟨⟨htexts, hkeys, hheight⟩, ⟨htexts', hkeys', hheight'⟩⟩
    exact ⟨List.forall_mem_append.mpr ⟨htexts, htexts'⟩,
      List.forall_mem_append.mpr ⟨hkeys, hkeys'⟩, max_le hheight hheight'⟩

/-- A container is one level. -/
theorem container_iff {maxDepth depth : Nat} :
    ContentRules visible (maxDepth - depth) texts keyLists (height + 1) ↔
      depth < maxDepth ∧ ContentRules visible (maxDepth - (depth + 1)) texts keyLists height := by
  refine ⟨?_, ?_⟩
  · rintro ⟨htexts, hkeys, hheight⟩
    exact ⟨by omega, htexts, hkeys, by omega⟩
  · rintro ⟨hdepth, htexts, hkeys, hheight⟩
    exact ⟨htexts, hkeys, by omega⟩

/-- The keys of one more object. -/
theorem keys_iff {keys : List String} :
    ContentRules visible limit texts (keys :: keyLists) height ↔
      DistinctNames keys ∧ ContentRules visible limit texts keyLists height := by
  refine ⟨?_, ?_⟩
  · rintro ⟨htexts, hkeys, hheight⟩
    rw [List.forall_mem_cons] at hkeys
    exact ⟨hkeys.1, htexts, hkeys.2, hheight⟩
  · rintro ⟨hdistinct, htexts, hkeys, hheight⟩
    exact ⟨htexts, List.forall_mem_cons.mpr ⟨hdistinct, hkeys⟩, hheight⟩

end ContentRules

/-! ## Values -/

namespace Validator

variable (maxDepth : Nat) (scope : Finset VariableName)

/-- What the entries of an object or of a query section must satisfy, after the names taken. -/
def EntriesRules (names : Finset String) (depth : Nat) (entries : List ObjectValueEntryAst) :
    Prop :=
  NewNamesBy id names (entries.map (·.key.value)) ∧
    ContentRules scope (maxDepth - depth) (textsOfEntries entries) (keyListsOfEntries entries)
      (heightOfEntries entries)

mutual

/-- **Values.** One case for each constructor; a container is entered before its parts. -/
theorem validateValue_meets : (value : ValueAst) → (depth : Nat) →
    Meets (validateValue maxDepth scope value depth)
      (ValueRules scope (maxDepth - depth) value) ()
  | .string value, depth => by
    rw [validateValue]
    refine (validateInterpolation_meets scope value).congr ⟨fun h => ?_, fun h => ?_⟩
    · exact ⟨by simpa [ValueAst.texts] using h, by simp [ValueAst.keyLists], Nat.zero_le _⟩
    · exact h.texts _ (by simp [ValueAst.texts])
  | .array ⟨items, span⟩, depth => by
    rw [validateValue]
    refine (nested_meets (validateItems_meets items (depth + 1))).congr ?_
    rw [← ContentRules.container_iff]
    rfl
  | .object object, depth => by
    rw [validateValue]
    exact validateObject_meets object depth
  | .integer value, depth => by
    rw [validateValue]
    exact (Meets.pure ()).congr (iff_of_true trivial .nil)
  | .number value, depth => by
    rw [validateValue]
    exact (Meets.pure ()).congr (iff_of_true trivial .nil)
  | .boolean value, depth => by
    rw [validateValue]
    exact (Meets.pure ()).congr (iff_of_true trivial .nil)
  | .null span, depth => by
    rw [validateValue]
    exact (Meets.pure ()).congr (iff_of_true trivial .nil)

/-- **The items of an array** are reported exactly if they break a rule. -/
theorem validateItems_meets : (items : List ValueAst) → (depth : Nat) →
    Meets (validateItems maxDepth scope items depth)
      (ContentRules scope (maxDepth - depth) (textsOfItems items) (keyListsOfItems items)
        (heightOfItems items)) ()
  | [], depth => by
    rw [validateItems]
    exact (Meets.pure ()).congr (iff_of_true trivial .nil)
  | item :: items, depth => by
    rw [validateItems, textsOfItems, keyListsOfItems, heightOfItems]
    exact ((validateValue_meets item depth).bind fun _ => validateItems_meets items depth).congr
      ContentRules.append_iff.symm

/-- **An object** is reported exactly if it breaks a rule. -/
theorem validateObject_meets : (object : ObjectValueAst) → (depth : Nat) →
    Meets (validateObject maxDepth scope object depth)
      (ContentRules scope (maxDepth - depth) object.texts object.keyLists object.height) ()
  | ⟨entries, span⟩, depth => by
    rw [validateObject]
    have hentries := validateObjectEntries_meets .objectKey entries (depth + 1) ∅
    refine (nested_meets hentries.map).congr ?_
    rw [ObjectValueAst.texts, ObjectValueAst.keyLists, ObjectValueAst.height,
      ContentRules.container_iff, ContentRules.keys_iff, DistinctNames, distinctNamesBy_iff]
    rfl

/-- The entries of an object are reported exactly if they break a rule. -/
theorem validateObjectEntries_meets (kind : DuplicateKind) :
    (entries : List ObjectValueEntryAst) → (depth : Nat) → (names : Finset String) →
    Meets (validateObjectEntries maxDepth scope kind entries depth names)
      (EntriesRules maxDepth scope names depth entries)
      (names ∪ (entries.map (·.key.value)).toFinset)
  | [], depth, names => by
    rw [validateObjectEntries, List.map_nil, List.toFinset_nil, Finset.union_empty]
    exact (Meets.pure names).congr (iff_of_true trivial ⟨.nil, .nil⟩)
  | ⟨key, value, span⟩ :: entries, depth, names => by
    rw [validateObjectEntries, List.map_cons, List.toFinset_cons, Finset.union_insert,
      ← Finset.insert_union]
    refine ((validateNameBy_meets id kind names key).bind fun _ =>
      (validateValue_meets value depth).bind fun _ =>
        validateObjectEntries_meets kind entries depth (insert key.value names)).congr ?_
    rw [EntriesRules, EntriesRules, List.map_cons, NewNamesBy.cons_iff, textsOfEntries,
      keyListsOfEntries, heightOfEntries, ContentRules.append_iff]
    dsimp only [id]
    tauto

end

/-! ## Requests -/

/-- What a section must satisfy after what has been seen. -/
def SectionRules (method : HttpMethodAst) (seen : SeenInRequest) (section_ : RequestSectionAst) :
    Prop :=
  section_.kind ∉ seen.kinds ∧
    NewNamesBy toAsciiLowercase seen.headerNames section_.headerNames ∧
    NewNamesBy id seen.queryNames section_.queryNames ∧
    (∀ _ ∈ section_.bodies, method ∈ [.post, .put, .patch]) ∧
    ∀ value ∈ section_.values, ValueRules scope maxDepth value

/-- A request header is reported exactly if it breaks a rule. -/
theorem validateHeaderEntry_meets (names : Finset String) (entry : HeaderValueEntryAst) :
    Meets (validateHeaderEntry maxDepth scope names entry)
      ((entry.name.value ≠ "" ∧ toAsciiLowercase entry.name.value ∉ names) ∧
        ValueRules scope maxDepth entry.value)
      (insert (toAsciiLowercase entry.name.value) names) :=
  (validateNameBy_meets toAsciiLowercase _ names entry.name).bind fun _ =>
    (validateValue_meets maxDepth scope entry.value 0).map

/-- The rules of entries, value by value. -/
theorem ContentRules.entries_iff {limit : Nat} {entries : List ObjectValueEntryAst} :
    ContentRules scope limit (textsOfEntries entries) (keyListsOfEntries entries)
      (heightOfEntries entries) ↔ ∀ entry ∈ entries, ValueRules scope limit entry.value := by
  induction entries with
  | nil => exact iff_of_true .nil (by simp)
  | cons entry entries ih =>
    obtain ⟨key, value, span⟩ := entry
    rw [textsOfEntries, keyListsOfEntries, heightOfEntries, ContentRules.append_iff, ih,
      List.forall_mem_cons]

/-- A section of a request. -/
theorem validateRequestSection_meets (method : HttpMethodAst) (seen : SeenInRequest)
    (section_ : RequestSectionAst) :
    Meets (validateRequestSection maxDepth scope method seen section_)
      (SectionRules maxDepth scope method seen section_) (seen.after section_) := by
  cases section_ with
  | headers section_ =>
    have hafter : seen.after (.headers section_) = { seen with
        sawHeaders := true
        headerNames := seen.headerNames ∪
          ((section_.entries.map (·.name.value)).map toAsciiLowercase).toFinset } := by
      simp [SeenInRequest.after, RequestSectionAst.kind, RequestSectionAst.headerNames,
        RequestSectionAst.queryNames]
    have hentries := names_meets (validateHeaderEntry_meets maxDepth scope) seen.headerNames
      section_.entries
    rw [hafter, validateRequestSection]
    refine ((Meets.reportIf _ _).bind fun _ => hentries.map).congr ?_
    simp [SectionRules, SeenInRequest.mem_kinds, RequestSectionAst.kind,
      RequestSectionAst.headerNames, RequestSectionAst.queryNames, RequestSectionAst.bodies,
      RequestSectionAst.values]
  | query section_ =>
    have hafter : seen.after (.query section_) = { seen with
        sawQuery := true
        queryNames := seen.queryNames ∪ (section_.entries.map (·.key.value)).toFinset } := by
      simp [SeenInRequest.after, RequestSectionAst.kind, RequestSectionAst.headerNames,
        RequestSectionAst.queryNames]
    have hentries := validateObjectEntries_meets maxDepth scope .queryParameter section_.entries 0
      seen.queryNames
    rw [hafter, validateRequestSection]
    refine ((Meets.reportIf _ _).bind fun _ => hentries.map).congr ?_
    rw [EntriesRules, Nat.sub_zero, ContentRules.entries_iff]
    simp [SectionRules, SeenInRequest.mem_kinds, RequestSectionAst.kind,
      RequestSectionAst.headerNames, RequestSectionAst.queryNames, RequestSectionAst.bodies,
      RequestSectionAst.values]
  | body section_ =>
    have hafter : seen.after (.body section_) = { seen with sawBody := true } := by
      simp [SeenInRequest.after, RequestSectionAst.kind, RequestSectionAst.headerNames,
        RequestSectionAst.queryNames]
    have hobject : Meets (validateObject maxDepth scope section_.value 0)
        (ValueRules scope maxDepth (.object section_.value)) () :=
      validateObject_meets maxDepth scope section_.value 0
    rw [hafter, validateRequestSection]
    refine ((Meets.reportIf _ _).bind fun _ => (Meets.reportIf _ _).bind fun _ =>
      hobject.map).congr ?_
    rw [Bool.not_eq_false', methodAllowsBody_iff]
    simp [SectionRules, SeenInRequest.mem_kinds, RequestSectionAst.kind,
      RequestSectionAst.headerNames, RequestSectionAst.queryNames, RequestSectionAst.bodies,
      RequestSectionAst.values]

/-- Sections, one after the other. -/
theorem sectionRules_along {method : HttpMethodAst} {seen : SeenInRequest}
    {sections : List RequestSectionAst} :
    Along (SectionRules maxDepth scope method) SeenInRequest.after seen sections ↔
      Fresh seen.kinds (sections.map (·.kind)) ∧
      NewNamesBy toAsciiLowercase seen.headerNames (sections.flatMap (·.headerNames)) ∧
      NewNamesBy id seen.queryNames (sections.flatMap (·.queryNames)) ∧
      (∀ _ ∈ sections.flatMap (·.bodies), method ∈ [.post, .put, .patch]) ∧
      ∀ value ∈ sections.flatMap (·.values), ValueRules scope maxDepth value := by
  induction sections generalizing seen with
  | nil => exact iff_of_true trivial ⟨.nil, .nil, .nil, by simp, by simp⟩
  | cons section_ sections ih =>
    rw [Along, ih, SectionRules, SeenInRequest.kinds_after, List.map_cons, Fresh.cons_iff]
    simp only [List.flatMap_cons, NewNamesBy.append_iff, List.forall_mem_append, List.map_id,
      SeenInRequest.after]
    tauto

/-- **Requests.** -/
theorem validateRequest_meets (request : RequestAst) :
    Meets (validateRequest maxDepth scope request) (RequestRules scope maxDepth request) () := by
  have hsections := Meets.foldM
    (validateRequestSection_meets maxDepth scope request.method.value)
    ⟨false, false, false, ∅, ∅⟩ request.sections
  refine ((Meets.reportIf _ _).bind fun _ =>
    (validateInterpolation_meets scope request.path).bind fun _ => hsections.map).congr ?_
  rw [sectionRules_along, SeenInRequest.kinds]
  simp only [Bool.false_eq_true, if_false, Finset.empty_union, Fresh.empty_iff,
    ← distinctNamesBy_iff]
  refine ⟨?_, ?_⟩
  · rintro ⟨hgiven, hpath, hsections, hheaders, hquery, hbody, hvalues⟩
    exact ⟨by simpa using hgiven, hpath, hsections, hheaders, hquery, hbody, hvalues⟩
  · rintro ⟨hgiven, hpath, hsections, hheaders, hquery, hbody, hvalues⟩
    exact ⟨by simpa using hgiven, hpath, hsections, hheaders, hquery, hbody, hvalues⟩

/-! ## Captures -/

/-- Names that may be captured, each there once and not captured before. -/
def NewCaptures (captures : Finset VariableName) (names : List String) : Prop :=
  (∀ name ∈ names, CaptureRule scope name) ∧ Fresh captures (names.map VariableName.mk)

variable {scope} in
theorem NewCaptures.nil {captures : Finset VariableName} : NewCaptures scope captures [] :=
  ⟨by simp, .nil⟩

variable {scope} in
/-- New captures after others. -/
theorem NewCaptures.append_iff {captures : Finset VariableName} {names more : List String} :
    NewCaptures scope captures (names ++ more) ↔ NewCaptures scope captures names ∧
      NewCaptures scope (captures ∪ (names.map VariableName.mk).toFinset) more := by
  rw [NewCaptures, NewCaptures, NewCaptures, List.forall_mem_append, List.map_append,
    Fresh.append_iff, and_and_and_comm]

variable {scope} in
/-- One new capture. -/
theorem NewCaptures.singleton_iff {captures : Finset VariableName} {name : String} :
    NewCaptures scope captures [name] ↔ CaptureRule scope name ∧ ⟨name⟩ ∉ captures := by
  simp [NewCaptures, Fresh.cons_iff]

/-- A capture is reported if it has no type or is not new. -/
theorem validateCapture_meets (captures : Finset VariableName) (typed : Bool)
    (capture : Spanned String) :
    Meets (validateCapture scope captures typed capture)
      (typed = true ∧ NewCaptures scope captures [capture.value])
      (captures ∪ ([capture.value].map VariableName.mk).toFinset) := by
  have hset : captures ∪ ([capture.value].map VariableName.mk).toFinset =
      insert ⟨capture.value⟩ captures := by
    rw [List.map_singleton, List.toFinset_cons, List.toFinset_nil, Finset.union_insert,
      Finset.union_empty]
  have htyped : (!typed) = false ↔ typed = true := by simp
  rw [hset, NewCaptures.singleton_iff, ← htyped]
  refine (Meets.reportIf _ _).bind fun _ => ?_
  cases h : VariableName.new capture.value with
  | ok variable_ =>
    obtain rfl : variable_ = ⟨capture.value⟩ := by
      rw [← VariableName.new_ok h]
    -- a name that is visible is reported before the names of the same test are looked at
    by_cases hscope : ⟨capture.value⟩ ∈ scope
    · dsimp only
      rw [if_pos hscope]
      refine ⟨iff_of_false (by simp) ?_, ?_⟩
      · rintro ⟨⟨variable_, hok, hnot⟩, -⟩
        rw [h] at hok
        obtain rfl := Except.ok.inj hok
        exact hnot hscope
      · rintro ⟨⟨variable_, hok, hnot⟩, -⟩
        rw [h] at hok
        obtain rfl := Except.ok.inj hok
        exact absurd hscope hnot
    · dsimp only
      rw [if_neg hscope]
      refine (Meets.reportIf _ _).map.congr ?_
      simp [CaptureRule, h, hscope]
  | error e =>
    have hnot : ¬ CaptureRule scope capture.value := by simp [CaptureRule, h]
    exact ⟨iff_of_false (by simp) (hnot ·.1), fun hrule => absurd hrule.1 hnot⟩

/-! ## Assertions -/

/-- The rules of some fields, the assertions around them apart: the names used in them, the
fields themselves, their captures, and how deep their containers are nested. -/
structure FieldsRules (limit : Nat) (captures : Finset VariableName)
    (nameLists : List (List String)) (fields : List FieldAssertionAst) (height : Nat) : Prop where
  names : ∀ names ∈ nameLists, DistinctNames names
  each : ∀ field ∈ fields, FieldRules scope field
  new : NewCaptures scope captures (capturesOfFields fields)
  nesting : height ≤ limit

namespace FieldsRules

variable {scope} {limit height height' : Nat} {captures : Finset VariableName}
  {nameLists nameLists' : List (List String)} {fields fields' : List FieldAssertionAst}

theorem nil : FieldsRules scope limit captures [] [] 0 :=
  ⟨by simp, by simp, .nil, Nat.zero_le _⟩

/-- The rules of fields after other fields. -/
theorem append_iff :
    FieldsRules scope limit captures (nameLists ++ nameLists') (fields ++ fields')
        (max height height') ↔
      FieldsRules scope limit captures nameLists fields height ∧
        FieldsRules scope limit (capturedAfter captures fields) nameLists' fields' height' := by
  have hcaptures : capturesOfFields (fields ++ fields') =
      capturesOfFields fields ++ capturesOfFields fields' := List.flatMap_append
  refine ⟨?_, ?_⟩
  · rintro ⟨hnames, hfields, hnew, hheight⟩
    rw [List.forall_mem_append] at hnames hfields
    rw [hcaptures, NewCaptures.append_iff] at hnew
    rw [max_le_iff] at hheight
    exact ⟨⟨hnames.1, hfields.1, hnew.1, hheight.1⟩, ⟨hnames.2, hfields.2, hnew.2, hheight.2⟩⟩
  · rintro ⟨⟨hnames, hfields, hnew, hheight⟩, ⟨hnames', hfields', hnew', hheight'⟩⟩
    refine ⟨List.forall_mem_append.mpr ⟨hnames, hnames'⟩,
      List.forall_mem_append.mpr ⟨hfields, hfields'⟩, ?_, max_le hheight hheight'⟩
    rw [hcaptures, NewCaptures.append_iff]
    exact ⟨hnew, hnew'⟩

/-- The rules of one field and its capture. -/
theorem field_iff {field : FieldAssertionAst} :
    FieldsRules scope limit captures [] [field] height ↔ FieldRules scope field ∧
      NewCaptures scope captures (field.capture.map (·.value)).toList ∧ height ≤ limit := by
  have hcaptures : capturesOfFields [field] = (field.capture.map (·.value)).toList := by
    simp [capturesOfFields]
  refine ⟨?_, ?_⟩
  · rintro ⟨-, heach, hnew, hheight⟩
    exact ⟨heach field (by simp), hcaptures ▸ hnew, hheight⟩
  · rintro ⟨hfield, hnew, hheight⟩
    exact ⟨by simp, by simpa using hfield, hcaptures ▸ hnew, hheight⟩

/-- An assertion is one level, and its names are one list. -/
theorem assertion_iff {maxDepth depth : Nat} {names : List String} :
    FieldsRules scope (maxDepth - depth) captures (names :: nameLists) fields (height + 1) ↔
      depth < maxDepth ∧ DistinctNames names ∧
        FieldsRules scope (maxDepth - (depth + 1)) captures nameLists fields height := by
  refine ⟨?_, ?_⟩
  · rintro ⟨hnames, hfields, hnew, hheight⟩
    rw [List.forall_mem_cons] at hnames
    exact ⟨by omega, hnames.1, hnames.2, hfields, hnew, by omega⟩
  · rintro ⟨hdepth, hdistinct, hnames, hfields, hnew, hheight⟩
    exact ⟨List.forall_mem_cons.mpr ⟨hdistinct, hnames⟩, hfields, hnew, by omega⟩

end FieldsRules

/-- The value of a field is reported exactly if it breaks a rule. -/
theorem validateExpectedValue_meets (expectedValue : Option ValueAst) (depth : Nat) :
    Meets (validateExpectedValue maxDepth scope expectedValue depth)
      ((∀ value ∈ expectedValue, ∀ text ∈ value.texts, TextRule scope text) ∧
        (∀ value ∈ expectedValue, ∀ keys ∈ value.keyLists, DistinctNames keys) ∧
        expectedValue.elim 0 ValueAst.height ≤ maxDepth - depth) () := by
  cases expectedValue with
  | none => exact (Meets.pure ()).congr (by simp)
  | some value =>
    refine (validateValue_meets maxDepth scope value depth).congr ?_
    refine ⟨?_, ?_⟩
    · rintro ⟨htexts, hkeys, hheight⟩
      simpa using ⟨htexts, hkeys, hheight⟩
    · rintro ⟨htexts, hkeys, hheight⟩
      exact ⟨htexts value rfl, hkeys value rfl, hheight⟩

/-- The capture of a field is reported exactly if it breaks a rule. -/
theorem validateFieldCapture_meets (captures : Finset VariableName) (typed : Bool)
    (capture : Option (Spanned String)) :
    Meets (match capture with
        | some capture => validateCapture scope captures typed capture
        | none => pure captures)
      ((capture.isSome → typed = true) ∧
        NewCaptures scope captures (capture.map (·.value)).toList)
      (captures ∪ ((capture.map (·.value)).toList.map VariableName.mk).toFinset) := by
  cases capture with
  | none =>
    rw [Option.map_none, Option.toList_none, List.map_nil, List.toFinset_nil, Finset.union_empty]
    exact (Meets.pure captures).congr (iff_of_true trivial ⟨nofun, .nil⟩)
  | some capture =>
    exact (validateCapture_meets scope captures typed capture).congr (by simp)

mutual

/-- **Assertions.** -/
theorem validateAssertion_meets : (assertion : ObjectAssertionAst) →
    (captures : Finset VariableName) → (depth : Nat) →
    Meets (validateAssertion maxDepth scope assertion captures depth)
      (FieldsRules scope (maxDepth - depth) captures assertion.nameLists assertion.allFields
        assertion.height) (capturedAfter captures assertion.allFields)
  | ⟨mode, fields, span⟩, captures, depth => by
    rw [validateAssertion, ObjectAssertionAst.nameLists, ObjectAssertionAst.allFields,
      ObjectAssertionAst.height, FieldsRules.assertion_iff, DistinctNames, distinctNamesBy_iff]
    exact nested_meets (validateFields_meets fields captures (depth + 1) ∅)

/-- **Fields** are reported exactly if they break a rule. -/
theorem validateFields_meets : (fields : List FieldAssertionAst) →
    (captures : Finset VariableName) → (depth : Nat) → (names : Finset String) →
    Meets (validateFields maxDepth scope fields captures depth names)
      (NewNamesBy id names (fields.map (·.name.value)) ∧
        FieldsRules scope (maxDepth - depth) captures (nameListsOfFields fields)
          (allFieldsOf fields) (heightOfFields fields))
      (capturedAfter captures (allFieldsOf fields))
  | [], captures, depth, names => by
    rw [validateFields, allFieldsOf, capturedAfter_nil]
    exact (Meets.pure captures).congr (iff_of_true trivial ⟨.nil, .nil⟩)
  | field :: fields, captures, depth, names => by
    rw [validateFields, allFieldsOf, capturedAfter_append]
    refine ((validateNameBy_meets id _ names field.name).bind fun _ =>
      (validateField_meets field captures depth).bind fun _ =>
        validateFields_meets fields _ depth _).congr ?_
    rw [List.map_cons, NewNamesBy.cons_iff, nameListsOfFields, heightOfFields,
      FieldsRules.append_iff]
    dsimp only [id]
    tauto

/-- A field is reported exactly if it breaks a rule. -/
theorem validateField_meets : (field : FieldAssertionAst) →
    (captures : Finset VariableName) → (depth : Nat) →
    Meets (validateField maxDepth scope field captures depth)
      (FieldsRules scope (maxDepth - depth) captures field.nameLists field.allFields field.height)
      (capturedAfter captures field.allFields)
  | ⟨name, expectedType, expectedValue, nested, capture, span⟩, captures, depth => by
    rw [validateField, FieldAssertionAst.allFields, capturedAfter_append, capturedAfter_field]
    refine ((Meets.reportIf _ _).bind fun _ =>
      (validateComparison_meets name.value expectedType expectedValue).bind fun _ =>
      (validateExpectedValue_meets maxDepth scope expectedValue depth).bind fun _ =>
      (validateNested_meets name.value (expectedType.map (·.value)) nested captures depth).bind
        fun _ => validateFieldCapture_meets scope _ expectedType.isSome capture).congr ?_
    rw [← List.append_nil (FieldAssertionAst.nameLists _), FieldAssertionAst.nameLists,
      FieldAssertionAst.height, Nat.max_comm, FieldsRules.append_iff, FieldsRules.field_iff]
    refine ⟨?_, ?_⟩
    · rintro ⟨hgiven, haccepts, ⟨htexts, hkeys, hvalue⟩, ⟨hshape, hnested⟩, htyped, hnew⟩
      exact ⟨hnested, ⟨given_iff.mp hgiven, haccepts, htexts, hkeys, hshape, htyped⟩, hnew, hvalue⟩
    · rintro ⟨hnested, ⟨hgiven, haccepts, htexts, hkeys, hshape, htyped⟩, hnew, hvalue⟩
      exact ⟨given_iff.mpr hgiven, haccepts, ⟨htexts, hkeys, hvalue⟩, ⟨hshape, hnested⟩, htyped, hnew⟩

/-- Nested fields are reported exactly if they break a rule. -/
theorem validateNested_meets (field : String) (expectedType : Option AssertionTypeAst) :
    (nested : Option ObjectAssertionAst) → (captures : Finset VariableName) → (depth : Nat) →
    Meets (validateNested maxDepth scope field expectedType nested captures depth)
      ((∀ assertion ∈ nested, expectedType = some .object ∧ assertion.mode = .partially) ∧
        FieldsRules scope (maxDepth - depth) captures (nameListsOfNested nested)
          (nestedFields nested) (heightOfNested nested))
      (capturedAfter captures (nestedFields nested))
  | none, captures, depth => by
    rw [validateNested, nestedFields, capturedAfter_nil]
    exact (Meets.pure captures).congr (iff_of_true trivial ⟨by simp, .nil⟩)
  | some assertion, captures, depth => by
    rw [validateNested]
    refine ((Meets.reportIf _ _).bind fun _ => (Meets.reportIf _ _).bind fun _ =>
      validateAssertion_meets assertion captures depth).congr ?_
    simp [and_assoc, nameListsOfNested, nestedFields, heightOfNested]

end

/-! ## Expectations -/

/-- The rules of an object assertion are those of its fields, and new captures. -/
theorem fieldsRules_iff {limit : Nat} {captures : Finset VariableName}
    {assertion : ObjectAssertionAst} :
    FieldsRules scope limit captures assertion.nameLists assertion.allFields assertion.height ↔
      AssertionRules scope limit assertion ∧ NewCaptures scope captures assertion.captures :=
  ⟨fun h => ⟨⟨h.names, h.each, h.nesting⟩, h.new⟩,
    fun h => ⟨h.1.names, h.1.fields, h.2, h.1.nesting⟩⟩

/-- What a section must satisfy after what has been seen. -/
def ExpectationSectionRules (seen : SeenInExpectation) (section_ : ExpectationSectionAst) : Prop :=
  section_.kind ∉ seen.kinds ∧
    (∀ status ∈ section_.statuses, 100 ≤ status ∧ status ≤ 599) ∧
    NewNamesBy toAsciiLowercase seen.headerNames section_.headerNames ∧
    (∀ text ∈ section_.texts, TextRule scope text) ∧
    (∀ assertion ∈ section_.assertions, AssertionRules scope maxDepth assertion) ∧
    NewCaptures scope seen.captures section_.captures

/-- A header assertion is reported exactly if it breaks a rule. -/
theorem validateResponseHeader_meets (names : Finset String) (entry : ResponseHeaderAssertionAst) :
    Meets (validateResponseHeader scope names entry)
      ((entry.name.value ≠ "" ∧ toAsciiLowercase entry.name.value ∉ names) ∧
        ∀ text ∈ entry.expected, TextRule scope text)
      (insert (toAsciiLowercase entry.name.value) names) := by
  cases entry with
  | exists_ name typeSpan span =>
    refine (validateNameBy_meets toAsciiLowercase _ names name).congr ?_
    simp [ResponseHeaderAssertionAst.name, ResponseHeaderAssertionAst.expected]
  | exact name expected span =>
    refine ((validateNameBy_meets toAsciiLowercase _ names name).bind fun _ =>
      (validateInterpolation_meets scope expected).map).congr ?_
    simp [ResponseHeaderAssertionAst.name, ResponseHeaderAssertionAst.expected]
  | contains name expected span =>
    refine ((validateNameBy_meets toAsciiLowercase _ names name).bind fun _ =>
      (validateInterpolation_meets scope expected).map).congr ?_
    simp [ResponseHeaderAssertionAst.name, ResponseHeaderAssertionAst.expected]

/-- A body assertion is reported exactly if it breaks a rule. -/
theorem validateBody_meets (captures : Finset VariableName) (body : BodyAssertionAst) :
    Meets (validateBody maxDepth scope captures body)
      ((∀ text ∈ body.expected, TextRule scope text) ∧
        (∀ assertion ∈ body.assertions, AssertionRules scope maxDepth assertion) ∧
        NewCaptures scope captures (body.assertions.flatMap (·.captures)))
      (captures ∪ ((body.assertions.flatMap (·.captures)).map VariableName.mk).toFinset) := by
  cases body with
  | empty span =>
    rw [BodyAssertionAst.assertions, List.flatMap_nil, List.map_nil, List.toFinset_nil,
      Finset.union_empty]
    exact (Meets.pure captures).congr (iff_of_true trivial ⟨nofun, nofun, .nil⟩)
  | textExact expected span =>
    rw [BodyAssertionAst.assertions, List.flatMap_nil, List.map_nil, List.toFinset_nil,
      Finset.union_empty]
    refine (validateInterpolation_meets scope expected).map.congr ?_
    simp [BodyAssertionAst.expected, NewCaptures.nil]
  | textContains expected span =>
    rw [BodyAssertionAst.assertions, List.flatMap_nil, List.map_nil, List.toFinset_nil,
      Finset.union_empty]
    refine (validateInterpolation_meets scope expected).map.congr ?_
    simp [BodyAssertionAst.expected, NewCaptures.nil]
  | object assertion =>
    rw [BodyAssertionAst.assertions, List.flatMap_singleton]
    refine (validateAssertion_meets maxDepth scope assertion captures 0).congr ?_
    rw [Nat.sub_zero, fieldsRules_iff]
    simp [BodyAssertionAst.expected]

/-- A section of an expectation. -/
theorem validateExpectationSection_meets (seen : SeenInExpectation)
    (section_ : ExpectationSectionAst) :
    Meets (validateExpectationSection maxDepth scope seen section_)
      (ExpectationSectionRules maxDepth scope seen section_) (seen.after section_) := by
  cases section_ with
  | status assertion =>
    have hafter : seen.after (.status assertion) = { seen with sawStatus := true } := by
      simp [SeenInExpectation.after, ExpectationSectionAst.kind, ExpectationSectionAst.headerNames,
        ExpectationSectionAst.captures, ExpectationSectionAst.assertions]
    rw [hafter, validateExpectationSection]
    refine ((Meets.reportIf _ _).bind fun _ => (Meets.reportIf _ _).map).congr ?_
    simp [ExpectationSectionRules, SeenInExpectation.mem_kinds, ExpectationSectionAst.kind,
      ExpectationSectionAst.statuses, ExpectationSectionAst.headerNames,
      ExpectationSectionAst.texts, ExpectationSectionAst.assertions,
      ExpectationSectionAst.captures, NewCaptures.nil]
  | headers assertions =>
    have hafter : seen.after (.headers assertions) = { seen with
        sawHeaders := true
        headerNames := seen.headerNames ∪
          ((assertions.entries.map (·.name.value)).map toAsciiLowercase).toFinset } := by
      simp [SeenInExpectation.after, ExpectationSectionAst.kind, ExpectationSectionAst.headerNames,
        ExpectationSectionAst.captures, ExpectationSectionAst.assertions]
    have hentries := names_meets (validateResponseHeader_meets scope) seen.headerNames
      assertions.entries
    rw [hafter, validateExpectationSection]
    refine ((Meets.reportIf _ _).bind fun _ => hentries.map).congr ?_
    rw [← List.forall_mem_flatMap]
    simp [ExpectationSectionRules, SeenInExpectation.mem_kinds, ExpectationSectionAst.kind,
      ExpectationSectionAst.statuses, ExpectationSectionAst.headerNames,
      ExpectationSectionAst.texts, ExpectationSectionAst.assertions,
      ExpectationSectionAst.captures, NewCaptures.nil]
  | body assertion =>
    have hafter : seen.after (.body assertion) = { seen with
        sawBody := true
        captures := seen.captures ∪
          ((assertion.assertions.flatMap (·.captures)).map VariableName.mk).toFinset } := by
      simp [SeenInExpectation.after, ExpectationSectionAst.kind, ExpectationSectionAst.headerNames,
        ExpectationSectionAst.captures, ExpectationSectionAst.assertions]
    rw [hafter, validateExpectationSection]
    refine ((Meets.reportIf _ _).bind fun _ =>
      (validateBody_meets maxDepth scope seen.captures assertion).map).congr ?_
    simp [ExpectationSectionRules, SeenInExpectation.mem_kinds, ExpectationSectionAst.kind,
      ExpectationSectionAst.statuses, ExpectationSectionAst.headerNames,
      ExpectationSectionAst.texts, ExpectationSectionAst.assertions,
      ExpectationSectionAst.captures]

/-- Sections, one after the other. -/
theorem expectationSectionRules_along {seen : SeenInExpectation}
    {sections : List ExpectationSectionAst} :
    Along (ExpectationSectionRules maxDepth scope) SeenInExpectation.after seen sections ↔
      Fresh seen.kinds (sections.map (·.kind)) ∧
      (∀ status ∈ sections.flatMap (·.statuses), 100 ≤ status ∧ status ≤ 599) ∧
      NewNamesBy toAsciiLowercase seen.headerNames (sections.flatMap (·.headerNames)) ∧
      (∀ text ∈ sections.flatMap (·.texts), TextRule scope text) ∧
      (∀ assertion ∈ sections.flatMap (·.assertions), AssertionRules scope maxDepth assertion) ∧
      NewCaptures scope seen.captures (sections.flatMap (·.captures)) := by
  induction sections generalizing seen with
  | nil => exact iff_of_true trivial ⟨.nil, by simp, .nil, by simp, by simp, .nil⟩
  | cons section_ sections ih =>
    rw [Along, ih, ExpectationSectionRules, SeenInExpectation.kinds_after, List.map_cons,
      Fresh.cons_iff]
    simp only [List.flatMap_cons, NewNamesBy.append_iff, NewCaptures.append_iff,
      List.forall_mem_append, SeenInExpectation.after]
    tauto

/-- **Expectations.** -/
theorem validateExpectation_meets (expectation : ExpectationAst) :
    Meets (validateExpectation maxDepth scope ∅ expectation)
      (ExpectationRules scope maxDepth expectation)
      (expectation.captures.map VariableName.mk).toFinset := by
  have hsections := Meets.foldM (validateExpectationSection_meets maxDepth scope)
    ⟨false, false, false, ∅, ∅⟩ expectation.sections
  have hcaptures := captures_after ⟨false, false, false, ∅, ∅⟩ expectation.sections
  rw [Finset.empty_union] at hcaptures
  rw [ExpectationAst.captures, ← hcaptures]
  refine hsections.map.congr ?_
  rw [expectationSectionRules_along, SeenInExpectation.kinds, NewCaptures]
  simp only [Bool.false_eq_true, if_false, Finset.empty_union, Fresh.empty_iff,
    ← distinctNamesBy_iff, List.nodup_map_iff (fun _ _ => VariableName.mk.inj)]
  refine ⟨?_, ?_⟩
  · rintro ⟨hsections, hstatus, hheaders, htexts, hassertions, hcaptures, hdistinct⟩
    exact ⟨hsections, hstatus, hheaders, htexts, hassertions, hcaptures, hdistinct⟩
  · rintro ⟨hsections, hstatus, hheaders, htexts, hassertions, hcaptures, hdistinct⟩
    exact ⟨hsections, hstatus, hheaders, htexts, hassertions, hcaptures, hdistinct⟩

/-! ## Tests -/

/-- All tests of a block, each after the captures of those before it. -/
def TestsRules (tests : List TestAst) : Prop :=
  ∀ i (h : i < tests.length), TestRules (scope ∪ capturedBy (tests.take i)) maxDepth tests[i]

/-- **Tests.** -/
theorem validateTest_meets (test : TestAst) :
    Meets (validateTest maxDepth scope test) (TestRules scope maxDepth test)
      (scope ∪ capturedBy [test]) := by
  have hexpectations (h : test.expectations.length ≤ 1) :
      Meets (Checked.foldM (validateExpectation maxDepth scope) ∅ test.expectations)
        (∀ expectation ∈ test.expectations, ExpectationRules scope maxDepth expectation)
        (test.captures.map VariableName.mk).toFinset := by
    rw [TestAst.captures]
    match hlist : test.expectations with
    | [] => exact (Meets.pure ∅).congr (by simp)
    | [expectation] =>
      rw [List.flatMap_singleton]
      exact (validateExpectation_meets maxDepth scope expectation).map.congr (by simp)
    | _ :: _ :: _ =>
      rw [hlist] at h
      simp at h
  have hcaptured : capturedBy [test] = (test.captures.map VariableName.mk).toFinset := by
    rw [capturedBy, List.flatMap_singleton]
  rw [hcaptured]
  refine ((Meets.reportIf _ _).bind fun _ => (Meets.reportIf _ _).bind fun _ =>
    (noSecond_meets _ test.requests).bind fun _ => (Meets.reportIf _ _).bind fun _ =>
    (noSecond_meets _ test.expectations).bind fun h =>
    (Meets.forEach (validateRequest_meets maxDepth scope) test.requests).bind fun _ =>
    (hexpectations h).map).congr ?_
  simp only [String.isEmpty_eq_false_iff, bne_eq_false_iff_eq, List.length_eq_one_iff]
  refine ⟨?_, ?_⟩
  · rintro ⟨hnamed, ⟨request, hrequest⟩, -, ⟨expectation, hexpectation⟩, -, hrequests, hall⟩
    rw [hrequest, List.forall_mem_singleton] at hrequests
    rw [hexpectation, List.forall_mem_singleton] at hall
    exact ⟨hnamed, ⟨request, hrequest, hrequests⟩, ⟨expectation, hexpectation, hall⟩⟩
  · rintro ⟨hnamed, ⟨request, hrequest, hrequests⟩, ⟨expectation, hexpectation, hall⟩⟩
    simp [hnamed, hrequest, hrequests, hexpectation, hall]

/-- **Blocks.** The scope of a test is what the tests before it have left. -/
theorem validateTests_meets (tests : List TestAst) :
    Meets (validateTests maxDepth scope tests) (TestsRules maxDepth scope tests)
      (scope ∪ capturedBy tests) := by
  have hloop := Meets.foldM (validateTest_meets maxDepth) scope tests
  rw [scope_after, Along.iff_forall] at hloop
  refine hloop.congr ?_
  simp only [scope_after]
  rfl

/-! ## Suites -/

/-- The rules of one test. -/
theorem testsRules_singleton {test : TestAst} :
    TestsRules maxDepth scope [test] ↔ TestRules scope maxDepth test := by
  refine ⟨?_, ?_⟩
  · intro h
    simpa [capturedBy] using h 0 (by simp)
  · intro h i hi
    obtain rfl : i = 0 := by simpa using hi
    simpa [capturedBy] using h

/-- What is checked in a block, the first core apart. -/
def BlockRules (globalWithCore : Finset VariableName) (firstCore : Option Nat)
    (block : BlockAst × Nat) : Prop :=
  match block with
  | (.core core, index) => firstCore ≠ some index → TestsRules maxDepth scope core.tests
  | (.pipeline pipeline, _) =>
    (pipeline.name.value ≠ "" ∧ pipeline.tests ≠ []) ∧
      TestsRules maxDepth globalWithCore pipeline.tests
  | (.test test, _) => TestsRules maxDepth globalWithCore [test]

/-- A block is reported exactly if it breaks a rule. -/
theorem validateBlock_meets (globalWithCore : Finset VariableName) (firstCore : Option Nat)
    (block : BlockAst × Nat) :
    Meets (validateBlock maxDepth scope globalWithCore firstCore block)
      (BlockRules maxDepth scope globalWithCore firstCore block) () := by
  obtain ⟨block, index⟩ := block
  cases block with
  | core core =>
    refine .ite (fun h => ?_) fun h => (Meets.pure ()).congr (iff_of_true trivial (absurd · h))
    refine (validateTests_meets maxDepth scope core.tests).map.congr ?_
    simp [BlockRules, h]
  | pipeline pipeline =>
    refine ((Meets.reportIf _ _).bind fun _ => (Meets.reportIf _ _).bind fun _ =>
      (validateTests_meets maxDepth globalWithCore pipeline.tests).map).congr ?_
    simp [BlockRules, and_assoc]
  | test t =>
    refine (validateTest_meets maxDepth globalWithCore t).map.congr ?_
    rw [BlockRules, testsRules_singleton]

/-- The rules of a suite, with what the validator looks at together. -/
theorem suiteRules_iff (context : ValidationContext) (ast : SuiteAst) (firstCore : Option Nat) :
    SuiteRules context ast ↔ (ast.blocks.filter BlockAst.isCore).length ≤ 1 ∧
      TestsRules context.maxDepth context.predefinedVariables ast.coreTests ∧
      ∀ block ∈ ast.blocks.zipIdx, BlockRules context.maxDepth context.predefinedVariables
        (context.predefinedVariables ∪ capturedBy ast.coreTests) firstCore block := by
  have hvisible (block : BlockAst) : (∀ i (h : i < block.tests.length),
      TestRules (visible context ast block (block.tests.take i)) context.maxDepth block.tests[i]) ↔
      TestsRules context.maxDepth (context.predefinedVariables ∪
        if block.isCore then ∅ else capturedBy ast.coreTests) block.tests := Iff.rfl
  refine ⟨?_, ?_⟩
  · rintro ⟨hcore, hpipelines, htests⟩
    have hblock (block : BlockAst) (hmem : block ∈ ast.blocks) :=
      (hvisible block).mp (htests block hmem)
    refine ⟨hcore, ?_, ?_⟩
    · rw [SuiteAst.coreTests]
      -- the tests of the core are those of the only core block
      rcases onlyCore hcore with hnone | ⟨core, hone, hmem⟩
      · rw [hnone]
        exact fun i hi => absurd hi (Nat.not_lt_zero i)
      · rw [hone, List.flatMap_singleton, ← Finset.union_empty context.predefinedVariables]
        exact hblock _ hmem
    · rintro ⟨block, index⟩ hmem
      have hrules := hblock block (List.fst_mem_of_mem_zipIdx hmem)
      cases block with
      | core core =>
        rw [show (BlockAst.core core).isCore = true from rfl, if_pos rfl,
          Finset.union_empty] at hrules
        exact fun _ => hrules
      | pipeline pipeline =>
        exact ⟨hpipelines pipeline (List.fst_mem_of_mem_zipIdx hmem), hrules⟩
      | test t => exact hrules
  · rintro ⟨hcore, hcoreTests, hblocks⟩
    have hblock (block : BlockAst) (hmem : block ∈ ast.blocks) : ∃ index,
        BlockRules context.maxDepth context.predefinedVariables
          (context.predefinedVariables ∪ capturedBy ast.coreTests) firstCore (block, index) := by
      obtain ⟨index, hindex⟩ := List.mem_iff_getElem?.mp hmem
      exact ⟨index, hblocks _ (List.mk_mem_zipIdx_iff_getElem?.mpr hindex)⟩
    refine ⟨hcore, fun pipeline hmem => (hblock _ hmem).choose_spec.1, fun block hmem => ?_⟩
    rw [hvisible]
    cases block with
    | core core =>
      have hfilter : BlockAst.core core ∈ ast.blocks.filter BlockAst.isCore :=
        List.mem_filter.mpr ⟨hmem, rfl⟩
      rw [show (BlockAst.core core).isCore = true from rfl, if_pos rfl, Finset.union_empty]
      rcases onlyCore hcore with hnone | ⟨only, hone, -⟩
      · simp [hnone] at hfilter
      · rw [hone, List.mem_singleton] at hfilter
        rwa [SuiteAst.coreTests, hone, List.flatMap_singleton, ← hfilter] at hcoreTests
    | pipeline pipeline => exact (hblock _ hmem).choose_spec.2
    | test t => exact (hblock _ hmem).choose_spec

/-- **Suites.** -/
theorem validateSuite_meets (context : ValidationContext) (ast : SuiteAst) :
    Meets (validateSuite context ast) (SuiteRules context ast) () := by
  refine ((findCore_meets ast.blocks).bind fun h => ?_).congr
    (suiteRules_iff context ast (ast.blocks.findIdx? BlockAst.isCore)).symm
  rw [coreTests_eq h]
  exact (validateTests_meets _ _ _).bind fun _ => .forEach (validateBlock_meets _ _ _ _) _

end Validator

/-- **The validator accepts exactly the suites that satisfy the rules.** -/
theorem validate_eq_nil_iff (context : ValidationContext) (ast : SuiteAst) :
    validate ast context = [] ↔ SuiteRules context ast :=
  (Validator.validateSuite_meets context ast).clean

end Rettp
