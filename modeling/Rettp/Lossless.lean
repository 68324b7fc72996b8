import Rettp.Converter
import Rettp.ValidatorSpec

/-!
# Conversion keeps everything

What a syntax tree stands for, without maps (`SuiteAst.toSuite`): every entry of the tree, in
its order. A tree that satisfies the rules of validation is converted to just that
(`convertSuite_eq`), also by an insertion that refuses to overwrite. From it the tree without
spans can be restored, up to the order of sections, empty sections and inferred types
(`Restore.restore_toSuite`).
-/

namespace Rettp

/-! ## What a tree stands for -/

mutual

/-- A literal as it is converted. -/
def ValueAst.toValue : ValueAst → Value
  | .string value => .string ⟨value.value⟩
  | .integer value => .integer value.value
  | .number value => .number value.value
  | .boolean value => .boolean value.value
  | .null _ => .null
  | .array ⟨items, _⟩ => .array (itemsToValues items)
  | .object object => .object object.toEntries

/-- The items of an array as they are converted. -/
def itemsToValues : List ValueAst → List Value
  | [] => []
  | item :: items => item.toValue :: itemsToValues items

/-- The entries of an object as they are converted. -/
def ObjectValueAst.toEntries : ObjectValueAst → List (String × Value)
  | ⟨entries, _⟩ => entriesToValues entries

/-- Entries, each under its key. -/
def entriesToValues : List ObjectValueEntryAst → List (String × Value)
  | [] => []
  | ⟨key, value, _⟩ :: entries => (key.value, value.toValue) :: entriesToValues entries

end

mutual

/-- An object assertion as it is converted. -/
def ObjectAssertionAst.toAssertion : ObjectAssertionAst → ObjectAssertion
  | ⟨mode, fields, _⟩ => ⟨Converter.convertMatchMode mode, fieldsToEntries fields⟩

/-- Fields, each under its name. -/
def fieldsToEntries : List FieldAssertionAst → List (String × FieldAssertion)
  | [] => []
  | field :: fields => (field.name.value, field.toField) :: fieldsToEntries fields

/-- A field as it is converted. -/
def FieldAssertionAst.toField : FieldAssertionAst → FieldAssertion
  | ⟨name, expectedType, expectedValue, nested, capture, _⟩ =>
    ⟨name.value, (Converter.convertFieldType expectedType expectedValue nested).getD .null,
      expectedValue.map ValueAst.toValue, nestedToAssertion nested,
      capture.map fun capture => ⟨⟨capture.value⟩⟩⟩

/-- Nested fields as they are converted. -/
def nestedToAssertion : Option ObjectAssertionAst → Option ObjectAssertion
  | none => none
  | some nested => some nested.toAssertion

end

/-- A request header as it is converted. -/
def HeaderValueEntryAst.toEntry (entry : HeaderValueEntryAst) : String × Value :=
  (entry.name.value, entry.value.toValue)

namespace RequestSectionAst

/-- The headers that a section adds. -/
def toHeaders : RequestSectionAst → List (String × Value)
  | .headers section_ => section_.entries.map HeaderValueEntryAst.toEntry
  | _ => []

/-- The query parameters that a section adds. -/
def toQuery : RequestSectionAst → List (String × Value)
  | .query section_ => entriesToValues section_.entries
  | _ => []

/-- The bodies that a section adds. -/
def toBodies : RequestSectionAst → List RequestBody
  | .body section_ => [.json (.object section_.value.toEntries)]
  | _ => []

end RequestSectionAst

/-- A request with more sections. -/
def HttpRequestSpec.addSections (spec : HttpRequestSpec) (sections : List RequestSectionAst) :
    HttpRequestSpec :=
  { spec with
    headers := spec.headers ++ sections.flatMap (·.toHeaders)
    query := spec.query ++ sections.flatMap (·.toQuery)
    body := (sections.flatMap (·.toBodies)).getLast?.or spec.body }

/-- A request as it is converted: all that its sections add. -/
def RequestAst.toSpec (request : RequestAst) : HttpRequestSpec :=
  (HttpRequestSpec.new (Converter.convertMethod request.method.value)
    ⟨request.path.value⟩).addSections request.sections

/-- A header assertion as it is converted. -/
def ResponseHeaderAssertionAst.toEntry : ResponseHeaderAssertionAst → String × HeaderAssertion
  | .exists_ name _ _ => (name.value, .exists_)
  | .exact name expected _ => (name.value, .exact ⟨expected.value⟩)
  | .contains name expected _ => (name.value, .contains ⟨expected.value⟩)

/-- A body assertion as it is converted. -/
def BodyAssertionAst.toAssertion : BodyAssertionAst → BodyAssertion
  | .empty _ => .empty
  | .textExact expected _ => .text (.exact ⟨expected.value⟩)
  | .textContains expected _ => .text (.contains ⟨expected.value⟩)
  | .object assertion => .json assertion.toAssertion

namespace ExpectationSectionAst

/-- The header assertions that a section adds. -/
def toHeaders : ExpectationSectionAst → List (String × HeaderAssertion)
  | .headers assertions => assertions.entries.map ResponseHeaderAssertionAst.toEntry
  | _ => []

/-- The body assertions that a section adds. -/
def toBodies : ExpectationSectionAst → List BodyAssertion
  | .body assertion => [assertion.toAssertion]
  | _ => []

end ExpectationSectionAst

/-- An expectation with more sections. -/
def ResponseExpectation.addSections (expectation : ResponseExpectation)
    (sections : List ExpectationSectionAst) : ResponseExpectation where
  status := ((sections.flatMap (·.statuses)).map Int.toNat).getLast?.or expectation.status
  headers := expectation.headers ++ sections.flatMap (·.toHeaders)
  body := (sections.flatMap (·.toBodies)).getLast?.or expectation.body

/-- An expectation as it is converted: all that its sections add. -/
def ExpectationAst.toExpectation (expectation : ExpectationAst) : ResponseExpectation :=
  ResponseExpectation.addSections ⟨none, [], none⟩ expectation.sections

/-- A test that has a request and an expectation; any other one stands for nothing sensible. -/
def TestAst.toCase (test : TestAst) : TestCase :=
  match test.requests, test.expectations with
  | request :: _, expectation :: _ =>
    ⟨test.name.value, request.toSpec, expectation.toExpectation⟩
  | _, _ => ⟨test.name.value, .new .get ⟨""⟩, ⟨none, [], none⟩⟩

/-- A block as it is converted. -/
def BlockAst.toBlock : BlockAst → SuiteBlock
  | .core block => .core (block.tests.map TestAst.toCase)
  | .pipeline block => .pipeline block.name.value (block.tests.map TestAst.toCase)
  | .test t => .test t.toCase

/-- A suite as it is converted. -/
def SuiteAst.toSuite (ast : SuiteAst) : TestSuite := ⟨none, ast.blocks.map BlockAst.toBlock⟩

/-! ## Conversion without loss -/

namespace Converter

/-- A new key is appended, whatever is done about old ones. -/
theorem put_new {α : Type} {insertion : Insertion} {map : IndexMap String α} {key : String}
    (h : key ∉ map.keys) (value : α) : put insertion map key value = some (map ++ [(key, value)]) := by
  cases insertion with
  | overwriting => rw [put, IndexMap.insert_of_not_mem h]
  | refusing => rw [put, if_neg h, IndexMap.insert_of_not_mem h]

/-- New keys, one after the other. -/
theorem nodup_keys_cons {α : Type} {map : IndexMap String α} {key : String} {keys : List String}
    (h : (map.keys ++ key :: keys).Nodup) (value : α) :
    key ∉ map.keys ∧ (IndexMap.keys (map ++ [(key, value)]) ++ keys).Nodup := by
  refine ⟨fun hmem => (List.nodup_append.mp h).2.2 key hmem key (by simp) rfl, ?_⟩
  simpa [List.append_assoc] using h

/-- A loop that puts entries under new keys appends them. -/
theorem foldlM_put {α β : Type} {f : IndexMap String β → α → Option (IndexMap String β)}
    {name : α → String} {entry : α → String × β} {as : List α} {map : IndexMap String β}
    (hf : ∀ map, ∀ a ∈ as, name a ∉ IndexMap.keys map → f map a = some (map ++ [entry a]))
    (hname : ∀ a ∈ as, (entry a).1 = name a) (h : (map.keys ++ as.map name).Nodup) :
    as.foldlM f map = some (map ++ as.map entry) := by
  induction as generalizing map with
  | nil => simp
  | cons a as ih =>
    rw [List.map_cons, ← hname a (by simp)] at h
    obtain ⟨hnew, hrest⟩ := nodup_keys_cons h (entry a).2
    rw [hname a (by simp)] at hnew
    rw [List.foldlM_cons, hf map a (by simp) hnew, Option.bind_eq_bind, Option.bind_some,
      ih (fun map b hb => hf map b (by simp [hb])) (fun b hb => hname b (by simp [hb])) hrest]
    simp

/-- Names that are distinct up to folding are distinct. -/
theorem DistinctNamesBy.nodup {fold : String → String} {names : List String}
    (h : DistinctNamesBy fold names) : names.Nodup := h.distinct.of_map _

/-- A conversion that never fails is a map. -/
theorem mapM_eq_some {α β : Type} {f : α → Option β} {g : α → β} {as : List α}
    (h : ∀ a ∈ as, f a = some (g a)) : as.mapM f = some (as.map g) := by
  induction as with
  | nil => rfl
  | cons a as ih =>
    rw [List.mapM_cons, h a (by simp), ih fun b hb => h b (by simp [hb])]
    rfl

variable (insertion : Insertion)

mutual

/-- **A literal is converted** to what it says, if its keys are distinct. -/
theorem convertValue_eq : (value : ValueAst) → (∀ keys ∈ value.keyLists, keys.Nodup) →
    convertValue insertion value = some value.toValue
  | .string value, _ => by rw [convertValue, ValueAst.toValue]
  | .integer value, _ => by rw [convertValue, ValueAst.toValue]
  | .number value, _ => by rw [convertValue, ValueAst.toValue]
  | .boolean value, _ => by rw [convertValue, ValueAst.toValue]
  | .null span, _ => by rw [convertValue, ValueAst.toValue]
  | .array ⟨items, span⟩, h => by
    rw [convertValue, ValueAst.toValue, convertItems_eq items h]
    rfl
  | .object object, h => by
    rw [convertValue, ValueAst.toValue, convertObject_eq object h]
    rfl

/-- So are the items of an array. -/
theorem convertItems_eq : (items : List ValueAst) →
    (∀ keys ∈ keyListsOfItems items, keys.Nodup) →
    convertItems insertion items = some (itemsToValues items)
  | [], _ => by rw [convertItems, itemsToValues]
  | item :: items, h => by
    rw [keyListsOfItems, List.forall_mem_append] at h
    rw [convertItems, itemsToValues, convertValue_eq item h.1, convertItems_eq items h.2]
    rfl

/-- So is an object. -/
theorem convertObject_eq : (object : ObjectValueAst) → (∀ keys ∈ object.keyLists, keys.Nodup) →
    convertObject insertion object = some object.toEntries
  | ⟨entries, span⟩, h => by
    rw [ObjectValueAst.keyLists, List.forall_mem_cons] at h
    rw [convertObject, ObjectValueAst.toEntries, convertEntries_eq entries [] h.1 h.2,
      List.nil_append]

/-- So are the entries of an object, after those that are there. -/
theorem convertEntries_eq : (entries : List ObjectValueEntryAst) → (map : IndexMap String Value) →
    (map.keys ++ entries.map (·.key.value)).Nodup →
    (∀ keys ∈ keyListsOfEntries entries, keys.Nodup) →
    convertEntries insertion entries map = some (map ++ entriesToValues entries)
  | [], map, _, _ => by rw [convertEntries, entriesToValues, List.append_nil]
  | ⟨key, value, span⟩ :: entries, map, hnames, h => by
    rw [keyListsOfEntries, List.forall_mem_append] at h
    obtain ⟨hnew, hrest⟩ := nodup_keys_cons hnames value.toValue
    rw [convertEntries, convertValue_eq value h.1]
    dsimp only [Option.bind_eq_bind, Option.bind_some]
    rw [put_new hnew]
    dsimp only [Option.bind_some]
    rw [convertEntries_eq entries _ hrest h.2, entriesToValues, List.append_assoc,
      List.singleton_append]

end

/-- The headers of a request are converted to what they say. -/
theorem convertHeaderEntries_eq {entries : List HeaderValueEntryAst} {map : IndexMap String Value}
    (hnames : (map.keys ++ entries.map (·.name.value)).Nodup)
    (h : ∀ entry ∈ entries, ∀ keys ∈ entry.value.keyLists, keys.Nodup) :
    entries.foldlM (convertHeaderEntry insertion) map =
      some (map ++ entries.map HeaderValueEntryAst.toEntry) := by
  refine foldlM_put (fun map entry hentry hnew => ?_) (fun _ _ => rfl) hnames
  rw [convertHeaderEntry, convertValue_eq insertion entry.value (h entry hentry)]
  exact put_new hnew _

/-- The keys in a section of a request are distinct. -/
theorem entries_keys {entries : List ObjectValueEntryAst}
    (h : ∀ entry ∈ entries, ∀ keys ∈ entry.value.keyLists, keys.Nodup) :
    ∀ keys ∈ keyListsOfEntries entries, keys.Nodup := by
  induction entries with
  | nil => exact fun _ h => absurd h List.not_mem_nil
  | cons entry entries ih =>
    obtain ⟨key, value, span⟩ := entry
    rw [List.forall_mem_cons] at h
    rw [keyListsOfEntries, List.forall_mem_append]
    exact ⟨h.1, ih h.2⟩

/-! ## Requests -/

/-- The header names of a section. -/
theorem headers_keys (section_ : RequestSectionAst) :
    IndexMap.keys section_.toHeaders = section_.headerNames := by
  cases section_ <;> simp [RequestSectionAst.toHeaders, RequestSectionAst.headerNames,
    IndexMap.keys, HeaderValueEntryAst.toEntry]

/-- The keys of an object. -/
theorem entriesToValues_keys (entries : List ObjectValueEntryAst) :
    IndexMap.keys (entriesToValues entries) = entries.map (·.key.value) := by
  induction entries with
  | nil => rfl
  | cons entry entries ih =>
    obtain ⟨key, value, span⟩ := entry
    rw [entriesToValues, IndexMap.keys_cons, ih, List.map_cons]

/-- The query names of a section. -/
theorem query_keys (section_ : RequestSectionAst) :
    IndexMap.keys section_.toQuery = section_.queryNames := by
  cases section_ with
  | query section_ => exact entriesToValues_keys section_.entries
  | headers section_ => rfl
  | body section_ => rfl

/-- What a section must not repeat to be converted. -/
structure NewIn (spec : HttpRequestSpec) (section_ : RequestSectionAst) : Prop where
  headers : (spec.headers.keys ++ section_.headerNames).Nodup
  query : (spec.query.keys ++ section_.queryNames).Nodup
  values : ∀ value ∈ section_.values, ∀ keys ∈ value.keyLists, keys.Nodup

/-- A section of a request is converted to what it says. -/
theorem convertRequestSection_eq {spec : HttpRequestSpec} {section_ : RequestSectionAst}
    (h : NewIn spec section_) :
    convertRequestSection insertion spec section_ = some (spec.addSections [section_]) := by
  cases section_ with
  | headers section_ =>
    have hvalues := h.values
    rw [RequestSectionAst.values, List.forall_mem_map] at hvalues
    rw [convertRequestSection, convertHeaderEntries_eq insertion h.headers hvalues]
    simp [HttpRequestSpec.addSections, RequestSectionAst.toHeaders, RequestSectionAst.toQuery,
      RequestSectionAst.toBodies]
  | query section_ =>
    have hvalues := h.values
    rw [RequestSectionAst.values, List.forall_mem_map] at hvalues
    rw [convertRequestSection, convertEntries_eq insertion _ _ h.query (entries_keys hvalues)]
    simp [HttpRequestSpec.addSections, RequestSectionAst.toHeaders, RequestSectionAst.toQuery,
      RequestSectionAst.toBodies]
  | body section_ =>
    have hkeys := h.values (.object section_.value) (by simp [RequestSectionAst.values])
    rw [convertRequestSection, convertObject_eq insertion section_.value hkeys]
    simp [HttpRequestSpec.addSections, RequestSectionAst.toHeaders, RequestSectionAst.toQuery,
      RequestSectionAst.toBodies]

/-- One section after the other. -/
theorem addSections_cons (spec : HttpRequestSpec) (section_ : RequestSectionAst)
    (sections : List RequestSectionAst) :
    (spec.addSections [section_]).addSections sections = spec.addSections (section_ :: sections) := by
  simp only [HttpRequestSpec.addSections, List.flatMap_cons, List.flatMap_nil, List.append_nil,
    List.append_assoc, List.getLast?_append, Option.or_assoc]

/-- **The sections of a request** are converted to what they say. -/
theorem convertSections_eq {spec : HttpRequestSpec} {sections : List RequestSectionAst}
    (hheaders : (spec.headers.keys ++ sections.flatMap (·.headerNames)).Nodup)
    (hquery : (spec.query.keys ++ sections.flatMap (·.queryNames)).Nodup)
    (hvalues : ∀ value ∈ sections.flatMap (·.values), ∀ keys ∈ value.keyLists, keys.Nodup) :
    sections.foldlM (convertRequestSection insertion) spec = some (spec.addSections sections) := by
  induction sections generalizing spec with
  | nil => simp [HttpRequestSpec.addSections]
  | cons section_ sections ih =>
    rw [List.flatMap_cons, ← List.append_assoc] at hheaders hquery
    rw [List.flatMap_cons, List.forall_mem_append] at hvalues
    have hnew : NewIn spec section_ :=
      ⟨(List.nodup_append.mp hheaders).1, (List.nodup_append.mp hquery).1, hvalues.1⟩
    rw [List.foldlM_cons, convertRequestSection_eq insertion hnew, Option.bind_eq_bind,
      Option.bind_some, ih, addSections_cons]
    · simpa [HttpRequestSpec.addSections, headers_keys] using hheaders
    · simpa [HttpRequestSpec.addSections, query_keys] using hquery
    · exact hvalues.2

/-! ## Assertions -/

/-- The header names of a section of an expectation. -/
theorem expectationHeaders_keys (section_ : ExpectationSectionAst) :
    IndexMap.keys section_.toHeaders = section_.headerNames := by
  cases section_ with
  | headers assertions =>
    simp only [ExpectationSectionAst.toHeaders, ExpectationSectionAst.headerNames, IndexMap.keys,
      List.map_map]
    refine List.map_congr_left fun entry _ => ?_
    cases entry <;> rfl
  | status assertion => rfl
  | body assertion => rfl

/-- A status fits into 16 bits. -/
theorem u16TryFrom_eq {status : Int} (h : 100 ≤ status ∧ status ≤ 599) :
    u16TryFrom status = some status.toNat :=
  if_pos ⟨by omega, by omega⟩

/-- The value of a field is converted to what it says. -/
theorem convertOptionalValue_eq {given : Option ValueAst}
    (h : ∀ value ∈ given, ∀ keys ∈ value.keyLists, keys.Nodup) :
    convertOptionalValue insertion given = some (given.map ValueAst.toValue) := by
  cases given with
  | none => rfl
  | some value =>
    rw [convertOptionalValue, convertValue_eq insertion value (h value rfl)]
    rfl

/-- The capture of a field is one of them. -/
theorem mem_capturesOfFields {fields : List FieldAssertionAst} {field : FieldAssertionAst}
    {capture : Spanned String} (hfield : field ∈ fields) (hcapture : capture ∈ field.capture) :
    capture.value ∈ capturesOfFields fields := by
  refine List.mem_flatMap.mpr ⟨field, hfield, ?_⟩
  rw [Option.mem_def.mp hcapture]
  simp

/-- Header assertions are converted to what they say. -/
theorem convertResponseHeaders_eq {entries : List ResponseHeaderAssertionAst}
    {map : IndexMap String HeaderAssertion}
    (hnames : (map.keys ++ entries.map (·.name.value)).Nodup) :
    entries.foldlM (convertResponseHeader insertion) map =
      some (map ++ entries.map ResponseHeaderAssertionAst.toEntry) := by
  refine foldlM_put (fun map entry _ hnew => ?_) (fun entry _ => ?_) hnames
  · cases entry <;> exact put_new hnew _
  · cases entry <;> rfl

/-- One section of an expectation after the other. -/
theorem addExpectationSections_cons (expectation : ResponseExpectation)
    (section_ : ExpectationSectionAst) (sections : List ExpectationSectionAst) :
    (expectation.addSections [section_]).addSections sections =
      expectation.addSections (section_ :: sections) := by
  simp only [ResponseExpectation.addSections, List.flatMap_cons, List.flatMap_nil, List.append_nil,
    List.append_assoc, List.map_append, List.getLast?_append, Option.or_assoc]

variable [Platform]

/-- What a field must satisfy to be converted. -/
structure Convertible (field : FieldAssertionAst) : Prop where
  type : (convertFieldType field.expectedType field.expectedValue field.nested).isSome
  keys : ∀ value ∈ field.expectedValue, ∀ keys ∈ value.keyLists, keys.Nodup
  capture : ∀ capture ∈ field.capture, VariableName.new capture.value = .ok ⟨capture.value⟩

/-- A valid capture is converted to what it says. -/
theorem convertOptionalCapture_eq {given : Option (Spanned String)}
    (h : ∀ capture ∈ given, VariableName.new capture.value = .ok ⟨capture.value⟩) :
    convertOptionalCapture given = some (given.map fun capture => ⟨⟨capture.value⟩⟩) := by
  cases given with
  | none => rfl
  | some capture =>
    rw [convertOptionalCapture, convertCapture, h capture rfl]
    rfl

mutual

/-- **An object assertion is converted** to what it says, if it keeps the rules. -/
theorem convertObjectAssertion_eq : (assertion : ObjectAssertionAst) →
    (∀ names ∈ assertion.nameLists, names.Nodup) →
    (∀ field ∈ assertion.allFields, Convertible field) →
    convertObjectAssertion insertion assertion = some assertion.toAssertion
  | ⟨mode, fields, span⟩, hnames, h => by
    rw [ObjectAssertionAst.nameLists, List.forall_mem_cons] at hnames
    rw [convertObjectAssertion, convertFields_eq fields [] hnames.1 hnames.2 h, List.nil_append]
    rfl

/-- So are its fields. -/
theorem convertFields_eq : (fields : List FieldAssertionAst) →
    (map : IndexMap String FieldAssertion) → (map.keys ++ fields.map (·.name.value)).Nodup →
    (∀ names ∈ nameListsOfFields fields, names.Nodup) →
    (∀ field ∈ allFieldsOf fields, Convertible field) →
    convertFields insertion fields map = some (map ++ fieldsToEntries fields)
  | [], map, _, _, _ => by rw [convertFields, fieldsToEntries, List.append_nil]
  | field :: fields, map, hdistinct, hnames, h => by
    rw [nameListsOfFields, List.forall_mem_append] at hnames
    rw [allFieldsOf, List.forall_mem_append] at h
    obtain ⟨hnew, hrest⟩ := nodup_keys_cons hdistinct field.toField
    have hname : field.toField.fieldName = field.name.value := by cases field; rfl
    rw [convertFields, convertFieldAssertion_eq field hnames.1 h.1]
    dsimp only [Option.bind_eq_bind, Option.bind_some]
    rw [hname, put_new hnew]
    dsimp only [Option.bind_some]
    rw [convertFields_eq fields _ hrest hnames.2 h.2, fieldsToEntries, List.append_assoc,
      List.singleton_append]

/-- So is a field. -/
theorem convertFieldAssertion_eq : (field : FieldAssertionAst) →
    (∀ names ∈ field.nameLists, names.Nodup) →
    (∀ part ∈ field.allFields, Convertible part) →
    convertFieldAssertion insertion field = some field.toField
  | ⟨name, expectedType, expectedValue, nested, capture, span⟩, hnames, h => by
    rw [FieldAssertionAst.allFields, List.forall_mem_append, List.forall_mem_singleton] at h
    obtain ⟨hnested, htype, hkeys, hcapture⟩ := h
    obtain ⟨type, htype⟩ := Option.isSome_iff_exists.mp htype
    rw [convertFieldAssertion, FieldAssertionAst.toField, htype,
      convertOptionalValue_eq insertion hkeys, convertNested_eq nested hnames hnested,
      convertOptionalCapture_eq hcapture]
    rfl

/-- So are nested fields. -/
theorem convertNested_eq : (nested : Option ObjectAssertionAst) →
    (∀ names ∈ nameListsOfNested nested, names.Nodup) →
    (∀ field ∈ nestedFields nested, Convertible field) →
    convertNested insertion nested = some (nestedToAssertion nested)
  | none, _, _ => by rw [convertNested, nestedToAssertion]
  | some assertion, hnames, h => by
    rw [convertNested, convertObjectAssertion_eq assertion hnames h, nestedToAssertion]
    rfl

end

/-- The rules of a field are enough to convert it. -/
theorem convertible {scope : Finset VariableName} {field : FieldAssertionAst}
    (h : FieldRules scope field)
    (hcapture : ∀ capture ∈ field.capture, CaptureRule scope capture.value) :
    Convertible field where
  type := by
    obtain ⟨name, expectedType, expectedValue, nested, capture, span⟩ := field
    have hgiven := h.given
    cases expectedType <;> cases expectedValue <;> cases nested <;> simp_all [convertFieldType]
  keys := fun value hvalue keys hkeys => by simpa using (h.keys value hvalue keys hkeys).distinct
  capture := fun capture hmem => by
    obtain ⟨variable_, hok, -⟩ := hcapture capture hmem
    obtain rfl : variable_ = ⟨capture.value⟩ := by rw [← VariableName.new_ok hok]
    exact hok

/-- An assertion that satisfies its rules is converted. -/
theorem convertObjectAssertion_of_rules {scope : Finset VariableName} {limit : Nat}
    {assertion : ObjectAssertionAst} (h : AssertionRules scope limit assertion)
    (hcaptures : ∀ name ∈ assertion.captures, CaptureRule scope name) :
    convertObjectAssertion insertion assertion = some assertion.toAssertion := by
  refine convertObjectAssertion_eq insertion assertion
    (fun names hnames => by simpa using (h.names names hnames).distinct) fun field hfield => ?_
  exact convertible (h.fields field hfield) fun capture hcapture =>
    hcaptures _ (mem_capturesOfFields hfield hcapture)

/-! ## Expectations -/

/-- A body assertion is converted to what it says. -/
theorem convertBodyAssertion_eq {scope : Finset VariableName} {limit : Nat}
    {body : BodyAssertionAst}
    (h : ∀ assertion ∈ body.assertions, AssertionRules scope limit assertion)
    (hcaptures : ∀ name ∈ body.assertions.flatMap (·.captures), CaptureRule scope name) :
    convertBodyAssertion insertion body = some body.toAssertion := by
  cases body with
  | empty span => rfl
  | textExact expected span => rfl
  | textContains expected span => rfl
  | object assertion =>
    rw [BodyAssertionAst.assertions, List.forall_mem_singleton] at h
    rw [BodyAssertionAst.assertions, List.flatMap_singleton] at hcaptures
    rw [convertBodyAssertion, convertObjectAssertion_of_rules insertion h hcaptures]
    rfl

/-- A section of an expectation is converted to what it says. -/
theorem convertExpectationSection_eq {scope : Finset VariableName} {limit : Nat}
    {expectation : ResponseExpectation} {section_ : ExpectationSectionAst}
    (hstatus : ∀ status ∈ section_.statuses, 100 ≤ status ∧ status ≤ 599)
    (hheaders : (expectation.headers.keys ++ section_.headerNames).Nodup)
    (h : ∀ assertion ∈ section_.assertions, AssertionRules scope limit assertion)
    (hcaptures : ∀ name ∈ section_.captures, CaptureRule scope name) :
    convertExpectationSection insertion expectation section_ =
      some (expectation.addSections [section_]) := by
  cases section_ with
  | status assertion =>
    rw [ExpectationSectionAst.statuses, List.forall_mem_singleton] at hstatus
    rw [convertExpectationSection, u16TryFrom_eq hstatus]
    simp [ResponseExpectation.addSections, ExpectationSectionAst.statuses,
      ExpectationSectionAst.toHeaders, ExpectationSectionAst.toBodies]
  | headers assertions =>
    rw [convertExpectationSection, convertResponseHeaders_eq insertion hheaders]
    simp [ResponseExpectation.addSections, ExpectationSectionAst.statuses,
      ExpectationSectionAst.toHeaders, ExpectationSectionAst.toBodies]
  | body assertion =>
    rw [convertExpectationSection, convertBodyAssertion_eq insertion h hcaptures]
    simp [ResponseExpectation.addSections, ExpectationSectionAst.statuses,
      ExpectationSectionAst.toHeaders, ExpectationSectionAst.toBodies]

/-- **The sections of an expectation** are converted to what they say. -/
theorem convertExpectationSections_eq {scope : Finset VariableName} {limit : Nat}
    {expectation : ResponseExpectation} {sections : List ExpectationSectionAst}
    (hstatus : ∀ status ∈ sections.flatMap (·.statuses), 100 ≤ status ∧ status ≤ 599)
    (hheaders : (expectation.headers.keys ++ sections.flatMap (·.headerNames)).Nodup)
    (h : ∀ assertion ∈ sections.flatMap (·.assertions), AssertionRules scope limit assertion)
    (hcaptures : ∀ name ∈ sections.flatMap (·.captures), CaptureRule scope name) :
    sections.foldlM (convertExpectationSection insertion) expectation =
      some (expectation.addSections sections) := by
  induction sections generalizing expectation with
  | nil => simp [ResponseExpectation.addSections]
  | cons section_ sections ih =>
    rw [List.flatMap_cons, ← List.append_assoc] at hheaders
    rw [List.flatMap_cons, List.forall_mem_append] at hstatus h hcaptures
    have hsection := convertExpectationSection_eq insertion hstatus.1
      (List.nodup_append.mp hheaders).1 h.1 hcaptures.1
    rw [List.foldlM_cons, hsection, Option.bind_eq_bind, Option.bind_some,
      ih hstatus.2 ?_ h.2 hcaptures.2, addExpectationSections_cons]
    simpa [ResponseExpectation.addSections, expectationHeaders_keys] using hheaders

/-! ## Suites -/

/-- A test is converted to what it says. -/
theorem convertTest_eq {scope : Finset VariableName} {limit : Nat} {test : TestAst}
    (h : TestRules scope limit test) : convertTest insertion test = some test.toCase := by
  obtain ⟨-, ⟨request, hrequest, rr⟩, ⟨expectation, hexpectation, er⟩⟩ := h
  have hconvertRequest : convertRequest insertion request = some request.toSpec :=
    convertSections_eq insertion (DistinctNamesBy.nodup rr.headerNames)
      (DistinctNamesBy.nodup rr.queryNames) fun value hvalue keys hkeys =>
        DistinctNamesBy.nodup ((rr.values value hvalue).keys keys hkeys)
  have hconvertExpectation :
      convertExpectation insertion expectation = some expectation.toExpectation :=
    convertExpectationSections_eq insertion er.status (DistinctNamesBy.nodup er.headerNames)
      er.assertions er.captures
  rw [convertTest, TestAst.toCase, hrequest, hexpectation]
  dsimp only [List.head?_cons, Option.bind_eq_bind, Option.bind_some]
  rw [hconvertRequest, hconvertExpectation]
  rfl

/-- **A valid suite is converted without loss**, whatever is done about entries that are
inserted again. -/
theorem convertSuite_eq {context : ValidationContext} {ast : SuiteAst} (h : SuiteRules context ast) :
    convertSuite insertion ast = some ast.toSuite := by
  have htest (block : BlockAst) (hblock : block ∈ ast.blocks) (test : TestAst)
      (htest : test ∈ block.tests) : convertTest insertion test = some test.toCase := by
    obtain ⟨i, hi, rfl⟩ := List.getElem_of_mem htest
    exact convertTest_eq insertion (h.tests block hblock i hi)
  rw [convertSuite, mapM_eq_some (g := BlockAst.toBlock)]
  · rfl
  · intro block hblock
    cases block with
    | core block =>
      have htests : block.tests.mapM (convertTest insertion) =
          some (block.tests.map TestAst.toCase) := mapM_eq_some (htest _ hblock)
      rw [convertBlock, htests]
      rfl
    | pipeline block =>
      have htests : block.tests.mapM (convertTest insertion) =
          some (block.tests.map TestAst.toCase) := mapM_eq_some (htest _ hblock)
      rw [convertBlock, htests]
      rfl
    | test t =>
      rw [convertBlock, htest _ hblock t (List.mem_singleton_self t)]
      rfl

end Converter

end Rettp
