import Rettp.FailurePath
import Rettp.JsonDocument
import Rettp.Terminal

/-!
# Reading the JSON report

The serialization of a value is a JSON document (`Serialized.document`). Of the text that
`serde_json` writes for it only one thing is known: it stands for that document (`PrintsJson`), as
the text of a printer does that puts every item on a line of its own (`Serialized.indented_writes`).
The fields of a report can be read back from its document, so whoever reads the published text as
JSON finds exactly the report in it.
-/

namespace Rettp

open JsonText

namespace Serialized

/-! ## The document of a value -/

mutual

/-- The tree that a serialized value stands for. -/
def document : Serialized → Document
  | null => .null
  | number n => .nat n
  | string value => .string value
  | array items => .array (documents items)
  | struct fields => .object (entries fields)

/-- The trees of the items of an array. -/
def documents : List Serialized → List Document
  | [] => []
  | item :: items => document item :: documents items

/-- The entries of a struct. -/
def entries : List (String × Serialized) → List (String × Document)
  | [] => []
  | field :: fields => entry field :: entries fields

/-- A field of a struct with the tree of its value. -/
def entry : String × Serialized → String × Document
  | (name, value) => (name, document value)

end

/-- An array that is serialized item by item. -/
theorem documents_map {α : Type} (serialize : α → Serialized) (items : List α) :
    documents (items.map serialize) = items.map fun item => (serialize item).document := by
  induction items with
  | nil => rfl
  | cons item items ih => rw [List.map_cons, documents, ih, List.map_cons]

/-! ## Its text -/

/-- An indent of white space. -/
def Blank (indent : String) : Prop := ∀ c ∈ indent.toList, isBlank c = true

theorem Blank.append {a b : String} (ha : Blank a) (hb : Blank b) : Blank (a ++ b) := by
  intro c hc
  rw [String.toList_append, List.mem_append] at hc
  exact hc.elim (ha c) (hb c)

theorem blank_spaces : Blank "  " := by
  intro c hc
  fin_cases hc <;> rfl

theorem blank_lineFeed : Blank "\n" := by
  intro c hc
  fin_cases hc
  rfl

/-- The text of an item on a line of its own. -/
def itemLine (indent item : String) : String := "\n" ++ indent ++ "  " ++ item

theorem toList_lines_nil (indent first last : String) :
    (lines indent first last []).toList = first.toList ++ last.toList := by
  rw [lines, List.isEmpty_nil, if_pos rfl, String.toList_append]

theorem toList_lines_cons (indent first last item : String) (items : List String) :
    (lines indent first last (item :: items)).toList =
      first.toList ++ ([','].intercalate ((item :: items).map fun item =>
        (itemLine indent item).toList) ++ (("\n" ++ indent).toList ++ last.toList)) := by
  have hcomma : ",".toList = [','] := rfl
  rw [lines, List.isEmpty_cons, if_neg Bool.false_ne_true]
  simp only [String.toList_append, String.toList_intercalate, List.map_map, List.append_assoc,
    hcomma]
  rfl

theorem toList_itemLine (indent item : String) :
    (itemLine indent item).toList = ("\n" ++ indent ++ "  ").toList ++ item.toList :=
  String.toList_append

theorem Blank.beforeItem {indent : String} (h : Blank indent) : Blank ("\n" ++ indent ++ "  ") :=
  (blank_lineFeed.append h).append blank_spaces

/-- The lines of an array write it. -/
theorem writes_array {indent : String} (hindent : Blank indent) {items : List String}
    {documents : List Document}
    (h : List.Forall₂ (fun (item : String) => Writes item.toList) items documents) :
    Writes (lines indent "[" "]" items).toList (.array documents) := by
  have hline {item : String} {document : Document} (h : Writes item.toList document) :
      Writes (itemLine indent item).toList document := by
    rw [toList_itemLine]
    exact h.blank hindent.beforeItem
  cases h with
  | nil =>
    rw [toList_lines_nil]
    exact writes_noItems
  | cons h hs =>
    rw [toList_lines_cons]
    exact writes_items (hline h) (List.forall₂_map_left_iff.mpr (hs.imp fun _ _ => hline))
      (blank_lineFeed.append hindent)

/-- The lines of a struct write it. -/
theorem writes_struct {indent : String} (hindent : Blank indent) {items : List String}
    {entries : List (String × Document)}
    (h : List.Forall₂ (fun (item : String) => WritesEntry item.toList) items entries) :
    Writes (lines indent "\x7b" "\x7d" items).toList (.object entries) := by
  have hline {item : String} {entry : String × Document} (h : WritesEntry item.toList entry) :
      WritesEntry (itemLine indent item).toList entry := by
    rw [toList_itemLine]
    exact h.blank hindent.beforeItem
  cases h with
  | nil =>
    rw [toList_lines_nil]
    exact writes_noEntries
  | cons h hs =>
    rw [toList_lines_cons]
    exact writes_entries (hline h) (List.forall₂_map_left_iff.mpr (hs.imp fun _ _ => hline))
      (blank_lineFeed.append hindent)

/-- The function writes string literals. -/
def Quotes (quote : String → String) : Prop :=
  ∀ value : String, IsLiteral (quote value).toList value.toList

mutual

/-- **The printer.** The text of a value stands for its document. -/
theorem indented_writes {quote : String → String} (hquote : Quotes quote) {indent : String}
    (hindent : Blank indent) :
    (value : Serialized) → Writes (value.indented quote indent).toList value.document
  | null => by
    rw [indented, document]
    exact writes_null
  | number n => by
    rw [indented, document, Nat.toString_eq_repr, Nat.toList_repr]
    exact writes_nat n
  | string value => by
    rw [indented, document]
    exact writes_string (hquote value)
  | array items => by
    rw [indented, document]
    exact writes_array hindent (indentedItems_writes hquote (hindent.append blank_spaces) items)
  | struct fields => by
    rw [indented, document]
    exact writes_struct hindent (indentedFields_writes hquote (hindent.append blank_spaces) fields)

/-- Every item is written. -/
theorem indentedItems_writes {quote : String → String} (hquote : Quotes quote) {indent : String}
    (hindent : Blank indent) : (items : List Serialized) →
      List.Forall₂ (fun (item : String) => Writes item.toList) (indentedItems quote indent items)
        (documents items)
  | [] => .nil
  | item :: items =>
    .cons (indented_writes hquote hindent item) (indentedItems_writes hquote hindent items)

/-- Every field is written. -/
theorem indentedFields_writes {quote : String → String} (hquote : Quotes quote) {indent : String}
    (hindent : Blank indent) : (fields : List (String × Serialized)) →
      List.Forall₂ (fun (item : String) => WritesEntry item.toList)
        (indentedFields quote indent fields) (entries fields)
  | [] => .nil
  | (key, value) :: fields => by
    refine .cons ?_ (indentedFields_writes hquote hindent fields)
    simp only [String.toList_append, List.append_assoc]
    exact writesEntry (hquote key) (indented_writes hquote hindent value)

end

end Serialized

/-! ## Reading a report -/

namespace JsonText.Document

/-- The entries of an object. -/
def asObject : Document → Option (List (String × Document))
  | .object entries => some entries
  | _ => none

/-- A number. -/
def asNat : Document → Option Nat
  | .nat n => some n
  | _ => none

/-- A string. -/
def asString : Document → Option String
  | .string value => some value
  | _ => none

/-- An array, item by item. -/
def asListOf {α : Type} (read : Document → Option α) : Document → Option (List α)
  | .array items => items.mapM read
  | _ => none

/-- A value that may be missing. -/
def asOptional {α : Type} (read : Document → Option α) : Document → Option (Option α)
  | .null => some none
  | document => (read document).map some

/-- One of some values, by its name. -/
def asVariant {α : Type} (values : List α) (name : α → String) (document : Document) : Option α :=
  document.asString.bind fun word => values.find? fun value => name value = word

/-- The value under a name; two values under one name are an error. -/
def field (entries : List (String × Document)) (name : String) : Option Document :=
  match entries.filter fun entry => entry.1 = name with
  | [entry] => some entry.2
  | _ => none

/-- A value that an object may leave out. -/
def optionalField (entries : List (String × Document)) (name : String) : Option Document :=
  match entries.filter fun entry => entry.1 = name with
  | [] => some .null
  | [entry] => some entry.2
  | _ => none

end JsonText.Document

open JsonText.Document

/-- The derived `Deserialize` of a status. -/
def ReportStatus.ofDocument : Document → Option ReportStatus :=
  asVariant [.passed, .failed, .skipped, .aborted] asStr

/-- The derived `Deserialize` of a kind of block. -/
def ReportBlockKind.ofDocument : Document → Option ReportBlockKind :=
  asVariant [.core, .pipeline, .test] asStr

/-- The derived `Deserialize` of a kind of failure. -/
def ReportFailureKind.ofDocument : Document → Option ReportFailureKind :=
  asVariant [.missingField, .typeMismatch, .valueMismatch, .unexpectedField, .statusMismatch,
    .headerMismatch, .invalidBody] asStr

/-- The derived `Deserialize` of a kind of error. -/
def ReportErrorKind.ofDocument : Document → Option ReportErrorKind :=
  asVariant [.invalidRequest, .connection, .timeout, .invalidResponse, .variableResolution,
    .dependencyFailed, .internal] asStr

/-- The derived `Deserialize` of a failure. -/
def ReportAssertionFailure.ofDocument (document : Document) : Option ReportAssertionFailure := do
  let entries ← document.asObject
  let path ← asString (← field entries "path")
  let kind ← ReportFailureKind.ofDocument (← field entries "kind")
  let expected ← asOptional asString (← optionalField entries "expected")
  let actual ← asOptional asString (← optionalField entries "actual")
  let message ← asString (← field entries "message")
  return ⟨path, kind, expected, actual, message⟩

/-- The derived `Deserialize` of an error. -/
def ReportExecutionError.ofDocument (document : Document) : Option ReportExecutionError := do
  let entries ← document.asObject
  let kind ← ReportErrorKind.ofDocument (← field entries "kind")
  let message ← asString (← field entries "message")
  return ⟨kind, message⟩

/-- The derived `Deserialize` of a test. -/
def ReportTest.ofDocument (document : Document) : Option ReportTest := do
  let entries ← document.asObject
  let name ← asString (← field entries "name")
  let status ← ReportStatus.ofDocument (← field entries "status")
  let durationMs ← asNat (← field entries "duration_ms")
  let failures ← asListOf ReportAssertionFailure.ofDocument (← field entries "failures")
  let error ← asOptional ReportExecutionError.ofDocument (← optionalField entries "error")
  return ⟨name, status, durationMs, failures, error⟩

/-- The derived `Deserialize` of a block. -/
def ReportBlock.ofDocument (document : Document) : Option ReportBlock := do
  let entries ← document.asObject
  let kind ← ReportBlockKind.ofDocument (← field entries "kind")
  let name ← asOptional asString (← optionalField entries "name")
  let status ← ReportStatus.ofDocument (← field entries "status")
  let durationMs ← asNat (← field entries "duration_ms")
  let tests ← asListOf ReportTest.ofDocument (← field entries "tests")
  return ⟨kind, name, status, durationMs, tests⟩

/-- The derived `Deserialize` of a summary. -/
def ReportSummary.ofDocument (document : Document) : Option ReportSummary := do
  let entries ← document.asObject
  let total ← asNat (← field entries "total")
  let passed ← asNat (← field entries "passed")
  let failed ← asNat (← field entries "failed")
  let skipped ← asNat (← field entries "skipped")
  let aborted ← asNat (← field entries "aborted")
  return ⟨total, passed, failed, skipped, aborted⟩

/-- What the derived `Deserialize` makes of the document of a report. -/
def RunReport.ofDocument (document : Document) : Option RunReport := do
  let entries ← document.asObject
  let schemaVersion ← asNat (← field entries "schema_version")
  let source ← asString (← field entries "source")
  let name ← asOptional asString (← optionalField entries "name")
  let status ← ReportStatus.ofDocument (← field entries "status")
  let durationMs ← asNat (← field entries "duration_ms")
  let summary ← ReportSummary.ofDocument (← field entries "summary")
  let blocks ← asListOf ReportBlock.ofDocument (← field entries "blocks")
  let error ← asOptional ReportExecutionError.ofDocument (← optionalField entries "error")
  return ⟨schemaVersion, source, name, status, durationMs, summary, blocks, error⟩

/-! ## What was written is read -/

namespace JsonText.Document

open Serialized (documents_map)

/-- The reader finds in the document of every value the value itself. -/
def Inverts {α : Type} (read : Document → Option α) (serialize : α → Serialized) : Prop :=
  ∀ a, read (serialize a).document = some a

/-- A string is read back. -/
theorem inverts_string : Inverts asString .string := by
  intro value
  rw [Serialized.document, asString]

theorem string_ne_null (value : String) : (Serialized.string value).document ≠ .null := by
  rw [Serialized.document]
  exact nofun

/-- A word is read back, since no two variants share one. -/
theorem asVariant_inverts {α : Type} {values : List α} {name : α → String}
    (hvalues : ∀ a, a ∈ values) (hname : Function.Injective name) :
    Inverts (asVariant values name) fun a => .string (name a) := by
  intro a
  have hfind (values : List α) (ha : a ∈ values) :
      values.find? (fun value => name value = name a) = some a := by
    induction values with
    | nil => cases ha
    | cons value values ih =>
      by_cases hvalue : name value = name a
      · rw [List.find?_cons_of_pos (by simpa using hvalue), hname hvalue]
      · rw [List.find?_cons_of_neg (by simpa using hvalue)]
        exact ih ((List.mem_cons.mp ha).resolve_left fun h => hvalue (by rw [h]))
  rw [Serialized.document]
  exact hfind values (hvalues a)

/-- A list is read back item by item. -/
theorem asListOf_inverts {α : Type} {read : Document → Option α} {serialize : α → Serialized}
    (h : Inverts read serialize) :
    Inverts (asListOf read) fun items => .array (items.map serialize) := by
  intro items
  rw [Serialized.document, documents_map, asListOf]
  induction items with
  | nil => rfl
  | cons item items ih => simp [h item, ih]

/-- An optional value is read back, unless it can be written as `null`. -/
theorem asOptional_inverts {α : Type} {read : Document → Option α} {serialize : α → Serialized}
    (h : Inverts read serialize) (hnull : ∀ a, (serialize a).document ≠ .null) :
    Inverts (asOptional read) (Serialized.optional serialize) := by
  intro value
  cases value with
  | none => simp only [Serialized.optional, Serialized.document, asOptional]
  | some a =>
    rw [Serialized.optional, asOptional, h a, Option.map_some]
    exact fun hdocument => hnull a hdocument

theorem entries_eq_map (fields : List (String × Serialized)) :
    Serialized.entries fields = fields.map Serialized.entry := by
  induction fields with
  | nil => rfl
  | cons field fields ih => rw [Serialized.entries, ih, List.map_cons]

/-- A field is found under its name when no other has that name. -/
theorem filter_entries {fields : List (String × Serialized)} (hnodup : (fields.map (·.1)).Nodup)
    {name : String} {value : Serialized} (i : Nat) (hi : fields[i]? = some (name, value)) :
    (Serialized.entries fields).filter (fun entry => entry.1 = name) =
      [(name, value.document)] := by
  induction fields generalizing i with
  | nil => cases hi
  | cons field fields ih =>
    obtain ⟨hfield, hfields⟩ := List.nodup_cons.mp hnodup
    obtain ⟨name', value'⟩ := field
    rw [Serialized.entries, Serialized.entry]
    cases i with
    | zero =>
      obtain ⟨rfl, rfl⟩ := Prod.mk.inj (Option.some.inj hi)
      have hrest : (Serialized.entries fields).filter (fun entry => entry.1 = name') = [] := by
        rw [entries_eq_map, List.filter_eq_nil_iff]
        intro entry hentry hname
        obtain ⟨other, hother, rfl⟩ := List.mem_map.mp hentry
        obtain ⟨_, _⟩ := other
        exact hfield (List.mem_map.mpr ⟨_, hother, of_decide_eq_true hname⟩)
      rw [List.filter_cons_of_pos (by simp), hrest]
    | succ i =>
      have hne : name' ≠ name := by
        rintro rfl
        have hmem : (name', value) ∈ fields := List.mem_of_getElem? hi
        exact hfield (List.mem_map.mpr ⟨_, hmem, rfl⟩)
      rw [List.filter_cons_of_neg (by simpa using hne)]
      exact ih hfields i hi

/-- A field is found by its name. -/
theorem field_entries {fields : List (String × Serialized)} (hnodup : (fields.map (·.1)).Nodup)
    {name : String} {value : Serialized} (i : Nat) (hi : fields[i]? = some (name, value)) :
    field (Serialized.entries fields) name = some value.document := by
  rw [field, filter_entries hnodup i hi]

/-- So is an optional one. -/
theorem optionalField_entries {fields : List (String × Serialized)}
    (hnodup : (fields.map (·.1)).Nodup) {name : String} {value : Serialized} (i : Nat)
    (hi : fields[i]? = some (name, value)) :
    optionalField (Serialized.entries fields) name = some value.document := by
  rw [optionalField, filter_entries hnodup i hi]

/-- A struct is read field by field. -/
theorem bind_struct {β : Type} (fields : List (String × Serialized))
    (rest : List (String × Document) → Option β) :
    (asObject (Serialized.struct fields).document >>= rest) = rest (Serialized.entries fields) :=
  rfl

/-- A field that is found and read back. -/
theorem bind_read {α β : Type} {found : Option Document} {document : Document}
    {read : Document → Option α} {a : α} {rest : α → Option β} {b : β}
    (hfound : found = some document) (hread : read document = some a) (hrest : rest a = some b) :
    (found >>= fun document => read document >>= rest) = some b := by
  rw [hfound, Option.bind_eq_bind, Option.bind_some, hread]
  exact hrest

end JsonText.Document

/-- A status is read back. -/
theorem ReportStatus.inverts : Inverts ofDocument fun status => .string status.asStr :=
  asVariant_inverts (by intro status; cases status <;> decide)
    (by intro a b h; cases a <;> cases b <;> simp_all [asStr])

/-- A kind of block is read back. -/
theorem ReportBlockKind.inverts : Inverts ofDocument fun kind => .string kind.asStr :=
  asVariant_inverts (by intro kind; cases kind <;> decide)
    (by intro a b h; cases a <;> cases b <;> simp_all [asStr])

/-- A kind of failure is read back. -/
theorem ReportFailureKind.inverts : Inverts ofDocument fun kind => .string kind.asStr :=
  asVariant_inverts (by intro kind; cases kind <;> decide)
    (by intro a b h; cases a <;> cases b <;> simp_all [asStr])

/-- A kind of error is read back. -/
theorem ReportErrorKind.inverts : Inverts ofDocument fun kind => .string kind.asStr :=
  asVariant_inverts (by intro kind; cases kind <;> decide)
    (by intro a b h; cases a <;> cases b <;> simp_all [asStr])

namespace JsonReport

/-- A failure is read back. -/
theorem failure_inverts : Inverts ReportAssertionFailure.ofDocument failure := by
  intro f
  rw [ReportAssertionFailure.ofDocument, failure, bind_struct]
  refine bind_read (field_entries (by simp) 0 rfl) rfl ?_
  refine bind_read (field_entries (by simp) 1 rfl) (ReportFailureKind.inverts f.kind) ?_
  refine bind_read (optionalField_entries (by simp) 2 rfl)
    (asOptional_inverts inverts_string string_ne_null f.expected) ?_
  refine bind_read (optionalField_entries (by simp) 3 rfl)
    (asOptional_inverts inverts_string string_ne_null f.actual) ?_
  refine bind_read (field_entries (by simp) 4 rfl) rfl rfl

/-- An error is read back. -/
theorem error_inverts : Inverts ReportExecutionError.ofDocument error := by
  intro e
  rw [ReportExecutionError.ofDocument, error, bind_struct]
  refine bind_read (field_entries (by simp) 0 rfl) (ReportErrorKind.inverts e.kind) ?_
  refine bind_read (field_entries (by simp) 1 rfl) rfl rfl

theorem error_ne_null (e : ReportExecutionError) : (error e).document ≠ .null := by
  rw [error, Serialized.document]
  exact nofun

/-- A test is read back. -/
theorem test_inverts : Inverts ReportTest.ofDocument test := by
  intro t
  rw [ReportTest.ofDocument, test, bind_struct]
  refine bind_read (field_entries (by simp) 0 rfl) rfl ?_
  refine bind_read (field_entries (by simp) 1 rfl) (ReportStatus.inverts t.status) ?_
  refine bind_read (field_entries (by simp) 2 rfl) rfl ?_
  refine bind_read (field_entries (by simp) 3 rfl) (asListOf_inverts failure_inverts t.failures) ?_
  refine bind_read (optionalField_entries (by simp) 4 rfl)
    (asOptional_inverts error_inverts error_ne_null t.error) rfl

/-- A block is read back. -/
theorem block_inverts : Inverts ReportBlock.ofDocument block := by
  intro b
  rw [ReportBlock.ofDocument, block, bind_struct]
  refine bind_read (field_entries (by simp) 0 rfl) (ReportBlockKind.inverts b.kind) ?_
  refine bind_read (optionalField_entries (by simp) 1 rfl)
    (asOptional_inverts inverts_string string_ne_null b.name) ?_
  refine bind_read (field_entries (by simp) 2 rfl) (ReportStatus.inverts b.status) ?_
  refine bind_read (field_entries (by simp) 3 rfl) rfl ?_
  refine bind_read (field_entries (by simp) 4 rfl) (asListOf_inverts test_inverts b.tests) rfl

/-- A summary is read back. -/
theorem summary_inverts : Inverts ReportSummary.ofDocument summary := by
  intro s
  rw [ReportSummary.ofDocument, summary, bind_struct]
  refine bind_read (field_entries (by simp) 0 rfl) rfl ?_
  refine bind_read (field_entries (by simp) 1 rfl) rfl ?_
  refine bind_read (field_entries (by simp) 2 rfl) rfl ?_
  refine bind_read (field_entries (by simp) 3 rfl) rfl ?_
  refine bind_read (field_entries (by simp) 4 rfl) rfl rfl

/-- **A report is read back.** -/
theorem report_inverts : Inverts RunReport.ofDocument report := by
  intro r
  rw [RunReport.ofDocument, report, bind_struct]
  refine bind_read (field_entries (by simp) 0 rfl) rfl ?_
  refine bind_read (field_entries (by simp) 1 rfl) rfl ?_
  refine bind_read (optionalField_entries (by simp) 2 rfl)
    (asOptional_inverts inverts_string string_ne_null r.name) ?_
  refine bind_read (field_entries (by simp) 3 rfl) (ReportStatus.inverts r.status) ?_
  refine bind_read (field_entries (by simp) 4 rfl) rfl ?_
  refine bind_read (field_entries (by simp) 5 rfl) (summary_inverts r.summary) ?_
  refine bind_read (field_entries (by simp) 6 rfl) (asListOf_inverts block_inverts r.blocks) ?_
  refine bind_read (optionalField_entries (by simp) 7 rfl)
    (asOptional_inverts error_inverts error_ne_null r.error) rfl

end JsonReport

section

variable [Platform]

/-- What is known of `serde_json::to_string_pretty`: the text stands for the document of the
value. -/
def PrintsJson : Prop :=
  ∀ value : Serialized, JsonText.IsText (Platform.jsonPretty value).toList value.document

/-- What is rendered is a text of the report. -/
theorem render_isText (hprints : PrintsJson) (r : RunReport) :
    JsonText.IsText (JsonReport.render r).toList (JsonReport.report r).document := by
  rw [JsonReport.render, String.toList_append]
  exact (hprints (JsonReport.report r)).append Serialized.blank_lineFeed

/-- **The published text of a report is JSON, and to read it as JSON gives back the report**: the
text stands for one document and no other, and what the derived `Deserialize` makes of that is the
report that was written. -/
theorem jsonReport_reads (hprints : PrintsJson) (r : RunReport) :
    ∃ document, JsonText.IsText (JsonReport.render r).toList document ∧
      (∀ document', JsonText.IsText (JsonReport.render r).toList document' →
        document' = document) ∧
      RunReport.ofDocument document = some r := by
  have htext := render_isText hprints r
  exact ⟨_, htext, fun document' h => h.unique htext, JsonReport.report_inverts r⟩

end

/-- The printer with lines and indentation writes JSON. -/
theorem jsonPlatform_printsJson : @PrintsJson jsonPlatform := by
  intro value
  have hwrites : Writes (@Platform.jsonPretty jsonPlatform value).toList value.document :=
    Serialized.indented_writes jsonPlatform_quotesJson (by simp [Serialized.Blank]) value
  exact hwrites.isText

/-- A report with a failed test and an error, and without a name. -/
def unnamedReport : RunReport :=
  ⟨1, "a \"b\".rttp", none, .failed, 12, ⟨1, 0, 1, 0, 0⟩,
    [⟨.test, some "get", .failed, 12,
      [⟨"get", .failed, 12, [⟨"status", .statusMismatch, some "200", some "404", "no"⟩], none⟩]⟩],
    some ⟨.internal, "stop"⟩⟩

/-- The report with the failed test and the error. -/
theorem jsonReport_reads_unnamed :
    letI := jsonPlatform
    ∃ document, JsonText.IsText (JsonReport.render unnamedReport).toList document ∧
      (∀ document', JsonText.IsText (JsonReport.render unnamedReport).toList document' →
        document' = document) ∧
      RunReport.ofDocument document = some unnamedReport :=
  letI := jsonPlatform
  jsonReport_reads jsonPlatform_printsJson unnamedReport

end Rettp
