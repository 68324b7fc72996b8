import Rettp.Grammar
import Rettp.Parser
import Rettp.SpanTree

/-!
# The spans of a syntax tree

What each node of a syntax tree is written with, as a tree of spans (`SuiteAst.node`). The comma
behind an entry, a field or an item of a list belongs to what is around it. The comma behind a
status and behind an empty or textual body is inside: the span is closed after it.
-/

namespace Rettp

open Grammar (methodOf typeOf)

/-! ## Parts -/

/-- Subtrees, one after the other. -/
def childParts (nodes : List SpanNode) : List SpanPart := nodes.map .child

/-- Nodes, each with a comma that may follow it. -/
def listed (nodes : List SpanNode) : List SpanPart :=
  nodes.flatMap fun node => [.child node, .optional [.comma]]

/-- Parts between braces. -/
def braced (parts : List SpanPart) : List SpanPart :=
  .token .leftBrace :: (parts ++ [.token .rightBrace])

namespace Spanned

/-- A string literal with its text. -/
def textNode (text : Spanned String) : SpanNode :=
  .leaf (· = .stringLiteral text.value) text.span

/-- A key: a word or a string literal that is read as this name. -/
def keyNode (key : Spanned String) : SpanNode :=
  .leaf (fun kind => keyText kind = some key.value) key.span

/-- An integer literal with its value. -/
def integerNode (value : Spanned Int) : SpanNode :=
  .leaf (· = .integerLiteral value.value) value.span

end Spanned

/-! ## Values -/

mutual

/-- A literal. -/
def ValueAst.node : ValueAst → SpanNode
  | .string value => value.textNode
  | .integer value => value.integerNode
  | .number value => .leaf (· = .numberLiteral value.value) value.span
  | .boolean value => .leaf (· = if value.value then .true_ else .false_) value.span
  | .null span => .leaf (· = .null) span
  | .array ⟨items, span⟩ =>
    .branch span (.token .leftBracket :: (listed (itemNodes items) ++ [.token .rightBracket]))
  | .object ⟨entries, span⟩ => .branch span (braced (listed (entryNodes entries)))

/-- The items of an array. -/
def itemNodes : List ValueAst → List SpanNode
  | [] => []
  | item :: items => item.node :: itemNodes items

/-- The entries of an object. -/
def entryNodes : List ObjectValueEntryAst → List SpanNode
  | [] => []
  | ⟨key, value, span⟩ :: entries =>
    .branch span [.child key.keyNode, .token .equal, .child value.node] :: entryNodes entries

end

/-- An object: its entries between braces. -/
def ObjectValueAst.node (object : ObjectValueAst) : SpanNode :=
  .branch object.span (braced (listed (entryNodes object.entries)))

/-! ## Requests -/

/-- A request header: a string, an equal sign and a value. -/
def HeaderValueEntryAst.node (entry : HeaderValueEntryAst) : SpanNode :=
  .branch entry.span [.child entry.name.textNode, .token .equal, .child entry.value.node]

/-- The headers of a request between braces. -/
def RequestHeadersAst.node (headers : RequestHeadersAst) : SpanNode :=
  .branch headers.span
    (.token .headers :: braced (listed (headers.entries.map HeaderValueEntryAst.node)))

/-- The object of a query has no node of its own. -/
def RequestQueryAst.node (query : RequestQueryAst) : SpanNode :=
  .branch query.span (.token .query :: braced (listed (entryNodes query.entries)))

/-- The body of a request: an object after its keyword. -/
def RequestBodyAst.node (body : RequestBodyAst) : SpanNode :=
  .branch body.span [.token .body, .child body.value.node]

/-- A section of a request. -/
def RequestSectionAst.node : RequestSectionAst → SpanNode
  | .headers section_ => section_.node
  | .query section_ => section_.node
  | .body section_ => section_.node

/-- The sections between braces; without sections the braces may be left out. -/
def sectionParts : List RequestSectionAst → List SpanPart
  | [] => [.optional [.leftBrace, .rightBrace]]
  | sections => braced (childParts (sections.map RequestSectionAst.node))

/-- A request: its keyword, its method, its path and its sections. -/
def RequestAst.node (request : RequestAst) : SpanNode :=
  .branch request.span
    (.token .request ::
      .child (.leaf (fun kind => methodOf kind = some request.method.value) request.method.span) ::
      .child request.path.textNode :: sectionParts request.sections)

/-! ## Expectations -/

/-- A status assertion, with or without a comma. -/
def StatusAssertionAst.node (status : StatusAssertionAst) : SpanNode :=
  .branch status.span
    [.token .status, .token .equal, .child status.expected.integerNode, .optional [.comma]]

/-- A header assertion, with a type or a value. -/
def ResponseHeaderAssertionAst.node : ResponseHeaderAssertionAst → SpanNode
  | .exists_ name typeSpan span =>
    .branch span [.child name.textNode, .token .colon, .child (.leaf (· = .typeString) typeSpan)]
  | .exact name expected span =>
    .branch span [.child name.textNode, .token .equal, .child expected.textNode]
  | .contains name expected span =>
    .branch span [.child name.textNode, .token (.identifier "contains"), .child expected.textNode]

/-- The headers of an expectation between braces. -/
def ResponseHeadersAst.node (headers : ResponseHeadersAst) : SpanNode :=
  .branch headers.span
    (.token .headers :: braced (listed (headers.entries.map ResponseHeaderAssertionAst.node)))

/-- The type of a field after a colon, if it has one. -/
def typeParts : Option (Spanned AssertionTypeAst) → List SpanPart
  | none => []
  | some type =>
    [.token .colon, .child (.leaf (fun kind => typeOf kind = some type.value) type.span)]

/-- The value of a field after an equal sign, if it has one. -/
def valueParts : Option ValueAst → List SpanPart
  | none => []
  | some value => [.token .equal, .child value.node]

/-- The capture of a field after an arrow, if it has one. -/
def captureParts : Option (Spanned String) → List SpanPart
  | none => []
  | some capture => [.token .arrow, .child (.leaf (· = .identifier capture.value) capture.span)]

mutual

/-- Fields. -/
def fieldNodes : List FieldAssertionAst → List SpanNode
  | [] => []
  | field :: fields => field.node :: fieldNodes fields

/-- A field and what it declares. -/
def FieldAssertionAst.node : FieldAssertionAst → SpanNode
  | ⟨name, expectedType, expectedValue, nested, capture, span⟩ =>
    .branch span (.child name.keyNode :: (typeParts expectedType ++
      (valueParts expectedValue ++ nestedParts nested) ++ captureParts capture))

/-- Nested fields between braces, if there are any. -/
def nestedParts : Option ObjectAssertionAst → List SpanPart
  | none => []
  | some ⟨_, fields, span⟩ => [.child (.branch span (braced (listed (fieldNodes fields))))]

end

/-- The fields of an object between braces. -/
def ObjectAssertionAst.node (assertion : ObjectAssertionAst) : SpanNode :=
  .branch assertion.span (braced (listed (fieldNodes assertion.fields)))

/-- The keyword of an exact assertion. -/
def modeParts : ObjectMatchModeAst → List SpanPart
  | .partially => []
  | .exact => [.token .exact]

/-- A body assertion. -/
def BodyAssertionAst.node : BodyAssertionAst → SpanNode
  | .empty span => .branch span [.token .body, .token (.identifier "empty"), .optional [.comma]]
  | .textExact expected span =>
    .branch span [.token .body, .token .equal, .child expected.textNode, .optional [.comma]]
  | .textContains expected span =>
    .branch span [.token .body, .token (.identifier "contains"), .child expected.textNode,
      .optional [.comma]]
  -- the span of the assertion starts at the keyword
  | .object assertion =>
    .branch assertion.span (.token .body ::
      (modeParts assertion.mode ++ braced (listed (fieldNodes assertion.fields))))

/-- A section of an expectation. -/
def ExpectationSectionAst.node : ExpectationSectionAst → SpanNode
  | .status assertion => assertion.node
  | .headers assertions => assertions.node
  | .body assertion => assertion.node

/-- An expectation: its sections between braces. -/
def ExpectationAst.node (expectation : ExpectationAst) : SpanNode :=
  .branch expectation.span
    (.token .expect :: braced (childParts (expectation.sections.map ExpectationSectionAst.node)))

/-! ## Suites -/

/-- A test: its requests and its expectations between braces. -/
def TestAst.node (test : TestAst) : SpanNode :=
  .branch test.span (.token .test :: .child test.name.textNode ::
    braced (childParts (test.requests.map RequestAst.node ++
      test.expectations.map ExpectationAst.node)))

/-- The core: its tests between braces. -/
def CoreBlockAst.node (block : CoreBlockAst) : SpanNode :=
  .branch block.span (.token .core :: braced (childParts (block.tests.map TestAst.node)))

/-- A pipeline: its name, and its tests between braces. -/
def PipelineBlockAst.node (block : PipelineBlockAst) : SpanNode :=
  .branch block.span (.token .pipeline :: .child block.name.textNode ::
    braced (childParts (block.tests.map TestAst.node)))

/-- A block. -/
def BlockAst.node : BlockAst → SpanNode
  | .core block => block.node
  | .pipeline block => block.node
  | .test t => t.node

/-- A suite: its blocks one after the other. -/
def SuiteAst.node (suite : SuiteAst) : SpanNode :=
  .branch suite.span (childParts (suite.blocks.map BlockAst.node))

/-! ## Lists of nodes -/

/-- An entry of an object: a key, an equal sign and a value. -/
def ObjectValueEntryAst.node (entry : ObjectValueEntryAst) : SpanNode :=
  .branch entry.span [.child entry.key.keyNode, .token .equal, .child entry.value.node]

theorem itemNodes_eq (items : List ValueAst) : itemNodes items = items.map ValueAst.node := by
  induction items with
  | nil => rw [itemNodes, List.map_nil]
  | cons item items ih => rw [itemNodes, ih, List.map_cons]

theorem entryNodes_eq (entries : List ObjectValueEntryAst) :
    entryNodes entries = entries.map ObjectValueEntryAst.node := by
  induction entries with
  | nil => rw [entryNodes, List.map_nil]
  | cons entry entries ih =>
    obtain ⟨key, value, span⟩ := entry
    rw [entryNodes, ih, List.map_cons, ObjectValueEntryAst.node]

theorem fieldNodes_eq (fields : List FieldAssertionAst) :
    fieldNodes fields = fields.map FieldAssertionAst.node := by
  induction fields with
  | nil => rw [fieldNodes, List.map_nil]
  | cons field fields ih => rw [fieldNodes, ih, List.map_cons]

theorem nestedParts_some (assertion : ObjectAssertionAst) :
    nestedParts (some assertion) = [.child assertion.node] := by
  obtain ⟨mode, fields, span⟩ := assertion
  rw [nestedParts, ObjectAssertionAst.node]

theorem ValueAst.node_object (object : ObjectValueAst) :
    (ValueAst.object object).node = object.node := by
  obtain ⟨entries, span⟩ := object
  rw [ValueAst.node, ObjectValueAst.node]

/-! ## Spans -/

theorem ValueAst.node_span (value : ValueAst) : value.node.span = value.span := by
  cases value with
  | array value =>
    obtain ⟨items, span⟩ := value
    rw [ValueAst.node]
    rfl
  | object value => rw [ValueAst.node_object]; rfl
  | _ => rw [ValueAst.node]; rfl

theorem BlockAst.node_span (block : BlockAst) : block.node.span = block.span := by
  cases block <;> rfl

/-! ## What lists cover -/

variable {α : Type} {f : α → SpanNode} {as : List α} {a : α} {ts us : List Token}

/-- One more node behind the others. -/
theorem CoverAll.child_snoc (h : CoverAll (childParts (as.map f)) ts) (h' : (f a).Covers us) :
    CoverAll (childParts ((as ++ [a]).map f)) (ts ++ us) := by
  rw [childParts, List.map_append, List.map_append]
  exact h.snoc (.child h')

/-- One more node behind the others, and a comma that may follow it. -/
theorem CoverAll.listed_snoc {commas : List Token} (h : CoverAll (listed (as.map f)) ts)
    (h' : (f a).Covers us) (hcommas : (SpanPart.optional [.comma]).Covers commas) :
    CoverAll (listed ((as ++ [a]).map f)) (ts ++ us ++ commas) := by
  have hone : listed ((as ++ [a]).map f) =
      listed (as.map f) ++ [.child (f a)] ++ [.optional [.comma]] := by
    simp [listed, List.flatMap_append]
  rw [hone]
  exact (h.snoc (.child h')).snoc hcommas

end Rettp
