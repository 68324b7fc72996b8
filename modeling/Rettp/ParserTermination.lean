import Rettp.ParserHeight
import Rettp.ParserSuite

/-!
# Parsing terminates

The loops of the parser are listed (`ParserLoop`). A round of each passes over a token, so each
ends because its condition fails, never because the rounds that the model gives it run out; and
the recursion is as deep as containers may be opened. With what is known about nesting and about
the height of trees this is `parse_terminates`.
-/

namespace Rettp

variable [Platform]

/-- The condition of a loop that stops at the end or before some kinds. -/
def continues {α : Type} (stop : TokenKind → Bool) (_ : α) (p : Parser) : Bool :=
  !p.head.all (·.isEof) && !p.head.any stop

/-- The loops of the parser: what is carried, the condition and the body. -/
inductive ParserLoop : (α : Type) → (α → Parser → Bool) → (α → ParserM α) → Prop
  | skipTo (stop : TokenKind → Bool) : ParserLoop Unit (continues stop) fun _ => bump
  | skipBalancedContainer : ParserLoop Nat
      (fun depth p => !p.head.all (·.isEof) && decide (depth > 0)) fun depth => do
        let kind ← peekKind
        bump
        pure (depthAfter depth kind)
  | objectValue : ParserLoop _
      (continues fun kind => isRightBrace kind || kind.isContainerBoundary)
      (objectValueEntry parseValue)
  | arrayValue : ParserLoop _
      (continues fun kind => isRightBracket kind || kind.isContainerBoundary) (arrayItem parseValue)
  | requestHeaders : ParserLoop _
      (continues fun kind => isRightBrace kind || kind.isContainerBoundary) requestHeader
  | request : ParserLoop _
      (continues fun kind => isRightBrace kind || kind.isTestBoundary) requestSection
  | responseHeaders : ParserLoop _
      (continues fun kind => isRightBrace kind || kind.isExpectationSectionStart ||
        kind.isTestBoundary) responseHeader
  | objectAssertion : ParserLoop _
      (continues fun kind => isRightBrace kind || kind.isContainerBoundary)
      (fieldAssertion (parseObjectAssertion .partially))
  | expectation : ParserLoop _
      (continues fun kind => isRightBrace kind || kind.isTestBoundary) expectationSection
  | test : ParserLoop _
      (continues fun kind => isRightBrace kind || kind.isSuiteBoundary) testItem
  | container (description : String) : ParserLoop _
      (continues fun kind => isRightBrace kind || kind.isOuterBlockBoundary)
      (containedTest description)
  | suite : ParserLoop _ (continues fun _ => false) suiteItem

/-- **Rounds.** A round of a loop passes over at least one token. -/
theorem ParserLoop.passes {α : Type} {again : α → Parser → Bool} {body : α → ParserM α}
    (h : ParserLoop α again body) {a : α} {p : Parser} (hagain : again a p = true) :
    (∃ ts, Passed p ((body a).run p).2 ts) ∧ ((body a).run p).2.rest ≠ p.rest := by
  have hpassed : ∀ {q : Parser}, Moved p q → ∃ ts, Passed p q ts := fun hmoved =>
    ⟨_, hmoved.passed.choose_spec.1⟩
  cases h with
  | skipTo stop =>
    have hbefore := before_of_again hagain
    refine ⟨?_, Advances.bump not_before_none p hbefore⟩
    cases hlive : p.live with
    | nil =>
      obtain ⟨kind, hkind, -⟩ := hbefore
      rw [next_eq_none.mpr hlive] at hkind
      cases hkind
    | cons t live => exact ⟨[t], .bump hlive⟩
  | skipBalancedContainer =>
    rw [Bool.and_eq_true, not_at_end, Option.isSome_iff_exists] at hagain
    obtain ⟨⟨kind, hkind⟩, -⟩ := hagain
    have hbump : Advances (· = some kind) bump := .bump fun h => (nomatch h)
    refine ⟨?_, hbump p hkind⟩
    cases hlive : p.live with
    | nil =>
      rw [next_eq_none.mpr hlive] at hkind
      cases hkind
    | cons t live => exact ⟨[t], .bump hlive⟩
  | objectValue =>
    exact ⟨hpassed ((objectValueEntry_coupled parseValue_coupled a).moved p (before_of_again hagain)).2,
      objectValueEntry_advances _ a p (before_of_again hagain)⟩
  | arrayValue =>
    exact ⟨hpassed ((arrayItem_coupled parseValue_coupled a).moved p (before_of_again hagain)).2,
      arrayItem_advances parseValue_finds a p (before_of_again hagain)⟩
  | requestHeaders =>
    exact ⟨hpassed ((requestHeader_coupled a).moved p (before_of_again hagain)).2,
      requestHeader_advances a p (before_of_again hagain)⟩
  | request =>
    exact ⟨hpassed ((requestSection_coupled a).moved p (before_of_again hagain)).2,
      requestSection_advances a p (before_of_again hagain)⟩
  | responseHeaders =>
    exact ⟨hpassed ((responseHeader_coupled a).moved p (before_of_again hagain)).2,
      responseHeader_advances a p (before_of_again hagain)⟩
  | objectAssertion =>
    have hfollows := fieldAssertion_follows (H := Before fun kind => isRightBrace kind ||
      kind.isContainerBoundary) (parseObjectAssertion_follows .partially) a
    exact ⟨hpassed (hfollows.moved p (before_of_again hagain)).2,
      fieldAssertion_advances _ a p (before_of_again hagain)⟩
  | expectation =>
    exact ⟨hpassed ((expectationSection_follows a).moved p (before_of_again hagain)).2,
      expectationSection_advances a p (before_of_again hagain)⟩
  | test =>
    exact ⟨hpassed ((testItem_follows a).moved p (before_of_again hagain)).2,
      testItem_advances a p (before_of_again hagain)⟩
  | container description =>
    exact ⟨hpassed ((containedTest_follows description a).moved p (before_of_again hagain)).2,
      containedTest_advances description a p (before_of_again hagain)⟩
  | suite =>
    refine ⟨?_, suiteItem_advances a p (before_of_again hagain)⟩
    obtain ⟨kind, hkind, -⟩ := before_of_again hagain
    cases hlive : p.live with
    | nil =>
      rw [next_eq_none.mpr hlive] at hkind
      cases hkind
    | cons t live => exact ⟨_, (suiteItem_opens a hlive).passed.choose_spec.1⟩

/-- A loop with as many rounds as there are tokens before the end. -/
def ParserLoop.program {α : Type} {again : α → Parser → Bool} {body : α → ParserM α}
    (_ : ParserLoop α again body) (start : α) : ParserM α := do
  repeatWhile (fun a => .read (again a)) body (← remaining) start

/-- **Loops.** A loop ends because its condition fails. -/
theorem ParserLoop.ends {α : Type} {again : α → Parser → Bool} {body : α → ParserM α}
    (h : ParserLoop α again body) (start : α) (p : Parser) :
    again ((h.program start).run p).1 ((h.program start).run p).2 = false := by
  have hends := Recorder.repeatWhile_ends (M := parserRecording) (I := fun _ _ => True) (a := start)
    (s := p) again body (fun p : Parser => p.live.length) (fun a q _ hagain => ?_)
    (Nat.le_of_eq (remaining_eq p).symm) trivial
  · exact hends.2
  · obtain ⟨⟨ts, hts⟩, hrest⟩ := h.passes hagain
    exact ⟨trivial, hts.live_lt hrest⟩

/-! ## Suite level -/

/-- The states between two blocks. -/
inductive AtSuite (start : Parser) : SuiteItems → Parser → Prop
  | start : AtSuite start ⟨[], false⟩ start
  | item {items : SuiteItems} {p : Parser} (h : AtSuite start items p)
    (hagain : continues (fun _ => false) items p = true) :
    AtSuite start ((suiteItem items).run p).1 ((suiteItem items).run p).2

theorem AtSuite.nestingDepth {start p : Parser} {items : SuiteItems} (h : AtSuite start items p) :
    p.nestingDepth = start.nestingDepth := by
  induction h with
  | start => rfl
  | item h hagain ih => exact (suiteItem_steady _ _).trans ih

/-! ## The tree -/

/-- What may hold containers. -/
inductive AstNode where
  | value (value : ValueAst)
  | assertion (assertion : ObjectAssertionAst)

/-- The nesting of a node. -/
def AstNode.height : AstNode → Nat
  | .value v => v.height
  | .assertion a => a.height

/-- An array, an object value or an object assertion. -/
def AstNode.isContainer : AstNode → Bool
  | .value (.array _) | .value (.object _) | .assertion _ => true
  | .value _ => false

/-- In `outer`, `inner` is nested in so many containers. -/
inductive AstNode.Nested : (outer : AstNode) → Nat → (inner : AstNode) → Prop
  | self (node : AstNode) : Nested node 0 node
  | item {items : List ValueAst} {span : SourceSpan} {item : ValueAst} {depth : Nat}
    {node : AstNode} (hitem : item ∈ items) (h : Nested (.value item) depth node) :
    Nested (.value (.array ⟨items, span⟩)) (depth + 1) node
  | entry {entries : List ObjectValueEntryAst} {span : SourceSpan} {entry : ObjectValueEntryAst}
    {depth : Nat} {node : AstNode} (hentry : entry ∈ entries)
    (h : Nested (.value entry.value) depth node) :
    Nested (.value (.object ⟨entries, span⟩)) (depth + 1) node
  | comparison {mode : ObjectMatchModeAst} {fields : List FieldAssertionAst} {span : SourceSpan}
    {field : FieldAssertionAst} {value : ValueAst} {depth : Nat} {node : AstNode}
    (hfield : field ∈ fields) (hvalue : field.expectedValue = some value)
    (h : Nested (.value value) depth node) :
    Nested (.assertion ⟨mode, fields, span⟩) (depth + 1) node
  | nested {mode : ObjectMatchModeAst} {fields : List FieldAssertionAst} {span : SourceSpan}
    {field : FieldAssertionAst} {assertion : ObjectAssertionAst} {depth : Nat} {node : AstNode}
    (hfield : field ∈ fields) (hnested : field.nested = some assertion)
    (h : Nested (.assertion assertion) depth node) :
    Nested (.assertion ⟨mode, fields, span⟩) (depth + 1) node

/-- The values of the requests and the object assertions of the expectations. -/
def BlockAst.nodes (block : BlockAst) : List AstNode :=
  block.tests.flatMap fun test =>
    (test.requests.flatMap fun request => request.values.map .value) ++
      test.expectations.flatMap fun expectation => expectation.assertions.map .assertion

section
omit [Platform]

theorem AstNode.height_pos {node : AstNode} (h : node.isContainer = true) : 0 < node.height := by
  cases node with
  | value v =>
    cases v with
    | array array =>
      cases array
      exact Nat.succ_pos _
    | object object =>
      cases object
      exact Nat.succ_pos _
    | _ => cases h
  | assertion a =>
    cases a
    exact Nat.succ_pos _

/-- The containers around a node add to its height. -/
theorem AstNode.Nested.height_le {outer inner : AstNode} {depth : Nat}
    (h : outer.Nested depth inner) : depth + inner.height ≤ outer.height := by
  induction h with
  | self node => exact Nat.le_of_eq (Nat.zero_add _)
  | @item items span item depth node hitem h ih =>
    have hle := heightOfItems_le.mp (Nat.le_refl (heightOfItems items)) item hitem
    change depth + 1 + node.height ≤ heightOfItems items + 1
    change depth + node.height ≤ item.height at ih
    omega
  | @entry entries span entry depth node hentry h ih =>
    have hle := heightOfEntries_le.mp (Nat.le_refl (heightOfEntries entries)) entry hentry
    change depth + 1 + node.height ≤ heightOfEntries entries + 1
    change depth + node.height ≤ entry.value.height at ih
    omega
  | @comparison mode fields span field value depth node hfield hvalue h ih =>
    have hle := heightOfFields_le.mp (Nat.le_refl (heightOfFields fields)) field hfield
    change depth + 1 + node.height ≤ heightOfFields fields + 1
    change depth + node.height ≤ value.height at ih
    have hvalue' := (field_height_le hle).1 value hvalue
    omega
  | @nested mode fields span field assertion depth node hfield hnested h ih =>
    have hle := heightOfFields_le.mp (Nat.le_refl (heightOfFields fields)) field hfield
    change depth + 1 + node.height ≤ heightOfFields fields + 1
    change depth + node.height ≤ assertion.height at ih
    have hnested' := (field_height_le hle).2 assertion hnested
    omega

theorem BlockAst.HeightTo.nodes {block : BlockAst} {k : Nat} (h : block.HeightTo k)
    {node : AstNode} (hnode : node ∈ block.nodes) : node.height ≤ k := by
  obtain ⟨test, htest, hmem⟩ := List.mem_flatMap.mp hnode
  rcases List.mem_append.mp hmem with hmem | hmem
  · obtain ⟨request, hrequest, hmem⟩ := List.mem_flatMap.mp hmem
    obtain ⟨value, hvalue, rfl⟩ := List.mem_map.mp hmem
    exact (h test htest).requests request hrequest value hvalue
  · obtain ⟨expectation, hexpectation, hmem⟩ := List.mem_flatMap.mp hmem
    obtain ⟨assertion, hassertion, rfl⟩ := List.mem_map.mp hmem
    exact (h test htest).expectations expectation hexpectation assertion hassertion

/-- The limit that a parser works with. -/
theorem withMaxNestingDepth_limit (p : Parser) (limit : Nat) :
    (p.withMaxNestingDepth limit).maxNestingDepth = min limit hardMaxNestingDepth := by
  change (if limit > hardMaxNestingDepth then hardMaxNestingDepth else limit) = _
  split <;> omega

end

theorem Parser.parse_height (p : Parser) {slack : Nat} (h : p.parse.errors ≠ [] → 1 ≤ slack) :
    ∀ block ∈ p.parse.ast.blocks, block.HeightTo (p.nestingLeft + slack) :=
  parseSuite_makes p (Nat.le_refl _) h

/-! ## Termination -/

/-- **Termination.** Whatever the tokens and the limit are: every round of every loop passes over
a token, so that every loop ends by its condition; the recursions over nested values and nested
assertions are those of the source, and a call nested in more than the limit's number of others
is never made; between two blocks no container is open; and no container of the tree is nested in
more than the limit's number of others, and in fewer if there is no error. -/
theorem parse_terminates (tokens : List Token) (limit : Nat) :
    let start := (Parser.new tokens).withMaxNestingDepth limit
    let bound := min limit hardMaxNestingDepth
    (∀ {α : Type} {again : α → Parser → Bool} {body : α → ParserM α}
      (loop : ParserLoop α again body),
      (∀ a p, again a p = true → ((body a).run p).2.rest.length < p.rest.length) ∧
        ∀ a p, again ((loop.program a).run p).1 ((loop.program a).run p).2 = false) ∧
    (∀ p, parseValue.run p = (parseValueWith parseValue).run p ∧
      ∀ mode, (parseObjectAssertion mode).run p =
        (parseObjectAssertionWith (parseObjectAssertion .partially) mode).run p) ∧
    (∀ p, p.maxNestingDepth = start.maxNestingDepth →
      (∀ deeper, (parseValueOver deeper bound).run p = parseValue.run p) ∧
        ∀ deeper mode, (parseObjectAssertionOver deeper bound mode).run p =
          (parseObjectAssertion mode).run p) ∧
    (∀ items p, AtSuite start items p → p.nestingDepth = 0) ∧
    ∀ block ∈ start.parse.ast.blocks, ∀ outer ∈ block.nodes, ∀ depth inner,
      outer.Nested depth inner → inner.isContainer = true →
        depth ≤ bound ∧ (start.parse.errors = [] → depth < bound) := by
  intro start bound
  have hbound : start.maxNestingDepth = bound := withMaxNestingDepth_limit _ _
  have hleft : start.nestingLeft = bound := by
    rw [Parser.nestingLeft, hbound]
    rfl
  refine ⟨fun {_ _ body} loop => ⟨fun a p hagain => ?_, loop.ends⟩,
    fun p => ⟨parseValue_fixed p, fun mode => parseObjectAssertion_fixed mode p⟩, fun p hp => ?_,
    fun items p h => h.nestingDepth, fun block hblock outer houter depth inner hnested hinner => ?_⟩
  · obtain ⟨⟨ts, hts⟩, hrest⟩ := loop.passes hagain
    exact Nat.lt_of_le_of_ne ((body a).moves p).1.length_le fun hlength =>
      hrest (((body a).moves p).1.eq_of_length hlength)
  · have hp' : p.nestingLeft ≤ bound := by
      rw [Parser.nestingLeft, hp, hbound]
      exact Nat.sub_le _ _
    exact ⟨fun deeper => parseValueOver_run deeper hp',
      fun deeper mode => parseObjectAssertionOver_run deeper mode hp'⟩
  · have hpos := AstNode.height_pos hinner
    have hle := hnested.height_le
    refine ⟨?_, ?_⟩
    · have hheight := (start.parse_height (fun _ => Nat.le_refl 1) block hblock).nodes houter
      omega
    · intro herrors
      have hheight := (@Parser.parse_height _ start 0 (fun h => absurd herrors h) block
        hblock).nodes houter
      omega

end Rettp
