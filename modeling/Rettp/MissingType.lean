import Rettp.CoupledParser

/-!
# Where the type of a field is missing

`parse_assertion_type` is the one parser function that does not record an error when it finds no
token at all. Whether a parse comes to it with no token left is decided here, along the calls
that lead there: `…LacksType` follows the function of its name over the same tokens.

The functions on that way keep every coupling (`Coupling`) that agrees on whether tokens are left;
where the type is missing a relation `S false` may turn into `S true` (`Follows`).
-/

namespace Rettp

variable [Platform]

open Recorder (Lockstep)

/-- Run a program, then ask. -/
def after {α : Type} (f : ParserM α) (lacks : α → Parser → Bool) (p : Parser) : Bool :=
  lacks (f.run p).1 (f.run p).2

/-- The branch is not taken. -/
def never (_ : Parser) : Bool := false

/-- In some round of a loop. -/
def roundLacksType {α : Type} (stop : TokenKind → Bool) (body : α → ParserM α)
    (lacks : α → Parser → Bool) : Nat → α → Parser → Bool
  | 0, _, _ => false
  | fuel + 1, a, p =>
    if !p.head.all (·.isEof) && !p.head.any stop then
      lacks a p || after (body a) (roundLacksType stop body lacks fuel) p
    else false

/-- A loop, in one of whose rounds the branch is taken. -/
def loopLacksType {α : Type} (stop : TokenKind → Bool) (body : α → ParserM α)
    (lacks : α → Parser → Bool) (start : α) : Parser → Bool :=
  after remaining fun fuel => roundLacksType stop body lacks fuel start

section Fields

variable (parseNested : ParserM ObjectAssertionAst) (nested : Parser → Bool)

/-- The type or the value of a field, where the branch may be taken. -/
def operandLacksType (expectedType : Option (Spanned AssertionTypeAst)) : Parser → Bool :=
  after (take .equal) fun equal =>
    if equal.isSome then never
    else after (check .leftBrace) fun brace =>
      if expectedType.any (fun kind => kind.value = .object) && brace then nested else never

/-- No token is left for the type, or the nested assertion lacks one. -/
def typedLacksType (p : Parser) : Bool :=
  p.rest.isEmpty || after parseAssertionType (operandLacksType nested) p

/-- A field of an object assertion. -/
def fieldLacksType : Parser → Bool :=
  after objectKey fun key =>
    match key with
    | none => never
    | some _ => after (take .colon) fun colon =>
      if colon.isSome then typedLacksType nested else operandLacksType nested none

/-- An object assertion, given its nested fields. -/
def objectLacksType : Parser → Bool :=
  after (take .leftBrace) fun brace =>
    match brace with
    | none => never
    | some t => after (enterNesting t.span) fun entered =>
      if entered then
        loopLacksType (fun kind => isRightBrace kind || kind.isContainerBoundary)
          (fieldAssertion parseNested) (fun _ => fieldLacksType nested) []
      else never

end Fields

/-- An object assertion with so many levels of nesting left. -/
def objectLacksTypeAt : Nat → Parser → Bool
  | 0 => objectLacksType (pure ⟨.partially, [], ⟨0, 0⟩⟩) never
  | depth + 1 => objectLacksType (parseObjectAssertionAt depth .partially) (objectLacksTypeAt depth)

/-- A body assertion. -/
def bodyLacksType : Parser → Bool :=
  after (consumeStart .body "`body`") fun _ =>
    after (takeContextualIdentifier "empty") fun empty => if empty then never else
    after (take .equal) fun equal => if equal.isSome then never else
    after (takeContextualIdentifier "contains") fun contains => if contains then never else
    after (take .exact) fun _ => after nestingLeft objectLacksTypeAt

/-- A section of an expectation. -/
def sectionLacksType (p : Parser) : Bool :=
  match p.head with
  | some .body => bodyLacksType p
  | _ => false

/-- An expectation. -/
def expectationLacksType : Parser → Bool :=
  after (consumeStart .expect "`expect`") fun _ =>
    after (consume .leftBrace "`\x7b` after `expect`") fun _ =>
    loopLacksType (fun kind => isRightBrace kind || kind.isTestBoundary) expectationSection
      (fun _ => sectionLacksType) []

/-- An item of a test. -/
def itemLacksType (p : Parser) : Bool :=
  match p.head with
  | some .expect => expectationLacksType p
  | _ => false

/-- A test. -/
def testLacksType : Parser → Bool :=
  after (consumeStart .test "`test`") fun _ => after (stringLiteral "test name string") fun _ =>
    after (consume .leftBrace "`\x7b` after test name") fun _ =>
    loopLacksType (fun kind => isRightBrace kind || kind.isSuiteBoundary) testItem
      (fun _ => itemLacksType) ⟨[], [], false⟩

/-- A test in a block. -/
def containedLacksType : Parser → Bool :=
  after (check .test) fun isTest => if isTest then testLacksType else never

/-- What follows the keyword of a core block. -/
def coreBlockRest (start : Nat) : ParserM CoreBlockAst := do
  let _ ← consume .leftBrace "`\x7b` after `core`"
  let tests ← closed .rightBrace "`\x7d` after core block" <|
    untilNext (fun kind => isRightBrace kind || kind.isOuterBlockBoundary)
      (containedTest "`test` or `\x7d` in core block") []
  pure ⟨tests, ← spanFrom start⟩

/-- What follows the keyword of a pipeline block. -/
def pipelineBlockRest (start : Nat) : ParserM PipelineBlockAst := do
  let name ← stringLiteral "pipeline name string"
  let _ ← consume .leftBrace "`\x7b` after pipeline name"
  let tests ← untilNext (fun kind => isRightBrace kind || kind.isOuterBlockBoundary)
    (containedTest "`test` or `\x7d` in pipeline block") []
  pushErrorIf tests.isEmpty .emptyPipeline
  let _ ← consume .rightBrace "`\x7d` after pipeline block"
  pure ⟨name, tests, ← spanFrom start⟩

/-- The tests of a block. -/
def containedLoopLacksType (description : String) : Parser → Bool :=
  loopLacksType (fun kind => isRightBrace kind || kind.isOuterBlockBoundary)
    (containedTest description) (fun _ => containedLacksType) []

/-- A core after its keyword. -/
def coreRestLacksType : Parser → Bool :=
  after (consume .leftBrace "`\x7b` after `core`") fun _ =>
    containedLoopLacksType "`test` or `\x7d` in core block"

/-- A pipeline after its keyword. -/
def pipelineRestLacksType : Parser → Bool :=
  after (stringLiteral "pipeline name string") fun _ =>
    after (consume .leftBrace "`\x7b` after pipeline name") fun _ =>
    containedLoopLacksType "`test` or `\x7d` in pipeline block"

/-- A block of a suite. -/
def blockLacksType (items : SuiteItems) (p : Parser) : Bool :=
  match p.head with
  | some .core => after (pushErrorIf items.hasCore .duplicateCore) (fun _ =>
      after (consumeStart .core "`core`") fun _ => coreRestLacksType) p
  | some .pipeline =>
    after (consumeStart .pipeline "`pipeline`") (fun _ => pipelineRestLacksType) p
  | some .test => testLacksType p
  | _ => false

/-- Somewhere in the suite a field has its colon and no token is left for its type. -/
def suiteLacksType : Parser → Bool :=
  loopLacksType (fun _ => false) suiteItem blockLacksType ⟨[], false⟩

/-! ## Following a missing type -/

/-- Two couplings, before and after a type was missing. -/
structure Watching (S : Bool → Nat → Parser → Parser → Prop) : Prop where
  coupling : ∀ missing, Coupling (S missing)
  rest : ∀ {missing d p p'}, S missing d p p' → p.rest ≠ [] → p'.rest ≠ []
  missing : ∀ {missing d p p'} parseNested name, S missing d p p' → p.rest = [] →
    ((parseTypedField parseNested name).run p).1 = ((parseTypedField parseNested name).run p').1 ∧
      S true d ((parseTypedField parseNested name).run p).2
        ((parseTypedField parseNested name).run p').2

/-- The program keeps every coupling that watches for missing types, where `lacks` says whether
one is missing. -/
structure Follows {α : Type} (H : Option TokenKind → Prop) (lacks : Parser → Bool)
    (f : ParserM α) : Prop where
  keeps : ∀ {S}, Watching S → ∀ {missing d p p'}, S missing d p p' → H p.next →
    (f.run p).1 = (f.run p').1 ∧ S (missing || lacks p) d (f.run p).2 (f.run p').2

/-- Wherever it starts, the predicate follows the function. -/
abbrev FollowsAny {α : Type} (lacks : Parser → Bool) (f : ParserM α) : Prop :=
  Follows (fun _ => True) lacks f

section

variable {α β : Type} {H : Option TokenKind → Prop} {lacks : Parser → Bool}

namespace Follows

theorem of_coupled {f : ParserM α} (hf : CoupledWhen H f) : Follows H never f := by
  refine ⟨fun hS missing d p p' h hH => ?_⟩
  rw [never, Bool.or_false]
  exact hf.keeps (hS.coupling missing) d p p' ⟨h, hH⟩

/-- A type may be missing in what follows a program. -/
theorem after_stay {f : ParserM α} {k : α → ParserM β} {lacks : α → Parser → Bool}
    (hf : CoupledWhen H f) (hstay : Stays f) (hk : ∀ a, Follows H (lacks a) (k a)) :
    Follows H (after f lacks) (f >>= k) := by
  refine ⟨fun hS missing d p p' h hH => ?_⟩
  obtain ⟨heq, hS'⟩ := hf.keeps (hS.coupling missing) d p p' ⟨h, hH⟩
  rw [Recorder.run_bind, Recorder.run_bind, ← heq]
  refine (hk _).keeps hS hS' ?_
  rw [Parser.next, hstay p]
  exact hH

theorem after {f : ParserM α} {k : α → ParserM β} {lacks : α → Parser → Bool}
    (hf : CoupledWhen H f) (hk : ∀ a, FollowsAny (lacks a) (k a)) :
    Follows H (Rettp.after f lacks) (f >>= k) := by
  refine ⟨fun hS missing d p p' h hH => ?_⟩
  obtain ⟨heq, hS'⟩ := hf.keeps (hS.coupling missing) d p p' ⟨h, hH⟩
  rw [Recorder.run_bind, Recorder.run_bind, ← heq]
  exact (hk _).keeps hS hS' trivial

/-- A type may be missing in the first part only. -/
theorem bind {f : ParserM α} {k : α → ParserM β} (hf : Follows H lacks f)
    (hk : ∀ a, Coupled (k a)) : Follows H lacks (f >>= k) := by
  refine ⟨fun hS missing d p p' h hH => ?_⟩
  obtain ⟨heq, hS'⟩ := hf.keeps hS h hH
  rw [Recorder.run_bind, Recorder.run_bind, ← heq]
  exact (hk _).keeps (hS.coupling _) d _ _ ⟨hS', trivial⟩

theorem closed {close : TokenKind} (heof : close.isEof = false)
    (hclose : close.isOuterBlockBoundary = false) (description : String) {inner : ParserM α}
    (hinner : Follows H lacks inner) : Follows H lacks (Rettp.closed close description inner) :=
  hinner.bind fun _ => (consume_coupled heof hclose description).bind fun _ => .pure _

theorem ite {c : Prop} [Decidable c] {lacks' : Parser → Bool} {f g : ParserM α}
    (hf : c → Follows H lacks f) (hg : ¬ c → Follows H lacks' g) :
    Follows H (if c then lacks else lacks') (if c then f else g) := by
  split
  · next h => exact hf h
  · next h => exact hg h

/-- The case split on the next token, where there is one. -/
theorem byKind {stop : TokenKind → Bool} {k : Option TokenKind → ParserM α}
    (lacks : Option TokenKind → Parser → Bool)
    (hk : ∀ kind, stop kind = false → Follows (· = some kind) (lacks (some kind)) (k (some kind))) :
    Follows (Before stop) (fun p => lacks p.head p) (peekKind >>= k) := by
  refine ⟨fun {S} hS missing d p p' h hH => ?_⟩
  obtain ⟨kind, hkind, hstop⟩ := hH
  have hhead := (head_of_next hkind).2
  have hhead' := (head_of_next (((hS.coupling missing).next h).symm.trans hkind)).2
  change ((k p.head).run p).1 = ((k p'.head).run p').1 ∧
    S (missing || lacks p.head p) d ((k p.head).run p).2 ((k p'.head).run p').2
  rw [hhead, hhead']
  exact (hk kind hstop).keeps hS h hkind

omit [Platform] in
/-- Rounds keep what each of them keeps. -/
theorem rounds_keeps {S : Bool → Nat → Parser → Parser → Prop}
    (hS : ∀ missing, Coupling (S missing)) {stop : TokenKind → Bool} {body : α → ParserM α}
    {lacks : α → Parser → Bool}
    (hbody : ∀ a {missing d p p'}, S missing d p p' → Before stop p.next →
      ((body a).run p).1 = ((body a).run p').1 ∧
        S (missing || lacks a p) d ((body a).run p).2 ((body a).run p').2)
    (fuel : Nat) (a : α) {missing : Bool} {d : Nat} {p p' : Parser} (h : S missing d p p') :
    ((rounds stop body fuel a).run p).1 = ((rounds stop body fuel a).run p').1 ∧
      S (missing || roundLacksType stop body lacks fuel a p) d ((rounds stop body fuel a).run p).2
        ((rounds stop body fuel a).run p').2 := by
  induction fuel generalizing a missing p p' with
  | zero =>
    rw [roundLacksType, Bool.or_false]
    exact ⟨rfl, h⟩
  | succ fuel ih =>
    have hnext := (hS missing).next h
    by_cases hp : Before stop p.next
    · obtain ⟨heq, hS'⟩ := hbody a h hp
      rw [rounds_step hp, rounds_step (hnext ▸ hp), roundLacksType, again_of_before hp, if_pos rfl,
        Recorder.run_bind, Recorder.run_bind, ← heq, ← Bool.or_assoc]
      exact ih _ hS'
    · rw [rounds_stop hp, rounds_stop (hnext ▸ hp), roundLacksType,
        if_neg fun hagain => hp (before_of_again hagain), Bool.or_false]
      exact ⟨rfl, h⟩

/-- **Loops.** -/
theorem loop {stop : TokenKind → Bool} {body : α → ParserM α} {lacks : α → Parser → Bool}
    (hbody : ∀ a, Follows (Before stop) (lacks a) (body a)) (start : α) :
    Follows H (loopLacksType stop body lacks start) (untilNext stop body start) := by
  refine ⟨fun {S} hS missing d p p' h _ => ?_⟩
  rw [untilNext_run, untilNext_run, ← (hS.coupling missing).live h, ← remaining_eq]
  exact rounds_keeps hS.coupling (fun a _ _ _ _ h hp => (hbody a).keeps hS h hp) _ start h

/-- **Containers.** A type may be missing inside, unless the container is refused. -/
theorem opened {inner : ParserM β} (hinner : FollowsAny lacks inner) {S : Bool → Nat → Parser →
    Parser → Prop} (hS : Watching S) (t : Token) (result : β → SourceSpan → α)
    (refused : SourceSpan → α) {missing : Bool} {d : Nat} {p p' : Parser} (h : S missing d p p')
    (hprevious : p.previous = some t) :
    let container := Rettp.opened t inner result refused
    (container.run p).1 = (container.run p').1 ∧
      S (missing || Rettp.after (enterNesting t.span) (fun entered =>
        if entered then lacks else never) p) d (container.run p).2 (container.run p').2 := by
  have hcoupling := hS.coupling missing
  have hdepth : p.nestingDepth = p'.nestingDepth := congrArg (·.depth) (hcoupling.nesting h)
  have hlimit : p.maxNestingDepth = p'.maxNestingDepth := congrArg (·.limit) (hcoupling.nesting h)
  have hlacks : Rettp.after (enterNesting t.span) (fun entered =>
      if entered then lacks else never) p =
        if p.nestingDepth ≥ p.maxNestingDepth then false
        else lacks (p.atDepth (p.nestingDepth + 1)) := by
    unfold Rettp.after enterNesting
    dsimp only
    split <;> rfl
  dsimp only
  rw [hlacks, opened_run, opened_run, ← hdepth, ← hlimit, hcoupling.depth h]
  split
  · rw [Bool.or_false]
    exact refused_keeps hcoupling refused h hprevious _
  · obtain ⟨heq, hS'⟩ := hinner.keeps hS (hcoupling.atDepth (d + 1) h) trivial
    rw [Recorder.run_bind inner, Recorder.run_bind inner, ← heq]
    exact leave_keeps (hS.coupling _) _ (result _) hS'

end Follows

/-- A field whose type is missing at the end of the tokens. -/
theorem typedField_at_end {p : Parser} (hrest : p.rest = []) (parseNested : ParserM ObjectAssertionAst)
    (name : Spanned String) :
    (parseTypedField parseNested name).run p =
      (⟨name, none, none, none, none, p.spanFrom name.span.start⟩,
        p.report .missingFieldAssertion p.currentSpan) := by
  obtain ⟨previous, rest, depth, limit, errors⟩ := p
  cases hrest
  rfl

/-- A coupling that agrees on whether tokens are left watches for missing types. -/
theorem Watching.of_rest {S : Nat → Parser → Parser → Prop} (hS : Coupling S)
    (hrest : ∀ {d p p'}, S d p p' → (p.rest = [] ↔ p'.rest = [])) : Watching fun _ => S where
  coupling _ := hS
  rest h hne := mt (hrest h).mpr hne
  missing parseNested name h hnil := by
    rw [typedField_at_end hnil, typedField_at_end ((hrest h).mp hnil), ← hS.spanFrom h,
      ← hS.currentSpan h]
    exact ⟨rfl, hS.report _ h (.inl rfl)⟩

end

/-! ## The functions on the way to a type -/

section
variable {H : Option TokenKind → Prop}

section
variable {parseNested : ParserM ObjectAssertionAst} {nested : Parser → Bool}
  (hnested : FollowsAny nested parseNested)
include hnested

theorem parseFieldOperand_follows (expectedType : Option (Spanned AssertionTypeAst)) :
    Follows H (operandLacksType nested expectedType)
      (parseFieldOperand parseNested expectedType) := by
  refine .after (take_coupled rfl rfl) fun equal => .ite (fun _ => .of_coupled ?_) fun _ =>
    .after (check_coupled rfl) fun brace => .ite (fun _ => ?_) fun _ => .of_coupled (.pure _)
  · refine parseValue_coupled.bind fun value => ?_
    cases value with
    | none => exact (expected_coupled _).bind fun _ => .pure _
    | some value => exact .pure _
  · exact hnested.bind fun _ => .pure _

theorem parseFieldRest_follows (name : Spanned String)
    (expectedType : Option (Spanned AssertionTypeAst)) :
    Follows H (operandLacksType nested expectedType)
      (parseFieldRest parseNested name expectedType) :=
  (parseFieldOperand_follows hnested expectedType).bind fun _ => (parseCapture_coupled _).bind
    fun _ => (pushErrorIf_coupled _ _).bind fun _ => spanFrom_look fun _ => .pure _

omit hnested in
/-- With a token left, the type is read alike on both sides. -/
theorem parseAssertionType_keeps {S : Bool → Nat → Parser → Parser → Prop} (hS : Watching S)
    {missing : Bool} {d : Nat} {p p' : Parser} (h : S missing d p p') (hrest : p.rest ≠ []) :
    (parseAssertionType.run p).1 = (parseAssertionType.run p').1 ∧
      S missing d (parseAssertionType.run p).2 (parseAssertionType.run p').2 := by
  have hcoupling := hS.coupling missing
  cases hlive : p.live with
  | cons t live =>
    refine parseAssertionType_coupled.keeps hcoupling d p p' ⟨h, fun hnext => ?_⟩
    rw [next_eq_none.mp hnext] at hlive
    cases hlive
  | nil =>
    have hrun : ∀ q : Parser, q.rest ≠ [] → q.live = [] → parseAssertionType.run q =
        Recorder.run (do
          expected "assertion type"
          discardUnexpectedTerminal
          pure none) q := by
      intro q hq hqlive
      rcases rest_of_live_nil hqlive with hnil | ⟨t, rest, hcons, ht⟩
      · exact absurd hnil hq
      · have hhead : q.head = some .eof := by rw [Parser.head, hcons, ← ht]; rfl
        change (assertionTypeOf q.currentSpan q.head).run q = _
        rw [hhead]
        rfl
    rw [hrun p hrest hlive, hrun p' (hS.rest h hrest) ((hcoupling.live h).symm.trans hlive)]
    have hcoupled : CoupledWhen (fun _ => True) (do
        expected "assertion type"
        discardUnexpectedTerminal
        pure (none : Option (Spanned AssertionTypeAst))) :=
      (expected_coupled _).bind fun _ => discardUnexpectedTerminal_coupled.bind fun _ => .pure none
    exact hcoupled.keeps hcoupling d p p' ⟨h, trivial⟩

theorem parseTypedField_follows (name : Spanned String) :
    Follows H (typedLacksType nested) (parseTypedField parseNested name) := by
  refine ⟨fun {S} hS missing d p p' h _ => ?_⟩
  by_cases hrest : p.rest = []
  · rw [typedLacksType, hrest, List.isEmpty_nil, Bool.true_or, Bool.or_true]
    exact hS.missing parseNested name h hrest
  · rw [typedLacksType, List.isEmpty_eq_false_iff.mpr hrest, Bool.false_or]
    obtain ⟨heq, hS'⟩ := parseAssertionType_keeps hS h hrest
    rw [parseTypedField, Recorder.run_bind, Recorder.run_bind, ← heq]
    exact (parseFieldRest_follows (H := fun _ => True) hnested name _).keeps hS hS' trivial

theorem parseFieldAssertion_follows :
    Follows H (fieldLacksType nested) (parseFieldAssertion parseNested) := by
  refine .after objectKey_coupled fun key => ?_
  cases key with
  | none =>
    exact .of_coupled ((expected_coupled _).bind fun _ => discardUnexpectedTerminal_coupled.bind
      fun _ => .pure none)
  | some name =>
    refine .after (take_coupled rfl rfl) fun colon => .ite (fun _ => ?_) fun _ => ?_
    · exact (parseTypedField_follows hnested name).bind fun _ => .pure _
    · exact (parseFieldRest_follows hnested name none).bind fun _ => .pure _

theorem fieldAssertion_follows (fields : List FieldAssertionAst) :
    Follows H (fieldLacksType nested) (fieldAssertion parseNested fields) := by
  refine (parseFieldAssertion_follows hnested).bind fun field => ?_
  cases field with
  | none => exact synchronizeExpectationEntry_coupled.bind fun _ => .pure _
  | some field => exact skipOptionalComma_coupled.bind fun _ => .pure _

theorem parseObjectAssertionWith_follows (mode : ObjectMatchModeAst) :
    Follows H (objectLacksType parseNested nested)
      (parseObjectAssertionWith parseNested mode) := by
  refine ⟨fun {S} hS missing d p p' h _ => ?_⟩
  have htake : Coupled (take .leftBrace) := take_coupled rfl rfl
  obtain ⟨heq, hS'⟩ := htake.keeps (hS.coupling missing) d p p' ⟨h, trivial⟩
  rw [parseObjectAssertionWith, Recorder.run_bind, Recorder.run_bind, ← heq, objectLacksType, after]
  cases hbrace : ((take .leftBrace).run p).1 with
  | none =>
    exact (Follows.of_coupled (H := fun _ => True) (currentSpan_look fun _ =>
      (expected_coupled _).bind fun _ => .pure _)).keeps hS hS' trivial
  | some t =>
    exact Follows.opened (.closed rfl rfl _ (.loop (fun fields => fieldAssertion_follows hnested fields)
      [])) hS t (ObjectAssertionAst.mk mode) _ hS' (take_previous rfl hbrace)

end

theorem parseObjectAssertionAt_follows (depth : Nat) :
    ∀ mode, FollowsAny (objectLacksTypeAt depth) (parseObjectAssertionAt depth mode) := by
  induction depth with
  | zero => exact fun mode => parseObjectAssertionWith_follows (.of_coupled (.pure _)) mode
  | succ depth ih => exact fun mode => parseObjectAssertionWith_follows (ih .partially) mode

theorem parseObjectAssertion_follows (mode : ObjectMatchModeAst) :
    Follows H (after nestingLeft objectLacksTypeAt) (parseObjectAssertion mode) :=
  .after nestingLeft_coupled fun depth => parseObjectAssertionAt_follows depth mode

theorem parseBodyAssertion_follows : Follows H bodyLacksType parseBodyAssertion := by
  refine .after (consumeStart_coupled rfl rfl _) fun start =>
    .after (takeContextualIdentifier_coupled _) fun empty => .ite (fun _ => .of_coupled ?_) fun _ =>
    .after (take_coupled rfl rfl) fun equal => .ite (fun _ => .of_coupled ?_) fun _ =>
    .after (takeContextualIdentifier_coupled _) fun contains =>
      .ite (fun _ => .of_coupled ?_) fun _ => .after (take_coupled rfl rfl) fun exact_ => ?_
  · exact skipOptionalComma_coupled.bind fun _ => spanFrom_look fun _ => .pure _
  · exact (stringLiteral_coupled _).bind fun _ => skipOptionalComma_coupled.bind fun _ =>
      spanFrom_look fun _ => .pure _
  · exact (stringLiteral_coupled _).bind fun _ => skipOptionalComma_coupled.bind fun _ =>
      spanFrom_look fun _ => .pure _
  · exact (parseObjectAssertion_follows _).bind fun _ => .pure _

theorem expectationSection_follows (sections : List ExpectationSectionAst) :
    Follows (Before fun kind => isRightBrace kind || kind.isTestBoundary) sectionLacksType
      (expectationSection sections) := by
  refine .byKind (fun head p => match head with
    | some .body => bodyLacksType p
    | _ => false) fun kind hkind => ?_
  have hbefore : Before (fun kind => isRightBrace kind || kind.isTestBoundary) (some kind) :=
    ⟨kind, rfl, hkind⟩
  cases kind
  case status => exact .of_coupled (parseStatusAssertion_coupled.bind fun _ => .pure _)
  case headers => exact .of_coupled (parseResponseHeaders_coupled.bind fun _ => .pure _)
  case body => exact parseBodyAssertion_follows.bind fun _ => .pure _
  all_goals
    exact .of_coupled (stray_of_kind (inner_of_before rfl rfl hbefore) _
      (show Coupled synchronizeExpectationSection from skipTo_coupled rfl rfl) _)

theorem parseExpectation_follows : Follows H expectationLacksType parseExpectation :=
  .after (consumeStart_coupled rfl rfl _) fun _ => .after (consume_coupled rfl rfl _) fun _ =>
    (Follows.closed rfl rfl _ (.loop expectationSection_follows [])).bind fun _ =>
      spanFrom_look fun _ => .pure _

theorem testItem_follows (items : TestItems) :
    Follows (Before fun kind => isRightBrace kind || kind.isSuiteBoundary) itemLacksType
      (testItem items) := by
  refine .byKind (fun head p => match head with
    | some .expect => expectationLacksType p
    | _ => false) fun kind hkind => ?_
  have hbefore : Before (fun kind => isRightBrace kind || kind.isSuiteBoundary) (some kind) :=
    ⟨kind, rfl, hkind⟩
  cases kind
  case request =>
    exact .of_coupled ((pushErrorIf_coupled _ _).bind fun _ => parseRequest_coupled.bind fun _ =>
      .pure _)
  case expect => exact parseExpectation_follows.bind fun _ => .pure _
  all_goals
    exact .of_coupled (stray_of_kind (inner_of_before rfl rfl hbefore) _
      (show Coupled synchronizeTestItem from skipTo_coupled rfl rfl) _)

theorem parseTest_follows : Follows H testLacksType parseTest :=
  .after (consumeStart_coupled rfl rfl _) fun _ => .after (stringLiteral_coupled _) fun _ =>
    .after (consume_coupled rfl rfl _) fun _ => (Follows.loop testItem_follows _).bind fun _ =>
      (pushErrorIf_coupled _ _).bind fun _ => (pushErrorIf_coupled _ _).bind fun _ =>
        (consume_coupled rfl rfl _).bind fun _ => spanFrom_look fun _ => .pure _

theorem containedTest_follows (description : String) (tests : List TestAst) :
    Follows (Before fun kind => isRightBrace kind || kind.isOuterBlockBoundary) containedLacksType
      (containedTest description tests) := by
  refine .after_stay (check_coupled rfl) (fun _ => rfl) fun isTest => .ite (fun _ => ?_) fun _ => ?_
  · exact parseTest_follows.bind fun _ => .pure _
  · exact .of_coupled (stray_coupled (fun _ h => inner_of_before rfl rfl h) _
      (show Coupled synchronizeTestContainer from skipTo_coupled rfl rfl) _)

theorem coreBlockRest_follows (start : Nat) :
    Follows H coreRestLacksType (coreBlockRest start) :=
  .after (consume_coupled rfl rfl _) fun _ =>
    (Follows.closed rfl rfl _ (.loop (containedTest_follows _) [])).bind fun _ =>
      spanFrom_look fun _ => .pure _

theorem pipelineBlockRest_follows (start : Nat) :
    Follows H pipelineRestLacksType (pipelineBlockRest start) :=
  .after (stringLiteral_coupled _) fun _ => .after (consume_coupled rfl rfl _) fun _ =>
    (Follows.loop (containedTest_follows _) []).bind fun _ => (pushErrorIf_coupled _ _).bind fun _ =>
      (consume_coupled rfl rfl _).bind fun _ => spanFrom_look fun _ => .pure _

end

end Rettp
