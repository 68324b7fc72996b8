import Rettp.Coupling

/-!
# The parser functions keep every coupling

One theorem for each function, up to requests and the parts of an expectation that hold no
object assertion.
-/

namespace Rettp

variable [Platform]

open Recorder (Lockstep)

variable {H : Option TokenKind → Prop}

/-! ## Values -/

section
omit [Platform]

theorem synchronizeObjectEntry_coupled : CoupledWhen H synchronizeObjectEntry :=
  (skipTo_coupled rfl rfl).bind fun _ => skipOptionalComma_coupled

theorem synchronizeArrayItem_coupled : CoupledWhen H synchronizeArrayItem :=
  (skipTo_coupled rfl rfl).bind fun _ => skipOptionalComma_coupled

end

section
variable {parseValue : ParserM (Option ValueAst)} (hvalue : Coupled parseValue)
include hvalue

/-- A round over the entries of an object. -/
theorem objectValueEntry_coupled (entries : List ObjectValueEntryAst) :
    CoupledWhen H (objectValueEntry parseValue entries) := by
  refine objectKey_coupled.bind fun key => ?_
  cases key with
  | none =>
    exact (expected_coupled _).bind fun _ => discardUnexpectedTerminal_coupled.bind fun _ =>
      synchronizeObjectEntry_coupled.bind fun _ => .pure _
  | some key =>
    refine (consume_coupled rfl rfl _).bind fun _ => hvalue.bind fun value => ?_
    cases value with
    | none =>
      exact (expected_coupled _).bind fun _ => synchronizeObjectEntry_coupled.bind fun _ => .pure _
    | some value => exact skipOptionalComma_coupled.bind fun _ => .pure _

/-- The entries of an object. -/
theorem parseObjectValueEntries_coupled : CoupledWhen H (parseObjectValueEntries parseValue) :=
  untilNext_coupled (fun entries => objectValueEntry_coupled hvalue entries) []

/-- An object, if its values keep parsers coupled. -/
theorem parseObjectValueWith_coupled : CoupledWhen H (parseObjectValueWith parseValue) := by
  refine take_bind rfl rfl ?_ fun t S hS d => ?_
  · exact currentSpan_look fun _ => (expected_coupled _).bind fun _ => .pure _
  · exact opened_keeps hS d t (closed_coupled rfl rfl _ (parseObjectValueEntries_coupled hvalue))
      ObjectValueAst.mk _

/-- A round over the items of an array. -/
theorem arrayItem_coupled (items : List ValueAst) : CoupledWhen H (arrayItem parseValue items) := by
  refine hvalue.when.bind fun value => ?_
  cases value with
  | none =>
    exact (expected_coupled _).bind fun _ => discardUnexpectedTerminal_coupled.bind fun _ =>
      synchronizeArrayItem_coupled.bind fun _ => .pure _
  | some value =>
    refine (take_coupled rfl rfl).bind fun comma => ?_
    cases comma with
    | some _ => exact .pure _
    | none =>
      refine check_look rfl fun closes => .ite (fun _ => .pure _) fun _ => ?_
      exact (expected_coupled _).bind fun _ => synchronizeArrayItem_coupled.bind fun _ => .pure _

/-- An array, if its items keep parsers coupled. -/
theorem parseArrayValueWith_coupled : CoupledWhen H (parseArrayValueWith parseValue) := by
  refine take_bind rfl rfl ?_ fun t S hS d => ?_
  · exact currentSpan_look fun _ => (expected_coupled _).bind fun _ => .pure _
  · exact opened_keeps hS d t (closed_coupled rfl rfl _
      (untilNext_coupled (fun items => arrayItem_coupled hvalue items) [])) ArrayValueAst.mk _

/-- A literal, if what is nested in it keeps parsers coupled. -/
theorem parseValueWith_coupled : CoupledWhen H (parseValueWith parseValue) := by
  refine currentSpan_look fun span => peekKind_look (fun _ _ _ => rfl) (fun kind _ _ => ?_) fun _ =>
    .pure none
  split
  case h_7 => exact (parseArrayValueWith_coupled hvalue).bind fun _ => .pure _
  case h_8 => exact (parseObjectValueWith_coupled hvalue).bind fun _ => .pure _
  case h_9 => exact .pure none
  all_goals
    rename_i heq
    cases heq
    exact (bump_of_kind rfl).bind fun _ => .pure _

end

/-- A literal with so many levels left. -/
theorem parseValueAt_coupled (depth : Nat) : Coupled (parseValueAt depth) := by
  induction depth with
  | zero => exact parseValueWith_coupled (.pure none)
  | succ depth ih => exact parseValueWith_coupled ih

omit [Platform] in
theorem nestingLeft_coupled : CoupledWhen H nestingLeft :=
  .read fun hS _ _ _ h =>
    congrArg (fun nesting : Nesting => nesting.limit - nesting.depth) (hS.nesting h)

/-- **Literals keep parsers coupled.** -/
theorem parseValue_coupled : CoupledWhen H parseValue :=
  nestingLeft_coupled.bind fun depth => parseValueAt_coupled depth

theorem parseObjectValue_coupled : CoupledWhen H parseObjectValue :=
  parseObjectValueWith_coupled parseValue_coupled

/-! ## Requests -/

/-- What is done where no method is next. -/
def otherMethod (kind : Option TokenKind) (span : SourceSpan) : ParserM (Spanned HttpMethodAst) := do
  expected "uppercase HTTP method"
  match kind with
  | some (.stringLiteral _) => pure ⟨.get, span⟩
  | _ =>
    discardUnexpectedTerminal
    pure ⟨.get, span⟩

/-- Something that is no method. -/
theorem otherMethod_coupled (kind : Option TokenKind) (span : SourceSpan) :
    CoupledWhen H (otherMethod kind span) := by
  refine (expected_coupled _).bind fun _ => ?_
  split
  · exact .pure _
  · exact discardUnexpectedTerminal_coupled.bind fun _ => .pure _

theorem parseHttpMethod_coupled : CoupledWhen H parseHttpMethod := by
  refine currentSpan_look fun span => peekKind_look (fun _ _ _ => rfl) (fun kind _ _ => ?_) fun _ =>
    otherMethod_coupled none span
  split
  case h_8 => exact otherMethod_coupled _ span
  all_goals
    rename_i heq
    cases heq
    exact (bump_of_kind rfl).bind fun _ => .pure _

omit [Platform] in
theorem synchronizeRequestEntry_coupled : CoupledWhen H synchronizeRequestEntry :=
  (skipTo_coupled rfl rfl).bind fun _ => skipOptionalComma_coupled

/-- A round over request headers. -/
theorem requestHeader_coupled (entries : List HeaderValueEntryAst) :
    CoupledWhen H (requestHeader entries) := by
  refine (stringLiteral_coupled _).bind fun name => (consume_coupled rfl rfl _).bind fun _ =>
    parseValue_coupled.bind fun value => ?_
  cases value with
  | none =>
    exact (expected_coupled _).bind fun _ => synchronizeRequestEntry_coupled.bind fun _ => .pure _
  | some value => exact skipOptionalComma_coupled.bind fun _ => .pure _

theorem parseRequestHeaders_coupled : CoupledWhen H parseRequestHeaders :=
  (consumeStart_coupled rfl rfl _).bind fun _ => (consume_coupled rfl rfl _).bind fun _ =>
    (closed_coupled rfl rfl _ (untilNext_coupled (fun entries => requestHeader_coupled entries)
      [])).bind fun _ => spanFrom_look fun _ => .pure _

theorem parseRequestQuery_coupled : CoupledWhen H parseRequestQuery :=
  (consumeStart_coupled rfl rfl _).bind fun _ => parseObjectValue_coupled.bind fun _ => .pure _

theorem parseRequestBody_coupled : CoupledWhen H parseRequestBody :=
  (consumeStart_coupled rfl rfl _).bind fun _ => parseObjectValue_coupled.bind fun _ => .pure _

/-- A token that has no place is reported and stepped over. -/
theorem stray_coupled {α : Type} (hH : ∀ kind, H (some kind) → kind.isOuterBlockBoundary = false)
    (description : String) {synchronize : ParserM Unit} (hsynchronize : Coupled synchronize) (a : α) :
    CoupledWhen H (do
      expected description
      bump
      synchronize
      pure a) :=
  .bind_stay (expected_coupled _) (expected_stays _) fun _ => (bump_coupled hH).bind fun _ =>
    hsynchronize.bind fun _ => .pure _

/-- Something that does not belong here is reported and dropped. -/
theorem stray_of_kind {α : Type} {kind : TokenKind} (hkind : kind.isOuterBlockBoundary = false)
    (description : String) {synchronize : ParserM Unit} (hsynchronize : Coupled synchronize)
    (a : α) :
    CoupledWhen (· = some kind) (do
      expected description
      bump
      synchronize
      pure a) :=
  stray_coupled (H := (· = some kind)) (fun _ h => Option.some.inj h ▸ hkind) description
    hsynchronize a

/-- A round over the sections of a request. -/
theorem requestSection_coupled (sections : List RequestSectionAst) :
    CoupledWhen (Before fun kind => isRightBrace kind || kind.isTestBoundary)
      (requestSection sections) := by
  refine peekKind_look (fun _ _ _ => rfl) (fun kind _ hkind => ?_) fun h => ?_
  · split
    · exact parseRequestHeaders_coupled.bind fun _ => .pure _
    · exact parseRequestQuery_coupled.bind fun _ => .pure _
    · exact parseRequestBody_coupled.bind fun _ => .pure _
    · exact stray_of_kind (inner_of_before rfl rfl hkind) _
        (show Coupled synchronizeRequestSection from skipTo_coupled rfl rfl) _
  · obtain ⟨_, heq, _⟩ := h
    cases heq

/-- **Requests keep parsers coupled.** -/
theorem parseRequest_coupled : CoupledWhen H parseRequest := by
  refine (consumeStart_coupled rfl rfl _).bind fun start => parseHttpMethod_coupled.bind fun method =>
    (stringLiteral_coupled _).bind fun path => (take_coupled rfl rfl).bind fun brace => ?_
  cases brace with
  | none => exact spanFrom_look fun _ => .pure _
  | some _ =>
    exact (closed_coupled rfl rfl _ (untilNext_coupled requestSection_coupled [])).bind fun _ =>
      spanFrom_look fun _ => .pure _

/-! ## Expectations -/

theorem parseStatusAssertion_coupled : CoupledWhen H parseStatusAssertion := by
  refine (consumeStart_coupled rfl rfl _).bind fun start => (consume_coupled rfl rfl _).bind fun _ =>
    currentSpan_look fun span => peekKind_look (fun _ p hp => ?_) (fun kind _ _ => ?_) fun _ => ?_
  · -- at the end nothing is discarded, whether there is a token for it or not
    dsimp only
    rw [Recorder.run_bind, Recorder.run_bind,
      discardUnexpectedTerminal_at_end ((expected_live _ p).trans hp)]
    rfl
  · split
    · next heq =>
      cases heq
      exact (bump_of_kind rfl).bind fun _ => skipOptionalComma_coupled.bind fun _ =>
        spanFrom_look fun _ => .pure _
    · exact (expected_coupled _).bind fun _ => discardUnexpectedTerminal_coupled.bind fun _ =>
        skipOptionalComma_coupled.bind fun _ => spanFrom_look fun _ => .pure _
    · next heq => cases heq
  · exact (expected_coupled _).bind fun _ => skipOptionalComma_coupled.bind fun _ =>
      spanFrom_look fun _ => .pure _

omit [Platform] in
theorem synchronizeExpectationEntry_coupled : CoupledWhen H synchronizeExpectationEntry :=
  (skipTo_coupled rfl rfl).bind fun _ => skipOptionalComma_coupled

/-- A round over header assertions. -/
theorem responseHeader_coupled (entries : List ResponseHeaderAssertionAst) :
    CoupledWhen H (responseHeader entries) := by
  refine (stringLiteral_coupled _).bind fun name => (take_coupled rfl rfl).bind fun colon =>
    .ite (fun _ => ?_) fun _ => (take_coupled rfl rfl).bind fun equal => .ite (fun _ => ?_) fun _ =>
      (takeContextualIdentifier_coupled _).bind fun contains => .ite (fun _ => ?_) fun _ => ?_
  · exact (consume_coupled rfl rfl _).bind fun _ => currentSpan_look fun _ => spanFrom_look fun _ =>
      skipOptionalComma_coupled.bind fun _ => .pure _
  · exact (stringLiteral_coupled _).bind fun _ => spanFrom_look fun _ =>
      skipOptionalComma_coupled.bind fun _ => .pure _
  · exact (stringLiteral_coupled _).bind fun _ => spanFrom_look fun _ =>
      skipOptionalComma_coupled.bind fun _ => .pure _
  · exact (expected_coupled _).bind fun _ => synchronizeExpectationEntry_coupled.bind fun _ =>
      .pure _

theorem parseResponseHeaders_coupled : CoupledWhen H parseResponseHeaders :=
  (consumeStart_coupled rfl rfl _).bind fun _ => (consume_coupled rfl rfl _).bind fun _ =>
    (closed_coupled rfl rfl _ (untilNext_coupled (fun entries => responseHeader_coupled entries)
      [])).bind fun _ => spanFrom_look fun _ => .pure _

theorem parseCaptureName_coupled : CoupledWhen H parseCaptureName := by
  refine currentSpan_look fun span => peekKind_look (fun _ p hp => ?_) (fun kind _ _ => ?_) fun _ => ?_
  · dsimp only
    rw [Recorder.run_bind, Recorder.run_bind,
      discardUnexpectedTerminal_at_end ((expected_live _ p).trans hp)]
    rfl
  · split
    · next heq =>
      cases heq
      exact (bump_of_kind rfl).bind fun _ => .pure _
    · exact (expected_coupled _).bind fun _ => discardUnexpectedTerminal_coupled.bind fun _ =>
        .pure _
    · next heq => cases heq
  · exact (expected_coupled _).bind fun _ => .pure _

theorem parseCapture_coupled (expectedType : Option (Spanned AssertionTypeAst)) :
    CoupledWhen H (parseCapture expectedType) := by
  refine (take_coupled rfl rfl).bind fun arrow => .ite (fun _ => ?_) fun _ => .pure none
  exact (pushErrorIf_coupled _ _).bind fun _ => parseCaptureName_coupled.bind fun _ => .pure _

/-- With a token left that is not the end, an assertion type is read like everything else. -/
theorem parseAssertionType_coupled : CoupledWhen (· ≠ none) parseAssertionType := by
  refine currentSpan_look fun span => peekKind_look (fun h => absurd rfl h) (fun kind _ _ => ?_)
    fun h => absurd rfl h
  unfold assertionTypeOf
  split
  case h_1 heq => cases heq
  case h_9 =>
    exact (expected_coupled _).bind fun _ => discardUnexpectedTerminal_coupled.bind fun _ =>
      .pure none
  all_goals
    rename_i heq
    cases heq
    exact (bump_of_kind rfl).bind fun _ => .pure _

end Rettp
