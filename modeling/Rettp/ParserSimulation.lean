import Rettp.Recognizer

/-!
# The parser simulates the recognizer

Function by function: where the recognizer has a result, the parser records no error and builds
the same tree with spans on it; where the recognizer fails, the parser records an error
(`Simulates`). Recovery code only ever runs after an error has been recorded, so nothing has to
be known about it.
-/

namespace Rettp

variable [Platform]

open Recorder (Simulates Reports)
open Recognition (fail look)

namespace Parser

/-- The depth of a parser, and its limit. -/
def nesting (p : Parser) : Nesting := ⟨p.nestingDepth, p.maxNestingDepth⟩

/-- The kinds of the tokens in front of a parser. -/
def kinds (p : Parser) : List TokenKind := upToEof p.rest

end Parser

/-- The parser function `f` simulates the recognizer `g`. -/
abbrev Sim {α β : Type} (R : α → β → Prop) (f : ParserM α) (g : Recognizer β) : Prop :=
  Simulates Parser.nesting Parser.kinds R f g

/-- Any two results. -/
abbrev anything {α β : Type} : α → β → Prop := fun _ _ => True

/-! ## The next token -/

/-- The next token in the parser and in the recognizer, which does not see the end. -/
inductive SameNext : Option TokenKind → Option TokenKind → Prop
  | token {kind : TokenKind} (h : kind.isEof = false) : SameNext (some kind) (some kind)
  | eof : SameNext (some .eof) none
  | none : SameNext none none

omit [Platform] in
theorem TokenKind.eq_eof {kind : TokenKind} (h : kind.isEof = true) : kind = .eof := by
  cases kind <;> first | rfl | cases h

omit [Platform] in
/-- The next kind, as the parser and as the recognizer see it. -/
theorem sameNext (p : Parser) : SameNext p.head p.kinds.head? := by
  unfold Parser.head Parser.kinds
  cases p.rest with
  | nil => exact .none
  | cons t rest =>
    rw [Parser.upToEof, List.head?_cons, Option.map_some]
    cases h : t.kind.isEof with
    | true =>
      rw [TokenKind.eq_eof h]
      exact .eof
    | false => exact .token h

omit [Platform] in
/-- Taking a token takes a kind. -/
theorem kinds_bump (p : Parser) : p.bump.kinds = p.kinds.tail := by
  unfold Parser.bump Parser.kinds
  cases hrest : p.rest with
  | nil => simp [hrest, Parser.upToEof]
  | cons t rest =>
    cases h : t.kind.isEof with
    | true => simp [hrest, Parser.upToEof, h]
    | false => simp [Parser.upToEof, h]

omit [Platform] in
/-- Taking a token changes neither the depth nor the errors. -/
theorem bump_fields (p : Parser) : p.bump.nesting = p.nesting ∧ p.bump.errors = p.errors := by
  unfold Parser.bump
  split
  · split <;> exact ⟨rfl, rfl⟩
  · exact ⟨rfl, rfl⟩

omit [Platform] in
/-- Looking at the next kind is simulated. -/
theorem peekKind_sim : Sim SameNext peekKind Recognizer.peekKind := .read sameNext

omit [Platform] in
/-- Taking a token is simulated. -/
theorem bump_sim : Sim anything bump Recognizer.bump where
  agrees := by
    intro p b t hg
    obtain ⟨rfl, rfl⟩ := Prod.mk.inj (Option.some.inj hg)
    exact ⟨(bump_fields p).2, trivial, (bump_fields p).1, kinds_bump p⟩
  reports := fun p hg => by cases hg

/-! ## Reports -/

omit [Platform] in
/-- An error is recorded whatever the kinds are. -/
theorem pushError_reports (kind : ParserErrorKind) (span : SourceSpan) :
    Reports (pushError kind span) := by
  intro p h
  simpa [pushError, parserRecording] using congrArg List.length h

/-- What was expected is recorded as an error. -/
theorem expected_reports (description : String) : Reports (expected description) := by
  refine .bind_right _ fun token => ?_
  cases token with
  | none => exact .bind_right _ fun _ => pushError_reports _ _
  | some token => exact .ite (.bind_right _ fun _ => pushError_reports _ _) (pushError_reports _ _)

omit [Platform] in
/-- An error on a condition is simulated by failing on it. -/
theorem pushErrorIf_sim (c : Bool) (kind : ParserErrorKind) :
    Sim anything (pushErrorIf c kind) (Recognizer.rejectIf c) := by
  refine .ite (fun _ => .fail (.bind_right _ fun _ => pushError_reports _ _)) fun _ => .pure trivial

/-! ## Tokens of a kind -/

omit [Platform] in
/-- A kind that is not the end is next in the parser and in the recognizer alike. -/
theorem head_any_discriminant {expected : TokenKind} (h : expected.isEof = false) (p : Parser) :
    (p.head.any fun actual => actual.discriminant == expected.discriminant) =
      p.kinds.head?.any fun actual => actual.discriminant == expected.discriminant := by
  have hnext := sameNext p
  generalize p.head = next at hnext
  generalize p.kinds.head? = next' at hnext
  cases hnext with
  | token => rfl
  | none => rfl
  | eof => cases expected <;> first | rfl | cases h

omit [Platform] in
/-- A look at one kind is simulated. -/
theorem check_sim {expected : TokenKind} (h : expected.isEof = false) :
    Sim Eq (check expected) (Recognizer.check expected) := .read (head_any_discriminant h)

omit [Platform] in
/-- What `advance` does in one step. -/
theorem advance_run (p : Parser) : advance.run p = (p.rest.head?, p.bump) := by
  obtain ⟨previous, rest, depth, limit, errors⟩ := p
  cases rest <;> rfl

omit [Platform] in
/-- What `take` does in one step. -/
theorem take_run (expected : TokenKind) (p : Parser) :
    (take expected).run p =
      if p.head.any fun actual => actual.discriminant == expected.discriminant then
        (p.rest.head?, p.bump)
      else (none, p) := by
  rw [take, Recorder.run_bind, check, Recorder.run_read]
  split
  · exact advance_run p
  · rfl

omit [Platform] in
/-- What the recognizer does in the same step. -/
theorem Recognizer.take_run (expected : TokenKind) (e : Nesting) (kinds : List TokenKind) :
    Recognizer.take expected e kinds =
      if kinds.head?.any fun actual => actual.discriminant == expected.discriminant then
        some (true, kinds.tail)
      else some (false, kinds) := by
  rw [Recognizer.take, Recognizer.check, Recognition.run_bind (Recognition.run_look _ _ _)]
  split <;> rfl

omit [Platform] in
/-- Taking a token of one kind is simulated. -/
theorem take_sim {expected : TokenKind} (h : expected.isEof = false) :
    Sim (fun token taken => token.isSome = taken) (take expected) (Recognizer.take expected) where
  agrees := by
    intro p b t hg
    rw [Recognizer.take_run, ← head_any_discriminant h] at hg
    rw [take_run]
    split at hg
    · next hany =>
      obtain ⟨rfl, rfl⟩ := Prod.mk.inj (Option.some.inj hg)
      rw [if_pos hany]
      refine ⟨(bump_fields p).2, ?_, (bump_fields p).1, kinds_bump p⟩
      cases hrest : p.rest with
      | nil => simp [Parser.head, hrest] at hany
      | cons t rest => rfl
    · next hany =>
      obtain ⟨rfl, rfl⟩ := Prod.mk.inj (Option.some.inj hg)
      rw [if_neg hany]
      exact ⟨rfl, rfl, rfl, rfl⟩
  reports := by
    intro p hg
    rw [Recognizer.take_run] at hg
    split at hg <;> cases hg

/-- A token that is demanded is simulated. -/
theorem consume_sim {kind : TokenKind} (h : kind.isEof = false) (description : String) :
    Sim anything (consume kind description) (Recognizer.consume kind) := by
  refine .bind (take_sim h) ?_
  rintro (_ | token) _ rfl
  · exact .fail ((expected_reports _).bind_left _)
  · exact .pure trivial

/-- A keyword that is demanded is simulated. -/
theorem consumeStart_sim {kind : TokenKind} (h : kind.isEof = false) (description : String) :
    Sim anything (consumeStart kind description) (Recognizer.consume kind) := by
  rw [← bind_pure (Recognizer.consume kind)]
  refine .bind (consume_sim h description) fun token _ _ => ?_
  cases token with
  | some token => exact .pure trivial
  | none => exact .skip fun _ => .pure trivial

/-- A construct and the token that closes it are simulated. -/
theorem closed_sim {α β : Type} {R : α → β → Prop} {kind : TokenKind} (h : kind.isEof = false)
    (description : String) {f : ParserM α} {g : Recognizer β} (hf : Sim R f g) :
    Sim R (closed kind description f) (Recognizer.closed kind g) :=
  .bind hf fun _ _ hab => .bind (consume_sim h _) fun _ _ _ => .pure hab

omit [Platform] in
/-- An optional comma is simulated. -/
theorem skipOptionalComma_sim : Sim anything skipOptionalComma Recognizer.skipOptionalComma :=
  .bind (take_sim rfl) fun _ _ _ => .pure trivial

omit [Platform] in
/-- A contextual keyword is simulated. -/
theorem takeContextualIdentifier_sim (word : String) :
    Sim Eq (takeContextualIdentifier word) (Recognizer.takeContextualIdentifier word) := by
  refine .bind peekKind_sim fun next next' hnext => ?_
  cases hnext with
  | eof => exact .pure rfl
  | none => exact .pure rfl
  | @token kind =>
    cases kind with
    | identifier value =>
      exact .ite (fun _ => .bind bump_sim fun _ _ _ => .pure rfl) fun _ => .pure rfl
    | _ => exact .pure rfl

/-- A string literal is simulated. -/
theorem stringLiteral_sim (description : String) :
    Sim (fun s value => s.value = value) (stringLiteral description) Recognizer.stringLiteral := by
  refine .skip fun span => .bind peekKind_sim fun next next' hnext => ?_
  cases hnext with
  | eof => exact .fail ((expected_reports _).bind_left _)
  | none => exact .fail ((expected_reports _).bind_left _)
  | @token kind =>
    cases kind with
    | stringLiteral value => exact .bind bump_sim fun _ _ _ => .pure rfl
    | _ => exact .fail ((expected_reports _).bind_left _)

omit [Platform] in
/-- A key is simulated. -/
theorem objectKey_sim :
    Sim (fun key text => key.map (·.value) = text) objectKey Recognizer.objectKey := by
  refine .skip fun span => .bind peekKind_sim fun next next' hnext => ?_
  have hkey : next.bind keyText = next'.bind keyText := by cases hnext <;> rfl
  rw [hkey]
  cases next'.bind keyText with
  | none => exact .pure rfl
  | some text => exact .bind bump_sim fun _ _ _ => .pure rfl

/-! ## Loops and containers -/

omit [Platform] in
/-- **A loop is simulated** if its rounds are. -/
theorem untilNext_sim {α β : Type} {R : α → β → Prop} (stop : TokenKind → Bool)
    {body : α → ParserM α} {body' : β → Recognizer β}
    (hbody : ∀ a b, R a b → Sim R (body a) (body' b)) {a : α} {b : β} (h : R a b) :
    Sim R (untilNext stop body a) (Recognizer.untilNext stop body' b) := by
  refine .bind (.read fun p => rfl) ?_
  rintro fuel _ rfl
  refine .loop (fun _ _ _ => .read fun p => ?_) hbody fuel h
  have hnext := sameNext p
  have hempty : p.kinds.isEmpty = p.kinds.head?.isNone := by cases p.kinds <;> rfl
  rw [hempty]
  generalize p.head = next at hnext
  generalize p.kinds.head? = next' at hnext
  cases hnext with
  | @token kind hkind => simp [hkind]
  | eof => rfl
  | none => rfl

omit [Platform] in
/-- **Containers.** Inside, the nesting is one deeper; at the limit both fail. -/
theorem nested_sim {α α' β : Type} {R : α → β → Prop} {R' : α' → β → Prop} (span : SourceSpan)
    (start : Nat) {inner : ParserM α} {g : Recognizer β} (hinner : Sim R inner g)
    (make : α → SourceSpan → α') (hmake : ∀ a b s, R a b → R' (make a s) b) (skip : ParserM α') :
    Sim R' (do
      if ← enterNesting span then
        let a ← inner
        let s ← spanFrom start
        exitNesting
        pure (make a s)
      else skip) (Recognizer.nested g) where
  agrees := by
    intro p b t hg
    rw [Recognizer.nested] at hg
    split at hg
    · cases hg
    · next hroom =>
      have hroom' : ¬ p.nestingDepth ≥ p.maxNestingDepth := hroom
      obtain ⟨herr, hR, henv, hview⟩ :=
        hinner.agrees { p with nestingDepth := p.nestingDepth + 1 } b t hg
      simp only [Recorder.run_bind, enterNesting, if_neg hroom']
      refine ⟨herr, hmake _ _ _ hR, ?_, hview⟩
      obtain ⟨hdepth, hlimit⟩ := Nesting.mk.inj henv
      exact congrArg₂ Nesting.mk (congrArg (· - 1) hdepth) hlimit
  reports := by
    intro p hg
    rw [Recognizer.nested] at hg
    split at hg
    · next hfull =>
      -- at the limit the parser reports an error and the recognizer fails
      have hfull' : p.nestingDepth ≥ p.maxNestingDepth := hfull
      have hreports : parserRecording.errors ((enterNesting span).run p).2 ≠
          parserRecording.errors p := by
        intro h
        simpa [enterNesting, if_pos hfull', parserRecording] using congrArg List.length h
      exact Recorder.errors_ne hreports
    · next hroom =>
      have hroom' : ¬ p.nestingDepth ≥ p.maxNestingDepth := hroom
      have herr := hinner.reports { p with nestingDepth := p.nestingDepth + 1 } hg
      simp only [Recorder.run_bind, enterNesting, if_neg hroom']
      exact herr

/-! ## Values -/

section Values

variable {parseValue : ParserM (Option ValueAst)} {value : Recognizer (Option Tree.Value)}

/-- The optional trees agree. -/
abbrev SameValue (v : Option ValueAst) (t : Option Tree.Value) : Prop := v.map ValueAst.erase = t

/-- A round over the entries of an object is simulated. -/
theorem objectEntry_sim (h : Sim SameValue parseValue value) (entries : List ObjectValueEntryAst)
    (trees : List (String × Tree.Value)) (heq : eraseEntries entries = trees) :
    Sim (fun entries trees => eraseEntries entries = trees) (objectValueEntry parseValue entries)
      (Recognizer.objectEntry value trees) := by
  refine .bind objectKey_sim ?_
  rintro (_ | key) _ rfl
  · exact .fail ((expected_reports _).bind_left _)
  · refine .bind (consume_sim rfl _) fun _ _ _ => .bind h ?_
    rintro (_ | v) _ rfl
    · exact .fail ((expected_reports _).bind_left _)
    · refine .bind skipOptionalComma_sim fun _ _ _ => .pure ?_
      rw [eraseEntries_eq, List.map_append, ← eraseEntries_eq, heq]
      rfl

/-- An object is simulated if its values are. -/
theorem parseObjectValueWith_sim (h : Sim SameValue parseValue value) :
    Sim (fun object entries => eraseEntries object.entries = entries)
      (parseObjectValueWith parseValue) (Recognizer.objectWith value) := by
  refine .bind (take_sim rfl) ?_
  rintro (_ | leftBrace) _ rfl
  · exact .fail (.bind_right _ fun _ => (expected_reports _).bind_left _)
  · exact nested_sim _ _ (closed_sim rfl _ (untilNext_sim _ (objectEntry_sim h) rfl))
      ObjectValueAst.mk (fun _ _ _ heq => heq) _

/-- A round over the items of an array is simulated. -/
theorem arrayItem_sim (h : Sim SameValue parseValue value) (items : List ValueAst)
    (trees : List Tree.Value) (heq : eraseItems items = trees) :
    Sim (fun items trees => eraseItems items = trees) (arrayItem parseValue items)
      (Recognizer.arrayItem value trees) := by
  refine .bind h ?_
  rintro (_ | v) _ rfl
  · exact .fail ((expected_reports _).bind_left _)
  · have happend : eraseItems (items ++ [v]) = trees ++ [v.erase] := by
      rw [eraseItems_eq, List.map_append, ← eraseItems_eq, heq]
      rfl
    refine .bind (take_sim rfl) ?_
    rintro (_ | comma) _ rfl
    · refine .bind (check_sim rfl) ?_
      rintro closes _ rfl
      exact .ite (fun _ => .pure happend) fun _ => .fail ((expected_reports _).bind_left _)
    · exact .pure happend

/-- An array is simulated if its items are. -/
theorem parseArrayValueWith_sim (h : Sim SameValue parseValue value) :
    Sim (fun array items => eraseItems array.items = items) (parseArrayValueWith parseValue)
      (Recognizer.arrayWith value) := by
  refine .bind (take_sim rfl) ?_
  rintro (_ | leftBracket) _ rfl
  · exact .fail (.bind_right _ fun _ => (expected_reports _).bind_left _)
  · exact nested_sim _ _ (closed_sim rfl _ (untilNext_sim _ (arrayItem_sim h) rfl))
      ArrayValueAst.mk (fun _ _ _ heq => heq) _

/-- A literal is simulated if what is nested in it is. -/
theorem parseValueWith_sim (h : Sim SameValue parseValue value) :
    Sim SameValue (parseValueWith parseValue) (Recognizer.valueWith value) := by
  refine .skip fun span => .bind peekKind_sim fun next next' hnext => ?_
  cases hnext with
  | eof => exact .pure rfl
  | none => exact .pure rfl
  | @token kind =>
    cases kind with
    | leftBracket =>
      refine .bind (parseArrayValueWith_sim h) fun array items heq => .pure ?_
      obtain ⟨_, _⟩ := array
      exact congrArg (fun items => some (Tree.Value.array items)) heq
    | leftBrace =>
      refine .bind (parseObjectValueWith_sim h) fun object entries heq => .pure ?_
      obtain ⟨_, _⟩ := object
      exact congrArg (fun entries => some (Tree.Value.object entries)) heq
    | _ => first | exact .pure rfl | exact .bind bump_sim fun _ _ _ => .pure rfl

end Values

/-- A literal with so many levels left is simulated. -/
theorem parseValueAt_sim (depth : Nat) :
    Sim SameValue (parseValueAt depth) (Recognizer.valueAt depth) := by
  induction depth with
  | zero => exact parseValueWith_sim (.pure rfl)
  | succ depth ih => exact parseValueWith_sim ih

/-- **Literals are simulated.** -/
theorem parseValue_sim : Sim SameValue parseValue Recognizer.value := by
  refine .bind (.read fun _ => rfl) ?_
  rintro depth _ rfl
  exact parseValueAt_sim depth

/-- Objects are simulated. -/
theorem parseObjectValue_sim :
    Sim (fun object entries => eraseEntries object.entries = entries) parseObjectValue
      Recognizer.object :=
  parseObjectValueWith_sim parseValue_sim

/-! ## Requests -/

/-- A method is simulated. -/
theorem parseHttpMethod_sim :
    Sim (fun method tree => method.value = tree) parseHttpMethod Recognizer.httpMethod := by
  refine .skip fun span => .bind peekKind_sim fun next next' hnext => ?_
  cases hnext with
  | eof => exact .fail ((expected_reports _).bind_left _)
  | none => exact .fail ((expected_reports _).bind_left _)
  | @token kind =>
    cases kind <;>
      first
      | exact .bind bump_sim fun _ _ _ => .pure rfl
      | exact .fail ((expected_reports _).bind_left _)

/-- A round over request headers is simulated. -/
theorem requestHeader_sim (entries : List HeaderValueEntryAst)
    (trees : List (String × Tree.Value))
    (heq : entries.map HeaderValueEntryAst.erase = trees) :
    Sim (fun entries trees => entries.map HeaderValueEntryAst.erase = trees)
      (requestHeader entries) (Recognizer.requestHeader trees) := by
  refine .bind (stringLiteral_sim _) ?_
  rintro name _ rfl
  refine .bind (consume_sim rfl _) fun _ _ _ => .bind parseValue_sim ?_
  rintro (_ | v) _ rfl
  · exact .fail ((expected_reports _).bind_left _)
  · refine .bind skipOptionalComma_sim fun _ _ _ => .pure ?_
    rw [List.map_append, heq]
    rfl

/-- The headers of a request are simulated. -/
theorem parseRequestHeaders_sim :
    Sim (fun headers trees => headers.entries.map HeaderValueEntryAst.erase = trees)
      parseRequestHeaders Recognizer.requestHeaders := by
  refine .bind (consumeStart_sim rfl _) fun start _ _ => .bind (consume_sim rfl _) fun _ _ _ => ?_
  rw [← bind_pure (Recognizer.closed _ _)]
  refine .bind (closed_sim rfl _ (untilNext_sim _ requestHeader_sim rfl)) fun entries trees heq => ?_
  exact .skip fun span => .pure heq

/-- The query of a request is simulated. -/
theorem parseRequestQuery_sim :
    Sim (fun query trees => eraseEntries query.entries = trees) parseRequestQuery
      Recognizer.requestQuery := by
  refine .bind (consumeStart_sim rfl _) fun start _ _ => ?_
  rw [← bind_pure Recognizer.object]
  exact .bind parseObjectValue_sim fun object trees heq => .pure heq

/-- The body of a request is simulated. -/
theorem parseRequestBody_sim :
    Sim (fun body trees => eraseEntries body.value.entries = trees) parseRequestBody
      Recognizer.requestBody := by
  refine .bind (consumeStart_sim rfl _) fun start _ _ => ?_
  rw [← bind_pure Recognizer.object]
  exact .bind parseObjectValue_sim fun object trees heq => .pure heq

/-- A round over the sections of a request is simulated. -/
theorem requestSection_sim (sections : List RequestSectionAst) (trees : List Tree.RequestSection)
    (heq : sections.map RequestSectionAst.erase = trees) :
    Sim (fun sections trees => sections.map RequestSectionAst.erase = trees)
      (requestSection sections) (Recognizer.requestSection trees) := by
  have happend : ∀ s, (sections ++ [s]).map RequestSectionAst.erase = trees ++ [s.erase] := by
    intro s
    rw [List.map_append, heq, List.map_singleton]
  refine .bind peekKind_sim fun next next' hnext => ?_
  cases hnext with
  | eof => exact .fail ((expected_reports _).bind_left _)
  | none => exact .fail ((expected_reports _).bind_left _)
  | @token kind =>
    cases kind with
    | headers =>
      refine .bind parseRequestHeaders_sim ?_
      rintro headers _ rfl
      exact .pure (happend _)
    | query =>
      refine .bind parseRequestQuery_sim ?_
      rintro query _ rfl
      exact .pure (happend _)
    | body =>
      refine .bind parseRequestBody_sim ?_
      rintro body _ rfl
      exact .pure (happend _)
    | _ => exact .fail ((expected_reports _).bind_left _)

/-- **Requests are simulated.** -/
theorem parseRequest_sim :
    Sim (fun request tree => request.erase = tree) parseRequest Recognizer.request := by
  refine .bind (consumeStart_sim rfl _) fun start _ _ => .bind parseHttpMethod_sim ?_
  rintro method _ rfl
  refine .bind (stringLiteral_sim _) ?_
  rintro path _ rfl
  refine .bind (take_sim rfl) ?_
  rintro (_ | leftBrace) _ rfl
  · exact .skip fun span => .pure rfl
  · refine .bind (closed_sim rfl _ (untilNext_sim _ requestSection_sim rfl)) ?_
    rintro sections _ rfl
    exact .skip fun span => .pure rfl

/-! ## Expectations -/

/-- A status assertion is simulated. -/
theorem parseStatusAssertion_sim :
    Sim (fun status tree => status.expected.value = tree) parseStatusAssertion
      Recognizer.statusAssertion := by
  refine .bind (consumeStart_sim rfl _) fun start _ _ => .bind (consume_sim rfl _) fun _ _ _ => ?_
  rw [Recognizer.token_bind]
  refine .skip fun span => .bind peekKind_sim fun next next' hnext => ?_
  cases hnext with
  | eof => exact .fail ((expected_reports _).bind_left _)
  | none => exact .fail ((expected_reports _).bind_left _)
  | @token kind =>
    cases kind with
    | integerLiteral value =>
      exact .bind bump_sim fun _ _ _ => .bind skipOptionalComma_sim fun _ _ _ =>
        .skip fun _ => .pure rfl
    | _ => exact .fail ((expected_reports _).bind_left _)

/-- A round over header assertions is simulated. -/
theorem responseHeader_sim (entries : List ResponseHeaderAssertionAst)
    (trees : List Tree.HeaderAssertion)
    (heq : entries.map ResponseHeaderAssertionAst.erase = trees) :
    Sim (fun entries trees => entries.map ResponseHeaderAssertionAst.erase = trees)
      (responseHeader entries) (Recognizer.responseHeader trees) := by
  have happend : ∀ e, (entries ++ [e]).map ResponseHeaderAssertionAst.erase =
      trees ++ [e.erase] := by
    intro e
    rw [List.map_append, heq, List.map_singleton]
  refine .bind (stringLiteral_sim _) ?_
  rintro name _ rfl
  -- a colon, an equals sign or the word `contains` says what is asserted
  refine .bind (take_sim rfl) ?_
  rintro colon _ rfl
  refine .ite (fun _ => ?_) fun _ => ?_
  · exact .bind (consume_sim rfl _) fun _ _ _ => .skip fun _ => .skip fun _ =>
      .bind skipOptionalComma_sim fun _ _ _ => .pure (happend _)
  refine .bind (take_sim rfl) ?_
  rintro equal _ rfl
  refine .ite (fun _ => ?_) fun _ => ?_
  · refine .bind (stringLiteral_sim _) ?_
    rintro value _ rfl
    exact .skip fun _ => .bind skipOptionalComma_sim fun _ _ _ => .pure (happend _)
  refine .bind (takeContextualIdentifier_sim _) ?_
  rintro contains _ rfl
  refine .ite (fun _ => ?_) fun _ => .fail ((expected_reports _).bind_left _)
  refine .bind (stringLiteral_sim _) ?_
  rintro value _ rfl
  exact .skip fun _ => .bind skipOptionalComma_sim fun _ _ _ => .pure (happend _)

/-- The headers of an expectation are simulated. -/
theorem parseResponseHeaders_sim :
    Sim (fun headers trees => headers.entries.map ResponseHeaderAssertionAst.erase = trees)
      parseResponseHeaders Recognizer.responseHeaders := by
  refine .bind (consumeStart_sim rfl _) fun start _ _ => .bind (consume_sim rfl _) fun _ _ _ => ?_
  rw [← bind_pure (Recognizer.closed _ _)]
  refine .bind (closed_sim rfl _ (untilNext_sim _ responseHeader_sim rfl)) fun entries trees heq =>
    ?_
  exact .skip fun span => .pure heq

/-- The name of a capture is simulated. -/
theorem parseCaptureName_sim :
    Sim (fun name tree => name.value = tree) parseCaptureName Recognizer.captureName := by
  refine .skip fun span => .bind peekKind_sim fun next next' hnext => ?_
  cases hnext with
  | eof => exact .fail ((expected_reports _).bind_left _)
  | none => exact .fail ((expected_reports _).bind_left _)
  | @token kind =>
    cases kind with
    | identifier value => exact .bind bump_sim fun _ _ _ => .pure rfl
    | _ => exact .fail ((expected_reports _).bind_left _)

/-- `parseAssertionType` with an error also at the very end of the tokens. -/
def demandAssertionType : ParserM (Option (Spanned AssertionTypeAst)) := do
  let span ← currentSpan
  match ← peekKind with
  | none =>
    expected "assertion type"
    pure none
  | next => assertionTypeOf span next

/-- A type that is demanded is simulated. -/
theorem demandAssertionType_sim :
    Sim (fun type tree => type.map (·.value) = some tree) demandAssertionType
      Recognizer.assertionType := by
  refine .skip fun span => .bind peekKind_sim fun next next' hnext => ?_
  cases hnext with
  | eof => exact .fail ((expected_reports _).bind_left _)
  | none => exact .fail ((expected_reports _).bind_left _)
  | @token kind =>
    cases kind <;>
      first
      | exact .bind bump_sim fun _ _ _ => .pure rfl
      | exact .fail ((expected_reports _).bind_left _)

section ObjectAssertions

variable {parseNested : ParserM ObjectAssertionAst} {nested : Recognizer (List Tree.FieldAssertion)}

/-- A nested assertion is partial and has the recognized fields. -/
abbrev SameNested (assertion : ObjectAssertionAst) (fields : List Tree.FieldAssertion) : Prop :=
  assertion.erase = ⟨.partially, fields⟩

/-- What follows the type of a field is simulated. -/
theorem parseFieldOperand_sim (h : Sim SameNested parseNested nested)
    (type : Option (Spanned AssertionTypeAst)) :
    Sim (fun operand tree => operand.1.map ValueAst.erase = tree.1 ∧ eraseNested operand.2 = tree.2)
      (parseFieldOperand parseNested type)
      (Recognizer.fieldOperand nested (type.map (·.value))) := by
  refine .bind (take_sim rfl) ?_
  rintro equal _ rfl
  refine .ite (fun _ => ?_) fun _ => ?_
  · refine .bind parseValue_sim ?_
    rintro (_ | v) _ rfl
    · exact .fail ((expected_reports _).bind_left _)
    · exact .pure ⟨rfl, rfl⟩
  · refine .bind (check_sim rfl) ?_
    rintro opens _ rfl
    have htype : (type.map (·.value)).any (fun kind => kind = .object) =
        type.any fun kind => kind.value = .object := by cases type <;> rfl
    rw [htype]
    refine .ite (fun _ => .bind h ?_) fun _ => .pure ⟨rfl, rfl⟩
    intro assertion fields heq
    exact .pure ⟨rfl, congrArg some heq⟩

/-- A capture is simulated. -/
theorem parseCapture_sim (type : Option (Spanned AssertionTypeAst)) :
    Sim (fun name tree => name.map (·.value) = tree) (parseCapture type)
      (Recognizer.capture (type.map (·.value))) := by
  refine .bind (take_sim rfl) ?_
  rintro arrow _ rfl
  refine .ite (fun _ => ?_) fun _ => .pure rfl
  rw [Option.isNone_map]
  refine .bind (pushErrorIf_sim _ _) fun _ _ _ => .bind parseCaptureName_sim ?_
  rintro name _ rfl
  exact .pure rfl

/-- A field behind its type is simulated. -/
theorem parseFieldRest_sim (h : Sim SameNested parseNested nested) (name : Spanned String)
    (type : Option (Spanned AssertionTypeAst)) :
    Sim (fun field tree => field.erase = tree) (parseFieldRest parseNested name type)
      (Recognizer.fieldRest nested name.value (type.map (·.value))) := by
  refine .bind (parseFieldOperand_sim h type) ?_
  rintro ⟨expectedValue, nestedAssertion⟩ ⟨_, _⟩ ⟨rfl, rfl⟩
  refine .bind (parseCapture_sim type) ?_
  rintro capture _ rfl
  have hmissing : ((type.map (·.value)).isNone && (expectedValue.map ValueAst.erase).isNone &&
      (eraseNested nestedAssertion).isNone) =
      (type.isNone && expectedValue.isNone && nestedAssertion.isNone) := by
    rw [eraseNested_eq, Option.isNone_map, Option.isNone_map, Option.isNone_map]
  dsimp only
  rw [hmissing]
  exact .bind (pushErrorIf_sim _ _) fun _ _ _ => .skip fun span => .pure rfl

/-- A missing type at the very end of the tokens is noticed by what follows it. -/
theorem parseTypedField_sim (h : Sim SameNested parseNested nested) (name : Spanned String) :
    Sim (fun field tree => field.erase = tree) (parseTypedField parseNested name)
      (Recognizer.typedField nested name.value) := by
  have hdemand : Sim (fun field tree => FieldAssertionAst.erase field = tree)
      (demandAssertionType >>= parseFieldRest parseNested name)
      (Recognizer.typedField nested name.value) := by
    refine .bind demandAssertionType_sim ?_
    rintro (_ | type) tree htype
    · cases htype
    · obtain rfl := Option.some.inj htype
      exact parseFieldRest_sim h name (some type)
  have hrun : ∀ p : Parser, p.head ≠ none → (parseTypedField parseNested name).run p =
      (demandAssertionType >>= parseFieldRest parseNested name).run p := by
    intro p hhead
    have htype : parseAssertionType.run p = demandAssertionType.run p := by
      simp only [parseAssertionType, demandAssertionType, Recorder.run_bind, currentSpan, peekKind,
        Recorder.run_read]
    rw [parseTypedField, Recorder.run_bind, Recorder.run_bind, htype]
  -- at the very end the recognizer fails
  have hend : ∀ p : Parser, p.head = none → p.kinds = [] := by
    intro p hhead
    unfold Parser.head at hhead
    unfold Parser.kinds
    rw [List.head?_eq_none_iff.mp (Option.map_eq_none_iff.mp hhead)]
    rfl
  refine ⟨?_, ?_⟩
  · intro p b t hg
    by_cases hhead : p.head = none
    · rw [hend p hhead] at hg
      cases hg
    · rw [hrun p hhead]
      exact hdemand.agrees p b t hg
  · intro p hg
    by_cases hhead : p.head = none
    · have hnone : parseAssertionType.run p = (none, p) := by
        simp only [parseAssertionType, Recorder.run_bind, currentSpan, peekKind, Recorder.run_read,
          hhead]
        rfl
      rw [parseTypedField, Recorder.run_bind, hnone]
      refine (parseFieldRest_sim h name none).reports p ?_
      rw [hend p hhead]
      rfl
    · rw [hrun p hhead]
      exact hdemand.reports p hg

/-- A field is simulated. -/
theorem parseFieldAssertion_sim (h : Sim SameNested parseNested nested) :
    Sim (fun field tree => field.map FieldAssertionAst.erase = some tree)
      (parseFieldAssertion parseNested) (Recognizer.fieldAssertion nested) := by
  refine .bind objectKey_sim ?_
  rintro (_ | name) _ rfl
  · exact .fail ((expected_reports _).bind_left _)
  · refine .bind (take_sim rfl) ?_
    rintro colon _ rfl
    refine .ite (fun _ => ?_) fun _ => ?_
    · rw [← bind_pure (Recognizer.typedField _ _)]
      exact .bind (parseTypedField_sim h name) fun _ _ heq => .pure (congrArg some heq)
    · rw [← bind_pure (Recognizer.fieldRest _ _ _)]
      exact .bind (parseFieldRest_sim h name none) fun _ _ heq => .pure (congrArg some heq)

/-- A round over the fields of an object is simulated. -/
theorem fieldAssertion_sim (h : Sim SameNested parseNested nested)
    (fields : List FieldAssertionAst) (trees : List Tree.FieldAssertion)
    (heq : eraseFields fields = trees) :
    Sim (fun fields trees => eraseFields fields = trees) (fieldAssertion parseNested fields)
      (Recognizer.field nested trees) := by
  refine .bind (parseFieldAssertion_sim h) ?_
  rintro (_ | field) tree htree
  · cases htree
  · obtain rfl := Option.some.inj htree
    refine .bind skipOptionalComma_sim fun _ _ _ => .pure ?_
    rw [eraseFields_eq, List.map_append, ← eraseFields_eq, heq]
    rfl

/-- An object assertion is simulated if what is nested in it is. -/
theorem parseObjectAssertionWith_sim (h : Sim SameNested parseNested nested)
    (mode : ObjectMatchModeAst) :
    Sim (fun assertion fields => assertion.erase = ⟨mode, fields⟩)
      (parseObjectAssertionWith parseNested mode) (Recognizer.fields nested) := by
  refine .bind (take_sim rfl) ?_
  rintro (_ | leftBrace) _ rfl
  · exact .fail (.bind_right _ fun _ => (expected_reports _).bind_left _)
  · exact nested_sim _ _ (closed_sim rfl _ (untilNext_sim _ (fieldAssertion_sim h) rfl))
      (ObjectAssertionAst.mk mode) (fun _ _ _ heq => congrArg (Tree.ObjectAssertion.mk mode) heq) _

end ObjectAssertions

/-- An object assertion with so many levels left is simulated. -/
theorem parseObjectAssertionAt_sim (depth : Nat) (mode : ObjectMatchModeAst) :
    Sim (fun assertion fields => assertion.erase = ⟨mode, fields⟩)
      (parseObjectAssertionAt depth mode) (Recognizer.fieldsAt depth) := by
  induction depth generalizing mode with
  | zero => exact parseObjectAssertionWith_sim (.pure rfl) mode
  | succ depth ih => exact parseObjectAssertionWith_sim (ih .partially) mode

/-- **Object assertions are simulated.** -/
theorem parseObjectAssertion_sim (mode : ObjectMatchModeAst) :
    Sim (fun assertion tree => assertion.erase = tree) (parseObjectAssertion mode)
      (Recognizer.objectAssertion mode) := by
  refine .bind (.read fun _ => rfl) ?_
  rintro depth _ rfl
  exact .map_right (parseObjectAssertionAt_sim depth mode) fun _ _ heq => heq

/-- A body assertion is simulated. -/
theorem parseBodyAssertion_sim :
    Sim (fun body tree => body.erase = tree) parseBodyAssertion Recognizer.bodyAssertion := by
  refine .bind (consumeStart_sim rfl _) fun start _ _ => .bind (takeContextualIdentifier_sim _) ?_
  rintro empty _ rfl
  refine .ite (fun _ => ?_) fun _ => .bind (take_sim rfl) ?_
  · exact .bind skipOptionalComma_sim fun _ _ _ => .skip fun _ => .pure rfl
  rintro equal _ rfl
  refine .ite (fun _ => .bind (stringLiteral_sim _) ?_) fun _ =>
    .bind (takeContextualIdentifier_sim _) ?_
  · rintro value _ rfl
    exact .bind skipOptionalComma_sim fun _ _ _ => .skip fun _ => .pure rfl
  rintro contains _ rfl
  refine .ite (fun _ => .bind (stringLiteral_sim _) ?_) fun _ => .bind (take_sim rfl) ?_
  · rintro value _ rfl
    exact .bind skipOptionalComma_sim fun _ _ _ => .skip fun _ => .pure rfl
  rintro exact_ _ rfl
  refine .bind (parseObjectAssertion_sim _) ?_
  rintro ⟨mode, fields, span⟩ _ rfl
  exact .pure rfl

/-- A round over the sections of an expectation is simulated. -/
theorem expectationSection_sim (sections : List ExpectationSectionAst)
    (trees : List Tree.ExpectationSection)
    (heq : sections.map ExpectationSectionAst.erase = trees) :
    Sim (fun sections trees => sections.map ExpectationSectionAst.erase = trees)
      (expectationSection sections) (Recognizer.expectationSection trees) := by
  have happend : ∀ s, (sections ++ [s]).map ExpectationSectionAst.erase = trees ++ [s.erase] := by
    intro s
    rw [List.map_append, heq, List.map_singleton]
  refine .bind peekKind_sim fun next next' hnext => ?_
  cases hnext with
  | eof => exact .fail ((expected_reports _).bind_left _)
  | none => exact .fail ((expected_reports _).bind_left _)
  | @token kind =>
    cases kind with
    | status =>
      refine .bind parseStatusAssertion_sim ?_
      rintro status _ rfl
      exact .pure (happend _)
    | headers =>
      refine .bind parseResponseHeaders_sim ?_
      rintro headers _ rfl
      exact .pure (happend _)
    | body =>
      refine .bind parseBodyAssertion_sim ?_
      rintro body _ rfl
      exact .pure (happend _)
    | _ => exact .fail ((expected_reports _).bind_left _)

/-- **Expectations are simulated.** -/
theorem parseExpectation_sim :
    Sim (fun expectation tree => expectation.erase = tree) parseExpectation
      Recognizer.expectation := by
  refine .bind (consumeStart_sim rfl _) fun start _ _ => .bind (consume_sim rfl _) fun _ _ _ => ?_
  rw [← bind_pure (Recognizer.closed _ _)]
  refine .bind (closed_sim rfl _ (untilNext_sim _ expectationSection_sim rfl)) ?_
  rintro sections _ rfl
  exact .skip fun span => .pure rfl

/-! ## Tests, blocks and suites -/

/-- The declarations of a test so far agree. -/
structure SameItems (items : TestItems) (trees : Recognizer.TestTrees) : Prop where
  requests : items.requests.map RequestAst.erase = trees.requests
  expectations : items.expectations.map ExpectationAst.erase = trees.expectations
  sawExpectation : items.sawExpectation = trees.sawExpectation

/-- A round over the items of a test is simulated. -/
theorem testItem_sim (items : TestItems) (trees : Recognizer.TestTrees)
    (h : SameItems items trees) : Sim SameItems (testItem items) (Recognizer.testItem trees) := by
  obtain ⟨requests, expectations, sawExpectation⟩ := items
  obtain ⟨_, _, _⟩ := trees
  obtain ⟨rfl, rfl, rfl⟩ := h
  refine .bind peekKind_sim fun next next' hnext => ?_
  cases hnext with
  | eof => exact .fail ((expected_reports _).bind_left _)
  | none => exact .fail ((expected_reports _).bind_left _)
  | @token kind =>
    cases kind with
    | request =>
      refine .bind (pushErrorIf_sim _ _) fun _ _ _ => .bind parseRequest_sim ?_
      rintro request _ rfl
      exact .pure ⟨List.map_append, rfl, rfl⟩
    | expect =>
      refine .bind parseExpectation_sim ?_
      rintro expectation _ rfl
      exact .pure ⟨rfl, List.map_append, rfl⟩
    | _ => exact .fail ((expected_reports _).bind_left _)

/-- **Tests are simulated.** -/
theorem parseTest_sim :
    Sim (fun test tree => test.erase = tree) parseTest Recognizer.test := by
  refine .bind (consumeStart_sim rfl _) fun start _ _ => .bind (stringLiteral_sim _) ?_
  rintro name _ rfl
  refine .bind (consume_sim rfl _) fun _ _ _ =>
    .bind (untilNext_sim _ testItem_sim ⟨rfl, rfl, rfl⟩) ?_
  rintro ⟨requests, expectations, _⟩ ⟨_, _, _⟩ ⟨rfl, rfl, rfl⟩
  dsimp only
  rw [List.isEmpty_map, List.isEmpty_map]
  exact .bind (pushErrorIf_sim _ _) fun _ _ _ => .bind (pushErrorIf_sim _ _) fun _ _ _ =>
    .bind (consume_sim rfl _) fun _ _ _ => .skip fun span => .pure rfl

/-- A round over the tests of a block is simulated. -/
theorem containedTest_sim (description : String) (tests : List TestAst)
    (trees : List Tree.Test) (heq : tests.map TestAst.erase = trees) :
    Sim (fun tests trees => tests.map TestAst.erase = trees) (containedTest description tests)
      (Recognizer.containedTest trees) := by
  refine .bind (check_sim rfl) ?_
  rintro starts _ rfl
  refine .ite (fun _ => .bind parseTest_sim ?_) fun _ =>
    .fail ((expected_reports _).bind_left _)
  rintro test _ rfl
  refine .pure ?_
  rw [List.map_append, heq, List.map_singleton]

/-- A core is simulated. -/
theorem parseCoreBlock_sim :
    Sim (fun block trees => block.tests.map TestAst.erase = trees) parseCoreBlock
      Recognizer.coreBlock := by
  refine .bind (consumeStart_sim rfl _) fun start _ _ => .bind (consume_sim rfl _) fun _ _ _ => ?_
  rw [← bind_pure (Recognizer.closed _ _)]
  refine .bind (closed_sim rfl _ (untilNext_sim _ (containedTest_sim _) rfl))
    fun tests trees heq => ?_
  exact .skip fun span => .pure heq

/-- A pipeline is simulated. -/
theorem parsePipelineBlock_sim :
    Sim (fun block tree => (block.name.value, block.tests.map TestAst.erase) = tree)
      parsePipelineBlock Recognizer.pipelineBlock := by
  refine .bind (consumeStart_sim rfl _) fun start _ _ => .bind (stringLiteral_sim _) ?_
  rintro name _ rfl
  refine .bind (consume_sim rfl _) fun _ _ _ =>
    .bind (untilNext_sim _ (containedTest_sim _) rfl) ?_
  rintro tests _ rfl
  rw [List.isEmpty_map]
  exact .bind (pushErrorIf_sim _ _) fun _ _ _ => .bind (consume_sim rfl _) fun _ _ _ =>
    .skip fun span => .pure rfl

/-- The blocks of a suite so far agree. -/
structure SameBlocks (items : SuiteItems) (trees : Recognizer.SuiteTrees) : Prop where
  blocks : items.blocks.map BlockAst.erase = trees.blocks
  hasCore : items.hasCore = trees.hasCore

/-- A round over the blocks of a suite is simulated. -/
theorem suiteItem_sim (items : SuiteItems) (trees : Recognizer.SuiteTrees)
    (h : SameBlocks items trees) :
    Sim SameBlocks (suiteItem items) (Recognizer.suiteItem trees) := by
  obtain ⟨blocks, hasCore⟩ := items
  obtain ⟨_, _⟩ := trees
  obtain ⟨rfl, rfl⟩ := h
  refine .bind peekKind_sim fun next next' hnext => ?_
  cases hnext with
  | eof => exact .fail ((expected_reports _).bind_left _)
  | none => exact .fail ((expected_reports _).bind_left _)
  | @token kind =>
    cases kind with
    | core =>
      refine .bind (pushErrorIf_sim _ _) fun _ _ _ => .bind parseCoreBlock_sim ?_
      rintro block _ rfl
      exact .pure ⟨List.map_append, rfl⟩
    | pipeline =>
      refine .bind parsePipelineBlock_sim ?_
      rintro block _ rfl
      exact .pure ⟨List.map_append, rfl⟩
    | test =>
      refine .bind parseTest_sim ?_
      rintro test _ rfl
      exact .pure ⟨List.map_append, rfl⟩
    | _ => exact .fail ((expected_reports _).bind_left _)

/-- The loop over the blocks of a suite is simulated. -/
theorem suiteItems_sim :
    Sim SameBlocks (untilNext (fun _ => false) suiteItem ⟨[], false⟩) Recognizer.blocks :=
  untilNext_sim _ suiteItem_sim ⟨rfl, rfl⟩

omit [Platform] in
/-- A suite without blocks is the only error of the last check. -/
theorem checkBlocks_errors (blocks : List BlockAst) (span : SourceSpan) (p : Parser) :
    ((checkBlocks blocks span).run p).2.errors = [] ↔ p.errors = [] ∧ blocks ≠ [] := by
  rw [checkBlocks, Recorder.run_bind, Recorder.run_read]
  cases blocks with
  | nil =>
    cases herrors : p.errors with
    | nil => simp [pushError, herrors]
    | cons error errors => simp [herrors]
  | cons block blocks => simp

/-- The blocks that the parser collects, and the state in which it has done so. -/
def Parser.items (p : Parser) : SuiteItems × Parser :=
  (untilNext (fun _ => false) suiteItem ⟨[], false⟩).run p

/-- Nothing is reported if no round reports anything and there is a block. -/
theorem parse_errors (p : Parser) :
    p.parse.errors = [] ↔ p.items.2.errors = [] ∧ p.items.1.blocks ≠ [] :=
  checkBlocks_errors _ _ _

/-- The tree that a parser should build, if there is one. -/
def Parser.recognized (p : Parser) : Option Tree.Suite := do
  let (items, _) ← Recognizer.blocks p.nesting p.kinds
  if items.blocks.isEmpty then none else some items.blocks

/-- **The parser and the recognizer.** A parser without errors so far stays without errors
exactly when the recognizer finds a suite. -/
theorem parse_errors_recognized (p : Parser) (h : p.errors = []) :
    p.parse.errors = [] ↔ ∃ suite, p.recognized = some suite := by
  rw [parse_errors, Parser.recognized]
  cases hg : Recognizer.blocks p.nesting p.kinds with
  | none =>
    have hne : p.items.2.errors ≠ p.errors := suiteItems_sim.reports p hg
    rw [h] at hne
    simp [hne]
  | some result =>
    obtain ⟨trees, rest⟩ := result
    obtain ⟨herr, ⟨hblocks, -⟩, -, -⟩ := suiteItems_sim.agrees p trees rest hg
    have hnil : p.items.2.errors = [] := herr.trans h
    change p.items.1.blocks.map BlockAst.erase = trees.blocks at hblocks
    simp [hnil, ← hblocks]

/-- **The tree of the parser** is the one that the recognizer finds. -/
theorem parse_ast_recognized (p : Parser) {suite : Tree.Suite} (h : p.recognized = some suite) :
    p.parse.ast.erase = suite := by
  rw [Parser.recognized] at h
  cases hg : Recognizer.blocks p.nesting p.kinds with
  | none =>
    rw [hg] at h
    cases h
  | some result =>
    obtain ⟨trees, rest⟩ := result
    obtain ⟨-, ⟨hblocks, -⟩, -, -⟩ := suiteItems_sim.agrees p trees rest hg
    rw [hg] at h
    dsimp only [Option.bind_eq_bind, Option.bind_some] at h
    split at h
    · cases h
    · exact hblocks.trans (Option.some.inj h)

end Rettp
