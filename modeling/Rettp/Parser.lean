import Rettp.Ast
import Rettp.Recovery

/-!
# The parser

Recursive descent over tokens, with recovery: an error is recorded, tokens are skipped up to a
boundary and parsing goes on. The functions are programs over the state `Parser`, which only
ever moves forward and only ever appends errors (`parserRecording`).

The cursor is a zipper: the token before it and the tokens from it on. A loop runs for at most
as many rounds as tokens are left before the end, since each of its rounds consumes one.
Recursion is bounded by the containers that may still be opened: the functions take the parser
of a nested value (or assertion) as an argument, and `parseValue` ties the knot.
-/

namespace Rettp

variable [Platform]

/-! ## Errors -/

/-- What is wrong with a sequence of tokens. -/
inductive ParserErrorKind where
  | unexpectedToken (expected found : String)
  | unexpectedEof (expected : String)
  | emptySuite
  | duplicateCore
  | emptyPipeline
  | missingRequest
  | missingExpectation
  | requestAfterExpectation
  | captureRequiresType
  | missingFieldAssertion
  | nestingLimitExceeded (limit : Nat)
  deriving DecidableEq

/-- An error and its place. -/
structure ParserError where
  kind : ParserErrorKind
  span : SourceSpan
  deriving DecidableEq

/-- A token in an error message. -/
def tokenDescription : TokenKind → String
  | .identifier value => s!"identifier `{value}`"
  | .stringLiteral _ => "string literal"
  | .integerLiteral value => s!"integer `{value}`"
  | .numberLiteral value => s!"number `{Platform.displayF64 value}`"
  | kind => s!"`{kind.debugName}`"

/-! ## State -/

/-- `DEFAULT_MAX_NESTING_DEPTH` -/
def defaultMaxNestingDepth : Nat := 128

/-- `HARD_MAX_NESTING_DEPTH`: no limit goes beyond it. -/
def hardMaxNestingDepth : Nat := 256

/-- The state of the parser: where it stands, how deep it is, and what it found wrong. -/
structure Parser where
  previous : Option Token
  rest : List Token
  nestingDepth : Nat
  maxNestingDepth : Nat
  errors : List ParserError

namespace Parser

/-- A parser in front of its tokens. -/
def new (tokens : List Token) : Parser := ⟨none, tokens, 0, defaultMaxNestingDepth, []⟩

/-- A parser with another limit of nesting. -/
def withMaxNestingDepth (p : Parser) (limit : Nat) : Parser :=
  { p with maxNestingDepth := if limit > hardMaxNestingDepth then hardMaxNestingDepth else limit }

/-- The kind of the next token. -/
def head (p : Parser) : Option TokenKind := p.rest.head?.map (·.kind)

/-- The tokens before the first end-of-input token. -/
def upToEof : List Token → List TokenKind
  | [] => []
  | t :: tokens => if t.kind.isEof then [] else t.kind :: upToEof tokens

/-- The place of the next token, or the one behind the last token. -/
def currentSpan (p : Parser) : SourceSpan :=
  match p.rest with
  | t :: _ => t.span
  | [] =>
    let last := p.previous.elim 0 (·.span.end_)
    ⟨last, last⟩

/-- The place from a position to the end of the token read last. -/
def spanFrom (start : Nat) (p : Parser) : SourceSpan :=
  ⟨start, p.previous.elim start fun t => max t.span.end_ start⟩

/-- Take a token, but not the final `Eof`. -/
def bump (p : Parser) : Parser :=
  match p.rest with
  | t :: rest => if t.kind.isEof then p else { p with previous := some t, rest }
  | [] => p

end Parser

omit [Platform] in
theorem Parser.bump_rest_suffix (p : Parser) : p.bump.rest <:+ p.rest := by
  unfold Parser.bump
  split
  · next t rest h =>
    split
    · exact List.suffix_refl _
    · rw [h]
      exact List.suffix_cons t rest
  · exact List.suffix_refl _

/-- Programs consume tokens from the front, keep the limit and append errors. -/
def parserRecording : Recording Parser ParserError where
  errors := (·.errors)
  moves p q := q.rest <:+ p.rest ∧ q.maxNestingDepth = p.maxNestingDepth ∧ p.errors <+: q.errors
  refl _ := ⟨List.suffix_refl _, rfl, List.prefix_refl _⟩
  trans h h' := ⟨h'.1.trans h.1, h'.2.1.trans h.2.1, h.2.2.trans h'.2.2⟩
  appends h := h.2.2

/-- Functions of the parser, which only move forward and only add errors. -/
abbrev ParserM := Recorder parserRecording

/-! ## Primitives -/

/-- The next token. -/
def peek : ParserM (Option Token) := .read fun p => p.rest.head?

/-- The kind of the next token. -/
def peekKind : ParserM (Option TokenKind) := .read fun p => p.head

/-- The place of the next token. -/
def currentSpan : ParserM SourceSpan := .read fun p => p.currentSpan

/-- The place from a position to the end of the token read last. -/
def spanFrom (start : Nat) : ParserM SourceSpan := .read fun p => p.spanFrom start

/-- Step over the next token unless it is the end. -/
def bump : ParserM Unit where
  run p := ((), p.bump)
  moves p := by
    refine ⟨p.bump_rest_suffix, ?_, ?_⟩ <;>
    · unfold Parser.bump
      split
      · split <;> first | exact List.prefix_refl _ | rfl
      · first | exact List.prefix_refl _ | rfl

/-- Take the next token. -/
def advance : ParserM (Option Token) := do
  match ← peek with
  | none => pure none
  | some token =>
    bump
    pure (some token)

/-- Whether the next token is of this kind, whatever its text. -/
def check (expected : TokenKind) : ParserM Bool :=
  .read fun p => p.head.any fun actual => actual.discriminant == expected.discriminant

/-- Take the next token if it is of this kind. -/
def take (expected : TokenKind) : ParserM (Option Token) := do
  if ← check expected then advance else pure none

/-- Record an error. -/
def pushError (kind : ParserErrorKind) (span : SourceSpan) : ParserM Unit where
  run p := ((), { p with errors := p.errors ++ [⟨kind, span⟩] })
  moves _ := ⟨List.suffix_refl _, rfl, List.prefix_append _ _⟩

/-- Record that something else was expected here. -/
def expected (description : String) : ParserM Unit := do
  match ← peek with
  | some token =>
    if token.kind.isEof then pushError (.unexpectedEof description) (← currentSpan)
    else pushError (.unexpectedToken description (tokenDescription token.kind)) token.span
  | none => pushError (.unexpectedEof description) (← currentSpan)

/-- Record an error at the next token if a condition holds. -/
def pushErrorIf (c : Bool) (kind : ParserErrorKind) : ParserM Unit := do
  if c then pushError kind (← currentSpan)

/-- Take a token of this kind, or record what was expected. -/
def consume (expectedKind : TokenKind) (description : String) : ParserM (Option Token) := do
  match ← take expectedKind with
  | some token => pure (some token)
  | none =>
    expected description
    pure none

/-- Consume a keyword; where the construct starts. -/
def consumeStart (expectedKind : TokenKind) (description : String) : ParserM Nat := do
  match ← consume expectedKind description with
  | some token => pure token.span.start
  | none => return (← currentSpan).start

/-- Parse something and the token that closes it. -/
def closed {α : Type} (close : TokenKind) (description : String) (inner : ParserM α) :
    ParserM α := do
  let a ← inner
  let _ ← consume close description
  pure a

/-- Take a comma, if there is one. -/
def skipOptionalComma : ParserM Unit := do
  let _ ← take .comma

/-- Take an identifier that is a keyword in this place only. -/
def takeContextualIdentifier (word : String) : ParserM Bool := do
  match ← peekKind with
  | some (.identifier value) =>
    if value = word then
      bump
      pure true
    else pure false
  | _ => pure false

/-- A string literal; without one, an error and an empty text. -/
def stringLiteral (description : String) : ParserM (Spanned String) := do
  let span ← currentSpan
  match ← peekKind with
  | some (.stringLiteral value) =>
    bump
    pure ⟨value, span⟩
  | _ =>
    expected description
    pure ⟨"", span⟩

/-- The text of a token that may stand as an object key. -/
def keyText : TokenKind → Option String
  | .identifier value => some value
  | .stringLiteral value => some value
  | .status => some "status"
  | .exact => some "exact"
  | .get => some "GET"
  | .post => some "POST"
  | .put => some "PUT"
  | .patch => some "PATCH"
  | .delete => some "DELETE"
  | .head => some "HEAD"
  | .options => some "OPTIONS"
  | .typeString => some "string"
  | .typeBoolean => some "boolean"
  | .typeInteger => some "integer"
  | .typeNumber => some "number"
  | .typeObject => some "object"
  | .typeArray => some "array"
  | .true_ => some "true"
  | .false_ => some "false"
  | .null => some "null"
  | _ => none

/-- The key of an entry: a string literal, an identifier or a keyword. -/
def objectKey : ParserM (Option (Spanned String)) := do
  let span ← currentSpan
  match (← peekKind).bind keyText with
  | some value =>
    bump
    pure (some ⟨value, span⟩)
  | none => pure none

/-! ## Boundaries -/

/-- A block starts here. -/
def TokenKind.isSuiteBoundary : TokenKind → Bool
  | .core | .pipeline | .test => true
  | _ => false

/-- A block starts here that contains others. -/
def TokenKind.isOuterBlockBoundary : TokenKind → Bool
  | .core | .pipeline => true
  | _ => false

/-- An item of a test or a block starts here. -/
def TokenKind.isTestBoundary : TokenKind → Bool
  | .request | .expect => true
  | kind => kind.isSuiteBoundary

/-- A section of an expectation starts here. -/
def TokenKind.isExpectationSectionStart : TokenKind → Bool
  | .status | .headers | .body => true
  | _ => false

/-- A section, an item of a test or a block starts here. -/
def TokenKind.isContainerBoundary : TokenKind → Bool
  | .headers | .query | .body => true
  | kind => kind.isTestBoundary

/-- A token that recovery does not drop. -/
def TokenKind.isRecoveryBoundary : TokenKind → Bool
  | .eof | .core | .pipeline | .test | .request | .expect | .status | .headers | .query | .body
  | .exact | .leftBrace | .rightBrace | .leftBracket | .rightBracket | .colon | .equal | .arrow
  | .comma => true
  | _ => false

/-- Drop a token that can start nothing. -/
def discardUnexpectedTerminal : ParserM Unit := do
  if (← peekKind).all (·.isRecoveryBoundary) then pure () else bump

/-- The number of tokens before the end. -/
def remaining : ParserM Nat := .read fun p => (Parser.upToEof p.rest).length

/-- Repeat until the end, or until the next token is of a kind. -/
def untilNext {α : Type} (stop : TokenKind → Bool) (body : α → ParserM α) (start : α) :
    ParserM α := do
  repeatWhile (fun _ => .read fun p => !p.head.all (·.isEof) && !p.head.any stop) body
    (← remaining) start

/-- Skip to the end or to a token of a kind. -/
def skipTo (stop : TokenKind → Bool) : ParserM Unit := untilNext stop (fun _ => bump) ()

/-! ## Nesting -/

/-- Open a container unless the limit is reached. -/
def enterNesting (span : SourceSpan) : ParserM Bool where
  run p :=
    if p.nestingDepth ≥ p.maxNestingDepth then
      (false, { p with
        errors := p.errors ++ [⟨.nestingLimitExceeded p.maxNestingDepth, span⟩] })
    else (true, { p with nestingDepth := p.nestingDepth + 1 })
  moves p := by
    split
    · exact ⟨List.suffix_refl _, rfl, List.prefix_append _ _⟩
    · exact ⟨List.suffix_refl _, rfl, List.prefix_refl _⟩

/-- Leave a container. -/
def exitNesting : ParserM Unit where
  run p := ((), { p with nestingDepth := p.nestingDepth - 1 })
  moves _ := ⟨List.suffix_refl _, rfl, List.prefix_refl _⟩

/-- How the depth changes over a token. -/
def depthAfter (depth : Nat) : Option TokenKind → Nat
  | some .leftBrace | some .leftBracket => depth + 1
  | some .rightBrace | some .rightBracket => depth - 1
  | _ => depth

/-- Skip a container with all that is nested in it. -/
def skipBalancedContainer : ParserM Unit := do
  let _ ← repeatWhile (fun depth => .read fun p => !p.head.all (·.isEof) && decide (depth > 0))
    (fun depth => do
      let kind ← peekKind
      bump
      pure (depthAfter depth kind)) (← remaining) 1

/-! ## Values -/

/-- An entry of an object ends here. -/
def isCommaOrRightBrace : TokenKind → Bool
  | .comma | .rightBrace => true
  | _ => false

/-- An item of an array ends here. -/
def isCommaOrRightBracket : TokenKind → Bool
  | .comma | .rightBracket => true
  | _ => false

/-- An object ends here. -/
def isRightBrace : TokenKind → Bool
  | .rightBrace => true
  | _ => false

/-- An array ends here. -/
def isRightBracket : TokenKind → Bool
  | .rightBracket => true
  | _ => false

/-- Go on behind a broken entry of an object. -/
def synchronizeObjectEntry : ParserM Unit := do
  skipTo fun kind => kind.isContainerBoundary || isCommaOrRightBrace kind
  skipOptionalComma

/-- Go on behind a broken item of an array. -/
def synchronizeArrayItem : ParserM Unit := do
  skipTo fun kind => kind.isContainerBoundary || isCommaOrRightBracket kind
  skipOptionalComma

section Values

variable (parseValue : ParserM (Option ValueAst))

/-- One round of the loop over the entries of an object. -/
def objectValueEntry (entries : List ObjectValueEntryAst) : ParserM (List ObjectValueEntryAst) := do
  match ← objectKey with
  | none =>
    expected "object key or `\x7d`"
    discardUnexpectedTerminal
    synchronizeObjectEntry
    pure entries
  | some key =>
    let _ ← consume .equal "`=` after object key"
    match ← parseValue with
    | none =>
      expected "literal, array, or object value"
      synchronizeObjectEntry
      pure entries
    | some value =>
      skipOptionalComma
      pure (entries ++ [⟨key, value, ⟨key.span.start, value.span.end_⟩⟩])

/-- The entries of an object. -/
def parseObjectValueEntries : ParserM (List ObjectValueEntryAst) :=
  untilNext (fun kind => isRightBrace kind || kind.isContainerBoundary)
    (objectValueEntry parseValue) []

/-- An object, given the parser of its values. -/
def parseObjectValueWith : ParserM ObjectValueAst := do
  match ← take .leftBrace with
  | none =>
    let span ← currentSpan
    expected "`\x7b` before object value"
    pure ⟨[], ⟨span.start, span.start⟩⟩
  | some leftBrace =>
    let start := leftBrace.span.start
    if ← enterNesting leftBrace.span then
      let entries ← closed .rightBrace "`\x7d` after object value"
        (parseObjectValueEntries parseValue)
      let span ← spanFrom start
      exitNesting
      pure ⟨entries, span⟩
    else
      skipBalancedContainer
      pure ⟨[], ← spanFrom start⟩

/-- One round of the loop over the items of an array. -/
def arrayItem (items : List ValueAst) : ParserM (List ValueAst) := do
  match ← parseValue with
  | none =>
    expected "array value or `]`"
    discardUnexpectedTerminal
    synchronizeArrayItem
    pure items
  | some value =>
    match ← take .comma with
    | some _ => pure (items ++ [value])
    | none =>
      if ← check .rightBracket then pure (items ++ [value])
      else
        expected "`,` or `]` after array value"
        synchronizeArrayItem
        pure (items ++ [value])

/-- An array, given the parser of its items. -/
def parseArrayValueWith : ParserM ArrayValueAst := do
  match ← take .leftBracket with
  | none =>
    let span ← currentSpan
    expected "`[` before array value"
    pure ⟨[], ⟨span.start, span.start⟩⟩
  | some leftBracket =>
    let start := leftBracket.span.start
    if ← enterNesting leftBracket.span then
      let items ← closed .rightBracket "`]` after array value" <|
        untilNext (fun kind => isRightBracket kind || kind.isContainerBoundary)
          (arrayItem parseValue) []
      let span ← spanFrom start
      exitNesting
      pure ⟨items, span⟩
    else
      skipBalancedContainer
      pure ⟨[], ← spanFrom start⟩

/-- A value whose nested values are parsed by `parseValue`. -/
def parseValueWith : ParserM (Option ValueAst) := do
  let span ← currentSpan
  match ← peekKind with
  | some (.stringLiteral value) =>
    bump
    pure (some (.string ⟨value, span⟩))
  | some (.integerLiteral value) =>
    bump
    pure (some (.integer ⟨value, span⟩))
  | some (.numberLiteral value) =>
    bump
    pure (some (.number ⟨value, span⟩))
  | some .true_ =>
    bump
    pure (some (.boolean ⟨true, span⟩))
  | some .false_ =>
    bump
    pure (some (.boolean ⟨false, span⟩))
  | some .null =>
    bump
    pure (some (.null span))
  | some .leftBracket => return some (.array (← parseArrayValueWith parseValue))
  | some .leftBrace => return some (.object (← parseObjectValueWith parseValue))
  | _ => pure none

end Values

/-- A value in which at most `depth` containers may be opened. Where none may, no value is
nested. -/
def parseValueAt : Nat → ParserM (Option ValueAst)
  | 0 => parseValueWith (pure none)
  | depth + 1 => parseValueWith (parseValueAt depth)

/-- How many containers may still be opened. -/
def nestingLeft : ParserM Nat := .read fun p => p.maxNestingDepth - p.nestingDepth

/-- A literal, within what is left of the nesting limit. -/
def parseValue : ParserM (Option ValueAst) := do
  parseValueAt (← nestingLeft)

/-- An object. -/
def parseObjectValue : ParserM ObjectValueAst := parseObjectValueWith parseValue

/-! ## Requests -/

/-- A method; without one, an error and `GET`. -/
def parseHttpMethod : ParserM (Spanned HttpMethodAst) := do
  let span ← currentSpan
  match ← peekKind with
  | some .get => bump; pure ⟨.get, span⟩
  | some .post => bump; pure ⟨.post, span⟩
  | some .put => bump; pure ⟨.put, span⟩
  | some .patch => bump; pure ⟨.patch, span⟩
  | some .delete => bump; pure ⟨.delete, span⟩
  | some .head => bump; pure ⟨.head, span⟩
  | some .options => bump; pure ⟨.options, span⟩
  | kind =>
    expected "uppercase HTTP method"
    match kind with
    | some (.stringLiteral _) => pure ⟨.get, span⟩
    | _ =>
      discardUnexpectedTerminal
      pure ⟨.get, span⟩

/-- Go on behind a broken request header. -/
def synchronizeRequestEntry : ParserM Unit := do
  skipTo fun kind => kind.isContainerBoundary || isCommaOrRightBrace kind
  skipOptionalComma

/-- One round of the loop over request headers. -/
def requestHeader (entries : List HeaderValueEntryAst) : ParserM (List HeaderValueEntryAst) := do
  let name ← stringLiteral "quoted request header name"
  let _ ← consume .equal "`=` after request header name"
  match ← parseValue with
  | none =>
    expected "request header value"
    synchronizeRequestEntry
    pure entries
  | some value =>
    skipOptionalComma
    pure (entries ++ [⟨name, value, ⟨name.span.start, value.span.end_⟩⟩])

/-- The section `headers` of a request. -/
def parseRequestHeaders : ParserM RequestHeadersAst := do
  let start ← consumeStart .headers "`headers`"
  let _ ← consume .leftBrace "`\x7b` after `headers`"
  let entries ← closed .rightBrace "`\x7d` after request headers" <|
    untilNext (fun kind => isRightBrace kind || kind.isContainerBoundary) requestHeader []
  pure ⟨entries, ← spanFrom start⟩

/-- The section `query` of a request. -/
def parseRequestQuery : ParserM RequestQueryAst := do
  let start ← consumeStart .query "`query`"
  let object ← parseObjectValue
  pure ⟨object.entries, ⟨start, object.span.end_⟩⟩

/-- The section `body` of a request. -/
def parseRequestBody : ParserM RequestBodyAst := do
  let start ← consumeStart .body "`body`"
  let value ← parseObjectValue
  pure ⟨value, ⟨start, value.span.end_⟩⟩

/-- A section of a request starts here. -/
def isRequestSectionStart : TokenKind → Bool
  | .headers | .query | .body => true
  | _ => false

/-- Go on behind a broken section of a request. -/
def synchronizeRequestSection : ParserM Unit :=
  skipTo fun kind => kind.isTestBoundary || isRequestSectionStart kind || isRightBrace kind

/-- One round of the loop over the sections of a request. -/
def requestSection (sections : List RequestSectionAst) : ParserM (List RequestSectionAst) := do
  match ← peekKind with
  | some .headers => return sections ++ [.headers (← parseRequestHeaders)]
  | some .query => return sections ++ [.query (← parseRequestQuery)]
  | some .body => return sections ++ [.body (← parseRequestBody)]
  | _ =>
    expected "`headers`, `query`, `body`, or `\x7d` in request"
    bump
    synchronizeRequestSection
    pure sections

/-- A request with its sections. -/
def parseRequest : ParserM RequestAst := do
  let start ← consumeStart .request "`request`"
  let method ← parseHttpMethod
  let path ← stringLiteral "request path string"
  match ← take .leftBrace with
  | some _ =>
    let sections ← closed .rightBrace "`\x7d` after request options" <|
      untilNext (fun kind => isRightBrace kind || kind.isTestBoundary) requestSection []
    pure ⟨method, path, sections, ← spanFrom start⟩
  | none => pure ⟨method, path, [], ← spanFrom start⟩

/-! ## Expectations -/

/-- The section `status` of an expectation. -/
def parseStatusAssertion : ParserM StatusAssertionAst := do
  let start ← consumeStart .status "`status`"
  let _ ← consume .equal "`=` after `status`"
  let valueSpan ← currentSpan
  match ← peekKind with
  | some (.integerLiteral value) =>
    bump
    skipOptionalComma
    pure ⟨⟨value, valueSpan⟩, ← spanFrom start⟩
  | some _ =>
    expected "integer HTTP status"
    discardUnexpectedTerminal
    skipOptionalComma
    pure ⟨⟨0, valueSpan⟩, ← spanFrom start⟩
  | none =>
    expected "integer HTTP status"
    skipOptionalComma
    pure ⟨⟨0, valueSpan⟩, ← spanFrom start⟩

/-- Go on behind a broken header assertion. -/
def synchronizeExpectationEntry : ParserM Unit := do
  skipTo fun kind => kind.isTestBoundary || isCommaOrRightBrace kind
  skipOptionalComma

/-- One round of the loop over header assertions. -/
def responseHeader (entries : List ResponseHeaderAssertionAst) :
    ParserM (List ResponseHeaderAssertionAst) := do
  let name ← stringLiteral "quoted response header name"
  let start := name.span.start
  if (← take .colon).isSome then
    let typeToken ← consume .typeString "`string` after response header `:`"
    let here ← currentSpan
    let typeSpan := typeToken.elim here (·.span)
    let span ← spanFrom start
    skipOptionalComma
    pure (entries ++ [.exists_ name typeSpan span])
  else if (← take .equal).isSome then
    let value ← stringLiteral "response header comparison string"
    let span ← spanFrom start
    skipOptionalComma
    pure (entries ++ [.exact name value span])
  else if ← takeContextualIdentifier "contains" then
    let value ← stringLiteral "response header substring"
    let span ← spanFrom start
    skipOptionalComma
    pure (entries ++ [.contains name value span])
  else
    expected "`: string`, `=`, or `contains` after response header name"
    synchronizeExpectationEntry
    pure entries

/-- The section `headers` of an expectation. -/
def parseResponseHeaders : ParserM ResponseHeadersAst := do
  let start ← consumeStart .headers "`headers`"
  let _ ← consume .leftBrace "`\x7b` after `headers`"
  let entries ← closed .rightBrace "`\x7d` after response headers" <|
    untilNext (fun kind => isRightBrace kind || kind.isExpectationSectionStart ||
      kind.isTestBoundary) responseHeader []
  pure ⟨entries, ← spanFrom start⟩

/-- The assertion type that a next token stands for. -/
def assertionTypeOf (span : SourceSpan) :
    Option TokenKind → ParserM (Option (Spanned AssertionTypeAst))
  | none => pure none
  | some .typeString => do bump; pure (some ⟨.string, span⟩)
  | some .typeBoolean => do bump; pure (some ⟨.boolean, span⟩)
  | some .typeInteger => do bump; pure (some ⟨.integer, span⟩)
  | some .typeNumber => do bump; pure (some ⟨.number, span⟩)
  | some .typeObject => do bump; pure (some ⟨.object, span⟩)
  | some .typeArray => do bump; pure (some ⟨.array, span⟩)
  | some .null => do bump; pure (some ⟨.null, span⟩)
  | some _ => do
    expected "assertion type"
    discardUnexpectedTerminal
    pure none

/-- The type of a field. Where no token is left, it is missing without an error. -/
def parseAssertionType : ParserM (Option (Spanned AssertionTypeAst)) := do
  let span ← currentSpan
  assertionTypeOf span (← peekKind)

/-- The name behind an arrow. -/
def parseCaptureName : ParserM (Spanned String) := do
  let span ← currentSpan
  match ← peekKind with
  | some (.identifier value) =>
    bump
    pure ⟨value, span⟩
  | some _ =>
    expected "capture variable identifier"
    discardUnexpectedTerminal
    pure ⟨"", span⟩
  | none =>
    expected "capture variable identifier"
    pure ⟨"", span⟩

section ObjectAssertions

variable (parseNested : ParserM ObjectAssertionAst)

/-- The comparison value or the nested assertion of a field. -/
def parseFieldOperand (expectedType : Option (Spanned AssertionTypeAst)) :
    ParserM (Option ValueAst × Option ObjectAssertionAst) := do
  if (← take .equal).isSome then
    match ← parseValue with
    | none =>
      expected "comparison value after `=`"
      pure (none, none)
    | some value => pure (some value, none)
  else if expectedType.any (fun kind => kind.value = .object) && (← check .leftBrace) then
    return (none, some (← parseNested))
  else pure (none, none)

/-- The capture of a field, if it has one. -/
def parseCapture (expectedType : Option (Spanned AssertionTypeAst)) :
    ParserM (Option (Spanned String)) := do
  if (← take .arrow).isSome then
    pushErrorIf expectedType.isNone .captureRequiresType
    return some (← parseCaptureName)
  else pure none

/-- What follows the name and the type of a field. -/
def parseFieldRest (name : Spanned String) (expectedType : Option (Spanned AssertionTypeAst)) :
    ParserM FieldAssertionAst := do
  let operand ← parseFieldOperand parseNested expectedType
  let capture ← parseCapture expectedType
  pushErrorIf (expectedType.isNone && operand.1.isNone && operand.2.isNone)
    .missingFieldAssertion
  pure ⟨name, expectedType, operand.1, operand.2, capture, ← spanFrom name.span.start⟩

/-- What follows the name and the colon of a field. -/
def parseTypedField (name : Spanned String) : ParserM FieldAssertionAst := do
  let expectedType ← parseAssertionType
  parseFieldRest parseNested name expectedType

/-- One field, given the parser of nested fields. -/
def parseFieldAssertion : ParserM (Option FieldAssertionAst) := do
  match ← objectKey with
  | none =>
    expected "assertion field name or `\x7d`"
    discardUnexpectedTerminal
    pure none
  | some name =>
    if (← take .colon).isSome then return some (← parseTypedField parseNested name)
    else return some (← parseFieldRest parseNested name none)

/-- One round of the loop over the fields of an object. -/
def fieldAssertion (fields : List FieldAssertionAst) : ParserM (List FieldAssertionAst) := do
  match ← parseFieldAssertion parseNested with
  | some field =>
    skipOptionalComma
    pure (fields ++ [field])
  | none =>
    synchronizeExpectationEntry
    pure fields

/-- An object assertion whose nested assertions are parsed by `parseNested`. -/
def parseObjectAssertionWith (mode : ObjectMatchModeAst) : ParserM ObjectAssertionAst := do
  match ← take .leftBrace with
  | none =>
    let span ← currentSpan
    expected "`\x7b` before object assertion"
    pure ⟨mode, [], ⟨span.start, span.start⟩⟩
  | some leftBrace =>
    let start := leftBrace.span.start
    if ← enterNesting leftBrace.span then
      let fields ← closed .rightBrace "`\x7d` after object assertion" <|
        untilNext (fun kind => isRightBrace kind || kind.isContainerBoundary)
          (fieldAssertion parseNested) []
      let span ← spanFrom start
      exitNesting
      pure ⟨mode, fields, span⟩
    else
      skipBalancedContainer
      pure ⟨mode, [], ← spanFrom start⟩

end ObjectAssertions

/-- An object assertion in which at most `depth` containers may be opened, itself included. -/
def parseObjectAssertionAt : Nat → ObjectMatchModeAst → ParserM ObjectAssertionAst
  | 0, mode => parseObjectAssertionWith (pure ⟨.partially, [], ⟨0, 0⟩⟩) mode
  | depth + 1, mode => parseObjectAssertionWith (parseObjectAssertionAt depth .partially) mode

/-- An object assertion, within what is left of the nesting limit. -/
def parseObjectAssertion (mode : ObjectMatchModeAst) : ParserM ObjectAssertionAst := do
  parseObjectAssertionAt (← nestingLeft) mode

/-- The section `body` of an expectation. -/
def parseBodyAssertion : ParserM BodyAssertionAst := do
  let start ← consumeStart .body "`body`"
  if ← takeContextualIdentifier "empty" then
    skipOptionalComma
    return .empty (← spanFrom start)
  else if (← take .equal).isSome then
    let expected ← stringLiteral "text body comparison string"
    skipOptionalComma
    return .textExact expected (← spanFrom start)
  else if ← takeContextualIdentifier "contains" then
    let expected ← stringLiteral "text body substring"
    skipOptionalComma
    return .textContains expected (← spanFrom start)
  else
    let mode := if (← take .exact).isSome then .exact else .partially
    let assertion ← parseObjectAssertion mode
    return .object { assertion with span := ⟨start, max assertion.span.end_ start⟩ }

/-- Go on behind a broken section of an expectation. -/
def synchronizeExpectationSection : ParserM Unit :=
  skipTo fun kind => kind.isTestBoundary || kind.isExpectationSectionStart || isRightBrace kind

/-- One round of the loop over the sections of an expectation. -/
def expectationSection (sections : List ExpectationSectionAst) :
    ParserM (List ExpectationSectionAst) := do
  match ← peekKind with
  | some .status => return sections ++ [.status (← parseStatusAssertion)]
  | some .headers => return sections ++ [.headers (← parseResponseHeaders)]
  | some .body => return sections ++ [.body (← parseBodyAssertion)]
  | _ =>
    expected "`status`, `headers`, `body`, or `\x7d` in expectation"
    bump
    synchronizeExpectationSection
    pure sections

/-- An expectation with its sections. -/
def parseExpectation : ParserM ExpectationAst := do
  let start ← consumeStart .expect "`expect`"
  let _ ← consume .leftBrace "`\x7b` after `expect`"
  let sections ← closed .rightBrace "`\x7d` after expectation" <|
    untilNext (fun kind => isRightBrace kind || kind.isTestBoundary) expectationSection []
  pure ⟨sections, ← spanFrom start⟩

/-! ## Tests, blocks and suites -/

/-- Go on behind a broken item of a test. -/
def synchronizeTestItem : ParserM Unit :=
  skipTo fun kind => kind.isTestBoundary || isRightBrace kind

/-- The declarations of a test, and whether an expectation has been seen. -/
structure TestItems where
  requests : List RequestAst
  expectations : List ExpectationAst
  sawExpectation : Bool

/-- One round of the loop over the items of a test. -/
def testItem (items : TestItems) : ParserM TestItems := do
  match ← peekKind with
  | some .request =>
    pushErrorIf items.sawExpectation .requestAfterExpectation
    let request ← parseRequest
    pure { items with requests := items.requests ++ [request] }
  | some .expect =>
    let expectation ← parseExpectation
    pure { items with
      expectations := items.expectations ++ [expectation], sawExpectation := true }
  | _ =>
    expected "`request`, `expect`, or `\x7d` in test block"
    bump
    synchronizeTestItem
    pure items

/-- A test with its requests and expectations. -/
def parseTest : ParserM TestAst := do
  let start ← consumeStart .test "`test`"
  let name ← stringLiteral "test name string"
  let _ ← consume .leftBrace "`\x7b` after test name"
  let items ← untilNext (fun kind => isRightBrace kind || kind.isSuiteBoundary) testItem
    ⟨[], [], false⟩
  pushErrorIf items.requests.isEmpty .missingRequest
  pushErrorIf items.expectations.isEmpty .missingExpectation
  let _ ← consume .rightBrace "`\x7d` after test block"
  pure ⟨name, items.requests, items.expectations, ← spanFrom start⟩

/-- Go on behind something that is no test of a block. -/
def synchronizeTestContainer : ParserM Unit :=
  skipTo fun kind => kind.isSuiteBoundary || isRightBrace kind

/-- A test of a core or pipeline block. -/
def containedTest (description : String) (tests : List TestAst) : ParserM (List TestAst) := do
  if ← check .test then return tests ++ [← parseTest]
  else
    expected description
    bump
    synchronizeTestContainer
    pure tests

/-- The block `core`. -/
def parseCoreBlock : ParserM CoreBlockAst := do
  let start ← consumeStart .core "`core`"
  let _ ← consume .leftBrace "`\x7b` after `core`"
  let tests ← closed .rightBrace "`\x7d` after core block" <|
    untilNext (fun kind => isRightBrace kind || kind.isOuterBlockBoundary)
      (containedTest "`test` or `\x7d` in core block") []
  pure ⟨tests, ← spanFrom start⟩

/-- A block `pipeline`. -/
def parsePipelineBlock : ParserM PipelineBlockAst := do
  let start ← consumeStart .pipeline "`pipeline`"
  let name ← stringLiteral "pipeline name string"
  let _ ← consume .leftBrace "`\x7b` after pipeline name"
  let tests ← untilNext (fun kind => isRightBrace kind || kind.isOuterBlockBoundary)
    (containedTest "`test` or `\x7d` in pipeline block") []
  pushErrorIf tests.isEmpty .emptyPipeline
  let _ ← consume .rightBrace "`\x7d` after pipeline block"
  pure ⟨name, tests, ← spanFrom start⟩

/-- Go on at the next block. -/
def synchronizeSuite : ParserM Unit := skipTo (·.isSuiteBoundary)

/-- The blocks of a suite, and whether a core has been seen. -/
structure SuiteItems where
  blocks : List BlockAst
  hasCore : Bool

/-- One round of the loop over the blocks of a suite. -/
def suiteItem (items : SuiteItems) : ParserM SuiteItems := do
  match ← peekKind with
  | some .core =>
    pushErrorIf items.hasCore .duplicateCore
    let block ← parseCoreBlock
    pure ⟨items.blocks ++ [.core block], true⟩
  | some .pipeline =>
    let block ← parsePipelineBlock
    pure { items with blocks := items.blocks ++ [.pipeline block] }
  | some .test =>
    let test ← parseTest
    pure { items with blocks := items.blocks ++ [.test test] }
  | _ =>
    expected "`core`, `pipeline`, `test`, or end of input"
    bump
    synchronizeSuite
    pure items

/-- The place of a suite: up to the end of its last block. -/
def suiteSpan (start : Nat) (blocks : List BlockAst) : SourceSpan :=
  match blocks.getLast? with
  | some last => ⟨start, last.span.end_⟩
  | none => ⟨start, start⟩

/-- A suite without blocks is an error, unless another one explains it. -/
def checkBlocks (blocks : List BlockAst) (span : SourceSpan) : ParserM Unit := do
  let hasErrors ← .read fun p => !p.errors.isEmpty
  if blocks.isEmpty && !hasErrors then pushError .emptySuite span

/-- A suite: all tokens up to the end. -/
def parseSuite : ParserM SuiteAst := do
  let start := (← peek).elim 0 (·.span.start)
  let items ← untilNext (fun _ => false) suiteItem ⟨[], false⟩
  let span := suiteSpan start items.blocks
  checkBlocks items.blocks span
  pure ⟨items.blocks, span⟩

/-- A tree and what is wrong with the tokens. -/
structure ParseResult where
  ast : SuiteAst
  errors : List ParserError

/-- Run the parser. -/
def Parser.parse (p : Parser) : ParseResult :=
  let (ast, p) := parseSuite.run p
  ⟨ast, p.errors⟩

/-- The tree of a sequence of tokens, under the default limit of nesting. -/
def parse (tokens : List Token) : ParseResult := (Parser.new tokens).parse

end Rettp
