import Rettp.Parser
import Rettp.Grammar

/-!
# The recognizer

The parser on good input: the same descent, over kinds of tokens, that builds trees without
spans and stops at the first error. It is what remains of the parser when recovery, diagnostics
and spans are taken away, and stands between the parser and its grammar.
-/

namespace Rettp

/-- How deep containers are nested, and how deep they may be. -/
structure Nesting where
  depth : Nat
  limit : Nat

/-- The control flow of the parser on the kinds of its tokens; it fails where the parser would
report an error. -/
abbrev Recognizer := Recognition Nesting (List TokenKind)

namespace Recognizer

open Recognition
open Grammar (stringOf integerOf identifierOf methodOf typeOf)

/-! ## Primitives -/

/-- The next kind. -/
def peekKind : Recognizer (Option TokenKind) := look fun _ kinds => kinds.head?

/-- Take a kind. -/
def bump : Recognizer Unit := fun _ kinds => some ((), kinds.tail)

/-- Whether the next kind is this one, whatever its text. -/
def check (expected : TokenKind) : Recognizer Bool :=
  look fun _ kinds => kinds.head?.any fun actual => actual.discriminant == expected.discriminant

/-- Take the next kind if it is this one. -/
def take (expected : TokenKind) : Recognizer Bool := do
  if ← check expected then
    bump
    pure true
  else pure false

/-- Take this kind, or fail. -/
def consume (expected : TokenKind) : Recognizer Unit := do
  if ← take expected then pure () else fail

/-- Recognize something and the token that closes it. -/
def closed {α : Type} (close : TokenKind) (inner : Recognizer α) : Recognizer α := do
  let a ← inner
  consume close
  pure a

/-- Fail on a condition. -/
def rejectIf (c : Bool) : Recognizer Unit := if c then fail else pure ()

/-- Take a comma, if there is one. -/
def skipOptionalComma : Recognizer Unit := do
  let _ ← take .comma

/-- Take an identifier that is a keyword in this place only. -/
def takeContextualIdentifier (word : String) : Recognizer Bool := do
  match ← peekKind with
  | some (.identifier value) =>
    if value = word then
      bump
      pure true
    else pure false
  | _ => pure false

/-- Recognize a token that says something. -/
def token {α : Type} (reads : TokenKind → Option α) : Recognizer α := do
  match (← peekKind).bind reads with
  | some a =>
    bump
    pure a
  | none => fail

theorem token_bind {α β : Type} (reads : TokenKind → Option α) (k : α → Recognizer β) :
    token reads >>= k = peekKind >>= fun next => match next.bind reads with
      | some a => bump >>= fun _ => k a
      | none => fail := by
  funext e kinds
  change ((match kinds.head?.bind reads with
    | some a => (do bump; pure a : Recognizer α)
    | none => fail) e kinds).bind _ = (match kinds.head?.bind reads with
    | some a => bump >>= fun _ => k a
    | none => fail) e kinds
  cases kinds.head?.bind reads with
  | none => rfl
  | some a => rfl

/-- A string literal. -/
def stringLiteral : Recognizer String := token stringOf

/-- The key of an entry, if there is one. -/
def objectKey : Recognizer (Option String) := do
  match (← peekKind).bind keyText with
  | some value =>
    bump
    pure (some value)
  | none => pure none

/-- A loop up to a kind that ends it, or to the end. -/
def untilNext {α : Type} (stop : TokenKind → Bool) (body : α → Recognizer α) (start : α) :
    Recognizer α := do
  repeatWhile (fun _ => look fun _ kinds => !kinds.isEmpty && !kinds.head?.any stop) body
    (← look fun _ kinds => kinds.length) start

/-- Run a program inside a container, unless the limit is reached. -/
def nested {α : Type} (inner : Recognizer α) : Recognizer α := fun e kinds =>
  if e.depth ≥ e.limit then none else inner { e with depth := e.depth + 1 } kinds

/-- A container: what stands between its two delimiters. -/
def container {α : Type} (open_ close : TokenKind) (inner : Recognizer α) : Recognizer α := do
  if ← take open_ then nested (closed close inner) else fail

/-- How many containers may still be opened. -/
def nestingLeft : Recognizer Nat := look fun e _ => e.limit - e.depth

/-! ## Values -/

section Values

variable (value : Recognizer (Option Tree.Value))

/-- One round of the loop over the entries of an object. -/
def objectEntry (entries : List (String × Tree.Value)) :
    Recognizer (List (String × Tree.Value)) := do
  match ← objectKey with
  | none => fail
  | some key =>
    consume .equal
    match ← value with
    | none => fail
    | some v =>
      skipOptionalComma
      pure (entries ++ [(key, v)])

/-- An object, given its values. -/
def objectWith : Recognizer (List (String × Tree.Value)) :=
  container .leftBrace .rightBrace <|
    untilNext (fun kind => isRightBrace kind || kind.isContainerBoundary) (objectEntry value) []

/-- One round of the loop over the items of an array. -/
def arrayItem (items : List Tree.Value) : Recognizer (List Tree.Value) := do
  match ← value with
  | none => fail
  | some v =>
    if ← take .comma then pure (items ++ [v])
    else if ← check .rightBracket then pure (items ++ [v])
    else fail

/-- An array, given its items. -/
def arrayWith : Recognizer (List Tree.Value) :=
  container .leftBracket .rightBracket <|
    untilNext (fun kind => isRightBracket kind || kind.isContainerBoundary) (arrayItem value) []

/-- A literal, given what is nested in it. -/
def valueWith : Recognizer (Option Tree.Value) := do
  match ← peekKind with
  | some (.stringLiteral v) =>
    bump
    pure (some (.string v))
  | some (.integerLiteral v) =>
    bump
    pure (some (.integer v))
  | some (.numberLiteral v) =>
    bump
    pure (some (.number v))
  | some .true_ =>
    bump
    pure (some (.boolean true))
  | some .false_ =>
    bump
    pure (some (.boolean false))
  | some .null =>
    bump
    pure (some .null)
  | some .leftBracket => return some (.array (← arrayWith value))
  | some .leftBrace => return some (.object (← objectWith value))
  | _ => pure none

end Values

/-- A literal with so many levels of nesting left. -/
def valueAt : Nat → Recognizer (Option Tree.Value)
  | 0 => valueWith (pure none)
  | depth + 1 => valueWith (valueAt depth)

/-- A literal, within what is left of the nesting limit. -/
def value : Recognizer (Option Tree.Value) := do
  valueAt (← nestingLeft)

/-- An object. -/
def object : Recognizer (List (String × Tree.Value)) := objectWith value

/-! ## Requests -/

/-- A method. -/
def httpMethod : Recognizer HttpMethodAst := token methodOf

/-- One round of the loop over request headers. -/
def requestHeader (entries : List (String × Tree.Value)) :
    Recognizer (List (String × Tree.Value)) := do
  let name ← stringLiteral
  consume .equal
  match ← value with
  | none => fail
  | some v =>
    skipOptionalComma
    pure (entries ++ [(name, v)])

/-- The section `headers` of a request. -/
def requestHeaders : Recognizer (List (String × Tree.Value)) := do
  consume .headers
  consume .leftBrace
  closed .rightBrace <|
    untilNext (fun kind => isRightBrace kind || kind.isContainerBoundary) requestHeader []

/-- The section `query` of a request. -/
def requestQuery : Recognizer (List (String × Tree.Value)) := do
  consume .query
  object

/-- The section `body` of a request. -/
def requestBody : Recognizer (List (String × Tree.Value)) := do
  consume .body
  object

/-- One round of the loop over the sections of a request. -/
def requestSection (sections : List Tree.RequestSection) :
    Recognizer (List Tree.RequestSection) := do
  match ← peekKind with
  | some .headers => return sections ++ [.headers (← requestHeaders)]
  | some .query => return sections ++ [.query (← requestQuery)]
  | some .body => return sections ++ [.body (← requestBody)]
  | _ => fail

/-- A request. -/
def request : Recognizer Tree.Request := do
  consume .request
  let method ← httpMethod
  let path ← stringLiteral
  if ← take .leftBrace then
    let sections ← closed .rightBrace <|
      untilNext (fun kind => isRightBrace kind || kind.isTestBoundary) requestSection []
    pure ⟨method, path, sections⟩
  else pure ⟨method, path, []⟩

/-! ## Expectations -/

/-- The section `status` of an expectation. -/
def statusAssertion : Recognizer Int := do
  consume .status
  consume .equal
  let v ← token integerOf
  skipOptionalComma
  pure v

/-- One round of the loop over header assertions. -/
def responseHeader (entries : List Tree.HeaderAssertion) :
    Recognizer (List Tree.HeaderAssertion) := do
  let name ← stringLiteral
  if ← take .colon then
    consume .typeString
    skipOptionalComma
    pure (entries ++ [.exists_ name])
  else if ← take .equal then
    let v ← stringLiteral
    skipOptionalComma
    pure (entries ++ [.exact name v])
  else if ← takeContextualIdentifier "contains" then
    let v ← stringLiteral
    skipOptionalComma
    pure (entries ++ [.contains name v])
  else fail

/-- The section `headers` of an expectation. -/
def responseHeaders : Recognizer (List Tree.HeaderAssertion) := do
  consume .headers
  consume .leftBrace
  closed .rightBrace <|
    untilNext (fun kind => isRightBrace kind || kind.isExpectationSectionStart ||
      kind.isTestBoundary) responseHeader []

/-- A type. -/
def assertionType : Recognizer AssertionTypeAst := token typeOf

/-- The name behind an arrow. -/
def captureName : Recognizer String := token identifierOf

section ObjectAssertions

variable (nestedAssertion : Recognizer (List Tree.FieldAssertion))

/-- The value of a field, or its nested fields. -/
def fieldOperand (expectedType : Option AssertionTypeAst) :
    Recognizer (Option Tree.Value × Option Tree.ObjectAssertion) := do
  if ← take .equal then
    match ← value with
    | none => fail
    | some v => pure (some v, none)
  else if expectedType.any (fun kind => kind = .object) && (← check .leftBrace) then
    return (none, some ⟨.partially, ← nestedAssertion⟩)
  else pure (none, none)

/-- The capture of a field; it needs a type. -/
def capture (expectedType : Option AssertionTypeAst) : Recognizer (Option String) := do
  if ← take .arrow then
    rejectIf expectedType.isNone
    return some (← captureName)
  else pure none

/-- A field behind its type. -/
def fieldRest (name : String) (expectedType : Option AssertionTypeAst) :
    Recognizer Tree.FieldAssertion := do
  let operand ← fieldOperand nestedAssertion expectedType
  let captured ← capture expectedType
  rejectIf (expectedType.isNone && operand.1.isNone && operand.2.isNone)
  pure ⟨name, expectedType, operand.1, operand.2, captured⟩

/-- A field behind the colon. -/
def typedField (name : String) : Recognizer Tree.FieldAssertion := do
  let kind ← assertionType
  fieldRest nestedAssertion name (some kind)

/-- A field. -/
def fieldAssertion : Recognizer Tree.FieldAssertion := do
  match ← objectKey with
  | none => fail
  | some name =>
    if ← take .colon then typedField nestedAssertion name
    else fieldRest nestedAssertion name none

/-- One round of the loop over the fields of an object. -/
def field (fields : List Tree.FieldAssertion) : Recognizer (List Tree.FieldAssertion) := do
  let f ← fieldAssertion nestedAssertion
  skipOptionalComma
  pure (fields ++ [f])

/-- The fields of an object, given what is nested in them. -/
def fields : Recognizer (List Tree.FieldAssertion) :=
  container .leftBrace .rightBrace <|
    untilNext (fun kind => isRightBrace kind || kind.isContainerBoundary) (field nestedAssertion) []

end ObjectAssertions

/-- The fields of an object assertion in which at most `depth` containers may be opened. -/
def fieldsAt : Nat → Recognizer (List Tree.FieldAssertion)
  | 0 => fields (pure [])
  | depth + 1 => fields (fieldsAt depth)

/-- An object assertion, within what is left of the nesting limit. -/
def objectAssertion (mode : ObjectMatchModeAst) : Recognizer Tree.ObjectAssertion := do
  return ⟨mode, ← fieldsAt (← nestingLeft)⟩

/-- The section `body` of an expectation. -/
def bodyAssertion : Recognizer Tree.BodyAssertion := do
  consume .body
  if ← takeContextualIdentifier "empty" then
    skipOptionalComma
    pure .empty
  else if ← take .equal then
    let v ← stringLiteral
    skipOptionalComma
    pure (.textExact v)
  else if ← takeContextualIdentifier "contains" then
    let v ← stringLiteral
    skipOptionalComma
    pure (.textContains v)
  else
    let mode := if ← take .exact then .exact else .partially
    return .object (← objectAssertion mode)

/-- One round of the loop over the sections of an expectation. -/
def expectationSection (sections : List Tree.ExpectationSection) :
    Recognizer (List Tree.ExpectationSection) := do
  match ← peekKind with
  | some .status => return sections ++ [.status (← statusAssertion)]
  | some .headers => return sections ++ [.headers (← responseHeaders)]
  | some .body => return sections ++ [.body (← bodyAssertion)]
  | _ => fail

/-- An expectation. -/
def expectation : Recognizer (List Tree.ExpectationSection) := do
  consume .expect
  consume .leftBrace
  closed .rightBrace <|
    untilNext (fun kind => isRightBrace kind || kind.isTestBoundary) expectationSection []

/-! ## Tests, blocks and suites -/

/-- What a test contains so far. -/
structure TestTrees where
  requests : List Tree.Request
  expectations : List (List Tree.ExpectationSection)
  sawExpectation : Bool

/-- One round of the loop over the items of a test. -/
def testItem (items : TestTrees) : Recognizer TestTrees := do
  match ← peekKind with
  | some .request =>
    rejectIf items.sawExpectation
    let r ← request
    pure { items with requests := items.requests ++ [r] }
  | some .expect =>
    let e ← expectation
    pure { items with expectations := items.expectations ++ [e], sawExpectation := true }
  | _ => fail

/-- A test. -/
def test : Recognizer Tree.Test := do
  consume .test
  let name ← stringLiteral
  consume .leftBrace
  let items ← untilNext (fun kind => isRightBrace kind || kind.isSuiteBoundary) testItem
    ⟨[], [], false⟩
  rejectIf items.requests.isEmpty
  rejectIf items.expectations.isEmpty
  consume .rightBrace
  pure ⟨name, items.requests, items.expectations⟩

/-- One round of the loop over the tests of a block. -/
def containedTest (tests : List Tree.Test) : Recognizer (List Tree.Test) := do
  if ← check .test then return tests ++ [← test] else fail

/-- A core. -/
def coreBlock : Recognizer (List Tree.Test) := do
  consume .core
  consume .leftBrace
  closed .rightBrace <|
    untilNext (fun kind => isRightBrace kind || kind.isOuterBlockBoundary) containedTest []

/-- A pipeline. -/
def pipelineBlock : Recognizer (String × List Tree.Test) := do
  consume .pipeline
  let name ← stringLiteral
  consume .leftBrace
  let tests ← untilNext (fun kind => isRightBrace kind || kind.isOuterBlockBoundary)
    containedTest []
  rejectIf tests.isEmpty
  consume .rightBrace
  pure (name, tests)

/-- The blocks of a suite so far. -/
structure SuiteTrees where
  blocks : List Tree.Block
  hasCore : Bool

/-- One round of the loop over the blocks of a suite. -/
def suiteItem (items : SuiteTrees) : Recognizer SuiteTrees := do
  match ← peekKind with
  | some .core =>
    rejectIf items.hasCore
    let tests ← coreBlock
    pure ⟨items.blocks ++ [.core tests], true⟩
  | some .pipeline =>
    let block ← pipelineBlock
    pure { items with blocks := items.blocks ++ [.pipeline block.1 block.2] }
  | some .test =>
    let t ← test
    pure { items with blocks := items.blocks ++ [.test t] }
  | _ => fail

/-- The blocks up to the end. -/
def blocks : Recognizer SuiteTrees := untilNext (fun _ => false) suiteItem ⟨[], false⟩

end Recognizer

end Rettp
