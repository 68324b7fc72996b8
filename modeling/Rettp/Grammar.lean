import Rettp.Ast
import Rettp.Phrase

/-!
# The grammar

The documented grammar, one rule for each production, over kinds of tokens and without the end.
The trees are those without spans. Rules that can contain arrays, objects and object assertions
take how deep these may be nested.

Beyond the written grammar an optional comma may also follow a status and an empty or textual
body, a suite has a block, and it has no second core.
-/

namespace Rettp

namespace Grammar

open Phrase

/-- A rule of the grammar: which kinds of tokens it derives, and the value of the derivation. -/
abbrev Rule (α : Type) := Phrase TokenKind α

/-! ## Tokens -/

/-- The text of a string literal. -/
def stringOf : TokenKind → Option String
  | .stringLiteral value => some value
  | _ => none

/-- The value of an integer literal. -/
def integerOf : TokenKind → Option Int
  | .integerLiteral value => some value
  | _ => none

/-- The value of a number literal. -/
def numberOf : TokenKind → Option Float
  | .numberLiteral value => some value
  | _ => none

/-- The name of an identifier. -/
def identifierOf : TokenKind → Option String
  | .identifier value => some value
  | _ => none

@[simp] theorem stringOf_eq_some {kind : TokenKind} {value : String} :
    stringOf kind = some value ↔ kind = .stringLiteral value := by
  cases kind <;> simp [stringOf]

@[simp] theorem integerOf_eq_some {kind : TokenKind} {value : Int} :
    integerOf kind = some value ↔ kind = .integerLiteral value := by
  cases kind <;> simp [integerOf]

@[simp] theorem numberOf_eq_some {kind : TokenKind} {value : Float} :
    numberOf kind = some value ↔ kind = .numberLiteral value := by
  cases kind <;> simp [numberOf]

/-- A string literal. -/
def string : Rule String := token stringOf

/-- An integer literal. -/
def integer : Rule Int := token integerOf

/-- A number literal. -/
def number : Rule Float := token numberOf

/-- An identifier. -/
def identifier : Rule String := token identifierOf

/-- An identifier that is a keyword where it stands. -/
def contextual (word : String) : Rule Unit := terminal (.identifier word)

/-- A comma, or nothing. -/
def optionalComma : Rule Unit := terminal .comma <|> pure ()

/-- `p` between two delimiters -/
def between {α : Type} (open_ close : TokenKind) (p : Rule α) : Rule α := do
  terminal open_
  let a ← p
  terminal close
  pure a

/-- A rule between braces. -/
def braces {α : Type} (p : Rule α) : Rule α := between .leftBrace .rightBrace p

/-! ## Values -/

/-- The words that must be quoted to be keys. -/
def structuralWords : List String :=
  ["core", "pipeline", "test", "request", "expect", "headers", "query", "body"]

/-- A keyword that may stand where a name is expected. -/
def reservedWord : Rule String := fun w word =>
  w = [keywordOrIdentifier word] ∧ (keywordOrIdentifier word).isBare = true ∧
    word ∉ structuralWords

/-- `IDENTIFIER | reserved-word | STRING` -/
def objectKey : Rule String := identifier <|> reservedWord <|> string

/-- `STRING | INTEGER | NUMBER | "true" | "false" | "null"` -/
def scalar : Rule Tree.Value :=
  (do let value ← string; pure (.string value)) <|>
  (do let value ← integer; pure (.integer value)) <|>
  (do let value ← number; pure (.number value)) <|>
  (do terminal .true_; pure (.boolean true)) <|>
  (do terminal .false_; pure (.boolean false)) <|>
  (do terminal .null; pure .null)

/-- `"[" (value ("," value)* ","?)? "]"` -/
def arrayValue (value : Rule Tree.Value) : Rule (List Tree.Value) :=
  between .leftBracket .rightBracket <|
    (do
      let item ← value
      let items ← many (do terminal .comma; value)
      optionalComma
      pure (item :: items)) <|>
    pure []

/-- `object-key "=" value comma?` -/
def objectValueEntry (value : Rule Tree.Value) : Rule (String × Tree.Value) := do
  let key ← objectKey
  terminal .equal
  let v ← value
  optionalComma
  pure (key, v)

/-- A value that opens at most so many containers one within the other. -/
def value : Nat → Rule Tree.Value
  | 0 => scalar
  | nesting + 1 =>
    scalar <|>
    (do let items ← arrayValue (value nesting); pure (.array items)) <|>
    (do let entries ← braces (many (objectValueEntry (value nesting))); pure (.object entries))

/-- `"{" object-value-entry* "}"` -/
def objectValue : Nat → Rule (List (String × Tree.Value))
  | 0 => never
  | nesting + 1 => braces (many (objectValueEntry (value nesting)))

/-! ## Requests -/

/-- `"GET" | "POST" | "PUT" | "PATCH" | "DELETE" | "HEAD" | "OPTIONS"` -/
def methodOf : TokenKind → Option HttpMethodAst
  | .get => some .get
  | .post => some .post
  | .put => some .put
  | .patch => some .patch
  | .delete => some .delete
  | .head => some .head
  | .options => some .options
  | _ => none

/-- A method. -/
def httpMethod : Rule HttpMethodAst := token methodOf

/-- `STRING "=" value comma?` -/
def headerValueEntry (nesting : Nat) : Rule (String × Tree.Value) := do
  let name ← string
  terminal .equal
  let v ← value nesting
  optionalComma
  pure (name, v)

/-- `request-headers | request-query | request-body` -/
def requestSection (nesting : Nat) : Rule Tree.RequestSection :=
  (do
    terminal .headers
    let entries ← braces (many (headerValueEntry nesting))
    pure (.headers entries)) <|>
  (do terminal .query; let entries ← objectValue nesting; pure (.query entries)) <|>
  (do terminal .body; let entries ← objectValue nesting; pure (.body entries))

/-- `"request" http-method STRING request-options?` -/
def request (nesting : Nat) : Rule Tree.Request := do
  terminal .request
  let method ← httpMethod
  let path ← string
  let sections ← braces (many (requestSection nesting)) <|> pure []
  pure ⟨method, path, sections⟩

/-! ## Expectations -/

/-- `"status" "=" INTEGER comma?` -/
def statusAssertion : Rule Int := do
  terminal .status
  terminal .equal
  let value ← integer
  optionalComma
  pure value

/-- `STRING ":" "string" comma? | STRING "=" STRING comma? | STRING "contains" STRING comma?` -/
def responseHeaderEntry : Rule Tree.HeaderAssertion :=
  (do
    let name ← string
    terminal .colon
    terminal .typeString
    optionalComma
    pure (.exists_ name)) <|>
  (do
    let name ← string
    terminal .equal
    let expected ← string
    optionalComma
    pure (.exact name expected)) <|>
  (do
    let name ← string
    contextual "contains"
    let expected ← string
    optionalComma
    pure (.contains name expected))

/-- `"string" | "boolean" | "integer" | "number" | "object" | "array" | "null"` -/
def typeOf : TokenKind → Option AssertionTypeAst
  | .typeString => some .string
  | .typeBoolean => some .boolean
  | .typeInteger => some .integer
  | .typeNumber => some .number
  | .typeObject => some .object
  | .typeArray => some .array
  | .null => some .null
  | _ => none

/-- A type. -/
def assertionType : Rule AssertionTypeAst := token typeOf

/-- `"->" IDENTIFIER` -/
def capture : Rule String := do
  terminal .arrow
  identifier

section Fields

variable (value : Rule Tree.Value) (assertionObject : Rule (List Tree.FieldAssertion))

/-- `":" assertion-type | ":" assertion-type "=" value | ":" "object" assertion-object` -/
def typedRule :
    Rule (AssertionTypeAst × Option Tree.Value × Option Tree.ObjectAssertion) :=
  (do
    terminal .colon
    let type ← assertionType
    pure (type, none, none)) <|>
  (do
    terminal .colon
    let type ← assertionType
    terminal .equal
    let v ← value
    pure (type, some v, none)) <|>
  (do
    terminal .colon
    terminal .typeObject
    let fields ← assertionObject
    pure (.object, none, some ⟨.partially, fields⟩))

/-- A field with a type may be captured, one that is only compared may not. -/
def fieldAssertion : Rule Tree.FieldAssertion :=
  (do
    let name ← objectKey
    let rule ← typedRule value assertionObject
    let captured ← option capture
    optionalComma
    pure ⟨name, some rule.1, rule.2.1, rule.2.2, captured⟩) <|>
  (do
    let name ← objectKey
    terminal .equal
    let v ← value
    optionalComma
    pure ⟨name, none, some v, none, none⟩)

end Fields

/-- `"{" field-assertion* "}"` -/
def assertionObject : Nat → Rule (List Tree.FieldAssertion)
  | 0 => never
  | nesting + 1 => braces (many (fieldAssertion (value nesting) (assertionObject nesting)))

/-- `"body" "empty" comma? | "body" "=" STRING comma? | "body" "contains" STRING comma? |
"body" "exact"? assertion-object` -/
def bodyAssertion (nesting : Nat) : Rule Tree.BodyAssertion :=
  (do
    terminal .body
    contextual "empty"
    optionalComma
    pure .empty) <|>
  (do
    terminal .body
    terminal .equal
    let expected ← string
    optionalComma
    pure (.textExact expected)) <|>
  (do
    terminal .body
    contextual "contains"
    let expected ← string
    optionalComma
    pure (.textContains expected)) <|>
  (do
    terminal .body
    let mode ← (do terminal .exact; pure .exact) <|> pure .partially
    let fields ← assertionObject nesting
    pure (.object ⟨mode, fields⟩))

/-- `status-assertion | response-headers | body-assertion` -/
def expectationSection (nesting : Nat) : Rule Tree.ExpectationSection :=
  (do let status ← statusAssertion; pure (.status status)) <|>
  (do
    terminal .headers
    let entries ← braces (many responseHeaderEntry)
    pure (.headers entries)) <|>
  (do let body ← bodyAssertion nesting; pure (.body body))

/-- `"expect" "{" expectation-section* "}"` -/
def expectation (nesting : Nat) : Rule (List Tree.ExpectationSection) := do
  terminal .expect
  braces (many (expectationSection nesting))

/-! ## Suites -/

/-- `"test" STRING "{" request+ expectation+ "}"` -/
def test (nesting : Nat) : Rule Tree.Test := do
  terminal .test
  let name ← string
  braces do
    let requests ← many1 (request nesting)
    let expectations ← many1 (expectation nesting)
    pure ⟨name, requests, expectations⟩

/-- `"core" "{" test-block* "}"` -/
def coreBlock (nesting : Nat) : Rule (List Tree.Test) := do
  terminal .core
  braces (many (test nesting))

/-- `"pipeline" STRING "{" test-block+ "}"` -/
def pipelineBlock (nesting : Nat) : Rule (String × List Tree.Test) := do
  terminal .pipeline
  let name ← string
  let tests ← braces (many1 (test nesting))
  pure (name, tests)

/-- `core-block | pipeline-block | test-block` -/
def block (nesting : Nat) : Rule Tree.Block :=
  (do let tests ← coreBlock nesting; pure (.core tests)) <|>
  (do let pipeline ← pipelineBlock nesting; pure (.pipeline pipeline.1 pipeline.2)) <|>
  (do let t ← test nesting; pure (.test t))

end Grammar

/-- The block is the core. -/
def Tree.Block.isCore : Tree.Block → Bool
  | .core _ => true
  | _ => false

/-- At least one block, and at most one core. -/
def Grammar.suite (nesting : Nat) : Grammar.Rule Tree.Suite := fun w blocks =>
  Phrase.many1 (Grammar.block nesting) w blocks ∧ blocks.countP Tree.Block.isCore ≤ 1

end Rettp
