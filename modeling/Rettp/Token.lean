import Rettp.Platform

/-!
# Source text and tokens

Byte ranges in a source, and the tokens that the lexer hands to the parser.
-/

namespace Rettp

/-- A half-open range of byte offsets. -/
structure SourceSpan where
  start : Nat
  end_ : Nat
  deriving DecidableEq

/-- A named text. -/
structure SourceText where
  name : String
  content : String

/-- The kinds of tokens, with the values of literals and names. -/
inductive TokenKind where
  | core | pipeline | test
  | request | expect | body | headers | query | status | exact
  | get | post | put | patch | delete | head | options
  | typeString | typeBoolean | typeInteger | typeNumber | typeObject | typeArray
  | true_ | false_ | null
  | identifier (value : String)
  | stringLiteral (value : String)
  | integerLiteral (value : Int)
  | numberLiteral (value : Float)
  | leftBrace | rightBrace | leftBracket | rightBracket
  | colon | equal | arrow
  | comma
  | eof
  deriving DecidableEq

/-- A token and the text that it was read from. -/
structure Token where
  kind : TokenKind
  span : SourceSpan

namespace TokenKind

/-- `std::mem::discriminant` -/
def discriminant (kind : TokenKind) : Nat := kind.ctorIdx

/-- The `{:?}` text of a kind without a payload. -/
def debugName : TokenKind → String
  | .core => "Core"
  | .pipeline => "Pipeline"
  | .test => "Test"
  | .request => "Request"
  | .expect => "Expect"
  | .body => "Body"
  | .headers => "Headers"
  | .query => "Query"
  | .status => "Status"
  | .exact => "Exact"
  | .get => "Get"
  | .post => "Post"
  | .put => "Put"
  | .patch => "Patch"
  | .delete => "Delete"
  | .head => "Head"
  | .options => "Options"
  | .typeString => "TypeString"
  | .typeBoolean => "TypeBoolean"
  | .typeInteger => "TypeInteger"
  | .typeNumber => "TypeNumber"
  | .typeObject => "TypeObject"
  | .typeArray => "TypeArray"
  | .true_ => "True"
  | .false_ => "False"
  | .null => "Null"
  | .identifier _ => "Identifier"
  | .stringLiteral _ => "StringLiteral"
  | .integerLiteral _ => "IntegerLiteral"
  | .numberLiteral _ => "NumberLiteral"
  | .leftBrace => "LeftBrace"
  | .rightBrace => "RightBrace"
  | .leftBracket => "LeftBracket"
  | .rightBracket => "RightBracket"
  | .colon => "Colon"
  | .equal => "Equal"
  | .arrow => "Arrow"
  | .comma => "Comma"
  | .eof => "Eof"

/-- The kind carries no payload. -/
def isBare : TokenKind → Bool
  | .identifier _ | .stringLiteral _ | .integerLiteral _ | .numberLiteral _ => false
  | _ => true

/-- The end of the tokens. -/
def isEof : TokenKind → Bool
  | .eof => true
  | _ => false

/-- The kinds by discriminant, with some payload. -/
def ofDiscriminant (n : Nat) : Option TokenKind :=
  [core, pipeline, test, request, expect, body, headers, query, status, exact, get, post, put,
    patch, delete, head, options, typeString, typeBoolean, typeInteger, typeNumber, typeObject,
    typeArray, true_, false_, null, identifier "", stringLiteral "", integerLiteral 0,
    numberLiteral 0, leftBrace, rightBrace, leftBracket, rightBracket, colon, equal, arrow, comma,
    eof][n]?

theorem ofDiscriminant_eq {k : TokenKind} (h : k.isBare = true) :
    ofDiscriminant k.discriminant = some k := by
  cases k <;> first | rfl | cases h

theorem isBare_congr {k k' : TokenKind} (h : k'.discriminant = k.discriminant) :
    k'.isBare = k.isBare := by
  have hbare : ∀ k : TokenKind, k.isBare = decide (k.discriminant < 26 ∨ 29 < k.discriminant) := by
    intro k
    cases k <;> rfl
  rw [hbare, hbare, h]

/-- The discriminant tells kinds without a payload apart. -/
theorem discriminant_eq_iff {k k' : TokenKind} (h : k.isBare = true) :
    k'.discriminant = k.discriminant ↔ k' = k := by
  refine ⟨fun he => ?_, fun he => by rw [he]⟩
  have h' := ofDiscriminant_eq ((isBare_congr he).trans h)
  rw [he, ofDiscriminant_eq h] at h'
  exact (Option.some.inj h').symm

end TokenKind

/-- The token of a reserved word, or an identifier. -/
def keywordOrIdentifier (value : String) : TokenKind :=
  match value with
  | "core" => .core
  | "pipeline" => .pipeline
  | "test" => .test
  | "request" => .request
  | "expect" => .expect
  | "body" => .body
  | "headers" => .headers
  | "query" => .query
  | "status" => .status
  | "exact" => .exact
  | "GET" => .get
  | "POST" => .post
  | "PUT" => .put
  | "PATCH" => .patch
  | "DELETE" => .delete
  | "HEAD" => .head
  | "OPTIONS" => .options
  | "string" => .typeString
  | "boolean" => .typeBoolean
  | "integer" => .typeInteger
  | "number" => .typeNumber
  | "object" => .typeObject
  | "array" => .typeArray
  | "true" => .true_
  | "false" => .false_
  | "null" => .null
  | _ => .identifier value

end Rettp
