import Mathlib.Algebra.Group.Int.Defs
import Rettp.Token

/-!
# The lexer

A round of the lexer reads some text at the cursor and adds at most one token or error
(`Scanned`). Its span ends where it was added; a bad escape is reported before the rest of its
string is dropped. The fuel of the loop is the length of the text, which every round shortens
(`scanToken_shorter`).
-/

namespace Rettp

/-- What the scanner cannot read. -/
inductive LexerErrorKind where
  | unexpectedCharacter (character : Char)
  | unterminatedString
  | invalidEscapeSequence (character : Char)
  | invalidInteger (value : String)
  | invalidNumber (value : String)
  deriving DecidableEq

/-- An error and the text that it is about. -/
structure LexerError where
  kind : LexerErrorKind
  span : SourceSpan
  deriving DecidableEq

/-- The tokens and the errors of a source, each in order. -/
structure LexResult where
  tokens : List Token
  errors : List LexerError

/-- What a round reads: the text up to where a token or an error is added, the text that is
skipped after it, and what remains. -/
structure Scanned where
  outcome : Option (Except LexerErrorKind TokenKind)
  lexeme : List Char
  skipped : List Char
  rest : List Char

namespace Lexer

/-- A token was read. -/
def token (kind : TokenKind) (lexeme rest : List Char) : Scanned :=
  ⟨some (.ok kind), lexeme, [], rest⟩

/-- A text was read that is no token. -/
def error (kind : LexerErrorKind) (lexeme rest : List Char) : Scanned :=
  ⟨some (.error kind), lexeme, [], rest⟩

/-- A round that adds nothing. -/
def skip (read rest : List Char) : Scanned := ⟨none, [], read, rest⟩

/-! ## Identifiers and numbers -/

/-- The first character of a word. -/
def isIdentifierStart (c : Char) : Bool := isAsciiAlphabetic c || c == '_'

/-- A further character of a word. -/
def isIdentifierContinue (c : Char) : Bool := isAsciiAlphanumeric c || c == '_'

/-- A word: a keyword or an identifier. -/
def scanIdentifier (first : Char) (text : List Char) : Scanned :=
  let value := first :: text.takeWhile isIdentifierContinue
  token (keywordOrIdentifier (String.ofList value)) value (text.dropWhile isIdentifierContinue)

/-- The number that decimal digits write. -/
def digitsValue (digits : List Char) : Nat :=
  digits.foldl (fun n digit => 10 * n + (digit.toNat - '0'.toNat)) 0

/-- `i64` from a magnitude with a sign. -/
def checkedI64 (value : Int) : Option Int :=
  if -2 ^ 63 ≤ value ∧ value < 2 ^ 63 then some value else none

/-- The digits of an integer. -/
def parseMagnitude (digits : List Char) : Option Int :=
  if digits ≠ [] ∧ digits.all isAsciiDigit then some (digitsValue digits) else none

/-- `str::parse::<i64>`: a sign, then decimal digits, in range. -/
def parseI64 : List Char → Option Int
  | '-' :: digits => (parseMagnitude digits).bind fun n => checkedI64 (-n)
  | '+' :: digits => (parseMagnitude digits).bind checkedI64
  | digits => (parseMagnitude digits).bind checkedI64

/-- A number without a point, if it fits into 64 bits. -/
def integer (raw rest : List Char) : Scanned :=
  match parseI64 raw with
  | some value => token (.integerLiteral value) raw rest
  | none => error (.invalidInteger (String.ofList raw)) raw rest

variable [Platform]

/-- A number with a point, if it is finite. -/
def decimal (raw rest : List Char) : Scanned :=
  match Platform.parseF64 (String.ofList raw) with
  | some value =>
    if value.isFinite then token (.numberLiteral value) raw rest
    else error (.invalidNumber (String.ofList raw)) raw rest
  | none => error (.invalidNumber (String.ofList raw)) raw rest

/-- Read a number of which a sign or a digit has been read. -/
def scanNumber (read text : List Char) : Scanned :=
  let raw := read ++ text.takeWhile isAsciiDigit
  match text.dropWhile isAsciiDigit with
  | '.' :: digit :: rest =>
    if isAsciiDigit digit then
      decimal (raw ++ '.' :: (digit :: rest).takeWhile isAsciiDigit)
        ((digit :: rest).dropWhile isAsciiDigit)
    else integer raw ('.' :: digit :: rest)
  | rest => integer raw rest

/-! ## Strings and comments -/

/-- The character that an escape stands for. -/
def unescape : Char → Option Char
  | '"' => some '"'
  | '\\' => some '\\'
  | 'n' => some '\n'
  | 'r' => some '\r'
  | 't' => some '\t'
  | _ => none

/-- The rest of a string after a bad escape: its text, and what remains. -/
def recoverString : List Char → List Char × List Char
  | [] => ([], [])
  | '"' :: rest => (['"'], rest)
  | '\n' :: rest => ([], '\n' :: rest)
  | c :: rest => (c :: (recoverString rest).1, (recoverString rest).2)

/-- Read a string of which `read` has been read, with the contents `value` so far. -/
def scanString (read value : List Char) : List Char → Scanned
  | [] => error .unterminatedString read []
  | '"' :: rest => token (.stringLiteral (String.ofList value)) (read ++ ['"']) rest
  | '\n' :: rest => error .unterminatedString read ('\n' :: rest)
  | ['\\'] => error .unterminatedString (read ++ ['\\']) []
  | '\\' :: escaped :: rest =>
    match unescape escaped with
    | some c => scanString (read ++ ['\\', escaped]) (value ++ [c]) rest
    | none => ⟨some (.error (.invalidEscapeSequence escaped)), read ++ ['\\', escaped],
        (recoverString rest).1, (recoverString rest).2⟩
  | c :: rest => scanString (read ++ [c]) (value ++ [c]) rest

/-- A character that does not end a comment. -/
def notLineFeed (c : Char) : Bool := c != '\n'

/-- A comment ends before the end of its line. -/
def skipLineComment (read text : List Char) : Scanned :=
  skip (read ++ text.takeWhile notLineFeed) (text.dropWhile notLineFeed)

/-! ## Rounds -/

/-- A minus sign: an arrow, or a number. -/
def scanMinus : List Char → Scanned
  | '>' :: rest => token .arrow ['-', '>'] rest
  | digit :: rest =>
    if isAsciiDigit digit then scanNumber ['-'] (digit :: rest)
    else error (.unexpectedCharacter '-') ['-'] (digit :: rest)
  | [] => error (.unexpectedCharacter '-') ['-'] []

/-- Two slashes start a comment; one is an error. -/
def scanSlash : List Char → Scanned
  | '/' :: rest => skipLineComment ['/', '/'] rest
  | rest => error (.unexpectedCharacter '/') ['/'] rest

/-- One round, at a character and the text after it. -/
def scanToken (character : Char) (text : List Char) : Scanned :=
  match character with
  | ' ' | '\r' | '\t' | '\n' => skip [character] text
  | '{' => token .leftBrace ['{'] text
  | '}' => token .rightBrace ['}'] text
  | '[' => token .leftBracket ['['] text
  | ']' => token .rightBracket [']'] text
  | ':' => token .colon [':'] text
  | '=' => token .equal ['='] text
  | ',' => token .comma [','] text
  | '-' => scanMinus text
  | '"' => scanString ['"'] [] text
  | '#' => skipLineComment ['#'] text
  | '/' => scanSlash text
  | _ =>
    if isAsciiDigit character then scanNumber [character] text
    else if isIdentifierStart character then scanIdentifier character text
    else error (.unexpectedCharacter character) [character] text

/-! ## The loop -/

/-- A token or an error, in front of what is found later. -/
def add (outcome : Option (Except LexerErrorKind TokenKind)) (span : SourceSpan)
    (result : LexResult) : LexResult :=
  match outcome with
  | some (.ok kind) => { result with tokens := ⟨kind, span⟩ :: result.tokens }
  | some (.error kind) => { result with errors := ⟨kind, span⟩ :: result.errors }
  | none => result

/-- Read a text from the byte offset `start` on. -/
def scanFrom : Nat → Nat → List Char → LexResult
  | _, start, [] => ⟨[⟨.eof, ⟨start, start⟩⟩], []⟩
  | 0, _, _ :: _ => ⟨[], []⟩
  | fuel + 1, start, character :: text =>
    let scanned := scanToken character text
    let current := start + utf8Len scanned.lexeme
    add scanned.outcome ⟨start, current⟩
      (scanFrom fuel (current + utf8Len scanned.skipped) scanned.rest)

end Lexer

/-- All tokens of a source, and what is wrong with it. -/
def lex [Platform] (source : SourceText) : LexResult :=
  Lexer.scanFrom source.content.toList.length 0 source.content.toList

end Rettp
