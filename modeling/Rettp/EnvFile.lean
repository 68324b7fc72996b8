import Mathlib.Data.List.DropRight
import Rettp.Domain
import Rettp.ExceptRel

/-!
# Dotenv files

The parser of `NAME=VALUE` lines. A value is in single quotes, in double quotes with escapes, or
bare up to a comment. Every error names the line that it is about, and nothing is assigned then.

Texts are lists of characters here; the loop over a quoted value is a recursion on the rest.
-/

namespace Rettp

/-- One assignment of a variable from outside of a suite. -/
structure VariableAssignment where
  name : VariableName
  value : String
  deriving DecidableEq

/-- Why an environment file is refused. -/
inductive EnvFileError where
  | tooLarge (limitBytes : Nat)
  | invalidUtf8
  | invalidEntry (line : Nat) (reason : String)
  deriving DecidableEq

namespace EnvFile

/-- `MAX_ENV_FILE_BYTES`: one MiB. -/
def maxEnvFileBytes : Nat := 1024 * 1024

/-- `str::trim_start` -/
def trimStart (s : List Char) : List Char := s.dropWhile isWhitespace

/-- `str::trim_end` -/
def trimEnd (s : List Char) : List Char := s.rdropWhile isWhitespace

/-- A line without the carriage return of its ending. -/
def stripReturn (line : List Char) : List Char :=
  if line.getLast? = some '\r' then line.dropLast else line

/-- `str::lines`, behind the part `line` of the current line. -/
def linesFrom (line : List Char) : List Char → List (List Char)
  | [] => if line.isEmpty then [] else [line]
  | c :: rest =>
    if c = '\n' then stripReturn line :: linesFrom [] rest else linesFrom (line ++ [c]) rest

/-- The lines of a text, as `str::lines` cuts them. -/
def lines (source : List Char) : List (List Char) := linesFrom [] source

/-- After a quoted value nothing but a comment may follow. -/
def validateTrailing (raw : List Char) (line : Nat) : Except EnvFileError Unit :=
  match trimStart raw with
  | [] => .ok ()
  | c :: _ =>
    if c = '#' then .ok () else .error (.invalidEntry line "unexpected text after quoted value")

/-- The text before the first comment; `previous` is the character before the text. -/
def beforeComment (previous : Option Char) : List Char → List Char
  | [] => []
  | c :: rest =>
    if c = '#' ∧ previous.all isWhitespace then [] else c :: beforeComment (some c) rest

/-- A value without quotes ends at a comment, and the blanks at its end do not belong to it. -/
def parseUnquoted (raw : List Char) : List Char := trimEnd (beforeComment none raw)

/-- The escapes of a value in double quotes. -/
def unescape : Char → Option Char
  | 'n' => some '\n'
  | 'r' => some '\r'
  | 't' => some '\t'
  | '\\' => some '\\'
  | '"' => some '"'
  | _ => none

/-- The loop over a double-quoted value. -/
def parseDoubleQuoted (line : Nat) (output : List Char) :
    List Char → Except EnvFileError (List Char)
  | [] => .error (.invalidEntry line "unterminated double-quoted value")
  | c :: rest =>
    if c = '"' then do
      validateTrailing rest line
      return output
    else if c = '\\' then
      match rest with
      | [] => .error (.invalidEntry line "unterminated escape in double-quoted value")
      | escaped :: rest =>
        match unescape escaped with
        | none => .error (.invalidEntry line "unsupported escape in double-quoted value")
        | some c => parseDoubleQuoted line (output ++ [c]) rest
    else parseDoubleQuoted line (output ++ [c]) rest

/-- A value in single quotes is taken as it stands. -/
def parseSingleQuoted (raw : List Char) (line : Nat) : Except EnvFileError (List Char) :=
  match splitAtChar '\'' raw with
  | none => .error (.invalidEntry line "unterminated single-quoted value")
  | some (value, trailing) => do
    validateTrailing trailing line
    return value

/-- A value, with quotes or without. -/
def parseValue (raw : List Char) (line : Nat) : Except EnvFileError (List Char) :=
  match trimStart raw with
  | '\'' :: quoted => parseSingleQuoted quoted line
  | '"' :: quoted => parseDoubleQuoted line [] quoted
  | raw => .ok (parseUnquoted raw)

/-- A line without the word `export` and the white space behind it. -/
def stripExport (line : List Char) : List Char :=
  if "export".toList.isPrefixOf line then
    let remainder := line.drop "export".length
    if remainder.head?.any isWhitespace then trimStart remainder else line
  else line

variable [Platform]

/-- The assignment of one line, after `export` was taken away. -/
def parseAssignment (text : List Char) (line : Nat) : Except EnvFileError VariableAssignment :=
  match splitAtChar '=' text with
  | none => .error (.invalidEntry line "expected NAME=VALUE")
  | some (rawName, rawValue) =>
    match VariableName.new (String.ofList (trim rawName)) with
    | .error _ => .error (.invalidEntry line "invalid variable name")
    | .ok name => do
      let value ← parseValue rawValue line
      return ⟨name, String.ofList value⟩

/-- One round of the loop over the lines. -/
def parseLine (rawLine : List Char) (line : Nat) : Except EnvFileError (Option VariableAssignment) :=
  let text := trimStart rawLine
  if text.isEmpty || text.head? == some '#' then .ok none
  else (parseAssignment (stripExport text) line).map some

/-- The loop over the lines, which are numbered from `line` on. -/
def parseLines (line : Nat) : List (List Char) → Except EnvFileError (List VariableAssignment)
  | [] => .ok []
  | rawLine :: rest => do
    let assignment ← parseLine rawLine line
    let assignments ← parseLines (line + 1) rest
    return assignment.toList ++ assignments

/-- The assignments of a file, up to the first line that is malformed. -/
def parse (source : List Char) : Except EnvFileError (List VariableAssignment) :=
  parseLines 1 (lines source)

/-- What `load` makes of the bytes of a file. -/
def load (bytes : ByteArray) : Except EnvFileError (List VariableAssignment) :=
  if bytes.size > maxEnvFileBytes then .error (.tooLarge maxEnvFileBytes)
  else
    match String.fromUTF8? bytes with
    | none => .error .invalidUtf8
    | some source => parse source.toList

end EnvFile
end Rettp
