import Mathlib.Data.List.TakeWhile
import Mathlib.Tactic.Common
import Rettp.Lexer

/-!
# What a round of the lexer can do

Every round skips a white space or a comment, or adds a token or an error for the text it has
read (`Piece`); after a bad escape it also drops the rest of the string. `scanToken_piece` says
this once for all branches of the scanner. So the loop always reaches the end of the text, and
what it does is shown by induction on its rounds (`roundInduction`).
-/

namespace Rettp

/-- What a round does with the text that it reads. -/
inductive Piece where
  | space (c : Char)
  | comment (text : List Char)
  | token (kind : TokenKind) (text : List Char)
  | error (kind : LexerErrorKind) (text dropped : List Char)

namespace Piece

/-- The text that a token or an error spans. -/
def lexeme : Piece → List Char
  | .space _ | .comment _ => []
  | .token _ text | .error _ text _ => text

/-- The text that no span covers. -/
def gap : Piece → List Char
  | .space c => [c]
  | .comment text => text
  | .token _ _ => []
  | .error _ _ dropped => dropped

/-- The text of a round. -/
def text (piece : Piece) : List Char := piece.lexeme ++ piece.gap

/-- What a round yields: a token, an error, or nothing. -/
def outcome : Piece → Option (Except LexerErrorKind TokenKind)
  | .space _ | .comment _ => none
  | .token kind _ => some (.ok kind)
  | .error kind _ _ => some (.error kind)

/-- A round as the scanner reports it. -/
def scanned (piece : Piece) (rest : List Char) : Scanned :=
  ⟨piece.outcome, piece.lexeme, piece.gap, rest⟩

end Piece

/-- Literals in the ranges of their types; the end is no token of a text. -/
def TokenKind.Scannable : TokenKind → Prop
  | .integerLiteral n => -2 ^ 63 ≤ n ∧ n < 2 ^ 63
  | .numberLiteral x => x.isFinite = true
  | .eof => False
  | _ => True

/-- What is known of a piece. -/
inductive Piece.Ok : Piece → Prop
  | space {c : Char} (h : c ∈ [' ', '\r', '\t', '\n']) : Ok (.space c)
  | comment {marker body : List Char} (hmarker : marker = ['#'] ∨ marker = ['/', '/'])
      (hbody : '\n' ∉ body) : Ok (.comment (marker ++ body))
  | token {kind : TokenKind} {text : List Char} (htext : text ≠ []) (hkind : kind.Scannable) :
      Ok (.token kind text)
  | error {kind : LexerErrorKind} {text : List Char} (htext : text ≠ []) : Ok (.error kind text [])
  | badEscape {c : Char} {text dropped : List Char} (htext : text ≠ [])
      (hdropped : '\n' ∉ dropped ∧ '"' ∉ dropped.dropLast) :
      Ok (.error (.invalidEscapeSequence c) text dropped)

theorem Piece.Ok.text_ne_nil {piece : Piece} (h : piece.Ok) : piece.text ≠ [] := by
  cases h with
  | space h => exact List.cons_ne_nil _ _
  | comment hmarker hbody =>
    rcases hmarker with rfl | rfl <;> exact List.cons_ne_nil _ _
  | token htext hkind => simp [text, lexeme, htext]
  | error htext => simp [text, lexeme, htext]
  | badEscape htext hdropped => simp [text, lexeme, htext]

namespace Lexer

/-- A round that reads a piece of a text. -/
def Round (text : List Char) (scanned : Scanned) : Prop :=
  ∃ piece : Piece, piece.Ok ∧ scanned = piece.scanned scanned.rest ∧
    piece.text ++ scanned.rest = text

theorem round_token {kind : TokenKind} (lexeme rest : List Char) (htext : lexeme ≠ [])
    (hkind : kind.Scannable) : Round (lexeme ++ rest) (token kind lexeme rest) :=
  ⟨.token kind lexeme, .token htext hkind, rfl, by simp [Piece.text, Piece.lexeme, Piece.gap, token]⟩

theorem round_error {kind : LexerErrorKind} (lexeme rest : List Char) (htext : lexeme ≠ []) :
    Round (lexeme ++ rest) (error kind lexeme rest) :=
  ⟨.error kind lexeme [], .error htext, rfl,
    by simp [Piece.text, Piece.lexeme, Piece.gap, error]⟩

theorem keywordOrIdentifier_scannable (value : String) : (keywordOrIdentifier value).Scannable := by
  unfold keywordOrIdentifier
  split <;> trivial

theorem scanIdentifier_round (first : Char) (text : List Char) :
    Round (first :: text) (scanIdentifier first text) := by
  have h := round_token (first :: text.takeWhile isIdentifierContinue)
    (text.dropWhile isIdentifierContinue) (List.cons_ne_nil _ _)
    (keywordOrIdentifier_scannable (String.ofList (first :: text.takeWhile isIdentifierContinue)))
  rwa [List.cons_append, List.takeWhile_append_dropWhile] at h

theorem checkedI64_eq_some {value n : Int} (h : checkedI64 value = some n) :
    -2 ^ 63 ≤ n ∧ n < 2 ^ 63 := by
  unfold checkedI64 at h
  split at h
  · next hrange => rwa [← Option.some.inj h]
  · cases h

theorem parseI64_eq_some {raw : List Char} {n : Int} (h : parseI64 raw = some n) :
    -2 ^ 63 ≤ n ∧ n < 2 ^ 63 := by
  unfold parseI64 at h
  split at h <;>
  · obtain ⟨m, -, hm⟩ := Option.bind_eq_some_iff.mp h
    exact checkedI64_eq_some hm

theorem integer_round (raw rest : List Char) (hraw : raw ≠ []) :
    Round (raw ++ rest) (integer raw rest) := by
  unfold integer
  cases h : parseI64 raw with
  | some n => exact round_token raw rest hraw (parseI64_eq_some h)
  | none => exact round_error raw rest hraw

theorem skipLineComment_round (marker text : List Char)
    (hmarker : marker = ['#'] ∨ marker = ['/', '/']) :
    Round (marker ++ text) (skipLineComment marker text) := by
  refine ⟨.comment (marker ++ text.takeWhile notLineFeed), .comment hmarker ?_, rfl, ?_⟩
  · intro hmem
    exact absurd (List.mem_takeWhile_imp hmem) (by decide)
  · simp [Piece.text, Piece.lexeme, Piece.gap, skipLineComment, skip]

/-- What is dropped of a string ends at the line feed, or with the first quote. -/
theorem recoverString_text (text : List Char) :
    (recoverString text).1 ++ (recoverString text).2 = text ∧
      '\n' ∉ (recoverString text).1 ∧ '"' ∉ (recoverString text).1.dropLast := by
  induction text using recoverString.induct with
  | case1 => exact ⟨rfl, List.not_mem_nil, List.not_mem_nil⟩
  | case2 rest =>
    rw [recoverString]
    exact ⟨rfl, by simp⟩
  | case3 rest => exact ⟨rfl, List.not_mem_nil, List.not_mem_nil⟩
  | case4 c rest hquote hfeed ih =>
    rw [recoverString.eq_4 c rest hquote hfeed, List.cons_append, ih.1, List.mem_cons, not_or]
    refine ⟨rfl, ⟨Ne.symm hfeed, ih.2.1⟩, ?_⟩
    cases hdropped : (recoverString rest).1 with
    | nil => exact List.not_mem_nil
    | cons d dropped =>
      rw [List.dropLast_cons_cons, ← hdropped, List.mem_cons, not_or]
      exact ⟨Ne.symm hquote, ih.2.2⟩

/-- Strings, after what has been read of them. -/
theorem scanString_round (read value text : List Char) (hread : read ≠ []) :
    Round (read ++ text) (scanString read value text) := by
  induction read, value, text using scanString.induct with
  | case1 read value => exact round_error read [] hread
  | case2 read value rest =>
    have h : Round (read ++ ['"'] ++ rest) (scanString read value ('"' :: rest)) :=
      round_token (read ++ ['"']) rest (by simp) trivial
    rwa [List.append_assoc, List.singleton_append] at h
  | case3 read value rest => exact round_error read ('\n' :: rest) hread
  | case4 read value =>
    have h : Round (read ++ ['\\'] ++ []) (scanString read value ['\\']) :=
      round_error (read ++ ['\\']) [] (by simp)
    rwa [List.append_nil] at h
  | case5 read value escaped rest c hc ih =>
    rw [scanString, hc]
    simpa using ih (by simp)
  | case6 read value escaped rest hc =>
    rw [scanString, hc]
    obtain ⟨htext, hdropped⟩ := recoverString_text rest
    refine ⟨.error (.invalidEscapeSequence escaped) (read ++ ['\\', escaped])
      (recoverString rest).1, .badEscape (by simp) hdropped, rfl, ?_⟩
    simp [Piece.text, Piece.lexeme, Piece.gap, htext]
  | case7 read value c rest hquote hfeed hend hescape ih =>
    rw [scanString.eq_6 read value c rest hquote hfeed hend hescape]
    simpa using ih (by simp)

theorem scanSlash_round (text : List Char) : Round ('/' :: text) (scanSlash text) := by
  unfold scanSlash
  split
  · next rest => exact skipLineComment_round ['/', '/'] rest (.inr rfl)
  · exact round_error ['/'] text (by simp)

variable [Platform]

theorem decimal_round (raw rest : List Char) (hraw : raw ≠ []) :
    Round (raw ++ rest) (decimal raw rest) := by
  unfold decimal
  split
  · split
    · next hfinite => exact round_token raw rest hraw hfinite
    · exact round_error raw rest hraw
  · exact round_error raw rest hraw

theorem scanNumber_round (read text : List Char) (hread : read ≠ []) :
    Round (read ++ text) (scanNumber read text) := by
  have htext := List.takeWhile_append_dropWhile (p := isAsciiDigit) (l := text)
  unfold scanNumber
  split
  · next digit rest hrest =>
    rw [hrest] at htext
    have hraw : read ++ text.takeWhile isAsciiDigit ≠ [] := by simp [hread]
    split
    · have h := decimal_round (read ++ text.takeWhile isAsciiDigit ++
        '.' :: (digit :: rest).takeWhile isAsciiDigit) ((digit :: rest).dropWhile isAsciiDigit)
        (by simp)
      rw [List.append_assoc, List.cons_append, List.takeWhile_append_dropWhile,
        List.append_assoc, htext] at h
      exact h
    · have h := integer_round (read ++ text.takeWhile isAsciiDigit) ('.' :: digit :: rest) hraw
      rwa [List.append_assoc, htext] at h
  · have h := integer_round (read ++ text.takeWhile isAsciiDigit) (text.dropWhile isAsciiDigit)
      (by simp [hread])
    rwa [List.append_assoc, htext] at h

theorem scanMinus_round (text : List Char) : Round ('-' :: text) (scanMinus text) := by
  unfold scanMinus
  split
  · next rest => exact round_token ['-', '>'] rest (by simp) trivial
  · next digit rest _ =>
    split
    · exact scanNumber_round ['-'] (digit :: rest) (by simp)
    · exact round_error ['-'] _ (by simp)
  · exact round_error ['-'] _ (by simp)

/-- **Rounds.** A round reads one piece of the text. -/
theorem scanToken_piece (c : Char) (text : List Char) : Round (c :: text) (scanToken c text) := by
  unfold scanToken
  split
  all_goals first
    | exact round_token [_] text (List.cons_ne_nil _ _) trivial
    | exact scanMinus_round text
    | exact scanString_round ['"'] [] text (by simp)
    | exact skipLineComment_round ['#'] text (.inl rfl)
    | exact scanSlash_round text
    | exact ⟨.space _, .space (by simp), rfl, rfl⟩
    | skip
  split
  · exact scanNumber_round [c] text (by simp)
  · split
    · exact scanIdentifier_round c text
    · exact round_error [c] text (by simp)

/-! ## The loop -/

theorem scanToken_shorter (c : Char) (text : List Char) :
    (scanToken c text).rest.length ≤ text.length := by
  obtain ⟨piece, hok, -, htext⟩ := scanToken_piece c text
  have hpiece := List.length_pos_iff.mpr hok.text_ne_nil
  have hlength := congrArg List.length htext
  rw [List.length_append, List.length_cons] at hlength
  omega

/-- More fuel than a text needs changes nothing. -/
theorem scanFrom_fuel {fuel : Nat} {text : List Char} (start : Nat) (h : text.length ≤ fuel) :
    scanFrom fuel start text = scanFrom text.length start text := by
  induction fuel using Nat.strong_induction_on generalizing start text with
  | _ fuel ih =>
    cases text with
    | nil => cases fuel <;> rfl
    | cons c text =>
      obtain ⟨n, rfl⟩ := Nat.exists_eq_add_one_of_ne_zero (Nat.ne_zero_of_lt h)
      have hrest := scanToken_shorter c text
      rw [List.length_cons] at h
      rw [List.length_cons, scanFrom, scanFrom, ih n (by omega) _ (by omega),
        ih text.length (by omega) _ (by omega)]

/-- Read a whole text. -/
def scanAll (start : Nat) (text : List Char) : LexResult := scanFrom text.length start text

theorem scanAll_cons (start : Nat) (c : Char) (text : List Char) :
    scanAll start (c :: text) =
      add (scanToken c text).outcome ⟨start, start + utf8Len (scanToken c text).lexeme⟩
        (scanAll (start + utf8Len (scanToken c text).lexeme + utf8Len (scanToken c text).skipped)
          (scanToken c text).rest) := by
  rw [scanAll, List.length_cons, scanFrom, scanAll, scanFrom_fuel _ (scanToken_shorter c text)]

/-- A text is read round by round. -/
theorem roundInduction {P : List Char → Prop} (nil : P [])
    (cons : ∀ c text, P (scanToken c text).rest → P (c :: text)) (text : List Char) : P text := by
  induction hn : text.length using Nat.strong_induction_on generalizing text with
  | _ n ih =>
    cases text with
    | nil => exact nil
    | cons c text =>
      have hrest := scanToken_shorter c text
      rw [List.length_cons] at hn
      exact cons c text (ih _ (by omega) _ rfl)

end Lexer

end Rettp
