import Rettp.LexerTiling

/-!
# Lexing line by line

No token, comment or string goes on behind a line feed, with one exception: a backslash in a
string takes the line feed after it as a bad escape, and the rest of the next line is dropped
with the string. So a source can be lexed line by line exactly when no line ends in an escape
(`lex_lines_iff`).

Where a text ends is told by a small machine that reads it character by character (`Mode`).
-/

namespace Rettp

/-! ## How a text ends -/

/-- What a text is in the middle of. -/
inductive Mode where
  | code | slash | comment | string | escape | dropped
  deriving DecidableEq

namespace Mode

/-- What a character starts between two tokens. -/
def inCode (c : Char) : Mode :=
  if c = '"' then .string else if c = '#' then .comment else if c = '/' then .slash else .code

/-- One character of the machine. -/
def step : Mode → Char → Mode
  | .code, c => inCode c
  | .slash, c => if c = '/' then .comment else inCode c
  | .comment, c => if c = '\n' then .code else .comment
  | .string, c => if c = '"' ∨ c = '\n' then .code else if c = '\\' then .escape else .string
  | .escape, c => if (Lexer.unescape c).isSome then .string else .dropped
  | .dropped, c => if c = '"' ∨ c = '\n' then .code else .dropped

end Mode

/-- A text that ends in a backslash of a string, which begins an escape. -/
def EndsInEscape (text : List Char) : Prop := text.foldl Mode.step .code = .escape

instance (text : List Char) : Decidable (EndsInEscape text) :=
  inferInstanceAs (Decidable (_ = _))

/-! ## Results moved along a source -/

/-- A place that lies further behind. -/
def SourceSpan.shift (n : Nat) (span : SourceSpan) : SourceSpan := ⟨span.start + n, span.end_ + n⟩

/-- A token that stands further behind. -/
def Token.shift (n : Nat) (token : Token) : Token := ⟨token.kind, token.span.shift n⟩

/-- An error that lies further behind. -/
def LexerError.shift (n : Nat) (error : LexerError) : LexerError := ⟨error.kind, error.span.shift n⟩

/-- A result for a text behind `n` other bytes. -/
def LexResult.shift (n : Nat) (result : LexResult) : LexResult :=
  ⟨result.tokens.map (.shift n), result.errors.map (.shift n)⟩

/-- A result without its end, and another one. -/
def LexResult.followedBy (first second : LexResult) : LexResult :=
  ⟨first.tokens.dropLast ++ second.tokens, first.errors ++ second.errors⟩

namespace Lexer

/-! ## Rounds at the end of a line -/

/-- The same round, with more text behind it. -/
def onto (scanned : Scanned) (more : List Char) : Scanned :=
  { scanned with rest := scanned.rest ++ more }

/-- What stops at the end of a line does not see the next one. -/
theorem takeWhile_line {p : Char → Bool} (hp : p '\n' = false) (text more : List Char) :
    (text ++ '\n' :: more).takeWhile p = text.takeWhile p := by
  induction text with
  | nil => rw [List.nil_append, List.takeWhile_cons_of_neg (by simp [hp]), List.takeWhile_nil]
  | cons c text ih => rw [List.cons_append, List.takeWhile_cons, List.takeWhile_cons, ih]

/-- What is left of a line stands in front of the next one. -/
theorem dropWhile_line {p : Char → Bool} (hp : p '\n' = false) (text more : List Char) :
    (text ++ '\n' :: more).dropWhile p = text.dropWhile p ++ '\n' :: more := by
  induction text with
  | nil => rw [List.nil_append, List.dropWhile_cons_of_neg (by simp [hp]), List.dropWhile_nil,
      List.nil_append]
  | cons c text ih =>
    rw [List.cons_append, List.dropWhile_cons, List.dropWhile_cons, ih]
    split <;> rfl

/-- A word ends within its line. -/
theorem scanIdentifier_line (first : Char) (text more : List Char) :
    scanIdentifier first (text ++ '\n' :: more) = onto (scanIdentifier first text) ('\n' :: more) := by
  rw [scanIdentifier, takeWhile_line (by decide), dropWhile_line (by decide)]
  rfl

theorem integer_line (raw rest more : List Char) :
    integer raw (rest ++ more) = onto (integer raw rest) more := by
  unfold integer
  cases parseI64 raw <;> rfl

/-- A comment ends with its line. -/
theorem skipLineComment_line (marker text more : List Char) :
    skipLineComment marker (text ++ '\n' :: more) =
      onto (skipLineComment marker text) ('\n' :: more) := by
  rw [skipLineComment, takeWhile_line (by decide), dropWhile_line (by decide)]
  rfl

/-- Recovery from a broken string ends with the line. -/
theorem recoverString_line (text more : List Char) :
    recoverString (text ++ '\n' :: more) =
      ((recoverString text).1, (recoverString text).2 ++ '\n' :: more) := by
  induction text using recoverString.induct with
  | case1 => rfl
  | case2 rest => rw [List.cons_append, recoverString, recoverString]
  | case3 rest => rw [List.cons_append, recoverString, recoverString]; rfl
  | case4 c rest hquote hfeed ih =>
    rw [List.cons_append, recoverString.eq_4 c _ hquote hfeed, recoverString.eq_4 c _ hquote hfeed,
      ih]

/-- The text of a string that ends, unclosed, in the backslash of an escape. -/
def stringEndsInEscape : List Char → Bool
  | [] => false
  | '"' :: _ => false
  | '\n' :: _ => false
  | ['\\'] => true
  | '\\' :: escaped :: rest => (unescape escaped).isSome && stringEndsInEscape rest
  | _ :: rest => stringEndsInEscape rest

/-- A string ends with its line at the latest. -/
theorem scanString_line {read value text : List Char} (more : List Char)
    (h : stringEndsInEscape text = false) :
    scanString read value (text ++ '\n' :: more) =
      onto (scanString read value text) ('\n' :: more) := by
  induction read, value, text using scanString.induct with
  | case1 read value => rfl
  | case2 read value rest => rw [List.cons_append, scanString, scanString]; rfl
  | case3 read value rest => rw [List.cons_append, scanString, scanString]; rfl
  | case4 read value => cases h
  | case5 read value escaped rest c hc ih =>
    rw [stringEndsInEscape, hc, Option.isSome_some, Bool.true_and] at h
    rw [List.cons_append, List.cons_append, scanString, scanString, hc]
    exact ih h
  | case6 read value escaped rest hc =>
    rw [List.cons_append, List.cons_append, scanString, scanString, hc]
    dsimp only
    rw [recoverString_line]
    rfl
  | case7 read value c rest hquote hfeed hend hescape ih =>
    rw [stringEndsInEscape.eq_6 c rest hquote hfeed hend hescape] at h
    have hescape' (escaped : Char) (rest' : List Char) (hc : c = '\\')
        (hrest : rest ++ '\n' :: more = escaped :: rest') : False := by
      cases rest with
      | nil => exact hend hc rfl
      | cons d rest => exact hescape d rest hc rfl
    rw [List.cons_append, scanString.eq_6 read value c _ hquote hfeed (by simp) hescape',
      scanString.eq_6 read value c rest hquote hfeed hend hescape, ih h]

/-- The exception: the line feed is taken for an escape. -/
theorem scanString_escape {read value text : List Char} (more : List Char)
    (h : stringEndsInEscape text = true) :
    scanString read value text = error .unterminatedString (read ++ text) [] ∧
      (scanString read value (text ++ '\n' :: more)).outcome =
        some (.error (.invalidEscapeSequence '\n')) := by
  induction read, value, text using scanString.induct with
  | case1 read value => cases h
  | case2 read value rest => simp [stringEndsInEscape] at h
  | case3 read value rest => simp [stringEndsInEscape] at h
  | case4 read value => exact ⟨rfl, rfl⟩
  | case5 read value escaped rest c hc ih =>
    rw [stringEndsInEscape, hc, Option.isSome_some, Bool.true_and] at h
    rw [List.cons_append, List.cons_append, scanString, scanString, hc]
    simpa using ih h
  | case6 read value escaped rest hc => simp [stringEndsInEscape, hc] at h
  | case7 read value c rest hquote hfeed hend hescape ih =>
    rw [stringEndsInEscape.eq_6 c rest hquote hfeed hend hescape] at h
    have hescape' (escaped : Char) (rest' : List Char) (hc : c = '\\')
        (hrest : rest ++ '\n' :: more = escaped :: rest') : False := by
      cases rest with
      | nil => exact hend hc rfl
      | cons d rest => exact hescape d rest hc rfl
    rw [List.cons_append, scanString.eq_6 read value c _ hquote hfeed (by simp) hescape',
      scanString.eq_6 read value c rest hquote hfeed hend hescape]
    simpa using ih h

/-- What a slash starts ends with its line. -/
theorem scanSlash_line (text more : List Char) :
    scanSlash (text ++ '\n' :: more) = onto (scanSlash text) ('\n' :: more) := by
  cases text with
  | nil => rfl
  | cons c text =>
    by_cases hc : c = '/'
    · rw [hc]
      exact skipLineComment_line ['/', '/'] text more
    · rw [List.cons_append, scanSlash.eq_2 _ (by simpa using hc), scanSlash.eq_2 _ (by simpa using hc)]
      rfl

/-! ## What is open after a round -/

open Mode

/-- Characters that start nothing leave the machine where it is. -/
theorem foldl_code {p : Char → Bool} (hp : ∀ c, p c = true → inCode c = .code) (text : List Char) :
    (text.takeWhile p).foldl step .code = .code := by
  induction text with
  | nil => rfl
  | cons c text ih =>
    rw [List.takeWhile_cons]
    split
    · next hc => rw [List.foldl_cons, step, hp c hc, ih]
    · rfl

/-- A text begins again where a comment ends. -/
theorem foldl_comment (text : List Char) :
    text.foldl step .comment = .escape ↔ (text.dropWhile notLineFeed).foldl step .code = .escape := by
  induction text with
  | nil => exact iff_of_false nofun nofun
  | cons c text ih =>
    by_cases hc : c = '\n'
    · rw [hc]
      exact Iff.rfl
    · have hcomment : step .comment c = .comment := if_neg hc
      rw [List.foldl_cons, hcomment, ih, List.dropWhile_cons_of_pos (by simpa [notLineFeed] using hc)]

/-- Recovery leaves the machine in an escape exactly if what it leaves does. -/
theorem foldl_dropped (text : List Char) :
    text.foldl step .dropped = .escape ↔ (recoverString text).2.foldl step .code = .escape := by
  induction text using recoverString.induct with
  | case1 => exact iff_of_false (by rintro ⟨⟩) (by rintro ⟨⟩)
  | case2 rest => rw [recoverString]; rfl
  | case3 rest => rw [recoverString]; rfl
  | case4 c rest hquote hfeed ih =>
    have hdropped : step .dropped c = .dropped := if_neg (not_or.mpr ⟨hquote, hfeed⟩)
    rw [recoverString.eq_4 c rest hquote hfeed, List.foldl_cons, hdropped, ih]

/-- A string ends in an escape itself, or leaves the rest of the text. -/
theorem foldl_string (read value text : List Char) :
    text.foldl step .string = .escape ↔ stringEndsInEscape text = true ∨
      (scanString read value text).rest.foldl step .code = .escape := by
  induction read, value, text using scanString.induct with
  | case1 read value => simp [stringEndsInEscape, scanString, error]
  | case2 read value rest =>
    rw [stringEndsInEscape, scanString]
    simp [step, token]
  | case3 read value rest =>
    rw [stringEndsInEscape, scanString]
    simp [step, error, inCode]
  | case4 read value => exact iff_of_true rfl (.inl rfl)
  -- a known escape goes on with the string, an unknown one drops the rest of it
  | case5 read value escaped rest c hc ih =>
    have hstep : step (step .string '\\') escaped = .string := if_pos (by rw [hc]; rfl)
    rw [stringEndsInEscape, scanString, hc, Option.isSome_some, Bool.true_and, List.foldl_cons,
      List.foldl_cons, hstep]
    exact ih
  | case6 read value escaped rest hc =>
    have hstep : step (step .string '\\') escaped = .dropped := if_neg (by simp [hc])
    rw [stringEndsInEscape, scanString, hc, List.foldl_cons, List.foldl_cons, hstep, foldl_dropped]
    simp
  | case7 read value c rest hquote hfeed hend hescape ih =>
    rw [stringEndsInEscape.eq_6 c rest hquote hfeed hend hescape,
      scanString.eq_6 read value c rest hquote hfeed hend hescape, List.foldl_cons, ← ih]
    by_cases hc : c = '\\'
    · cases rest with
      | nil => exact absurd rfl (hend hc)
      | cons d rest => exact absurd rfl (hescape d rest hc)
    · have hstep : step .string c = .string :=
        (if_neg (not_or.mpr ⟨hquote, hfeed⟩)).trans (if_neg hc)
      rw [hstep]

/-- A character that opens nothing. -/
theorem inCode_eq {p : Char → Bool} (hquote : p '"' = false) (hhash : p '#' = false)
    (hslash : p '/' = false) (c : Char) (h : p c = true) : inCode c = .code := by
  have hne (d : Char) (hd : p d = false) : c ≠ d := by
    rintro rfl
    rw [h] at hd
    cases hd
  rw [inCode, if_neg (hne _ hquote), if_neg (hne _ hhash), if_neg (hne _ hslash)]

/-- A text begins again behind a word. -/
theorem foldl_word {p : Char → Bool} (hquote : p '"' = false) (hhash : p '#' = false)
    (hslash : p '/' = false) (text : List Char) :
    text.foldl step .code = (text.dropWhile p).foldl step .code := by
  conv_lhs => rw [← List.takeWhile_append_dropWhile (p := p) (l := text)]
  rw [List.foldl_append, foldl_code (inCode_eq hquote hhash hslash)]

theorem integer_rest (raw rest : List Char) : (integer raw rest).rest = rest := by
  unfold integer
  cases parseI64 raw <;> rfl

/-- A slash, in the scanner and in the machine. -/
theorem foldl_scanSlash (text : List Char) :
    text.foldl step .slash = .escape ↔ (scanSlash text).rest.foldl step .code = .escape := by
  cases text with
  | nil => exact iff_of_false nofun nofun
  | cons c text =>
    by_cases hc : c = '/'
    · rw [hc]
      exact foldl_comment text
    · have hstep : step .slash c = step .code c := if_neg hc
      rw [scanSlash.eq_2 _ (by simpa using hc), List.foldl_cons, hstep]
      rfl

/-- One round of the scanner further behind. -/
theorem add_shift (n : Nat) (outcome : Option (Except LexerErrorKind TokenKind)) (span : SourceSpan)
    (result : LexResult) :
    add outcome (span.shift n) (result.shift n) = (add outcome span result).shift n := by
  match outcome with
  | none => rfl
  | some (.ok kind) => rfl
  | some (.error kind) => rfl

theorem add_followedBy {outcome : Option (Except LexerErrorKind TokenKind)} {span : SourceSpan}
    {first second : LexResult} (h : first.tokens ≠ []) :
    add outcome span (first.followedBy second) = (add outcome span first).followedBy second := by
  match outcome with
  | none => rfl
  | some (.error kind) => rfl
  | some (.ok kind) =>
    rw [add, add, LexResult.followedBy, LexResult.followedBy, List.dropLast_cons_of_ne_nil h]
    rfl

variable [Platform]

theorem decimal_rest (raw rest : List Char) : (decimal raw rest).rest = rest := by
  unfold decimal
  split
  · split <;> rfl
  · rfl

/-- A number with a point ends within its line. -/
theorem decimal_line (raw rest more : List Char) :
    decimal raw (rest ++ more) = onto (decimal raw rest) more := by
  unfold decimal
  split
  · split <;> rfl
  · rfl

/-- A number, in the scanner and in the machine. -/
theorem foldl_number (read text : List Char) :
    text.foldl step .code = (scanNumber read text).rest.foldl step .code := by
  rw [foldl_word (by decide : isAsciiDigit '"' = false) (by decide) (by decide) text]
  unfold scanNumber
  dsimp only
  split
  · next digit rest hrest =>
    rw [hrest]
    split
    · rw [decimal_rest, ← foldl_word (by decide) (by decide) (by decide)]
      rfl
    · rw [integer_rest]
  · rw [integer_rest]

/-- A number ends within its line. -/
theorem scanNumber_line (read text more : List Char) :
    scanNumber read (text ++ '\n' :: more) = onto (scanNumber read text) ('\n' :: more) := by
  unfold scanNumber
  rw [takeWhile_line (by decide), dropWhile_line (by decide)]
  dsimp only
  cases text.dropWhile isAsciiDigit with
  | nil => exact integer_line _ [] _
  | cons c rest =>
    by_cases hc : c = '.'
    · rw [hc]
      cases rest with
      | nil => exact integer_line _ ['.'] _
      | cons digit rest =>
        by_cases hdigit : isAsciiDigit digit = true
        · have htake := takeWhile_line (by decide : isAsciiDigit '\n' = false) (digit :: rest) more
          have hdrop := dropWhile_line (by decide : isAsciiDigit '\n' = false) (digit :: rest) more
          rw [List.cons_append] at htake hdrop
          simp only [List.cons_append, hdigit, if_true, htake, hdrop, decimal_line]
        · have hline := integer_line (read ++ text.takeWhile isAsciiDigit) ('.' :: digit :: rest)
            ('\n' :: more)
          simpa [hdigit] using hline
    · have hline := integer_line (read ++ text.takeWhile isAsciiDigit) (c :: rest) ('\n' :: more)
      simpa [hc] using hline

/-- What a minus starts ends within its line. -/
theorem scanMinus_line (text more : List Char) :
    scanMinus (text ++ '\n' :: more) = onto (scanMinus text) ('\n' :: more) := by
  cases text with
  | nil => rfl
  | cons c text =>
    by_cases hc : c = '>'
    · rw [hc]
      rfl
    · rw [List.cons_append, scanMinus.eq_2 c _ hc, scanMinus.eq_2 c _ hc]
      split
      · exact scanNumber_line ['-'] (c :: text) more
      · rfl

/-- **Rounds at the end of a line.** A round reads the same with the next line behind it, unless
it ends in an escape. -/
theorem scanToken_line (c : Char) (text more : List Char)
    (h : ¬ (c = '"' ∧ stringEndsInEscape text = true)) :
    scanToken c (text ++ '\n' :: more) = onto (scanToken c text) ('\n' :: more) := by
  by_cases hquote : c = '"'
  · have hstring : stringEndsInEscape text = false := by simpa [hquote] using h
    rw [hquote]
    exact scanString_line more hstring
  · unfold scanToken
    split
    all_goals first
      | rfl
      | exact scanMinus_line text more
      | exact absurd rfl hquote
      | exact skipLineComment_line ['#'] text more
      | exact scanSlash_line text more
      | skip
    split
    · exact scanNumber_line [c] text more
    · split
      · exact scanIdentifier_line c text more
      · rfl

/-- A minus, in the scanner and in the machine. -/
theorem foldl_scanMinus (text : List Char) :
    text.foldl step .code = (scanMinus text).rest.foldl step .code := by
  unfold scanMinus
  split
  · rfl
  · split
    · exact foldl_number ['-'] _
    · rfl
  · rfl

/-- Behind a character that opens nothing, a round leaves what is open. -/
theorem foldl_scanToken {c : Char} (hquote : c ≠ '"') (hhash : c ≠ '#') (hslash : c ≠ '/')
    (text : List Char) :
    text.foldl step .code = (scanToken c text).rest.foldl step .code := by
  unfold scanToken
  split
  all_goals first
    | rfl
    | exact foldl_scanMinus text
    | exact absurd rfl hquote
    | exact absurd rfl hhash
    | exact absurd rfl hslash
    | skip
  split
  · exact foldl_number [c] text
  · split
    · exact foldl_word (by decide) (by decide) (by decide) text
    · rfl

/-- What is open at the end of a text, round by round. -/
theorem endsInEscape_cons (c : Char) (text : List Char) :
    EndsInEscape (c :: text) ↔ c = '"' ∧ stringEndsInEscape text = true ∨
      EndsInEscape (scanToken c text).rest := by
  unfold EndsInEscape
  by_cases hquote : c = '"'
  · rw [hquote]
    exact (foldl_string ['"'] [] text).trans (by simp [scanToken])
  by_cases hhash : c = '#'
  · rw [hhash]
    exact (foldl_comment text).trans (by simp [scanToken, skipLineComment, skip])
  by_cases hslash : c = '/'
  · rw [hslash]
    exact (foldl_scanSlash text).trans (by simp [scanToken])
  have hstep : step .code c = .code := by
    rw [step, inCode, if_neg hquote, if_neg hhash, if_neg hslash]
  rw [List.foldl_cons, hstep, foldl_scanToken hquote hhash hslash text]
  simp [hquote]

/-! ## Texts line by line -/

/-- The scanner further behind finds the same further behind. -/
theorem scanAll_shift (n start : Nat) (text : List Char) :
    scanAll (start + n) text = (scanAll start text).shift n := by
  induction text using roundInduction generalizing start with
  | nil => rfl
  | cons c text ih =>
    rw [scanAll_cons, scanAll_cons, ← add_shift, ← ih]
    simp only [SourceSpan.shift, Nat.add_right_comm _ n]

/-- There is always the end. -/
theorem tokens_ne_nil (start : Nat) (text : List Char) : (scanAll start text).tokens ≠ [] := by
  induction text using roundInduction generalizing start with
  | nil => exact List.cons_ne_nil _ _
  | cons c text ih =>
    rw [scanAll_cons]
    match (scanToken c text).outcome with
    | none => exact ih _
    | some (.ok kind) => exact List.cons_ne_nil _ _
    | some (.error kind) => exact ih _

/-- **Lines.** A text that does not end in an escape, and the text of the next lines. -/
theorem scanAll_line {text : List Char} (start : Nat) (more : List Char) (h : ¬ EndsInEscape text) :
    scanAll start (text ++ '\n' :: more) =
      (scanAll start text).followedBy (scanAll (start + utf8Len text + 1) more) := by
  induction text using roundInduction generalizing start with
  | nil =>
    rw [List.nil_append, scanAll_cons]
    rfl
  | cons c text ih =>
    rw [endsInEscape_cons, not_or] at h
    obtain ⟨piece, -, hscanned, htext⟩ := scanToken_piece c text
    have hlength : utf8Len (c :: text) = utf8Len (scanToken c text).lexeme +
        utf8Len (scanToken c text).skipped + utf8Len (scanToken c text).rest := by
      rw [← htext, utf8Len_append, Piece.text, utf8Len_append, hscanned]
      rfl
    rw [List.cons_append, scanAll_cons, scanToken_line c text more h.1, scanAll_cons,
      ← add_followedBy (tokens_ne_nil _ _), hlength]
    simp only [onto]
    rw [ih _ h.2]
    simp only [Nat.add_assoc]

/-- The errors that a round adds. -/
def added (outcome : Option (Except LexerErrorKind TokenKind)) (span : SourceSpan) :
    List LexerError :=
  match outcome with
  | some (.error kind) => [⟨kind, span⟩]
  | _ => []

omit [Platform] in
/-- The errors of one more round. -/
theorem errors_add (outcome : Option (Except LexerErrorKind TokenKind)) (span : SourceSpan)
    (result : LexResult) : (add outcome span result).errors = added outcome span ++ result.errors := by
  match outcome with
  | none => rfl
  | some (.ok kind) => rfl
  | some (.error kind) => rfl

/-- **The exception.** Where a text ends in an escape, its last error is another one with more
text behind it. -/
theorem scanAll_escape {text : List Char} (start : Nat) (more : List Char) (h : EndsInEscape text) :
    ∃ errors error error' later, (scanAll start text).errors = errors ++ [error] ∧
      (scanAll start (text ++ '\n' :: more)).errors = errors ++ error' :: later ∧
      error.kind = .unterminatedString ∧ error'.kind = .invalidEscapeSequence '\n' := by
  induction text using roundInduction generalizing start with
  | nil => cases h
  | cons c text ih =>
    rw [List.cons_append, scanAll_cons, scanAll_cons, errors_add, errors_add]
    by_cases hstring : c = '"' ∧ stringEndsInEscape text = true
    · obtain ⟨rfl, htext⟩ := hstring
      obtain ⟨hends, hgoes⟩ := @scanString_escape ['"'] [] text more htext
      rw [scanToken, scanToken, hends, hgoes]
      exact ⟨[], _, _, _, rfl, rfl, rfl, rfl⟩
    · rw [scanToken_line c text more hstring]
      have hrest := ((endsInEscape_cons c text).mp h).resolve_left hstring
      obtain ⟨errors, error, error', later, hends, hgoes, hkinds⟩ := ih
        (start + utf8Len (scanToken c text).lexeme + utf8Len (scanToken c text).skipped) hrest
      simp only [onto]
      rw [hends, hgoes, ← List.append_assoc, ← List.append_assoc]
      exact ⟨_, error, error', later, rfl, rfl, hkinds⟩

end Lexer

/-- **Lexing is compositional at line ends**, exactly where a line does not end in an escape. -/
theorem lex_lines_iff [Platform] (name : String) (a b : String) :
    let whole := lex ⟨name, a ++ "\n" ++ b⟩
    let first := lex ⟨name, a⟩
    let second := (lex ⟨name, b⟩).shift (utf8Len a.toList + 1)
    (whole.tokens = first.tokens.dropLast ++ second.tokens ∧
      whole.errors = first.errors ++ second.errors) ↔ ¬ EndsInEscape a.toList := by
  intro whole first second
  have htext : (a ++ "\n" ++ b).toList = a.toList ++ '\n' :: b.toList := by simp
  have hwhole : whole = Lexer.scanAll 0 (a.toList ++ '\n' :: b.toList) := by
    rw [← htext]
    rfl
  have hsecond : second = Lexer.scanAll (0 + utf8Len a.toList + 1) b.toList := by
    rw [Nat.add_assoc, Lexer.scanAll_shift]
    rfl
  rw [hwhole]
  refine ⟨?_, ?_⟩
  · rintro ⟨-, herrors⟩ hescape
    -- the two results differ where the errors of the line end
    obtain ⟨errors, error, error', later, hends, hgoes, herror, herror'⟩ :=
      Lexer.scanAll_escape 0 b.toList hescape
    have hfirst : first.errors = errors ++ [error] := hends
    rw [hgoes, hfirst, List.append_assoc, List.append_cancel_left_eq, List.singleton_append,
      List.cons.injEq] at herrors
    rw [herrors.1, herror] at herror'
    cases herror'
  · intro hescape
    rw [Lexer.scanAll_line 0 b.toList hescape, hsecond]
    exact ⟨rfl, rfl⟩

/-- A string that ends in a backslash takes the next line with it. -/
theorem lex_lines_escape :
    letI := asciiPlatform
    ¬ ∀ name a b : String,
      let whole := lex ⟨name, a ++ "\n" ++ b⟩
      let first := lex ⟨name, a⟩
      let second := (lex ⟨name, b⟩).shift (utf8Len a.toList + 1)
      whole.tokens = first.tokens.dropLast ++ second.tokens ∧
        whole.errors = first.errors ++ second.errors := by
  intro h
  have hlines := congrArg List.length (h "" "\"abc\\" "core").1
  revert hlines
  decide +kernel

end Rettp
