import Rettp.LexerRendering
import Rettp.LexerTiling
import Rettp.Location

/-!
# Lexing a slice

What the lexer reads as a token is a word of that token (`scanToken_readsWord`). So the text of a
token, cut out of the source and lexed by itself, is that token again (`lex_slice`).
-/

namespace Rettp

namespace Lexer

/-! ## Words are what is read -/

theorem unescape_mem {c escape : Char} (h : unescape escape = some c) :
    (c, escape) ∈ [('"', '"'), ('\\', '\\'), ('\n', 'n'), ('\r', 'r'), ('\t', 't')] := by
  unfold unescape at h
  split at h <;> first | (cases h; simp) | cases h

theorem scanString_quoted {read before text : List Char} {kind : TokenKind}
    (h : (scanString read before text).outcome = some (.ok kind)) :
    ∃ value quoted, Quoted value quoted ∧ kind = .stringLiteral (String.ofList (before ++ value)) ∧
      (scanString read before text).lexeme = read ++ (quoted ++ ['"']) := by
  induction read, before, text using scanString.induct with
  | case1 read before => cases h
  | case2 read before rest =>
    rw [scanString] at h ⊢
    cases h
    exact ⟨[], [], .nil, by rw [List.append_nil], rfl⟩
  | case3 read before rest => rw [scanString] at h; cases h
  | case4 read before => cases h
  | case5 read before escaped rest c hc ih =>
    rw [scanString, hc] at h ⊢
    obtain ⟨value, quoted, hquoted, hkind, hlexeme⟩ := ih h
    refine ⟨c :: value, '\\' :: escaped :: quoted, .escaped (unescape_mem hc) hquoted, ?_, ?_⟩
    · rw [hkind, List.append_assoc, List.singleton_append]
    · rw [hlexeme, List.append_assoc]
      rfl
  | case6 read before escaped rest hc =>
    rw [scanString, hc] at h
    cases h
  | case7 read before c rest hquote hfeed hend hescape ih =>
    rw [scanString.eq_6 read before c rest hquote hfeed hend hescape] at h ⊢
    obtain ⟨value, quoted, hquoted, hkind, hlexeme⟩ := ih h
    have hbackslash : c ≠ '\\' := by
      rintro rfl
      cases rest with
      | nil => exact hend rfl rfl
      | cons escaped rest => exact hescape escaped rest rfl rfl
    refine ⟨c :: value, c :: quoted, .raw ?_ hquoted, ?_, ?_⟩
    · simp only [List.mem_cons, List.not_mem_nil, or_false, not_or]
      exact ⟨hquote, hbackslash, hfeed⟩
    · rw [hkind, List.append_assoc, List.singleton_append]
    · rw [hlexeme, List.append_assoc]
      rfl

/-- The value of digits that fit into an `i64`. -/
theorem checkedI64_eq {value n : Int} (h : checkedI64 value = some n) : n = value := by
  unfold checkedI64 at h
  split at h <;> cases h
  rfl

variable [Platform]

/-- A round whose token, if any, is written by what the round has read. -/
def ReadsWord (scanned : Scanned) : Prop :=
  ∀ kind, scanned.outcome = some (.ok kind) → Word kind scanned.lexeme

theorem readsWord_token {kind : TokenKind} {lexeme rest : List Char} (h : Word kind lexeme) :
    ReadsWord (token kind lexeme rest) := by
  rintro kind' ⟨⟩
  exact h

theorem readsWord_error (kind : LexerErrorKind) (lexeme rest : List Char) :
    ReadsWord (error kind lexeme rest) := nofun

theorem readsWord_skip (read rest : List Char) : ReadsWord (skip read rest) := nofun

theorem readsWord_punctuation {kind : TokenKind} {lexeme : List Char} (rest : List Char)
    (h : (String.ofList lexeme, kind) ∈ punctuation) : ReadsWord (token kind lexeme rest) := by
  rw [← String.toList_ofList (l := lexeme)]
  exact readsWord_token (.punctuation h)

theorem keywordOrIdentifier_word {first : Char} {text : List Char}
    (hfirst : isIdentifierStart first = true)
    (htext : ∀ c ∈ text, isIdentifierContinue c = true) :
    Word (keywordOrIdentifier (String.ofList (first :: text))) (first :: text) := by
  by_cases hkeyword : String.ofList (first :: text) ∈ reserved.map Prod.fst
  · obtain ⟨⟨name, kind⟩, hmem, hname⟩ := List.mem_map.mp hkeyword
    obtain rfl : name = String.ofList (first :: text) := hname
    have hword := Word.keyword hmem
    rwa [keywordOrIdentifier_reserved hmem, ← String.toList_ofList (l := first :: text)]
  · rw [keywordOrIdentifier_identifier hkeyword]
    exact .identifier hfirst htext hkeyword

theorem integer_readsWord {negative : Bool} {digits : List Char} (rest : List Char)
    (hdigits : digits ≠ []) (hall : ∀ c ∈ digits, isAsciiDigit c = true) :
    ReadsWord (integer (sign negative ++ digits) rest) := by
  rw [integer, parseI64_digits negative hdigits hall]
  split
  · next n hn =>
    exact readsWord_token (.integer hdigits hall (checkedI64_eq hn) (checkedI64_eq_some hn))
  · exact readsWord_error _ _ _

theorem decimal_readsWord {negative : Bool} {digits fraction : List Char} (rest : List Char)
    (hdigits : digits ≠ []) (hall : ∀ c ∈ digits, isAsciiDigit c = true)
    (hfraction : fraction ≠ []) (hall' : ∀ c ∈ fraction, isAsciiDigit c = true) :
    ReadsWord (decimal (sign negative ++ digits ++ '.' :: fraction) rest) := by
  unfold decimal
  split
  · next x hparse =>
    split
    · next hfinite =>
      exact readsWord_token (.decimal hdigits hall hfraction hall' hparse hfinite)
    · exact readsWord_error _ _ _
  · exact readsWord_error _ _ _

/-- A number of which the sign, or the first digit, has been read. -/
theorem scanNumber_readsWord (negative : Bool) {digits read text : List Char}
    (hread : read ++ text.takeWhile isAsciiDigit = sign negative ++ digits) (hdigits : digits ≠ [])
    (hall : ∀ c ∈ digits, isAsciiDigit c = true) : ReadsWord (scanNumber read text) := by
  unfold scanNumber
  rw [hread]
  split
  · next digit rest hrest =>
    split
    · next hdigit =>
      refine decimal_readsWord _ hdigits hall ?_ fun c hc => List.mem_takeWhile_imp hc
      rw [List.takeWhile_cons_of_pos hdigit]
      exact List.cons_ne_nil _ _
    · exact integer_readsWord _ hdigits hall
  · exact integer_readsWord _ hdigits hall

theorem scanMinus_readsWord (text : List Char) : ReadsWord (scanMinus text) := by
  unfold scanMinus
  split
  · next rest => exact readsWord_punctuation rest (by simp [punctuation])
  · next digit rest _ =>
    split
    · next hdigit =>
      refine scanNumber_readsWord true rfl ?_ fun c hc => List.mem_takeWhile_imp hc
      rw [List.takeWhile_cons_of_pos hdigit]
      exact List.cons_ne_nil _ _
    · exact readsWord_error _ _ _
  · exact readsWord_error _ _ _

theorem scanSlash_readsWord (text : List Char) : ReadsWord (scanSlash text) := by
  unfold scanSlash
  split
  · exact readsWord_skip _ _
  · exact readsWord_error _ _ _

theorem scanString_readsWord (text : List Char) : ReadsWord (scanString ['"'] [] text) := by
  intro kind h
  obtain ⟨value, quoted, hquoted, rfl, hlexeme⟩ := scanString_quoted h
  rw [hlexeme]
  exact .string hquoted

/-- **Tokens are words.** What a round reads as a token is a source form of that token. -/
theorem scanToken_readsWord (c : Char) (text : List Char) : ReadsWord (scanToken c text) := by
  unfold scanToken
  split
  all_goals first
    | exact readsWord_skip _ _
    | exact readsWord_punctuation text (by simp [punctuation])
    | exact scanMinus_readsWord text
    | exact scanString_readsWord text
    | exact scanSlash_readsWord text
    | skip
  split
  · next hdigit =>
    refine scanNumber_readsWord false rfl (List.cons_ne_nil _ _) ?_
    rintro d (_ | ⟨_, hd⟩)
    · exact hdigit
    · exact List.mem_takeWhile_imp hd
  · split
    · next hstart =>
      exact readsWord_token (keywordOrIdentifier_word hstart fun d hd => List.mem_takeWhile_imp hd)
    · exact readsWord_error _ _ _

/-- A token of a text stands where one of its words does. -/
theorem scanAll_words {before text : List Char} {t : Token}
    (ht : t ∈ (scanAll (utf8Len before) text).tokens) (heof : t.kind ≠ .eof) :
    ∃ front word back, before ++ text = front ++ word ++ back ∧
      t.span = ⟨utf8Len front, utf8Len (front ++ word)⟩ ∧ Word t.kind word := by
  induction text using roundInduction generalizing before with
  | nil =>
    obtain rfl := List.mem_singleton.mp ht
    exact absurd rfl heof
  | cons c text ih =>
    obtain ⟨piece, -, hscanned, htext⟩ := scanToken_piece c text
    have hwords := scanToken_readsWord c text
    rw [scanAll_cons, hscanned] at ht
    rw [hscanned] at hwords
    rw [← htext, Piece.text, List.append_assoc]
    -- the tokens of later rounds stand behind the piece
    have hlater (h : t ∈ (scanAll (utf8Len before + utf8Len piece.lexeme + utf8Len piece.gap)
        (scanToken c text).rest).tokens) :
        ∃ front word back, before ++ (piece.lexeme ++ (piece.gap ++ (scanToken c text).rest)) =
          front ++ word ++ back ∧ t.span = ⟨utf8Len front, utf8Len (front ++ word)⟩ ∧
            Word t.kind word := by
      rw [← utf8Len_append, ← utf8Len_append] at h
      obtain ⟨front, word, back, heq, hspan, hword⟩ := ih h
      exact ⟨front, word, back, by rw [← heq]; simp, hspan, hword⟩
    cases piece with
    | space c => exact hlater ht
    | comment text => exact hlater ht
    | error kind text dropped => exact hlater ht
    | token kind lexeme =>
      rcases List.mem_cons.mp ht with rfl | ht
      · refine ⟨before, lexeme, _, (List.append_assoc _ _ _).symm, ?_, hwords kind rfl⟩
        rw [utf8Len_append]
        rfl
      · exact hlater ht

/-- A word lexes to its token. -/
theorem lex_word {kind : TokenKind} {word : List Char} (h : Word kind word) (name : String) :
    lex ⟨name, String.ofList word⟩ =
      ⟨[⟨kind, ⟨0, utf8Len word⟩⟩, ⟨.eof, ⟨utf8Len word, utf8Len word⟩⟩], []⟩ := by
  obtain ⟨c, text, htext, hscan⟩ := reads_word h separated_nil
  rw [List.append_nil] at htext
  have hlex : lex ⟨name, String.ofList word⟩ = scanAll 0 word := by
    rw [lex, scanAll, String.toList_ofList]
  rw [hlex, htext, scanAll_cons, hscan, ← htext]
  show LexResult.mk
    [⟨kind, ⟨0, 0 + utf8Len word⟩⟩, ⟨.eof, ⟨0 + utf8Len word, 0 + utf8Len word⟩⟩] [] = _
  rw [Nat.zero_add]

end Lexer

open Lexer in
/-- **Slices.** The text of a token, lexed by itself, is that token again. -/
theorem lex_slice [Platform] {source : SourceText} {t : Token} (ht : t ∈ (lex source).tokens)
    (heof : t.kind ≠ .eof) :
    ∃ slice, source.slice t.span = some slice ∧
      lex ⟨source.name, String.ofList slice⟩ =
        ⟨[⟨t.kind, ⟨0, utf8Len slice⟩⟩, ⟨.eof, ⟨utf8Len slice, utf8Len slice⟩⟩], []⟩ := by
  obtain ⟨front, word, back, htext, hspan, hword⟩ := @scanAll_words _ [] _ t ht heof
  refine ⟨word, ?_, lex_word hword source.name⟩
  rw [SourceText.slice, hspan]
  exact getRange_eq_some.mpr ⟨front, back, htext, rfl, rfl⟩

end Rettp
