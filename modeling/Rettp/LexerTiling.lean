import Mathlib.Data.List.Perm.Basic
import Rettp.LexerRounds

/-!
# The spans of a lexed source

The pieces that the rounds of the lexer read make up the source, one after the other. So the
spans of its tokens and errors are disjoint and increasing, they begin and end between
characters, and between them there is white space, there are comments, and there are the rests
of strings that were dropped after a bad escape (`lex_tiles`).
-/

namespace Rettp

namespace Piece

/-- Pieces with the place where each one begins. -/
def placed : Nat → List Piece → List (Nat × Piece)
  | _, [] => []
  | start, piece :: pieces => (start, piece) :: placed (start + utf8Len piece.text) pieces

/-- The bytes that a placed piece gives a token or an error for. -/
def span (at_ : Nat × Piece) : SourceSpan := ⟨at_.1, at_.1 + utf8Len at_.2.lexeme⟩

/-- The bytes of a placed piece behind its span. -/
def gapSpan (at_ : Nat × Piece) : SourceSpan :=
  ⟨at_.1 + utf8Len at_.2.lexeme, at_.1 + utf8Len at_.2.text⟩

/-- The token of a round at its place. -/
def tokenAt (at_ : Nat × Piece) : Option Token :=
  match at_.2 with
  | .token kind _ => some ⟨kind, span at_⟩
  | _ => none

/-- The error of a round at its place. -/
def errorAt (at_ : Nat × Piece) : Option LexerError :=
  match at_.2 with
  | .error kind _ _ => some ⟨kind, span at_⟩
  | _ => none

/-- The spans of tokens and errors, in the order of the pieces. -/
def spanAt (at_ : Nat × Piece) : Option SourceSpan := at_.2.outcome.map fun _ => span at_

/-- What the lexer makes of pieces that begin at `start`. -/
def result : Nat → List Piece → LexResult
  | start, [] => ⟨[⟨.eof, ⟨start, start⟩⟩], []⟩
  | start, piece :: pieces =>
    Lexer.add piece.outcome ⟨start, start + utf8Len piece.lexeme⟩
      (result (start + utf8Len piece.text) pieces)

end Piece

theorem utf8Len_pos {s : List Char} (h : s ≠ []) : 0 < utf8Len s := by
  cases s with
  | nil => exact absurd rfl h
  | cons c s =>
    have := c.utf8Size_pos
    rw [utf8Len, List.map_cons, List.sum_cons]
    omega

namespace Lexer

variable [Platform]

/-- **Termination.** The rounds of the lexer reach the end of the text. -/
theorem scanAll_eq (start : Nat) (text : List Char) :
    ∃ pieces, (∀ piece ∈ pieces, piece.Ok) ∧ pieces.flatMap Piece.text = text ∧
      scanAll start text = Piece.result start pieces := by
  induction text using roundInduction generalizing start with
  | nil => exact ⟨[], by simp, rfl, rfl⟩
  | cons c text ih =>
    obtain ⟨piece, hok, hscanned, htext⟩ := scanToken_piece c text
    obtain ⟨pieces, hpieces, hrest, heq⟩ := ih (start + utf8Len piece.text)
    refine ⟨piece :: pieces, List.forall_mem_cons.mpr ⟨hok, hpieces⟩, ?_, ?_⟩
    · rw [List.flatMap_cons, hrest, htext]
    · rw [Piece.text, utf8Len_append, ← Nat.add_assoc] at heq
      rw [scanAll_cons, Piece.result, Piece.text, utf8Len_append, ← Nat.add_assoc, ← heq, hscanned]
      rfl

end Lexer

namespace Piece

theorem tokens_result (start : Nat) (pieces : List Piece) :
    (result start pieces).tokens = (placed start pieces).filterMap tokenAt ++
      [⟨.eof, ⟨start + utf8Len (pieces.flatMap text), start + utf8Len (pieces.flatMap text)⟩⟩] := by
  induction pieces generalizing start with
  | nil => rfl
  | cons piece pieces ih =>
    rw [List.flatMap_cons, utf8Len_append, ← Nat.add_assoc, result, placed]
    cases piece <;> simp [Lexer.add, outcome, List.filterMap_cons, tokenAt, span, ih]

theorem errors_result (start : Nat) (pieces : List Piece) :
    (result start pieces).errors = (placed start pieces).filterMap errorAt := by
  induction pieces generalizing start with
  | nil => rfl
  | cons piece pieces ih =>
    rw [result, placed]
    cases piece <;> simp [Lexer.add, outcome, List.filterMap_cons, errorAt, span, ih]

/-- The spans of the pieces are those of the tokens and the errors, merged. -/
theorem spans_perm (at_ : List (Nat × Piece)) :
    (at_.filterMap spanAt).Perm
      ((at_.filterMap tokenAt).map (·.span) ++ (at_.filterMap errorAt).map (·.span)) := by
  induction at_ with
  | nil => exact .refl []
  | cons a at_ ih =>
    obtain ⟨start, piece⟩ := a
    cases piece with
    | space c => exact ih
    | comment text => exact ih
    | token kind text => exact ih.cons _
    | error kind text dropped => exact (ih.cons _).trans List.perm_middle.symm

/-- A place between two characters of a text, or at one of its ends. -/
def Boundary (source : List Char) (offset : Nat) : Prop :=
  ∃ before after, source = before ++ after ∧ utf8Len before = offset

/-- Where placed pieces stand. -/
theorem placed_inside {before : List Char} {pieces : List Piece} {start : Nat} {piece : Piece}
    (h : (start, piece) ∈ placed (utf8Len before) pieces) :
    ∃ front back, before ++ pieces.flatMap text = front ++ piece.text ++ back ∧
      utf8Len front = start ∧ utf8Len before ≤ start := by
  induction pieces generalizing before with
  | nil => cases h
  | cons p pieces ih =>
    rw [placed, List.mem_cons] at h
    rcases h with h | h
    · obtain ⟨rfl, rfl⟩ := Prod.mk.inj h
      exact ⟨before, pieces.flatMap text, by simp, rfl, Nat.le_refl _⟩
    · rw [← utf8Len_append] at h
      obtain ⟨front, back, heq, hfront, hle⟩ := ih h
      rw [utf8Len_append] at hle
      exact ⟨front, back, by simpa using heq, hfront, by omega⟩

theorem spans_increasing (before : List Char) (pieces : List Piece) :
    ((placed (utf8Len before) pieces).filterMap spanAt).Pairwise fun a b => a.end_ ≤ b.start := by
  induction pieces generalizing before with
  | nil => exact .nil
  | cons piece pieces ih =>
    rw [placed, ← utf8Len_append]
    have hlater (b : SourceSpan)
        (hb : b ∈ (placed (utf8Len (before ++ piece.text)) pieces).filterMap spanAt) :
        utf8Len before + utf8Len piece.lexeme ≤ b.start := by
      obtain ⟨⟨start, p⟩, hmem, hspan⟩ := List.mem_filterMap.mp hb
      obtain ⟨-, -, -, -, hle⟩ := placed_inside hmem
      obtain ⟨-, -, rfl⟩ := Option.map_eq_some_iff.mp hspan
      rw [utf8Len_append, text, utf8Len_append] at hle
      exact Nat.le_trans (by omega) hle
    cases houtcome : spanAt (utf8Len before, piece) with
    | none =>
      rw [List.filterMap_cons_none houtcome]
      exact ih _
    | some a =>
      obtain ⟨-, -, rfl⟩ := Option.map_eq_some_iff.mp houtcome
      rw [List.filterMap_cons_some houtcome]
      exact List.pairwise_cons.mpr ⟨hlater, ih _⟩

theorem mem_of_placed {n start : Nat} {pieces : List Piece} {piece : Piece}
    (h : (start, piece) ∈ placed n pieces) : piece ∈ pieces := by
  induction pieces generalizing n with
  | nil => cases h
  | cons p pieces ih =>
    rw [placed, List.mem_cons] at h
    rcases h with h | h
    · rw [(Prod.mk.inj h).2]
      exact List.mem_cons_self
    · exact List.mem_cons_of_mem p (ih h)

theorem Ok.lexeme_ne_nil {piece : Piece} (h : piece.Ok) (houtcome : piece.outcome ≠ none) :
    piece.lexeme ≠ [] := by
  cases h with
  | space h => exact absurd rfl houtcome
  | comment hmarker hbody => exact absurd rfl houtcome
  | token htext hkind => exact htext
  | error htext => exact htext
  | badEscape htext hdropped => exact htext

/-- The spans are not empty, and they end between characters. -/
theorem span_inside {pieces : List Piece} (hok : ∀ piece ∈ pieces, piece.Ok) {s : SourceSpan}
    (h : s ∈ (placed 0 pieces).filterMap spanAt) :
    s.start < s.end_ ∧ Boundary (pieces.flatMap text) s.start ∧
      Boundary (pieces.flatMap text) s.end_ := by
  obtain ⟨⟨start, piece⟩, hmem, hspan⟩ := List.mem_filterMap.mp h
  obtain ⟨o, houtcome, rfl⟩ := Option.map_eq_some_iff.mp hspan
  have hlexeme : piece.lexeme ≠ [] := (hok piece (mem_of_placed hmem)).lexeme_ne_nil (by simp [houtcome])
  obtain ⟨front, back, heq, hfront, -⟩ := @placed_inside [] pieces start piece hmem
  rw [List.nil_append, text] at heq
  refine ⟨?_, ⟨front, piece.text ++ back, ?_, hfront⟩,
    ⟨front ++ piece.lexeme, piece.gap ++ back, ?_, ?_⟩⟩
  · have := utf8Len_pos hlexeme
    show start < start + utf8Len piece.lexeme
    omega
  · rw [heq, text, List.append_assoc, List.append_assoc]
  · rw [heq]
    simp
  · rw [utf8Len_append, hfront]
    rfl

/-- Every byte is in the span of a piece or behind it. -/
theorem covered (start : Nat) (pieces : List Piece) (offset : Nat) (hstart : start ≤ offset)
    (hend : offset < start + utf8Len (pieces.flatMap text)) :
    ∃ at_ ∈ placed start pieces, (span at_).start ≤ offset ∧ offset < (gapSpan at_).end_ := by
  induction pieces generalizing start with
  | nil =>
    have : utf8Len ([].flatMap text) = 0 := rfl
    omega
  | cons piece pieces ih =>
    rw [List.flatMap_cons, utf8Len_append] at hend
    rw [placed]
    by_cases hpiece : offset < start + utf8Len piece.text
    · exact ⟨(start, piece), List.mem_cons_self, hstart, hpiece⟩
    · obtain ⟨at_, hmem, h⟩ := ih (start + utf8Len piece.text) (by omega) (by omega)
      exact ⟨at_, List.mem_cons_of_mem _ hmem, h⟩

end Piece

/-- The bytes of a source that no token and no error spans: a white space, a comment, or the rest
of a string that is dropped after a bad escape. -/
inductive Gap (errors : List LexerError) : Nat → Piece → Prop
  | space {start : Nat} {c : Char} (h : c ∈ [' ', '\r', '\t', '\n']) : Gap errors start (.space c)
  | comment {start : Nat} {marker body : List Char} (hmarker : marker = ['#'] ∨ marker = ['/', '/'])
      (hbody : '\n' ∉ body) : Gap errors start (.comment (marker ++ body))
  | dropped {start : Nat} {c : Char} {text dropped : List Char}
      (hdropped : '\n' ∉ dropped ∧ '"' ∉ dropped.dropLast)
      (herror : ⟨.invalidEscapeSequence c, ⟨start, start + utf8Len text⟩⟩ ∈ errors) :
      Gap errors start (.error (.invalidEscapeSequence c) text dropped)

/-- A byte of a piece is in its span, or in a gap. -/
theorem Piece.Ok.covers {start : Nat} {pieces : List Piece} {piece : Piece} (hok : piece.Ok)
    (hmem : (start, piece) ∈ Piece.placed 0 pieces) {offset : Nat} (hstart : start ≤ offset)
    (hend : offset < start + utf8Len piece.text) :
    (∃ s ∈ (Piece.placed 0 pieces).filterMap Piece.spanAt, s.start ≤ offset ∧ offset < s.end_) ∨
      Gap ((Piece.placed 0 pieces).filterMap Piece.errorAt) start piece ∧
        start + utf8Len piece.lexeme ≤ offset := by
  by_cases hspan : offset < start + utf8Len piece.lexeme
  · left
    have houtcome : ∃ o, piece.outcome = some o := by
      cases hok with
      | space h => exact absurd hspan (Nat.not_lt.mpr hstart)
      | comment hmarker hbody => exact absurd hspan (Nat.not_lt.mpr hstart)
      | token htext hkind => exact ⟨_, rfl⟩
      | error htext => exact ⟨_, rfl⟩
      | badEscape htext hdropped => exact ⟨_, rfl⟩
    obtain ⟨o, ho⟩ := houtcome
    exact ⟨_, List.mem_filterMap.mpr ⟨_, hmem, Option.map_eq_some_iff.mpr ⟨o, ho, rfl⟩⟩, hstart, hspan⟩
  · right
    refine ⟨?_, Nat.not_lt.mp hspan⟩
    rw [Piece.text, utf8Len_append] at hend
    cases hok with
    | space h => exact .space h
    | comment hmarker hbody => exact .comment hmarker hbody
    | token htext hkind => exact absurd hend (by simpa [Piece.gap, utf8Len] using hspan)
    | error htext => exact absurd hend (by simpa [Piece.gap, utf8Len] using hspan)
    | badEscape htext hdropped =>
      exact .dropped hdropped (List.mem_filterMap.mpr ⟨_, hmem, rfl⟩)

theorem TokenKind.Scannable.ne_eof {kind : TokenKind} (h : kind.Scannable) : kind ≠ .eof := by
  rintro rfl
  exact h

variable [Platform]

/-- **Lexer spans tile the source.** -/
theorem lex_tiles (source : SourceText) :
    ∃ (tokens : List Token) (spans : List SourceSpan) (pieces : List Piece),
      let text := source.content.toList
      let errors := (lex source).errors
      (lex source).tokens = tokens ++ [⟨.eof, ⟨utf8Len text, utf8Len text⟩⟩] ∧
      (∀ t ∈ tokens, t.kind ≠ .eof) ∧
      spans.Perm (tokens.map (·.span) ++ errors.map (·.span)) ∧
      spans.Pairwise (fun a b => a.end_ ≤ b.start) ∧
      (∀ s ∈ spans, s.start < s.end_ ∧ Piece.Boundary text s.start ∧ Piece.Boundary text s.end_) ∧
      pieces.flatMap Piece.text = text ∧
      (∀ offset < utf8Len text, (∃ s ∈ spans, s.start ≤ offset ∧ offset < s.end_) ∨
        ∃ at_ ∈ Piece.placed 0 pieces, Gap errors at_.1 at_.2 ∧
          (Piece.gapSpan at_).start ≤ offset ∧ offset < (Piece.gapSpan at_).end_) := by
  obtain ⟨pieces, hok, htext, hlex⟩ := Lexer.scanAll_eq 0 source.content.toList
  have htokens := Piece.tokens_result 0 pieces
  have herrors := Piece.errors_result 0 pieces
  rw [← hlex, htext, Nat.zero_add] at htokens
  rw [← hlex] at herrors
  refine ⟨_, (Piece.placed 0 pieces).filterMap Piece.spanAt, pieces, htokens, ?_, ?_,
    Piece.spans_increasing [] pieces, ?_, htext, ?_⟩
  · intro t ht
    obtain ⟨⟨start, piece⟩, hmem, htoken⟩ := List.mem_filterMap.mp ht
    cases hok piece (Piece.mem_of_placed hmem) with
    | token htext hkind =>
      obtain rfl := Option.some.inj htoken
      exact hkind.ne_eof
    | _ => cases htoken
  · rw [show (lex source).errors = _ from herrors]
    exact Piece.spans_perm _
  · intro s hs
    rw [← htext]
    exact Piece.span_inside hok hs
  · intro offset hoffset
    rw [← htext] at hoffset
    -- an offset lies in a piece, which has a span or is a gap
    obtain ⟨⟨start, piece⟩, hmem, hstart, hend⟩ :=
      Piece.covered 0 pieces offset (Nat.zero_le _) (by omega)
    rw [show (lex source).errors = _ from herrors]
    refine ((hok piece (Piece.mem_of_placed hmem)).covers hmem hstart hend).imp_right fun h => ?_
    exact ⟨(start, piece), hmem, h.1, h.2, hend⟩

end Rettp
