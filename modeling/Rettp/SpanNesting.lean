import Rettp.ErrorSpans
import Rettp.LexerSlices
import Rettp.ParserSpans
import Rettp.Resynchronization

/-!
# Spans nest

The tokens of a source stand one after the other and end in an end-of-input token (`lex_tokens`),
so the spans of a parsed source nest, and each leaf cuts its own token out of the source
(`spans_nest`). Errors and the suite have spans inside the source in any case: they are put
together from the spans of tokens.
-/

namespace Rettp

/-- A span that cuts a text out of a source. -/
structure SourceText.Contains (source : SourceText) (span : SourceSpan) : Prop where
  ordered : span.start ≤ span.end_
  start : Piece.Boundary source.content.toList span.start
  end_ : Piece.Boundary source.content.toList span.end_

theorem Piece.Boundary.le_len {text : List Char} {offset : Nat} (h : Boundary text offset) :
    offset ≤ utf8Len text := by
  obtain ⟨before, after, rfl, rfl⟩ := h
  rw [utf8Len_append]
  exact Nat.le_add_right _ _

namespace Piece

/-- The spans of the tokens are among those of the pieces. -/
theorem tokens_sublist (at_ : List (Nat × Piece)) :
    List.Sublist ((at_.filterMap tokenAt).map (·.span)) (at_.filterMap spanAt) := by
  induction at_ with
  | nil => exact .slnil
  | cons a at_ ih =>
    obtain ⟨start, piece⟩ := a
    cases piece with
    | space c => exact ih
    | comment text => exact ih
    | token kind text => exact ih.cons_cons _
    | error kind text dropped => exact ih.cons _

end Piece

variable [Platform]

/-! ## The tokens of a source -/

/-- **Tokens stand in the source**, one after the other. -/
theorem lex_tokens (source : SourceText) :
    TokenStream (lex source).tokens ∧ ∀ t ∈ (lex source).tokens, source.Contains t.span := by
  obtain ⟨pieces, hok, htext, hlex⟩ := Lexer.scanAll_eq 0 source.content.toList
  have htokens := Piece.tokens_result 0 pieces
  rw [← hlex, htext, Nat.zero_add] at htokens
  change (lex source).tokens = _ at htokens
  have hsublist := Piece.tokens_sublist (Piece.placed 0 pieces)
  have hinside (t : Token) (ht : t ∈ (Piece.placed 0 pieces).filterMap Piece.tokenAt) :=
    Piece.span_inside hok (hsublist.subset (List.mem_map_of_mem ht))
  rw [htext] at hinside
  have hcontains : ∀ t ∈ (lex source).tokens, source.Contains t.span := by
    rw [htokens, List.forall_mem_append]
    refine ⟨fun t ht => ?_, List.forall_mem_singleton.mpr ?_⟩
    · obtain ⟨hlt, hstart, hend⟩ := hinside t ht
      exact ⟨Nat.le_of_lt hlt, hstart, hend⟩
    · have hend : Piece.Boundary source.content.toList (utf8Len source.content.toList) :=
        ⟨_, [], (List.append_nil _).symm, rfl⟩
      exact ⟨Nat.le_refl _, hend, hend⟩
  refine ⟨⟨⟨?_, fun t ht => (hcontains t ht).ordered⟩, ?_⟩, hcontains⟩
  · rw [htokens, List.pairwise_append]
    refine ⟨List.pairwise_map.mp ((Piece.spans_increasing [] pieces).sublist hsublist),
      List.pairwise_singleton _ _, fun t ht eof heof => ?_⟩
    rw [List.mem_singleton.mp heof]
    exact (hinside t ht).2.2.le_len
  · rw [htokens]
    exact ⟨_, List.mem_append_right _ (List.mem_singleton_self _), rfl⟩

/-! ## Errors and suites -/

section
omit [Platform]

variable {p : Parser}

/-- In front of the first token only the spans of tokens are seen. -/
theorem TokenStream.spans (h : TokenStream p.rest) (hprevious : p.previous = none) :
    ∀ s ∈ p.spans, ∃ t ∈ p.rest, t.span = s := by
  intro s hs
  unfold Parser.spans at hs
  rw [hprevious, Option.toList_none, List.nil_append] at hs
  rcases List.mem_append.mp hs with hs | hs
  · obtain ⟨t, ht, rfl⟩ := List.mem_map.mp hs
    exact ⟨t, (List.takeWhile_sublist _).subset ht, rfl⟩
  · rw [List.mem_singleton.mp hs]
    unfold Parser.endSpan
    split
    · next t rest hdrop =>
      exact ⟨t, (List.dropWhile_suffix _).subset (hdrop ▸ List.mem_cons_self), rfl⟩
    · next hdrop =>
      obtain ⟨t, ht, heof⟩ := h.ends
      have hlive := List.dropWhile_eq_nil_iff.mp hdrop t ht
      rw [heof] at hlive
      cases hlive

/-- No token starts in front of the first one. -/
theorem TokenStream.first_le (h : TokenStream p.rest) {t : Token} (ht : t ∈ p.rest) :
    p.rest.head?.elim 0 (·.span.start) ≤ t.span.start :=
  (h.ordered.inside ht).1

end

/-- **Spans stay inside the source**, whatever the source is. -/
theorem parse_contains {source : SourceText} {p : Parser} (hrest : p.rest = (lex source).tokens)
    (hprevious : p.previous = none) (hnone : p.errors = []) :
    (∀ e ∈ p.parse.errors, source.Contains e.span) ∧ source.Contains p.parse.ast.span := by
  obtain ⟨hstream, hcontains⟩ := lex_tokens source
  rw [← hrest] at hstream hcontains
  have hspans : ∀ s ∈ p.spans, source.Contains s := by
    intro s hs
    obtain ⟨t, ht, rfl⟩ := hstream.spans hprevious s hs
    exact hcontains t ht
  have hsuite : source.Contains p.parse.ast.span := by
    obtain ⟨hstart, hend⟩ := parse_span hnone
    obtain ⟨first, rest, hfirst⟩ : ∃ first rest, p.rest = first :: rest := by
      obtain ⟨t, ht, -⟩ := hstream.ends
      exact List.exists_cons_of_ne_nil (List.ne_nil_of_mem ht)
    have hboundary : Piece.Boundary source.content.toList p.parse.ast.span.start := by
      rw [hstart, hfirst]
      exact (hcontains first (hfirst ▸ List.mem_cons_self)).start
    rcases hend with hend | ⟨span, ⟨⟨t, ht, hspan⟩, ⟨s, hs, hplace⟩, hordered⟩, hend⟩
    · exact ⟨hend.ge, hboundary, hend ▸ hboundary⟩
    · refine ⟨?_, hboundary, ?_⟩
      · rw [hstart, hend]
        rw [hspan] at hordered
        exact (hstream.first_le ((List.takeWhile_sublist _).subset ht)).trans hordered
      · rw [hend]
        rcases hplace with hplace | hplace
        · exact hplace ▸ (hspans s hs).start
        · exact hplace ▸ (hspans s hs).end_
  refine ⟨fun e he => ?_, hsuite⟩
  rcases parse_errors_seen hnone e he with hseen | hspan
  · exact hspans _ hseen
  · rw [hspan]
    exact hsuite

/-! ## Nesting -/

/-- **Spans nest.** -/
theorem spans_nest (limit : Nat) (source : SourceText) :
    let tokens := (lex source).tokens
    let result := (Parser.limited limit tokens).parse
    ((lex source).errors = [] → result.errors = [] → ∀ node ∈ result.ast.node.nodes,
      (∃ own, own <:+: tokens ∧ own ≠ [] ∧ node.Covers own ∧ node.span = hull own) ∧
      (∀ child ∈ node.children,
        node.span.start ≤ child.span.start ∧ child.span.end_ ≤ node.span.end_) ∧
      node.children.Pairwise (fun a b => a.span.end_ ≤ b.span.start) ∧
      ∀ means span, node = .leaf means span → ∃ t ∈ tokens, ∃ slice,
        means t.kind ∧ t.span = span ∧ source.slice span = some slice ∧
          lex ⟨source.name, String.ofList slice⟩ =
            ⟨[⟨t.kind, ⟨0, utf8Len slice⟩⟩, ⟨.eof, ⟨utf8Len slice, utf8Len slice⟩⟩], []⟩) ∧
    (∀ e ∈ result.errors, source.Contains e.span) ∧ source.Contains result.ast.span := by
  intro tokens result
  obtain ⟨hstream, -⟩ := lex_tokens source
  refine ⟨fun _ hnone => ?_, parse_contains rfl rfl rfl⟩
  obtain ⟨ts, hfront, hlive, hcovers⟩ := parse_covers (p := Parser.limited limit tokens) hstream
    rfl hnone
  have hordered : Ordered ts := hstream.ordered.sublist hfront.sublist
  intro node hnode
  obtain ⟨own, hown, hnode⟩ := covers_nodes hcovers node hnode
  have hownOrdered := hordered.sublist hown.sublist
  refine ⟨⟨own, hown.trans hfront.isInfix, hnode.ne_nil, hnode, hnode.span_eq⟩,
    hnode.children_inside hownOrdered, hnode.children_increasing hownOrdered, ?_⟩
  rintro means span rfl
  rw [SpanNode.Covers] at hnode
  obtain ⟨t, rfl, hmeans, rfl⟩ := hnode
  have hmem : t ∈ ts := hown.subset (List.mem_singleton_self t)
  have heof : t.kind ≠ .eof := by
    intro heq
    have hkind := hlive t hmem
    rw [heq] at hkind
    cases hkind
  obtain ⟨slice, hslice, hlex⟩ := lex_slice (hfront.subset hmem) heof
  exact ⟨t, hfront.subset hmem, slice, hmeans, rfl, hslice, hlex⟩

omit [Platform] in
/-- A test without errors: its nodes lie inside each other. -/
theorem spans_nest_status :
    letI := asciiPlatform
    let source := ⟨"", "test \"t\" \x7b request GET \"/\" expect \x7b status = 200, \x7d \x7d"⟩
    let result := (Parser.limited defaultMaxNestingDepth (lex source).tokens).parse
    result.ast.span = ⟨0, 53⟩ ∧ ∀ node ∈ result.ast.node.nodes, ∀ child ∈ node.children,
      node.span.start ≤ child.span.start ∧ child.span.end_ ≤ node.span.end_ :=
  letI := asciiPlatform
  ⟨by decide +kernel, fun node hnode =>
    ((spans_nest _ _).1 (by decide +kernel) (by decide +kernel) node hnode).2.1⟩

end Rettp
