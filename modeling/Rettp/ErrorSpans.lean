import Rettp.ParserSuite

/-!
# The spans of errors

Whatever the tokens are, the parser records its errors at tokens that it sees, or at the whole
suite (`parse_errors_seen`). The suite reaches from the first token on to where some token starts
or ends (`parse_span`): a block starts at its keyword, and it is closed behind the last token that
was passed, if that is not in front of its keyword.
-/

namespace Rettp

variable [Platform]

/-- A span from the start of a token that is ahead on to where a token starts or ends. -/
structure Parser.Reaches (p : Parser) (span : SourceSpan) : Prop where
  start : ∃ t ∈ p.live, span.start = t.span.start
  end_ : ∃ s ∈ p.spans, span.end_ = s.start ∨ span.end_ = s.end_
  ordered : span.start ≤ span.end_

section
omit [Platform]

theorem mem_spans_of_live {p : Parser} {t : Token} (h : t ∈ p.live) : t.span ∈ p.spans :=
  List.mem_append_left _ (List.mem_map_of_mem (List.mem_append_right _ h))

/-- A construct that starts at a token and is closed somewhere behind it. -/
theorem Passed.reaches {p q : Parser} {ts : List Token} {t : Token} (h : Passed p q ts)
    (ht : t ∈ p.live) : p.Reaches (q.spanFrom t.span.start) := by
  refine ⟨⟨t, ht, rfl⟩, ?_, ?_⟩
  · unfold Parser.spanFrom
    cases hprevious : q.previous with
    | none => exact ⟨t.span, mem_spans_of_live ht, .inl rfl⟩
    | some u =>
      rcases Nat.le_total t.span.start u.span.end_ with hle | hle
      · have hu : u.span ∈ q.spans := mem_spans (.inr ⟨u, hprevious, rfl⟩)
        exact ⟨u.span, h.spans_subset hu, .inr (Nat.max_eq_left hle)⟩
      · exact ⟨t.span, mem_spans_of_live ht, .inl (Nat.max_eq_right hle)⟩
  · unfold Parser.spanFrom
    cases q.previous with
    | none => exact Nat.le_refl _
    | some u => exact Nat.le_max_right _ _

/-- What is ahead later has been ahead before. -/
theorem Passed.reaches_before {p q : Parser} {ts : List Token} {span : SourceSpan}
    (h : Passed p q ts) (hspan : q.Reaches span) : p.Reaches span := by
  obtain ⟨⟨t, ht, hstart⟩, ⟨s, hs, hend⟩, hordered⟩ := hspan
  refine ⟨⟨t, ?_, hstart⟩, ⟨s, h.spans_subset hs, hend⟩, hordered⟩
  rw [h.live_eq]
  exact List.mem_append_right _ ht

end

/-! ## Blocks -/

/-- Where a block starts at its keyword, it starts at the next token. -/
theorem spanFrom_keyword {p q : Parser} {t : Token} {live : List Token}
    (hlive : p.live = t :: live) {kind : TokenKind} (hkind : t.kind = kind) (description : String)
    {span : SourceSpan} (h : span = q.spanFrom ((consumeStart kind description).run p).1) :
    span = q.spanFrom t.span.start := by
  rwa [consumeStart_run hlive hkind] at h

/-- A round of the suite adds at most a block, which starts at the next token. -/
theorem suiteItem_blocks (items : SuiteItems) {p : Parser} {t : Token} {live : List Token}
    (hlive : p.live = t :: live) :
    ∀ block ∈ ((suiteItem items).run p).1.blocks, block ∈ items.blocks ∨
      block.span = ((suiteItem items).run p).2.spanFrom t.span.start := by
  have hnext : p.next = some t.kind := next_of_live hlive
  have hstep := suiteItem_step items hnext
  generalize (suiteItem items).run p = r at hstep
  generalize hkind : t.kind = kind at hstep
  intro block hblock
  cases hstep with
  | core q hq hqlive hrest =>
    refine (List.mem_append.mp hblock).imp_right fun hnew => ?_
    rw [List.mem_singleton.mp hnew]
    exact spanFrom_keyword (hqlive.trans hlive) hkind "`core`" rfl
  | pipeline =>
    refine (List.mem_append.mp hblock).imp_right fun hnew => ?_
    rw [List.mem_singleton.mp hnew]
    exact spanFrom_keyword hlive hkind "`pipeline`" rfl
  | test =>
    refine (List.mem_append.mp hblock).imp_right fun hnew => ?_
    rw [List.mem_singleton.mp hnew]
    exact spanFrom_keyword hlive hkind "`test`" rfl
  | stray _ q hq hrest _ => exact .inl hblock

/-! ## Suites -/

/-- From `p` to `q` blocks have been collected, and errors have been recorded. -/
structure Collected (p : Parser) (items : SuiteItems) (q : Parser) : Prop where
  passed : ∃ ts, Passed p q ts
  blocks : ∀ block ∈ items.blocks, p.Reaches block.span
  errors : ∀ e ∈ q.errors, e.span ∈ p.spans

theorem suiteItem_collected {p q : Parser} {items : SuiteItems} (h : Collected p items q)
    {t : Token} {live : List Token} (hlive : q.live = t :: live) :
    Collected p ((suiteItem items).run q).1 ((suiteItem items).run q).2 := by
  obtain ⟨ts, hpassed⟩ := h.passed
  have hopens := suiteItem_opens items hlive
  obtain ⟨us, hround, -⟩ := hopens.passed
  refine ⟨⟨_, hpassed.trans hround⟩, fun block hblock => ?_, fun e he => ?_⟩
  · rcases suiteItem_blocks items hlive block hblock with hold | hspan
    · exact h.blocks block hold
    · rw [hspan]
      exact hpassed.reaches_before (hround.reaches (hlive ▸ List.mem_cons_self))
  · obtain ⟨es, hes, hspans⟩ := hopens.errors
    rw [hes] at he
    rcases List.mem_append.mp he with he | he
    · exact h.errors e he
    · exact hpassed.spans_subset (hspans e he)

theorem items_collected {p : Parser} (hnone : p.errors = []) : Collected p p.items.1 p.items.2 := by
  refine (untilNext_ends (I := Collected p) (fun items q h hbefore => ?_) suiteItem_advances
    ⟨⟨[], .refl p⟩, List.forall_mem_nil _, ?_⟩).1
  · obtain ⟨kind, hnext, -⟩ := hbefore
    obtain ⟨t, live, hlive, -⟩ := live_of_next hnext
    obtain ⟨us, hround, -⟩ := (suiteItem_opens items hlive).passed
    exact ⟨suiteItem_collected h hlive, _, hround⟩
  · rw [hnone]
    exact List.forall_mem_nil _

/-- **Errors are seen.** An error of the parser is at a token, or at the whole suite. -/
theorem parse_errors_seen {p : Parser} (hnone : p.errors = []) :
    ∀ e ∈ p.parse.errors, e.span ∈ p.spans ∨ e.span = p.parse.ast.span := by
  intro e he
  have hseen := (items_collected hnone).errors
  change e ∈ ((checkBlocks p.items.1.blocks p.parse.ast.span).run p.items.2).2.errors at he
  rw [checkBlocks, Recorder.run_bind, Recorder.run_read] at he
  dsimp only at he
  split at he
  · rcases List.mem_append.mp he with he | he
    · exact .inl (hseen e he)
    · exact .inr (congrArg (·.span) (List.mem_singleton.mp he))
  · exact .inl (hseen e he)

/-- The suite starts at the next token and ends with its last block, if there is one. -/
theorem parse_span {p : Parser} (hnone : p.errors = []) :
    p.parse.ast.span.start = p.rest.head?.elim 0 (·.span.start) ∧
      (p.parse.ast.span.end_ = p.parse.ast.span.start ∨
        ∃ span, p.Reaches span ∧ p.parse.ast.span.end_ = span.end_) := by
  have hspan : p.parse.ast.span =
      suiteSpan (p.rest.head?.elim 0 (·.span.start)) p.items.1.blocks := rfl
  rw [hspan, suiteSpan]
  cases hlast : p.items.1.blocks.getLast? with
  | none => exact ⟨rfl, .inl rfl⟩
  | some last =>
    have hreaches := (items_collected hnone).blocks last (List.mem_of_getLast? hlast)
    exact ⟨rfl, .inr ⟨last.span, hreaches, rfl⟩⟩

end Rettp
