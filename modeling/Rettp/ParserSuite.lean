import Rettp.ParserProgress

/-!
# From block to block

At suite level the parser takes the next token, whatever it is, and then passes over tokens none
of which is the keyword of a block (`suiteItem_opens`), as long as no nesting limit has been
exceeded. So the keywords of blocks are exactly what rounds of the suite start at.
-/

namespace Rettp

variable [Platform]

/-- From `p` to `q` the next token `t` has been passed and then no keyword of a block. -/
structure Opens (p q : Parser) (t : Token) : Prop where
  passed : ∃ ts, Passed p q (t :: ts) ∧
    (q.Limited ∨ ∀ u ∈ ts, u.kind.isOuterBlockBoundary = false)
  limit : q.maxNestingDepth = p.maxNestingDepth
  errors : ∃ es, q.errors = p.errors ++ es ∧ ∀ e ∈ es, e.span ∈ p.spans

section
omit [Platform]

theorem Moved.opens {p q : Parser} (h : Moved p q) {t : Token} {live : List Token}
    (hlive : p.live = t :: live) (hrest : q.rest ≠ p.rest) : Opens p q t := by
  obtain ⟨ts, hts, hinner⟩ := h.passed
  refine ⟨?_, h.limit, h.errors⟩
  cases ts with
  | nil => exact absurd hts.rest.symm hrest
  | cons u ts =>
    have heq := hts.live_eq
    rw [hlive, List.cons_append] at heq
    obtain ⟨rfl, -⟩ := List.cons.inj heq
    exact ⟨ts, hts, hinner.imp_right fun hinner u hu => hinner u (List.mem_cons_of_mem _ hu)⟩

/-- A step over the next token, and then what a parser function does. -/
theorem Opens.of_bump {p q : Parser} {t : Token} {live : List Token} (hlive : p.live = t :: live)
    (h : Moved p.bump q) : Opens p q t := by
  obtain ⟨ts, hts, hinner⟩ := h.passed
  obtain ⟨es, hes, hspans⟩ := h.errors
  have hbump := Passed.bump hlive
  refine ⟨⟨ts, hbump.trans hts, hinner⟩, ?_, es, ?_, fun e he => hbump.spans_subset (hspans e he)⟩
  · exact h.limit.trans (congrArg (·.limit) (bump_fields p).1)
  · rw [hes, (bump_fields p).2]

theorem Opens.of_moved {p q r : Parser} {t : Token} (h : Moved p q) (hrest : q.rest = p.rest)
    (h' : Opens q r t) : Opens p r t := by
  obtain ⟨ts, hts, hinner⟩ := h'.passed
  obtain ⟨es, hes, hspans⟩ := h.errors
  obtain ⟨es', hes', hspans'⟩ := h'.errors
  obtain ⟨us, hus, -⟩ := h.passed
  refine ⟨⟨ts, ?_, hinner⟩, h'.limit.trans h.limit, es ++ es', ?_, fun e he => ?_⟩
  · have hnil : us = [] := List.append_left_eq_self.mp (hus.rest.symm.trans hrest.symm)
    have hpassed := hus.trans hts
    rw [hnil] at hpassed
    exact hpassed
  · rw [hes', hes, List.append_assoc]
  · rcases List.mem_append.mp he with he | he
    · exact hspans e he
    · exact hus.spans_subset (hspans' e he)

end

/-! ## The items of a suite -/

/-- A keyword that is there is passed, whichever it is. -/
theorem consumeStart_run {p : Parser} {t : Token} {live : List Token} (hlive : p.live = t :: live)
    {kind : TokenKind} (hkind : t.kind = kind) (description : String) :
    (consumeStart kind description).run p = (t.span.start, p.bump) := by
  subst hkind
  have htake : (take t.kind).run p = (some t, p.bump) := by
    rw [take_eq (live_cons hlive).1, hlive]
    exact if_pos (beq_self_eq_true _)
  rw [consumeStart, Recorder.run_bind, consume, Recorder.run_bind, htake]
  rfl

theorem FollowsAny.moved {α : Type} {f : ParserM α} {lacks : Parser → Bool}
    (hf : FollowsAny lacks f) (p : Parser) : Moved p (f.run p).2 :=
  (Follows.moved hf p trivial).2

theorem parseCoreBlock_opens {p : Parser} {t : Token} {live : List Token}
    (hlive : p.live = t :: live) (hkind : t.kind = .core) :
    Opens p (parseCoreBlock.run p).2 t := by
  have hrun : parseCoreBlock.run p = (coreBlockRest t.span.start).run p.bump := by
    change ((consumeStart .core "`core`") >>= coreBlockRest).run p = _
    rw [Recorder.run_bind, consumeStart_run hlive hkind]
  rw [hrun]
  exact .of_bump hlive (FollowsAny.moved (coreBlockRest_follows _) _)

theorem parsePipelineBlock_run {p : Parser} {t : Token} {live : List Token}
    (hlive : p.live = t :: live) (hkind : t.kind = .pipeline) :
    parsePipelineBlock.run p = (pipelineBlockRest t.span.start).run p.bump := by
  change ((consumeStart .pipeline "`pipeline`") >>= pipelineBlockRest).run p = _
  rw [Recorder.run_bind, consumeStart_run hlive hkind]

theorem parsePipelineBlock_opens {p : Parser} {t : Token} {live : List Token}
    (hlive : p.live = t :: live) (hkind : t.kind = .pipeline) :
    Opens p (parsePipelineBlock.run p).2 t := by
  rw [parsePipelineBlock_run hlive hkind]
  exact .of_bump hlive (FollowsAny.moved (pipelineBlockRest_follows _) _)

theorem parseTest_opens {p : Parser} {t : Token} {live : List Token} (hlive : p.live = t :: live)
    (hkind : t.kind = .test) : Opens p (parseTest.run p).2 t := by
  refine (FollowsAny.moved parseTest_follows p).opens hlive (parseTest_advances p ?_)
  rw [next_eq, hlive, ← hkind]
  rfl

/-- A token between two blocks is reported and skipped. -/
def straySuiteItem (items : SuiteItems) : ParserM SuiteItems := do
  expected "`core`, `pipeline`, `test`, or end of input"
  bump
  synchronizeSuite
  pure items

/-- A round of the suite at a token: what is added to the blocks, and how the parser goes on. -/
inductive SuiteStep (items : SuiteItems) (p : Parser) : TokenKind → SuiteItems × Parser → Prop
  | core (q : Parser) (hq : Moved p q) (hlive : q.live = p.live) (hrest : q.rest = p.rest) :
    SuiteStep items p .core
      (⟨items.blocks ++ [.core (parseCoreBlock.run q).1], true⟩, (parseCoreBlock.run q).2)
  | pipeline : SuiteStep items p .pipeline
      ({ items with blocks := items.blocks ++ [.pipeline (parsePipelineBlock.run p).1] },
        (parsePipelineBlock.run p).2)
  | test : SuiteStep items p .test
      ({ items with blocks := items.blocks ++ [.test (parseTest.run p).1] }, (parseTest.run p).2)
  | stray {kind : TokenKind} (hkind : kind.isSuiteBoundary = false) (q : Parser) (hq : Moved p q)
    (hrest : q.rest ≠ p.rest) (herrors : q.errors ≠ p.errors) : SuiteStep items p kind (items, q)

/-- A round of the suite, when the next token has been seen. -/
def suiteItemAt (items : SuiteItems) : TokenKind → ParserM SuiteItems
  | .core => do
    pushErrorIf items.hasCore .duplicateCore
    let block ← parseCoreBlock
    pure ⟨items.blocks ++ [.core block], true⟩
  | .pipeline => do
    let block ← parsePipelineBlock
    pure { items with blocks := items.blocks ++ [.pipeline block] }
  | .test => do
    let test ← parseTest
    pure { items with blocks := items.blocks ++ [.test test] }
  | _ => straySuiteItem items

theorem suiteItem_run (items : SuiteItems) {p : Parser} {kind : TokenKind}
    (hnext : p.next = some kind) : (suiteItem items).run p = (suiteItemAt items kind).run p := by
  rw [suiteItem, Recorder.run_bind, peekKind, Recorder.run_read, (head_of_next hnext).2]
  cases kind <;> rfl

theorem suiteItem_step (items : SuiteItems) {p : Parser} {kind : TokenKind}
    (hnext : p.next = some kind) : SuiteStep items p kind ((suiteItem items).run p) := by
  rw [suiteItem_run items hnext]
  unfold suiteItemAt
  split
  · have hpush := CoupledWhen.moved (H := fun _ => True)
      (pushErrorIf_coupled items.hasCore .duplicateCore) p trivial
    have hrest : ((pushErrorIf items.hasCore .duplicateCore).run p).2.rest = p.rest := by
      cases items.hasCore <;> rfl
    exact .core _ hpush.2 (by unfold Parser.live; rw [hrest]) hrest
  · exact .pipeline
  · exact .test
  · next hcore hpipeline htest =>
    have hkind : kind.isSuiteBoundary = false := by
      cases kind <;> first | rfl | exact absurd rfl hcore | exact absurd rfl hpipeline |
        exact absurd rfl htest
    have hinner : kind.isOuterBlockBoundary = false := by cases kind <;> first | rfl | cases hkind
    have hstray : CoupledWhen (· = some kind) (straySuiteItem items) := stray_of_kind hinner _
      (show Coupled synchronizeSuite from skipTo_coupled rfl rfl) _
    have hadvances : Advances (· = some kind) (straySuiteItem items) :=
      .bind_right fun _ => .bind_left (.bump fun h => (nomatch h))
    have hreports : Recorder.Reports (straySuiteItem items) := .bind_left (expected_reports _) _
    exact .stray hkind _ (hstray.moved p hnext).2 (hadvances p hnext) (hreports p)

/-- **From block to block.** A round of the suite passes over its first token and then over no
keyword of a block. -/
theorem suiteItem_opens (items : SuiteItems) {p : Parser} {t : Token} {live : List Token}
    (hlive : p.live = t :: live) : Opens p ((suiteItem items).run p).2 t := by
  have hnext : p.next = some t.kind := next_of_live hlive
  have hstep := suiteItem_step items hnext
  generalize (suiteItem items).run p = r at hstep
  generalize hkind : t.kind = kind at hstep
  cases hstep with
  | core q hq hqlive hrest =>
    exact .of_moved hq hrest (parseCoreBlock_opens (hqlive.trans hlive) hkind)
  | pipeline => exact parsePipelineBlock_opens hlive hkind
  | test => exact parseTest_opens hlive hkind
  | stray _ q hq hrest _ => exact hq.opens hlive hrest

end Rettp
