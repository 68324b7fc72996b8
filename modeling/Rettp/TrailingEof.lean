import Mathlib.Data.List.TakeWhile
import Rettp.Resynchronization

/-!
# The trailing end-of-input token

A parse of tokens that end in an end-of-input token and a parse without that token run in
lockstep, as long as no type of a field is missing at the end (`suiteLacksType`): there the one
records an error for the type and the other does not, and the two lists of errors never have the
same length again.
-/

namespace Rettp

variable [Platform]

/-- The token for the end of input after some tokens. -/
def eofAfter (tokens : List Token) : Token :=
  let last := tokens.getLast?.elim 0 (·.span.end_)
  ⟨.eof, ⟨last, last⟩⟩

/-- The second parser has an end-of-input token after the tokens of the first one; where a type
was missing it has recorded more errors. -/
structure EofAdded (eof : Token) (missing : Bool) (depth : Nat) (p p' : Parser) : Prop where
  rest : p'.rest = p.rest ++ [eof]
  live : ∀ t ∈ p.rest, t.kind.isEof = false
  previous : p.previous = p'.previous
  nesting : p.nesting = p'.nesting
  depth : p.nestingDepth = depth
  span : eof.span = p.endSpan
  errors : if missing then p.errors ≠ [] ∧ p.errors.length < p'.errors.length
    else p.errors = p'.errors

section
omit [Platform]

variable {eof : Token} {missing : Bool} {d : Nat} {p p' : Parser}

namespace EofAdded

theorem live_left (h : EofAdded eof missing d p p') : p.live = p.rest :=
  List.takeWhile_eq_self_iff.mpr fun t ht => by rw [h.live t ht]; rfl

theorem live_right (heof : eof.kind = .eof) (h : EofAdded eof missing d p p') : p'.live = p.rest := by
  unfold Parser.live
  rw [h.rest, List.takeWhile_append_of_pos fun t ht => by rw [h.live t ht]; rfl,
    List.takeWhile_cons_of_neg (by rw [heof]; exact Bool.false_ne_true), List.append_nil]

theorem bump (heof : eof.kind = .eof) (h : EofAdded eof missing d p p') :
    EofAdded eof missing d p.bump p'.bump := by
  have hlive := h.live_left
  have hlive' := h.live_right heof
  have hdepth : p.bump.nestingDepth = p.nestingDepth := congrArg (·.depth) (bump_fields p).1
  cases hrest : p.rest with
  | nil =>
    rw [hrest] at hlive hlive'
    rw [bump_of_live_nil hlive, bump_of_live_nil hlive']
    exact h
  | cons t rest =>
    rw [hrest] at hlive hlive'
    have hcons := (bump_of_live_cons hlive).2.2
    have hcons' := (bump_of_live_cons hlive').2.2
    rw [h.rest, hcons, List.cons_append] at hcons'
    refine ⟨(List.cons.inj hcons').2.symm, fun u hu => h.live u ?_, ?_, ?_, hdepth.trans h.depth,
      h.span.trans (bump_endSpan p).symm, ?_⟩
    · rw [hcons]
      exact List.mem_cons_of_mem _ hu
    · rw [(bump_of_live_cons hlive).2.1, (bump_of_live_cons hlive').2.1]
    · rw [(bump_fields p).1, (bump_fields p').1, h.nesting]
    · rw [(bump_fields p).2, (bump_fields p').2]
      exact h.errors

theorem report (h : EofAdded eof missing d p p') (kind : ParserErrorKind) (span : SourceSpan) :
    EofAdded eof missing d (p.report kind span) (p'.report kind span) := by
  refine ⟨h.rest, h.live, h.previous, h.nesting, h.depth, h.span, ?_⟩
  have herrors := h.errors
  change if missing then p.errors ++ [_] ≠ [] ∧ (p.errors ++ [_]).length < (p'.errors ++ [_]).length
    else p.errors ++ [_] = p'.errors ++ [_]
  split
  · next hmissing =>
    rw [if_pos hmissing] at herrors
    refine ⟨List.append_ne_nil_of_left_ne_nil herrors.1 _, ?_⟩
    rw [List.length_append, List.length_append]
    exact Nat.add_lt_add_right herrors.2 _
  · next hmissing =>
    rw [if_neg hmissing] at herrors
    rw [herrors]

theorem coupling (heof : eof.kind = .eof) (missing : Bool) : Coupling (EofAdded eof missing) where
  live h := h.live_left.trans (h.live_right heof).symm
  endSpan {d p p'} h := by
    rw [← h.span]
    unfold Parser.endSpan
    rw [h.rest, List.dropWhile_append_of_pos fun t ht => by rw [h.live t ht]; rfl,
      List.dropWhile_cons_of_neg (by rw [heof]; exact Bool.false_ne_true)]
  previous h := h.previous
  nesting h := h.nesting
  depth h := h.depth
  bump h _ := h.bump heof
  report kind _ h _ := h.report kind _
  atDepth n h := ⟨h.rest, h.live, h.previous,
    congrArg (fun x : Nesting => (⟨n, x.limit⟩ : Nesting)) h.nesting, rfl, h.span, h.errors⟩

end EofAdded

end

variable {eof : Token} {missing : Bool} {d : Nat} {p p' : Parser}

/-- A field whose type is missing before an end-of-input token: one more error. -/
theorem typedField_at_eof (heof : eof.kind = .eof) (hrest : p.rest = [eof])
    (parseNested : ParserM ObjectAssertionAst) (name : Spanned String) :
    (parseTypedField parseNested name).run p =
      (⟨name, none, none, none, none, p.spanFrom name.span.start⟩,
        (p.report (.unexpectedEof "assertion type") p.currentSpan).report .missingFieldAssertion
          p.currentSpan) := by
  obtain ⟨previous, rest, depth, limit, errors⟩ := p
  obtain ⟨kind, span⟩ := eof
  cases heof
  cases hrest
  rfl

theorem EofAdded.watching (heof : eof.kind = .eof) : Watching (EofAdded eof) where
  coupling := EofAdded.coupling heof
  rest h _ := by
    rw [h.rest]
    exact List.append_ne_nil_of_right_ne_nil _ (List.cons_ne_nil _ _)
  missing {missing d p p'} parseNested name h hnil := by
    have hcoupling := EofAdded.coupling heof missing
    have hrest' : p'.rest = [eof] := by rw [h.rest, hnil]; rfl
    rw [typedField_at_end hnil, typedField_at_eof heof hrest', ← hcoupling.spanFrom h,
      ← hcoupling.currentSpan h]
    refine ⟨rfl, h.rest, h.live, h.previous, h.nesting, h.depth, h.span, ?_⟩
    -- the error for the type is recorded on one side only
    refine (if_pos rfl).mpr ⟨List.append_ne_nil_of_right_ne_nil _ (List.cons_ne_nil _ _), ?_⟩
    have hle : p.errors.length ≤ p'.errors.length := by
      have herrors := h.errors
      split at herrors
      · exact Nat.le_of_lt herrors.2
      · rw [herrors]
    simp only [Parser.report, List.length_append, List.length_singleton]
    omega

/-! ## The suite -/

theorem blockRest_eof (heof : eof.kind = .eof) (h : EofAdded eof missing d p p') {t : Token}
    {live : List Token} (hlive : p.live = t :: live) {kind : TokenKind} (hkind : t.kind = kind)
    (description : String) {α : Type} {f : Nat → ParserM α} {lacks : Parser → Bool}
    (hf : ∀ start, FollowsAny lacks (f start)) :
    let block := consumeStart kind description >>= f
    (block.run p).1 = (block.run p').1 ∧
      EofAdded eof (missing || after (consumeStart kind description) (fun _ => lacks) p) d
        (block.run p).2 (block.run p').2 := by
  have hlive' := ((EofAdded.coupling heof missing).live h).symm.trans hlive
  dsimp only
  rw [Recorder.run_bind, Recorder.run_bind, after, consumeStart_run hlive hkind,
    consumeStart_run hlive' hkind]
  exact (hf _).keeps (EofAdded.watching heof) (h.bump heof) trivial

/-- No type is missing in front of a token between two blocks. -/
theorem blockLacksType_stray (items : SuiteItems) {kind : TokenKind} (hhead : p.head = some kind)
    (hkind : kind.isSuiteBoundary = false) : blockLacksType items p = false := by
  rw [blockLacksType, hhead]
  cases kind <;> first | rfl | cases hkind

theorem suiteItem_eof (heof : eof.kind = .eof) (items : SuiteItems)
    (h : EofAdded eof missing d p p') (hbefore : Before (fun _ => false) p.next) :
    ((suiteItem items).run p).1 = ((suiteItem items).run p').1 ∧
      EofAdded eof (missing || blockLacksType items p) d ((suiteItem items).run p).2
        ((suiteItem items).run p').2 := by
  have hwatching := EofAdded.watching heof
  have hcoupling := EofAdded.coupling heof missing
  obtain ⟨kind, hnext, -⟩ := hbefore
  have hnext' := (hcoupling.next h).symm.trans hnext
  have hhead := (head_of_next hnext).2
  rw [suiteItem_run items hnext, suiteItem_run items hnext']
  obtain ⟨t, live, hlive, hkind⟩ := live_of_next hnext
  unfold suiteItemAt
  split
  · rw [blockLacksType, hhead]
    have hpush : Coupled (pushErrorIf items.hasCore .duplicateCore) := pushErrorIf_coupled _ _
    obtain ⟨-, hq⟩ := hpush.keeps hcoupling d p p' ⟨h, trivial⟩
    have hlive' : ((pushErrorIf items.hasCore .duplicateCore).run p).2.live = t :: live := by
      rw [← hlive]
      cases items.hasCore <;> rfl
    obtain ⟨heq, hr⟩ := blockRest_eof heof hq hlive' hkind "`core`" coreBlockRest_follows
    exact ⟨congrArg (fun block => (⟨items.blocks ++ [.core block], true⟩ : SuiteItems)) heq, hr⟩
  · rw [blockLacksType, hhead]
    obtain ⟨heq, hr⟩ := blockRest_eof heof h hlive hkind "`pipeline`" pipelineBlockRest_follows
    exact ⟨congrArg (fun block => ({ items with blocks := items.blocks ++ [.pipeline block] } :
      SuiteItems)) heq,
      hr⟩
  · rw [blockLacksType, hhead]
    have htest : FollowsAny testLacksType parseTest := parseTest_follows
    obtain ⟨heq, hr⟩ := htest.keeps hwatching h trivial
    exact ⟨congrArg (fun test => ({ items with blocks := items.blocks ++ [.test test] } :
      SuiteItems)) heq, hr⟩
  · next hcore hpipeline htest =>
    have hstray : kind.isSuiteBoundary = false := by
      cases kind <;> first | rfl | exact absurd rfl hcore | exact absurd rfl hpipeline |
        exact absurd rfl htest
    have hinner : kind.isOuterBlockBoundary = false := by
      cases kind <;> first | rfl | cases hstray
    have hskips : CoupledWhen (· = some kind) (straySuiteItem items) := stray_of_kind hinner _
      (show Coupled synchronizeSuite from skipTo_coupled rfl rfl) _
    obtain ⟨heq, hr⟩ := hskips.keeps hcoupling d p p' ⟨h, hnext⟩
    rw [blockLacksType_stray items hhead hstray, Bool.or_false]
    exact ⟨heq, hr⟩

/-- The rounds of a suite, with and without the token. -/
theorem suite_eof (heof : eof.kind = .eof) (h : EofAdded eof missing d p p') (items : SuiteItems) :
    let loop := untilNext (fun _ => false) suiteItem items
    (loop.run p).1 = (loop.run p').1 ∧
      EofAdded eof (missing || loopLacksType (fun _ => false) suiteItem blockLacksType items p) d
        (loop.run p).2 (loop.run p').2 := by
  have hlive := (EofAdded.coupling heof missing).live h
  dsimp only
  rw [untilNext_run, untilNext_run, ← hlive, ← remaining_eq]
  exact Follows.rounds_keeps (EofAdded.coupling heof)
    (fun items _ _ _ _ h hbefore => suiteItem_eof heof items h hbefore) _ items h

/-! ## The parse -/

omit [Platform] in
theorem eofAdded_limited (limit : Nat) {tokens : List Token}
    (htokens : ∀ t ∈ tokens, t.kind.isEof = false) :
    EofAdded (eofAfter tokens) false 0 (Parser.limited limit tokens)
      (Parser.limited limit (tokens ++ [eofAfter tokens])) where
  rest := rfl
  live := htokens
  previous := rfl
  nesting := rfl
  depth := rfl
  span := by
    unfold Parser.endSpan
    rw [show (Parser.limited limit tokens).rest = tokens from rfl, List.dropWhile_eq_nil_iff.mpr
      fun t ht => by rw [htokens t ht]; rfl]
    rw [show (Parser.limited limit tokens).previous = none from rfl, Option.or_none]
    rfl
  errors := rfl

omit [Platform] in
theorem checkBlocks_of_errors (herrors : p.errors ≠ []) (blocks : List BlockAst)
    (span : SourceSpan) : ((checkBlocks blocks span).run p).2.errors = p.errors := by
  obtain ⟨previous, rest, depth, limit, errors⟩ := p
  cases errors with
  | nil => exact absurd rfl herrors
  | cons error errors => cases blocks <;> rfl

omit [Platform] in
/-- The check at the end of a suite tells the two lists of errors apart no more and no less than
they are. -/
theorem EofAdded.checkBlocks (h : EofAdded eof missing d p p') (blocks : List BlockAst)
    (span : SourceSpan) :
    ((checkBlocks blocks span).run p).2.errors = ((checkBlocks blocks span).run p').2.errors ↔
      missing = false := by
  have herrors := h.errors
  cases missing with
  | false =>
    refine iff_of_true ?_ rfl
    simp only [Bool.false_eq_true, if_false] at herrors
    obtain ⟨previous, rest, depth, limit, errors⟩ := p
    obtain ⟨previous', rest', depth', limit', errors'⟩ := p'
    cases (show errors = errors' from herrors)
    cases blocks <;> cases errors <;> rfl
  | true =>
    refine iff_of_false (fun heq => ?_) (fun hmissing => by cases hmissing)
    simp only [if_true] at herrors
    obtain ⟨hnil, hlt⟩ := herrors
    have hnil' : p'.errors ≠ [] := List.ne_nil_of_length_pos (Nat.zero_lt_of_lt hlt)
    rw [checkBlocks_of_errors hnil, checkBlocks_of_errors hnil'] at heq
    exact absurd (congrArg List.length heq) (Nat.ne_of_lt hlt)

/-- **The trailing token.** A parse with an end-of-input token after the tokens has the same tree
and the same errors exactly where no type of a field is missing at the end. -/
theorem trailing_eof_optional (limit : Nat) {tokens : List Token}
    (htokens : ∀ t ∈ tokens, t.kind.isEof = false) :
    (Parser.limited limit tokens).parse =
        (Parser.limited limit (tokens ++ [eofAfter tokens])).parse ↔
      suiteLacksType (Parser.limited limit tokens) = false := by
  have hadded := eofAdded_limited limit htokens
  have hstart : (Parser.limited limit (tokens ++ [eofAfter tokens])).rest.head?.elim 0
      (·.span.start) = (Parser.limited limit tokens).rest.head?.elim 0 (·.span.start) := by
    cases tokens <;> rfl
  obtain ⟨heq, hend⟩ := suite_eof rfl hadded ⟨[], false⟩
  rw [Bool.false_or] at hend
  change EofAdded _ (suiteLacksType _) _ _ _ at hend
  rw [Parser.parse, Parser.parse, parseSuite]
  simp only [Recorder.run_bind, peek, Recorder.run_read, Recorder.run_pure, hstart, ← heq]
  rw [← hend.checkBlocks]
  exact ⟨fun h => (ParseResult.mk.inj h).2, fun h => congrArg _ h⟩

omit [Platform] in
/-- The tokens of `test "t" { request GET "/" expect { body { id :`. -/
def cutField : List Token :=
  [⟨.test, ⟨0, 4⟩⟩, ⟨.stringLiteral "t", ⟨5, 8⟩⟩, ⟨.leftBrace, ⟨9, 10⟩⟩, ⟨.request, ⟨11, 18⟩⟩,
    ⟨.get, ⟨19, 22⟩⟩, ⟨.stringLiteral "/", ⟨23, 26⟩⟩, ⟨.expect, ⟨27, 33⟩⟩,
    ⟨.leftBrace, ⟨34, 35⟩⟩, ⟨.body, ⟨36, 40⟩⟩, ⟨.leftBrace, ⟨41, 42⟩⟩,
    ⟨.identifier "id", ⟨43, 45⟩⟩, ⟨.colon, ⟨46, 47⟩⟩]

omit [Platform] in
/-- The type is missing, and the two parses have different errors. -/
theorem trailing_eof_differs :
    letI := asciiPlatform
    (∀ t ∈ cutField, t.kind.isEof = false) ∧
      cutField.Pairwise (fun t u => t.span.end_ ≤ u.span.start) ∧
      (parse cutField).errors ≠ (parse (cutField ++ [eofAfter cutField])).errors := by
  decide +kernel

omit [Platform] in
/-- Cut off in front of the colon, they are the same. -/
theorem trailing_eof_optional_cut :
    letI := asciiPlatform
    (∀ t ∈ cutField.dropLast, t.kind.isEof = false) ∧
      (Parser.limited defaultMaxNestingDepth cutField.dropLast).parse =
        (Parser.limited defaultMaxNestingDepth
          (cutField.dropLast ++ [eofAfter cutField.dropLast])).parse :=
  letI := asciiPlatform
  have h : ∀ t ∈ cutField.dropLast, t.kind.isEof = false := by decide
  ⟨h, (trailing_eof_optional _ h).mpr (by decide +kernel)⟩

end Rettp
