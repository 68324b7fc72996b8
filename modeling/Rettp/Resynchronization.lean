import Rettp.ParserRecursion
import Rettp.ParserSuite
import Rettp.ValidationRules

/-!
# Recovery finds the next block

Whatever precedes it, a block that starts with its keyword is parsed as if it stood alone: no
function passes over the keyword of a block (`suiteItem_opens`), and what it does from there on
depends on the tokens that follow only (`SameRest`). For the same reason the suite has as many
core and pipeline blocks as there are keywords for them. All of this is up to the skip over a
container that exceeds the nesting limit, which looks at braces and brackets only.
-/

namespace Rettp

variable [Platform]

section
omit [Platform]

/-! ## Parsers with the same tokens left -/

/-- The parsers have the same tokens before and behind the cursor, and the same nesting. -/
structure SameRest (depth : Nat) (p p' : Parser) : Prop where
  rest : p.rest = p'.rest
  previous : p.previous = p'.previous
  nesting : p.nesting = p'.nesting
  depth : p.nestingDepth = depth

theorem SameRest.bump {depth : Nat} {p p' : Parser} (h : SameRest depth p p') :
    SameRest depth p.bump p'.bump := by
  have hlive : p.live = p'.live := by unfold Parser.live; rw [h.rest]
  have hdepth : p.bump.nestingDepth = p.nestingDepth := congrArg (·.depth) (bump_fields p).1
  refine ⟨?_, ?_, ?_, hdepth.trans h.depth⟩
  · cases hl : p.live with
    | nil => rw [bump_of_live_nil hl, bump_of_live_nil (hlive ▸ hl), h.rest]
    | cons t live =>
      have hcons := (bump_of_live_cons hl).2.2
      have hcons' := (bump_of_live_cons (hlive ▸ hl)).2.2
      rw [h.rest, hcons'] at hcons
      exact (List.cons.inj hcons).2.symm
  · rw [bump_previous, bump_previous, hlive, h.previous]
  · rw [(bump_fields p).1, (bump_fields p').1, h.nesting]

theorem SameRest.coupling : Coupling SameRest where
  live h := by unfold Parser.live; rw [h.rest]
  endSpan h := by unfold Parser.endSpan; rw [h.rest, h.previous]
  previous h := h.previous
  nesting h := h.nesting
  depth h := h.depth
  bump h _ := h.bump
  report _ _ h _ := ⟨h.rest, h.previous, h.nesting, h.depth⟩
  atDepth n h :=
    ⟨h.rest, h.previous, congrArg (fun x : Nesting => (⟨n, x.limit⟩ : Nesting)) h.nesting, rfl⟩

end

/-- What a parser function does depends on the tokens and the nesting only, not on the errors. -/
theorem FollowsAny.same_rest {α : Type} {f : ParserM α} {lacks : Parser → Bool}
    (hf : FollowsAny lacks f) {depth : Nat} {p p' : Parser} (h : SameRest depth p p') :
    (f.run p).1 = (f.run p').1 ∧ SameRest depth (f.run p).2 (f.run p').2 :=
  @Follows.keeps _ _ _ _ _ hf _ (.of_rest SameRest.coupling fun h => by rw [h.rest]) false _ _ _ h
    trivial

/-- A pipeline block is parsed alike wherever it stands. -/
theorem parsePipelineBlock_same {p p' : Parser} {t : Token} {live : List Token}
    (hlive : p.live = t :: live) (hkind : t.kind = .pipeline) (hrest : p.rest = p'.rest)
    (hnesting : p.nesting = p'.nesting) :
    (parsePipelineBlock.run p).1 = (parsePipelineBlock.run p').1 ∧
      (parsePipelineBlock.run p).2.rest = (parsePipelineBlock.run p').2.rest := by
  have hlive' : p'.live = t :: live := by rw [← hlive]; unfold Parser.live; rw [hrest]
  have hcons := (bump_of_live_cons hlive).2.2
  have hcons' := (bump_of_live_cons hlive').2.2
  rw [hrest, hcons'] at hcons
  have hsame : SameRest p.bump.nestingDepth p.bump p'.bump := by
    refine ⟨(List.cons.inj hcons).2.symm, ?_, ?_, rfl⟩
    · rw [(bump_of_live_cons hlive).2.1, (bump_of_live_cons hlive').2.1]
    · rw [(bump_fields p).1, (bump_fields p').1, hnesting]
  rw [parsePipelineBlock_run hlive hkind, parsePipelineBlock_run hlive' hkind]
  obtain ⟨heq, hsame'⟩ := FollowsAny.same_rest (pipelineBlockRest_follows t.span.start) hsame
  exact ⟨heq, hsame'.rest⟩

/-! ## Rounds of the suite -/

/-- The rounds of a suite. -/
abbrev suiteRounds : Nat → SuiteItems → ParserM SuiteItems := rounds (fun _ => false) suiteItem

omit [Platform] in
theorem before_suite {p : Parser} {t : Token} {live : List Token} (hlive : p.live = t :: live) :
    Before (fun _ => false) p.next :=
  ⟨t.kind, next_of_live hlive, rfl⟩

/-- A round adds a block or records an error. -/
theorem suiteItem_adds (items : SuiteItems) {p : Parser} {kind : TokenKind}
    (hnext : p.next = some kind) :
    (∃ block, ((suiteItem items).run p).1.blocks = items.blocks ++ [block]) ∨
      ((suiteItem items).run p).1 = items ∧ ((suiteItem items).run p).2.errors ≠ p.errors := by
  have hstep := suiteItem_step items hnext
  generalize (suiteItem items).run p = r at hstep
  cases hstep with
  | core => exact .inl ⟨_, rfl⟩
  | pipeline => exact .inl ⟨_, rfl⟩
  | test => exact .inl ⟨_, rfl⟩
  | stray _ q _ _ herrors => exact .inr ⟨rfl, herrors⟩

/-- Blocks are only added. -/
theorem suiteRounds_blocks (fuel : Nat) (items : SuiteItems) (p : Parser) :
    items.blocks <+: ((suiteRounds fuel items).run p).1.blocks := by
  induction fuel generalizing items p with
  | zero => exact List.prefix_refl _
  | succ fuel ih =>
    by_cases hbefore : Before (fun _ => false) p.next
    · rw [suiteRounds, rounds_step hbefore]
      refine List.IsPrefix.trans ?_ (ih _ _)
      obtain ⟨kind, hnext, -⟩ := hbefore
      rcases suiteItem_adds items hnext with ⟨block, hblock⟩ | ⟨hsame, -⟩
      · rw [hblock]
        exact List.prefix_append _ _
      · rw [hsame]
    · rw [suiteRounds, rounds_stop hbefore]

/-- Rounds that record no error add at least a block each. -/
theorem suiteRounds_stop {fuel : Nat} {items : SuiteItems} {p : Parser}
    (hfuel : p.live.length ≤ fuel)
    (herrors : ((suiteRounds fuel items).run p).2.errors = p.errors)
    (hblocks : ((suiteRounds fuel items).run p).1.blocks.length ≤ items.blocks.length) :
    p.live = [] := by
  cases hlive : p.live with
  | nil => rfl
  | cons t live =>
    exfalso
    have hbefore := before_suite hlive
    rw [hlive, List.length_cons] at hfuel
    obtain ⟨fuel, rfl⟩ := Nat.exists_eq_add_one_of_ne_zero (show fuel ≠ 0 by omega)
    rw [suiteRounds, rounds_step hbefore, Recorder.run_bind] at herrors hblocks
    obtain ⟨kind, hnext, -⟩ := hbefore
    rcases suiteItem_adds items hnext with ⟨block, hblock⟩ | ⟨-, hreport⟩
    · have hle := (suiteRounds_blocks fuel ((suiteItem items).run p).1
        ((suiteItem items).run p).2).length_le
      rw [hblock, List.length_append, List.length_singleton] at hle
      exact absurd (Nat.le_trans hle hblocks) (Nat.not_succ_le_self _)
    · exact Recorder.errors_ne (k := suiteRounds fuel _) hreport herrors

/-- The tree and the errors are those of the rounds, and perhaps one more error. -/
theorem parse_rounds (p : Parser) :
    let r := (suiteRounds p.live.length ⟨[], false⟩).run p
    p.parse.ast.blocks = r.1.blocks ∧ r.2.errors <+: p.parse.errors := by
  have hrun := untilNext_run (fun _ => false) suiteItem ⟨[], false⟩ p
  refine ⟨?_, ?_⟩
  · change ((untilNext (fun _ => false) suiteItem ⟨[], false⟩).run p).1.blocks = _
    rw [hrun]
  · change _ <+: ((checkBlocks _ _).run ((untilNext (fun _ => false) suiteItem ⟨[], false⟩).run
      p).2).2.errors
    rw [hrun]
    exact Recorder.appends (M := parserRecording) _ _

/-! ## A block on its own -/

/-- A parser over some tokens with a nesting limit. -/
def Parser.limited (limit : Nat) (tokens : List Token) : Parser :=
  (Parser.new tokens).withMaxNestingDepth limit

/-- The tokens are a pipeline block and nothing else. -/
structure IsPipeline (limit : Nat) (tokens : List Token) (block : PipelineBlockAst) : Prop where
  errors : (Parser.limited limit tokens).parse.errors = []
  blocks : (Parser.limited limit tokens).parse.ast.blocks = [.pipeline block]

/-- Such tokens start with the keyword, and the parser of pipeline blocks takes them all. -/
theorem IsPipeline.parsed {limit : Nat} {tokens : List Token} {block : PipelineBlockAst}
    (h : IsPipeline limit tokens block) :
    ∃ t live, (Parser.limited limit tokens).live = t :: live ∧ t.kind = .pipeline ∧
      (parsePipelineBlock.run (Parser.limited limit tokens)).1 = block ∧
      (parsePipelineBlock.run (Parser.limited limit tokens)).2.live = [] := by
  obtain ⟨hblocks, herrors⟩ := parse_rounds (Parser.limited limit tokens)
  rw [h.blocks] at hblocks
  rw [h.errors, List.prefix_nil] at herrors
  generalize hp : Parser.limited limit tokens = p at *
  have hnone : p.errors = [] := by rw [← hp]; rfl
  cases hlive : p.live with
  | nil =>
    rw [hlive] at hblocks
    cases hblocks
  | cons t live =>
    have hbefore := before_suite hlive
    have hnext : p.next = some t.kind := next_of_live hlive
    rw [hlive, List.length_cons, suiteRounds, rounds_step hbefore, Recorder.run_bind]
      at hblocks herrors
    have hopens := suiteItem_opens ⟨[], false⟩ hlive
    have hprefix := suiteRounds_blocks live.length ((suiteItem ⟨[], false⟩).run p).1
      ((suiteItem ⟨[], false⟩).run p).2
    have hstep := suiteItem_step ⟨[], false⟩ hnext
    generalize (suiteItem ⟨[], false⟩).run p = r at hblocks herrors hopens hprefix hstep
    generalize hkind : t.kind = kind at hstep
    rw [← hblocks] at hprefix
    have hquiet : r.2.errors = [] := by
      have happends : r.2.errors <+: _ :=
        Recorder.appends (M := parserRecording) (suiteRounds live.length r.1) r.2
      exact List.prefix_nil.mp (herrors ▸ happends)
    cases hstep with
    | core => exact absurd (List.cons_prefix_cons.mp hprefix).1 (fun h => (nomatch h))
    | test => exact absurd (List.cons_prefix_cons.mp hprefix).1 (fun h => (nomatch h))
    | stray _ q _ _ hreport => exact absurd (hquiet.trans hnone.symm) hreport
    | pipeline =>
      refine ⟨t, live, rfl, hkind, ?_, suiteRounds_stop ?_ (herrors.trans hquiet.symm) ?_⟩
      · exact BlockAst.pipeline.inj (List.cons_prefix_cons.mp hprefix).1
      · obtain ⟨ts, hts, -⟩ := hopens.passed
        have hlength := congrArg List.length hts.live_eq
        rw [hlive, List.length_append, List.length_cons, List.length_cons] at hlength
        dsimp only at hlength ⊢
        omega
      · rw [← hblocks]
        exact Nat.le_refl 1

/-! ## The next block -/

/-- No nesting limit has been exceeded. -/
def ParseResult.Nested (result : ParseResult) : Prop :=
  ∀ e ∈ result.errors, ∀ limit, e.kind ≠ .nestingLimitExceeded limit

theorem not_limited {p : Parser} (h : p.parse.Nested) {q : Parser}
    (hq : q.errors <+: p.parse.errors) : ¬ q.Limited := by
  rintro ⟨e, he, limit, hlimit⟩
  exact h e (hq.subset he) limit hlimit

/-- What holds between two blocks: either the block is still ahead, or it has been parsed last. -/
inductive Approach (tokens : List Token) (block : PipelineBlockAst) (start : Parser) :
    SuiteItems → Parser → Prop
  | limited {items : SuiteItems} {p : Parser} (h : p.Limited) : Approach tokens block start items p
  | ahead {items : SuiteItems} {p : Parser} (before : List Token) (hrest : p.rest = before ++ tokens)
    (hlive : ∀ t ∈ before, t.kind.isEof = false) (hnesting : p.nesting = start.nesting) :
    Approach tokens block start items p
  | parsed {items : SuiteItems} {p : Parser} (hlive : p.live = [])
    (hblock : items.blocks.getLast? = some (.pipeline block)) : Approach tokens block start items p

/-- A round that starts before the block does not get past its keyword. -/
theorem approach_step {limit : Nat} {tokens : List Token} {block : PipelineBlockAst}
    (hblock : IsPipeline limit tokens block) {items : SuiteItems} {p : Parser}
    (h : Approach tokens block (Parser.limited limit tokens) items p)
    (hbefore : Before (fun _ => false) p.next) :
    Approach tokens block (Parser.limited limit tokens) ((suiteItem items).run p).1
      ((suiteItem items).run p).2 := by
  obtain ⟨kind, hnext, -⟩ := hbefore
  cases h with
  | limited h => exact .limited (limited_run h)
  | parsed hlive _ =>
    rw [next_eq_none.mpr hlive] at hnext
    cases hnext
  | ahead before hrest hlive hnesting =>
    obtain ⟨t, live, htokens, hkind, hparsed, hend⟩ := hblock.parsed
    have hnesting' : ((suiteItem items).run p).2.nesting = (Parser.limited limit tokens).nesting := by
      rw [← hnesting, Parser.nesting, Parser.nesting, suiteItem_steady items p,
        ((suiteItem items).moves p).2.1]
    cases before with
    | nil =>
      have hlive' : p.live = t :: live := by
        rw [← htokens]
        exact congrArg (List.takeWhile fun t => !t.kind.isEof) hrest
      obtain ⟨heq, hrest'⟩ := parsePipelineBlock_same hlive' hkind
        (show p.rest = (Parser.limited limit tokens).rest from hrest) hnesting
      have hstep := suiteItem_step items hnext
      rw [next_eq, hlive'] at hnext
      obtain rfl : t.kind = kind := Option.some.inj hnext
      generalize (suiteItem items).run p = r at hstep
      rw [hkind] at hstep
      cases hstep with
      | pipeline =>
        refine .parsed ?_ ?_
        · rw [← hend]
          exact congrArg (List.takeWhile fun t => !t.kind.isEof) hrest'
        · rw [List.getLast?_append, heq, hparsed]
          rfl
      | stray hkind => cases hkind
    | cons u before =>
      have hlive' : p.live = u :: (before ++ tokens).takeWhile fun t => !t.kind.isEof := by
        unfold Parser.live
        rw [hrest, List.cons_append, List.takeWhile_cons_of_pos]
        rw [hlive u List.mem_cons_self]
        rfl
      obtain ⟨ts, hts, hinner⟩ := (suiteItem_opens items hlive').passed
      rcases hinner with hlimited | hinner
      · exact .limited hlimited
      have hsplit : before ++ tokens = ts ++ ((suiteItem items).run p).2.rest := by
        have hcons := hts.rest
        rw [hrest] at hcons
        exact (List.cons.inj hcons).2
      have hbefore : ∀ t ∈ before, t.kind.isEof = false := fun t ht =>
        hlive t (List.mem_cons_of_mem _ ht)
      rcases List.append_eq_append_iff.mp hsplit with ⟨more, hmore, htokens'⟩ | ⟨left, hleft, hrest'⟩
      · cases more with
        | nil => exact .ahead [] htokens'.symm (List.forall_mem_nil _) hnesting'
        | cons v more =>
          -- the round would have passed over the keyword of the block
          obtain ⟨-, rest, hcons, -⟩ := live_cons htokens
          obtain ⟨rfl, -⟩ := List.cons.inj (hcons.symm.trans htokens')
          have hcontra := hinner t (hmore ▸ List.mem_append_right _ List.mem_cons_self)
          rw [hkind] at hcontra
          cases hcontra
      · exact .ahead left hrest' (fun t ht => hbefore t (hleft ▸ List.mem_append_right _ ht)) hnesting'

/-- Every round of the suite passes over tokens. -/
theorem suiteItem_passed (items : SuiteItems) {p : Parser}
    (hbefore : Before (fun _ => false) p.next) : ∃ ts, Passed p ((suiteItem items).run p).2 ts := by
  cases hlive : p.live with
  | nil =>
    rw [next_eq_none.mpr hlive] at hbefore
    exact absurd hbefore not_before_none
  | cons t live =>
    obtain ⟨ts, hts, -⟩ := (suiteItem_opens items hlive).passed
    exact ⟨_, hts⟩

/-- What the rounds of a suite keep holds at its end, where no token is left. -/
theorem parse_keeps {p : Parser} {I : SuiteItems → Parser → Prop} (hstart : I ⟨[], false⟩ p)
    (hround : ∀ items q, I items q → Before (fun _ => false) q.next →
      I ((suiteItem items).run q).1 ((suiteItem items).run q).2) :
    ∃ items q, I items q ∧ q.live = [] ∧ p.parse.ast.blocks = items.blocks ∧
      q.errors <+: p.parse.errors := by
  have hends := untilNext_ends (fun items q hI hbefore =>
    ⟨hround items q hI hbefore, suiteItem_passed items hbefore⟩) suiteItem_advances hstart
  obtain ⟨hblocks, herrors⟩ := parse_rounds p
  rw [untilNext_run] at hends
  refine ⟨_, _, hends.1, ?_, hblocks, herrors⟩
  cases hlive : Parser.live _ with
  | nil => rfl
  | cons t live => exact absurd (before_suite hlive) hends.2

/-- **The next block.** Tokens before a pipeline block do not change what it is parsed to. -/
theorem last_block {limit : Nat} {before tokens : List Token} {block : PipelineBlockAst}
    (hbefore : ∀ t ∈ before, t.kind.isEof = false) (hblock : IsPipeline limit tokens block)
    (hnested : (Parser.limited limit (before ++ tokens)).parse.Nested) :
    (Parser.limited limit (before ++ tokens)).parse.ast.blocks.getLast? = some (.pipeline block) := by
  obtain ⟨items, q, h, hlive, hblocks, herrors⟩ := parse_keeps
    (p := Parser.limited limit (before ++ tokens))
    (I := Approach tokens block (Parser.limited limit tokens)) (.ahead before rfl hbefore rfl)
    fun items q h hbefore => approach_step hblock h hbefore
  rw [hblocks]
  cases h with
  | limited h => exact absurd h (not_limited hnested herrors)
  | parsed _ hlast => exact hlast
  | ahead before' hrest hlive' _ =>
    obtain ⟨t, live, htokens, -⟩ := hblock.parsed
    obtain ⟨heof, rest, hcons, -⟩ := live_cons htokens
    unfold Parser.live at hlive
    rw [hrest, List.takeWhile_append_of_pos fun t ht => by rw [hlive' t ht]; rfl] at hlive
    exact absurd (htokens.symm.trans (List.append_eq_nil_iff.mp hlive).2) (List.cons_ne_nil _ _)

/-! ## Counting blocks -/

/-- A sort of blocks and the keyword it starts with. -/
structure Keyword (isBlock : BlockAst → Bool) (isKeyword : TokenKind → Bool) : Prop where
  core : ∀ block, isBlock (.core block) = isKeyword .core
  pipeline : ∀ block, isBlock (.pipeline block) = isKeyword .pipeline
  test : ∀ test, isBlock (.test test) = false
  inner : ∀ kind : TokenKind, kind.isOuterBlockBoundary = false → isKeyword kind = false

/-- A round adds a block of a sort exactly where it starts at the keyword. -/
theorem suiteItem_count {isBlock : BlockAst → Bool} {isKeyword : TokenKind → Bool}
    (hkeyword : Keyword isBlock isKeyword) (items : SuiteItems) {p : Parser} {kind : TokenKind}
    (hnext : p.next = some kind) :
    ((suiteItem items).run p).1.blocks.countP isBlock =
      items.blocks.countP isBlock + if isKeyword kind then 1 else 0 := by
  have hstep := suiteItem_step items hnext
  generalize (suiteItem items).run p = r at hstep
  cases hstep with
  | core => simp [List.countP_append, hkeyword.core, List.countP_singleton]
  | pipeline => simp [List.countP_append, hkeyword.pipeline, List.countP_singleton]
  | test =>
    simp [List.countP_append, hkeyword.test, hkeyword.inner .test rfl]
  | stray hkind =>
    have hinner : kind.isOuterBlockBoundary = false := by
      cases kind <;> first | rfl | cases hkind
    simp [hkeyword.inner kind hinner]

/-- **Counting.** There are as many blocks of a sort as keywords for them before the end. -/
theorem count_blocks {isBlock : BlockAst → Bool} {isKeyword : TokenKind → Bool}
    (hkeyword : Keyword isBlock isKeyword) {p : Parser} (hnested : p.parse.Nested) :
    p.parse.ast.blocks.countP isBlock = p.kinds.countP isKeyword := by
  let I : SuiteItems → Parser → Prop := fun items q => ∃ ts, Passed p q ts ∧
    (q.Limited ∨ items.blocks.countP isBlock = (ts.map (·.kind)).countP isKeyword)
  have hround : ∀ items q, I items q → Before (fun _ => false) q.next →
      I ((suiteItem items).run q).1 ((suiteItem items).run q).2 := by
    intro items q ⟨ts, hts, h⟩ hbefore
    cases hlive : q.live with
    | nil =>
      rw [next_eq_none.mpr hlive] at hbefore
      exact absurd hbefore not_before_none
    | cons t live =>
      have hnext : q.next = some t.kind := next_of_live hlive
      obtain ⟨us, hus, hinner⟩ := (suiteItem_opens items hlive).passed
      refine ⟨ts ++ t :: us, hts.trans hus, ?_⟩
      rcases h with hlimited | hcount
      · exact .inl (limited_run hlimited)
      rcases hinner with hlimited | hinner
      · exact .inl hlimited
      have hnone : (us.map (·.kind)).countP isKeyword = 0 := by
        rw [List.countP_eq_zero]
        intro kind hkind
        obtain ⟨u, hu, rfl⟩ := List.mem_map.mp hkind
        rw [hkeyword.inner u.kind (hinner u hu)]
        exact Bool.false_ne_true
      right
      rw [suiteItem_count hkeyword items hnext, hcount, List.map_append, List.countP_append,
        List.map_cons, List.countP_cons, hnone, Nat.zero_add]
  obtain ⟨items, q, ⟨ts, hts, h⟩, hlive, hblocks, herrors⟩ :=
    parse_keeps (I := I) ⟨[], .refl p, .inr rfl⟩ hround
  rw [hblocks, h.resolve_left (not_limited hnested herrors), kinds_eq, hts.live_eq, hlive,
    List.append_nil]

/-- The keyword `core`. -/
def TokenKind.isCore : TokenKind → Bool
  | .core => true
  | _ => false

/-- The keyword `pipeline`. -/
def TokenKind.isPipeline : TokenKind → Bool
  | .pipeline => true
  | _ => false

/-- The block is a pipeline. -/
def BlockAst.isPipeline : BlockAst → Bool
  | .pipeline _ => true
  | _ => false

omit [Platform] in
theorem core_keyword : Keyword BlockAst.isCore TokenKind.isCore :=
  ⟨fun _ => rfl, fun _ => rfl, fun _ => rfl, fun kind h => by cases kind <;> first | rfl | cases h⟩

omit [Platform] in
theorem pipeline_keyword : Keyword BlockAst.isPipeline TokenKind.isPipeline :=
  ⟨fun _ => rfl, fun _ => rfl, fun _ => rfl, fun kind h => by cases kind <;> first | rfl | cases h⟩

/-- **Resynchronization.** Where no nesting limit is exceeded, a pipeline block after any tokens is
the last block, parsed as on its own; and there are as many core and pipeline blocks as keywords
for them before the end. -/
theorem parser_resynchronizes (limit : Nat) :
    (∀ (before tokens : List Token) (block : PipelineBlockAst),
      (∀ t ∈ before, t.kind.isEof = false) → IsPipeline limit tokens block →
      (Parser.limited limit (before ++ tokens)).parse.Nested →
      (Parser.limited limit (before ++ tokens)).parse.ast.blocks.getLast? =
        some (.pipeline block)) ∧
    ∀ tokens, (Parser.limited limit tokens).parse.Nested →
      (Parser.limited limit tokens).parse.ast.blocks.countP BlockAst.isCore =
          (Parser.upToEof tokens).countP TokenKind.isCore ∧
        (Parser.limited limit tokens).parse.ast.blocks.countP BlockAst.isPipeline =
          (Parser.upToEof tokens).countP TokenKind.isPipeline :=
  ⟨fun _ _ _ hbefore hblock hnested => last_block hbefore hblock hnested,
    fun _ hnested => ⟨count_blocks core_keyword hnested, count_blocks pipeline_keyword hnested⟩⟩

omit [Platform] in
/-- The first tokens of a test, cut off after the keyword `expect`. -/
def cutTest : List Token :=
  [⟨.test, ⟨0, 4⟩⟩, ⟨.stringLiteral "t", ⟨5, 8⟩⟩, ⟨.leftBrace, ⟨9, 10⟩⟩, ⟨.expect, ⟨11, 17⟩⟩]

omit [Platform] in
/-- The tokens of `pipeline "p" { test "u" { request GET "/" expect { status = 200 } } }`. -/
def usersPipeline : List Token :=
  [⟨.pipeline, ⟨18, 26⟩⟩, ⟨.stringLiteral "p", ⟨27, 30⟩⟩, ⟨.leftBrace, ⟨31, 32⟩⟩,
    ⟨.test, ⟨33, 37⟩⟩, ⟨.stringLiteral "u", ⟨38, 41⟩⟩, ⟨.leftBrace, ⟨42, 43⟩⟩,
    ⟨.request, ⟨44, 51⟩⟩, ⟨.get, ⟨52, 55⟩⟩, ⟨.stringLiteral "/", ⟨56, 59⟩⟩,
    ⟨.expect, ⟨60, 66⟩⟩, ⟨.leftBrace, ⟨67, 68⟩⟩, ⟨.status, ⟨69, 75⟩⟩, ⟨.equal, ⟨76, 77⟩⟩,
    ⟨.integerLiteral 200, ⟨78, 81⟩⟩, ⟨.rightBrace, ⟨82, 83⟩⟩, ⟨.rightBrace, ⟨84, 85⟩⟩,
    ⟨.rightBrace, ⟨86, 87⟩⟩]

/-- The parser has the default limit. -/
theorem parse_eq_limited (tokens : List Token) :
    (Parser.limited defaultMaxNestingDepth tokens).parse = parse tokens :=
  rfl

omit [Platform] in
/-- Behind a test that is cut off the pipeline is parsed as on its own. -/
theorem parser_resynchronizes_cut :
    letI := asciiPlatform
    ∃ block, IsPipeline defaultMaxNestingDepth usersPipeline block ∧
      (parse (cutTest ++ usersPipeline)).errors ≠ [] ∧
      (parse (cutTest ++ usersPipeline)).ast.blocks.getLast? = some (.pipeline block) := by
  let _ := asciiPlatform
  have herrors : (parse usersPipeline).errors = [] := by decide +kernel
  have hblocks : (parse usersPipeline).ast.blocks.map BlockAst.isPipeline = [true] := by
    decide +kernel
  obtain ⟨block, hblocks⟩ : ∃ block, (parse usersPipeline).ast.blocks = [.pipeline block] := by
    match h : (parse usersPipeline).ast.blocks, hblocks with
    | [.pipeline block], _ => exact ⟨block, rfl⟩
  have hlimited := parse_eq_limited (cutTest ++ usersPipeline)
  have hblock : IsPipeline defaultMaxNestingDepth usersPipeline block :=
    ⟨by rw [parse_eq_limited, herrors], by rw [parse_eq_limited, hblocks]⟩
  have hnested : (parse (cutTest ++ usersPipeline)).errors.all (fun e =>
      match e.kind with
      | .nestingLimitExceeded _ => false
      | _ => true) = true := by decide +kernel
  have hlast := (parser_resynchronizes defaultMaxNestingDepth).1 cutTest usersPipeline block
    (by decide) hblock
  have herror : (parse (cutTest ++ usersPipeline)).errors.length = 4 := by decide +kernel
  rw [hlimited] at hlast
  generalize parse (cutTest ++ usersPipeline) = result at *
  refine ⟨block, hblock, List.ne_nil_of_length_eq_add_one herror, hlast ?_⟩
  intro e he limit hlimit
  have hkind := List.all_eq_true.mp hnested e he
  rw [hlimit] at hkind
  cases hkind

end Rettp
