import Rettp.ParserMoves

/-!
# Every round of every loop makes progress

A parser function that records an error may pass over no token at all, so that a round of a loop
makes progress is not a fact about one function: the round starts at a token that does not stop
the loop, and if nothing before has passed over it, the skip at the end of the round does.

`Advances H f` says that `f` passes over a token where the next one is as `H` says. No function
goes back (`parserRecording`), so it is enough that one part of a sequence advances from where the
round has started.
-/

namespace Rettp

variable [Platform]

/-- Where the next token is as `H` says, the program passes over one. -/
def Advances {α : Type} (H : Option TokenKind → Prop) (f : ParserM α) : Prop :=
  ∀ p, H p.next → (f.run p).2.rest ≠ p.rest

section
omit [Platform]

variable {α β : Type} {H : Option TokenKind → Prop}

theorem next_of_rest {p q : Parser} (h : q.rest = p.rest) : q.next = p.next := by
  rw [Parser.next, Parser.next, Parser.kinds, Parser.kinds, h]

/-- What has been passed stays passed. -/
theorem rest_ne_of_suffix {l m n : List Token} (hlm : m <:+ l) (hmn : n <:+ m) (h : m ≠ l) :
    n ≠ l := by
  rintro rfl
  exact h (hlm.eq_of_length_le hmn.length_le)

namespace Advances

/-- A first step that advances. -/
theorem bind_left {f : ParserM α} {k : α → ParserM β} (hf : Advances H f) :
    Advances H (f >>= k) := fun p hp =>
  rest_ne_of_suffix (f.moves p).1 ((k _).moves _).1 (hf p hp)

/-- If the first part has passed over nothing, the second part is where the first one was. -/
theorem bind {f : ParserM α} {k : α → ParserM β}
    (hk : ∀ p, H p.next → (f.run p).2.rest = p.rest →
      ((k (f.run p).1).run (f.run p).2).2.rest ≠ (f.run p).2.rest) : Advances H (f >>= k) := by
  intro p hp
  by_cases h : (f.run p).2.rest = p.rest
  · rw [Recorder.run_bind, ← h]
    exact hk p hp h
  · exact rest_ne_of_suffix (f.moves p).1 ((k _).moves _).1 h

/-- A second step that advances. -/
theorem bind_right {f : ParserM α} {k : α → ParserM β} (hk : ∀ a, Advances H (k a)) :
    Advances H (f >>= k) :=
  bind fun _ hp h => hk _ _ (next_of_rest h ▸ hp)

/-- Where the first part gives no result, it is the second part that counts. -/
theorem bind_option {f : ParserM (Option α)} {k : Option α → ParserM β}
    (hf : ∀ p a, (f.run p).1 = some a → (f.run p).2.rest ≠ p.rest) (hk : Advances H (k none)) :
    Advances H (f >>= k) := by
  refine bind fun p hp h => ?_
  cases hr : (f.run p).1 with
  | some a => exact absurd h (hf p a hr)
  | none => exact hk _ (next_of_rest h ▸ hp)

theorem bump {H : Option TokenKind → Prop} (hH : ¬ H none) : Advances H Rettp.bump := by
  intro p hp
  cases hlive : p.live with
  | nil => exact absurd (next_eq_none.mpr hlive ▸ hp) hH
  | cons t live =>
    intro h
    have hrest := (bump_of_live_cons hlive).2.2
    rw [show p.bump.rest = p.rest from h] at hrest
    exact List.cons_ne_self t p.rest hrest.symm

theorem take {kind : TokenKind} (heof : kind.isEof = false) :
    Advances (· = some kind) (Rettp.take kind) := by
  intro p hp
  have hbump : Advances (· = some kind) Rettp.bump := bump (fun h => (nomatch h))
  obtain ⟨t, live, hlive, hkind⟩ := live_of_next hp
  rw [take_eq heof, hlive]
  dsimp only
  rw [hkind, if_pos (beq_self_eq_true _)]
  exact hbump p hp

/-- The case split on the next token, where there is one. -/
theorem byKind {stop : TokenKind → Bool} {k : Option TokenKind → ParserM α}
    (hk : ∀ kind, stop kind = false → Advances (· = some kind) (k (some kind))) :
    Advances (Before stop) (peekKind >>= k) := by
  intro p hp
  obtain ⟨kind, hkind, hstop⟩ := hp
  change ((k p.head).run p).2.rest ≠ p.rest
  rw [(head_of_next hkind).2]
  exact hk kind hstop p hkind

end Advances

theorem not_before_none {stop : TokenKind → Bool} : ¬ Before stop none :=
  fun ⟨_, h, _⟩ => by cases h

/-- A token that is there is taken. -/
theorem consume_advances [Platform] {kind : TokenKind} (heof : kind.isEof = false)
    (description : String) : Advances (· = some kind) (consume kind description) :=
  .bind_left (.take heof)

/-- A keyword that is there is taken. -/
theorem consumeStart_advances [Platform] {kind : TokenKind} (heof : kind.isEof = false)
    (description : String) : Advances (· = some kind) (consumeStart kind description) :=
  .bind_left (consume_advances heof description)

/-- An optional token that is there has been passed. -/
theorem take_some {kind : TokenKind} (heof : kind.isEof = false) {p : Parser} {t : Token}
    (h : ((take kind).run p).1 = some t) : ((take kind).run p).2.rest ≠ p.rest := by
  rw [take_eq heof] at h ⊢
  cases hlive : p.live with
  | nil =>
    rw [hlive] at h
    cases h
  | cons u live =>
    rw [hlive] at h
    dsimp only at h ⊢
    split at h
    · rw [if_pos ‹_›]
      intro hrest
      have hcons := (bump_of_live_cons hlive).2.2
      rw [hrest] at hcons
      exact List.cons_ne_self u p.rest hcons.symm
    · cases h

end

/-! ## Skips -/

section
omit [Platform]

/-- A skip does nothing where it stops at once. -/
theorem skipTo_stays {stop : TokenKind → Bool} {p : Parser} (h : ¬ Before stop p.next) :
    (skipTo stop).run p = ((), p) := by
  rw [skipTo, untilNext_run, rounds_stop h]

/-- A skip passes over the next token where it does not stop. -/
theorem skipTo_advances (stop : TokenKind → Bool) : Advances (Before stop) (skipTo stop) := by
  intro p hp
  obtain ⟨fuel, hfuel⟩ := live_length_of_before hp
  rw [skipTo, untilNext_run, hfuel, rounds_step hp]
  exact Advances.bind_left (Advances.bump not_before_none) p hp

/-- The skip to the end of an entry passes over its comma, if nothing else. -/
theorem synchronize_advances {stop stop' : TokenKind → Bool}
    (h : ∀ kind, stop' kind = false → stop kind = true → kind = .comma) :
    Advances (Before stop') (do skipTo stop; skipOptionalComma) := by
  intro p ⟨kind, hkind, hstop'⟩
  cases hstop : stop kind with
  | false => exact Advances.bind_left (skipTo_advances stop) p ⟨kind, hkind, hstop⟩
  | true =>
    rw [Recorder.run_bind, skipTo_stays]
    · have htake : Advances (· = some .comma) skipOptionalComma := .bind_left (.take rfl)
      exact htake p (hkind.trans (congrArg some (h kind hstop' hstop)))
    · rintro ⟨kind', hkind', hstop''⟩
      cases hkind.symm.trans hkind'
      rw [hstop] at hstop''
      cases hstop''

end

/-! ## Functions with an optional result -/

/-- Where the program has a result, it has passed over a token. -/
def Finds {α : Type} (f : ParserM (Option α)) : Prop :=
  ∀ p a, (f.run p).1 = some a → (f.run p).2.rest ≠ p.rest

section
omit [Platform]

/-- What is found depends on the next kind. -/
theorem Finds.byKind {α : Type} {k : Option TokenKind → ParserM (Option α)}
    (hnone : ∀ p, ((k none).run p).1 = none) (heof : k (some .eof) = k none)
    (hkind : ∀ kind p a, ((k (some kind)).run p).1 = some a →
      Advances (· = some kind) (k (some kind))) : Finds (peekKind >>= k) := by
  intro p a h
  change ((k p.head).run p).1 = some a at h
  change ((k p.head).run p).2.rest ≠ p.rest
  cases hnext : p.next with
  | none =>
    have hresult : ((k p.head).run p).1 = none := by
      rcases head_of_next_none hnext with hhead | hhead
      · rw [hhead, hnone]
      · rw [hhead, heof, hnone]
    rw [hresult] at h
    cases h
  | some kind =>
    rw [(head_of_next hnext).2] at h ⊢
    exact hkind kind p a h p hnext

/-- The key that the next token names, if any. -/
def keyAt (span : SourceSpan) (kind : Option TokenKind) : ParserM (Option (Spanned String)) := do
  match kind.bind keyText with
  | some value =>
    bump
    pure (some ⟨value, span⟩)
  | none => pure none

/-- A key that is found is taken. -/
theorem objectKey_finds : Finds objectKey := by
  intro p key
  refine Finds.byKind (k := keyAt p.currentSpan) (fun _ => rfl) rfl (fun kind q key' h => ?_) p key
  cases hkey : keyText kind with
  | none =>
    rw [keyAt, Option.bind_some, hkey] at h
    cases h
  | some value =>
    rw [keyAt, Option.bind_some, hkey]
    exact .bind_left (.bump (Option.some_ne_none kind).symm)

end

/-- An array takes its bracket. -/
theorem parseArrayValueWith_advances (parseValue : ParserM (Option ValueAst)) :
    Advances (· = some .leftBracket) (parseArrayValueWith parseValue) :=
  .bind_left (.take rfl)

/-- An object takes its brace. -/
theorem parseObjectValueWith_advances (parseValue : ParserM (Option ValueAst)) :
    Advances (· = some .leftBrace) (parseObjectValueWith parseValue) :=
  .bind_left (.take rfl)

/-- The value that starts at the next token, if any. -/
def valueAt (parseValue : ParserM (Option ValueAst)) (span : SourceSpan) :
    Option TokenKind → ParserM (Option ValueAst)
  | some (.stringLiteral value) => do bump; pure (some (.string ⟨value, span⟩))
  | some (.integerLiteral value) => do bump; pure (some (.integer ⟨value, span⟩))
  | some (.numberLiteral value) => do bump; pure (some (.number ⟨value, span⟩))
  | some .true_ => do bump; pure (some (.boolean ⟨true, span⟩))
  | some .false_ => do bump; pure (some (.boolean ⟨false, span⟩))
  | some .null => do bump; pure (some (.null span))
  | some .leftBracket => return some (.array (← parseArrayValueWith parseValue))
  | some .leftBrace => return some (.object (← parseObjectValueWith parseValue))
  | _ => pure none

/-- A literal that is found is taken. -/
theorem parseValueWith_finds (parseValue : ParserM (Option ValueAst)) :
    Finds (parseValueWith parseValue) := by
  have hbump : ∀ {kind : TokenKind} {value : ValueAst},
      Advances (· = some kind) (do bump; pure (some value)) :=
    .bind_left (.bump (Option.some_ne_none _).symm)
  intro p value
  refine Finds.byKind (k := valueAt parseValue p.currentSpan) (fun _ => rfl) rfl
    (fun kind q value' h => ?_) p value
  cases kind
  case leftBracket => exact .bind_left (parseArrayValueWith_advances parseValue)
  case leftBrace => exact .bind_left (parseObjectValueWith_advances parseValue)
  all_goals first | exact hbump | cases h

theorem parseValueAt_finds (depth : Nat) : Finds (parseValueAt depth) := by
  cases depth with
  | zero => exact parseValueWith_finds _
  | succ depth => exact parseValueWith_finds _

/-- A literal that is found is taken, at any depth. -/
theorem parseValue_finds : Finds parseValue := fun p => parseValueAt_finds _ p

/-! ## Constructs that start with a keyword -/

/-- The headers of a request take their keyword. -/
theorem parseRequestHeaders_advances : Advances (· = some .headers) parseRequestHeaders :=
  .bind_left (consumeStart_advances rfl _)

/-- The query of a request takes its keyword. -/
theorem parseRequestQuery_advances : Advances (· = some .query) parseRequestQuery :=
  .bind_left (consumeStart_advances rfl _)

/-- The body of a request takes its keyword. -/
theorem parseRequestBody_advances : Advances (· = some .body) parseRequestBody :=
  .bind_left (consumeStart_advances rfl _)

/-- A request takes its keyword. -/
theorem parseRequest_advances : Advances (· = some .request) parseRequest :=
  .bind_left (consumeStart_advances rfl _)

/-- A status assertion takes its keyword. -/
theorem parseStatusAssertion_advances : Advances (· = some .status) parseStatusAssertion :=
  .bind_left (consumeStart_advances rfl _)

/-- The headers of an expectation take their keyword. -/
theorem parseResponseHeaders_advances : Advances (· = some .headers) parseResponseHeaders :=
  .bind_left (consumeStart_advances rfl _)

/-- A body assertion takes its keyword. -/
theorem parseBodyAssertion_advances : Advances (· = some .body) parseBodyAssertion :=
  .bind_left (consumeStart_advances rfl _)

/-- An expectation takes its keyword. -/
theorem parseExpectation_advances : Advances (· = some .expect) parseExpectation :=
  .bind_left (consumeStart_advances rfl _)

/-- A test takes its keyword. -/
theorem parseTest_advances : Advances (· = some .test) parseTest :=
  .bind_left (consumeStart_advances rfl _)

/-- A core takes its keyword. -/
theorem parseCoreBlock_advances : Advances (· = some .core) parseCoreBlock :=
  .bind_left (consumeStart_advances rfl _)

/-- A pipeline takes its keyword. -/
theorem parsePipelineBlock_advances : Advances (· = some .pipeline) parsePipelineBlock :=
  .bind_left (consumeStart_advances rfl _)

/-! ## Alternatives -/

section
omit [Platform]

variable {α : Type} {H : Option TokenKind → Prop}

/-- If an optional token is there it has been passed; else what follows advances. -/
theorem Advances.take_else {kind : TokenKind} (heof : kind.isEof = false) {f : ParserM α}
    {g : ParserM α} (hg : Advances H g) :
    Advances H (Rettp.take kind >>= fun t => if t.isSome then f else g) := by
  refine bind fun p hp h => ?_
  cases htoken : ((Rettp.take kind).run p).1 with
  | some t => exact absurd h (take_some heof htoken)
  | none => exact hg _ (next_of_rest h ▸ hp)

/-- A contextual keyword that is found is taken. -/
theorem contextual_found {word : String} {p : Parser}
    (h : ((takeContextualIdentifier word).run p).1 = true) :
    ((takeContextualIdentifier word).run p).2.rest ≠ p.rest := by
  rw [takeContextualIdentifier, Recorder.run_bind, peekKind, Recorder.run_read] at h ⊢
  cases hnext : p.next with
  | none => rcases head_of_next_none hnext with hhead | hhead <;> rw [hhead] at h <;> cases h
  | some kind =>
    rw [(head_of_next hnext).2] at h ⊢
    cases kind with
    | identifier value =>
      dsimp only at h ⊢
      split at h
      · next hvalue =>
        rw [if_pos hvalue]
        have hbump : Advances (· = some (.identifier value)) (do bump; pure true) :=
          .bind_left (.bump (Option.some_ne_none _).symm)
        exact hbump p hnext
      · cases h
    | _ => cases h

/-- A contextual keyword, or else something that advances. -/
theorem Advances.contextual_else {word : String} {f g : ParserM α} (hg : Advances H g) :
    Advances H (takeContextualIdentifier word >>= fun found => if found then f else g) := by
  refine bind fun p hp h => ?_
  cases hfound : ((takeContextualIdentifier word).run p).1 with
  | false => exact hg _ (next_of_rest h ▸ hp)
  | true => exact absurd h (contextual_found hfound)

end

/-! ## The rounds of the loops -/

/-- **A round over the entries** of an object advances. -/
theorem objectValueEntry_advances (parseValue : ParserM (Option ValueAst))
    (entries : List ObjectValueEntryAst) :
    Advances (Before fun kind => isRightBrace kind || kind.isContainerBoundary)
      (objectValueEntry parseValue entries) := by
  refine .bind_option objectKey_finds (.bind_right fun _ => .bind_right fun _ => .bind_left ?_)
  refine synchronize_advances fun kind hkind hstop => ?_
  cases kind <;> first | rfl | (cases hkind; done) | cases hstop

/-- A round over the items of an array advances. -/
theorem arrayItem_advances {parseValue : ParserM (Option ValueAst)} (hvalue : Finds parseValue)
    (items : List ValueAst) :
    Advances (Before fun kind => isRightBracket kind || kind.isContainerBoundary)
      (arrayItem parseValue items) := by
  refine .bind_option hvalue (.bind_right fun _ => .bind_right fun _ => .bind_left ?_)
  refine synchronize_advances fun kind hkind hstop => ?_
  cases kind <;> first | rfl | (cases hkind; done) | cases hstop

/-- A round over request headers advances. -/
theorem requestHeader_advances (entries : List HeaderValueEntryAst) :
    Advances (Before fun kind => isRightBrace kind || kind.isContainerBoundary)
      (requestHeader entries) := by
  refine .bind_right fun name => .bind_right fun _ => .bind_option parseValue_finds ?_
  refine .bind_right fun _ => .bind_left (synchronize_advances fun kind hkind hstop => ?_)
  cases kind <;> first | rfl | (cases hkind; done) | cases hstop

/-- A round over the sections of a request advances. -/
theorem requestSection_advances (sections : List RequestSectionAst) :
    Advances (Before fun kind => isRightBrace kind || kind.isTestBoundary)
      (requestSection sections) := by
  refine .byKind fun kind _ => ?_
  split
  · next heq =>
    cases heq
    exact .bind_left parseRequestHeaders_advances
  · next heq =>
    cases heq
    exact .bind_left parseRequestQuery_advances
  · next heq =>
    cases heq
    exact .bind_left parseRequestBody_advances
  · exact .bind_right fun _ => .bind_left (.bump fun h => (nomatch h))

/-- A round over header assertions advances. -/
theorem responseHeader_advances (entries : List ResponseHeaderAssertionAst) :
    Advances (Before fun kind => isRightBrace kind || kind.isExpectationSectionStart ||
      kind.isTestBoundary) (responseHeader entries) := by
  have hother : Advances (Before fun kind => isRightBrace kind || kind.isExpectationSectionStart ||
      kind.isTestBoundary) (do
        expected "`: string`, `=`, or `contains` after response header name"
        synchronizeExpectationEntry
        pure entries) := by
    refine .bind_right fun _ => .bind_left (synchronize_advances fun kind hkind hstop => ?_)
    cases kind <;> first | rfl | (cases hkind; done) | cases hstop
  exact .bind_right fun name => .take_else rfl (.take_else rfl (.contextual_else hother))

/-- A round over the sections of an expectation advances. -/
theorem expectationSection_advances (sections : List ExpectationSectionAst) :
    Advances (Before fun kind => isRightBrace kind || kind.isTestBoundary)
      (expectationSection sections) := by
  refine .byKind fun kind _ => ?_
  split
  · next heq =>
    cases heq
    exact .bind_left parseStatusAssertion_advances
  · next heq =>
    cases heq
    exact .bind_left parseResponseHeaders_advances
  · next heq =>
    cases heq
    exact .bind_left parseBodyAssertion_advances
  · exact .bind_right fun _ => .bind_left (.bump fun h => (nomatch h))

/-- A field that is found is taken. -/
theorem parseFieldAssertion_finds (parseNested : ParserM ObjectAssertionAst) :
    Finds (parseFieldAssertion parseNested) := by
  intro p field h
  rw [parseFieldAssertion, Recorder.run_bind] at h ⊢
  refine rest_ne_of_suffix (objectKey.moves p).1 ((Recorder.moves _ _ : parserRecording.moves _ _)).1 ?_
  cases hkey : (objectKey.run p).1 with
  | some key => exact objectKey_finds p key hkey
  | none =>
    rw [hkey] at h
    cases h

/-- A round over the fields of an object advances. -/
theorem fieldAssertion_advances (parseNested : ParserM ObjectAssertionAst)
    (fields : List FieldAssertionAst) :
    Advances (Before fun kind => isRightBrace kind || kind.isContainerBoundary)
      (fieldAssertion parseNested fields) := by
  refine .bind_option (parseFieldAssertion_finds parseNested) (.bind_left ?_)
  refine synchronize_advances fun kind hkind hstop => ?_
  cases kind <;> first | rfl | (cases hkind; done) | cases hstop

/-- A round over the items of a test advances. -/
theorem testItem_advances (items : TestItems) :
    Advances (Before fun kind => isRightBrace kind || kind.isSuiteBoundary) (testItem items) := by
  refine .byKind fun kind _ => ?_
  split
  · next heq =>
    cases heq
    exact .bind_right fun _ => .bind_left parseRequest_advances
  · next heq =>
    cases heq
    exact .bind_left parseExpectation_advances
  · exact .bind_right fun _ => .bind_left (.bump fun h => (nomatch h))

/-- A round over the tests of a block advances. -/
theorem containedTest_advances (description : String) (tests : List TestAst) :
    Advances (Before fun kind => isRightBrace kind || kind.isOuterBlockBoundary)
      (containedTest description tests) := by
  refine .bind fun p hp _ => ?_
  change ((if ((check .test).run p).1 = true then _ else _ : ParserM _).run p).2.rest ≠ p.rest
  split
  · next hcheck =>
    have htest : Advances (· = some .test) (do return tests ++ [← parseTest]) :=
      .bind_left parseTest_advances
    obtain ⟨kind, hkind, -⟩ := hp
    refine htest p (hkind.trans ?_)
    change (p.head.any fun actual => actual.discriminant == TokenKind.test.discriminant) = true
      at hcheck
    rw [(head_of_next hkind).2] at hcheck
    exact congrArg some ((TokenKind.discriminant_eq_iff rfl).mp (beq_iff_eq.mp hcheck))
  · exact Advances.bind_right (fun _ => .bind_left (.bump not_before_none)) p hp

/-- **A round over the blocks** of a suite advances. -/
theorem suiteItem_advances (items : SuiteItems) :
    Advances (Before fun _ => false) (suiteItem items) := by
  refine .byKind fun kind _ => ?_
  split
  · next heq =>
    cases heq
    exact .bind_right fun _ => .bind_left parseCoreBlock_advances
  · next heq =>
    cases heq
    exact .bind_left parsePipelineBlock_advances
  · next heq =>
    cases heq
    exact .bind_left parseTest_advances
  · exact .bind_right fun _ => .bind_left (.bump fun h => (nomatch h))

/-! ## The end of a loop -/

section
omit [Platform]

/-- What has been passed is no longer ahead. -/
theorem Passed.live_lt {p q : Parser} {ts : List Token} (h : Passed p q ts) (hrest : q.rest ≠ p.rest) :
    q.live.length < p.live.length := by
  rw [h.live_eq, List.length_append]
  cases ts with
  | nil => exact absurd h.rest.symm hrest
  | cons t ts => exact Nat.lt_add_of_pos_left (Nat.succ_pos _)

/-- **The loop rule.** A loop whose rounds pass over tokens ends because its condition fails, and
keeps what its rounds keep. -/
theorem untilNext_ends {α : Type} {stop : TokenKind → Bool} {body : α → ParserM α}
    {I : α → Parser → Prop}
    (hround : ∀ a p, I a p → Before stop p.next →
      I ((body a).run p).1 ((body a).run p).2 ∧ ∃ ts, Passed p ((body a).run p).2 ts)
    (hadvances : ∀ a, Advances (Before stop) (body a)) {start : α} {p : Parser} (h : I start p) :
    let r := (untilNext stop body start).run p
    I r.1 r.2 ∧ ¬ Before stop r.2.next := by
  have hends := Recorder.repeatWhile_ends (M := parserRecording) (I := I)
    (fun (_ : α) (p : Parser) => !p.head.all (·.isEof) && !p.head.any stop) body
    (fun p : Parser => p.live.length) (fun a q hI hagain => ?_)
    (Nat.le_refl p.live.length) h
  · rw [untilNext_run]
    refine ⟨hends.1, fun hbefore => ?_⟩
    exact Bool.false_ne_true (hends.2.symm.trans (again_of_before hbefore))
  · obtain ⟨hI', ts, hpassed⟩ := hround a q hI (before_of_again hagain)
    exact ⟨hI', hpassed.live_lt (hadvances a q (before_of_again hagain))⟩

end

end Rettp
