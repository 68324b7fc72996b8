import Rettp.AstSpans
import Rettp.ParserRecursion

/-!
# What the parser reads

Where a parser function records no error, the node that it returns covers the tokens that it has
passed over. `Parses n us f Q` says what `f` makes of the tokens of a construct: if `us` have been
passed before, and at most `n` containers may still be opened, then afterwards `Q` holds of the
result and of all tokens of the construct. There is one rule for each way in which the parser
functions are put together. A report makes any claim true, so nothing is said about recovery.
-/

namespace Rettp

open Recorder (Reports)

/-- The tokens from some place on: they stand one after the other, and there is an end. -/
structure TokenStream (tokens : List Token) : Prop where
  ordered : Ordered tokens
  ends : ∃ t ∈ tokens, t.kind.isEof = true

namespace TokenStream

theorem passed {p q : Parser} {ts : List Token} (h : TokenStream p.rest) (hpassed : Passed p q ts) :
    TokenStream q.rest := by
  obtain ⟨t, ht, heof⟩ := h.ends
  refine ⟨h.ordered.sublist (hpassed.rest ▸ List.sublist_append_right _ _), t, ?_, heof⟩
  rw [hpassed.rest, List.mem_append] at ht
  refine ht.resolve_left fun hmem => ?_
  rw [hpassed.live t hmem] at heof
  cases heof

theorem ordered_passed {p q : Parser} {ts : List Token} (h : TokenStream p.rest)
    (hpassed : Passed p q ts) : Ordered ts :=
  h.ordered.sublist (hpassed.rest ▸ List.sublist_append_left _ _)

/-- There is a next token, if only the end. -/
theorem head {p : Parser} (h : TokenStream p.rest) :
    (∃ t live, p.live = t :: live) ∨ p.live = [] ∧ p.head = some .eof := by
  cases hlive : p.live with
  | cons t live => exact .inl ⟨t, live, rfl⟩
  | nil =>
    refine .inr ⟨rfl, ?_⟩
    rcases rest_of_live_nil hlive with hrest | ⟨t, rest, hrest, ht⟩
    · obtain ⟨t, ht, -⟩ := h.ends
      rw [hrest] at ht
      cases ht
    · rw [Parser.head, hrest, List.head?_cons, Option.map_some, ht]

end TokenStream

/-- The token `t` is next. -/
def Faces (t : Token) (p : Parser) : Prop := p.live.head? = some t

/-- Where `H` holds and at most `n` containers may be opened, `f` goes on with a construct. -/
def ParsesWhen {α : Type} (H : Parser → Prop) (n : Nat) (us : List Token) (f : ParserM α)
    (Q : α → List Token → Prop) : Prop :=
  ∀ p q, TokenStream p.rest → Passed p q us → q.nestingLeft ≤ n → H q →
    (f.run q).2.errors = q.errors →
      ∃ vs, Passed p (f.run q).2 vs ∧ (f.run q).2.nestingDepth = q.nestingDepth ∧ Q (f.run q).1 vs

/-- The function reads these tokens wherever they stand. -/
abbrev Parses {α : Type} (n : Nat) (us : List Token) (f : ParserM α)
    (Q : α → List Token → Prop) : Prop :=
  ParsesWhen (fun _ => True) n us f Q

variable {α β : Type} {H : Parser → Prop} {n : Nat} {us : List Token} {t : Token}
  {Q : α → List Token → Prop}

/-- What has been passed is spanned from its first token on. -/
theorem Passed.spanFrom {p q : Parser} (hpassed : Passed p q us) (hordered : Ordered us)
    (hne : us ≠ []) : q.spanFrom (hull us).start = hull us := by
  have hlast := List.getLast?_eq_some_getLast hne
  have hle := hordered.start_le_end hne
  have hend : (hull us).end_ = (us.getLast hne).span.end_ := by rw [hull, hlast]; rfl
  rw [Parser.spanFrom, hpassed.previous, hlast]
  change (⟨_, max (us.getLast hne).span.end_ (hull us).start⟩ : SourceSpan) = _
  rw [← hend, Nat.max_eq_left hle]

namespace ParsesWhen

theorem of_reads {f : ParserM α} (h : Parses n us f Q) : ParsesWhen H n us f Q :=
  fun p q hstream hpassed hn _ => h p q hstream hpassed hn trivial

/-- After a report nothing is claimed. -/
theorem report {f : ParserM α} (h : Reports f) : ParsesWhen H n us f Q :=
  fun _ q _ _ _ _ herrors => absurd herrors (h q)

theorem pure {a : α} (h : Q a us) : ParsesWhen H n us (Pure.pure a) Q :=
  fun _ _ _ hpassed _ _ _ => ⟨us, hpassed, rfl, h⟩

/-- **Sequencing.** -/
theorem bind {R : β → List Token → Prop} {f : ParserM β} {k : β → ParserM α}
    (hf : ParsesWhen H n us f R) (hk : ∀ b vs, R b vs → Parses n vs (k b) Q) :
    ParsesWhen H n us (f >>= k) Q := by
  intro p q hstream hpassed hn hH herrors
  rw [Recorder.run_bind] at herrors ⊢
  -- neither part records an error
  have hf_errors : (f.run q).2.errors = q.errors := by
    by_contra hne
    exact Recorder.errors_ne (M := parserRecording) hne herrors
  obtain ⟨vs, hvs, hdepth, hR⟩ := hf p q hstream hpassed hn hH hf_errors
  have hn' : (f.run q).2.nestingLeft ≤ n := (nestingLeft_run hdepth).trans_le hn
  obtain ⟨ws, hws, hdepth', hQ⟩ :=
    hk _ vs hR p _ hstream hvs hn' trivial (herrors.trans hf_errors.symm)
  exact ⟨ws, hws, hdepth'.trans hdepth, hQ⟩

/-- A construct inside of another one. -/
theorem inner {R : β → List Token → Prop} {f : ParserM β} (hf : Parses n [] f R) :
    Parses n us f fun b vs => ∃ ws, vs = us ++ ws ∧ R b ws := by
  intro p q hstream hpassed hn _ herrors
  obtain ⟨ws, hws, hdepth, hR⟩ :=
    hf q q (hstream.passed hpassed) (.refl q) hn trivial herrors
  exact ⟨us ++ ws, hpassed.trans hws, hdepth, ws, rfl, hR⟩

/-- A construct inside of another one, which ends it. -/
theorem lift {R : α → List Token → Prop} {f : ParserM α} (hf : Parses n [] f R)
    (hQ : ∀ a ws, R a ws → Q a (us ++ ws)) : Parses n us f Q := by
  intro p q hstream hpassed hn hH herrors
  obtain ⟨vs, hvs, hdepth, ws, rfl, hR⟩ := inner hf p q hstream hpassed hn hH herrors
  exact ⟨us ++ ws, hvs, hdepth, hQ _ ws hR⟩

theorem call {R : β → List Token → Prop} {f : ParserM β} {k : β → ParserM α}
    (hf : Parses n [] f R) (hk : ∀ b ws, R b ws → Parses n (us ++ ws) (k b) Q) :
    Parses n us (f >>= k) Q := by
  refine bind (inner hf) fun b vs ⟨ws, hvs, hR⟩ => ?_
  rw [hvs]
  exact hk b ws hR

theorem mono {f : ParserM α} {m : Nat} (h : Parses n us f Q) (hmn : m ≤ n) : Parses m us f Q :=
  fun p q hstream hpassed hm => h p q hstream hpassed (hm.trans hmn)

theorem conseq {R : α → List Token → Prop} {f : ParserM α} (h : ParsesWhen H n us f R)
    (hQ : ∀ a vs, R a vs → Q a vs) : ParsesWhen H n us f Q := by
  intro p q hstream hpassed hn hH herrors
  obtain ⟨vs, hvs, hdepth, hR⟩ := h p q hstream hpassed hn hH herrors
  exact ⟨vs, hvs, hdepth, hQ _ vs hR⟩

theorem ite {c : Prop} [Decidable c] {f g : ParserM α} (hf : c → ParsesWhen H n us f Q)
    (hg : ¬ c → ParsesWhen H n us g Q) : ParsesWhen H n us (if c then f else g) Q := by
  split
  · next h => exact hf h
  · next h => exact hg h

/-- What is read of the state does not matter. -/
theorem read {get : Parser → β} {k : β → ParserM α} (h : ∀ b, ParsesWhen H n us (k b) Q) :
    ParsesWhen H n us (Recorder.read get >>= k) Q :=
  fun p q => h (get q) p q

/-- What has been passed stands in order. -/
theorem of_ordered {f : ParserM α} (h : Ordered us → ParsesWhen H n us f Q) :
    ParsesWhen H n us f Q :=
  fun p q hstream hpassed => h (hstream.ordered_passed hpassed) p q hstream hpassed

theorem spanFrom {k : SourceSpan → ParserM α} {start : Nat} (hne : us ≠ [])
    (hstart : start = (hull us).start) (h : Parses n us (k (hull us)) Q) :
    Parses n us (Rettp.spanFrom start >>= k) Q := by
  intro p q hstream hpassed hn hH herrors
  have hspan : (Rettp.spanFrom start).run q = (hull us, q) := by
    rw [hstart, Rettp.spanFrom, Recorder.run_read,
      hpassed.spanFrom (hstream.ordered_passed hpassed) hne]
  rw [Recorder.run_bind, hspan] at herrors ⊢
  exact h p q hstream hpassed hn hH herrors

/-! ## Tokens -/

theorem bump {k : Unit → ParserM α} (h : Parses n (us ++ [t]) (k ()) Q) :
    ParsesWhen (Faces t) n us (Rettp.bump >>= k) Q := by
  intro p q hstream hpassed hn hfaces herrors
  obtain ⟨live, hlive⟩ : ∃ live, q.live = t :: live := List.head?_eq_some_iff.mp hfaces
  have hdepth : q.bump.nestingDepth = q.nestingDepth := bump_steady q
  obtain ⟨vs, hvs, hdepth', hQ⟩ := h p q.bump hstream (hpassed.trans (.bump hlive))
    ((nestingLeft_run (f := Rettp.bump) hdepth).trans_le hn) trivial
    (herrors.trans (bump_fields q).2.symm)
  exact ⟨vs, hvs, hdepth'.trans hdepth, hQ⟩

/-- The case split on the next token. -/
theorem next {k : SourceSpan → Option TokenKind → ParserM α}
    (hk : ∀ t, ParsesWhen (Faces t) n us (k t.span (some t.kind)) Q)
    (heof : ∀ span, Parses n us (k span (some .eof)) Q) :
    Parses n us (Rettp.currentSpan >>= fun span => peekKind >>= k span) Q := by
  intro p q hstream hpassed hn hH herrors
  change ((k q.currentSpan q.head).run q).2.errors = q.errors at herrors
  change ∃ vs, Passed p ((k q.currentSpan q.head).run q).2 vs ∧
    ((k q.currentSpan q.head).run q).2.nestingDepth = q.nestingDepth ∧
      Q ((k q.currentSpan q.head).run q).1 vs
  rcases (hstream.passed hpassed).head with ⟨t, live, hlive⟩ | ⟨-, hhead⟩
  · have hspan : q.currentSpan = t.span := by rw [currentSpan_eq, hlive]; rfl
    have hnext : q.next = some t.kind := next_of_live hlive
    rw [hspan, (head_of_next hnext).2] at herrors ⊢
    have hfaces : Faces t q := by rw [Faces, hlive]; rfl
    exact hk t p q hstream hpassed hn hfaces herrors
  · rw [hhead] at herrors ⊢
    exact heof _ p q hstream hpassed hn hH herrors

theorem take {kind : TokenKind} {k : Option Token → ParserM α} (hbare : kind.isBare = true)
    (heof : kind.isEof = false) (hsome : ∀ t, t.kind = kind → Parses n (us ++ [t]) (k (some t)) Q)
    (hnone : Parses n us (k none) Q) : Parses n us (Rettp.take kind >>= k) Q := by
  intro p q hstream hpassed hn hH herrors
  rw [Recorder.run_bind, take_eq heof] at herrors ⊢
  cases hlive : q.live with
  | nil =>
    rw [hlive] at herrors
    exact hnone p q hstream hpassed hn hH herrors
  | cons t live =>
    rw [hlive] at herrors
    dsimp only at herrors ⊢
    by_cases hkind : t.kind.discriminant = kind.discriminant
    · rw [if_pos (beq_iff_eq.mpr hkind)] at herrors ⊢
      have hfaces : Faces t q := by rw [Faces, hlive]; rfl
      have hbump : ParsesWhen (Faces t) n us (Rettp.bump >>= fun _ => k (some t)) Q :=
        bump (hsome t ((TokenKind.discriminant_eq_iff hbare).mp hkind))
      exact hbump p q hstream hpassed hn hfaces herrors
    · rw [if_neg (fun h => hkind (beq_iff_eq.mp h))] at herrors ⊢
      exact hnone p q hstream hpassed hn hH herrors

/-- A comma that may be missing. -/
theorem comma {k : Unit → ParserM α}
    (h : ∀ commas, (SpanPart.optional [.comma]).Covers commas → Parses n (us ++ commas) (k ()) Q) :
    Parses n us (skipOptionalComma >>= k) Q := by
  have hskip : Parses n [] skipOptionalComma fun _ commas =>
      (SpanPart.optional [.comma]).Covers commas := by
    refine take rfl rfl (fun t ht => pure ?_) (pure (.absent _))
    exact .present (congrArg ([·]) ht)
  exact call hskip fun _ commas => h commas

theorem contextual {word : String} {k : Bool → ParserM α}
    (htrue : ∀ t, t.kind = .identifier word → Parses n (us ++ [t]) (k true) Q)
    (hfalse : Parses n us (k false) Q) : Parses n us (takeContextualIdentifier word >>= k) Q := by
  have hword : Parses n us (takeContextualIdentifier word) fun found vs =>
      if found then ∃ t, t.kind = .identifier word ∧ vs = us ++ [t] else vs = us := by
    have hnext : Parses n us (Rettp.currentSpan >>= fun _ => takeContextualIdentifier word)
        fun found vs =>
          if found then ∃ t, t.kind = .identifier word ∧ vs = us ++ [t] else vs = us := by
      refine next (fun t => ?_) fun _ => pure rfl
      generalize hkind : t.kind = kind
      cases kind with
      | identifier value =>
        refine ite (fun hvalue => bump (pure ⟨t, ?_, rfl⟩)) fun _ => pure rfl
        rw [hkind, hvalue]
      | _ => exact pure rfl
    exact fun p q => hnext p q
  refine bind hword fun found vs h => ?_
  cases found with
  | true =>
    obtain ⟨t, ht, rfl⟩ := h
    exact htrue t ht
  | false =>
    obtain rfl := h
    exact hfalse

theorem pushErrorIf {c : Bool} {kind : ParserErrorKind} {k : Unit → ParserM α}
    (h : c = false → Parses n us (k ()) Q) : Parses n us (Rettp.pushErrorIf c kind >>= k) Q := by
  cases c with
  | false => exact h rfl
  | true => exact report (.bind_left (.bind_right _ fun _ => pushError_reports _ _) _)

/-! ## Loops and containers -/

/-- **Loops.** What a round keeps, the loop keeps. -/
theorem untilNext {I : β → List Token → Prop} {stop : TokenKind → Bool} {body : β → ParserM β}
    (hbody : ∀ b vs, I b vs → Parses n vs (body b) I) {start : β} (h : I start us) :
    Parses n us (Rettp.untilNext stop body start) I := by
  have hrounds : ∀ fuel b vs, I b vs → Parses n vs (rounds stop body fuel b) I := by
    intro fuel
    induction fuel with
    | zero => exact fun b vs hI => pure hI
    | succ fuel ih =>
      intro b vs hI p q hstream hpassed hn hH herrors
      by_cases hbefore : Before stop q.next
      · rw [rounds_step hbefore] at herrors ⊢
        exact bind (hbody b vs hI) ih p q hstream hpassed hn hH herrors
      · rw [rounds_stop hbefore]
        exact ⟨vs, hpassed, rfl, hI⟩
  intro p q hstream hpassed hn hH herrors
  rw [untilNext_run] at herrors ⊢
  exact hrounds _ start us h p q hstream hpassed hn hH herrors

/-- **Containers.** Inside, one container less may be opened. -/
theorem opened {R : β → List Token → Prop} {inner : ParserM β} {result : β → SourceSpan → α}
    {refused : SourceSpan → α} (hinner : ∀ m < n, Parses m [] inner R)
    (h : ∀ b ws, R b ws → Q (result b (hull (t :: ws))) (t :: ws)) :
    Parses n [t] (Rettp.opened t inner result refused) Q := by
  intro p q hstream hpassed hn hH herrors
  rw [opened_run] at herrors ⊢
  split at herrors
  · -- at the limit an error is recorded
    refine absurd herrors (Recorder.errors_ne (M := parserRecording) (f := pushError _ _) ?_)
    exact pushError_reports (.nestingLimitExceeded q.maxNestingDepth) t.span q
  · next hroom =>
    rw [if_neg hroom]
    have hleft : (q.atDepth (q.nestingDepth + 1)).nestingLeft < n := by
      have hroom' : q.nestingDepth < q.maxNestingDepth := Nat.lt_of_not_ge hroom
      unfold Parser.nestingLeft at hn
      change q.maxNestingDepth - (q.nestingDepth + 1) < n
      omega
    have hbody : Parses (q.atDepth (q.nestingDepth + 1)).nestingLeft [t]
        (inner >>= fun b => Rettp.spanFrom t.span.start >>= fun span => Pure.pure (result b span))
        Q :=
      call (hinner _ hleft) fun b ws hR => spanFrom (List.cons_ne_nil _ _) rfl (pure (h b ws hR))
    obtain ⟨vs, hvs, hdepth, hQ⟩ := hbody p (q.atDepth (q.nestingDepth + 1)) hstream
      ⟨hpassed.rest, hpassed.live, hpassed.previous⟩ (Nat.le_refl _) trivial herrors
    exact ⟨vs, ⟨hvs.rest, hvs.live, hvs.previous⟩, congrArg (· - 1) hdepth, hQ⟩

end ParsesWhen

/-! ## Tokens that must be there -/

section
variable [Platform]

namespace ParsesWhen

theorem consume {kind : TokenKind} {description : String} {k : Option Token → ParserM α}
    (hbare : kind.isBare = true) (heof : kind.isEof = false)
    (h : ∀ t, t.kind = kind → Parses n (us ++ [t]) (k (some t)) Q) :
    Parses n us (Rettp.consume kind description >>= k) Q := by
  have hconsume : Parses n us (Rettp.consume kind description) fun token vs =>
      ∃ t, t.kind = kind ∧ token = some t ∧ vs = us ++ [t] := by
    refine take hbare heof (fun t ht => pure ⟨t, ht, rfl, rfl⟩) ?_
    exact report ((expected_reports _).bind_left _)
  refine bind hconsume ?_
  rintro _ _ ⟨t, ht, rfl, rfl⟩
  exact h t ht

theorem consumeStart {kind : TokenKind} {description : String} {k : Nat → ParserM α}
    (hbare : kind.isBare = true) (heof : kind.isEof = false)
    (h : ∀ t, t.kind = kind → Parses n [t] (k t.span.start) Q) :
    Parses n [] (Rettp.consumeStart kind description >>= k) Q := by
  have hstart : Parses n [] (Rettp.consumeStart kind description) fun start vs =>
      ∃ t, t.kind = kind ∧ start = t.span.start ∧ vs = [t] :=
    consume hbare heof fun t ht => pure ⟨t, ht, rfl, rfl⟩
  refine bind hstart ?_
  rintro _ _ ⟨t, ht, rfl, rfl⟩
  exact h t ht

theorem closed {R : β → List Token → Prop} {close : TokenKind} {description : String}
    {inner : ParserM β} (hbare : close.isBare = true) (heof : close.isEof = false)
    (hinner : Parses n [] inner R) : Parses n [] (Rettp.closed close description inner) fun b vs =>
      ∃ ws t, R b ws ∧ t.kind = close ∧ vs = ws ++ [t] :=
  call hinner fun _ ws hR => consume hbare heof fun t ht => pure ⟨ws, t, hR, ht, rfl⟩

end ParsesWhen

end

end Rettp
