import Rettp.MissingType

/-!
# What a parser function does to the tokens

Whatever a parser function does, it passes over some tokens and no end-of-input token, it leaves
the nesting as it was, and it records its errors at tokens it saw or at the end (`Moved`). Apart
from the keyword a block starts with, it passes over the keyword of a block only after a nesting
limit has been exceeded.

`Moved p` is a coupling of a run with itself, so this is `Coupled` read once more.
-/

namespace Rettp

variable [Platform]

/-- From `p` to `q` the tokens `ts` have been passed. -/
structure Passed (p q : Parser) (ts : List Token) : Prop where
  rest : p.rest = ts ++ q.rest
  live : ∀ t ∈ ts, t.kind.isEof = false
  previous : q.previous = ts.getLast?.or p.previous

/-- The spans of the tokens that `p` can see, and of its end. -/
def Parser.spans (p : Parser) : List SourceSpan :=
  (p.previous.toList ++ p.live).map (·.span) ++ [p.endSpan]

/-- What a program may do to the state, the nesting depth apart. -/
structure Moved (p q : Parser) : Prop where
  passed : ∃ ts, Passed p q ts ∧ (q.Limited ∨ ∀ t ∈ ts, t.kind.isOuterBlockBoundary = false)
  limit : q.maxNestingDepth = p.maxNestingDepth
  errors : ∃ es, q.errors = p.errors ++ es ∧ ∀ e ∈ es, e.span ∈ p.spans

section
omit [Platform]

namespace Passed

theorem refl (p : Parser) : Passed p p [] := ⟨rfl, List.forall_mem_nil _, rfl⟩

theorem trans {p q r : Parser} {ts us : List Token} (h : Passed p q ts) (h' : Passed q r us) :
    Passed p r (ts ++ us) where
  rest := by rw [h.rest, h'.rest, List.append_assoc]
  live := by
    intro t ht
    rcases List.mem_append.mp ht with ht | ht
    · exact h.live t ht
    · exact h'.live t ht
  previous := by
    rw [h'.previous, h.previous, List.getLast?_append, Option.or_assoc]

theorem live_eq {p q : Parser} {ts : List Token} (h : Passed p q ts) : p.live = ts ++ q.live := by
  unfold Parser.live
  rw [h.rest, List.takeWhile_append_of_pos fun t ht => by rw [h.live t ht]; rfl]

theorem endSpan_eq {p q : Parser} {ts : List Token} (h : Passed p q ts) : q.endSpan = p.endSpan := by
  unfold Parser.endSpan
  rw [h.rest, List.dropWhile_append_of_pos fun t ht => by rw [h.live t ht]; rfl, h.previous,
    List.getLast?_append, Option.or_assoc]

theorem bump {p : Parser} {t : Token} {live : List Token} (h : p.live = t :: live) :
    Passed p p.bump [t] where
  rest := (bump_of_live_cons h).2.2
  live := List.forall_mem_singleton.mpr (live_cons h).1
  previous := (bump_of_live_cons h).2.1

/-- Everything that is seen has been seen before. -/
theorem spans_subset {p q : Parser} {ts : List Token} (h : Passed p q ts) : q.spans ⊆ p.spans := by
  have htokens : q.previous.toList ++ q.live ⊆ p.previous.toList ++ p.live := by
    intro t ht
    rw [h.previous, List.mem_append, Option.mem_toList, Option.or_eq_some_iff] at ht
    rw [h.live_eq, List.mem_append, List.mem_append, Option.mem_toList]
    rcases ht with (ht | ⟨-, ht⟩) | ht
    · exact .inr (.inl (List.mem_of_getLast? ht))
    · exact .inl ht
    · exact .inr (.inr ht)
  unfold Parser.spans
  rw [h.endSpan_eq]
  exact List.append_subset.mpr ⟨List.Subset.trans (List.map_subset _ htokens)
    (List.subset_append_left _ _), List.subset_append_right _ _⟩

theorem mem_spans {p : Parser} {span : SourceSpan} (h : p.Seen span) : span ∈ p.spans := by
  unfold Parser.spans
  rcases h with rfl | ⟨t, ht, rfl⟩
  · rw [currentSpan_eq]
    cases hlive : p.live with
    | nil => exact List.mem_append_right _ (List.mem_singleton_self _)
    | cons t live =>
      refine List.mem_append_left _ (List.mem_map_of_mem (List.mem_append_right _ ?_))
      exact List.mem_cons_self
  · refine List.mem_append_left _ (List.mem_map_of_mem (List.mem_append_left _ ?_))
    exact Option.mem_toList.mpr ht

end Passed

namespace Moved

theorem refl (p : Parser) : Moved p p where
  passed := ⟨[], .refl p, .inr (List.forall_mem_nil _)⟩
  limit := rfl
  errors := ⟨[], (List.append_nil _).symm, List.forall_mem_nil _⟩

theorem limited {p q : Parser} (h : Moved p q) (hp : p.Limited) : q.Limited := by
  obtain ⟨es, hes, -⟩ := h.errors
  obtain ⟨e, he, hlimit⟩ := hp
  exact ⟨e, hes ▸ List.mem_append_left _ he, hlimit⟩

theorem trans {p q r : Parser} (h : Moved p q) (h' : Moved q r) : Moved p r where
  passed := by
    obtain ⟨ts, hts, hinner⟩ := h.passed
    obtain ⟨us, hus, hinner'⟩ := h'.passed
    refine ⟨ts ++ us, hts.trans hus, ?_⟩
    rcases hinner with hlimited | hinner
    · exact .inl (h'.limited hlimited)
    rcases hinner' with hlimited | hinner'
    · exact .inl hlimited
    · exact .inr (List.forall_mem_append.mpr ⟨hinner, hinner'⟩)
  limit := h'.limit.trans h.limit
  errors := by
    obtain ⟨ts, hts, -⟩ := h.passed
    obtain ⟨es, hes, hspans⟩ := h.errors
    obtain ⟨es', hes', hspans'⟩ := h'.errors
    refine ⟨es ++ es', by rw [hes', hes, List.append_assoc], fun e he => ?_⟩
    rcases List.mem_append.mp he with he | he
    · exact hspans e he
    · exact hts.spans_subset (hspans' e he)

theorem bump {p : Parser} (h : p.Skippable) : Moved p p.bump := by
  cases hlive : p.live with
  | nil =>
    rw [bump_of_live_nil hlive]
    exact .refl p
  | cons t live =>
    have hnext : p.next = some t.kind := next_of_live hlive
    have hnesting := congrArg (·.limit) (bump_fields p).1
    refine ⟨⟨[t], .bump hlive, ?_⟩, hnesting, [], ?_, List.forall_mem_nil _⟩
    · rcases h with hlimited | hinner
      · left
        rw [Parser.Limited, (bump_fields p).2]
        exact hlimited
      · exact .inr (List.forall_mem_singleton.mpr (hinner t.kind hnext))
    · rw [(bump_fields p).2, List.append_nil]

theorem report {p : Parser} (kind : ParserErrorKind) {span : SourceSpan} (h : p.Seen span) :
    Moved p (p.report kind span) where
  passed := ⟨[], ⟨rfl, List.forall_mem_nil _, rfl⟩, .inr (List.forall_mem_nil _)⟩
  limit := rfl
  errors := ⟨_, rfl, List.forall_mem_singleton.mpr (Passed.mem_spans h)⟩

theorem atDepth (p : Parser) (n : Nat) : Moved p (p.atDepth n) where
  passed := ⟨[], ⟨rfl, List.forall_mem_nil _, rfl⟩, .inr (List.forall_mem_nil _)⟩
  limit := rfl
  errors := ⟨[], (List.append_nil _).symm, List.forall_mem_nil _⟩

/-- What has been done since `start` is a coupling of a run with itself. -/
theorem coupling (start : Parser) :
    Coupling fun d p p' => p = p' ∧ p.nestingDepth = d ∧ Moved start p where
  live := fun ⟨h, _⟩ => congrArg _ h
  endSpan := fun ⟨h, _⟩ => congrArg _ h
  previous := fun ⟨h, _⟩ => congrArg _ h
  nesting := fun ⟨h, _⟩ => congrArg _ h
  depth := fun ⟨_, h, _⟩ => h
  bump := fun {_ p _} ⟨h, hdepth, hmoved⟩ hskip =>
    ⟨congrArg _ h, (congrArg (·.depth) (bump_fields p).1).trans hdepth, hmoved.trans (.bump hskip)⟩
  report := fun kind _ ⟨h, hdepth, hmoved⟩ hseen =>
    ⟨h ▸ rfl, hdepth, hmoved.trans (.report kind hseen)⟩
  atDepth := fun {_ p _} n ⟨h, _, hmoved⟩ => ⟨h ▸ rfl, rfl, hmoved.trans (.atDepth p n)⟩

end Moved

end

/-! ## The parser functions -/

variable {α : Type} {H : Option TokenKind → Prop}

/-- **Moves.** Every parser function moves and leaves the nesting as it was. -/
theorem Follows.moved {f : ParserM α} {lacks : Parser → Bool} (hf : Follows H lacks f) (p : Parser)
    (hp : H p.next) : (f.run p).2.nestingDepth = p.nestingDepth ∧ Moved p (f.run p).2 := by
  have hwatching := Watching.of_rest (Moved.coupling p) fun ⟨h, _⟩ => h ▸ Iff.rfl
  exact (@Follows.keeps _ _ _ _ _ hf _ hwatching false _ p p ⟨rfl, rfl, .refl p⟩ hp).2.2

theorem CoupledWhen.moved {f : ParserM α} (hf : CoupledWhen H f) (p : Parser) (hp : H p.next) :
    (f.run p).2.nestingDepth = p.nestingDepth ∧ Moved p (f.run p).2 :=
  (Follows.of_coupled hf).moved p hp

end Rettp
